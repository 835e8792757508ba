import DiceLang.Program.Reading
import DiceLang.Proofs.Tree.Exact

/-!
# The grammar of definitions, and reading them

The grammar goes on from expressions to definitions, again as relations between lists of tokens and
what they spell, whatever the spans: `SpellsPattern` for what stands before an arrow,
`SpellsDefinition` for one definition and `SpellsBlock` for the definitions of a list through its end
token.  `Listing` adds the line breaks that may stand in front.

Reading is sound: `listing_of_ofTokens` says that a list that is read as a block of definitions spells
it.  Since patterns and expressions have no arrows, there are as many arrows as definitions
(`Listing.countP_arrow`), and none in an expression (`Sentence.countP_arrow`), so no list is both
(`Listing.not_sentence`).
-/

namespace DiceLang

namespace Grammar

/-- What spells the pattern of a definition. -/
inductive SpellsPattern : List Token → Pattern → Prop
  /-- `pattern := IDENTIFIER` -/
  | nullary {name : Token}
      (hname : name.kind = .identifier) :
      SpellsPattern [name] ⟨⟨name.lexeme, .nullary⟩, []⟩
  /-- `pattern := IDENTIFIER " IDENTIFIER "` -/
  | prefixed {name opening parameter closing : Token}
      (hname : name.kind = .identifier)
      (hopening : opening.kind = .quote)
      (hparameter : parameter.kind = .identifier)
      (hclosing : closing.kind = .quote) :
      SpellsPattern [name, opening, parameter, closing]
        ⟨⟨name.lexeme, .prefixed⟩, [parameter.lexeme]⟩
  /-- `pattern := IDENTIFIER " IDENTIFIER " IDENTIFIER`, with two different parameters. -/
  | infixed {name opening left closing right : Token}
      (hname : name.kind = .identifier)
      (hopening : opening.kind = .quote)
      (hleft : left.kind = .identifier)
      (hclosing : closing.kind = .quote)
      (hright : right.kind = .identifier)
      (hdiffer : right.lexeme ≠ left.lexeme) :
      SpellsPattern [name, opening, left, closing, right]
        ⟨⟨name.lexeme, .infixed⟩, [left.lexeme, right.lexeme]⟩
  /-- `pattern := " IDENTIFIER " IDENTIFIER` -/
  | postfixed {opening parameter closing name : Token}
      (hopening : opening.kind = .quote)
      (hparameter : parameter.kind = .identifier)
      (hclosing : closing.kind = .quote)
      (hname : name.kind = .identifier) :
      SpellsPattern [opening, parameter, closing, name]
        ⟨⟨name.lexeme, .postfixed⟩, [parameter.lexeme]⟩

/-- `definition := pattern => expression` -/
inductive SpellsDefinition : List Token → Definition → Prop
  | arrow {head body : List Token} {arrow : Token} {definition : Definition}
      (hhead : SpellsPattern head ⟨definition.form, definition.parameters⟩)
      (harrow : arrow.kind = .arrow)
      (hbody : Spells body (.expression definition.body.erase)) :
      SpellsDefinition (head ++ arrow :: body) definition

/-- The definitions of a list that does not start with a line break, through its end token. -/
inductive SpellsBlock : List Token → List Definition → Prop
  | empty {stop : Token}
      (hstop : stop.kind = .eof) :
      SpellsBlock [stop] []
  | last {line : List Token} {definition : Definition} {stop : Token}
      (hline : SpellsDefinition line definition)
      (hstop : stop.kind = .eof) :
      SpellsBlock (line ++ [stop]) [definition]
  /-- One or more line breaks behind a definition, and further ones or just the end. -/
  | more {line gap rest : List Token} {definition : Definition} {block : List Definition}
      (hline : SpellsDefinition line definition)
      (hsome : gap ≠ [])
      (hgap : ∀ token ∈ gap, token.kind = .separator)
      (hrest : SpellsBlock rest block) :
      SpellsBlock (line ++ (gap ++ rest)) (definition :: block)

/-- A whole list of tokens that is a block of definitions, which line breaks may precede. -/
def Listing (tokens : List Token) (block : List Definition) : Prop :=
  ∃ gap rest, tokens = gap ++ rest ∧ (∀ token ∈ gap, token.kind = .separator) ∧
    SpellsBlock rest block

section Kinds

variable {tokens : List Token} {block : List Definition}

/-- Patterns are made of names and quotes. -/
theorem SpellsPattern.kinds {pattern : Pattern} (h : SpellsPattern tokens pattern) :
    ∀ token ∈ tokens, token.kind = .identifier ∨ token.kind = .quote := by
  cases h <;> simp [*]

/-- Neither the end nor a line break is part of a definition. -/
theorem SpellsDefinition.kinds {definition : Definition} (h : SpellsDefinition tokens definition) :
    ∀ token ∈ tokens, token.kind ≠ .eof ∧ token.kind ≠ .separator := by
  obtain ⟨hhead, harrow, hbody⟩ := h
  refine List.forall_mem_append.mpr ⟨?_, List.forall_mem_cons.mpr ⟨by simp [harrow], ?_⟩⟩
  · intro token htoken
    rcases hhead.kinds token htoken with hkind | hkind <;> simp [hkind]
  · intro token htoken
    have hkinds := hbody.kinds token htoken
    constructor <;> intro hkind <;> simp [hkind, isPlain] at hkinds

/-- The end is no part of a definition. -/
theorem SpellsDefinition.kind_ne_eof {definition : Definition}
    (h : SpellsDefinition tokens definition) : ∀ token ∈ tokens, token.kind ≠ .eof :=
  fun token htoken => (h.kinds token htoken).1

/-- Blocks of definitions are closed. -/
theorem SpellsBlock.closed (h : SpellsBlock tokens block) : Closed tokens := by
  induction h with
  | empty hstop => exact closed_singleton hstop
  | last hline hstop => exact (closed_singleton hstop).append hline.kind_ne_eof
  | more hline _ hgap _ ih =>
      exact (ih.append (kind_ne_eof_of_separators hgap)).append hline.kind_ne_eof

/-- Listings are closed, as the blocks in them are. -/
theorem Listing.closed (h : Listing tokens block) : Closed tokens := by
  obtain ⟨gap, rest, rfl, hgap, hblock⟩ := h
  exact hblock.closed.append (kind_ne_eof_of_separators hgap)

theorem SpellsDefinition.kind_ne_separator {definition : Definition}
    (h : SpellsDefinition tokens definition) : ∀ token ∈ tokens, token.kind ≠ .separator :=
  fun token htoken => (h.kinds token htoken).2

/-- There are no parentheses in a pattern. -/
theorem SpellsPattern.balanced {pattern : Pattern} (h : SpellsPattern tokens pattern) :
    Balanced tokens := by
  refine balanced_of_kinds fun token htoken => ?_
  rcases h.kinds token htoken with hkind | hkind <;> simp [hkind]

/-- A definition closes every parenthesis that it opens. -/
theorem SpellsDefinition.balanced {definition : Definition} (h : SpellsDefinition tokens definition) :
    Balanced tokens := by
  obtain ⟨hhead, harrow, hbody⟩ := h
  exact hhead.balanced.append ((balanced_of_kind harrow (by decide)).append hbody.balanced)

/-- There is no arrow among line breaks. -/
theorem countP_arrow_gap (h : ∀ token ∈ tokens, token.kind = .separator) :
    tokens.countP (isKind .arrow) = 0 :=
  countP_isKind_eq_zero fun token htoken => by simp [h token htoken]

/-- There is no arrow in a pattern. -/
theorem SpellsPattern.countP_arrow {pattern : Pattern} (h : SpellsPattern tokens pattern) :
    tokens.countP (isKind .arrow) = 0 := by
  refine countP_isKind_eq_zero fun token htoken => ?_
  rcases h.kinds token htoken with hkind | hkind <;> simp [hkind]

/-- There is no arrow in a phrase. -/
theorem Spells.countP_arrow {phrase : Phrase} (h : Spells tokens phrase) :
    tokens.countP (isKind .arrow) = 0 := by
  refine countP_isKind_eq_zero fun token htoken hkind => ?_
  have hkinds := h.kinds token htoken
  simp [hkind, isPlain] at hkinds

/-- A definition has one arrow. -/
theorem SpellsDefinition.countP_arrow {definition : Definition}
    (h : SpellsDefinition tokens definition) : tokens.countP (isKind .arrow) = 1 := by
  obtain ⟨hhead, harrow, hbody⟩ := h
  rw [List.countP_append, hhead.countP_arrow, List.countP_cons, hbody.countP_arrow]
  simp [isKind, harrow]

/-- There are as many arrows in a block as definitions. -/
theorem SpellsBlock.countP_arrow (h : SpellsBlock tokens block) :
    tokens.countP (isKind .arrow) = block.length := by
  induction h with
  | empty hstop => simp [isKind, hstop]
  | last hline hstop => simp [hline.countP_arrow, isKind, hstop]
  | more hline _ hgap _ ih =>
      rw [List.countP_append, List.countP_append, hline.countP_arrow, countP_arrow_gap hgap, ih,
        List.length_cons]
      omega

/-- **One arrow for each definition.** -/
theorem Listing.countP_arrow (h : Listing tokens block) :
    tokens.countP (isKind .arrow) = block.length := by
  obtain ⟨gap, rest, rfl, hgap, hrest⟩ := h
  rw [List.countP_append, countP_arrow_gap hgap, hrest.countP_arrow, Nat.zero_add]

/-- No arrow in an expression. -/
theorem Sentence.countP_arrow {tree : Tree} (h : Sentence tokens tree) :
    tokens.countP (isKind .arrow) = 0 := by
  obtain ⟨body, gap, stop, rfl, hspells, hgap, hstop⟩ := h
  rw [List.countP_append, List.countP_append, hspells.countP_arrow, countP_arrow_gap hgap]
  simp [isKind, hstop]

/-- A list that is an expression is no block of definitions, not even an empty one. -/
theorem Listing.not_sentence {tree : Tree} (h : Listing tokens block) : ¬ Sentence tokens tree := by
  intro hsentence
  have hnone : block = [] := by
    rw [← List.length_eq_zero_iff, ← h.countP_arrow, hsentence.countP_arrow]
  subst hnone
  obtain ⟨gap, rest, htokens, hgap, hrest⟩ := h
  obtain ⟨body, others, stop, htokens', hspells, -, -⟩ := hsentence
  have hstart := hspells.startsWith (others ++ [stop])
  rw [← htokens', htokens] at hstart
  cases hrest with
  | empty hstop =>
      cases gap with
      | nil => simp [startsWith, openers, hstop] at hstart
      | cons token gap =>
          simp [startsWith, openers, hgap token List.mem_cons_self] at hstart

end Kinds

section Sound

variable {limit : Nat} {tokens : List Token}

/-- A parameter between quotes takes three tokens, of which the second is its name. -/
theorem quotedParameter_sound {opening reading : Reading Token tokens}
    (hopening : opening.Occupies [opening.value]) (h : quotedParameter opening = .ok reading) :
    ∃ closing, reading.Occupies [opening.value, reading.value, closing] ∧
      reading.value.kind = .identifier ∧ closing.kind = .quote := by
  obtain ⟨name, hname, h⟩ := bind_eq_ok h
  obtain ⟨closing, hclosing, h⟩ := bind_eq_ok h
  cases h
  obtain ⟨hkind, hsecond⟩ := expect_eq_ok hname
  obtain ⟨hclose, hlast⟩ := expect_eq_ok hclosing
  exact ⟨closing.value, hopening.andThen (hsecond.andThen (hlast.as _)), hkind, hclose⟩

/-- What a pattern is read from spells it. -/
theorem pattern_sound {reading : Reading Pattern tokens} (h : pattern tokens = .ok reading) :
    ∃ taken, reading.Occupies taken ∧ SpellsPattern taken reading.value := by
  unfold pattern at h
  split at h
  · next opening hopening =>
    obtain ⟨hopen, hfirst⟩ := take?_ofKind_eq_some hopening
    obtain ⟨parameter, hparameter, h⟩ := bind_eq_ok h
    obtain ⟨name, hname, h⟩ := bind_eq_ok h
    cases h
    obtain ⟨closing, hfront, hkind, hclose⟩ := quotedParameter_sound hfirst hparameter
    obtain ⟨hnamed, hlast⟩ := expect_eq_ok hname
    exact ⟨_, hfront.andThen (hlast.as _), .postfixed hopen hkind hclose hnamed⟩
  · obtain ⟨name, hname, h⟩ := bind_eq_ok h
    obtain ⟨hnamed, hfirst⟩ := expect_eq_ok hname
    split at h
    · cases h
      exact ⟨_, hfirst.as _, .nullary hnamed⟩
    · next opening hopening =>
      obtain ⟨hopen, hsecond⟩ := take?_ofKind_eq_some hopening
      obtain ⟨left, hleft, h⟩ := bind_eq_ok h
      obtain ⟨closing, hmiddle, hkind, hclose⟩ := quotedParameter_sound hsecond hleft
      split at h
      · cases h
        exact ⟨_, hfirst.andThen (hmiddle.as _), .prefixed hnamed hopen hkind hclose⟩
      · next right hright =>
        obtain ⟨hlast, hthird⟩ := take?_ofKind_eq_some hright
        split at h
        · cases h
        · next hdiffer =>
          cases h
          exact ⟨_, hfirst.andThen (hmiddle.andThen (hthird.as _)),
            .infixed hnamed hopen hkind hclose hlast hdiffer⟩

/-- A definition has been read from some tokens: it stands over all of them, with its body at the
end, and none of their numerals is too long. -/
structure DefinitionFrom (taken : List Token) (definition : Definition) : Prop where
  spells : SpellsDefinition taken definition
  short : ∀ token ∈ taken, ¬ Overlong token
  laid : Laid Sits taken [definition.toTree]

/-- A definition is read from the tokens that it takes. -/
theorem definition_sites (limit : Nat) : Sites DefinitionFrom (definition limit) := by
  intro tokens reading h
  obtain ⟨head, hhead, h⟩ := bind_eq_ok h
  obtain ⟨arrow, harrow, h⟩ := bind_eq_ok h
  obtain ⟨body, hbody, h⟩ := bind_eq_ok h
  cases h
  obtain ⟨front, hfront, hpattern⟩ := pattern_sound hhead
  obtain ⟨hkind, hsecond⟩ := expect_eq_ok harrow
  obtain ⟨back, hback, hread⟩ := expression_sites limit hbody
  have hwhole := hfront.andThen (hsecond.andThen hback)
  refine ⟨_, hwhole.as _, .arrow hpattern hkind hread.spells, ?_, ?_⟩
  · have hnames : ∀ token ∈ front, ¬ Overlong token := fun token htoken => not_overlong <| by
      rcases hpattern.kinds token htoken with hname | hname <;> simp [hname]
    have hsign : ¬ Overlong arrow.value := not_overlong (by simp [hkind])
    exact List.forall_mem_append.mpr ⟨hnames, List.forall_mem_cons.mpr ⟨hsign, hread.roomy.short⟩⟩
  · have hbelow := hread.wrapped.laid.mono fun _ _ hpiece => hpiece.toSits
    exact .single ⟨⟨_, rfl, hwhole.spans⟩, trivial⟩ ((hbelow.before [arrow.value]).before front)

/-- What a definition is read from spells it. -/
theorem definition_sound {reading : Reading Definition tokens}
    (h : definition limit tokens = .ok reading) :
    ∃ taken, reading.Takes taken ∧ SpellsDefinition taken reading.value := by
  obtain ⟨taken, hoccupies, hread⟩ := definition_sites limit h
  exact ⟨taken, hoccupies.takes, hread.spells⟩

/-- Definitions have been read from some tokens, and stand there one behind the other. -/
structure BlockFrom (taken : List Token) (block : List Definition) : Prop where
  inner : ∀ token ∈ taken, token.kind ≠ .eof
  short : ∀ token ∈ taken, ¬ Overlong token
  laid : Laid Sits taken (block.map Definition.toTree)

/-- One definition is a block of one. -/
theorem DefinitionFrom.blockFrom {taken : List Token} {definition : Definition}
    (h : DefinitionFrom taken definition) : BlockFrom taken [definition] :=
  ⟨h.spells.kind_ne_eof, h.short, h.laid⟩

/-- Line breaks between two blocks are part of neither. -/
theorem BlockFrom.append {front gap back : List Token} {block others : List Definition}
    (hfront : BlockFrom front block) (hgap : ∀ token ∈ gap, token.kind = .separator)
    (hback : BlockFrom back others) : BlockFrom (front ++ (gap ++ back)) (block ++ others) where
  inner := by
    have hbreaks : ∀ token ∈ gap, token.kind ≠ .eof := fun token htoken => by simp [hgap token htoken]
    exact List.forall_mem_append.mpr
      ⟨hfront.inner, List.forall_mem_append.mpr ⟨hbreaks, hback.inner⟩⟩
  short := by
    have hbreaks : ∀ token ∈ gap, ¬ Overlong token :=
      fun token htoken => not_overlong (by simp [hgap token htoken])
    exact List.forall_mem_append.mpr
      ⟨hfront.short, List.forall_mem_append.mpr ⟨hbreaks, hback.short⟩⟩
  laid := by
    rw [List.map_append]
    exact hfront.laid.append (hback.laid.before gap)

/-- Definitions are read from all that stands before the end. -/
theorem definitions_read {block : List Definition} (h : definitions limit tokens = .ok block) :
    ∃ front rest, tokens = front ++ rest ∧ atEnd rest = true ∧ BlockFrom front block := by
  fun_induction definitions limit tokens generalizing block with
  | case1 tokens hend =>
      cases h
      exact ⟨[], tokens, rfl, hend, List.forall_mem_nil _, List.forall_mem_nil _, .nil []⟩
  | case2 tokens hend ih =>
      obtain ⟨first, hfirst, h⟩ := bind_eq_ok h
      obtain ⟨line, hoccupies, hread⟩ := definition_sites limit hfirst
      split at h
      · next hlast =>
          cases h
          exact ⟨line, first.rest, hoccupies.takes, hlast, hread.blockFrom⟩
      · obtain ⟨gap, hgap, h⟩ := bind_eq_ok h
        obtain ⟨others, hothers, h⟩ := bind_eq_ok h
        cases h
        obtain ⟨hkind, hbreak⟩ := expect_eq_ok hgap
        obtain ⟨further, hfurther, hall⟩ := skipSeparators_eq gap.rest
        obtain ⟨front, rest, hrest, hlast, hlater⟩ := ih first gap hothers
        have hbreaks : ∀ token ∈ gap.value :: further, token.kind = .separator :=
          List.forall_mem_cons.mpr ⟨hkind, hall⟩
        refine ⟨_, rest, ?_, hlast, hread.blockFrom.append hbreaks hlater⟩
        calc tokens = line ++ first.rest := hoccupies.takes
          _ = line ++ gap.value :: gap.rest := congrArg (line ++ ·) hbreak.takes
          _ = line ++ gap.value :: (further ++ (front ++ rest)) := by rw [← hrest, ← hfurther]
          _ = line ++ (gap.value :: further ++ front) ++ rest := by simp

/-- What is left of a closed list behind line breaks is closed as well. -/
theorem Closed.behind_gap {gap rest : List Token} (h : Closed (gap ++ rest))
    (hgap : ∀ token ∈ gap, token.kind = .separator) : Closed rest :=
  h.rest fun token htoken => by simp [hgap token htoken]

/-- What a block is read from spells it, through the end token. -/
theorem definitions_sound {block : List Definition} (hclosed : Closed tokens)
    (h : definitions limit tokens = .ok block) : SpellsBlock tokens block := by
  fun_induction definitions limit tokens generalizing block with
  | case1 tokens hend =>
      cases h
      obtain ⟨stop, rfl, hstop⟩ := hclosed.eq_singleton hend
      exact .empty hstop
  | case2 tokens hend ih =>
      obtain ⟨first, hfirst, h⟩ := bind_eq_ok h
      obtain ⟨line, htakes, hline⟩ := definition_sound hfirst
      have hrest : Closed first.rest := Closed.rest (htakes ▸ hclosed) hline.kind_ne_eof
      unfold Reading.Takes at htakes
      split at h
      · next hlast =>
        cases h
        obtain ⟨stop, hstop, hkind⟩ := hrest.eq_singleton hlast
        generalize first.value = definition at hline
        rw [htakes, hstop]
        exact .last hline hkind
      · obtain ⟨gap, hgap, h⟩ := bind_eq_ok h
        obtain ⟨others, hothers, h⟩ := bind_eq_ok h
        cases h
        obtain ⟨hkind, hfirstBreak⟩ := expect_eq_ok hgap
        obtain ⟨further, hfurther, hall⟩ := skipSeparators_eq gap.rest
        have hbreaks : ∀ token ∈ gap.value :: further, token.kind = .separator :=
          List.forall_mem_cons.mpr ⟨hkind, hall⟩
        have hbehind : first.rest = gap.value :: further ++ skipSeparators gap.rest :=
          hfirstBreak.takes.trans (congrArg (gap.value :: ·) hfurther)
        rw [hbehind] at hrest htakes
        have hblock := ih first gap (hrest.behind_gap hbreaks) hothers
        generalize first.value = definition at hline
        rw [htakes]
        exact .more hline (List.cons_ne_nil _ _) hbreaks hblock

/-- A list that is read as a block of definitions is one. -/
theorem listing_of_ofTokens {block : Program} (hclosed : Closed tokens)
    (h : Program.ofTokens limit tokens = .ok block) : Listing tokens block.definitions := by
  obtain ⟨definitions, hdefinitions, h⟩ := bind_eq_ok h
  cases h
  obtain ⟨gap, htokens, hgap⟩ := skipSeparators_eq tokens
  have hrest : Closed (skipSeparators tokens) := (htokens ▸ hclosed).behind_gap hgap
  exact ⟨gap, _, htokens, hgap, definitions_sound hrest hdefinitions⟩

end Sound

end Grammar

end DiceLang
