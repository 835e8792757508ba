import DiceLang.Proofs.Alike

/-!
# Lines of definitions

`Lines` is the grammar of a block of definitions once more, for the tokens before the end token:
definitions with line breaks between them and any number of line breaks around them.  `listing_iff`
says that it is the same grammar.

In this form a block can be taken apart and put together at any of its line breaks: `Lines.append` and
`Lines.split`.  No definition goes on across one.
-/

namespace DiceLang

/-- A definition without its spans. -/
def Definition.erase (definition : Definition) : Definition :=
  { definition with body := definition.body.erase, span := none }

namespace Grammar

/-- Definitions, each on a line of its own. -/
inductive Lines : List Token → List Definition → Prop
  | nil : Lines [] []
  | gap {sep : Token} {rest : List Token} {block : List Definition}
      (hsep : sep.kind = .separator)
      (hrest : Lines rest block) :
      Lines (sep :: rest) block
  | last {line : List Token} {definition : Definition}
      (hline : SpellsDefinition line definition) :
      Lines line [definition]
  | more {line rest : List Token} {sep : Token} {definition : Definition}
      {block : List Definition}
      (hline : SpellsDefinition line definition)
      (hsep : sep.kind = .separator)
      (hrest : Lines rest block) :
      Lines (line ++ sep :: rest) (definition :: block)

section Definitions

variable {tokens : List Token} {definition : Definition}

/-- A pattern starts with a name or a quote. -/
theorem SpellsPattern.startsWith {pattern : Pattern} (h : SpellsPattern tokens pattern)
    (rest : List Token) : DiceLang.startsWith [.identifier, .quote] (tokens ++ rest) = true := by
  cases h <;> simp [DiceLang.startsWith, *]

/-- A definition starts with a name or with a quote. -/
theorem SpellsDefinition.startsWith (h : SpellsDefinition tokens definition) (rest : List Token) :
    DiceLang.startsWith [.identifier, .quote] (tokens ++ rest) = true := by
  obtain ⟨hhead, -, -⟩ := h
  rw [List.append_assoc]
  exact hhead.startsWith _

/-- Spans have no part in the grammar. -/
theorem SpellsDefinition.of_erase {other : Definition} (h : SpellsDefinition tokens definition)
    (hsame : other.erase = definition.erase) : SpellsDefinition tokens other := by
  obtain ⟨hhead, harrow, hbody⟩ := h
  obtain ⟨form, parameters, body, span⟩ := other
  simp only [Definition.erase, Definition.mk.injEq] at hsame
  obtain ⟨rfl, rfl, hsame, -⟩ := hsame
  exact .arrow hhead harrow (hsame ▸ hbody)

end Definitions

section Lines

variable {tokens front back gap others : List Token} {sep : Token}
  {block first second : List Definition}

/-- No tokens are no definitions. -/
theorem Lines.eq_nil (h : Lines [] block) : block = [] := by
  generalize htokens : ([] : List Token) = tokens at h
  cases h with
  | nil => rfl
  | gap => cases htokens
  | last hline =>
      have hstart := hline.startsWith []
      rw [← htokens] at hstart
      cases hstart
  | more => simp at htokens

/-- **Lines are put together** at a line break. -/
theorem Lines.append (hfront : Lines front first) (hsep : sep.kind = .separator)
    (hback : Lines back second) : Lines (front ++ sep :: back) (first ++ second) := by
  induction hfront with
  | nil => exact .gap hsep hback
  | gap hbreak _ ih => exact .gap hbreak ih
  | last hline => exact .more hline hsep hback
  | more hline hbreak _ ih =>
      rw [List.append_assoc, List.cons_append]
      exact .more hline hbreak ih

/-- A token that is not in the first of two pieces is behind it. -/
theorem exists_behind {line rest : List Token} (hline : sep ∉ line)
    (h : line ++ rest = front ++ sep :: back) :
    ∃ middle, front = line ++ middle ∧ rest = middle ++ sep :: back := by
  rcases List.append_eq_append_iff.mp h with ⟨middle, rfl, hrest⟩ | ⟨middle, rfl, hrest⟩
  · exact ⟨middle, rfl, hrest⟩
  · cases middle with
    | nil => exact ⟨[], by simp, hrest.symm⟩
    | cons other middle =>
        obtain ⟨rfl, -⟩ := List.cons.inj hrest
        simp at hline

/-- **Lines are taken apart** at any line break. -/
theorem Lines.split (h : Lines tokens block) (hsep : sep.kind = .separator)
    (htokens : tokens = front ++ sep :: back) :
    ∃ first second, block = first ++ second ∧ Lines front first ∧ Lines back second := by
  induction h generalizing front with
  | nil => simp at htokens
  | @gap token rest block hbreak hrest ih =>
      cases front with
      | nil =>
          cases htokens
          exact ⟨[], block, rfl, .nil, hrest⟩
      | cons other front =>
          obtain ⟨rfl, hbehind⟩ := List.cons.inj htokens
          obtain ⟨first, second, rfl, hfirst, hsecond⟩ := ih hbehind
          exact ⟨first, second, rfl, .gap hbreak hfirst, hsecond⟩
  | last hline =>
      refine absurd hsep (hline.kind_ne_separator sep ?_)
      rw [htokens]
      simp
  | @more line rest token definition block hline hbreak hrest ih =>
      have hbehind : sep ∉ line := fun hmem => hline.kind_ne_separator sep hmem hsep
      obtain ⟨middle, rfl, hmiddle⟩ := exists_behind hbehind htokens
      cases middle with
      | nil =>
          obtain ⟨rfl, rfl⟩ := List.cons.inj hmiddle
          rw [List.append_nil]
          exact ⟨[definition], block, rfl, .last hline, hrest⟩
      | cons other middle =>
          obtain ⟨rfl, hothers⟩ := List.cons.inj hmiddle
          obtain ⟨first, second, rfl, hfirst, hsecond⟩ := ih hothers
          exact ⟨definition :: first, second, rfl, .more hline hbreak hfirst, hsecond⟩

/-- Further line breaks may precede any lines. -/
theorem Lines.gaps (hgap : ∀ token ∈ gap, token.kind = .separator) (h : Lines tokens block) :
    Lines (gap ++ tokens) block := by
  induction gap with
  | nil => exact h
  | cons sep gap ih =>
      obtain ⟨hsep, hgap⟩ := List.forall_mem_cons.mp hgap
      exact .gap hsep (ih hgap)

/-- Line breaks in front of definitions make no difference. -/
theorem lines_gaps_iff (hgap : ∀ token ∈ gap, token.kind = .separator) :
    Lines (gap ++ tokens) block ↔ Lines tokens block := by
  refine ⟨fun h => ?_, Lines.gaps hgap⟩
  induction gap with
  | nil => exact h
  | cons sep gap ih =>
      obtain ⟨hsep, hgap⟩ := List.forall_mem_cons.mp hgap
      obtain ⟨first, second, rfl, hfirst, hsecond⟩ := h.split hsep (List.nil_append _).symm
      obtain rfl := hfirst.eq_nil
      exact ih hgap hsecond

/-- Nor do line breaks behind them. -/
theorem lines_append_gaps_iff (hgap : ∀ token ∈ gap, token.kind = .separator) :
    Lines (tokens ++ gap) block ↔ Lines tokens block := by
  cases gap with
  | nil => rw [List.append_nil]
  | cons sep gap =>
      obtain ⟨hsep, hgap⟩ := List.forall_mem_cons.mp hgap
      have hempty : Lines gap [] := by simpa using Lines.gaps hgap .nil
      constructor
      · intro h
        obtain ⟨first, second, rfl, hfirst, hsecond⟩ := h.split hsep rfl
        have hnone : second = [] := by
          rw [← List.append_nil gap, lines_gaps_iff hgap] at hsecond
          exact hsecond.eq_nil
        rwa [hnone, List.append_nil]
      · intro h
        simpa using h.append hsep hempty

/-- The end is no part of the lines. -/
theorem Lines.kind_ne_eof (h : Lines tokens block) : ∀ token ∈ tokens, token.kind ≠ .eof := by
  induction h with
  | nil => exact nofun
  | gap hsep _ ih => exact List.forall_mem_cons.mpr ⟨by simp [hsep], ih⟩
  | last hline => exact hline.kind_ne_eof
  | more hline hsep _ ih =>
      exact List.forall_mem_append.mpr
        ⟨hline.kind_ne_eof, List.forall_mem_cons.mpr ⟨by simp [hsep], ih⟩⟩

/-- Lines close every parenthesis that they open. -/
theorem Lines.balanced (h : Lines tokens block) : Balanced tokens := by
  induction h with
  | nil => rfl
  | gap hsep _ ih => exact (balanced_of_kind hsep (by decide)).append ih
  | last hline => exact hline.balanced
  | more hline hsep _ ih =>
      exact hline.balanced.append ((balanced_of_kind hsep (by decide)).append ih)

/-- Lines depend on what tokens say. -/
theorem Lines.alike (h : Lines tokens block) (halike : Alike tokens others) :
    Lines others block := by
  induction h generalizing others with
  | nil =>
      cases halike
      exact .nil
  | gap hsep _ ih =>
      obtain ⟨sep, rest, rfl, hsame, hrest⟩ := Alike.cons_left halike
      exact .gap (hsame.kind.trans hsep) (ih hrest)
  | last hline => exact .last (hline.alike halike)
  | more hline hsep _ ih =>
      obtain ⟨line, sep, rest, rfl, hsame, hbreak, hrest⟩ := Alike.between_left halike
      exact .more (hline.alike hsame) (hbreak.kind.trans hsep) (ih hrest)

/-- Lines spell definitions up to the spans in them. -/
theorem Lines.of_erase {other : List Definition} (h : Lines tokens block)
    (hsame : other.map Definition.erase = block.map Definition.erase) : Lines tokens other := by
  induction h generalizing other with
  | nil =>
      rw [List.map_nil, List.map_eq_nil_iff] at hsame
      subst hsame
      exact .nil
  | gap hsep _ ih => exact .gap hsep (ih hsame)
  | last hline =>
      obtain ⟨definition, rest, rfl, hdefinition, hrest⟩ := List.map_eq_cons_iff.mp hsame
      rw [List.map_nil, List.map_eq_nil_iff] at hrest
      subst hrest
      exact .last (hline.of_erase hdefinition)
  | more hline hsep _ ih =>
      obtain ⟨definition, rest, rfl, hdefinition, hrest⟩ := List.map_eq_cons_iff.mp hsame
      exact .more (hline.of_erase hdefinition) hsep (ih hrest)

end Lines

section Listing

variable {tokens : List Token} {block : List Definition}

/-- A block is lines and the end. -/
theorem SpellsBlock.lines (h : SpellsBlock tokens block) :
    ∃ body stop, tokens = body ++ [stop] ∧ stop.kind = .eof ∧ Lines body block := by
  induction h with
  | empty hstop => exact ⟨[], _, rfl, hstop, .nil⟩
  | last hline hstop => exact ⟨_, _, rfl, hstop, .last hline⟩
  | @more line gap rest definition block hline hsome hgap _ ih =>
      obtain ⟨body, stop, rfl, hstop, hbody⟩ := ih
      obtain ⟨sep, gap, rfl⟩ := List.exists_cons_of_ne_nil hsome
      obtain ⟨hsep, hgap⟩ := List.forall_mem_cons.mp hgap
      exact ⟨line ++ sep :: (gap ++ body), stop, by simp, hstop, .more hline hsep (.gaps hgap hbody)⟩

/-- Lines with the end behind them are a listing. -/
theorem Lines.listing (h : Lines tokens block) {stop : Token} (hstop : stop.kind = .eof) :
    Listing (tokens ++ [stop]) block := by
  induction h with
  | nil => exact ⟨[], [stop], rfl, nofun, .empty hstop⟩
  | gap hsep _ ih =>
      obtain ⟨gap, rest, htokens, hgap, hrest⟩ := ih
      exact ⟨_ :: gap, rest, congrArg (_ :: ·) htokens, List.forall_mem_cons.mpr ⟨hsep, hgap⟩, hrest⟩
  | last hline => exact ⟨[], _, rfl, nofun, .last hline hstop⟩
  | more hline hsep _ ih =>
      obtain ⟨gap, rest, htokens, hgap, hrest⟩ := ih
      refine ⟨[], _, (List.nil_append _).symm, nofun, ?_⟩
      rw [List.append_assoc, List.cons_append, htokens]
      exact .more hline (List.cons_ne_nil _ gap) (List.forall_mem_cons.mpr ⟨hsep, hgap⟩) hrest

/-- **A block of definitions is its lines**, followed by the end token. -/
theorem listing_iff : Listing tokens block ↔
    ∃ body stop, tokens = body ++ [stop] ∧ stop.kind = .eof ∧ Lines body block := by
  constructor
  · rintro ⟨gap, rest, rfl, hgap, hrest⟩
    obtain ⟨body, stop, rfl, hstop, hbody⟩ := hrest.lines
    exact ⟨gap ++ body, stop, by simp, hstop, hbody.gaps hgap⟩
  · rintro ⟨body, stop, rfl, hstop, hbody⟩
    exact hbody.listing hstop

/-- Listings depend on what tokens say. -/
theorem Listing.alike {others : List Token} (h : Listing tokens block)
    (halike : Alike tokens others) : Listing others block := by
  obtain ⟨body, stop, rfl, hstop, hbody⟩ := listing_iff.mp h
  obtain ⟨body', _, rfl, hsame, hlast⟩ := Alike.append_left halike
  obtain ⟨stop', rfl, hstop'⟩ := Alike.singleton_left hlast
  exact (hbody.alike hsame).listing (hstop'.kind.trans hstop)

/-- Listings spell definitions up to the spans in them. -/
theorem Listing.of_erase {other : List Definition} (h : Listing tokens block)
    (hsame : other.map Definition.erase = block.map Definition.erase) : Listing tokens other := by
  obtain ⟨body, stop, rfl, hstop, hbody⟩ := listing_iff.mp h
  exact (hbody.of_erase hsame).listing hstop

end Listing

end Grammar

end DiceLang
