import DiceLang.Proofs.Tree.WellFormed

/-!
# Written forms

A tree is written by putting every operand in parentheses.  `Tree.Written tree text` says that
`text` is such a written form; comparisons may be spelt in several ways, so there can be more than
one.

`parse_written` is the round trip: what is read is well formed, every well-formed tree has a
written form, and each of its written forms is read as that tree, as long as the tree is not deeper
than `Grammar.safeNesting`.

Written forms are cut into tokens piece by piece, and each piece spells a phrase of the grammar:
`Grammar.Says` says so of a text that is followed by a delimiter, and `Tree.Written.says` of every
written form.
-/

namespace DiceLang

/-- A text in parentheses. -/
def enclosed (text : List Char) : List Char := '(' :: (text ++ [')'])

/-- Which texts are written forms of which trees. -/
inductive Tree.Written : Tree → List Char → Prop
  | integer (n : Nat) (span : Option Span) :
      Written (.integer n span) (Nat.toDigits 10 n)
  | arithmetic {lhs rhs : Tree} {left right : List Char} (op : Arithmetic) (span : Option Span)
      (hlhs : Written lhs left) (hrhs : Written rhs right) :
      Written (.arithmetic op lhs rhs span) (enclosed left ++ (op.spelling ++ enclosed right))
  | comparison {lhs rhs : Tree} {left right sign : List Char} {op : Comparison}
      (span : Option Span) (hsign : sign ∈ op.spellings)
      (hlhs : Written lhs left) (hrhs : Written rhs right) :
      Written (.comparison op lhs rhs span) (enclosed left ++ (sign ++ enclosed right))
  | nullary (name : String) (span : Option Span) :
      Written (.nullary name span) name.toList
  | prefixed {rhs : Tree} {right : List Char} (name : String) (span : Option Span)
      (hrhs : Written rhs right) :
      Written (.prefixed name rhs span) (name.toList ++ enclosed right)
  | infixed {lhs rhs : Tree} {left right : List Char} (name : String) (span : Option Span)
      (hlhs : Written lhs left) (hrhs : Written rhs right) :
      Written (.infixed name lhs rhs span) (enclosed left ++ (name.toList ++ enclosed right))
  | postfixed {lhs : Tree} {left : List Char} (name : String) (span : Option Span)
      (hlhs : Written lhs left) :
      Written (.postfixed name lhs span) (enclosed left ++ name.toList)
  | call {args : List Tree} {texts : List (List Char)} (name : String) (span : Option Span)
      (hcount : texts.length = args.length)
      (hargs : ∀ pair ∈ args.zip texts, Written pair.1 pair.2) :
      Written (.call name args span) (name.toList ++ enclosed ([','].intercalate texts))

/-- Every well-formed tree can be written. -/
theorem Tree.WellFormed.exists_written {tree : Tree} (h : tree.WellFormed) :
    ∃ text, tree.Written text := by
  induction tree using children_induction with
  | h tree ih =>
      obtain ⟨hroot, hchildren⟩ := wellFormed_iff.mp h
      have hbelow : ∀ child ∈ tree.children, ∃ text, child.Written text :=
        fun child hchild => ih child hchild (hchildren child hchild)
      cases tree with
      | integer n span =>
          obtain ⟨hpos, -⟩ := isProper_integer.mp hroot
          obtain ⟨m, rfl⟩ := Int.eq_ofNat_of_zero_le hpos
          exact ⟨_, .integer m span⟩
      | arithmetic op lhs rhs span =>
          obtain ⟨left, hleft⟩ := hbelow lhs (by simp [children])
          obtain ⟨right, hright⟩ := hbelow rhs (by simp [children])
          exact ⟨_, .arithmetic op span hleft hright⟩
      | comparison op lhs rhs span =>
          obtain ⟨left, hleft⟩ := hbelow lhs (by simp [children])
          obtain ⟨right, hright⟩ := hbelow rhs (by simp [children])
          obtain ⟨sign, hsign⟩ : ∃ sign, sign ∈ op.spellings := by
            cases op <;> exact ⟨_, List.mem_cons_self⟩
          exact ⟨_, .comparison span hsign hleft hright⟩
      | nullary name span => exact ⟨_, .nullary name span⟩
      | prefixed name rhs span =>
          obtain ⟨right, hright⟩ := hbelow rhs (by simp [children])
          exact ⟨_, .prefixed name span hright⟩
      | infixed name lhs rhs span =>
          obtain ⟨left, hleft⟩ := hbelow lhs (by simp [children])
          obtain ⟨right, hright⟩ := hbelow rhs (by simp [children])
          exact ⟨_, .infixed name span hleft hright⟩
      | postfixed name lhs span =>
          obtain ⟨left, hleft⟩ := hbelow lhs (by simp [children])
          exact ⟨_, .postfixed name span hleft⟩
      | call name args span =>
          choose! write hwrite using hbelow
          have hpairs : args.zip (args.map write) = args.map fun arg => (arg, write arg) := by
            simpa using List.zip_map' (f := id) (g := write) (l := args)
          refine ⟨_, .call name span (List.length_map write) ?_⟩
          rw [hpairs]
          exact List.forall_mem_map.mpr hwrite
      | hole | definition | program => cases hroot

namespace Grammar

/-- A list that spells a phrase and can be read within a limit. -/
structure Speaks (limit : Nat) (phrase : Phrase) (tokens : List Token) : Prop where
  spells : Spells tokens phrase
  fit : Fit limit tokens

variable {limit : Nat} {phrase : Phrase} {tokens others : List Token} {tree lhs rhs : Tree}

/-- Two primaries with an arithmetic sign between them are an expression. -/
theorem Spells.arithmetic {sign : Token} {op : Arithmetic} (hlhs : Spells tokens (.primary lhs))
    (hsign : sign.kind = op.sign) (hrhs : Spells others (.primary rhs)) :
    Spells (tokens ++ sign :: others) (.expression (.arithmetic op lhs rhs none)) := by
  have hleft := Spells.factor (.operand hlhs)
  cases op with
  | add =>
      exact .unequated (.unordered (.added (.summand hleft) hsign (.inl rfl)
        (.factor (.operand hrhs))))
  | sub =>
      exact .unequated (.unordered (.added (.summand hleft) hsign (.inr rfl)
        (.factor (.operand hrhs))))
  | mul =>
      exact .unequated (.unordered (.summand (.multiplied hleft hsign (.inl rfl) (.operand hrhs))))
  | div =>
      exact .unequated (.unordered (.summand (.multiplied hleft hsign (.inr rfl) (.operand hrhs))))

theorem Spells.comparison {sign : Token} {op : Comparison} (hlhs : Spells tokens (.primary lhs))
    (hsign : sign.kind = op.sign) (hrhs : Spells others (.primary rhs)) :
    Spells (tokens ++ sign :: others) (.expression (.comparison op lhs rhs none)) := by
  have hleft := Spells.summand (.factor (.operand hlhs))
  have hright := Spells.summand (.factor (.operand hrhs))
  cases op with
  | eq => exact .equated (.unordered hleft) hsign (by decide) (.unordered hright)
  | ne => exact .equated (.unordered hleft) hsign (by decide) (.unordered hright)
  | lt => exact .unequated (.ordered hleft hsign (by decide) hright)
  | le => exact .unequated (.ordered hleft hsign (by decide) hright)
  | gt => exact .unequated (.ordered hleft hsign (by decide) hright)
  | ge => exact .unequated (.ordered hleft hsign (by decide) hright)

/-- Arguments can be joined to those before them. -/
theorem Spells.arguments_append {comma : Token} {trees more : List Tree}
    (hfront : Spells tokens (.arguments trees)) (hcomma : comma.kind = .comma)
    (hback : Spells others (.arguments more)) :
    Spells (tokens ++ comma :: others) (.arguments (trees ++ more)) := by
  generalize hphrase : Phrase.arguments more = phrase at hback
  induction hback generalizing more with
  | argument hargument =>
      cases hphrase
      exact .further hfront hcomma hargument
  | further _ hnext hlast ih =>
      cases hphrase
      simpa using Spells.further (ih rfl) hnext hlast
  | _ => cases hphrase

variable {P Q : List Token → Prop} {text left right word rest : List Char} {kind : Kind}

/-- Before a delimiter a text is cut into a list that spells a phrase. -/
def Says (limit : Nat) (phrase : Phrase) (text : List Char) : Prop :=
  ∀ rest, Delimited rest → Cut (Speaks limit phrase) text rest

/-- What is said within a limit is said within a larger one. -/
theorem Says.mono {larger : Nat} (h : Says limit phrase text) (hle : limit ≤ larger) :
    Says larger phrase text :=
  fun rest hrest => (h rest hrest).imp fun _ htokens => ⟨htokens.spells, htokens.fit.mono hle⟩

/-- A text in parentheses is cut into its tokens with parentheses around them. -/
theorem cut_enclosed (h : Cut P text (')' :: rest))
    (hwrap : ∀ (opening closing : Token) (inner : List Token), opening.kind = .lparen →
      closing.kind = .rparen → P inner → Q (opening :: (inner ++ [closing]))) :
    Cut Q (enclosed text) rest := by
  have hinner : Cut (fun tokens => ∃ inner closing, tokens = inner ++ [closing] ∧ P inner ∧
      closing.kind = .rparen) (text ++ [')']) rest := by
    refine Cut.append h (cut_delimiter (by decide) rest) ?_
    rintro inner _ hinner ⟨closing, rfl, hclosing, -⟩
    exact ⟨inner, closing, rfl, hinner, hclosing⟩
  refine Cut.append (cut_delimiter (by decide) _) hinner ?_
  rintro _ _ ⟨opening, rfl, hopening, -⟩ ⟨inner, closing, rfl, hinner, hclosing⟩
  exact hwrap opening closing inner hopening hclosing hinner

/-- An expression in parentheses is an operand, whatever follows it. -/
theorem cut_operand (h : Says limit (.expression tree) text) (rest : List Char) :
    Cut (Speaks (limit + 1) (.primary tree)) (enclosed text) rest :=
  cut_enclosed (h _ (delimited_cons (by decide) rest)) fun _ _ _ hopening hclosing hinner =>
    ⟨.group hopening hinner.spells hclosing, hinner.fit.enclose hopening hclosing⟩

/-- Two operands with a word between them. -/
structure Between (limit : Nat) (kind : Kind) (word : List Char) (lhs rhs : Tree)
    (front : List Token) (sign : Token) (back : List Token) : Prop where
  left : Spells front (.primary lhs)
  kind : sign.kind = kind
  lexeme : sign.lexeme = String.ofList word
  right : Spells back (.primary rhs)
  fit : Fit limit (front ++ sign :: back)

/-- Two texts in parentheses, with a sign between them, are cut into three parts. -/
theorem cut_between {m n : Nat} (hlhs : Says (m + 1) (.expression lhs) left)
    (hword : ∀ rest, Delimited rest → Cut (IsWord kind word) word rest)
    (hrhs : Says (n + 1) (.expression rhs) right) (hkind : isPlain kind = true ∧ kind ≠ .number)
    (rest : List Char) :
    Cut (fun tokens => ∃ front sign back, tokens = front ++ sign :: back ∧
      Between (max m n + 2) kind word lhs rhs front sign back)
      (enclosed left ++ (word ++ enclosed right)) rest := by
  have hleft : Says (max m n + 1) (.expression lhs) left := hlhs.mono (by omega)
  have hright : Says (max m n + 1) (.expression rhs) right := hrhs.mono (by omega)
  have hback : Cut (fun tokens => ∃ sign back, tokens = sign :: back ∧ sign.kind = kind ∧
      sign.lexeme = String.ofList word ∧ Speaks (max m n + 2) (.primary rhs) back)
      (word ++ enclosed right) rest := by
    refine Cut.append (hword _ (delimited_cons (by decide) _)) (cut_operand hright rest) ?_
    rintro _ back ⟨sign, rfl, hsign, hlexeme⟩ hback
    exact ⟨sign, back, rfl, hsign, hlexeme, hback⟩
  refine Cut.append (cut_operand hleft _) hback ?_
  rintro front _ hfront ⟨sign, back, rfl, rfl, hlexeme, hback⟩
  exact ⟨front, sign, back, rfl, hfront.spells, rfl, hlexeme, hback.spells,
    hfront.fit.append hfront.spells.balanced
      (hback.fit.cons (balanced_singleton hkind.1) (not_overlong hkind.2))⟩

/-- Arguments with commas between them. -/
theorem cut_arguments {first : Tree} {trees : List Tree} {texts : List (List Char)}
    (hcount : texts.length = trees.length)
    (hfirst : Says (limit + 1) (.expression first.erase) text)
    (hothers : ∀ pair ∈ trees.zip texts, Says (limit + 1) (.expression pair.1.erase) pair.2) :
    Says (limit + 1) (.arguments ((first :: trees).map Tree.erase))
      ([','].intercalate (text :: texts)) := by
  intro rest hrest
  induction trees generalizing first text texts with
  | nil =>
      obtain rfl := List.eq_nil_of_length_eq_zero hcount
      rw [List.intercalate_singleton]
      exact (hfirst rest hrest).imp fun tokens htokens => ⟨.argument htokens.spells, htokens.fit⟩
  | cons second trees ih =>
      obtain ⟨next, texts, rfl⟩ := List.exists_cons_of_length_eq_add_one hcount
      obtain ⟨hsecond, hothers⟩ := List.forall_mem_cons.mp hothers
      have htail := ih (Nat.succ.inj hcount) hsecond hothers
      rw [List.intercalate_cons_cons, List.append_assoc]
      have hback : Cut (fun tokens => ∃ comma back, tokens = comma :: back ∧ comma.kind = .comma ∧
          Speaks (limit + 1) (.arguments ((second :: trees).map Tree.erase)) back)
          ([','] ++ [','].intercalate (next :: texts)) rest := by
        refine Cut.append (cut_delimiter (by decide) _) htail ?_
        rintro _ back ⟨comma, rfl, hcomma, -⟩ hback
        exact ⟨comma, back, rfl, hcomma, hback⟩
      refine Cut.append (hfirst _ (delimited_cons (by decide) _)) hback ?_
      rintro front _ hfront ⟨comma, back, rfl, hcomma, hback⟩
      have hfit : Fit (limit + 1) (comma :: back) :=
        hback.fit.cons (balanced_of_kind hcomma (by decide)) (not_overlong (by rw [hcomma]; decide))
      exact ⟨Spells.arguments_append (.argument hfront.spells) hcomma hback.spells,
        hfront.fit.append hfront.spells.balanced hfit⟩

/-- A number in range is a numeral that is short enough to be converted. -/
theorem speaks_digits {n : Nat} (hbound : n < literalBound)
    (h : IsWord .number (Nat.toDigits 10 n) tokens) :
    Speaks (limit + 1) (.expression (.integer n none)) tokens := by
  obtain ⟨token, rfl, hkind, hlexeme⟩ := h
  have hdigits : token.lexeme.toList = Nat.toDigits 10 n := by rw [hlexeme, String.toList_ofList]
  have hvalue : Nat.ofDigitChars 10 token.lexeme.toList 0 = n := by
    rw [hdigits, Nat.ofDigitChars_ten_toDigits]
  have hspells : Spells [token] (.primary (.integer n none)) := by
    have hnumber := Spells.number hkind (hvalue.symm ▸ hbound)
    rwa [hvalue] at hnumber
  exact ⟨(Spells.operand hspells).expression,
    .singleton (by rw [hkind]; decide) (not_overlong_of_digits hbound hdigits)⟩

/-- A name is one token, and takes no parenthesis. -/
theorem fit_name {name : Token} (hname : name.kind = .identifier) : Fit (limit + 1) [name] :=
  .singleton (by rw [hname]; decide) (not_overlong (by rw [hname]; decide))

/-- A name before a parenthesis is a call, of which the grammar says what it spells. -/
theorem cut_call {name : String} (hname : Text.isName name = true)
    (hargs : Cut P text (')' :: rest)) (hfit : ∀ inner, P inner → Fit (limit + 1) inner)
    (hcall : ∀ (token opening closing : Token) (inner : List Token), token.kind = .identifier →
      token.lexeme = name → opening.kind = .lparen → closing.kind = .rparen → P inner →
      Spells (token :: opening :: (inner ++ [closing])) (.command tree)) :
    Cut (Speaks (limit + 2) (.expression tree)) (name.toList ++ enclosed text) rest := by
  have hback : Cut (fun tokens => ∃ opening closing inner, tokens = opening :: (inner ++ [closing]) ∧
      opening.kind = .lparen ∧ closing.kind = .rparen ∧ P inner) (enclosed text) rest :=
    cut_enclosed hargs fun opening closing inner hopening hclosing hinner =>
      ⟨opening, closing, inner, rfl, hopening, hclosing, hinner⟩
  refine Cut.append (cut_name hname (delimited_cons (by decide) _)) hback ?_
  rintro _ _ ⟨token, rfl, hkind, hlexeme⟩
    ⟨opening, closing, inner, rfl, hopening, hclosing, hinner⟩
  have hspells := hcall token opening closing inner hkind (hlexeme.trans String.ofList_toList)
    hopening hclosing hinner
  exact ⟨hspells.expression, ((hfit inner hinner).enclose hopening hclosing).cons
    (balanced_of_kind hkind (by decide)) (not_overlong (by rw [hkind]; decide))⟩

end Grammar

open Grammar

namespace Tree

/-- **Written forms spell their trees.**  By induction on the written form: each rule of writing is
a rule of the grammar, and takes as many levels of parentheses as the tree is deep. -/
theorem Written.says {tree : Tree} {text : List Char} (h : tree.Written text)
    (hproper : tree.WellFormed) : Says (tree.depth + 1) (.expression tree.erase) text := by
  -- All operands stand in parentheses, so each level of the tree takes one more of them.
  induction h with
  | integer n span =>
      intro rest hrest
      obtain ⟨-, hbound⟩ := isProper_integer.mp (wellFormed_iff.mp hproper).1
      exact (cut_digits n hrest).imp fun tokens => speaks_digits (Int.ofNat_lt.mp hbound)
  | arithmetic op span hlhs hrhs ihl ihr =>
      intro rest hrest
      have hleft := ihl (hproper.child (by simp [children]))
      have hright := ihr (hproper.child (by simp [children]))
      have hcut := cut_between hleft (fun rest _ => cut_arithmetic op rest) hright
        (by cases op <;> decide) rest
      refine hcut.imp ?_
      rintro _ ⟨front, sign, back, rfl, hbetween⟩
      exact ⟨.arithmetic hbetween.left hbetween.kind hbetween.right, hbetween.fit⟩
  | @comparison lhs rhs left right sign op span hsign hlhs hrhs ihl ihr =>
      intro rest hrest
      have hleft := ihl (hproper.child (by simp [children]))
      have hright := ihr (hproper.child (by simp [children]))
      have hcut := cut_between hleft (fun rest => cut_comparison hsign) hright
        (by cases op <;> decide) rest
      refine hcut.imp ?_
      rintro _ ⟨front, sign, back, rfl, hbetween⟩
      exact ⟨.comparison hbetween.left hbetween.kind hbetween.right, hbetween.fit⟩
  | nullary name span =>
      intro rest hrest
      have hname : Text.isName name = true := (wellFormed_iff.mp hproper).1
      refine (cut_name hname hrest).imp ?_
      rintro _ ⟨token, rfl, hkind, hlexeme⟩
      obtain rfl : token.lexeme = name := hlexeme.trans String.ofList_toList
      exact ⟨(Spells.nullary hkind).expression, fit_name hkind⟩
  | prefixed name span hrhs ih =>
      intro rest hrest
      have hname : Text.isName name = true := (wellFormed_iff.mp hproper).1
      have hright := ih (hproper.child (by simp [children]))
      refine cut_call hname (hright _ (delimited_cons (by decide) rest)) (fun _ h => h.fit) ?_
      rintro token opening closing inner hkind rfl hopening hclosing hinner
      exact .singleCall hkind hopening (.argument hinner.spells) hclosing
  | infixed name span hlhs hrhs ihl ihr =>
      intro rest hrest
      have hname : Text.isName name = true := (wellFormed_iff.mp hproper).1
      have hleft := ihl (hproper.child (by simp [children]))
      have hright := ihr (hproper.child (by simp [children]))
      have hcut := cut_between hleft (fun rest => cut_name hname) hright (by decide) rest
      refine hcut.imp ?_
      rintro _ ⟨front, token, back, rfl, hbetween⟩
      obtain rfl : token.lexeme = name := hbetween.lexeme.trans String.ofList_toList
      exact ⟨(Spells.infixed hbetween.left hbetween.kind hbetween.right).expression, hbetween.fit⟩
  | postfixed name span hlhs ih =>
      intro rest hrest
      have hname : Text.isName name = true := (wellFormed_iff.mp hproper).1
      have hleft := ih (hproper.child (by simp [children]))
      refine Cut.append (cut_operand hleft _) (cut_name hname hrest) ?_
      rintro front _ hfront ⟨token, rfl, hkind, hlexeme⟩
      obtain rfl : token.lexeme = name := hlexeme.trans String.ofList_toList
      exact ⟨(Spells.postfixed hfront.spells hkind).expression,
        hfront.fit.append hfront.spells.balanced (fit_name hkind)⟩
  | @call args texts name span hcount hargs ih =>
      intro rest hrest
      obtain ⟨hname, hmany⟩ : Text.isName name = true ∧ args.length ≠ 1 := by
        simpa [isProper] using (wellFormed_iff.mp hproper).1
      have hsays : ∀ pair ∈ args.zip texts,
          Says (maxDepth args + 1) (.expression pair.1.erase) pair.2 := by
        intro pair hpair
        have harg : pair.1 ∈ args := (List.of_mem_zip hpair).1
        exact (ih pair hpair (hproper.child harg)).mono (Nat.succ_le_succ (depth_le_maxDepth harg))
      cases args with
      | nil =>
          obtain rfl := List.eq_nil_of_length_eq_zero hcount
          have hnone : Cut (· = []) [] (')' :: rest) := fun here => ⟨[], rfl, rfl⟩
          refine cut_call hname hnone (fun inner hinner => hinner ▸ Fit.nil) ?_
          rintro token opening closing inner hkind rfl hopening hclosing rfl
          exact .emptyCall hkind hopening hclosing
      | cons first args =>
          obtain ⟨text, texts, rfl⟩ := List.exists_cons_of_length_eq_add_one hcount
          obtain ⟨hfirst, hothers⟩ := List.forall_mem_cons.mp hsays
          have hlist := cut_arguments (Nat.succ.inj hcount) hfirst hothers
          refine cut_call hname (hlist _ (delimited_cons (by decide) rest)) (fun _ h => h.fit) ?_
          rintro token opening closing inner hkind rfl hopening hclosing hinner
          have hcall := Spells.call hkind hopening hinner.spells hclosing (by
            rw [List.length_map]
            simp only [List.length_cons] at hmany ⊢
            omega)
          rwa [← eraseAll_eq_map] at hcall

/-- Each written form of a well-formed tree is read as that tree. -/
theorem Written.parse {tree : Tree} {text : String} (h : tree.Written text.toList)
    (hproper : tree.WellFormed) (hdepth : tree.depth ≤ safeNesting) :
    ∃ read, Tree.parse text = .ok read ∧ read.Same tree := by
  obtain ⟨tokens, hspeaks, hcut⟩ := h.says hproper [] delimited_nil .origin
  have htokens : ∃ stop : Token, stop.kind = .eof ∧ tokenize text = tokens ++ [stop] := by
    rw [List.append_nil, Scanner.tokens_nil] at hcut
    exact ⟨_, rfl, hcut⟩
  obtain ⟨stop, hstop, htokens⟩ := htokens
  have hend : Fit (tree.depth + 1) [stop] :=
    .singleton (by rw [hstop]; decide) (not_overlong (by rw [hstop]; decide))
  have hlimit : tree.depth + 1 ≤ nestingLimit := by
    unfold safeNesting at hdepth
    unfold nestingLimit
    omega
  have hfit : Fit nestingLimit (tokenize text) := by
    rw [htokens]
    exact (hspeaks.fit.append hspeaks.spells.balanced hend).mono hlimit
  have hsentence : Sentence (tokenize text) tree.erase :=
    ⟨tokens, [], stop, htokens, hspeaks.spells, nofun, hstop⟩
  obtain ⟨read, hread, hsame⟩ := ofTokens_of_sentence hfit hsentence
  refine ⟨read, ?_, hsame⟩
  rw [Tree.parse, hread]
  rfl

end Tree

/-- **The language writes down exactly the well-formed trees.**  Whatever a text is read as is well
formed.  Every well-formed tree can be written down with its operands in parentheses, and however
its comparisons are spelt, what is written is read as that tree, spans apart, if the tree is at most
`safeNesting` levels deep. -/
theorem parse_written :
    (∀ (text : String) (tree : Tree), Tree.parse text = .ok tree → tree.WellFormed) ∧
    ∀ tree : Tree, tree.WellFormed →
      (∃ text : String, tree.Written text.toList) ∧
      (tree.depth ≤ safeNesting → ∀ text : String, tree.Written text.toList →
        ∃ read, Tree.parse text = .ok read ∧ read.Same tree) := by
  refine ⟨?_, ?_⟩
  · intro text tree hread
    obtain ⟨reading, hreading, rfl⟩ := Tree.ofTokens_eq_ok (mapError_eq_ok hread)
    exact expression_wellFormed hreading (named_tokenize text)
  · intro tree hproper
    refine ⟨?_, fun hdepth text hwritten => hwritten.parse hproper hdepth⟩
    obtain ⟨text, hwritten⟩ := hproper.exists_written
    exact ⟨String.ofList text, by rwa [String.toList_ofList]⟩

/-- A call with a sum and a comparison as its arguments. -/
def nestedCall : Tree :=
  .call "max" [.arithmetic .add (.integer 1 none) (.integer 20 none) none,
    .comparison .eq (.nullary "x" none) (.postfixed "up" (.integer 3 none) none) none] none

/-- A call with a sum and a comparison for its arguments, as it could be written. -/
theorem parse_written_nestedCall :
    nestedCall.WellFormed ∧ nestedCall.depth ≤ safeNesting ∧
      nestedCall.Written "max((1)+(20),(x)==((3)up))".toList ∧
      ∃ read, Tree.parse "max((1)+(20),(x)==((3)up))" = .ok read ∧ read.Same nestedCall := by
  have hproper : nestedCall.WellFormed := by decide
  have hdepth : nestedCall.depth ≤ safeNesting := by decide
  have hsum : Tree.Written _ "(1)+(20)".toList :=
    .arithmetic .add none (.integer 1 none) (.integer 20 none)
  have hequal : Tree.Written _ "(x)==((3)up)".toList :=
    .comparison none (by decide : ['=', '='] ∈ Comparison.eq.spellings) (.nullary "x" none)
      (.postfixed "up" none (.integer 3 none))
  have hargs : ∀ pair ∈ nestedCall.children.zip ["(1)+(20)".toList, "(x)==((3)up)".toList],
      pair.1.Written pair.2 :=
    List.forall_mem_cons.mpr ⟨hsum, List.forall_mem_singleton.mpr hequal⟩
  have hwritten : nestedCall.Written "max((1)+(20),(x)==((3)up))".toList :=
    .call "max" none rfl hargs
  exact ⟨hproper, hdepth, hwritten, (parse_written.2 nestedCall hproper).2 hdepth _ hwritten⟩

end DiceLang
