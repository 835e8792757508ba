import DiceLang.Environment
import DiceLang.Proofs.Line
import DiceLang.Proofs.Token.Word
import DiceLang.Proofs.Tree.Node
import Mathlib.Data.List.Nodup

/-!
# What is read is well formed

The grammar keeps to some trees: its literals lie in a fixed range, its names are runs of letters,
and a call with one argument is a prefix command.  `Tree.WellFormed` says that of every node of a
tree.  A definition is well formed if moreover it has as many parameters as its shape has operands,
all of them different.

`Line.parse_wellFormed` says that whatever is read from a text is well formed.  For expressions this
is a property of the grammar (`Spells.wellFormed`) and of the names that tokens have
(`named_tokenize`); for definitions it is a property of patterns (`pattern_fits`).
-/

namespace DiceLang

/-- How many operands a shape has room for. -/
def Shape.arity : Shape → Nat
  | nullary => 0
  | prefixed => 1
  | infixed => 2
  | postfixed => 1

namespace Tree

/-- Whether a node is one that the grammar has, whatever is below it. -/
def isProper : Tree → Bool
  | integer n _ => decide (0 ≤ n) && decide (n < Grammar.literalBound)
  | arithmetic .. | comparison .. => true
  | nullary name _ | prefixed name _ _ | infixed name _ _ _ | postfixed name _ _ =>
    Text.isName name
  | call name args _ => Text.isName name && args.length != 1
  | hole _ | definition .. | program .. => false

/-- An integer is proper if it is a literal. -/
theorem isProper_integer {n : Int} {span : Option Span} :
    (integer n span).isProper = true ↔ 0 ≤ n ∧ n < Grammar.literalBound := by
  rw [isProper, Bool.and_eq_true, decide_eq_true_iff, decide_eq_true_iff]

/-- Every node of a tree is one that the grammar has. -/
def WellFormed (tree : Tree) : Prop :=
  ∀ node ∈ tree.nodes, node.isProper = true

instance (tree : Tree) : Decidable tree.WellFormed :=
  inferInstanceAs (Decidable (∀ node ∈ tree.nodes, node.isProper = true))

variable {tree : Tree}

/-- A tree is well formed if its root is proper and its children are well formed. -/
theorem wellFormed_iff :
    tree.WellFormed ↔ tree.isProper = true ∧ ∀ child ∈ tree.children, child.WellFormed :=
  forall_mem_nodes

theorem WellFormed.node (h : tree.WellFormed) {node : Tree} (hnode : node ∈ tree.nodes) :
    node.WellFormed :=
  fun _ hinner => h _ (mem_nodes_trans hinner hnode)

theorem WellFormed.child (h : tree.WellFormed) {child : Tree} (hchild : child ∈ tree.children) :
    child.WellFormed :=
  h.node (mem_nodes_of_mem_children hchild)

theorem isProper_erase (tree : Tree) : tree.erase.isProper = tree.isProper := by
  cases tree <;> simp [erase, isProper, eraseAll_eq_map]

/-- Spans do not matter. -/
theorem WellFormed.of_erase (h : tree.erase.WellFormed) : tree.WellFormed := by
  intro node hnode
  rw [← isProper_erase]
  exact h node.erase (erase_mem_nodes hnode)

/-- What is well formed can be evaluated. -/
theorem WellFormed.isExpression (h : tree.WellFormed) : tree.isExpression = true := by
  induction tree using children_induction with
  | h tree ih =>
      obtain ⟨hroot, hchildren⟩ := wellFormed_iff.mp h
      have hbelow : ∀ child ∈ tree.children, child.isExpression = true :=
        fun child hchild => ih child hchild (hchildren child hchild)
      cases tree with
      | integer | nullary => rfl
      | arithmetic op lhs rhs span | comparison op lhs rhs span | infixed name lhs rhs span =>
          exact Bool.and_eq_true_iff.mpr ⟨hbelow lhs (by simp [children]),
            hbelow rhs (by simp [children])⟩
      | prefixed name operand span | postfixed name operand span =>
          exact hbelow operand (by simp [children])
      | call name args span => exact (areExpressions_iff args).mpr hbelow
      | hole | definition | program => cases hroot

end Tree

namespace Grammar

/-- The trees of a phrase are well formed. -/
def Phrase.WellFormed : Phrase → Prop
  | primary tree | command tree | product tree | sum tree | relation tree | expression tree =>
      tree.WellFormed
  | arguments trees => ∀ tree ∈ trees, tree.WellFormed

/-- **The grammar gives well-formed trees.** -/
theorem Spells.wellFormed {tokens : List Token} {phrase : Phrase} (h : Spells tokens phrase)
    (hnames : Named tokens) : phrase.WellFormed := by
  have hnode {tree : Tree} (hroot : tree.isProper = true)
      (hchildren : ∀ child ∈ tree.children, child.WellFormed) : tree.WellFormed :=
    Tree.wellFormed_iff.mpr ⟨hroot, hchildren⟩
  have hone {tree : Tree} (htree : tree.WellFormed) : ∀ child ∈ [tree], child.WellFormed :=
    List.forall_mem_singleton.mpr htree
  have htwo {lhs rhs : Tree} (hlhs : lhs.WellFormed) (hrhs : rhs.WellFormed) :
      ∀ child ∈ [lhs, rhs], child.WellFormed :=
    List.forall_mem_cons.mpr ⟨hlhs, hone hrhs⟩
  induction h with
  | number hkind hrange =>
      have hbound : Nat.ofDigitChars 10 _ 0 < literalBound := hrange
      exact hnode (Tree.isProper_integer.mpr ⟨Int.natCast_nonneg _, Int.ofNat_lt.mpr hbound⟩)
        (List.forall_mem_nil _)
  | group _ _ _ ih => exact ih (hnames.subset (by simp))
  | emptyCall hname =>
      refine hnode ?_ (List.forall_mem_nil _)
      simpa [Tree.isProper] using hnames _ (by simp) hname
  | singleCall hname _ _ _ ih =>
      have hinner := ih (hnames.subset fun token htoken => by simp [htoken])
      exact hnode (hnames _ (by simp) hname) (hone (hinner _ List.mem_cons_self))
  | @call name opening closing inner args hname _ _ _ hmany ih =>
      refine hnode ?_ (ih (hnames.subset fun token htoken => by simp [htoken]))
      have hcount : args.length ≠ 1 := by omega
      simpa [Tree.isProper, hcount] using hnames name (by simp) hname
  | prefixed hname _ _ ih =>
      exact hnode (hnames _ (by simp) hname) (hone (ih (hnames.subset (by simp))))
  | nullary hname => exact hnode (hnames _ (by simp) hname) (List.forall_mem_nil _)
  | infixed _ hname _ ihl ihr =>
      exact hnode (hnames _ (by simp) hname)
        (htwo (ihl (hnames.subset (by simp))) (ihr (hnames.subset (by simp))))
  | postfixed _ hname ih =>
      exact hnode (hnames _ (by simp) hname) (hone (ih (hnames.subset (by simp))))
  | operand _ ih | factor _ ih | summand _ ih | unordered _ ih | unequated _ ih => exact ih hnames
  | multiplied _ _ _ _ ihl ihr | added _ _ _ _ ihl ihr | ordered _ _ _ _ ihl ihr
  | equated _ _ _ _ ihl ihr =>
      exact hnode rfl (htwo (ihl (hnames.subset (by simp))) (ihr (hnames.subset (by simp))))
  | argument _ ih => exact hone (ih hnames)
  | further _ _ _ ihl ihr =>
      intro tree htree
      rcases List.mem_append.mp htree with hfront | hlast
      · exact ihl (hnames.subset (by simp)) tree hfront
      · exact hone (ihr (hnames.subset (by simp))) tree hlast

variable {limit : Nat} {tokens : List Token}

/-- What is read from tokens whose identifiers are names is well formed. -/
theorem expression_wellFormed {reading : Reading Tree tokens}
    (h : expression limit tokens = .ok reading) (hnames : Named tokens) :
    reading.value.WellFormed := by
  obtain ⟨taken, htakes, hspells⟩ := expression_sound h
  have htaken : Named taken := hnames.subset fun token htoken => htakes.mem htoken
  have herased : reading.value.erase.WellFormed := hspells.wellFormed htaken
  exact herased.of_erase

end Grammar

/-- A command suits the form that it is bound to: it has as many parameters as the shape has
operands, they are all different, and its body is well formed. -/
structure Command.Suits (command : Command) (form : Form) : Prop where
  count : command.parameters.length = form.shape.arity
  distinct : command.parameters.Nodup
  body : command.body.WellFormed

instance (command : Command) (form : Form) : Decidable (command.Suits form) :=
  decidable_of_iff (command.parameters.length = form.shape.arity ∧ command.parameters.Nodup ∧
      command.body.WellFormed)
    ⟨fun ⟨hcount, hdistinct, hbody⟩ => ⟨hcount, hdistinct, hbody⟩,
      fun h => ⟨h.count, h.distinct, h.body⟩⟩

namespace Grammar

variable {limit : Nat} {tokens : List Token}

/-- A pattern names as many parameters as its shape has operands, and no name twice. -/
theorem SpellsPattern.fits {pattern : Pattern} (h : SpellsPattern tokens pattern) :
    pattern.parameters.length = pattern.form.shape.arity ∧ pattern.parameters.Nodup := by
  cases h with
  | nullary => exact ⟨rfl, List.nodup_nil⟩
  | prefixed => exact ⟨rfl, List.nodup_singleton _⟩
  | postfixed => exact ⟨rfl, List.nodup_singleton _⟩
  | infixed _ _ _ _ _ hdiffer => exact ⟨rfl, by simpa using hdiffer.symm⟩

/-- A definition that is read from such tokens suits its form. -/
theorem definition_suits {reading : Reading Definition tokens}
    (h : definition limit tokens = .ok reading) (hnames : Named tokens) :
    Command.Suits ⟨reading.value.parameters, reading.value.body⟩ reading.value.form := by
  obtain ⟨head, hhead, h⟩ := bind_eq_ok h
  obtain ⟨arrow, harrow, h⟩ := bind_eq_ok h
  obtain ⟨body, hbody, h⟩ := bind_eq_ok h
  cases h
  obtain ⟨front, hfront, hpattern⟩ := pattern_sound hhead
  obtain ⟨hcount, hdistinct⟩ := hpattern.fits
  obtain ⟨-, hsecond⟩ := expect_eq_ok harrow
  have hbehind := hsecond.takes.suffix.trans hfront.takes.suffix
  exact ⟨hcount, hdistinct, expression_wellFormed hbody (hnames.subset hbehind.subset)⟩

end Grammar

open Grammar

/-- The expressions of a line are well formed, and its definitions suit the forms that they
define. -/
def Line.WellFormed : Line → Prop
  | .expression tree => tree.WellFormed
  | .program block => ∀ definition ∈ block.definitions,
      Command.Suits ⟨definition.parameters, definition.body⟩ definition.form

/-- What a text is read as is well formed. -/
theorem Line.parse_wellFormed {text : String} {line : Line} (h : Line.parse text = .ok line) :
    line.WellFormed := by
  have hnames := named_tokenize text
  rcases Line.ofTokens_cases (mapError_eq_ok h) with ⟨reading, hreading, rfl⟩ | ⟨block, hblock, rfl⟩
  · exact expression_wellFormed hreading hnames
  · refine definitions_forall (fun hsuffix hread => ?_) hblock
    exact definition_suits hread
      (hnames.subset (hsuffix.trans (skipSeparators_suffix _)).subset)

end DiceLang
