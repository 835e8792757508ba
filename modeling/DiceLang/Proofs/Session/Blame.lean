import DiceLang.Proofs.Program.Laid
import DiceLang.Proofs.Session.WellFormed

/-!
# Where the mistakes of a session point

A line that fails in its evaluation carries the span of some node.  `Environment.Occurs env tree` are
the nodes that there are: those of the line and those of the bodies that are bound.  All of them have
been read from texts, so they carry spans, and evaluation blames nothing else.

`Session.mistake_points` says which node it is for each sort of mistake.
-/

namespace DiceLang

/-- A node occurs in an expression or in the body of a command that is bound. -/
def Environment.Occurs (env : Environment) (tree node : Tree) : Prop :=
  node ∈ tree.nodes ∨ ∃ binding ∈ env.bindings, node ∈ binding.2.body.nodes

namespace Environment

variable {env : Environment} {tree : Tree}

/-- What every node of an expression and every node of the bodies has, every node that occurs has. -/
theorem Occurs.of_all {P : Tree → Prop} (htree : ∀ node ∈ tree.nodes, P node)
    (henv : env.All fun _ command => ∀ node ∈ command.body.nodes, P node) {node : Tree}
    (h : env.Occurs tree node) : P node := by
  rcases h with hline | ⟨binding, hbinding, hbody⟩
  · exact htree node hline
  · exact henv binding hbinding node hbody

/-- A child of a node that occurs does so itself. -/
theorem Occurs.child {node child : Tree} (h : env.Occurs tree node)
    (hchild : child ∈ node.children) : env.Occurs tree child := by
  have hbelow : child ∈ node.nodes := Tree.mem_nodes_of_mem_children hchild
  rcases h with hline | ⟨binding, hbinding, hbody⟩
  · exact .inl (Tree.mem_nodes_trans hbelow hline)
  · exact .inr ⟨binding, hbinding, Tree.mem_nodes_trans hbelow hbody⟩

/-- In well-formed surroundings what occurs is code that evaluation does not lead out of. -/
theorem code_occurs (henv : env.WellFormed) (htree : tree.WellFormed) : Code (env.Occurs tree) where
  child := Occurs.child
  expression := Occurs.of_all (fun _ hnode => (htree.node hnode).isExpression)
    (henv.imp fun _ _ hsuits _ hnode => (hsuits.body.node hnode).isExpression)

/-- The bodies that are bound occur. -/
theorem WellFormed.holds_occurs (henv : env.WellFormed) : env.Holds (env.Occurs tree) :=
  fun binding hbinding =>
    ⟨.inr ⟨binding, hbinding, Tree.mem_nodes_self _⟩, (henv binding hbinding).count⟩

end Environment

namespace Session

variable {σ : Type} [Dice σ]

/-- Every body that is bound in a session carries spans. -/
theorem spanned_after (fresh : Bool) (dice : σ) (steps : List Step) :
    ((start fresh dice).after steps).env.All fun _ command => command.body.Spanned := by
  refine all_after ?_ fresh dice steps
  intro text definition hdefinition
  obtain ⟨block, hparse, hmem⟩ := mem_definitionsOf hdefinition
  exact Line.parse_spanned hparse definition hmem

/-- The codes of the mistakes of evaluation. -/
def evaluationCodes : List String := ["E201", "E202", "E203", "E204", "E205", "E206"]

/-- **Mistakes point at code of the right kind.**  Take a session with any dice through any steps,
and let a line fail with a mistake of evaluation.  Then the line is an expression, and the mistake
carries a span: that of a node which occurs in the expression or in the body of a command that is
bound, and which can rightly be blamed for that sort of mistake. -/
theorem mistake_points (fresh : Bool) (dice : σ) (steps : List Step) (text : String)
    (mistake : Fault)
    (hfailed : (((start fresh dice).after steps).runLine text).outcome = .ok (.failed mistake))
    (hcode : mistake.cause.code ∈ evaluationCodes) :
    ∃ (tree node : Tree) (span : Span), Line.parse text = .ok (.expression tree) ∧
      mistake.span = some span ∧ node.span? = some span ∧
      ((start fresh dice).after steps).opened.env.Occurs tree node ∧
      Points (((start fresh dice).after steps).opened.env.Occurs tree) tree mistake.cause node := by
  have hfailure : (((start fresh dice).after steps).runLine text).failure? =
      some (.fault mistake) := by
    rw [Run.failure?, hfailed]
  have henv : ((start fresh dice).after steps).opened.env.WellFormed :=
    all_opened (wellFormed_after fresh dice steps)
  have hspans := all_opened (spanned_after fresh dice steps)
  rcases failure?_runLine hfailure with hparse | ⟨tree, hparse, hplay⟩
  · rcases Line.parse_refused hparse with ⟨_, hsame, hreading⟩ | ⟨hsame, -⟩
    · cases hsame
      have hdisjoint : ∀ code ∈ evaluationCodes, code ∉ Grammar.readingCodes := by decide
      exact absurd hreading (hdisjoint _ hcode)
    · cases hsame
  · have htree : tree.WellFormed := Line.parse_wellFormed hparse
    have hspanned : tree.Spanned := Line.parse_spanned hparse
    have hraises := evaluate_blames (Environment.code_occurs henv htree) henv.holds_occurs
      (.inl (Tree.mem_nodes_self tree))
    rcases hraises.play_or_mishap hplay with hblamed | ⟨reason, hsame⟩
    · cases hblamed with
      | @mistake cause node hnode hpoints =>
          obtain ⟨span, hspan⟩ := Option.isSome_iff_exists.mp (hnode.of_all hspanned hspans)
          exact ⟨tree, node, span, hparse, hspan, hspan, hnode, hpoints⟩
    · cases hsame

/-- A command that divides by what another command comes to. -/
def dividingSteps : List Step := [.line "part \"x\" => x / zero\nzero => 0"]

/-- The line has no division in it: the mistake points into the body of `part`. -/
theorem mistake_points_dividingSteps :
    ∃ mistake, (((start false (Script.ofRolls [])).after dividingSteps).runLine
        "1 + part(4)").outcome = .ok (.failed mistake) ∧
      mistake.cause = .divisionByZero ∧ mistake.span = some ⟨⟨1, 13, 12⟩, ⟨1, 21, 20⟩⟩ ∧
      ∃ tree node, node.span? = mistake.span ∧
        Points (((start false (Script.ofRolls [])).after dividingSteps).opened.env.Occurs tree) tree
          .divisionByZero node := by
  have hfailure : (((start false (Script.ofRolls [])).after dividingSteps).runLine
      "1 + part(4)").failure? =
        some (.ofCause .divisionByZero (some ⟨⟨1, 13, 12⟩, ⟨1, 21, 20⟩⟩)) := by decide +kernel
  have hreturned : (((start false (Script.ofRolls [])).after dividingSteps).runLine
      "1 + part(4)").outcome.isOk = true := by decide +kernel
  rw [Run.failure?] at hfailure
  cases houtcome : (((start false (Script.ofRolls [])).after dividingSteps).runLine
      "1 + part(4)").outcome with
  | error failure =>
      rw [houtcome] at hreturned
      cases hreturned
  | ok result =>
      rw [houtcome] at hfailure
      cases result with
      | failed mistake =>
          cases hfailure
          obtain ⟨tree, node, span, -, hwhere, hnode, -, hpoints⟩ :=
            mistake_points false (Script.ofRolls []) dividingSteps "1 + part(4)" _ houtcome
              (by decide)
          exact ⟨_, rfl, rfl, rfl, tree, node, hnode.trans hwhere.symm, hpoints⟩
      | blank | value | defined => cases hfailure

end Session

end DiceLang
