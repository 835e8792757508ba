import DiceLang.Proofs.Program.Joined
import DiceLang.Proofs.Session.Sorts

/-!
# Programs compose line by line

A block of definitions that is written as one text defines what its lines define one after the other.
Spans apart, its definitions are those of the lines in their order, so to load it is to load the lines
(`programs_compose`).  A session that keeps its definitions therefore ends in the same environment,
whether it is given the text or line after line.

A fresh session does not: it forgets with every line what the lines before have defined
(`fresh_forgets_lines`).
-/

namespace DiceLang

open Grammar

/-- A command without the spans of its body. -/
def Command.erase (command : Command) : Command := { command with body := command.body.erase }

namespace Environment

/-- An environment without the spans of its commands. -/
def erase (env : Environment) : Environment :=
  ⟨env.bindings.map fun binding => (binding.1, binding.2.erase)⟩

/-- Spans may be taken away before a binding is put or after that. -/
theorem put_erase (form : Form) (command : Command) (bindings : List (Form × Command)) :
    (put form command bindings).map (fun binding => (binding.1, binding.2.erase)) =
      put form command.erase (bindings.map fun binding => (binding.1, binding.2.erase)) := by
  induction bindings with
  | nil => rfl
  | cons binding bindings ih =>
      by_cases hform : binding.1 = form
      · simp [put, hform]
      · simp [put, hform, ih]

theorem erase_define (env : Environment) (definition : Definition) :
    (env.define definition).erase = env.erase.define definition.erase :=
  congrArg Environment.mk (put_erase _ _ _)

/-- What a block leaves in an environment, spans apart, is told by its definitions without spans. -/
theorem erase_load (env : Environment) (block : Program) :
    (env.load block).erase = (block.definitions.map Definition.erase).foldl define env.erase := by
  unfold load
  generalize block.definitions = definitions
  induction definitions generalizing env with
  | nil => rfl
  | cons definition definitions ih =>
      rw [List.foldl_cons, ih, erase_define, List.map_cons, List.foldl_cons]

theorem forms_erase (env : Environment) : env.erase.forms = env.forms := by
  simp [forms, erase]

end Environment

section Texts

variable {first second : String} {one two both : Program}

/-- **The definitions of joined texts** are those of the first, followed by those of the second. -/
theorem Program.definitions_joined (hfirst : Fit nestingLimit (tokenize first))
    (hsecond : Fit nestingLimit (tokenize second)) (hone : Program.parse first = .ok one)
    (htwo : Program.parse second = .ok two) :
    ∃ both, Program.parse (first ++ "\n" ++ second) = .ok both ∧
      both.definitions.map Definition.erase =
        one.definitions.map Definition.erase ++ two.definitions.map Definition.erase := by
  have hlisting : Listing (tokenize (first ++ "\n" ++ second))
      (one.definitions ++ two.definitions) :=
    listing_joined.mpr ⟨_, _, rfl, Program.listing_of_parse hone, Program.listing_of_parse htwo⟩
  have hfit := fit_joined hfirst hsecond (Program.listing_of_parse hone)
  rw [← List.map_append]
  exact Program.parse_of_listing hfit hlisting

/-- Joined texts are read only if each of them is. -/
theorem Program.parse_of_joined (hfirst : Fit nestingLimit (tokenize first))
    (hsecond : Fit nestingLimit (tokenize second))
    (hboth : Program.parse (first ++ "\n" ++ second) = .ok both) :
    (∃ one, Program.parse first = .ok one) ∧ ∃ two, Program.parse second = .ok two := by
  obtain ⟨_, _, -, hone, htwo⟩ := listing_joined.mp (Program.listing_of_parse hboth)
  obtain ⟨one, hone, -⟩ := Program.parse_of_listing hfirst hone
  obtain ⟨two, htwo, -⟩ := Program.parse_of_listing hsecond htwo
  exact ⟨⟨one, hone⟩, two, htwo⟩

/-- The forms of a block, spans apart. -/
theorem Program.forms_eq (block : Program) :
    block.forms = (block.definitions.map Definition.erase).map Definition.form := by
  rw [List.map_map]
  rfl

end Texts

section Lines

variable {text : String} {lines : List String}

/-- A text defines what is read from it. -/
theorem definitionsOf_of_parse {block : Program} (h : Program.parse text = .ok block) :
    definitionsOf text = block.definitions := by
  by_cases hnone : block.definitions = []
  · rw [hnone]
    refine definitionsOf_eq_nil fun other hother => ?_
    obtain ⟨hsame, hsome⟩ := Line.parse_program_iff.mp hother
    cases h.symm.trans hsame
    exact hsome hnone
  · unfold definitionsOf
    rw [Line.parse_program_iff.mpr ⟨h, hnone⟩]

/-- The lines of a text can be read, each by itself. -/
def ReadByLine (lines : List String) : Prop :=
  ∀ line ∈ lines, Fit nestingLimit (tokenize line) ∧ ∃ block, Program.parse line = .ok block

/-- **A text defines what its lines define**, one after the other. -/
theorem definitionsOf_lines (h : ReadByLine lines) (hsome : lines ≠ []) :
    Fit nestingLimit (tokenize ("\n".intercalate lines)) ∧
    ∃ block, Program.parse ("\n".intercalate lines) = .ok block ∧
      block.definitions.map Definition.erase =
        (lines.flatMap definitionsOf).map Definition.erase := by
  induction lines with
  | nil => exact absurd rfl hsome
  | cons line lines ih =>
      obtain ⟨⟨hfit, one, hone⟩, hothers⟩ := List.forall_mem_cons.mp h
      cases lines with
      | nil =>
          rw [String.intercalate_singleton]
          exact ⟨hfit, one, hone, by simp [definitionsOf_of_parse hone]⟩
      | cons next lines =>
          obtain ⟨hrest, two, htwo, hdefinitions⟩ := ih hothers (List.cons_ne_nil _ _)
          obtain ⟨both, hboth, hjoined⟩ := Program.definitions_joined hfit hrest hone htwo
          rw [String.intercalate_cons_cons]
          refine ⟨fit_joined hfit hrest (Program.listing_of_parse hone), both, hboth, ?_⟩
          rw [hjoined, hdefinitions, ← definitionsOf_of_parse hone, ← List.map_append,
            ← List.flatMap_cons]

variable {σ : Type} [Dice σ]

/-- What one line does to a session that keeps its definitions. -/
theorem Session.env_runLine {session : Session σ} (hfresh : session.fresh = false) (text : String) :
    (session.runLine text).session.env = session.env.load ⟨definitionsOf text, none⟩ := by
  rw [(session.session_runLine text).1, hfresh]
  split
  · next hempty =>
      rw [definitionsOf_of_isEmptyLine hempty]
      rfl
  · rfl

/-- What any number of lines do to it. -/
theorem Session.env_lines {session : Session σ} (hfresh : session.fresh = false)
    (lines : List String) : (session.after (lines.map .line)).env =
      session.env.load ⟨lines.flatMap definitionsOf, none⟩ := by
  induction lines generalizing session with
  | nil => rfl
  | cons line lines ih =>
      have hnext : (session.runLine line).session.fresh = false :=
        ((session.session_runLine line).2).trans hfresh
      calc (session.after ((line :: lines).map .line)).env
          = ((session.runLine line).session.after (lines.map .line)).env := rfl
        _ = (session.env.load ⟨definitionsOf line, none⟩).load
              ⟨lines.flatMap definitionsOf, none⟩ := by rw [ih hnext, env_runLine hfresh]
        _ = session.env.load ⟨(line :: lines).flatMap definitionsOf, none⟩ := by
            simp [Environment.load]

end Lines

/-- **Programs compose line by line.**  Take two texts that are nested within the limit and have no
numerals that are too long.  Joined by a newline they are read as a block of definitions if and only
if each of them is.  The definitions of that block, spans apart, are those of the first text followed
by those of the second; it defines their forms; and to load it into any environment is to load the one
and then the other.

So a session that keeps its definitions ends in the same environment, spans apart, whether it is given
lines one after the other or as one text, if each of them can be read as a block by itself. -/
theorem programs_compose :
    (∀ first second : String, Fit nestingLimit (tokenize first) →
      Fit nestingLimit (tokenize second) →
      ((∃ both, Program.parse (first ++ "\n" ++ second) = .ok both) ↔
        (∃ one, Program.parse first = .ok one) ∧ ∃ two, Program.parse second = .ok two) ∧
      ∀ one two both, Program.parse first = .ok one → Program.parse second = .ok two →
        Program.parse (first ++ "\n" ++ second) = .ok both →
        both.definitions.map Definition.erase =
          one.definitions.map Definition.erase ++ two.definitions.map Definition.erase ∧
        both.forms = one.forms ++ two.forms ∧
        ∀ env : Environment, (env.load both).erase = ((env.load one).load two).erase) ∧
    ∀ (σ : Type) [Dice σ] (session : Session σ) (lines : List String), session.fresh = false →
      ReadByLine lines →
      (session.runLine ("\n".intercalate lines)).session.env.erase =
        (session.after (lines.map .line)).env.erase := by
  refine ⟨fun first second hfirst hsecond => ⟨⟨?_, ?_⟩, ?_⟩, ?_⟩
  · rintro ⟨both, hboth⟩
    exact Program.parse_of_joined hfirst hsecond hboth
  · rintro ⟨⟨one, hone⟩, two, htwo⟩
    obtain ⟨both, hboth, -⟩ := Program.definitions_joined hfirst hsecond hone htwo
    exact ⟨both, hboth⟩
  · intro one two both hone htwo hboth
    obtain ⟨read, hread, hdefinitions⟩ := Program.definitions_joined hfirst hsecond hone htwo
    cases hread.symm.trans hboth
    refine ⟨hdefinitions, ?_, fun env => ?_⟩
    · rw [Program.forms_eq, hdefinitions, List.map_append, ← Program.forms_eq, ← Program.forms_eq]
    · rw [Environment.erase_load, hdefinitions, List.foldl_append, ← Environment.erase_load,
        ← Environment.erase_load]
  · intro σ _ session lines hfresh h
    rw [Session.env_runLine hfresh, Session.env_lines hfresh, Environment.erase_load,
      Environment.erase_load]
    cases lines with
    | nil => rw [String.intercalate_nil, definitionsOf_of_isEmptyLine rfl, List.flatMap_nil]
    | cons line lines =>
        obtain ⟨-, block, hblock, hdefinitions⟩ := definitionsOf_lines h (List.cons_ne_nil _ _)
        rw [definitionsOf_of_parse hblock, hdefinitions]

/-- Two definitions, of which the second uses the first. -/
def twoLines : List String := ["x => 1", "y => x"]

/-- Both lines can be read one by one. -/
theorem readByLine_twoLines : ReadByLine twoLines := by
  have hall : ∀ line ∈ twoLines, Readable (tokenize line) ∧ (Program.parse line).isOk = true := by
    decide +kernel
  intro line hline
  obtain ⟨hreadable, hread⟩ := hall line hline
  refine ⟨hreadable.fit (by decide), ?_⟩
  cases hparse : Program.parse line with
  | ok block => exact ⟨block, rfl⟩
  | error failure =>
      rw [hparse] at hread
      cases hread

/-- They define the same, whether they are run one by one or joined. -/
theorem programs_compose_twoLines :
    ReadByLine twoLines ∧
    (∃ both, Program.parse ("x => 1" ++ "\n" ++ "y => x") = .ok both) ∧
    ((Session.start false (Script.ofRolls [])).runLine ("\n".intercalate twoLines)).session.env.erase =
      ((Session.start false (Script.ofRolls [])).after (twoLines.map .line)).env.erase := by
  obtain ⟨⟨hfirst, hone⟩, hothers⟩ := List.forall_mem_cons.mp readByLine_twoLines
  obtain ⟨⟨hsecond, htwo⟩, -⟩ := List.forall_mem_cons.mp hothers
  obtain ⟨htexts, hsessions⟩ := programs_compose
  exact ⟨readByLine_twoLines, (htexts _ _ hfirst hsecond).1.mpr ⟨hone, htwo⟩,
    hsessions Script _ twoLines rfl readByLine_twoLines⟩

/-- In a fresh session only the last line is left, while the text as a whole defines both. -/
theorem fresh_forgets_lines :
    ReadByLine twoLines ∧
    ((Session.start true (Script.ofRolls [])).runLine ("\n".intercalate twoLines)).session.env.erase ≠
      ((Session.start true (Script.ofRolls [])).after (twoLines.map .line)).env.erase := by
  refine ⟨readByLine_twoLines, fun hsame => ?_⟩
  have hforms := congrArg Environment.forms hsame
  rw [Environment.forms_erase, Environment.forms_erase] at hforms
  revert hforms
  decide +kernel

end DiceLang
