import DiceLang.Proofs.Evaluation.Outcome
import DiceLang.Proofs.Line
import DiceLang.Proofs.Session.Log
import DiceLang.Shell

/-!
# What escapes from a session

A line that fails is meant to come to a result like any other.  There is one way out: a number with
more than `Text.digitLimit` digits that has to be read or written.  `Session.TooLong` lists the three
occasions: a numeral of the line, a number in the complaint about dice, the value of the line.

`Session.runLine_cases` says that with reliable dice these are all the lines that do not come to a
result that can be shown.  `Session.returns_iff` and `Shell.interact_iff` draw the consequences for
one line and for a shell that reads lines until there are no more.
-/

namespace DiceLang

open Grammar (Overlong)

namespace Session

variable {σ : Type}

/-- The session as a line finds it: a fresh one has forgotten all definitions. -/
def opened (session : Session σ) : Session σ :=
  if session.fresh then session.reset else session

/-- A fresh session leaves the dice as they are. -/
theorem dice_opened (session : Session σ) : session.opened.dice = session.dice := by
  unfold opened
  split <;> rfl

/-- The commands that a session starts a line with can be evaluated. -/
theorem evaluable_opened {session : Session σ} (h : session.env.Evaluable) :
    session.opened.env.Evaluable := by
  unfold opened
  split
  · exact Environment.empty_evaluable
  · exact h

/-- Whether the outcome of an evaluation has a number with too many digits to be written, in its
value or in its complaint. -/
def hasLongNumber : Except Failure Value → Bool
  | .ok (.integer n) => !Text.isWritable n
  | .error (.fault mistake) => !mistake.cause.isWritable
  | _ => false

variable [Dice σ]

/-- A line for which a number with too many digits has to be read or written. -/
inductive TooLong (session : Session σ) (text : String) : Prop
  /-- A numeral of the line is too long, and no mistake is reported. -/
  | numeral {token : Token}
      (htoken : token ∈ tokenize text)
      (hlong : Overlong token)
      (hquiet : ∀ mistake, Line.parse text ≠ .error (.fault mistake))
  /-- The line is an expression, and what its evaluation comes to is too long. -/
  | outcome {tree : Tree}
      (hparse : Line.parse text = .ok (.expression tree))
      (hlong : hasLongNumber
        ((evaluate .unlimited session.opened.env tree).play session.dice).1 = true)

/-- A line comes to a result that can be shown. -/
def Returns (session : Session σ) (text : String) : Prop :=
  ∃ result shown, (session.runLine text).outcome = .ok result ∧ result.text? = some shown

/-- A line that is not empty is read and run in the session as it finds it. -/
theorem runLine_eq {session : Session σ} {text : String} (hline : Text.isEmptyLine text = false) :
    session.runLine text = session.opened.runParsed text (Line.parse text) := by
  unfold runLine
  rw [hline]
  rfl

/-- Evaluation within a session, in terms of complaints of any length. -/
theorem play_eq (session : Session σ) (text : String) (tree : Tree) :
    session.play text tree =
      match (evaluate .unlimited session.env tree).play session.dice with
      | (.ok value, dice) => ⟨.ok (.value value), { session with dice }, [.evaluating text]⟩
      | (.error failure, dice) => fail { session with dice } [.evaluating text] failure.lose := by
  unfold play
  rw [evaluate_standard, Eval.play_adapt _ (fun _ => rfl)]
  rcases (evaluate .unlimited session.env tree).play session.dice with ⟨failure | value, after⟩
  · rfl
  · rfl

theorem text?_integer (n : Int) :
    (LineResult.value (.integer n)).text? =
      if Text.isWritable n then some (Text.decimal n) else none := rfl

/-- The outcome of an evaluation can be shown, unless it has a number that is too long.  Then it
escapes, if it is a complaint, or else it cannot be shown. -/
theorem play_cases (hdice : Dice.Reliable σ) {session : Session σ} (henv : session.env.Evaluable)
    (text : String) {tree : Tree} (htree : tree.isExpression = true) :
    if hasLongNumber ((evaluate .unlimited session.env tree).play session.dice).1 then
      (session.play text tree).outcome = .error .digitLimit ∨
        ∃ result, (session.play text tree).outcome = .ok result ∧ result.text? = none
    else
      ∃ result shown, (session.play text tree).outcome = .ok result ∧ result.text? = some shown := by
  have hraises : ∀ failure,
      ((evaluate .unlimited session.env tree).play session.dice).1 = .error failure →
        ∃ mistake, failure = .fault mistake :=
    fun failure => (evaluate_unlimited_raises henv htree).play hdice
  rw [play_eq]
  generalize (evaluate .unlimited session.env tree).play session.dice = played at hraises
  obtain ⟨failure | value, after⟩ := played
  · obtain ⟨mistake, rfl⟩ := hraises failure rfl
    by_cases hwritable : mistake.cause.isWritable = true
    · simp [hasLongNumber, Failure.lose, hwritable, fail, LineResult.text?]
    · simp [hasLongNumber, Failure.lose, hwritable, fail]
  · cases value with
    | boolean b => simp [hasLongNumber, LineResult.text?, Value.text?]
    | integer n =>
        have htext := text?_integer n
        have hlong : hasLongNumber (.ok (.integer n)) = !Text.isWritable n := rfl
        rw [hlong]
        generalize Text.isWritable n = writable at htext
        cases writable with
        | true => exact ⟨_, _, rfl, htext⟩
        | false => exact .inr ⟨_, rfl, htext⟩

/-- **One line.**  With reliable dice, a line that is not empty comes to a result that can be shown,
unless a number has too many digits.  Then either that escapes or it keeps the result from being
shown. -/
theorem runLine_cases (hdice : Dice.Reliable σ) {session : Session σ}
    (henv : session.env.Evaluable) {text : String} (hline : Text.isEmptyLine text = false) :
    (¬ session.TooLong text ∧ session.Returns text) ∨
    (session.TooLong text ∧ ((session.runLine text).outcome = .error .digitLimit ∨
      ∃ result, (session.runLine text).outcome = .ok result ∧ result.text? = none)) := by
  unfold Returns
  rw [runLine_eq hline]
  cases hparse : Line.parse text with
  | error failure =>
      rcases Line.parse_refused hparse with ⟨mistake, rfl, -⟩ | ⟨rfl, -⟩
      · refine .inl ⟨?_, .failed mistake, mistake.text, rfl, rfl⟩
        rintro (⟨-, -, hquiet⟩ | ⟨hexpression, -⟩)
        · exact hquiet mistake hparse
        · cases hparse.symm.trans hexpression
      · obtain ⟨⟨token, htoken, hlong⟩, hquiet⟩ := Line.parse_digitLimit_iff.mp hparse
        exact .inr ⟨.numeral htoken hlong hquiet, .inl rfl⟩
  | ok line =>
      obtain ⟨hevaluable, hshort⟩ := Line.parse_eq_ok hparse
      cases line with
      | program block =>
          have htext : ∃ shown, (LineResult.defined block.forms).text? = some shown := by
            cases block.forms <;> exact ⟨_, rfl⟩
          obtain ⟨shown, hshown⟩ := htext
          refine .inl ⟨?_, .defined block.forms, shown, rfl, hshown⟩
          rintro (⟨htoken, hlong, -⟩ | ⟨hexpression, -⟩)
          · exact hshort _ htoken hlong
          · cases hparse.symm.trans hexpression
      | expression tree =>
          have hplay := play_cases hdice (evaluable_opened henv) text hevaluable
          rw [dice_opened] at hplay
          split at hplay
          · next hlong => exact .inr ⟨.outcome hparse hlong, hplay⟩
          · next hlong =>
              refine .inl ⟨?_, hplay⟩
              rintro (⟨htoken, hlong', -⟩ | ⟨hexpression, hlong'⟩)
              · exact hshort _ htoken hlong'
              · cases hparse.symm.trans hexpression
                exact hlong hlong'

/-- A line returns if and only if it is empty or needs no number that is too long. -/
theorem returns_iff (hdice : Dice.Reliable σ) {session : Session σ}
    (henv : session.env.Evaluable) (text : String) :
    session.Returns text ↔ Text.isEmptyLine text = true ∨ ¬ session.TooLong text := by
  cases hline : Text.isEmptyLine text with
  | true =>
      refine ⟨fun _ => .inl rfl, fun _ => ⟨.blank, "", ?_, rfl⟩⟩
      unfold runLine
      rw [hline]
      rfl
  | false =>
      rcases runLine_cases hdice henv hline with ⟨hshort, hreturns⟩ | ⟨hlong, hescape⟩
      · exact ⟨fun _ => .inr hshort, fun _ => hreturns⟩
      · constructor
        · rintro ⟨result, shown, hresult, hshown⟩
          rcases hescape with hfailure | ⟨result', hresult', hnone⟩
          · cases hfailure.symm.trans hresult
          · cases hresult.symm.trans hresult'
            cases hnone.symm.trans hshown
        · rintro (hempty | hshort)
          · cases hempty
          · exact absurd hlong hshort

/-- Nothing but a number with too many digits escapes. -/
theorem outcome_eq_error (hdice : Dice.Reliable σ) {session : Session σ}
    (henv : session.env.Evaluable) {text : String} {failure : Failure}
    (h : (session.runLine text).outcome = .error failure) : failure = .digitLimit := by
  cases hline : Text.isEmptyLine text with
  | true =>
      unfold runLine at h
      rw [hline] at h
      cases h
  | false =>
      rcases runLine_cases hdice henv hline with ⟨-, result, shown, hresult, -⟩ |
        ⟨-, hescape | ⟨result, hresult, -⟩⟩
      · cases hresult.symm.trans h
      · cases hescape.symm.trans h
        rfl
      · cases hresult.symm.trans h

/-- What a line defines can be evaluated. -/
theorem definitionsOf_evaluable (text : String) :
    ∀ definition ∈ definitionsOf text, definition.body.isExpression = true := by
  unfold definitionsOf
  split
  · next block hparse => exact (Line.parse_eq_ok hparse).1
  · exact nofun

theorem evaluable_runLine {session : Session σ} (h : session.env.Evaluable) (text : String) :
    (session.runLine text).session.env.Evaluable := by
  rw [(session.session_runLine text).1]
  split
  · exact h
  · have hbase : (if session.fresh then Environment.empty else session.env).Evaluable := by
      split
      · exact Environment.empty_evaluable
      · exact h
    exact hbase.load (definitionsOf_evaluable text)

/-- What is defined in a session can be evaluated. -/
theorem evaluable_after (fresh : Bool) (dice : σ) (steps : List Step) :
    ((start fresh dice).after steps).env.Evaluable := by
  refine after_invariant (P := fun session => session.env.Evaluable) ?_
    Environment.empty_evaluable steps
  intro session action henv
  cases action with
  | line text => exact evaluable_runLine henv text
  | reset => exact Environment.empty_evaluable

/-- None of the lines that are read needs a number that is too long when its turn comes.  Breaking
off at the prompt is given as `none`. -/
def Lasts (session : Session σ) : List (Option String) → Prop
  | [] => True
  | none :: lines => session.Lasts lines
  | some text :: lines =>
      (Text.isEmptyLine text = true ∨ ¬ session.TooLong text) ∧
        (session.runLine text).session.Lasts lines

end Session

namespace Shell

variable {σ : Type}

/-- A note never fails. -/
theorem run_log (source message : String) (console : Console σ) :
    ∃ err, (log source message).run console = .ok () { console with err := err } := by
  obtain ⟨showTrees, verbose, session, out, err⟩ := console
  cases verbose with
  | true => exact ⟨err ++ logLine source message, rfl⟩
  | false => exact ⟨err, rfl⟩

theorem run_logNotes (notes : List Note) (console : Console σ) :
    ∃ err, (logNotes notes).run console = .ok () { console with err := err } := by
  induction notes generalizing console with
  | nil => exact ⟨console.err, rfl⟩
  | cons note notes ih =>
      obtain ⟨err, hlog⟩ := run_log sessionLog note.text console
      obtain ⟨err', hnotes⟩ := ih { console with err := err }
      refine ⟨err', ?_⟩
      unfold logNotes
      rw [EStateM.run_bind, hlog]
      exact hnotes

/-- A result is written if it can be shown. -/
theorem run_report_of_some {result : LineResult} {shown : String} (h : result.text? = some shown)
    (console : Console σ) :
    ∃ success out err, (report result).run console =
      .ok success { console with out := out, err := err } := by
  unfold report
  split
  · next mistake => exact ⟨false, console.out, console.err ++ (mistake.text ++ "\n"), rfl⟩
  · rw [h]
    split
    · next hnone => cases hnone
    · exact ⟨true, console.out, console.err, rfl⟩
    · exact ⟨true, _, console.err, rfl⟩

/-- A result that cannot be shown ends the shell. -/
theorem run_report_of_none {result : LineResult} (h : result.text? = none)
    (console : Console σ) : (report result).run console = .error .digitLimit console := by
  unfold report
  split
  · cases h
  · rw [h]
    rfl

variable [Dice σ]

/-- A line is run in the session, and then its result is written, if there is one. -/
theorem run_playLine (text : String) (console : Console σ) :
    ∃ err, (playLine text).run console =
      match (console.session.runLine text).outcome with
      | .ok result => (report result).run
          { console with session := (console.session.runLine text).session, err := err }
      | .error failure => .error failure
          { console with session := (console.session.runLine text).session, err := err } := by
  obtain ⟨err, hnotes⟩ := run_logNotes (console.session.runLine text).notes
    { console with session := (console.session.runLine text).session }
  refine ⟨err, ?_⟩
  show EStateM.run (logNotes (console.session.runLine text).notes >>= fun _ =>
    match (console.session.runLine text).outcome with
    | .ok result => report result
    | .error failure => throw failure) _ = _
  rw [EStateM.run_bind, hnotes]
  cases (console.session.runLine text).outcome with
  | ok result => rfl
  | error failure => rfl

/-- A line that is typed in ends the shell if and only if it does not return. -/
theorem run_respond (hdice : Dice.Reliable σ) (console : Console σ)
    (hshow : console.showTrees = false) (henv : console.session.env.Evaluable) (text : String) :
    (console.session.Returns text ∧ ∃ out err, (respond text).run console =
      .ok () { console with
        session := (console.session.runLine text).session, out := out, err := err }) ∨
    (¬ console.session.Returns text ∧ ∃ after, (respond text).run console =
      .error .digitLimit after) := by
  have hhandle : (handle text).run console = (playLine text).run console := by
    show EStateM.run (if console.showTrees then showTree text else playLine text) console = _
    rw [hshow]
    rfl
  obtain ⟨err, hplay⟩ := run_playLine text console
  unfold respond
  simp only [EStateM.run] at hhandle hplay ⊢
  rw [hhandle, hplay]
  cases houtcome : (console.session.runLine text).outcome with
  | error failure =>
      obtain rfl := Session.outcome_eq_error hdice henv houtcome
      refine .inr ⟨?_, _, rfl⟩
      rintro ⟨result, shown, hresult, -⟩
      cases houtcome.symm.trans hresult
  | ok result =>
      dsimp only
      cases htext : result.text? with
      | some shown =>
          obtain ⟨success, out, err', hreport⟩ := run_report_of_some htext
            { console with session := (console.session.runLine text).session, err := err }
          simp only [EStateM.run] at hreport
          rw [hreport]
          exact .inl ⟨⟨result, shown, houtcome, htext⟩, out, err', rfl⟩
      | none =>
          have hreport := run_report_of_none htext
            { console with session := (console.session.runLine text).session, err := err }
          simp only [EStateM.run] at hreport
          rw [hreport]
          refine .inr ⟨?_, _, rfl⟩
          rintro ⟨result', shown, hresult, hshown⟩
          cases houtcome.symm.trans hresult
          cases htext.symm.trans hshown

/-- **The loop.**  A shell that runs lines reads all of them and ends well if each returns when its
turn comes, and otherwise it is ended by a number with too many digits. -/
theorem run_interact (hdice : Dice.Reliable σ) (prompt : String) (lines : List (Option String))
    (console : Console σ) (hshow : console.showTrees = false)
    (henv : console.session.env.Evaluable) :
    (console.session.Lasts lines ∧ ∃ after, (interact prompt lines).run console = .ok 0 after) ∨
    (¬ console.session.Lasts lines ∧ ∃ after, (interact prompt lines).run console =
      .error .digitLimit after) := by
  induction lines generalizing console with
  | nil => exact .inl ⟨trivial, _, rfl⟩
  | cons line lines ih =>
      cases line with
      | none =>
          exact ih { console with out := console.out ++ prompt ++ "\n" } hshow henv
      | some text =>
          have hloop : (interact prompt (some text :: lines)).run console =
              match (respond text).run { console with out := console.out ++ prompt } with
              | .ok _ console => (interact prompt lines).run console
              | .error failure console => .error failure console := by
            show EStateM.run (respond text >>= fun _ => interact prompt lines) _ = _
            rw [EStateM.run_bind]
            dsimp only
            rcases (respond text).run { console with out := console.out ++ prompt } with ⟨-, after⟩ |
              ⟨failure, after⟩
            · rfl
            · rfl
          have hreturns := Session.returns_iff hdice henv text
          rw [hloop]
          rcases run_respond hdice { console with out := console.out ++ prompt } hshow henv text with
            ⟨hreturn, out, err, hrespond⟩ | ⟨hescape, after, hrespond⟩
          · rw [hrespond]
            have hrest := ih { console with
              session := (console.session.runLine text).session, out := out, err := err }
              hshow (Session.evaluable_runLine henv text)
            rcases hrest with ⟨hlasts, hend⟩ | ⟨hlasts, hend⟩
            · exact .inl ⟨⟨hreturns.mp hreturn, hlasts⟩, hend⟩
            · exact .inr ⟨fun hall => hlasts hall.2, hend⟩
          · rw [hrespond]
            exact .inr ⟨fun hall => hescape (hreturns.mpr hall.1), after, rfl⟩

end Shell

/-- **Failures are returned, but for numbers with too many digits.**  Take a session with reliable
dice through any steps.  A line returns a result that can be shown, be it a success or a failure, if
and only if it is empty or needs no number that is too long; nothing but such a number escapes; and a
shell that runs lines in the session reads all of them if and only if none needs such a number. -/
theorem failures_returned_iff {σ : Type} [Dice σ] (hdice : Dice.Reliable σ) (fresh : Bool) (dice : σ)
    (steps : List Session.Step) :
    (∀ text, ((Session.start fresh dice).after steps).Returns text ↔
      Text.isEmptyLine text = true ∨ ¬ ((Session.start fresh dice).after steps).TooLong text) ∧
    (∀ text failure,
      (((Session.start fresh dice).after steps).runLine text).outcome = .error failure →
        failure = .digitLimit) ∧
    ∀ (prompt : String) (lines : List (Option String)) (verbose : Bool) (out err : String),
      (∃ after, (Shell.interact prompt lines).run
        ⟨false, verbose, (Session.start fresh dice).after steps, out, err⟩ = .ok 0 after) ↔
      ((Session.start fresh dice).after steps).Lasts lines := by
  have henv := Session.evaluable_after fresh dice steps
  refine ⟨Session.returns_iff hdice henv, fun _ _ => Session.outcome_eq_error hdice henv, ?_⟩
  intro prompt lines verbose out err
  rcases Shell.run_interact hdice prompt lines ⟨false, verbose, _, out, err⟩ rfl henv with
    ⟨hlasts, hend⟩ | ⟨hlasts, after, hescape⟩
  · exact ⟨fun _ => hlasts, fun _ => hend⟩
  · constructor
    · rintro ⟨after', hend⟩
      cases hescape.symm.trans hend
    · exact fun h => absurd h hlasts

/-- Random dice do not fail. -/
theorem Twister.reliable : Dice.Reliable Twister := by
  intro sides twister
  show ∃ roll, (Twister.draw sides twister).1 = .ok roll
  unfold Twister.draw
  generalize Twister.below sides.toNat Twister.rejectionLimit twister = drawn
  exact ⟨_, rfl⟩

/-- A numeral of one digit more than can be converted. -/
def overlongText : String := String.ofList (List.replicate (Text.digitLimit + 1) '9')

/-- The text is one digit longer than any that is converted. -/
theorem toList_overlongText :
    overlongText.toList = List.replicate (Text.digitLimit + 1) '9' := by
  rw [overlongText, String.toList_ofList]

/-- After another line, a numeral that is too long raises an exception. -/
theorem failures_returned_iff_overlongText :
    ¬ ((Session.start false (Twister.ofSeed 0)).after [.line "1"]).Returns overlongText := by
  have hreturned := (failures_returned_iff Twister.reliable false (Twister.ofSeed 0) [.line "1"]).1
    overlongText
  have hparse : Line.parse overlongText = .error .digitLimit := by
    refine Line.parse_digits ?_ ?_
    · intro c hc
      rw [toList_overlongText] at hc
      rw [List.eq_of_mem_replicate hc]
      rfl
    · rw [toList_overlongText, List.length_replicate]
      exact Nat.lt_succ_self _
  intro hreturns
  rcases hreturned.mp hreturns with hempty | hshort
  · have hmem : '9' ∈ overlongText.toList := by
      rw [toList_overlongText]
      exact List.mem_replicate.mpr ⟨Nat.succ_ne_zero _, rfl⟩
    have hspace : Text.isSpace '9' = true := List.all_eq_true.mp hempty _ hmem
    revert hspace
    decide
  · obtain ⟨⟨token, htoken, hlong⟩, hquiet⟩ := Line.parse_digitLimit_iff.mp hparse
    exact hshort (.numeral htoken hlong hquiet)

end DiceLang
