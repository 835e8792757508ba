import DiceLang.Dice.Script
import DiceLang.Proofs.Report
import DiceLang.Shell
import Mathlib.Data.List.ReduceOption

/-!
# The two ways to run a shell

A shell runs the texts of a command line or reads lines at a prompt.  Either way a text is handled in
the session that the texts before it have left, so the two agree in everything but the prompts.

That rests on one property of the actions of a shell: they do not look at what has been written, and
only add to it (`Shell.Adds`).  So what comes of a text, a `Reply`, can be told from the session alone,
and both ways run through the same chain of replies (`Shell.Answered`).
`Shell.handleAll_replies` and `Shell.interact_of_replies` say so for the two loops, and
`Shell.batch_interact_agree` puts them together.
-/

namespace DiceLang

variable {σ : Type}

namespace Console

/-- The console with something written before all that it holds. -/
def behind (out err : String) (console : Console σ) : Console σ :=
  { console with out := out ++ console.out, err := err ++ console.err }

/-- What is chosen when the shell is started: whether it shows trees and whether it writes notes. -/
def settings (console : Console σ) : Bool × Bool := (console.showTrees, console.verbose)

/-- The console in a new session, with more written to its streams. -/
def written (console : Console σ) (session : Session σ) (out err : String) : Console σ :=
  { console with session, out := console.out ++ out, err := console.err ++ err }

/-- A console on which nothing is written yet and on which no debugging notes are wanted. -/
def blank (showTrees : Bool) (session : Session σ) : Console σ := ⟨showTrees, false, session, "", ""⟩

/-- A quiet console is a blank one with something written before. -/
theorem blank_behind (console : Console σ) (hquiet : console.verbose = false) :
    (blank console.showTrees console.session).behind console.out console.err = console := by
  rw [blank, behind, String.append_empty, String.append_empty, ← hquiet]

theorem verbose_written (console : Console σ) (session : Session σ) (out err : String) :
    (console.written session out err).verbose = console.verbose := rfl

/-- Writing twice is writing once. -/
@[simp] theorem written_written (console : Console σ) (session session' : Session σ)
    (out out' err err' : String) :
    (console.written session out err).written session' out' err' =
      console.written session' (out ++ out') (err ++ err') := by
  simp [written, String.append_assoc]

@[simp] theorem written_empty (console : Console σ) :
    console.written console.session "" "" = console := by
  simp [written]

end Console

namespace Shell

variable {α β : Type}

/-- The end of an action with something written before all that the console holds. -/
def endBehind (out err : String) :
    EStateM.Result Failure (Console σ) α → EStateM.Result Failure (Console σ) α
  | .ok result console => .ok result (console.behind out err)
  | .error failure console => .error failure (console.behind out err)

/-- The console at the end of an action. -/
def endConsole : EStateM.Result Failure (Console σ) α → Console σ
  | .ok _ console => console
  | .error _ console => console

/-- An action only adds to the streams: what was written before stays in front and makes no
difference.  Nor does the action change the settings of the console. -/
structure Adds (action : Shell σ α) : Prop where
  streams : ∀ out err console,
    action.run (console.behind out err) = endBehind out err (action.run console)
  settings : ∀ console, (endConsole (action.run console)).settings = console.settings

/-- To return a result writes nothing. -/
theorem adds_pure (result : α) : Adds (pure result : Shell σ α) :=
  ⟨fun _ _ _ => rfl, fun _ => rfl⟩

theorem adds_throw (failure : Failure) : Adds (throw failure : Shell σ α) :=
  ⟨fun _ _ _ => rfl, fun _ => rfl⟩

section Sequence

variable {action : Shell σ α} {next : α → Shell σ β} {console after last : Console σ}

/-- After a success the next action is run. -/
theorem run_bind_of_ok {result : α} (h : action.run console = .ok result after) :
    (action >>= next).run console = (next result).run after := by
  rw [EStateM.run_bind, h]

/-- After a failure it is not. -/
theorem run_bind_of_error {failure : Failure} (h : action.run console = .error failure after) :
    (action >>= next).run console = .error failure after := by
  rw [EStateM.run_bind, h]

/-- If two actions in a row come to an end, so does each of them. -/
theorem exists_of_run_bind {result : β} (h : (action >>= next).run console = .ok result last) :
    ∃ first after, action.run console = .ok first after ∧ (next first).run after = .ok result last := by
  cases hrun : action.run console with
  | ok first after => exact ⟨first, after, rfl, (run_bind_of_ok hrun).symm.trans h⟩
  | error failure after => cases (run_bind_of_error hrun).symm.trans h

/-- Actions in a row only add to what has been written if each does. -/
theorem Adds.bind (haction : Adds action) (hnext : ∀ result, Adds (next result)) :
    Adds (action >>= next) := by
  refine ⟨fun out err console => ?_, fun console => ?_⟩
  · have hbehind := haction.streams out err console
    cases hrun : action.run console with
    | ok result after =>
        rw [hrun] at hbehind
        rw [run_bind_of_ok hrun, run_bind_of_ok hbehind]
        exact (hnext result).streams out err after
    | error failure after =>
        rw [hrun] at hbehind
        rw [run_bind_of_error hrun, run_bind_of_error hbehind]
        rfl
  · have hfirst := haction.settings console
    cases hrun : action.run console with
    | ok result after =>
        rw [hrun] at hfirst
        rw [run_bind_of_ok hrun]
        exact ((hnext result).settings after).trans hfirst
    | error failure after =>
        rw [hrun] at hfirst
        rw [run_bind_of_error hrun]
        exact hfirst

end Sequence

/-- An action may look at the console, but not at the streams. -/
theorem adds_get {next : Console σ → Shell σ α}
    (hblind : ∀ out err console, next (console.behind out err) = next console)
    (hnext : ∀ console, Adds (next console)) : Adds (get >>= next) := by
  refine ⟨fun out err console => ?_, fun console => (hnext console).settings console⟩
  show (next (console.behind out err)).run (console.behind out err) = _
  rw [hblind]
  exact (hnext console).streams out err console

/-- Writing to the output adds to it. -/
theorem adds_write (text : String) : Adds (write text : Shell σ Unit) := by
  refine ⟨fun out err console => ?_, fun _ => rfl⟩
  show EStateM.Result.ok () { console with out := out ++ console.out ++ text, err := _ } = _
  rw [String.append_assoc]
  rfl

theorem adds_complain (text : String) : Adds (complain text : Shell σ Unit) := by
  refine ⟨fun out err console => ?_, fun _ => rfl⟩
  show EStateM.Result.ok () { console with out := _, err := err ++ console.err ++ text } = _
  rw [String.append_assoc]
  rfl

theorem adds_log (source message : String) : Adds (log source message : Shell σ Unit) := by
  refine adds_get (fun _ _ _ => rfl) fun console => ?_
  split
  · exact adds_complain _
  · exact adds_pure ()

theorem adds_logNotes (notes : List Note) : Adds (logNotes notes : Shell σ Unit) := by
  induction notes with
  | nil => exact adds_pure ()
  | cons note notes ih => exact (adds_log _ _).bind fun _ => ih

theorem adds_showTree (text : String) : Adds (showTree text : Shell σ Bool) := by
  unfold showTree
  split
  · exact adds_pure true
  split
  · exact (adds_complain _).bind fun _ => adds_pure false
  · exact adds_throw _
  split
  · exact adds_throw _
  · exact (adds_write _).bind fun _ => adds_pure true

/-- Reporting a result adds to one of the streams. -/
theorem adds_report (result : LineResult) : Adds (report result : Shell σ Bool) := by
  unfold report
  split
  · exact (adds_complain _).bind fun _ => adds_pure false
  split
  · exact adds_throw _
  · exact adds_pure true
  · exact (adds_write _).bind fun _ => adds_pure true

/-- A text that a shell has handled, with what came of it. -/
structure Reply (σ : Type) where
  text : String
  success : Bool
  /-- The session after the text. -/
  session : Session σ
  /-- What the text has written to the output. -/
  out : String
  /-- What the text has written to the error stream. -/
  err : String

/-- What is seen of a conversation: at every prompt what a line writes, or a newline where there is no
line, and a last prompt that is left by a newline. -/
def dialogue (prompt : String) : List (Option String) → List String → String
  | some _ :: lines, out :: outs => prompt ++ out ++ dialogue prompt lines outs
  | none :: lines, outs => prompt ++ "\n" ++ dialogue prompt lines outs
  | _, _ => prompt ++ "\n"

/-- Without breaks, the prompt stands before the output of every line. -/
theorem dialogue_some (prompt : String) (replies : List (Reply σ)) :
    dialogue prompt (replies.map fun reply => some reply.text) (replies.map Reply.out) =
      String.join (replies.map fun reply => prompt ++ reply.out) ++ (prompt ++ "\n") := by
  induction replies with
  | nil => simp [dialogue]
  | cons reply replies ih => simp [dialogue, ih, String.append_assoc]

/-- Breaking off at a prompt, or ending the input there, only writes the prompt and a newline. -/
theorem run_break (console : Console σ) (prompt : String) (next : Shell σ α) :
    (do write prompt; write "\n"; next : Shell σ α).run console =
      next.run (console.written console.session (prompt ++ "\n") "") := by
  show next.run { console with out := console.out ++ prompt ++ "\n" } = _
  rw [Console.written, String.append_empty, String.append_assoc]

/-- Lines that are ended by newlines are read as they are. -/
theorem inputLines_eq {texts : List String} (h : ∀ text ∈ texts, '\n' ∉ text.toList) :
    inputLines (String.join (texts.map (· ++ "\n"))) = texts := by
  have hbreak : "\n".toList = ['\n'] := rfl
  have hsplit : (String.join (texts.map (· ++ "\n"))).toList.splitOn '\n' =
      texts.map String.toList ++ [[]] := by
    induction texts with
    | nil => simp
    | cons text texts ih =>
        obtain ⟨htext, hothers⟩ := List.forall_mem_cons.mp h
        rw [List.map_cons, String.join_cons, String.toList_append, String.toList_append, hbreak,
          List.append_assoc, List.singleton_append, List.splitOn_append_cons_self, ih hothers,
          List.splitOn_eq_singleton htext]
        rfl
  unfold inputLines
  rw [splitLines_eq_splitOn, hsplit]
  simp

variable [Dice σ]

theorem adds_playLine (text : String) : Adds (playLine text : Shell σ Bool) := by
  refine adds_get (fun _ _ _ => rfl) fun console => ?_
  have hsession : ∀ session : Session σ,
      Adds (modify fun console => { console with session } : Shell σ Unit) :=
    fun _ => ⟨fun _ _ _ => rfl, fun _ => rfl⟩
  refine (hsession _).bind fun _ => (adds_logNotes _).bind fun _ => ?_
  split
  · exact adds_report _
  · exact adds_throw _

/-- **Handling a text only adds to the streams.** -/
theorem adds_handle (text : String) : Adds (handle text : Shell σ Bool) := by
  refine adds_get (fun _ _ _ => rfl) fun console => ?_
  split
  · exact adds_showTree text
  · exact adds_playLine text

/-- The reply is what comes of its text in a session, by itself and without debugging notes. -/
def Reply.Answers (showTrees : Bool) (session : Session σ) (reply : Reply σ) : Prop :=
  (handle reply.text).run (.blank showTrees session) =
    .ok reply.success ⟨showTrees, false, reply.session, reply.out, reply.err⟩

/-- Replies to texts in a row, each of which is handled in the session that the one before has left,
be that a success or not. -/
inductive Replies (showTrees : Bool) : Session σ → List (Reply σ) → Session σ → Prop
  | nil (session : Session σ) : Replies showTrees session [] session
  | cons {session last : Session σ} {reply : Reply σ} {replies : List (Reply σ)}
      (hanswer : reply.Answers showTrees session)
      (hothers : Replies showTrees reply.session replies last) :
      Replies showTrees session (reply :: replies) last

/-- Texts have been answered from one console to another. -/
structure Answered (console : Console σ) (texts : List String) (replies : List (Reply σ))
    (last : Console σ) : Prop where
  texts : replies.map Reply.text = texts
  chain : Replies console.showTrees console.session replies last.session
  /-- What the replies write, in their order, is all that has been written. -/
  streams : last = console.written last.session (String.join (replies.map Reply.out))
    (String.join (replies.map Reply.err))

variable {console last : Console σ}

/-- A text is answered in the same way whatever has been written before. -/
theorem Reply.Answers.run_handle {reply : Reply σ}
    (h : reply.Answers console.showTrees console.session) (hquiet : console.verbose = false) :
    (handle reply.text).run console =
      .ok reply.success (console.written reply.session reply.out reply.err) := by
  have hstreams := (adds_handle reply.text).streams console.out console.err
    (.blank console.showTrees console.session)
  rw [h, console.blank_behind hquiet] at hstreams
  rw [hstreams, ← hquiet]
  rfl

/-- A text that has been handled has been answered. -/
theorem exists_answer {text : String} {success : Bool} (hquiet : console.verbose = false)
    (h : (handle text).run console = .ok success last) :
    ∃ reply : Reply σ, reply.text = text ∧ reply.success = success ∧
      reply.Answers console.showTrees console.session ∧
      last = console.written reply.session reply.out reply.err := by
  have hadds : Adds (handle text : Shell σ Bool) := adds_handle text
  have hstreams := hadds.streams console.out console.err
    (.blank console.showTrees console.session)
  have hsettings := hadds.settings (.blank console.showTrees console.session)
  rw [console.blank_behind hquiet, h] at hstreams
  cases hrun : (handle text).run (.blank console.showTrees console.session) with
  | error failure after =>
      rw [hrun] at hstreams
      cases hstreams
  | ok success' after =>
      rw [hrun] at hstreams hsettings
      obtain ⟨showTrees, verbose, session, out, err⟩ := after
      obtain ⟨rfl, rfl⟩ := Prod.mk.inj hsettings
      obtain ⟨rfl, rfl⟩ := EStateM.Result.ok.inj hstreams
      refine ⟨⟨text, success, session, out, err⟩, rfl, rfl, hrun, ?_⟩
      rw [Console.written, hquiet]
      rfl

/-- **Texts in a row.**  Texts that have all been handled have been answered one after the other, and
those are counted whose replies are no successes. -/
theorem handleAll_replies {texts : List String} {failures : Nat} (hquiet : console.verbose = false)
    (h : (handleAll texts).run console = .ok failures last) :
    ∃ replies : List (Reply σ), Answered console texts replies last ∧
      failures = replies.countP fun reply => !reply.success := by
  induction texts generalizing console failures last with
  | nil =>
      obtain ⟨rfl, rfl⟩ := EStateM.Result.ok.inj h
      exact ⟨[], ⟨rfl, .nil _, by simp⟩, rfl⟩
  | cons text texts ih =>
      obtain ⟨success, after, hfirst, hrest⟩ := exists_of_run_bind h
      obtain ⟨others, after', hothers, hend⟩ := exists_of_run_bind hrest
      obtain ⟨reply, rfl, rfl, hanswer, rfl⟩ := exists_answer hquiet hfirst
      obtain ⟨replies, ⟨rfl, hchain, hstreams⟩, rfl⟩ :=
        ih ((console.verbose_written _ _ _).trans hquiet) hothers
      obtain ⟨rfl, rfl⟩ := EStateM.Result.ok.inj hend
      refine ⟨reply :: replies, ⟨rfl, .cons hanswer hchain, ?_⟩, ?_⟩
      · rw [Console.written_written] at hstreams
        simpa using hstreams
      · cases hsuccess : reply.success <;> simp [hsuccess]

/-- A line that is answered is typed in behind the prompt. -/
theorem Reply.Answers.run_respond {reply : Reply σ} {prompt : String} (next : Shell σ α)
    (h : reply.Answers console.showTrees console.session) (hquiet : console.verbose = false) :
    (do write prompt; respond reply.text; next : Shell σ α).run console =
      next.run (console.written reply.session (prompt ++ reply.out) reply.err) := by
  have hprompt : (write prompt).run console =
      .ok () (console.written console.session prompt "") := by
    rw [Console.written, String.append_empty]
    rfl
  have hhandle : (handle reply.text).run (console.written console.session prompt "") = _ :=
    Reply.Answers.run_handle h hquiet
  have hrespond : (respond reply.text).run (console.written console.session prompt "") =
      .ok () (console.written reply.session (prompt ++ reply.out) reply.err) := by
    rw [Console.written_written, String.empty_append] at hhandle
    unfold respond
    simp only [EStateM.run] at hhandle ⊢
    rw [hhandle]
  rw [run_bind_of_ok hprompt, run_bind_of_ok hrespond]

/-- **Lines at a prompt.**  If texts are answered one after the other, then so are lines that are
typed in, with breaks at the prompt or without. -/
theorem interact_of_replies {prompt : String} {lines : List (Option String)}
    {replies : List (Reply σ)} {session : Session σ} (hquiet : console.verbose = false)
    (hreplies : Replies console.showTrees console.session replies session)
    (hlines : lines.reduceOption = replies.map Reply.text) :
    (interact prompt lines).run console =
      .ok 0 (console.written session (dialogue prompt lines (replies.map Reply.out))
        (String.join (replies.map Reply.err))) := by
  induction lines generalizing console replies with
  | nil =>
      obtain rfl : replies = [] := List.map_eq_nil_iff.mp hlines.symm
      cases hreplies
      exact run_break console prompt _
  | cons line lines ih =>
      cases line with
      | none =>
          rw [List.reduceOption_cons_of_none] at hlines
          have hstill := (console.verbose_written console.session (prompt ++ "\n") "").trans hquiet
          rw [interact, run_break, ih hstill hreplies hlines, Console.written_written,
            String.empty_append, dialogue]
      | some text =>
          rw [List.reduceOption_cons_of_some] at hlines
          cases hreplies with
          | nil => cases hlines
          | @cons _ _ reply replies hanswer hothers =>
              obtain ⟨rfl, hothers'⟩ := List.cons.inj hlines
              have hstill := (console.verbose_written reply.session (prompt ++ reply.out)
                reply.err).trans hquiet
              rw [interact, hanswer.run_respond _ hquiet, ih hstill hothers hothers',
                Console.written_written]
              simp [dialogue]

/-- The texts of a command line are all answered, and the status tells whether one has failed. -/
theorem batch_replies {texts : List String} {status : Nat} (hquiet : console.verbose = false)
    (h : (batch texts).run console = .ok status last) :
    ∃ replies : List (Reply σ), Answered console texts replies last ∧
      status = if replies.all Reply.success then 0 else 1 := by
  obtain ⟨failures, after, hall, hend⟩ := exists_of_run_bind h
  obtain ⟨replies, hanswered, rfl⟩ := handleAll_replies hquiet hall
  have hcount : (replies.countP fun reply => !reply.success) = 0 ↔
      replies.all Reply.success = true := by
    simp [List.countP_eq_zero]
  by_cases hsuccess : replies.all Reply.success = true
  · rw [if_pos (hcount.mpr hsuccess)] at hend
    obtain ⟨rfl, rfl⟩ := EStateM.Result.ok.inj hend
    exact ⟨replies, hanswered, (if_pos hsuccess).symm⟩
  · have hstill : after.verbose = false := by
      rw [hanswered.streams]
      exact hquiet
    have hlog : ∀ source message, (log source message).run after = .ok () after := by
      intro source message
      show EStateM.run (if after.verbose then complain (logLine source message) else pure ()) _ = _
      rw [hstill]
      rfl
    rw [if_neg (mt hcount.mp hsuccess), run_bind_of_ok (hlog _ _)] at hend
    obtain ⟨rfl, rfl⟩ := EStateM.Result.ok.inj hend
    exact ⟨replies, hanswered, (if_neg hsuccess).symm⟩

/-- **The two ways to run a shell agree.**  Suppose that a shell without debugging notes runs the texts
of a command line to the end.  Then every text has been answered in the session that the texts before
it have left; what the replies write makes up what is written; and the status tells whether one of them
has failed.  If the same texts are typed in as lines, the shell ends well, in the same session and with
the same error stream, and the prompt stands before the output of each line and before the newline at
the end.  Breaking off at a prompt adds that prompt and a newline to the output and does nothing
else. -/
theorem batch_interact_agree {texts : List String} (hlines : ∀ text ∈ texts, '\n' ∉ text.toList)
    {status : Nat} (hquiet : console.verbose = false)
    (hbatch : (batch texts).run console = .ok status last) :
    ∃ replies : List (Reply σ), Answered console texts replies last ∧
      (status = if replies.all Reply.success then 0 else 1) ∧
      ∀ prompt,
        (interact prompt ((inputLines (String.join (texts.map (· ++ "\n")))).map some)).run console =
          .ok 0 { last with
            out := console.out ++ (String.join (replies.map fun reply => prompt ++ reply.out) ++
              (prompt ++ "\n")) } ∧
        ∀ lines : List (Option String), lines.reduceOption = texts →
          (interact prompt lines).run console =
            .ok 0 { last with
              out := console.out ++ dialogue prompt lines (replies.map Reply.out) } := by
  obtain ⟨replies, hanswered, hstatus⟩ := batch_replies hquiet hbatch
  have hinteract : ∀ prompt lines, lines.reduceOption = texts →
      (interact prompt lines).run console =
        .ok 0 { last with
          out := console.out ++ dialogue prompt lines (replies.map Reply.out) } := by
    intro prompt lines htyped
    rw [interact_of_replies hquiet hanswered.chain (htyped.trans hanswered.texts.symm),
      hanswered.streams]
    rfl
  refine ⟨replies, hanswered, hstatus, fun prompt => ⟨?_, hinteract prompt⟩⟩
  have hall : (texts.map some).reduceOption = texts := by simp [List.reduceOption]
  rw [inputLines_eq hlines, hinteract prompt _ hall, ← dialogue_some, ← hanswered.texts,
    List.map_map]
  rfl

/-- A shell whose dice have two rolls to come. -/
def twoRolls : Console Script := ⟨false, false, .start false (.ofRolls [some 3, some 4]), "", ""⟩

/-- A definition, a use of it with dice, a mistake, a blank line and a use of it without dice. -/
def mixedTexts : List String := ["five => 5", "five + 2D6", "5 +", "", "five"]

/-- The mistake shows in the status, but does not keep the last text from being run. -/
theorem batch_interact_agree_mixedTexts :
    ((∀ text ∈ mixedTexts, '\n' ∉ text.toList) ∧ twoRolls.verbose = false) ∧
    ∃ last, (batch mixedTexts).run twoRolls = .ok 1 last ∧
      last.out = "defined nullary five\n12\n5\n" ∧
      (interact ">> " (none :: mixedTexts.map some)).run twoRolls =
        .ok 0 { last with out := ">> \n>> defined nullary five\n>> 12\n>> >> >> 5\n>> \n" } := by
  have hlines : ∀ text ∈ mixedTexts, '\n' ∉ text.toList := by decide
  have hstatus : (Ending.ofResult ((batch mixedTexts).run twoRolls)).status.toOption = some 1 := by
    decide +kernel
  have hout : (Ending.ofResult ((batch mixedTexts).run twoRolls)).out =
      "defined nullary five\n12\n5\n" := by
    decide +kernel
  have hseen : (Ending.ofResult
      ((interact ">> " (none :: mixedTexts.map some)).run twoRolls)).out =
      ">> \n>> defined nullary five\n>> 12\n>> >> >> 5\n>> \n" := by
    decide +kernel
  refine ⟨⟨hlines, rfl⟩, ?_⟩
  cases hbatch : (batch mixedTexts).run twoRolls with
  | error failure last =>
      rw [hbatch] at hstatus
      cases hstatus
  | ok status last =>
      rw [hbatch] at hstatus hout
      obtain rfl : status = 1 := Option.some.inj hstatus
      obtain ⟨replies, -, -, hagree⟩ := batch_interact_agree hlines rfl hbatch
      have hinteract := (hagree ">> ").2 (none :: mixedTexts.map some) rfl
      rw [hinteract] at hseen
      refine ⟨last, rfl, hout, hinteract.trans ?_⟩
      rw [← hseen]
      rfl

end Shell

end DiceLang
