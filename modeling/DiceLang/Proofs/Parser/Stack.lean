import DiceLang.Parser

/-!
# Larger stacks

A parser that is given a larger stack does what it does on a smaller one, unless the smaller one is
used up.  That is reported as a mistake, except on an empty list, which has no symbol to point at.

Two parsers are compared on one list by `Parser.Follows`, which is kept by sequences and by loops.  So
the functions that call each other follow what they call (`body_follows`), and by induction on the
places of the stack each call follows the same call with fewer of them (`invoke_follows`).  What is
known of both stacks is then known of whole lists (`parseExpression_larger`, `parseProgram_larger`).
-/

namespace DiceLang

namespace Parser

section Running

variable {α β : Type} {symbols : List Symbol}

/-- How a sequence goes on where its first part has ended. -/
def goOn (f : α → Parser β) (symbols : List Symbol) :
    Except Abort α × Nat → Part (Except Abort β × Nat)
  | (.ok a, pos) => f a symbols pos
  | (.error abort, pos) => .some (.error abort, pos)

/-- **Sequences.**  The second part starts where the first one has ended, and not at all if that has
been broken off. -/
theorem bind_apply (m : Parser α) (f : α → Parser β) (pos : Nat) :
    (m >>= f) symbols pos = (m symbols pos).bind (goOn f symbols) := by
  show ((m >>= f).run symbols).run.run pos = _
  rw [ReaderT.run_bind, ExceptT.run_bind, StateT.run_bind]
  refine congrArg (Part.bind (m symbols pos)) (funext fun reached => ?_)
  rcases reached with ⟨abort | a, after⟩
  · rfl
  · rfl

/-- A sequence goes on with the value that its first part has come to. -/
theorem bind_of_ok {m : Parser α} {a : α} {pos after : Nat}
    (h : m symbols pos = .some (.ok a, after)) (f : α → Parser β) :
    (m >>= f) symbols pos = f a symbols after := by
  rw [bind_apply, h, Part.bind_some, goOn]

/-- A sequence is broken off where its first part is. -/
theorem bind_of_error {m : Parser α} {abort : Abort} {pos after : Nat}
    (h : m symbols pos = .some (.error abort, after)) (f : α → Parser β) :
    (m >>= f) symbols pos = .some (.error abort, after) := by
  rw [bind_apply, h, Part.bind_some, goOn]

/-- A value takes no symbols. -/
@[simp] theorem pure_apply (a : α) (pos : Nat) :
    (pure a : Parser α) symbols pos = .some (.ok a, pos) := rfl

/-- What is broken off stays where it is. -/
@[simp] theorem throw_apply (abort : Abort) (pos : Nat) :
    (throw abort : Parser α) symbols pos = .some (.error abort, pos) := rfl

/-- The list can be had anywhere. -/
@[simp] theorem read_apply (pos : Nat) :
    (read : Parser (List Symbol)) symbols pos = .some (.ok symbols, pos) := rfl

/-- The position can be had anywhere. -/
@[simp] theorem get_apply (pos : Nat) :
    (get : Parser Nat) symbols pos = .some (.ok pos, pos) :=
  Part.bind_some (pos, pos) fun reached => Part.some (Except.ok reached.1, reached.2)

/-- The position is changed in one step. -/
@[simp] theorem modify_apply (g : Nat → Nat) (pos : Nat) :
    (modify g : Parser Unit) symbols pos = .some (.ok (), g pos) :=
  Part.bind_some ((), g pos) fun reached => Part.some (Except.ok reached.1, reached.2)

/-- The symbol at a position inside a list is the current one. -/
theorem current_of_getElem? {symbol : Symbol} {pos : Nat} (h : symbols[pos]? = some symbol) :
    current symbols pos = .some (.ok symbol, pos) := by
  simp [current, bind_apply, goOn, h]

/-- Only an empty list has no current symbol. -/
theorem current_nil (pos : Nat) : current [] pos = .some (.error .missing, pos) := by
  simp [current, bind_apply, goOn]

/-- Wherever the position is, a list that is not empty has a current symbol. -/
theorem exists_current (h : symbols ≠ []) (pos : Nat) :
    ∃ symbol, current symbols pos = .some (.ok symbol, pos) := by
  have hlast := List.getLast?_eq_some_getLast h
  cases hplace : symbols[pos]? with
  | some symbol => exact ⟨symbol, current_of_getElem? hplace⟩
  | none => exact ⟨symbols.getLast h, by simp [current, bind_apply, goOn, hplace, hlast]⟩

end Running

section Follows

variable {α β ρ σ : Type} {lost : Abort → Prop} {symbols : List Symbol}

/-- On one list of symbols a parser does what another one does, unless that is broken off in a way
that is given up for lost. -/
def Follows (lost : Abort → Prop) (symbols : List Symbol) (m m' : Parser α) : Prop :=
  ∀ pos, m' symbols pos = m symbols pos ∨
    ∃ abort after, m symbols pos = .some (.error abort, after) ∧ lost abort

/-- Every parser follows itself. -/
theorem Follows.refl (m : Parser α) : Follows lost symbols m m := fun _ => .inl rfl

/-- Whatever is given up for lost is followed by any parser. -/
theorem follows_throw {abort : Abort} (h : lost abort) (m : Parser α) :
    Follows lost symbols (throw abort) m := fun pos => .inr ⟨abort, pos, rfl, h⟩

/-- Sequences follow each other if their parts do. -/
theorem Follows.bind {m m' : Parser α} {f f' : α → Parser β} (h : Follows lost symbols m m')
    (hf : ∀ a, Follows lost symbols (f a) (f' a)) : Follows lost symbols (m >>= f) (m' >>= f') := by
  intro pos
  rcases h pos with hsame | ⟨abort, after, habort, hlost⟩
  · rw [bind_apply, bind_apply, hsame]
    rcases Part.eq_none_or_eq_some (m symbols pos) with hnone | ⟨⟨abort | a, after⟩, hsome⟩
    · rw [hnone, Part.bind_none, Part.bind_none]
      exact .inl rfl
    · rw [hsome, Part.bind_some, Part.bind_some]
      exact .inl rfl
    · rw [hsome, Part.bind_some, Part.bind_some]
      exact hf a after
  · exact .inr ⟨abort, after, bind_of_error habort f, hlost⟩

/-- One step of a loop, as a partial function from places to places. -/
def lap (step : σ → Parser (ρ ⊕ σ)) (symbols : List Symbol) :
    σ × Nat →. (Except Abort ρ × Nat) ⊕ (σ × Nat) :=
  fun place => (step place.1 symbols place.2).map settle

/-- A step that is broken off ends the loop there. -/
theorem loop_of_error {step : σ → Parser (ρ ⊕ σ)} {state : σ} {abort : Abort} {pos after : Nat}
    (h : step state symbols pos = .some (.error abort, after)) :
    loop step state symbols pos = .some (.error abort, after) := by
  refine Part.eq_some_iff.mpr (PFun.fix_stop ?_)
  simp [h, settle]

/-- **One lap.**  A loop takes a step, and then it ends or goes on from there. -/
theorem loop_apply (step : σ → Parser (ρ ⊕ σ)) (state : σ) (pos : Nat) :
    loop step state symbols pos = (step state >>= fun
      | .inl result => pure result
      | .inr next => loop step next) symbols pos := by
  rcases Part.eq_none_or_eq_some (step state symbols pos) with
    hnone | ⟨⟨abort | result | next, after⟩, hsome⟩
  · rw [bind_apply, hnone, Part.bind_none, Part.eq_none_iff]
    intro result hresult
    have hdom := PFun.dom_of_mem_fix hresult
    simp [hnone] at hdom
  · rw [bind_of_error hsome, loop_of_error hsome]
  · rw [bind_of_ok hsome]
    refine Part.eq_some_iff.mpr (PFun.fix_stop ?_)
    simp [hsome, settle]
  · rw [bind_of_ok hsome]
    refine PFun.fix_fwd_eq ?_
    simp [hsome, settle]

/-- Two loops come to the same where their steps are the same, and where they are not the outcome is
lost, as it is from wherever the first loop has come there. -/
theorem mem_fix_of_laps {lap lap' : σ × Nat →. (Except Abort ρ × Nat) ⊕ (σ × Nat)}
    {gone : σ × Nat → Prop}
    (h : ∀ place, gone place ∨
      lap' place = lap place ∧ ∀ next, Sum.inr next ∈ lap place → gone next → gone place)
    {place : σ × Nat} {result : Except Abort ρ × Nat} (hresult : result ∈ lap.fix place) :
    gone place ∨ result ∈ lap'.fix place := by
  refine PFun.fixInduction hresult (C := fun place => gone place ∨ result ∈ lap'.fix place) ?_
  intro place hplace ih
  rcases h place with hgone | ⟨hsame, hback⟩
  · exact .inl hgone
  rcases PFun.mem_fix_iff.mp hplace with hstop | ⟨next, hnext, -⟩
  · exact .inr (PFun.fix_stop (hsame ▸ hstop))
  rcases ih next hnext with hgone | hresult
  · exact .inl (hback next hnext hgone)
  · right
    rwa [PFun.fix_fwd_eq (hsame ▸ hnext : Sum.inr next ∈ lap' place)]

/-- Loops follow each other if their steps do. -/
theorem Follows.loop {step step' : σ → Parser (ρ ⊕ σ)}
    (h : ∀ state, Follows lost symbols (step state) (step' state)) (state : σ) :
    Follows lost symbols (loop step state) (loop step' state) := by
  intro pos
  let gone (place : σ × Nat) : Prop := ∃ abort after, lost abort ∧
    (.error abort, after) ∈ Parser.loop step place.1 symbols place.2
  have hback : ∀ place next, Sum.inr next ∈ lap step symbols place → gone next → gone place := by
    rintro place next hnext ⟨abort, after, hlost, hmem⟩
    refine ⟨abort, after, hlost, ?_⟩
    have hsame : (lap step symbols).fix place = (lap step symbols).fix next := PFun.fix_fwd_eq hnext
    exact (hsame ▸ hmem : (.error abort, after) ∈ (lap step symbols).fix place)
  have hstep : ∀ place, gone place ∨ lap step' symbols place = lap step symbols place := by
    intro place
    rcases h place.1 place.2 with hsame | ⟨abort, after, habort, hlost⟩
    · exact .inr (congrArg (Part.map settle) hsame)
    · exact .inl ⟨abort, after, hlost, Part.eq_some_iff.mp (loop_of_error habort)⟩
  by_cases hgone : gone (state, pos)
  · obtain ⟨abort, after, hlost, hmem⟩ := hgone
    exact .inr ⟨abort, after, Part.eq_some_iff.mpr hmem, hlost⟩
  · refine .inl (Part.ext fun result => ⟨fun hresult => ?_, fun hresult => ?_⟩)
    · refine (mem_fix_of_laps (fun place => ?_) hresult).resolve_left hgone
      refine (hstep place).imp_right fun hsame => ⟨hsame.symm, fun next hnext => ?_⟩
      exact hback place next (hsame ▸ hnext)
    · refine (mem_fix_of_laps (fun place => ?_) hresult).resolve_left hgone
      exact (hstep place).imp_right fun hsame => ⟨hsame, hback place⟩

end Follows

section Functions

variable {lost : Abort → Prop} {symbols : List Symbol}
  {self self' : (callee : Callee) → Parser callee.Result}

/-- Two ways of calling functions follow each other. -/
abbrev CallsFollow (lost : Abort → Prop) (symbols : List Symbol)
    (self self' : (callee : Callee) → Parser callee.Result) : Prop :=
  ∀ callee, Follows lost symbols (self callee) (self' callee)

/-- A primary calls nothing but expressions in parentheses. -/
theorem primary_follows (h : CallsFollow lost symbols self self') :
    Follows lost symbols (primary self) (primary self') := by
  refine Follows.bind (.refl _) fun opening => ?_
  cases opening with
  | some _ => exact (h .expression).bind fun tree => .refl _
  | none => exact .refl _

/-- The arguments of a call are read in a loop, each by a call of its own. -/
theorem arguments_follows (h : CallsFollow lost symbols self self') :
    Follows lost symbols (arguments self) (arguments self') := by
  refine Follows.bind (.refl _) fun closing => ?_
  cases closing with
  | some _ => exact .refl _
  | none =>
      refine (h .expression).bind fun first => ?_
      refine Follows.bind (Follows.loop (fun args => ?_) _) fun args => .refl _
      refine Follows.bind (.refl _) fun comma => ?_
      cases comma with
      | none => exact .refl _
      | some _ => exact (h .expression).bind fun arg => .refl _

/-- A command calls for its arguments or for its operands. -/
theorem call_follows (h : CallsFollow lost symbols self self') :
    Follows lost symbols (call self) (call self') := by
  refine Follows.bind (.refl _) fun start => Follows.bind (.refl _) fun name => ?_
  cases name with
  | some name =>
      refine Follows.bind (.refl _) fun opening => ?_
      cases opening with
      | some _ => exact (h .arguments).bind fun args => .refl _
      | none =>
          refine Follows.bind (.refl _) fun found => ?_
          cases found with
          | true => exact (h .primary).bind fun rhs => .refl _
          | false => exact .refl _
  | none =>
      refine (h .primary).bind fun lhs => Follows.bind (.refl _) fun name => ?_
      cases name with
      | none => exact .refl _
      | some name =>
          refine Follows.bind (.refl _) fun found => ?_
          cases found with
          | true => exact (h .primary).bind fun rhs => .refl _
          | false => exact .refl _

/-- A chain calls for its operands in a loop. -/
theorem chain_follows {operand operand' : Parser Tree} (h : Follows lost symbols operand operand')
    (pick : Token → Option Arithmetic) :
    Follows lost symbols (chain operand pick) (chain operand' pick) := by
  refine h.bind fun left => Follows.loop (fun left => ?_) left
  refine Follows.bind (.refl _) fun op => ?_
  cases op with
  | none => exact .refl _
  | some op => exact h.bind fun right => .refl _

theorem comparison_follows {operand operand' : Parser Tree}
    (h : Follows lost symbols operand operand') (pick : Token → Option Comparison) :
    Follows lost symbols (comparison operand pick) (comparison operand' pick) := by
  refine h.bind fun left => Follows.bind (.refl _) fun op => ?_
  cases op with
  | none => exact .refl _
  | some op => exact h.bind fun right => .refl _

theorem definition_follows (h : CallsFollow lost symbols self self') :
    Follows lost symbols (definition self) (definition self') := by
  refine Follows.bind (.refl _) fun start => (h .pattern).bind fun head => ?_
  exact Follows.bind (.refl _) fun arrow => (h .expression).bind fun body => .refl _

/-- **One call.**  Functions follow each other if the functions that they call do. -/
theorem body_follows (h : CallsFollow lost symbols self self') :
    CallsFollow lost symbols (body self) (body self') := by
  intro callee
  cases callee with
  | definition => exact definition_follows h
  | pattern => exact .refl _
  | expression => exact h .equality
  | equality => exact comparison_follows (h .relational) _
  | relational => exact comparison_follows (h .additive) _
  | additive => exact chain_follows (h .multiplicative) _
  | multiplicative => exact chain_follows (h .call) _
  | call => exact call_follows h
  | arguments => exact arguments_follows h
  | primary => exact primary_follows h

/-- **Any call.**  What is called with more places left on the stack follows what is called with
fewer, unless these are used up. -/
theorem invoke_follows {room larger : Nat} (hroom : room ≤ larger) :
    CallsFollow (· = .overflow) symbols (invoke room) (invoke larger) := by
  induction room generalizing larger with
  | zero =>
      intro callee
      refine follows_throw ?_ _
      rfl
  | succ room ih =>
      cases larger with
      | zero => omega
      | succ larger => exact body_follows (ih (Nat.le_of_succ_le_succ hroom))

end Functions

section Guarded

variable {α : Type} {symbols : List Symbol}

/-- The report that there is no place left on the stack. -/
def IsNesting (abort : Abort) : Prop :=
  ∃ mistake, abort = .fault mistake ∧ mistake.cause.code = "E106"

/-- On a list that is not empty, what follows a parser until the stack is used up follows it under
guard until that is reported. -/
theorem Follows.guarded {m m' : Parser α} (h : Follows (· = .overflow) symbols m m')
    (hsymbols : symbols ≠ []) : Follows IsNesting symbols (guarded m) (guarded m') := by
  intro pos
  unfold Parser.guarded
  rcases h pos with hsame | ⟨abort, after, habort, rfl⟩
  · exact .inl (congrArg (Part.bind · (rescue symbols)) hsame)
  · obtain ⟨symbol, hsymbol⟩ := exists_current hsymbols after
    refine .inr ⟨.fault ⟨.nesting, symbol.span, none⟩, after, ?_, ⟨_, rfl, rfl⟩⟩
    rw [habort, Part.bind_some, rescue, complainOfNesting, bind_of_ok hsymbol, throw_apply]

/-- On an empty list a parser is broken off for want of a symbol, unless the stack is used up
before. -/
def Starves (m : Parser α) : Prop :=
  ∀ pos, ∃ abort, (abort = .overflow ∨ abort = .missing) ∧ m [] pos = .some (.error abort, pos)

/-- A sequence starves if its first part does. -/
theorem Starves.bind {β : Type} {m : Parser α} (h : Starves m) (f : α → Parser β) :
    Starves (m >>= f) := by
  intro pos
  obtain ⟨abort, hcause, habort⟩ := h pos
  exact ⟨abort, hcause, bind_of_error habort f⟩

theorem starves_current : Starves current := fun pos => ⟨.missing, .inr rfl, current_nil pos⟩

/-- Whichever function is called, on an empty list it finds nothing. -/
theorem invoke_starves (room : Nat) (callee : Callee) : Starves (invoke room callee) := by
  induction room generalizing callee with
  | zero => exact fun pos => ⟨.overflow, .inl rfl, rfl⟩
  | succ room ih =>
      have htaken : ∀ {β γ : Type} (pick : Symbol → Option β) (f : Option β → Parser γ),
          Starves (accept pick >>= f) := fun pick f => (starves_current.bind _).bind f
      cases callee with
      | definition => exact starves_current.bind _
      | pattern => exact htaken _ _
      | expression => exact ih .equality
      | equality => exact (ih .relational).bind _
      | relational => exact (ih .additive).bind _
      | additive => exact (ih .multiplicative).bind _
      | multiplicative => exact (ih .call).bind _
      | call => exact starves_current.bind _
      | arguments => exact htaken _ _
      | primary => exact htaken _ _

/-- Under guard all that remains is that a symbol is missing. -/
theorem Starves.guarded {m : Parser α} (h : Starves m) (pos : Nat) :
    guarded m [] pos = .some (.error .missing, pos) := by
  obtain ⟨abort, rfl | rfl, habort⟩ := h pos
  · rw [Parser.guarded, habort, Part.bind_some, rescue, complainOfNesting,
      bind_of_error (current_nil pos)]
  · rw [Parser.guarded, habort, Part.bind_some, rescue]
    nofun

/-- **Calls under guard.**  On any list, what is called with more places left on the stack follows
what is called with fewer, unless it is reported that these are used up. -/
theorem guarded_invoke_follows {room larger : Nat} (hroom : room ≤ larger) (callee : Callee) :
    Follows IsNesting symbols (guarded (invoke room callee)) (guarded (invoke larger callee)) := by
  cases symbols with
  | nil =>
      intro pos
      exact .inl (((invoke_starves larger callee).guarded pos).trans
        ((invoke_starves room callee).guarded pos).symm)
  | cons first rest => exact (invoke_follows hroom callee).guarded (List.cons_ne_nil first rest)

end Guarded

section Whole

variable {α : Type} {limit larger : Nat} {symbols : List Symbol}

/-- A whole expression follows itself on a smaller stack until that is reported to be used up. -/
theorem wholeExpression_follows (hlimit : limit ≤ larger) :
    Follows IsNesting symbols (wholeExpression (invoke limit)) (wholeExpression (invoke larger)) :=
  (guarded_invoke_follows hlimit .expression).bind fun _ => .refl _

theorem nextDefinition_follows (hlimit : limit ≤ larger) (block : List Definition) :
    Follows IsNesting symbols (nextDefinition (invoke limit) block)
      (nextDefinition (invoke larger) block) := by
  refine Follows.bind (.refl _) fun atEnd => ?_
  cases atEnd with
  | true => exact .refl _
  | false => exact (guarded_invoke_follows hlimit .definition).bind fun next => .refl _

theorem wholeProgram_follows (hlimit : limit ≤ larger) :
    Follows IsNesting symbols (wholeProgram (invoke limit)) (wholeProgram (invoke larger)) := by
  refine Follows.bind (.refl _) fun start => Follows.bind (.refl _) fun _ => ?_
  exact (Follows.loop (nextDefinition_follows hlimit) []).bind fun block => .refl _

/-- What comes of parsing is a mistake with the given code. -/
def Reports (code : String) (outcome : Part (Except Abort α)) : Prop :=
  ∃ mistake, .error (.fault mistake) ∈ outcome ∧ mistake.cause.code = code

/-- Of two parsers one of which follows the other the same comes, unless it is reported that the stack
is used up. -/
theorem Follows.outcome {m m' : Parser α} (h : Follows IsNesting symbols m m')
    (source : Option String) :
    Reports "E106" (outcome m source symbols) ∨
      outcome m' source symbols = outcome m source symbols := by
  rcases h 0 with hsame | ⟨abort, after, habort, mistake, rfl, hcode⟩
  · exact .inr (congrArg (Part.map _) hsame)
  · left
    unfold Parser.outcome
    rw [habort, Part.map_some]
    cases source with
    | none => exact ⟨mistake, Part.mem_some _, hcode⟩
    | some text =>
        refine ⟨mistake.quoting text, Part.mem_some _, ?_⟩
        rw [Fault.cause_quoting, hcode]

/-- **Larger stacks, for expressions.**  Unless E106 is reported, parsing an expression on a larger
stack ends in the same way, or fails to come to an end as well. -/
theorem parseExpression_larger (hlimit : limit ≤ larger) (source : Option String)
    (symbols : List Symbol) (hends : ¬ Reports "E106" (parseExpression limit source symbols)) :
    parseExpression larger source symbols = parseExpression limit source symbols :=
  ((wholeExpression_follows hlimit).outcome source).resolve_left hends

/-- **Larger stacks, for blocks of definitions.** -/
theorem parseProgram_larger (hlimit : limit ≤ larger) (source : Option String)
    (symbols : List Symbol) (hends : ¬ Reports "E106" (parseProgram limit source symbols)) :
    parseProgram larger source symbols = parseProgram limit source symbols :=
  ((wholeProgram_follows hlimit).outcome source).resolve_left hends

end Whole

end Parser

end DiceLang
