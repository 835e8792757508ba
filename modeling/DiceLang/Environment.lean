import DiceLang.Tree

/-!
# Environments

An environment binds forms to the commands that a user has defined.  Bindings keep the order in
which their forms were first bound: binding a form again replaces its command in place.

A call evaluates the body of a command in the environment of the caller, extended by the
parameters.  Arguments are bound as they stand, without being evaluated, so names in them and in
the body mean whatever they mean at the place where they are used.

Main statements: `get?_insert` and `forms_insert` say what binding a form does to look-ups and to
the order of the bound forms.
-/

namespace DiceLang

/-- A command that a user has defined: its parameters, in order, and its body. -/
structure Command where
  parameters : List String
  body : Tree

/-- The commands that are bound, in the order of their first binding. -/
structure Environment where
  bindings : List (Form × Command)

namespace Environment

/-- The environment that binds nothing. -/
def empty : Environment := ⟨[]⟩

/-- The command that a form is bound to. -/
def get? (env : Environment) (form : Form) : Option Command :=
  env.bindings.lookup form

/-- Binds a form in a list of bindings: in place of its present binding, or else at the end. -/
def put (form : Form) (command : Command) : List (Form × Command) → List (Form × Command)
  | [] => [(form, command)]
  | binding :: rest =>
    if binding.1 = form then (form, command) :: rest else binding :: put form command rest

/-- Binds a form. -/
def insert (env : Environment) (form : Form) (command : Command) : Environment :=
  ⟨put form command env.bindings⟩

/-- Binds the form that a definition defines. -/
def define (env : Environment) (definition : Definition) : Environment :=
  env.insert definition.form ⟨definition.parameters, definition.body⟩

/-- Binds every definition of a block, so that the last one of a form wins. -/
def load (env : Environment) (program : Program) : Environment :=
  program.definitions.foldl define env

/-- Binds each name as a nullary command whose body is the given expression. -/
def extend (env : Environment) (arguments : List (String × Tree)) : Environment :=
  arguments.foldl (fun env argument => env.insert ⟨argument.1, .nullary⟩ ⟨[], argument.2⟩) env

/-- The bound forms, in the order of their first binding. -/
def forms (env : Environment) : List Form :=
  env.bindings.map Prod.fst

/-- Whether a form is bound. -/
def contains (env : Environment) (form : Form) : Bool :=
  (env.get? form).isSome

/-- The last command that is put for a form is found. -/
private theorem lookup_put (form other : Form) (command : Command)
    (bindings : List (Form × Command)) :
    (put form command bindings).lookup other =
      if other = form then some command else bindings.lookup other := by
  have differ {a b : Form} (h : a ≠ b) : (a == b) = false := beq_false_of_ne h
  induction bindings with
  | nil =>
    by_cases h : other = form
    · simp [put, h]
    · simp [put, List.lookup_cons, h, differ h]
  | cons binding rest ih =>
    obtain ⟨bound, present⟩ := binding
    by_cases hb : bound = form
    · subst hb
      by_cases h : other = bound
      · simp [put, h]
      · simp [put, List.lookup_cons, h, differ h]
    · by_cases h : other = bound
      · subst h
        simp [put, hb]
      · simp [put, hb, List.lookup_cons, differ h, ih]

/-- A form keeps its place if it is bound already, or else comes last. -/
private theorem map_fst_put (form : Form) (command : Command)
    (bindings : List (Form × Command)) :
    (put form command bindings).map Prod.fst =
      if form ∈ bindings.map Prod.fst then bindings.map Prod.fst
      else bindings.map Prod.fst ++ [form] := by
  induction bindings with
  | nil => rfl
  | cons binding rest ih =>
    by_cases hb : binding.1 = form
    · simp [put, hb]
    · have hne : form ≠ binding.1 := fun h => hb h.symm
      by_cases hr : form ∈ rest.map Prod.fst
      · simp only [put, hb, if_false, List.map_cons, ih, hr, if_true, List.mem_cons, or_true]
      · simp only [put, hb, if_false, List.map_cons, ih, hr, List.mem_cons, hne, or_self,
          List.cons_append]

/-- **Binding a form.**  The form is bound to the new command, and every other form to what it was
bound to before. -/
theorem get?_insert (env : Environment) (form other : Form) (command : Command) :
    (env.insert form command).get? other =
      if other = form then some command else env.get? other :=
  lookup_put form other command env.bindings

/-- **Order of binding.**  A form that is bound already keeps its place, and a new one comes
last. -/
theorem forms_insert (env : Environment) (form : Form) (command : Command) :
    (env.insert form command).forms =
      if form ∈ env.forms then env.forms else env.forms ++ [form] :=
  map_fst_put form command env.bindings

/-- Binding a form never makes a form occur twice. -/
theorem nodup_forms_insert {env : Environment} (form : Form) (command : Command)
    (h : env.forms.Nodup) : (env.insert form command).forms.Nodup := by
  rw [forms_insert]
  split
  · exact h
  · next fresh =>
    refine List.nodup_append.mpr ⟨h, by simp, ?_⟩
    intro a ha b hb
    obtain rfl := List.mem_singleton.mp hb
    exact fun hab => fresh (hab ▸ ha)

end Environment

/-- The forms that a block defines, one for each definition. -/
def Program.forms (program : Program) : List Form :=
  program.definitions.map Definition.form

end DiceLang
