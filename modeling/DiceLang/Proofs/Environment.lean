import DiceLang.Environment

/-!
# What holds of all bindings

`Environment.All P` says that every binding of an environment has a property.  Binding a form, binding
parameters and binding the definitions of a block keep it, if the new bindings have it.
-/

namespace DiceLang

namespace Environment

/-- Every binding has a property. -/
def All (P : Form → Command → Prop) (env : Environment) : Prop :=
  ∀ binding ∈ env.bindings, P binding.1 binding.2

variable {P : Form → Command → Prop} {env : Environment}

theorem all_empty : Environment.empty.All P := nofun

/-- What holds of all bindings may be weakened. -/
theorem All.imp {Q : Form → Command → Prop} (h : env.All P)
    (himp : ∀ form command, P form command → Q form command) : env.All Q :=
  fun binding hbinding => himp binding.1 binding.2 (h binding hbinding)

/-- What a form is bound to has the property. -/
theorem All.get? (h : env.All P) {form : Form} {command : Command}
    (hbound : env.get? form = some command) : P form command := by
  unfold Environment.get? at hbound
  obtain ⟨front, back, hbindings, -⟩ := List.lookup_eq_some_iff.mp hbound
  exact h (form, command) (hbindings ▸ List.mem_append_right front List.mem_cons_self)

/-- A binding that is there was put there, or was there before. -/
theorem mem_put {form : Form} {command : Command} {bindings : List (Form × Command)}
    {binding : Form × Command} (h : binding ∈ put form command bindings) :
    binding = (form, command) ∨ binding ∈ bindings := by
  induction bindings with
  | nil => exact .inl (List.mem_singleton.mp h)
  | cons first bindings ih =>
      unfold put at h
      split at h
      · rcases List.mem_cons.mp h with hnew | hold
        · exact .inl hnew
        · exact .inr (List.mem_cons_of_mem first hold)
      · rcases List.mem_cons.mp h with rfl | hlater
        · exact .inr List.mem_cons_self
        · exact (ih hlater).imp_right (List.mem_cons_of_mem first)

/-- A binding may be added if the property holds of it. -/
theorem All.insert (h : env.All P) {form : Form} {command : Command} (hnew : P form command) :
    (env.insert form command).All P := by
  intro binding hbinding
  rcases mem_put hbinding with rfl | hold
  · exact hnew
  · exact h binding hold

theorem All.extend (h : env.All P) {arguments : List (String × Tree)}
    (harguments : ∀ argument ∈ arguments, P ⟨argument.1, .nullary⟩ ⟨[], argument.2⟩) :
    (env.extend arguments).All P := by
  induction arguments generalizing env with
  | nil => exact h
  | cons argument arguments ih =>
      obtain ⟨hfirst, hothers⟩ := List.forall_mem_cons.mp harguments
      exact ih (h.insert hfirst) hothers

theorem All.load (h : env.All P) {block : Program}
    (hblock : ∀ definition ∈ block.definitions,
      P definition.form ⟨definition.parameters, definition.body⟩) : (env.load block).All P := by
  unfold Environment.load
  generalize block.definitions = definitions at hblock
  induction definitions generalizing env with
  | nil => exact h
  | cons definition definitions ih =>
      obtain ⟨hfirst, hothers⟩ := List.forall_mem_cons.mp hblock
      exact ih (h.insert hfirst) hothers

end Environment

end DiceLang
