import BlockFlow.Fault

/-!
Steps over a state. A step that fails keeps what it has changed until then, so the state comes out beside the fault.

* `Act`: the steps.
* `Act.ofExcept`, `Act.ofEdited`: what can fail without a state, and what gives the changed state itself.
* `Act.attempt`: the outcome of a step as a value.
* `Act.within`: a step over a part of the state.
* `Act.bind_apply`: steps one after the other, run in a state.
-/

namespace BlockFlow

/-- A step over a state of type `σ`. -/
abbrev Act (σ : Type) := ExceptT Fault (StateM σ)

namespace Act

variable {σ τ α β : Type}

def ofExcept : Except Fault α → Act σ α
  | .ok a => pure a
  | .error f => throw f

/-- Fails with a fault. -/
def fail (f : Fault) : Act σ α := throw f

/-- The outcome of a step as a value. -/
def attempt (step : Act σ α) : Act σ (Except Fault α) := fun s =>
  match step s with
  | (outcome, s') => (.ok outcome, s')

/-- A step over a part of the state. -/
def within (get : σ → τ) (set : τ → σ → σ) (step : Act τ α) : Act σ α := fun s =>
  match step (get s) with
  | (outcome, t) => (outcome, set t s)

/-! ## Running steps -/

@[simp] theorem pure_apply (a : α) (s : σ) : (pure a : Act σ α) s = (.ok a, s) := rfl

@[simp] theorem get_apply (s : σ) : (get : Act σ σ) s = (.ok s, s) := rfl

@[simp] theorem ofExcept_apply (outcome : Except Fault α) (s : σ) : (ofExcept outcome : Act σ α) s = (outcome, s) := by
  cases outcome <;> rfl

@[simp] theorem throw_apply (f : Fault) (s : σ) : (throw f : Act σ α) s = (.error f, s) := rfl

@[simp] theorem fail_apply (f : Fault) (s : σ) : (fail f : Act σ α) s = (.error f, s) := rfl

theorem bind_apply (step : Act σ α) (next : α → Act σ β) (s : σ) :
    (step >>= next) s = match step s with
      | (.ok a, s') => next a s'
      | (.error fault, s') => (.error fault, s') := by
  change (match step s with | (r, s') => ExceptT.bindCont next r s') = _
  rcases step s with ⟨fault | a, s'⟩ <;> rfl

theorem map_apply (g : α → β) (step : Act σ α) (s : σ) :
    (g <$> step) s = match step s with
      | (.ok a, s') => (.ok (g a), s')
      | (.error fault, s') => (.error fault, s') := by
  rw [← bind_pure_comp, bind_apply]
  rfl

theorem tryCatch_apply (step : Act σ α) (handler : Fault → Act σ α) (s : σ) :
    (tryCatch step handler : Act σ α) s = match step s with
      | (.ok a, s') => (.ok a, s')
      | (.error fault, s') => handler fault s' := by
  simp only [tryCatch, tryCatchThe, MonadExceptOf.tryCatch, ExceptT.tryCatch, ExceptT.mk, bind, StateT.bind]
  rcases step s with ⟨fault | a, s'⟩ <;> rfl

end Act

end BlockFlow
