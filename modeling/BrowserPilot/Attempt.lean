import BrowserPilot.Failure

/-! Computations that change a state and may fail. A failure keeps the changes made before it. -/
namespace BrowserPilot

abbrev Attempt (σ α : Type) := ExceptT Failure (StateM σ) α

namespace Attempt
variable {σ α β : Type}

/-- Runs an attempt and returns its success or failure as a value. -/
def result (x : Attempt σ α) : Attempt σ (Except Failure α) := fun s => (.ok (x.run s).1, (x.run s).2)

/-- Succeeds or fails as the given result says, without touching the state. -/
def ofResult (r : Except Failure α) : Attempt σ α := fun s => (r, s)

theorem run_pure (a : α) (s : σ) : (pure a : Attempt σ α).run s = (.ok a, s) := rfl

theorem run_throw (f : Failure) (s : σ) : (throw f : Attempt σ α).run s = (.error f, s) := rfl

theorem run_result (x : Attempt σ α) (s : σ) : (result x).run s = (.ok (x.run s).1, (x.run s).2) := rfl

theorem run_ofResult (r : Except Failure α) (s : σ) : (ofResult r : Attempt σ α).run s = (r, s) := rfl

/-- The continuation runs in the state the first attempt ends in, and only if that attempt succeeds. -/
theorem run_bind (x : Attempt σ α) (k : α → Attempt σ β) (s : σ) :
    (x >>= k).run s = match x.run s with
      | (.ok a, t) => (k a).run t
      | (.error f, t) => (.error f, t) := by
  unfold ExceptT.run
  simp only [bind, ExceptT.bind, ExceptT.mk, StateT.bind, ExceptT.bindCont]
  cases x s with
  | mk r t => cases r <;> rfl

theorem run_modify (f : σ → σ) (s : σ) : (modify f : Attempt σ Unit).run s = (.ok (), f s) := rfl

end Attempt

end BrowserPilot
