import Mathlib.Tactic.TypeStar

/-!
# Simulation

Two machines take the same labels, one of them to say what the other one is for.  A
relation that one step of both keeps holds after every run of both (`Simulates.run`).
-/

namespace Simulation

variable {State Spec Label : Type*}

/-- Related states stay related when both machines take the same step. -/
def Simulates (step : State → Label → State) (spec : Spec → Label → Spec)
    (R : State → Spec → Prop) : Prop :=
  ∀ {s t} (a : Label), R s t → R (step s a) (spec t a)

theorem Simulates.run {step : State → Label → State} {spec : Spec → Label → Spec}
    {R : State → Spec → Prop} (h : Simulates step spec R) (as : List Label) {s : State} {t : Spec}
    (hst : R s t) : R (as.foldl step s) (as.foldl spec t) := by
  induction as generalizing s t with
  | nil => exact hst
  | cons a as ih => exact ih (h a hst)

end Simulation
