import Mathlib.Logic.Relation

/-!
# Transition systems

A system is a relation between a state, a label and a next state.  A run is a
finite list of labels together with the states it passes through.  What one
step preserves, every run preserves (`Run.invariant`).
-/

namespace Transition

variable {State Label : Type*}

/-- The runs of a step relation: the labels taken and the state reached. -/
inductive Run (step : State → Label → State → Prop) : State → List Label → State → Prop
  | nil {s : State} : Run step s [] s
  | cons {s t u : State} {a : Label} {as : List Label} :
      step s a t → Run step t as u → Run step s (a :: as) u

variable {step : State → Label → State → Prop}

/-- The invariant rule: what every step preserves, every run preserves. -/
theorem Run.invariant {Inv : State → Prop}
    (hstep : ∀ s a t, Inv s → step s a t → Inv t) :
    ∀ {s : State} {as : List Label} {t : State}, Run step s as t → Inv s → Inv t
  | _, _, _, .nil, h => h
  | _, _, _, .cons hs hr, h => Run.invariant hstep hr (hstep _ _ _ h hs)

theorem Run.append {s t u : State} {as bs : List Label}
    (h₁ : Run step s as t) (h₂ : Run step t bs u) : Run step s (as ++ bs) u := by
  induction h₁ with
  | nil => exact h₂
  | cons hs _ ih => exact .cons hs (ih h₂)

theorem Run.single {s t : State} {a : Label} (h : step s a t) : Run step s [a] t :=
  .cons h .nil

end Transition
