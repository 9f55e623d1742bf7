import Mathlib.Tactic.TypeStar

/-!
# Computations with a state

What a computation of `StateM` does from a state is a value and a next state.  The rules
follow the code: `bind_run` for a sequence, `times_run` for a loop whose state before each
round is known, and `Returns` for a computation known only by what it returns and by a
property of the next state.  `Keeps` says what part of the state a computation leaves alone.
-/

namespace Stateful

variable {σ α β : Type}

theorem bind_run {x : StateM σ α} {m m' : σ} {a : α} (h : x.run m = (a, m'))
    (f : α → StateM σ β) : (x >>= f).run m = (f a).run m' := by
  rw [StateT.run_bind, h]
  rfl

/-- `body` at `i`, `i + 1` and so on, `n` times. -/
def times (body : Nat → StateM σ Unit) (i : Nat) : Nat → StateM σ Unit
  | 0 => return ()
  | n + 1 => do
      body i
      times body (i + 1) n

theorem times_run {body : Nat → StateM σ Unit} {state : Nat → σ} {i n : Nat}
    (h : ∀ k, i ≤ k → k < i + n → (body k).run (state k) = ((), state (k + 1))) :
    (times body i n).run (state i) = ((), state (i + n)) := by
  induction n generalizing i with
  | zero => rfl
  | succ n ih =>
      rw [times, bind_run (h i (Nat.le_refl _) (by omega)), ih fun k hk hlt => h k (by omega) (by omega),
        Nat.add_right_comm, Nat.add_assoc]

/-- The computation returns `a`, and the next state has the property. -/
def Returns (x : StateM σ α) (m : σ) (a : α) (post : σ → Prop) : Prop :=
  ∃ m', x.run m = (a, m') ∧ post m'

theorem Returns.bind {x : StateM σ α} {f : α → StateM σ β} {m : σ} {a : α} {b : β}
    {mid post : σ → Prop} (hx : Returns x m a mid)
    (hf : ∀ m', mid m' → Returns (f a) m' b post) : Returns (x >>= f) m b post := by
  obtain ⟨m', hrun, hmid⟩ := hx
  obtain ⟨m'', hrun', hpost⟩ := hf m' hmid
  exact ⟨m'', (bind_run hrun f).trans hrun', hpost⟩

theorem Returns.imp {x : StateM σ α} {m : σ} {a : α} {mid post : σ → Prop} (h : Returns x m a mid)
    (himp : ∀ m', mid m' → post m') : Returns x m a post := by
  obtain ⟨m', hrun, hmid⟩ := h
  exact ⟨m', hrun, himp m' hmid⟩

/-! ## What stays -/

section

variable {τ : Type}

/-- The computation leaves a part of the state as it is. -/
def Keeps (part : σ → τ) (x : StateM σ α) : Prop := ∀ m, part (x.run m).2 = part m

variable {part : σ → τ}

theorem Keeps.pure (a : α) : Keeps part (Pure.pure a : StateM σ α) := fun _ => rfl

theorem Keeps.bind {x : StateM σ α} {f : α → StateM σ β} (hx : Keeps part x)
    (hf : ∀ a, Keeps part (f a)) : Keeps part (x >>= f) := by
  intro m
  have hrun : x.run m = ((x.run m).1, (x.run m).2) := rfl
  rw [bind_run hrun, hf _ _, hx m]

theorem Keeps.times {body : Nat → StateM σ Unit} (h : ∀ k, Keeps part (body k)) (i n : Nat) :
    Keeps part (times body i n) := by
  induction n generalizing i with
  | zero => exact .pure ()
  | succ n ih => exact (h i).bind fun _ => ih (i + 1)

end

end Stateful
