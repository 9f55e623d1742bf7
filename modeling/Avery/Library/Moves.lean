import Mathlib.Data.List.Basic
import Mathlib.Logic.Function.Basic

/-!
# Moves within a memory

A move reads one cell of a memory and writes what it read, through a function of the
values, into another.  A list of moves is carried out in order.  Where no move reads or
writes a cell that an earlier one has written, all of them read the memory as it was at
the start (`moveAll_target`), so that the order shows only in that condition.
-/

namespace Moves

variable {Cell Value : Type*} [DecidableEq Cell]

/-- The cells read and written by a move. -/
structure Move (Cell : Type*) where
  source : Cell
  target : Cell

/-- `later` keeps clear of the cell that `earlier` has written. -/
def Clear (earlier later : Move Cell) : Prop :=
  earlier.target ≠ later.source ∧ earlier.target ≠ later.target

def moveOne (g : Value → Value) (m : Cell → Value) (a : Move Cell) : Cell → Value :=
  Function.update m a.target (g (m a.source))

def moveAll (g : Value → Value) (m : Cell → Value) (as : List (Move Cell)) : Cell → Value :=
  as.foldl (moveOne g) m

variable {g : Value → Value} {m : Cell → Value} {a : Move Cell} {as : List (Move Cell)} {k : Cell}

theorem moveOne_target : moveOne g m a a.target = g (m a.source) :=
  Function.update_self ..

theorem moveOne_of_ne (h : a.target ≠ k) : moveOne g m a k = m k :=
  Function.update_of_ne (Ne.symm h) ..

/-- The cells that are not written stay. -/
theorem moveAll_of_notTarget (h : ∀ a ∈ as, a.target ≠ k) : moveAll g m as k = m k := by
  induction as generalizing m with
  | nil => rfl
  | cons b bs ih =>
    rw [List.forall_mem_cons] at h
    have hrest : moveAll g (moveOne g m b) bs k = moveOne g m b k := ih h.2
    exact hrest.trans (moveOne_of_ne h.1)

/-- Each target holds what its source held before the first move. -/
theorem moveAll_target (hclear : as.Pairwise Clear) (ha : a ∈ as) :
    moveAll g m as a.target = g (m a.source) := by
  induction as generalizing m with
  | nil => cases ha
  | cons b bs ih =>
    rw [List.pairwise_cons] at hclear
    change moveAll g (moveOne g m b) bs a.target = g (m a.source)
    cases ha with
    | head =>
      rw [moveAll_of_notTarget fun c hc => Ne.symm (hclear.1 c hc).2]
      exact moveOne_target
    | tail _ ha =>
      rw [ih hclear.2 ha, moveOne_of_ne (hclear.1 a ha).1]

end Moves
