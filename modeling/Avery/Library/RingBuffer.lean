import Mathlib.Data.List.Basic
import Mathlib.Logic.Function.Basic

/-!
# Ring buffers

`n` slots with an index to read from and an index to write to, which both go round.
The slots from the one up to the other hold the pending elements, oldest first
(`RingBuffer.pending`), and one slot always stays free.  A writer appends to the
pending elements, or drops the element when `n - 1` are pending (`pending_push`).  A
reader finds the oldest in its slot until it moves on (`pending_eq_cons`).
-/

structure RingBuffer (α : Type*) (n : Nat) where
  slots : Nat → α
  readIndex : Nat
  writeIndex : Nat
  readIndex_lt : readIndex < n
  writeIndex_lt : writeIndex < n

namespace RingBuffer

variable {α : Type*} {n : Nat}

def push (b : RingBuffer α n) (x : α) : RingBuffer α n :=
  let nextIndex := (b.writeIndex + 1) % n
  if nextIndex = b.readIndex then b
  else
    { b with
      slots := Function.update b.slots b.writeIndex x
      writeIndex := nextIndex
      writeIndex_lt := Nat.mod_lt _ (Nat.zero_lt_of_lt b.readIndex_lt) }

/-- What is in the slot to read. -/
def front (b : RingBuffer α n) : α := b.slots b.readIndex

def advance (b : RingBuffer α n) : RingBuffer α n :=
  { b with
    readIndex := (b.readIndex + 1) % n
    readIndex_lt := Nat.mod_lt _ (Nat.zero_lt_of_lt b.readIndex_lt) }

/-- The number of slots from the read index up to the write index. -/
def size (b : RingBuffer α n) : Nat :=
  if b.readIndex ≤ b.writeIndex then b.writeIndex - b.readIndex
  else b.writeIndex + n - b.readIndex

/-- The elements that have been written and not been read, oldest first. -/
def pending (b : RingBuffer α n) : List α :=
  (List.range b.size).map fun i => b.slots ((b.readIndex + i) % n)

theorem next_eq {i : Nat} (h : i < n) : (i + 1) % n = if i + 1 = n then 0 else i + 1 := by
  split
  · next heq => rw [heq, Nat.mod_self]
  · next hne => exact Nat.mod_eq_of_lt (by omega)

theorem index_eq (b : RingBuffer α n) {i : Nat} (h : i < n) :
    (b.readIndex + i) % n =
      if b.readIndex + i < n then b.readIndex + i else b.readIndex + i - n := by
  have hread := b.readIndex_lt
  split
  · next hlt => exact Nat.mod_eq_of_lt hlt
  · next hle =>
    rw [Nat.mod_eq_sub_mod (Nat.not_lt.mp hle)]
    exact Nat.mod_eq_of_lt (by omega)

theorem size_lt (b : RingBuffer α n) : b.size < n := by
  have hread := b.readIndex_lt
  have hwrite := b.writeIndex_lt
  unfold size
  split <;> omega

@[simp] theorem length_pending (b : RingBuffer α n) : b.pending.length = b.size := by
  simp [pending]

theorem size_eq_zero {b : RingBuffer α n} : b.size = 0 ↔ b.readIndex = b.writeIndex := by
  have hread := b.readIndex_lt
  unfold size
  split <;> omega

theorem pending_eq_nil {b : RingBuffer α n} : b.pending = [] ↔ b.readIndex = b.writeIndex := by
  rw [← List.length_eq_zero_iff, length_pending, size_eq_zero]

/-- The slot to write is not one of the pending ones. -/
theorem index_ne (b : RingBuffer α n) {i : Nat} (h : i < b.size) :
    (b.readIndex + i) % n ≠ b.writeIndex := by
  have hread := b.readIndex_lt
  have hwrite := b.writeIndex_lt
  have hsize := b.size_lt
  rw [index_eq b (by omega)]
  unfold size at h
  split at h <;> split <;> omega

theorem index_size (b : RingBuffer α n) : (b.readIndex + b.size) % n = b.writeIndex := by
  have hread := b.readIndex_lt
  have hwrite := b.writeIndex_lt
  rw [index_eq b b.size_lt]
  unfold size
  split <;> split <;> omega

/-- A write appends the element, unless all slots but one are taken. -/
theorem pending_push (b : RingBuffer α n) (x : α) :
    (b.size + 1 = n ∧ b.push x = b) ∨
      (b.size + 1 < n ∧ (b.push x).pending = b.pending ++ [x]) := by
  have hread := b.readIndex_lt
  have hwrite := b.writeIndex_lt
  have hnext := next_eq hwrite
  by_cases hfull : (b.writeIndex + 1) % n = b.readIndex
  · refine .inl ⟨?_, if_pos hfull⟩
    unfold size
    split at hnext <;> split <;> omega
  · have hpush : b.push x =
        { b with
          slots := Function.update b.slots b.writeIndex x
          writeIndex := (b.writeIndex + 1) % n
          writeIndex_lt := Nat.mod_lt _ (Nat.zero_lt_of_lt b.readIndex_lt) } := if_neg hfull
    have hsize : (b.push x).size = b.size + 1 := by
      rw [hpush]
      simp only [size]
      split at hnext <;> split <;> split <;> omega
    refine .inr ⟨hsize ▸ size_lt _, ?_⟩
    rw [pending, hsize, List.range_succ, List.map_append, List.map_singleton, hpush]
    have hkeep : (List.range b.size).map
        (fun i => Function.update b.slots b.writeIndex x ((b.readIndex + i) % n)) = b.pending :=
      List.map_congr_left fun i hi =>
        Function.update_of_ne (index_ne b (List.mem_range.mp hi)) _ _
    simp only [index_size, Function.update_self, hkeep]

/-- While something is pending the oldest of it is in the slot to read, and moving on
takes it out. -/
theorem pending_eq_cons {b : RingBuffer α n} (h : b.readIndex ≠ b.writeIndex) :
    b.pending = b.front :: b.advance.pending := by
  have hread := b.readIndex_lt
  have hwrite := b.writeIndex_lt
  have hnext := next_eq hread
  have hsize : b.size = b.advance.size + 1 := by
    have hadvance : b.advance.size =
        if (b.readIndex + 1) % n ≤ b.writeIndex then b.writeIndex - (b.readIndex + 1) % n
        else b.writeIndex + n - (b.readIndex + 1) % n := rfl
    rw [hadvance, size]
    split at hnext <;> rw [hnext] <;> split <;> split <;> omega
  rw [pending, hsize, List.range_succ_eq_map, List.map_cons, List.map_map, pending]
  congr 1
  · rw [Nat.add_zero, Nat.mod_eq_of_lt hread]
    rfl
  · refine List.map_congr_left fun i _ => ?_
    simp only [Function.comp_apply, advance]
    rw [Nat.mod_add_mod, Nat.succ_eq_add_one, Nat.add_right_comm, Nat.add_assoc]

end RingBuffer
