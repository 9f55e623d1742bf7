import Mathlib.Data.List.Basic
import Mathlib.Data.List.Nodup
import Mathlib.Logic.Function.Basic

/-!
# Arrays of fixed capacity

An array with room for `capacity` elements of which the first `count` are in use.
An element is taken out by moving those after it down by one place.  The list of the
elements in use (`FixedArray.toList`) sees an append and an erasure.
-/

structure FixedArray (α : Type*) (capacity : Nat) where
  slots : Nat → α
  count : Nat
  count_le : count ≤ capacity

namespace FixedArray

variable {α : Type*} {capacity : Nat}

/-- The elements in use. -/
def toList (a : FixedArray α capacity) : List α := (List.range a.count).map a.slots

def empty (null : α) : FixedArray α capacity := ⟨fun _ => null, 0, Nat.zero_le _⟩

def push (a : FixedArray α capacity) (x : α) (h : a.count < capacity) : FixedArray α capacity where
  slots := Function.update a.slots a.count x
  count := a.count + 1
  count_le := h

/-- `n` slots from `i` on take the element after them. -/
def shiftDown (slots : Nat → α) (i : Nat) : Nat → Nat → α
  | 0 => slots
  | n + 1 => shiftDown (Function.update slots i (slots (i + 1))) (i + 1) n

/-- Take out the element at `i`, and leave `null` in the slot that falls free. -/
def remove (a : FixedArray α capacity) (null : α) (i : Nat) : FixedArray α capacity where
  slots := Function.update (shiftDown a.slots i (a.count - 1 - i)) (a.count - 1) null
  count := a.count - 1
  count_le := Nat.le_trans (Nat.sub_le _ _) a.count_le

/-- Take out the first occurrence of `x`. -/
def erase [DecidableEq α] (a : FixedArray α capacity) (null x : α) : FixedArray α capacity :=
  if x ∈ a.toList then a.remove null (a.toList.idxOf x) else a

@[simp] theorem length_toList (a : FixedArray α capacity) : a.toList.length = a.count := by
  simp [toList]

@[simp] theorem toList_empty (null : α) : (empty null : FixedArray α capacity).toList = [] := rfl

theorem getElem?_toList (a : FixedArray α capacity) (i : Nat) :
    a.toList[i]? = if i < a.count then some (a.slots i) else none := by
  rw [toList, List.getElem?_map]
  split
  · next h => rw [List.getElem?_range h, Option.map_some]
  · next h => rw [List.getElem?_eq_none (by simpa using h), Option.map_none]

theorem slots_mem {a : FixedArray α capacity} {i : Nat} (h : i < a.count) : a.slots i ∈ a.toList :=
  List.mem_map_of_mem (List.mem_range.mpr h)

@[simp] theorem toList_push (a : FixedArray α capacity) (x : α) (h : a.count < capacity) :
    (a.push x h).toList = a.toList ++ [x] := by
  have hkeep : (List.range a.count).map (Function.update a.slots a.count x) = a.toList :=
    List.map_congr_left fun i hi =>
      Function.update_of_ne (Nat.ne_of_lt (List.mem_range.mp hi)) _ _
  simp only [toList, push, List.range_succ, List.map_append, List.map_singleton,
    Function.update_self]
  rw [hkeep]
  rfl

theorem shiftDown_apply (slots : Nat → α) (i n j : Nat) :
    shiftDown slots i n j = if i ≤ j ∧ j < i + n then slots (j + 1) else slots j := by
  induction n generalizing slots i with
  | zero =>
    rw [if_neg (by omega)]
    rfl
  | succ n ih =>
    rw [shiftDown, ih]
    by_cases hj : j = i
    · subst hj
      simp
    · rw [Function.update_of_ne hj]
      by_cases hlt : i ≤ j ∧ j < i + (n + 1)
      · have hne : j + 1 ≠ i := by omega
        rw [if_pos (by omega), if_pos hlt, Function.update_of_ne hne]
      · rw [if_neg (by omega), if_neg hlt]

theorem toList_remove {a : FixedArray α capacity} {null : α} {i : Nat} (hi : i < a.count) :
    (a.remove null i).toList = a.toList.eraseIdx i := by
  refine List.ext_getElem? fun j => ?_
  have hcount : (a.remove null i).count = a.count - 1 := rfl
  rw [getElem?_toList, List.getElem?_eraseIdx, getElem?_toList, getElem?_toList,
    hcount]
  by_cases hj : j < a.count - 1
  · have hslot : (a.remove null i).slots j =
        shiftDown a.slots i (a.count - 1 - i) j := Function.update_of_ne (Nat.ne_of_lt hj) _ _
    rw [if_pos hj, hslot, shiftDown_apply]
    by_cases hlt : j < i
    · rw [if_neg (by omega), if_pos hlt, if_pos (by omega)]
    · rw [if_pos (by omega), if_neg hlt, if_pos (by omega)]
  · rw [if_neg hj]
    by_cases hlt : j < i
    · omega
    · rw [if_neg hlt, if_neg (by omega)]

@[simp] theorem toList_erase [DecidableEq α] (a : FixedArray α capacity) (null x : α) :
    (a.erase null x).toList = a.toList.erase x := by
  rw [erase]
  split
  · next h =>
    have hi : a.toList.idxOf x < a.count := by
      rw [← length_toList]
      exact List.idxOf_lt_length_of_mem h
    rw [toList_remove hi, List.erase_eq_eraseIdx_of_idxOf rfl]
  · next h => rw [List.erase_of_not_mem h]

end FixedArray
