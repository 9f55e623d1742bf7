import Mathlib.Data.BitVec
import Mathlib.Logic.Function.Basic

/-!
# A stack that grows down

A stack is a pointer and a memory of quadwords.  What has been pushed lies from the
pointer on (`Holds`), the last value first, and pushing writes below the pointer only
(`pushAll_above`).  A list of values of fewer than `2 ^ 60` does not wrap around the
address space.
-/

namespace Stacks

structure Stack where
  sp : BitVec 64
  mem : BitVec 64 → BitVec 64

namespace Stack

def push (s : Stack) (value : BitVec 64) : Stack :=
  ⟨s.sp - 8#64, Function.update s.mem (s.sp - 8#64) value⟩

def pop (s : Stack) : BitVec 64 × Stack := (s.mem s.sp, { s with sp := s.sp + 8#64 })

def pushAll (s : Stack) (values : List (BitVec 64)) : Stack := values.foldl push s

end Stack

/-- The values lie from the address on. -/
def Holds (mem : BitVec 64 → BitVec 64) : BitVec 64 → List (BitVec 64) → Prop
  | _, [] => True
  | address, value :: values => mem address = value ∧ Holds mem (address + 8#64) values

variable {mem mem' : BitVec 64 → BitVec 64} {address : BitVec 64} {values : List (BitVec 64)}

/-- The address of a quadword. -/
def slot (address : BitVec 64) (i : Nat) : BitVec 64 := address + BitVec.ofNat 64 (8 * i)

theorem slot_zero (address : BitVec 64) : slot address 0 = address := BitVec.add_zero _

theorem slot_succ (address : BitVec 64) (i : Nat) : slot (address + 8#64) i = slot address (i + 1) := by
  unfold slot
  bv_omega

theorem slot_slot (address : BitVec 64) (i j : Nat) :
    slot (slot address i) j = slot address (i + j) := by
  unfold slot
  bv_omega

/-- Only the quadwords that hold the values matter. -/
theorem Holds.of_same (h : Holds mem address values)
    (hsame : ∀ i < values.length, mem' (slot address i) = mem (slot address i)) :
    Holds mem' address values := by
  induction values generalizing address with
  | nil => trivial
  | cons value values ih =>
      obtain ⟨hvalue, hrest⟩ := h
      have hhead := hsame 0 (Nat.succ_pos _)
      rw [slot_zero] at hhead
      refine ⟨hhead.trans hvalue, ih hrest fun i hi => ?_⟩
      rw [slot_succ]
      exact hsame (i + 1) (Nat.succ_lt_succ hi)

theorem Holds.get (h : Holds mem address values) {i : Nat} (hi : i < values.length) :
    mem (slot address i) = values[i] := by
  induction values generalizing address i with
  | nil => exact absurd hi (Nat.not_lt_zero i)
  | cons value values ih =>
      obtain ⟨hvalue, hrest⟩ := h
      cases i with
      | zero => rw [slot_zero]; exact hvalue
      | succ i => rw [← slot_succ]; exact ih hrest (Nat.lt_of_succ_lt_succ hi)

theorem Holds.getD (h : Holds mem address values) {i : Nat} (hi : i < values.length) :
    mem (slot address i) = values.getD i 0#64 := by
  rw [h.get hi, List.getD, List.getElem?_eq_getElem hi, Option.getD_some]

theorem slot_ne_below {i : Nat} (hi : i < 2 ^ 60) : slot address i ≠ address - 8#64 := by
  unfold slot
  bv_omega

theorem Holds.push {s : Stack} (h : Holds s.mem s.sp values) (hlength : values.length < 2 ^ 60)
    (value : BitVec 64) : Holds (s.push value).mem (s.push value).sp (value :: values) := by
  refine ⟨Function.update_self .., ?_⟩
  rw [show (s.push value).sp + 8#64 = s.sp from BitVec.sub_add_cancel _ _]
  exact h.of_same fun i hi => Function.update_of_ne (slot_ne_below (Nat.lt_trans hi hlength)) _ _

theorem Holds.pushAll {s : Stack} (h : Holds s.mem s.sp values) (pushed : List (BitVec 64))
    (hlength : pushed.length + values.length < 2 ^ 60) :
    Holds (s.pushAll pushed).mem (s.pushAll pushed).sp (pushed.reverse ++ values) := by
  induction pushed generalizing s values with
  | nil => exact h
  | cons value pushed ih =>
      rw [List.length_cons] at hlength
      have hpushed := ih (h.push (by omega) value) (by rw [List.length_cons]; omega)
      rw [List.reverse_cons, List.append_assoc]
      exact hpushed

theorem pushAll_append (s : Stack) (xs ys : List (BitVec 64)) :
    s.pushAll (xs ++ ys) = (s.pushAll xs).pushAll ys :=
  List.foldl_append ..

theorem pushAll_sp (s : Stack) (pushed : List (BitVec 64)) :
    (s.pushAll pushed).sp = s.sp - BitVec.ofNat 64 (8 * pushed.length) := by
  induction pushed generalizing s with
  | nil => exact (BitVec.sub_zero _).symm
  | cons value pushed ih =>
      have hrest := ih (s.push value)
      change ((s.push value).pushAll pushed).sp = _
      rw [hrest, List.length_cons]
      change s.sp - 8#64 - _ = _
      bv_omega

/-- Pushing writes the quadwords below the pointer. -/
theorem pushAll_above (s : Stack) (pushed : List (BitVec 64)) (a : BitVec 64)
    (h : ∀ i < pushed.length, a ≠ s.sp - BitVec.ofNat 64 (8 * (i + 1))) :
    (s.pushAll pushed).mem a = s.mem a := by
  induction pushed generalizing s with
  | nil => rfl
  | cons value pushed ih =>
      change ((s.push value).pushAll pushed).mem a = _
      rw [ih]
      · exact Function.update_of_ne (h 0 (Nat.succ_pos _)) _ _
      · intro i hi heq
        refine h (i + 1) (Nat.succ_lt_succ hi) (heq.trans ?_)
        change s.sp - 8#64 - _ = _
        bv_omega

end Stacks
