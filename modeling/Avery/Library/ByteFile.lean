import Mathlib.Data.List.Basic

/-!
# A file as a list of bytes

What an open file is for: a list of bytes and a position in it.  Reading returns the bytes
from the position on, writing puts bytes there, and both move the position.  A file that is
written or made longer behind its end has bytes in between about which nothing is said
(`gap`).  A store that is full may take fewer bytes than it is given.  A file may be closed to
reading or to writing.

`firsts` makes a list of what a memory holds.
-/

namespace ByteFile

variable {α : Type*}

/-! ## The beginning of a memory -/

/-- The first `n` values. -/
def firsts (f : Nat → α) (n : Nat) : List α := (List.range n).map f

section

variable {f g : Nat → α} {m n : Nat}

@[simp] theorem length_firsts (f : Nat → α) (n : Nat) : (firsts f n).length = n := by
  rw [firsts, List.length_map, List.length_range]

theorem firsts_congr (h : ∀ i < n, f i = g i) : firsts f n = firsts g n :=
  List.map_congr_left fun i hi => h i (List.mem_range.mp hi)

theorem firsts_add (f : Nat → α) (m n : Nat) :
    firsts f (m + n) = firsts f m ++ firsts (fun i => f (m + i)) n := by
  rw [firsts, List.range_add, List.map_append, List.map_map]
  rfl

theorem take_firsts (f : Nat → α) (n m : Nat) : (firsts f n).take m = firsts f (min m n) := by
  rw [firsts, ← List.map_take, List.take_range]
  rfl

theorem drop_firsts (f : Nat → α) (n m : Nat) :
    (firsts f n).drop m = firsts (fun i => f (m + i)) (n - m) := by
  rcases Nat.le_total n m with hle | hle
  · rw [List.drop_eq_nil_of_le (by rw [length_firsts]; exact hle), Nat.sub_eq_zero_of_le hle]
    rfl
  · obtain ⟨k, rfl⟩ := Nat.exists_eq_add_of_le hle
    rw [firsts_add, List.drop_left' (length_firsts f m), Nat.add_sub_cancel_left]

/-- The bytes behind the end of a list that is made longer. -/
theorem firsts_append_gap (f : Nat → α) (n m : Nat) :
    firsts f n ++ firsts (fun i => f (n + i)) (m - n) = firsts f (max n m) := by
  rw [← firsts_add]
  congr 1
  omega

end

/-! ## Calls and answers -/

structure File (α : Type*) where
  bytes : List α
  offset : Nat
  readable : Bool
  writable : Bool

inductive Call (α : Type*) where
  | seek (offset : Nat)
  | read (count : Nat)
  | write (data : List α)
  | truncate (size : Nat)
  | flush

/-- The answer of a call that may need room tells whether the store was full behind it. -/
inductive Answer (α : Type*) where
  | done (ok : Bool)
  | bytes (data : List α)
  | stored (count : Nat) (full : Prop)
  | resized (ok : Bool) (full : Prop)

/-- The bytes of a file after `data` was put at a position. -/
def store (bytes gap : List α) (offset : Nat) (data : List α) : List α :=
  if data = [] then bytes
  else (bytes ++ gap).take offset ++ data ++ bytes.drop (offset + data.length)

/-- The bytes that can be read, at most `count`. -/
def File.next (f : File α) (count : Nat) : List α :=
  if f.readable then (f.bytes.drop f.offset).take count else []

/-- What a call may answer, and the file afterwards. -/
inductive Step (f : File α) : Call α → Answer α → File α → Prop
  | seek {offset : Nat} : Step f (.seek offset) (.done true) { f with offset := offset }
  | read {count : Nat} : Step f (.read count) (.bytes (f.next count))
      { f with offset := f.offset + (f.next count).length }
  | write {data gap : List α} {count : Nat} {full : Prop} : count ≤ data.length →
      (if f.writable then count < data.length → full else count = 0) →
      gap.length = f.offset - f.bytes.length →
      Step f (.write data) (.stored count full)
        { f with
          bytes := store f.bytes gap f.offset (data.take count)
          offset := f.offset + count }
  | truncate {size : Nat} {gap : List α} {full : Prop} : f.writable = true →
      gap.length = size - f.bytes.length →
      Step f (.truncate size) (.resized true full)
        { f with bytes := f.bytes.take size ++ gap, offset := min f.offset size }
  | refused {size : Nat} {full : Prop} : (f.writable = true → full) →
      Step f (.truncate size) (.resized false full) f
  | flush : Step f .flush (.done true) f

/-- A sequence of calls, with an answer for each. -/
inductive Run : File α → List (Call α × Answer α) → File α → Prop
  | nil {f : File α} : Run f [] f
  | cons {f f' f'' : File α} {call : Call α} {answer : Answer α}
      {rest : List (Call α × Answer α)} : Step f call answer f' → Run f' rest f'' →
      Run f ((call, answer) :: rest) f''

/-- A memory that is given `k` values at a position stores them in its beginning. -/
theorem store_firsts {f g input : Nat → α} {o k n : Nat}
    (hin : ∀ i < k, g (o + i) = input i) (hout : ∀ i, i < o ∨ o + k ≤ i → g i = f i) :
    store (firsts f n) (firsts (fun i => f (n + i)) (o - n)) o (firsts input k) =
      firsts g (if k = 0 then n else max n (o + k)) := by
  by_cases hk : k = 0
  · subst hk
    rw [if_pos rfl, store, if_pos (show firsts input 0 = [] from rfl)]
    exact firsts_congr fun i _ => (hout i (by omega)).symm
  · have hne : firsts input k ≠ [] := by
      intro hnil
      rw [← length_firsts input k, hnil] at hk
      exact hk rfl
    have hsplit : max n (o + k) = o + k + (n - (o + k)) := by omega
    rw [if_neg hk, store, if_neg hne, firsts_append_gap, take_firsts, length_firsts, drop_firsts,
      Nat.min_eq_left (Nat.le_max_right n o), hsplit, firsts_add, firsts_add]
    congr 1
    · congr 1
      · exact firsts_congr fun i hi => (hout i (.inl hi)).symm
      · exact firsts_congr fun i hi => (hin i hi).symm
    · exact firsts_congr fun i _ => (hout _ (.inr (Nat.le_add_right ..))).symm

/-- A memory that keeps its beginning, read as a file of another size. -/
theorem resize_firsts {f g : Nat → α} {n m : Nat} (h : ∀ i < m, g i = f i) :
    (firsts f n).take m ++ firsts (fun i => f (n + i)) (m - n) = firsts g m := by
  rw [take_firsts]
  rcases Nat.le_total m n with hle | hle
  · rw [Nat.sub_eq_zero_of_le hle, Nat.min_eq_left hle]
    exact (List.append_nil _).trans (firsts_congr fun i hi => (h i hi).symm)
  · rw [Nat.min_eq_right hle, firsts_append_gap, Nat.max_eq_right hle]
    exact firsts_congr fun i hi => (h i hi).symm

end ByteFile
