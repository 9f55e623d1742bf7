import Mathlib.Data.BitVec

/-!
# Registers with read-only bits

A register of a device has bits that a write sets and bits that it leaves alone.  Writing
something else and then the old value back changes nothing (`write_back`).  The writable
bits of an address decoder for a region of `2 ^ k` bytes are those from `k` on
(`decoder`), so what is read after writing all ones tells the size
(`not_decoder_add_one`).
-/

namespace Registers

variable {w : Nat}

structure Register (w : Nat) where
  value : BitVec w
  /-- The bits that a write sets. -/
  writable : BitVec w
deriving DecidableEq

namespace Register

def write (r : Register w) (v : BitVec w) : Register w :=
  { r with value := (r.value &&& ~~~r.writable) ||| (v &&& r.writable) }

/-- What is read after all ones were written. -/
def sized (r : Register w) : BitVec w := (r.write (BitVec.allOnes w)).value

theorem write_write (r : Register w) (u v : BitVec w) : (r.write u).write v = r.write v := by
  simp only [write, mk.injEq, and_true]
  ext i hi
  simp only [BitVec.getElem_or, BitVec.getElem_and, BitVec.getElem_not]
  cases r.writable[i] <;> simp

theorem write_value (r : Register w) : r.write r.value = r := by
  cases r with
  | mk value writable =>
      simp only [write, mk.injEq, and_true]
      ext i hi
      simp only [BitVec.getElem_or, BitVec.getElem_and, BitVec.getElem_not]
      cases writable[i] <;> simp

theorem write_back (r : Register w) (v : BitVec w) : (r.write v).write r.value = r := by
  rw [write_write, write_value]

theorem sized_eq (r : Register w) : r.sized = r.value ||| r.writable := by
  ext i hi
  simp only [sized, write, BitVec.getElem_or, BitVec.getElem_and, BitVec.getElem_not,
    BitVec.getElem_allOnes]
  cases r.writable[i] <;> simp

/-- Writable bits are read back as they were written. -/
theorem write_and {r : Register w} {m : BitVec w} (h : r.writable &&& m = m) (v : BitVec w) :
    (r.write v).value &&& m = v &&& m := by
  ext i hi
  have hbit := congrArg (fun x : BitVec w => x[i]) h
  simp only [BitVec.getElem_and] at hbit
  simp only [write, BitVec.getElem_or, BitVec.getElem_and, BitVec.getElem_not]
  cases hm : m[i] with
  | false => simp
  | true =>
      rw [hm, Bool.and_true] at hbit
      simp [hbit]

end Register

/-! ## Address decoders -/

/-- The address bits of a region of `2 ^ k` bytes. -/
def decoder (w k : Nat) : BitVec w := BitVec.allOnes w <<< k

@[simp] theorem getLsbD_decoder (k i : Nat) :
    (decoder w k).getLsbD i = (decide (i < w) && decide (k ≤ i)) := by
  rw [decoder, BitVec.getLsbD_shiftLeft, BitVec.getLsbD_allOnes]
  by_cases hi : i < w
  · simp only [hi, decide_true, Bool.true_and]
    by_cases hk : k ≤ i
    · simp [hk, show i - k < w by omega]
    · simp [hk, show i < k by omega]
  · simp [hi]

theorem not_decoder_add_one (w k : Nat) : ~~~decoder w k + 1#w = BitVec.twoPow w k := by
  rw [decoder, ← BitVec.neg_eq_not_add, ← BitVec.neg_one_eq_allOnes,
    BitVec.shiftLeft_eq_mul_twoPow, BitVec.neg_mul, BitVec.neg_neg, BitVec.one_mul]

/-- An address of a region has no bit below the region's size. -/
def Aligned (k : Nat) (base : BitVec w) : Prop := base &&& decoder w k = base

instance (k : Nat) (base : BitVec w) : Decidable (Aligned k base) :=
  inferInstanceAs (Decidable (_ = _))

theorem aligned_iff {k : Nat} {base : BitVec w} :
    Aligned k base ↔ ∀ i < k, base.getLsbD i = false := by
  constructor
  · intro h i hi
    rw [← show base &&& decoder w k = base from h, BitVec.getLsbD_and, getLsbD_decoder]
    simp [hi]
  · intro h
    apply BitVec.eq_of_getLsbD_eq
    intro i hi
    rw [BitVec.getLsbD_and, getLsbD_decoder]
    by_cases hk : i < k
    · rw [h i hk, Bool.false_and]
    · simp [hi, show k ≤ i by omega]

theorem Aligned.mono {n k : Nat} {base : BitVec w} (h : Aligned k base) (hn : n ≤ k) :
    Aligned n base :=
  aligned_iff.mpr fun i hi => aligned_iff.mp h i (Nat.lt_of_lt_of_le hi hn)

theorem Aligned.setWidth {v k : Nat} {base : BitVec w} (h : Aligned k base) :
    Aligned k (base.setWidth v) := by
  refine aligned_iff.mpr fun i hi => ?_
  rw [BitVec.getLsbD_setWidth, aligned_iff.mp h i hi, Bool.and_false]

theorem aligned_decoder (w k : Nat) : Aligned k (decoder w k) := BitVec.and_self

theorem Aligned.or_decoder {k : Nat} {base : BitVec w} (h : Aligned k base) :
    base ||| decoder w k = decoder w k := by
  rw [← show base &&& decoder w k = base from h]
  ext i hi
  rw [BitVec.getElem_or, BitVec.getElem_and]
  cases (decoder w k)[i] <;> simp

/-- An address with type bits below it: the mask takes the address. -/
theorem Aligned.or_and_decoder {n : Nat} {base t : BitVec w} (h : Aligned n base)
    (ht : t &&& decoder w n = 0#w) : (base ||| t) &&& decoder w n = base := by
  rw [BitVec.and_or_distrib_right, show base &&& decoder w n = base from h, ht, BitVec.or_zero]

/-- An address with type bits below it: the other mask takes the type bits. -/
theorem Aligned.or_and_not_decoder {n : Nat} {base t : BitVec w} (h : Aligned n base)
    (ht : t &&& decoder w n = 0#w) : (base ||| t) &&& ~~~decoder w n = t := by
  have hbase : base &&& ~~~decoder w n = 0#w := by
    rw [← show base &&& decoder w n = base from h, BitVec.and_assoc, BitVec.and_not_self]
    exact BitVec.and_zero
  have hall : t &&& ~~~decoder w n = t := by
    rw [← BitVec.or_zero (x := t &&& ~~~decoder w n), ← ht, ← BitVec.and_or_distrib_left,
      BitVec.or_comm, BitVec.or_not_self, BitVec.and_allOnes]
  rw [BitVec.and_or_distrib_right, hbase, hall, BitVec.zero_or]

/-! ## Addresses in two registers -/

theorem setWidth_decoder {v : Nat} (h : v ≤ w) (k : Nat) :
    (decoder w k).setWidth v = decoder v k := by
  apply BitVec.eq_of_getLsbD_eq
  intro i hi
  rw [BitVec.getLsbD_setWidth, getLsbD_decoder, getLsbD_decoder]
  simp [hi, show i < w by omega]

theorem setWidth_twoPow {v k : Nat} (hk : k < w) (h : w ≤ v) :
    (BitVec.twoPow w k).setWidth v = BitVec.twoPow v k := by
  apply BitVec.eq_of_getLsbD_eq
  intro i hi
  rw [BitVec.getLsbD_setWidth, BitVec.getLsbD_twoPow, BitVec.getLsbD_twoPow]
  simp [hi, hk, show k < v by omega]

theorem join_halves (x : BitVec 64) :
    ((x >>> 32).setWidth 32).setWidth 64 <<< 32 ||| (x.setWidth 32).setWidth 64 = x := by
  apply BitVec.eq_of_getLsbD_eq
  intro i hi
  by_cases h : i < 32
  · simp [h, hi]
  · simp [h, hi, show i - 32 < 32 by omega, show i - 32 < 64 by omega, show 32 + (i - 32) = i by omega]

end Registers
