import Mathlib.Data.Nat.Bitwise
import Mathlib.Data.Finset.Card
import Mathlib.Order.Interval.Finset.Nat

/-!
# Bitmaps stored in bytes

A bitmap is a sequence of bytes, bit `i` being bit `i % 8` of byte `i / 8`.
The three accesses are the shifts and masks a C program uses.  `test_set` and
`test_clear` are all that the rest of a development needs of them: a write of
one bit is seen at that bit and nowhere else.

`zeros b n` is the set of clear bits below `n`.  The last section says how the
writes move it, so that a counter kept beside a bitmap can be compared with its
cardinality.
-/

namespace Bitmap

/-- The byte with only bit `k` set. -/
def bitMask (k : Nat) : UInt8 := UInt8.ofNat (1 <<< k)

/-- Bit `bit` is set. -/
def test (bytes : Nat → UInt8) (bit : Nat) : Bool :=
  bytes (bit / 8) &&& bitMask (bit % 8) != 0

/-- Set bit `bit`. -/
def set (bytes : Nat → UInt8) (bit : Nat) : Nat → UInt8 :=
  Function.update bytes (bit / 8) (bytes (bit / 8) ||| bitMask (bit % 8))

/-- Clear bit `bit`. -/
def clear (bytes : Nat → UInt8) (bit : Nat) : Nat → UInt8 :=
  Function.update bytes (bit / 8) (bytes (bit / 8) &&& ~~~bitMask (bit % 8))

/-! ## One byte -/

theorem toNat_bitMask {k : Nat} (h : k < 8) : (bitMask k).toNat = 2 ^ k := by
  have hlt : 2 ^ k < 2 ^ 8 := Nat.pow_lt_pow_right (by decide) h
  simp only [bitMask, Nat.shiftLeft_eq, Nat.one_mul, UInt8.toNat_ofNat']
  exact Nat.mod_eq_of_lt hlt

theorem and_bitMask_ne_zero {k : Nat} (b : UInt8) (h : k < 8) :
    (b &&& bitMask k != 0) = b.toNat.testBit k := by
  rw [Bool.eq_iff_iff, bne_iff_ne, ne_eq, ← UInt8.toNat_inj, UInt8.toNat_and, toNat_bitMask h,
    Nat.and_two_pow]
  cases b.toNat.testBit k <;> simp

theorem testBit_or_bitMask {k j : Nat} (b : UInt8) (h : k < 8) :
    (b ||| bitMask k).toNat.testBit j = (b.toNat.testBit j || decide (k = j)) := by
  rw [UInt8.toNat_or, toNat_bitMask h, Nat.testBit_or, Nat.testBit_two_pow]

theorem testBit_and_compl_bitMask {k j : Nat} (b : UInt8) (h : k < 8) (hj : j < 8) :
    (b &&& ~~~bitMask k).toNat.testBit j = (b.toNat.testBit j && !decide (k = j)) := by
  have hmask : (~~~bitMask k).toNat = 2 ^ 8 - (2 ^ k + 1) := by
    rw [UInt8.toNat_not, toNat_bitMask h, show UInt8.size = 2 ^ 8 from rfl]
    omega
  have hlt : 2 ^ k < 2 ^ 8 := Nat.pow_lt_pow_right (by decide) h
  rw [UInt8.toNat_and, hmask, Nat.testBit_and, Nat.testBit_two_pow_sub_succ hlt,
    Nat.testBit_two_pow]
  simp [hj]

/-! ## The whole map -/

theorem test_eq (bytes : Nat → UInt8) (bit : Nat) :
    test bytes bit = (bytes (bit / 8)).toNat.testBit (bit % 8) :=
  and_bitMask_ne_zero _ (Nat.mod_lt _ (by decide))

/-- Two bits in one byte at one position are the same bit. -/
theorem eq_of_div_mod {i j : Nat} (hd : j / 8 = i / 8) : i % 8 = j % 8 ↔ i = j := by
  constructor <;> intro h <;> omega

@[simp] theorem test_set (bytes : Nat → UInt8) (i j : Nat) :
    test (set bytes i) j = (test bytes j || decide (i = j)) := by
  rw [test_eq, test_eq]
  by_cases hd : j / 8 = i / 8
  · rw [set, hd, Function.update_self, testBit_or_bitMask _ (Nat.mod_lt _ (by decide))]
    simp only [eq_of_div_mod hd]
  · rw [set, Function.update_of_ne hd]
    have hne : i ≠ j := fun h => hd (by rw [h])
    simp [hne]

@[simp] theorem test_clear (bytes : Nat → UInt8) (i j : Nat) :
    test (clear bytes i) j = (test bytes j && !decide (i = j)) := by
  rw [test_eq, test_eq]
  by_cases hd : j / 8 = i / 8
  · rw [clear, hd, Function.update_self,
      testBit_and_compl_bitMask _ (Nat.mod_lt _ (by decide)) (Nat.mod_lt _ (by decide))]
    simp only [eq_of_div_mod hd]
  · rw [clear, Function.update_of_ne hd]
    have hne : i ≠ j := fun h => hd (by rw [h])
    simp [hne]

/-- Two bitmaps with the same bits have the same bytes. -/
theorem ext_test {a b : Nat → UInt8} (h : ∀ i, test a i = test b i) : a = b := by
  funext n
  apply UInt8.toNat_inj.mp
  apply Nat.eq_of_testBit_eq
  intro k
  by_cases hk : k < 8
  · have hbit := h (8 * n + k)
    have hdiv : (8 * n + k) / 8 = n := by omega
    have hmod : (8 * n + k) % 8 = k := by omega
    rwa [test_eq, test_eq, hdiv, hmod] at hbit
  · have hpow : 2 ^ 8 ≤ 2 ^ k := Nat.pow_le_pow_right (by decide) (by omega)
    rw [Nat.testBit_lt_two_pow (Nat.lt_of_lt_of_le (UInt8.toNat_lt _) hpow),
      Nat.testBit_lt_two_pow (Nat.lt_of_lt_of_le (UInt8.toNat_lt _) hpow)]

/-- A byte of all ones has every bit set. -/
theorem test_of_ones {bytes : Nat → UInt8} {bit : Nat} (h : bytes (bit / 8) = 0xFF) :
    test bytes bit = true := by
  rw [test_eq, h]
  have hlt : bit % 8 < 8 := Nat.mod_lt _ (by decide)
  rw [show ((0xFF : UInt8).toNat) = 2 ^ 8 - 1 by decide, Nat.testBit_two_pow_sub_one]
  simp [hlt]

/-! ## The clear bits -/

/-- The clear bits below `n`. -/
def zeros (bytes : Nat → UInt8) (n : Nat) : Finset Nat :=
  (Finset.range n).filter fun i => test bytes i = false

@[simp] theorem mem_zeros {bytes : Nat → UInt8} {n i : Nat} :
    i ∈ zeros bytes n ↔ i < n ∧ test bytes i = false := by
  simp [zeros]

theorem zeros_set (bytes : Nat → UInt8) (n i : Nat) :
    zeros (set bytes i) n = (zeros bytes n).erase i := by
  ext j
  simp only [mem_zeros, test_set, Bool.or_eq_false_iff, decide_eq_false_iff_not, Finset.mem_erase]
  constructor
  · rintro ⟨hn, ht, hne⟩
    exact ⟨fun h => hne h.symm, hn, ht⟩
  · rintro ⟨hne, hn, ht⟩
    exact ⟨hn, ht, fun h => hne h.symm⟩

theorem zeros_clear {bytes : Nat → UInt8} {n i : Nat} (hi : i < n) :
    zeros (clear bytes i) n = insert i (zeros bytes n) := by
  ext j
  simp only [mem_zeros, test_clear, Bool.and_eq_false_iff, Bool.not_eq_false',
    decide_eq_true_eq, Finset.mem_insert]
  constructor
  · rintro ⟨hn, ht | he⟩
    · exact Or.inr ⟨hn, ht⟩
    · exact Or.inl he.symm
  · rintro (rfl | ⟨hn, ht⟩)
    · exact ⟨hi, Or.inr rfl⟩
    · exact ⟨hn, Or.inl ht⟩

theorem card_zeros_le (bytes : Nat → UInt8) (n : Nat) : (zeros bytes n).card ≤ n := by
  have h := Finset.card_filter_le (Finset.range n) fun i => test bytes i = false
  rwa [Finset.card_range] at h

end Bitmap
