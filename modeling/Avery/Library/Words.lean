import Mathlib.Data.Nat.Bitwise
import Mathlib.Tactic.Ring

/-!
# Unsigned machine words

A word of `w` bits is a natural number, and an operation on words is the
operation on naturals followed by a reduction modulo `2 ^ w`.  Every operation
comes with the lemma that removes the reduction when the exact result fits, so
that a proof meets the reduction only at the place where it matters.

The second half is about the usual bit idioms: a power of two minus one as a
mask is a remainder, and the complement of such a mask rounds down.
-/

namespace Words

/-! ## Arithmetic modulo a power of two -/

/-- Addition of words. -/
def add (w a b : Nat) : Nat := (a + b) % 2 ^ w

/-- Subtraction of words. -/
def sub (w a b : Nat) : Nat := (a + (2 ^ w - b % 2 ^ w)) % 2 ^ w

/-- Multiplication of words. -/
def mul (w a b : Nat) : Nat := (a * b) % 2 ^ w

/-- The value a word has after a cast to a signed word of the same width. -/
def toSigned (w a : Nat) : Int :=
  if a % 2 ^ w < 2 ^ (w - 1) then (a % 2 ^ w : Nat) else (a % 2 ^ w : Nat) - (2 ^ w : Nat)

theorem add_eq {w a b : Nat} (h : a + b < 2 ^ w) : add w a b = a + b :=
  Nat.mod_eq_of_lt h

theorem add_lt (w a b : Nat) : add w a b < 2 ^ w :=
  Nat.mod_lt _ (Nat.two_pow_pos w)

theorem sub_eq {w a b : Nat} (ha : a < 2 ^ w) (h : b ≤ a) : sub w a b = a - b := by
  unfold sub
  rw [Nat.mod_eq_of_lt (Nat.lt_of_le_of_lt h ha)]
  have hsum : a + (2 ^ w - b) = (a - b) + 2 ^ w := by omega
  rw [hsum, Nat.add_mod_right]
  exact Nat.mod_eq_of_lt (by omega)

theorem sub_lt (w a b : Nat) : sub w a b < 2 ^ w :=
  Nat.mod_lt _ (Nat.two_pow_pos w)

/-- A word and its complement sum up to a multiple of the modulus. -/
theorem add_complement (m b : Nat) (hm : 0 < m) : b + (m - b % m) = m * (b / m + 1) := by
  have hlt : b % m < m := Nat.mod_lt b hm
  have hdiv : m * (b / m) + b % m = b := Nat.div_add_mod b m
  rw [Nat.mul_add, Nat.mul_one]
  omega

/-- Subtraction undoes addition, whether the sum wraps or not. -/
theorem sub_add {w a : Nat} (b : Nat) (ha : a < 2 ^ w) : sub w (add w a b) b = a := by
  rw [sub, add, Nat.mod_add_mod, Nat.add_assoc, add_complement _ b (Nat.two_pow_pos w),
    Nat.add_mul_mod_self_left, Nat.mod_eq_of_lt ha]

theorem add_sub {w a : Nat} (b : Nat) (ha : a < 2 ^ w) : add w (sub w a b) b = a := by
  rw [sub, add, Nat.mod_add_mod, Nat.add_assoc, Nat.add_comm _ b,
    add_complement _ b (Nat.two_pow_pos w), Nat.add_mul_mod_self_left, Nat.mod_eq_of_lt ha]

theorem mul_eq {w a b : Nat} (h : a * b < 2 ^ w) : mul w a b = a * b :=
  Nat.mod_eq_of_lt h

theorem toSigned_eq {w a : Nat} (h : a < 2 ^ (w - 1)) (hw : 0 < w) : toSigned w a = a := by
  have hle : 2 ^ (w - 1) ≤ 2 ^ w := Nat.pow_le_pow_right (by decide) (by omega)
  have hmod : a % 2 ^ w = a := Nat.mod_eq_of_lt (by omega)
  simp [toSigned, hmod, h]

/-- The cast keeps a value exactly when it is below half of the range. -/
theorem toSigned_eq_iff {w a : Nat} (hw : 0 < w) : toSigned w a = a ↔ a < 2 ^ (w - 1) := by
  refine ⟨fun h => ?_, fun h => toSigned_eq h hw⟩
  have hlt : a % 2 ^ w < 2 ^ w := Nat.mod_lt _ (Nat.two_pow_pos w)
  unfold toSigned at h
  split at h <;> omega

/-! ## Masks -/

theorem and_mask (n k : Nat) : n &&& (2 ^ k - 1) = n % 2 ^ k :=
  Nat.and_two_pow_sub_one_eq_mod n k

/-- Masking with the complement of `2 ^ k - 1` rounds down to a multiple of
`2 ^ k`. -/
theorem and_compl_mask {w k n : Nat} (hk : k ≤ w) (hn : n < 2 ^ w) :
    n &&& (2 ^ w - 2 ^ k) = n / 2 ^ k * 2 ^ k := by
  have hmask : 2 ^ w - 2 ^ k = 2 ^ k * (2 ^ (w - k) - 1) := by
    rw [Nat.mul_sub, Nat.mul_one, ← Nat.pow_add, Nat.add_sub_cancel' hk]
  apply Nat.eq_of_testBit_eq
  intro i
  rw [Nat.testBit_and, hmask, Nat.testBit_two_pow_mul, Nat.mul_comm, Nat.testBit_two_pow_mul,
    Nat.testBit_two_pow_sub_one, Nat.testBit_div_two_pow]
  by_cases hi : k ≤ i
  · rw [show i - k + k = i by omega]
    by_cases hw : i < w
    · simp [hi, show i - k < w - k by omega]
    · have hbit : n.testBit i = false :=
        Nat.testBit_lt_two_pow (Nat.lt_of_lt_of_le hn (Nat.pow_le_pow_right (by decide) (by omega)))
      simp [hbit]
  · simp [hi]

end Words
