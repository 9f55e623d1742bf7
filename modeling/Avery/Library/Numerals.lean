import Mathlib.Data.Nat.Digits.Lemmas

/-!
# Numerals

The digits of a number from the highest to the lowest, without leading zeros.  A number
with one more digit has that digit behind the others (`numeral_step`), so a numeral is
written from its end.
-/

namespace Numerals

/-- The digits of `n` in base `b`; zero has one. -/
def numeral (b n : Nat) : List Nat := if n = 0 then [0] else (Nat.digits b n).reverse

variable {b n : Nat}

theorem numeral_of_lt (hn : n < b) : numeral b n = [n] := by
  unfold numeral
  split
  · next hzero => rw [hzero]
  · next hzero => rw [Nat.digits_of_lt b n hzero hn, List.reverse_singleton]

theorem numeral_step (hb : 1 < b) (hn : b ≤ n) : numeral b n = numeral b (n / b) ++ [n % b] := by
  have hdiv : n / b ≠ 0 := by
    have hpos := Nat.div_pos hn (by omega)
    omega
  rw [numeral, numeral, if_neg (by omega), if_neg hdiv, Nat.digits_def' hb (by omega),
    List.reverse_cons]

/-- One digit more behind any numeral but that of zero. -/
theorem numeral_mul_add (hb : 1 < b) {d : Nat} (hd : d < b) (hn : n ≠ 0) :
    numeral b (b * n + d) = numeral b n ++ [d] := by
  have hle : b ≤ b * n + d := Nat.le_add_right_of_le (Nat.le_mul_of_pos_right b (by omega))
  rw [numeral_step hb hle, Nat.mul_add_div (by omega), Nat.div_eq_of_lt hd, Nat.add_zero,
    Nat.mul_add_mod, Nat.mod_eq_of_lt hd]

theorem length_numeral_le (hb : 1 < b) {k : Nat} (hk : k ≠ 0) (hn : n < b ^ k) :
    (numeral b n).length ≤ k := by
  unfold numeral
  split
  · simp
    omega
  · rw [List.length_reverse]
    exact (Nat.digits_length_le_iff hb n).mpr hn

theorem numeral_lt (hb : 1 < b) : ∀ d ∈ numeral b n, d < b := by
  intro d hd
  unfold numeral at hd
  split at hd
  · rw [List.mem_singleton.mp hd]
    omega
  · exact Nat.digits_lt_base hb (List.mem_reverse.mp hd)

end Numerals
