import Avery.Library.Words

/-!
# Fixed-width arithmetic and alignment

The kernel's `u32` and `u64` (and `usize`, `physAddr`, `virtAddr`, which are 64
bits wide) are naturals, with the reduction written out in every operation that
can leave the range.  `alignUp` and `alignDown` are the templates of `types.h`
at 64 bits.
-/

namespace Avery

/-! ## Words of 64 and 32 bits -/

@[reducible] def add64 (a b : Nat) : Nat := Words.add 64 a b
@[reducible] def sub64 (a b : Nat) : Nat := Words.sub 64 a b
@[reducible] def mul64 (a b : Nat) : Nat := Words.mul 64 a b
@[reducible] def add32 (a b : Nat) : Nat := Words.add 32 a b
@[reducible] def sub32 (a b : Nat) : Nat := Words.sub 32 a b
@[reducible] def mul32 (a b : Nat) : Nat := Words.mul 32 a b

/-- `static_cast<int>` of an unsigned value. -/
abbrev toInt (a : Nat) : Int := Words.toSigned 32 a

/-! ## Alignment -/

/-- `(x + a - 1) & ~(a - 1)`. -/
def alignUp (x a : Nat) : Nat := sub64 (add64 x a) 1 &&& (2 ^ 64 - 1 - sub64 a 1)

/-- `x & ~(a - 1)`. -/
def alignDown (x a : Nat) : Nat := x &&& (2 ^ 64 - 1 - sub64 a 1)

theorem sub64_pow_one {k : Nat} (hk : k < 64) : 2 ^ 64 - 1 - sub64 (2 ^ k) 1 = 2 ^ 64 - 2 ^ k := by
  have hpos : 0 < 2 ^ k := Nat.two_pow_pos k
  have hlt : 2 ^ k < 2 ^ 64 := Nat.pow_lt_pow_right (by decide) hk
  rw [sub64, Words.sub_eq hlt hpos]
  omega

theorem alignDown_eq {x k : Nat} (hk : k < 64) (hx : x < 2 ^ 64) :
    alignDown x (2 ^ k) = x / 2 ^ k * 2 ^ k := by
  rw [alignDown, sub64_pow_one hk, Words.and_compl_mask (Nat.le_of_lt hk) hx]

/-- Rounding up reduces `x + a - 1` to a word first, so it returns `0` on the
last values below `2 ^ 64`. -/
theorem alignUp_eq_mod {x k : Nat} (hk : k < 64) :
    alignUp x (2 ^ k) = (x + (2 ^ k - 1)) % 2 ^ 64 / 2 ^ k * 2 ^ k := by
  have hpos : 0 < 2 ^ k := Nat.two_pow_pos k
  have hsub : sub64 (add64 x (2 ^ k)) 1 = (x + (2 ^ k - 1)) % 2 ^ 64 := by
    unfold sub64 Words.sub add64 Words.add
    omega
  rw [alignUp, sub64_pow_one hk, hsub,
    Words.and_compl_mask (Nat.le_of_lt hk) (Nat.mod_lt _ (Nat.two_pow_pos 64))]

theorem alignUp_eq {x k : Nat} (hk : k < 64) (hx : x + 2 ^ k ≤ 2 ^ 64) :
    alignUp x (2 ^ k) = (x + (2 ^ k - 1)) / 2 ^ k * 2 ^ k := by
  have hpos : 0 < 2 ^ k := Nat.two_pow_pos k
  rw [alignUp_eq_mod hk, Nat.mod_eq_of_lt (by omega)]

end Avery
