import Mathlib.Algebra.Order.Ring.Nat
import Mathlib.Data.UInt

/-!
# Little-endian memory

A memory is a function from addresses to bytes.  `readLE` reads a number of
bytes as a number, `writeLE` stores one, `window` reads a block of bytes and `blit`
copies one.  A read sees what was written to the same place and is not changed by a
write to a disjoint place.
-/

namespace ByteMemory

/-- The number stored in `n` bytes from `a` on, the low byte first. -/
def readLE (mem : Nat → UInt8) (a : Nat) : Nat → Nat
  | 0 => 0
  | n + 1 => (mem a).toNat + 256 * readLE mem (a + 1) n

/-- Byte `i` of a number. -/
def byteOf (v i : Nat) : UInt8 := UInt8.ofNat (v / 256 ^ i)

/-- Store `v` in `n` bytes from `a` on. -/
def writeLE (mem : Nat → UInt8) (a n v : Nat) : Nat → UInt8 := fun x =>
  if a ≤ x ∧ x < a + n then byteOf v (x - a) else mem x

/-- The `n` bytes from `a` on. -/
def window (mem : Nat → UInt8) (a n : Nat) : Nat → UInt8 := fun i =>
  if i < n then mem (a + i) else 0

/-- Copy `n` bytes of `src` to `a`. -/
def blit (mem : Nat → UInt8) (a n : Nat) (src : Nat → UInt8) : Nat → UInt8 := fun x =>
  if a ≤ x ∧ x < a + n then src (x - a) else mem x

variable {mem mem' : Nat → UInt8}

theorem toNat_byteOf (v i : Nat) : (byteOf v i).toNat = v / 256 ^ i % 256 :=
  UInt8.toNat_ofNat'

theorem writeLE_of_lt {a n v x : Nat} (h : x < a) : writeLE mem a n v x = mem x :=
  if_neg fun hc => absurd hc.1 (Nat.not_le.mpr h)

theorem writeLE_of_ge {a n v x : Nat} (h : a + n ≤ x) : writeLE mem a n v x = mem x :=
  if_neg fun hc => absurd hc.2 (Nat.not_lt.mpr h)

theorem writeLE_of_mem {a n v x : Nat} (h₁ : a ≤ x) (h₂ : x < a + n) :
    writeLE mem a n v x = byteOf v (x - a) :=
  if_pos ⟨h₁, h₂⟩

/-- A read depends on the bytes it reads only. -/
theorem readLE_congr :
    ∀ {a n : Nat}, (∀ x, a ≤ x → x < a + n → mem' x = mem x) → readLE mem' a n = readLE mem a n
  | _, 0, _ => rfl
  | a, n + 1, h => by
      rw [readLE, readLE, h a (Nat.le_refl a) (by omega),
        readLE_congr (a := a + 1) (n := n) fun x h₁ h₂ => h x (by omega) (by omega)]

theorem readLE_lt (mem : Nat → UInt8) : ∀ a n : Nat, readLE mem a n < 256 ^ n
  | _, 0 => Nat.zero_lt_one
  | a, n + 1 => by
      have ih := readLE_lt mem (a + 1) n
      have hb := (mem a).toNat_lt
      rw [readLE, Nat.pow_succ]
      omega

/-- Reading the bytes of a number gives the number back, less what does not fit. -/
theorem readLE_of_bytes :
    ∀ {n a v k : Nat}, (∀ i < n, mem (a + i) = byteOf v (k + i)) →
      readLE mem a n = v / 256 ^ k % 256 ^ n
  | 0, _, _, _, _ => by rw [readLE, Nat.pow_zero, Nat.mod_one]
  | n + 1, a, v, k, h => by
      have hbyte : (mem a).toNat = v / 256 ^ k % 256 := by
        have h₀ := h 0 (Nat.succ_pos n)
        rw [Nat.add_zero, Nat.add_zero] at h₀
        rw [h₀, toNat_byteOf]
      have hrest : readLE mem (a + 1) n = v / 256 ^ (k + 1) % 256 ^ n := by
        refine readLE_of_bytes fun i hi => ?_
        rw [show a + 1 + i = a + (i + 1) by omega, show k + 1 + i = k + (i + 1) by omega]
        exact h (i + 1) (by omega)
      rw [readLE, hbyte, hrest, Nat.pow_succ, ← Nat.div_div_eq_div_mul, Nat.pow_succ,
        Nat.mul_comm (256 ^ n), Nat.mod_mul]

theorem readLE_writeLE_mod {a n v : Nat} : readLE (writeLE mem a n v) a n = v % 256 ^ n := by
  have hbytes : ∀ i < n, writeLE mem a n v (a + i) = byteOf v (0 + i) := fun i hi => by
    rw [writeLE_of_mem (by omega) (by omega)]
    congr 1
    omega
  rw [readLE_of_bytes hbytes, Nat.pow_zero, Nat.div_one]

theorem readLE_writeLE_same {a n v : Nat} (h : v < 256 ^ n) :
    readLE (writeLE mem a n v) a n = v := by
  rw [readLE_writeLE_mod, Nat.mod_eq_of_lt h]

/-- A write does not change what is read elsewhere. -/
theorem readLE_writeLE_disjoint {a n v b m : Nat} (h : a + n ≤ b ∨ b + m ≤ a) :
    readLE (writeLE mem a n v) b m = readLE mem b m := by
  refine readLE_congr fun x h₁ h₂ => ?_
  rcases h with h | h
  · exact writeLE_of_ge (by omega)
  · exact writeLE_of_lt (by omega)

theorem window_of_lt {a n i : Nat} (h : i < n) : window mem a n i = mem (a + i) := if_pos h

theorem readLE_window {a n : Nat} :
    ∀ {b m : Nat}, b + m ≤ n → readLE (window mem a n) b m = readLE mem (a + b) m
  | _, 0, _ => rfl
  | b, m + 1, h => by
      rw [readLE, readLE, window_of_lt (by omega), readLE_window (b := b + 1) (m := m) (by omega),
        Nat.add_assoc]

theorem blit_of_lt {a n x : Nat} {src : Nat → UInt8} (h : x < a) : blit mem a n src x = mem x :=
  if_neg fun hc => absurd hc.1 (Nat.not_le.mpr h)

theorem blit_of_ge {a n x : Nat} {src : Nat → UInt8} (h : a + n ≤ x) : blit mem a n src x = mem x :=
  if_neg fun hc => absurd hc.2 (Nat.not_lt.mpr h)

theorem blit_of_mem {a n i : Nat} {src : Nat → UInt8} (h : i < n) :
    blit mem a n src (a + i) = src i := by
  rw [blit, if_pos ⟨Nat.le_add_right a i, Nat.add_lt_add_left h a⟩, Nat.add_sub_cancel_left]

/-- A copy depends on the bytes it copies only. -/
theorem blit_congr {a n : Nat} {src src' : Nat → UInt8} (h : ∀ i < n, src i = src' i) :
    blit mem a n src = blit mem a n src' := by
  funext x
  unfold blit
  split
  · exact h _ (by omega)
  · rfl

/-- Copying a block in two parts. -/
theorem blit_append {a n m : Nat} {src : Nat → UInt8} :
    blit (blit mem a n src) (a + n) m (fun i => src (n + i)) = blit mem a (n + m) src := by
  funext x
  unfold blit
  by_cases hlow : a ≤ x ∧ x < a + n
  · rw [if_neg (by omega), if_pos hlow, if_pos (by omega)]
  · by_cases hhigh : a + n ≤ x ∧ x < a + n + m
    · have hsum : n + (x - (a + n)) = x - a := by omega
      rw [if_pos hhigh, if_pos (by omega), ← hsum]
    · rw [if_neg hhigh, if_neg hlow, if_neg (by omega)]

theorem blit_zero {a : Nat} {src : Nat → UInt8} : blit mem a 0 src = mem := by
  funext x
  exact if_neg (by omega)

/-- A read inside a copied block reads the source. -/
theorem readLE_blit {a n : Nat} {src : Nat → UInt8} :
    ∀ {b m : Nat}, b + m ≤ n → readLE (blit mem a n src) (a + b) m = readLE src b m
  | _, 0, _ => rfl
  | b, m + 1, h => by
      rw [readLE, readLE, blit_of_mem (by omega), Nat.add_assoc,
        readLE_blit (b := b + 1) (m := m) (by omega)]

/-- Reading a window, storing a number in it and writing it back stores the
number. -/
theorem blit_writeLE_window {a n b m v : Nat} (h : b + m ≤ n) :
    blit mem a n (writeLE (window mem a n) b m v) = writeLE mem (a + b) m v := by
  funext x
  rcases Nat.lt_or_ge x a with hx | hx
  · rw [blit_of_lt hx, writeLE_of_lt (by omega)]
  rcases Nat.lt_or_ge x (a + n) with hx' | hx'
  · obtain ⟨i, rfl⟩ := Nat.exists_eq_add_of_le hx
    rw [blit_of_mem (by omega)]
    unfold writeLE
    by_cases hi : b ≤ i ∧ i < b + m
    · rw [if_pos hi, if_pos (by omega), Nat.add_sub_add_left]
    · rw [if_neg hi, if_neg (by omega), window_of_lt (by omega)]
  · rw [blit_of_ge hx', writeLE_of_ge (by omega)]

end ByteMemory
