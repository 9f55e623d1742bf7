import Avery.Library.Blocks
import Avery.Library.Numerals
import Avery.Kernel.Types

/-!
# Printing numbers

`console.cpp` and `serial.cpp`: a number is written into a buffer on the stack, a
decimal number from its end and a hexadecimal one from its beginning, and the buffer is
printed up to its NUL.  Both files have the same functions, with another way to put the
characters out.

An access outside a buffer is a fault.  What the buffer holds before is arbitrary.
-/

namespace Avery.Io

open Blocks Numerals

def chars (s : String) : List UInt8 := s.toList.map fun c => UInt8.ofNat c.toNat

/-- The characters that `write` and `serialWrite` put out: those before the NUL. -/
def write (str : Block UInt8) (i : Nat) : Except Fault (List UInt8) :=
  if i < str.size then
    if str.cells i = 0 then .ok [] else do return str.cells i :: (← write str (i + 1))
  else .error .access
termination_by str.size - i

/-! ## Decimal numbers -/

def printNumberLoop (buffer : Block UInt8) (index num : Nat) :
    Except Fault (Block UInt8 × Nat) := do
  let index := sub64 index 1
  let buffer ← buffer.write index (UInt8.ofNat (48 + num % 10))
  if _h : num / 10 ≠ 0 then printNumberLoop buffer index (num / 10) else return (buffer, index)
termination_by num

/-- The decimal printers of both files. -/
def writeDecimal (stack : Nat → UInt8) (num : UInt64) : Except Fault (List UInt8) := do
  let buffer ← (Block.mk 21 stack).write 20 0
  let (buffer, index) ← printNumberLoop buffer 20 num.toNat
  write buffer index

def printNumber : (Nat → UInt8) → UInt64 → Except Fault (List UInt8) := writeDecimal

def serialWriteNumber : (Nat → UInt8) → UInt64 → Except Fault (List UInt8) := writeDecimal

/-- The minus sign goes out before the number is written. -/
def printSigned (stack : Nat → UInt8) (num : Int64) : Except Fault (List UInt8) :=
  if num < 0 then do return 45 :: (← printNumber stack ((-(num + 1)).toUInt64 + 1))
  else printNumber stack num.toUInt64

/-! ## Hexadecimal numbers -/

def digits : List UInt8 := chars "0123456789ABCDEF"

/-- The loop of `printHex` from `shift = 4 * k` on. -/
def printHexLoop (num : Nat) : Nat → Block UInt8 → Nat → Bool → Except Fault (Block UInt8 × Nat)
  | 0, hex, index, _ => do
      let hex ← hex.write index (digits.getD (num >>> 0 &&& 0xF) 0)
      return (hex, index + 1)
  | k + 1, hex, index, started => do
      let digit := num >>> (4 * (k + 1)) &&& 0xF
      if digit ≠ 0 ∨ started then
        let hex ← hex.write index (digits.getD digit 0)
        printHexLoop num k hex (index + 1) true
      else printHexLoop num k hex index started

/-- The hexadecimal printers of both files. -/
def writeHexadecimal (stack : Nat → UInt8) (num : UInt64) : Except Fault (List UInt8) := do
  let hex ← (Block.mk 19 stack).write 0 48
  let hex ← hex.write 1 120
  let (hex, index) ← printHexLoop num.toNat 15 hex 2 false
  let hex ← hex.write index 0
  write hex 0

def printHex : (Nat → UInt8) → UInt64 → Except Fault (List UInt8) := writeHexadecimal

def serialWriteHex : (Nat → UInt8) → UInt64 → Except Fault (List UInt8) := writeHexadecimal

/-! ## Numerals as characters -/

/-- A numeral in decimal or in upper-case hexadecimal digits. -/
def spelled (b n : Nat) : List UInt8 := (numeral b n).map fun d => digits.getD d 0

theorem digits_ne_zero {d : Nat} (h : d < 16) : digits.getD d 0 ≠ 0 := by
  have hall : ∀ d : Fin 16, digits.getD d 0 ≠ 0 := by decide
  exact hall ⟨d, h⟩

theorem digits_decimal {d : Nat} (h : d < 10) : digits.getD d 0 = UInt8.ofNat (48 + d) := by
  have hall : ∀ d : Fin 10, digits.getD d 0 = UInt8.ofNat (48 + d) := by decide
  exact hall ⟨d, h⟩

theorem zero_not_mem_spelled {b n : Nat} (hb : 1 < b) (hb' : b ≤ 16) : (0 : UInt8) ∉ spelled b n := by
  intro hmem
  obtain ⟨d, hd, heq⟩ := List.mem_map.mp hmem
  exact digits_ne_zero (Nat.lt_of_lt_of_le (numeral_lt hb d hd) hb') heq

theorem write_holds {str : Block UInt8} {xs : List UInt8} {i : Nat}
    (h : str.Holds i (xs ++ [0])) (hxs : (0 : UInt8) ∉ xs) : write str i = .ok xs := by
  induction xs generalizing i with
  | nil =>
      obtain ⟨⟨hlt, hzero⟩, -⟩ := Block.holds_cons.mp h
      rw [write, if_pos hlt, if_pos hzero]
  | cons x xs ih =>
      obtain ⟨⟨hlt, hx⟩, hrest⟩ := Block.holds_cons.mp h
      obtain ⟨hne, hxs⟩ := not_or.mp (mt List.mem_cons.mpr hxs)
      rw [write, if_pos hlt, if_neg (by rw [hx]; exact Ne.symm hne), ih hrest hxs, hx]
      rfl

/-! ## The loops -/

/-- The loop writes the numeral in front of what stands behind `index`. -/
theorem printNumberLoop_spelled {num : Nat} :
    ∀ {buffer : Block UInt8} {index : Nat} {xs : List UInt8}, buffer.Holds index xs →
      index ≤ buffer.size → index < 2 ^ 64 → (numeral 10 num).length ≤ index →
      ∃ buffer' index', printNumberLoop buffer index num = .ok (buffer', index') ∧
        buffer'.Holds index' (spelled 10 num ++ xs) := by
  induction num using Nat.strong_induction_on with
  | _ num ih =>
      intro buffer index xs hholds hsize hsmall hlength
      have hmod : num % 10 < 10 := Nat.mod_lt _ (by decide)
      have hpos : 0 < (numeral 10 num).length := by
        rcases Nat.lt_or_ge num 10 with hlt | hge
        · rw [numeral_of_lt hlt]
          exact Nat.zero_lt_one
        · rw [numeral_step (by decide) hge, List.length_append]
          exact Nat.succ_pos _
      obtain ⟨i, rfl⟩ : ∃ i, index = i + 1 := ⟨index - 1, by omega⟩
      have hsub : sub64 (i + 1) 1 = i := by
        rw [sub64, Words.sub_eq hsmall (by omega), Nat.add_sub_cancel]
      have hwritten := hholds.write_front (i := i) (by omega) (UInt8.ofNat (48 + num % 10))
      rw [printNumberLoop, hsub, Block.write_of_lt (by omega)]
      change ∃ buffer' index', (if _h : num / 10 ≠ 0 then _ else _) = _ ∧ _
      by_cases hmore : num / 10 ≠ 0
      · have hge : 10 ≤ num := by omega
        rw [numeral_step (by decide) hge, List.length_append, List.length_singleton] at hlength
        obtain ⟨buffer', index', hloop, hresult⟩ := ih (num / 10) (by omega) hwritten
          (by rw [Block.size_set]; omega) (by omega) (by omega)
        refine ⟨buffer', index', by rw [dif_pos hmore]; exact hloop, ?_⟩
        rw [spelled, numeral_step (by decide) hge, List.map_append, List.append_assoc]
        rw [List.map_singleton, digits_decimal hmod]
        exact hresult
      · have hlt : num < 10 := by omega
        refine ⟨_, _, by rw [dif_neg hmore]; rfl, ?_⟩
        rw [spelled, numeral_of_lt hlt, List.map_singleton, digits_decimal hlt]
        rw [Nat.mod_eq_of_lt hlt] at hwritten ⊢
        exact hwritten

theorem writeDecimal_spelled (stack : Nat → UInt8) (num : UInt64) :
    writeDecimal stack num = .ok (spelled 10 num.toNat) := by
  have hlength : (numeral 10 num.toNat).length ≤ 20 := by
    refine length_numeral_le (by decide) (by decide) ?_
    exact Nat.lt_of_lt_of_le num.toNat_lt (by decide)
  have hend : ((Block.mk 21 stack).set 20 0).Holds 20 [0] :=
    (Block.Holds.nil _ _).write_front (by simp) 0
  obtain ⟨buffer, index, hloop, hholds⟩ :=
    printNumberLoop_spelled hend (by simp) (by decide) hlength
  have hwrite : (Block.mk 21 stack).write 20 0 = .ok ((Block.mk 21 stack).set 20 0) :=
    Block.write_of_lt (by simp) 0
  have hprint := write_holds hholds (zero_not_mem_spelled (by decide) (by decide))
  unfold writeDecimal
  rw [hwrite]
  change (do let (buffer, index) ← printNumberLoop _ 20 num.toNat; write buffer index) = _
  rw [hloop]
  exact hprint

/-- The digits above a position: none when they are all zero. -/
def leading (n : Nat) : List UInt8 := if n = 0 then [] else spelled 16 n

theorem leading_step {m digit : Nat} (hdigit : digit < 16) (h : digit ≠ 0 ∨ m ≠ 0) :
    leading (16 * m + digit) = leading m ++ [digits.getD digit 0] := by
  unfold leading
  rw [if_neg (by omega)]
  by_cases hm : m = 0
  · rw [if_pos hm, hm, Nat.mul_zero, Nat.zero_add, spelled, numeral_of_lt hdigit]
    rfl
  · rw [if_neg hm, spelled, numeral_mul_add (by decide) hdigit hm, List.map_append]
    rfl

theorem spelled_hex (m : Nat) {digit : Nat} (hdigit : digit < 16) :
    spelled 16 (16 * m + digit) = leading m ++ [digits.getD digit 0] := by
  by_cases h : digit ≠ 0 ∨ m ≠ 0
  · rw [← leading_step hdigit h, leading, if_neg (by omega)]
  · obtain ⟨rfl, rfl⟩ : digit = 0 ∧ m = 0 := by omega
    simp [spelled, leading, numeral]

theorem length_leading_le {n k : Nat} (hn : n < 16 ^ k) : (leading n).length ≤ k := by
  unfold leading
  split
  · exact Nat.zero_le k
  · next hne =>
    rw [spelled, List.length_map]
    refine length_numeral_le (by decide) (fun hk => hne ?_) hn
    rw [hk, pow_zero] at hn
    omega

/-- The digit of `num` at `16 ^ k`, and the digits above it. -/
theorem digit_at (num k : Nat) :
    num >>> (4 * k) &&& 0xF < 16 ∧
      num / 16 ^ k = 16 * (num / 16 ^ (k + 1)) + (num >>> (4 * k) &&& 0xF) := by
  have hdigit : num >>> (4 * k) &&& 0xF = num / 16 ^ k % 16 := by
    rw [Nat.shiftRight_eq_div_pow, Nat.pow_mul]
    exact Nat.and_two_pow_sub_one_eq_mod _ 4
  rw [hdigit, Nat.pow_succ, ← Nat.div_div_eq_div_mul]
  exact ⟨Nat.mod_lt _ (by decide), (Nat.div_add_mod _ 16).symm⟩

/-- The loop has written the digits above `16 ^ (k + 1)`, and it writes the others behind
them. -/
theorem printHexLoop_spelled {num : Nat} (hnum : num < 16 ^ 16) {k : Nat} :
    ∀ {hex : Block UInt8} {index : Nat}, k ≤ 15 → hex.size = 19 →
      hex.Holds 0 (chars "0x" ++ leading (num / 16 ^ (k + 1))) →
      index = 2 + (leading (num / 16 ^ (k + 1))).length →
      ∃ hex', printHexLoop num k hex index (decide (num / 16 ^ (k + 1) ≠ 0)) =
          .ok (hex', 2 + (spelled 16 num).length) ∧
        hex'.size = 19 ∧ hex'.Holds 0 (chars "0x" ++ spelled 16 num) := by
  have hprefix : (chars "0x").length = 2 := by decide
  have hroom : ∀ k ≤ 15, (leading (num / 16 ^ (k + 1))).length ≤ 15 - k := by
    intro k hk
    refine length_leading_le (Nat.div_lt_of_lt_mul ?_)
    rwa [← Nat.pow_add, show k + 1 + (15 - k) = 16 by omega]
  induction k with
  | zero =>
      intro hex index hk hsize hholds hindex
      obtain ⟨hdigit, hvalue⟩ := digit_at num 0
      rw [Nat.mul_zero] at hdigit hvalue
      rw [Nat.pow_zero, Nat.div_one] at hvalue
      have hspelled := spelled_hex (num / 16 ^ 1) hdigit
      rw [← hvalue] at hspelled
      have hlength := hroom 0 hk
      have hback := hholds.write_back
        (by rw [List.length_append, hprefix, hsize]; omega) (digits.getD (num >>> 0 &&& 0xF) 0)
      rw [List.length_append, hprefix, Nat.zero_add, ← hindex, List.append_assoc, ← hspelled]
        at hback
      have hcount : 2 + (spelled 16 num).length = index + 1 := by
        rw [hspelled, List.length_append, List.length_singleton, hindex, Nat.add_assoc]
      refine ⟨hex.set index (digits.getD (num >>> 0 &&& 0xF) 0), ?_, hsize, hback⟩
      rw [printHexLoop, Block.write_of_lt (by omega), hcount]
      rfl
  | succ k ih =>
      intro hex index hk hsize hholds hindex
      obtain ⟨hdigit, hvalue⟩ := digit_at num (k + 1)
      have hlength := hroom (k + 1) hk
      rw [printHexLoop]
      by_cases hput : num >>> (4 * (k + 1)) &&& 0xF ≠ 0 ∨ num / 16 ^ (k + 1 + 1) ≠ 0
      · have hleading := leading_step hdigit hput
        rw [← hvalue] at hleading
        have hback := hholds.write_back (by rw [List.length_append, hprefix, hsize]; omega)
          (digits.getD (num >>> (4 * (k + 1)) &&& 0xF) 0)
        rw [List.length_append, hprefix, Nat.zero_add, ← hindex, List.append_assoc, ← hleading]
          at hback
        have hstarted : num / 16 ^ (k + 1) ≠ 0 := by omega
        have hcount : index + 1 = 2 + (leading (num / 16 ^ (k + 1))).length := by
          rw [hleading, List.length_append, List.length_singleton, hindex, Nat.add_assoc]
        obtain ⟨hex', hloop, hresult⟩ := ih (by omega) (by exact hsize) hback hcount
        rw [decide_eq_true hstarted] at hloop
        refine ⟨hex', ?_, hresult⟩
        have hbranch := hput.imp id (decide_eq_true (p := num / 16 ^ (k + 1 + 1) ≠ 0))
        rw [if_pos hbranch, Block.write_of_lt (by omega)]
        exact hloop
      · obtain ⟨hzero, hnone⟩ := not_or.mp hput
        rw [not_not] at hzero hnone
        have hnext : num / 16 ^ (k + 1) = num / 16 ^ (k + 1 + 1) := by omega
        rw [← hnext] at hholds hindex
        obtain ⟨hex', hloop, hresult⟩ := ih (by omega) hsize hholds hindex
        rw [hnext, hnone] at hloop
        refine ⟨hex', ?_, hresult⟩
        simpa [hzero, hnone] using hloop

theorem writeHexadecimal_spelled (stack : Nat → UInt8) (num : UInt64) :
    writeHexadecimal stack num = .ok (chars "0x" ++ spelled 16 num.toNat) := by
  have hnum : num.toNat < 16 ^ 16 := Nat.lt_of_lt_of_le num.toNat_lt (by decide)
  have hzero : num.toNat / 16 ^ 16 = 0 := Nat.div_eq_of_lt hnum
  have hnone : leading (num.toNat / 16 ^ 16) = [] := by rw [hzero]; rfl
  have hprefix : (chars "0x").length = 2 := by decide
  have hlength : (spelled 16 num.toNat).length ≤ 16 := by
    rw [spelled, List.length_map]
    exact length_numeral_le (by decide) (by decide) hnum
  have hnul : (0 : UInt8) ∉ chars "0x" ++ spelled 16 num.toNat := by
    rw [List.mem_append, not_or]
    exact ⟨by decide, zero_not_mem_spelled (by decide) (by decide)⟩
  have hsign : (((Block.mk 19 stack).set 0 48).set 1 120).Holds 0
      (chars "0x" ++ leading (num.toNat / 16 ^ 16)) := by
    rw [hnone]
    exact ((Block.Holds.nil (Block.mk 19 stack) 0).write_back (by simp) 48).write_back (by simp) 120
  obtain ⟨hex, hloop, hsize, hresult⟩ :=
    printHexLoop_spelled hnum (Nat.le_refl 15) (by rfl) hsign (by rw [hnone])
  rw [hzero, decide_eq_false (by simp), List.length_nil] at hloop
  have hback := hresult.write_back (by rw [List.length_append, hprefix, hsize]; omega) 0
  rw [List.length_append, hprefix, Nat.zero_add] at hback
  unfold writeHexadecimal
  rw [Block.write_of_lt (by simp), ok_bind, Block.write_of_lt (by simp), ok_bind, hloop, ok_bind]
  simp only
  rw [Block.write_of_lt (by omega), ok_bind]
  exact write_holds hback hnul

/-! ## The printers -/

/-- The minus sign and the numeral of the absolute value. -/
def spelledSigned (n : Int) : List UInt8 :=
  (if n < 0 then chars "-" else []) ++ spelled 10 n.natAbs

theorem printSigned_spelled (stack : Nat → UInt8) (num : Int64) :
    printSigned stack num = .ok (spelledSigned num.toInt) := by
  unfold printSigned printNumber spelledSigned
  split
  · next hneg =>
    have hneg' : num.toInt < 0 := by simpa using Int64.lt_iff_toInt_lt.mp hneg
    have hvalue : ((-(num + 1)).toUInt64 + 1).toNat = num.toInt.natAbs := by
      have hbits : ((-(num + 1)).toUInt64 + 1).toNat = (-(num.toBitVec + 1) + 1).toNat := rfl
      rw [hbits]
      rw [← Int64.toInt_toBitVec, BitVec.toInt_eq_toNat_cond] at hneg' ⊢
      bv_omega
    rw [writeDecimal_spelled, hvalue, if_pos hneg']
    rfl
  · next hpos =>
    have hpos' : ¬ num.toInt < 0 := fun h => hpos (Int64.lt_iff_toInt_lt.mpr (by simpa using h))
    have hvalue : num.toUInt64.toNat = num.toInt.natAbs := by
      have hbits : num.toUInt64.toNat = num.toBitVec.toNat := rfl
      rw [hbits]
      rw [← Int64.toInt_toBitVec, BitVec.toInt_eq_toNat_cond] at hpos' ⊢
      omega
    rw [writeDecimal_spelled, hvalue, if_neg hpos']
    rfl

/-- Whatever the buffers hold before, every printer writes inside its buffer, and what it
puts out is the numeral of the value. -/
theorem numbers_printed (stack : Nat → UInt8) :
    (∀ num : UInt64,
      printNumber stack num = .ok (spelled 10 num.toNat) ∧
      serialWriteNumber stack num = .ok (spelled 10 num.toNat) ∧
      printHex stack num = .ok (chars "0x" ++ spelled 16 num.toNat) ∧
      serialWriteHex stack num = .ok (chars "0x" ++ spelled 16 num.toNat)) ∧
    ∀ num : Int64, printSigned stack num = .ok (spelledSigned num.toInt) := by
  constructor
  · intro num
    have hdecimal := writeDecimal_spelled stack num
    have hhexadecimal := writeHexadecimal_spelled stack num
    exact ⟨hdecimal, hdecimal, hhexadecimal, hhexadecimal⟩
  · intro num
    exact printSigned_spelled stack num

example : spelledSigned Int64.minValue.toInt = chars "-9223372036854775808" := by decide +kernel

example : spelled 16 0xFACE0 = chars "FACE0" := by decide +kernel

end Avery.Io
