import Avery.Graphics.Framebuffer

/-!
# Pixels

The pixels of the screen have words of their own (`Framebuffer.index_injective`).  A word
that is written back through its colour keeps the bits under the three masks, and so the
colour (`Framebuffer.unpack_recolor`).  Drawing a character keeps the pixels outside its cell
(`Framebuffer.drawCharacter_outside`).
-/

namespace Avery.Graphics

/-! ## A pixel's bits through its colour -/

namespace ChannelMask

variable (mask : ChannelMask) (raw : BitVec 32) (k : Nat)

theorem getLsbD_extract :
    (mask.extract raw).getLsbD k = (decide (k < mask.size) && raw.getLsbD (mask.shift + k)) := by
  have hsize := mask.size_le
  have hone : ((1 : BitVec 32) <<< mask.size) - 1 = BitVec.ofNat 32 (2 ^ mask.size - 1) := by
    have hall : ∀ n ≤ 8, ((1 : BitVec 32) <<< n) - 1 = BitVec.ofNat 32 (2 ^ n - 1) := by decide
    exact hall _ hsize
  rw [extract, hone, BitVec.getLsbD_and, BitVec.getLsbD_ushiftRight, BitVec.getLsbD_ofNat,
    Nat.testBit_two_pow_sub_one, Bool.and_comm]
  by_cases hk : k < mask.size
  · simp [hk, show k < 32 by omega]
  · simp [hk]

theorem toNat_extract_lt : (mask.extract raw).toNat < 2 ^ mask.size := by
  apply Nat.lt_pow_two_of_testBit
  intro k hk
  have hbit := mask.getLsbD_extract raw k
  rw [decide_eq_false (by omega), Bool.false_and] at hbit
  exact hbit

/-- Expanding a value to eight bits loses nothing: its leading bits are the value. -/
theorem shrink_expandTo8Bit :
    ∀ size ≤ 8, ∀ v < 2 ^ size,
      (expandTo8Bit (BitVec.ofNat 32 v) size).setWidth 32 >>> (8 - size) = BitVec.ofNat 32 v := by
  decide +kernel

theorem pack_unpack : mask.pack (mask.unpack raw) = mask.extract raw <<< mask.shift := by
  have hshrink := shrink_expandTo8Bit mask.size mask.size_le (mask.extract raw).toNat
    (mask.toNat_extract_lt raw)
  rw [BitVec.ofNat_toNat, BitVec.setWidth_eq] at hshrink
  rw [pack, unpack, Int32.toBitVec_ofBitVec, hshrink]

/-- The bits that a mask covers. -/
def Covers : Prop := mask.shift ≤ k ∧ k < mask.shift + mask.size

instance : Decidable (mask.Covers k) := inferInstanceAs (Decidable (_ ∧ _))

theorem getLsbD_pack_unpack :
    (mask.pack (mask.unpack raw)).getLsbD k = (decide (mask.Covers k) && raw.getLsbD k) := by
  rw [pack_unpack, BitVec.getLsbD_shiftLeft, getLsbD_extract]
  by_cases hk : k < 32
  · by_cases hlow : mask.shift ≤ k
    · have hsum : mask.shift + (k - mask.shift) = k := by omega
      have hcovers : mask.Covers k ↔ k - mask.shift < mask.size := by
        unfold Covers
        omega
      simp [hk, hsum, hcovers, Nat.not_lt.mpr hlow]
    · have hcovers : ¬ mask.Covers k := fun h => hlow h.1
      simp [hcovers, Nat.lt_of_not_le hlow]
  · simp [hk, BitVec.getLsbD_of_ge _ _ (Nat.le_of_not_lt hk)]

/-- A word that keeps the bits under a mask keeps the channel. -/
theorem unpack_congr {raw raw' : BitVec 32}
    (h : ∀ k, mask.Covers k → raw'.getLsbD k = raw.getLsbD k) :
    mask.unpack raw' = mask.unpack raw := by
  have hextract : mask.extract raw' = mask.extract raw := by
    ext k hk
    rw [← BitVec.getLsbD_eq_getElem, ← BitVec.getLsbD_eq_getElem, getLsbD_extract, getLsbD_extract]
    by_cases hsize : k < mask.size
    · rw [h _ ⟨Nat.le_add_right _ _, Nat.add_lt_add_left hsize _⟩]
    · simp [hsize]
  rw [unpack, hextract, unpack]

end ChannelMask

namespace Framebuffer

variable (fb : Framebuffer)

/-- The word that is written for the colour of a word. -/
def recolor (raw : BitVec 32) : BitVec 32 := fb.pack (fb.unpack raw)

theorem getLsbD_recolor (raw : BitVec 32) (k : Nat) :
    (fb.recolor raw).getLsbD k =
      (decide (fb.red.Covers k ∨ fb.green.Covers k ∨ fb.blue.Covers k) && raw.getLsbD k) := by
  rw [recolor, pack, unpack, BitVec.getLsbD_or, BitVec.getLsbD_or,
    ChannelMask.getLsbD_pack_unpack, ChannelMask.getLsbD_pack_unpack,
    ChannelMask.getLsbD_pack_unpack, Bool.decide_or, Bool.decide_or, Bool.and_or_distrib_right,
    Bool.and_or_distrib_right, Bool.or_assoc]

/-- The masks need not be disjoint: where two of them overlap, both channels write back
the bit that they have read. -/
@[simp] theorem unpack_recolor (raw : BitVec 32) : fb.unpack (fb.recolor raw) = fb.unpack raw := by
  have hchannel (mask : ChannelMask)
      (hmask : ∀ k, mask.Covers k → fb.red.Covers k ∨ fb.green.Covers k ∨ fb.blue.Covers k) :
      mask.unpack (fb.recolor raw) = mask.unpack raw := by
    apply mask.unpack_congr
    intro k hk
    rw [getLsbD_recolor, decide_eq_true (hmask k hk), Bool.true_and]
  rw [unpack, unpack, hchannel fb.red fun k => .inl, hchannel fb.green fun k => .inr ∘ .inl,
    hchannel fb.blue fun k => .inr ∘ .inr]

/-! ## The words of the pixels -/

def OnScreen (p : Nat × Nat) : Prop := p.1 < fb.width ∧ p.2 < fb.height

instance (p : Nat × Nat) : Decidable (fb.OnScreen p) := inferInstanceAs (Decidable (_ ∧ _))

variable {fb} {p q : Nat × Nat} {screen : Screen} {color : Color}

theorem width_le (hbpp : fb.bpp = 32) : fb.width ≤ fb.pitch / 4 := by
  have hrow := fb.row_fits
  rw [hbpp] at hrow
  omega

theorem index_eq (hbpp : fb.bpp = 32) (hp : fb.OnScreen p) :
    fb.index p = p.2 * (fb.pitch / 4) + p.1 := by
  have hwidth := width_le hbpp
  have hmemory := fb.memory_fits
  have hrows : (p.2 + 1) * (fb.pitch / 4) ≤ fb.height * (fb.pitch / 4) :=
    Nat.mul_le_mul_right _ hp.2
  have hwords : fb.height * (fb.pitch / 4) ≤ fb.pitch * fb.height := by
    rw [Nat.mul_comm]
    exact Nat.mul_le_mul_right _ (Nat.div_le_self _ _)
  have hx := hp.1
  rw [Nat.add_mul, Nat.one_mul] at hrows
  rw [index, mul64, Words.mul_eq (by omega), add64, Words.add_eq (by omega)]

theorem index_injective (hbpp : fb.bpp = 32) (hp : fb.OnScreen p) (hq : fb.OnScreen q)
    (h : fb.index p = fb.index q) : p = q := by
  have hpw : p.1 < fb.pitch / 4 := Nat.lt_of_lt_of_le hp.1 (width_le hbpp)
  have hqw : q.1 < fb.pitch / 4 := Nat.lt_of_lt_of_le hq.1 (width_le hbpp)
  rw [index_eq hbpp hp, index_eq hbpp hq, Nat.mul_comm, Nat.mul_comm q.2] at h
  have hx := congrArg (· % (fb.pitch / 4)) h
  have hy := congrArg (· / (fb.pitch / 4)) h
  simp only [Nat.mul_add_mod, Nat.mod_eq_of_lt hpw, Nat.mod_eq_of_lt hqw] at hx
  simp only [Nat.mul_add_div (Nat.zero_lt_of_lt hpw), Nat.div_eq_of_lt hpw,
    Nat.div_eq_of_lt hqw] at hy
  exact Prod.ext hx hy

theorem setColor_eq (hbpp : fb.bpp = 32) (hp : fb.OnScreen p) :
    fb.setColor screen p color = Function.update screen (fb.index p) (fb.pack color) := by
  rw [setColor, if_neg (by simpa [not_or, OnScreen] using hp), if_neg (by simpa using hbpp)]

theorem getColor_eq (hbpp : fb.bpp = 32) (hp : fb.OnScreen p) :
    fb.getColor screen p = fb.unpack (screen (fb.index p)) := by
  rw [getColor, if_neg (by simpa [not_or, OnScreen] using hp), if_neg (by simpa using hbpp)]

/-! ## What a character leaves alone -/

theorem setColor_of_ne (hp : fb.OnScreen p) (hne : q ≠ p) :
    fb.setColor screen q color (fb.index p) = screen (fb.index p) := by
  unfold setColor
  split
  · rfl
  split
  · rfl
  · next hscreen hbpp =>
    have hq : fb.OnScreen q := by simpa [not_or, OnScreen] using hscreen
    have hindex : fb.index p ≠ fb.index q := fun h =>
      hne (index_injective (by simpa using hbpp) hq hp h.symm)
    exact Function.update_of_ne hindex _ _

/-- A loop keeps a word that its body keeps. -/
theorem forRange_keeps {start stop word : Nat} {body : Nat → Screen → Screen}
    (hbody : ∀ x, x < stop → ∀ screen, body x screen word = screen word) (screen : Screen) :
    forRange start stop body screen word = screen word := by
  unfold forRange
  refine List.foldlRecOn (motive := fun drawn : Screen => drawn word = screen word) _ _ rfl ?_
  intro drawn hdrawn x hx
  rw [List.mem_range'_1] at hx
  rw [hbody x (by omega), hdrawn]

theorem scaled_add_lt {n count scale k : Nat} (hn : n < count) (hk : k < scale) :
    n * scale + k < count * scale := by
  calc n * scale + k
      < n * scale + scale := Nat.add_lt_add_left hk _
    _ = (n + 1) * scale := (Nat.succ_mul n scale).symm
    _ ≤ count * scale := Nat.mul_le_mul_right scale hn

theorem drawCharacter_outside {corner : Nat × Nat} {fg bg : Color} {c : UInt8} {scaleBy : Rat}
    (hfits : corner.1 + FONT_WIDTH * fontScale scaleBy ≤ fb.width ∧
      corner.2 + FONT_HEIGHT * fontScale scaleBy ≤ fb.height)
    (hp : fb.OnScreen p)
    (houtside : ¬ ((corner.1 ≤ p.1 ∧ p.1 < corner.1 + FONT_WIDTH * fontScale scaleBy) ∧
      corner.2 ≤ p.2 ∧ p.2 < corner.2 + FONT_HEIGHT * fontScale scaleBy)) :
    fb.drawCharacter screen corner fg bg c scaleBy (fb.index p) = screen (fb.index p) := by
  have hwidth := fb.width_lt
  have hheight := fb.height_lt
  unfold drawCharacter
  refine forRange_keeps (fun row hrow => ?_) screen
  refine forRange_keeps fun col hcol => ?_
  refine forRange_keeps fun sy hsy => ?_
  refine forRange_keeps fun sx hsx drawn => ?_
  -- no sum or product leaves 64 bits, since the whole cell is on the screen
  have hcolumn := scaled_add_lt hcol hsx
  have hline := scaled_add_lt hrow hsy
  have hx : add64 (add64 corner.1 (mul64 col (fontScale scaleBy))) sx =
      corner.1 + (col * fontScale scaleBy + sx) := by
    unfold add64 mul64
    rw [Words.mul_eq (by omega), Words.add_eq (a := corner.1) (by omega),
      Words.add_eq (by omega), Nat.add_assoc]
  have hy : add64 (add64 corner.2 (mul64 row (fontScale scaleBy))) sy =
      corner.2 + (row * fontScale scaleBy + sy) := by
    unfold add64 mul64
    rw [Words.mul_eq (by omega), Words.add_eq (a := corner.2) (by omega),
      Words.add_eq (by omega), Nat.add_assoc]
  apply setColor_of_ne hp
  rintro rfl
  rw [hx, hy] at houtside
  exact houtside ⟨⟨Nat.le_add_right _ _, Nat.add_lt_add_left hcolumn _⟩,
    Nat.le_add_right _ _, Nat.add_lt_add_left hline _⟩

end Framebuffer

end Avery.Graphics
