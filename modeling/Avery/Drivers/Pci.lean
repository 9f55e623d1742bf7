import Avery.Library.Registers

/-!
# PCI configuration space and base address registers

`pci.cpp`: the configuration space is reached through two ports, one for the address of
a register and one for its value.  `readBAR` finds the size of a region by writing all
ones to its base address register and reading the register again.  It writes the old
value back, so the configuration space is as before (`readBAR_space`).  What it returns
is a function of the register and, for a 64-bit region, of the next one (`barOf`).
-/

namespace Avery.Pci

open Registers

/-! ## Configuration space -/

def ConfigAddress : BitVec 16 := 0xCF8
def ConfigData : BitVec 16 := 0xCFC

/-- The address port holds what was written to it last. -/
structure Ports where
  latch : BitVec 32
  space : BitVec 32 → Register 32

namespace io

def outl (port : BitVec 16) (value : BitVec 32) : StateM Ports Unit :=
  modify fun m =>
    if port = ConfigAddress then { m with latch := value }
    else if port = ConfigData then
      { m with space := Function.update m.space m.latch ((m.space m.latch).write value) }
    else m

def inl (port : BitVec 16) : StateM Ports (BitVec 32) := do
  let m ← get
  return if port = ConfigData then (m.space m.latch).value else m.latch

end io

/-- Where a device is. -/
structure Location where
  bus : BitVec 8
  slot : BitVec 8
  function : BitVec 8

def configAddress (l : Location) (offset : BitVec 8) : BitVec 32 :=
  1#32 <<< 31 ||| l.bus.setWidth 32 <<< 16 ||| l.slot.setWidth 32 <<< 11
    ||| l.function.setWidth 32 <<< 8 ||| (offset.setWidth 32 &&& 0xFC#32)

def read32 (l : Location) (offset : BitVec 8) : StateM Ports (BitVec 32) := do
  io.outl ConfigAddress (configAddress l offset)
  io.inl ConfigData

def read16 (l : Location) (offset : BitVec 8) : StateM Ports (BitVec 16) := do
  let value ← read32 l offset
  return (value >>> ((offset &&& 2#8).toNat * 8) &&& 0xFFFF#32).setWidth 16

def read8 (l : Location) (offset : BitVec 8) : StateM Ports (BitVec 8) := do
  let value ← read32 l offset
  return (value >>> ((offset &&& 3#8).toNat * 8) &&& 0xFF#32).setWidth 8

def write32 (l : Location) (offset : BitVec 8) (value : BitVec 32) : StateM Ports Unit := do
  io.outl ConfigAddress (configAddress l offset)
  io.outl ConfigData value

def write16 (l : Location) (offset : BitVec 8) (value : BitVec 16) : StateM Ports Unit := do
  let old ← read32 l (offset &&& 0xFC#8)
  let shift := (offset &&& 2#8).toNat * 8
  write32 l (offset &&& 0xFC#8) (old &&& ~~~(0xFFFF#32 <<< shift) ||| value.setWidth 32 <<< shift)

/-! ## Base address registers -/

inductive PCIBarType where
  | none
  | io
  | mmio32
  | mmio64
deriving DecidableEq

structure PCIBar where
  type : PCIBarType
  address : BitVec 64
  size : BitVec 64
  prefetchable : Bool
deriving DecidableEq

def PCIBar.none : PCIBar := ⟨.none, 0, 0, false⟩

def readBAR (l : Location) (index : BitVec 8) : StateM Ports PCIBar := do
  if 6#8 ≤ index then return PCIBar.none
  let offset := 0x10#8 + index * 4#8
  let original ← read32 l offset
  if original = 0#32 then return PCIBar.none
  write32 l offset 0xFFFFFFFF#32
  let sizeMask ← read32 l offset
  write32 l offset original
  if original &&& 1#32 ≠ 0#32 then
    return { type := .io
             address := original.setWidth 64 &&& ~~~3#64
             size := (~~~(sizeMask &&& ~~~3#32) + 1#32).setWidth 64
             prefetchable := false }
  let memoryType := original >>> 1 &&& 3#32
  let prefetchable := decide (original &&& 8#32 ≠ 0#32)
  if memoryType = 0#32 then
    return { type := .mmio32
             address := original.setWidth 64 &&& ~~~0xF#64
             size := (~~~(sizeMask &&& ~~~0xF#32) + 1#32).setWidth 64
             prefetchable := prefetchable }
  if memoryType = 2#32 then
    let originalHigh ← read32 l (offset + 4#8)
    write32 l (offset + 4#8) 0xFFFFFFFF#32
    let sizeMaskHigh ← read32 l (offset + 4#8)
    write32 l (offset + 4#8) originalHigh
    let fullMask := sizeMaskHigh.setWidth 64 <<< 32 ||| (sizeMask &&& ~~~0xF#32).setWidth 64
    return { type := .mmio64
             address := originalHigh.setWidth 64 <<< 32 ||| (original.setWidth 64 &&& ~~~0xF#64)
             size := ~~~fullMask + 1#64
             prefetchable := prefetchable }
  return PCIBar.none

/-! ## One access -/

/-- The register at an offset. -/
def Ports.register (m : Ports) (l : Location) (offset : BitVec 8) : Register 32 :=
  m.space (configAddress l offset)

/-- The ports with another register at an offset. -/
def Ports.withRegister (m : Ports) (l : Location) (offset : BitVec 8) (r : Register 32) : Ports :=
  ⟨configAddress l offset, Function.update m.space (configAddress l offset) r⟩

theorem bind_run {α β : Type} {x : StateM Ports α} {m m' : Ports} {a : α}
    (h : x.run m = (a, m')) (f : α → StateM Ports β) : (x >>= f).run m = (f a).run m' := by
  rw [StateT.run_bind, h]
  rfl

theorem read32_run (l : Location) (offset : BitVec 8) (m : Ports) :
    (read32 l offset).run m =
      ((m.register l offset).value, { m with latch := configAddress l offset }) := rfl

theorem write32_run (l : Location) (offset : BitVec 8) (value : BitVec 32) (m : Ports) :
    (write32 l offset value).run m =
      ((), m.withRegister l offset ((m.register l offset).write value)) := rfl

/-- A half word is written back together with the other half of its register. -/
theorem write16_run (l : Location) (offset : BitVec 8) (value : BitVec 16) (m : Ports) :
    ∃ v, (write16 l offset value).run m =
      ((), m.withRegister l (offset &&& 0xFC#8) ((m.register l (offset &&& 0xFC#8)).write v)) := by
  unfold write16
  rw [bind_run (read32_run ..), write32_run]
  exact ⟨_, rfl⟩

@[simp] theorem register_withRegister (m : Ports) (l : Location) (offset : BitVec 8)
    (r : Register 32) : (m.withRegister l offset r).register l offset = r :=
  Function.update_self ..

@[simp] theorem withRegister_withRegister (m : Ports) (l : Location) (offset : BitVec 8)
    (r r' : Register 32) :
    (m.withRegister l offset r).withRegister l offset r' = m.withRegister l offset r' := by
  simp [Ports.withRegister]

/-- A register is sized: all ones are written to it, it is read, and the old value is
written back. -/
theorem sizing_run {α : Type} (l : Location) (offset : BitVec 8) (m : Ports)
    (f : BitVec 32 → StateM Ports α) :
    (do
      write32 l offset 0xFFFFFFFF#32
      let sizeMask ← read32 l offset
      write32 l offset (m.register l offset).value
      f sizeMask).run m =
    (f (m.register l offset).sized).run { m with latch := configAddress l offset } := by
  have hback : m.withRegister l offset (((m.register l offset).write 0xFFFFFFFF#32).write
      (m.register l offset).value) = { m with latch := configAddress l offset } := by
    rw [Register.write_back]
    simp only [Ports.withRegister, Ports.register, Function.update_eq_self]
  rw [bind_run (write32_run ..), bind_run (read32_run ..), bind_run (write32_run ..)]
  simp only [register_withRegister]
  rw [← hback]
  simp only [Ports.register, Ports.withRegister, Function.update_self, Function.update_idem]
  rfl

/-- The address of a register keeps the word of its offset. -/
theorem configAddress_word (l : Location) (offset : BitVec 8) :
    (configAddress l offset).setWidth 8 &&& 0xFC#8 = offset &&& 0xFC#8 := by
  unfold configAddress
  ext i hi
  simp

/-- Registers at offsets of different words have different addresses, also those of
different functions. -/
theorem configAddress_ne {l l' : Location} {offset offset' : BitVec 8}
    (h : offset &&& 0xFC#8 ≠ offset' &&& 0xFC#8) :
    configAddress l offset ≠ configAddress l' offset' := by
  intro heq
  refine h ?_
  rw [← configAddress_word l offset, heq, configAddress_word]

theorem register_withRegister_of_ne (m : Ports) {l l' : Location} {offset offset' : BitVec 8}
    (h : offset &&& 0xFC#8 ≠ offset' &&& 0xFC#8) (r : Register 32) :
    (m.withRegister l' offset' r).register l offset = m.register l offset := by
  have hne : configAddress l offset ≠ configAddress l' offset' := configAddress_ne h
  simp only [Ports.register, Ports.withRegister]
  rw [Function.update_of_ne hne]

/-! ## What `readBAR` returns -/

/-- The base address register and the register behind it, which holds the upper half of a
64-bit address. -/
def barOf (low high : Register 32) : PCIBar :=
  if low.value = 0#32 then PCIBar.none
  else if low.value &&& 1#32 ≠ 0#32 then
    { type := .io
      address := low.value.setWidth 64 &&& ~~~3#64
      size := (~~~(low.sized &&& ~~~3#32) + 1#32).setWidth 64
      prefetchable := false }
  else if low.value >>> 1 &&& 3#32 = 0#32 then
    { type := .mmio32
      address := low.value.setWidth 64 &&& ~~~0xF#64
      size := (~~~(low.sized &&& ~~~0xF#32) + 1#32).setWidth 64
      prefetchable := decide (low.value &&& 8#32 ≠ 0#32) }
  else if low.value >>> 1 &&& 3#32 = 2#32 then
    { type := .mmio64
      address := high.value.setWidth 64 <<< 32 ||| (low.value.setWidth 64 &&& ~~~0xF#64)
      size := ~~~(high.sized.setWidth 64 <<< 32 ||| (low.sized &&& ~~~0xF#32).setWidth 64) + 1#64
      prefetchable := decide (low.value &&& 8#32 ≠ 0#32) }
  else PCIBar.none

def barOffset (index : BitVec 8) : BitVec 8 := 0x10#8 + index * 4#8

theorem readBAR_run (l : Location) {index : BitVec 8} (h : index < 6#8) (m : Ports) :
    ∃ latch, (readBAR l index).run m =
      (barOf (m.register l (barOffset index)) (m.register l (barOffset index + 4#8)),
        { m with latch := latch }) := by
  unfold readBAR barOf
  rw [if_neg (by simpa using h), bind_run (read32_run ..),
    show 0x10#8 + index * 4#8 = barOffset index from rfl]
  by_cases hzero : (m.register l (barOffset index)).value = 0#32
  · rw [if_pos hzero, if_pos hzero]
    exact ⟨_, rfl⟩
  rw [if_neg hzero, if_neg hzero]
  by_cases hio : (m.register l (barOffset index)).value &&& 1#32 ≠ 0#32
  · rw [if_pos hio]
    refine ⟨configAddress l (barOffset index),
      (sizing_run l (barOffset index) ⟨_, m.space⟩ _).trans ?_⟩
    rw [if_pos hio]
    rfl
  rw [if_neg hio]
  by_cases h32 : (m.register l (barOffset index)).value >>> 1 &&& 3#32 = 0#32
  · rw [if_pos h32]
    refine ⟨configAddress l (barOffset index),
      (sizing_run l (barOffset index) ⟨_, m.space⟩ _).trans ?_⟩
    rw [if_neg hio, if_pos h32]
    rfl
  rw [if_neg h32]
  by_cases h64 : (m.register l (barOffset index)).value >>> 1 &&& 3#32 = 2#32
  · rw [if_pos h64]
    refine ⟨configAddress l (barOffset index + 4#8),
      (sizing_run l (barOffset index) ⟨_, m.space⟩ _).trans ?_⟩
    rw [if_neg hio, if_neg h32, if_pos h64, bind_run (read32_run ..)]
    exact sizing_run l (barOffset index + 4#8) ⟨_, m.space⟩ _
  · rw [if_neg h64]
    refine ⟨configAddress l (barOffset index),
      (sizing_run l (barOffset index) ⟨_, m.space⟩ _).trans ?_⟩
    rw [if_neg hio, if_neg h32, if_neg h64]
    rfl

/-! ## Memory regions -/

/-- The read-only bits of a memory base address register: the type and the prefetch bit. -/
def memoryFlags (type : BitVec 32) (prefetchable : Bool) : BitVec 32 :=
  type <<< 1 ||| if prefetchable then 8#32 else 0#32

/-- The register of a region of `2 ^ k` bytes with a 32-bit address. -/
def mmio32 (k : Nat) (base : BitVec 32) (prefetchable : Bool) : Register 32 :=
  ⟨base ||| memoryFlags 0#32 prefetchable, decoder 32 k⟩

/-- The registers of a region of `2 ^ k` bytes with a 64-bit address. -/
def mmio64 (k : Nat) (base : BitVec 64) (prefetchable : Bool) : Register 32 :=
  ⟨base.setWidth 32 ||| memoryFlags 2#32 prefetchable, (decoder 64 k).setWidth 32⟩

theorem mmio32_value (k : Nat) (base : BitVec 32) (prefetchable : Bool) :
    (mmio32 k base prefetchable).value = base ||| memoryFlags 0#32 prefetchable := rfl

theorem mmio64_value (k : Nat) (base : BitVec 64) (prefetchable : Bool) :
    (mmio64 k base prefetchable).value = base.setWidth 32 ||| memoryFlags 2#32 prefetchable := rfl

def mmio64High (k : Nat) (base : BitVec 64) : Register 32 :=
  ⟨(base >>> 32).setWidth 32, (decoder 64 k >>> 32).setWidth 32⟩

theorem not_fifteen (w : Nat) (h : w = 32 ∨ w = 64) : ~~~15#w = decoder w 4 := by
  rcases h with rfl | rfl <;> decide

/-- What the code reads off the type bits. -/
theorem memoryFlags_eq {value base type : BitVec 32} {prefetchable : Bool} (hbase : Aligned 4 base)
    (htype : type = 0#32 ∨ type = 2#32) (hvalue : value = base ||| memoryFlags type prefetchable) :
    value &&& 1#32 = 0#32 ∧ value >>> 1 &&& 3#32 = type ∧
      decide (value &&& 8#32 ≠ 0#32) = prefetchable ∧ value &&& ~~~15#32 = base ∧
      value.setWidth 64 &&& ~~~15#64 = base.setWidth 64 := by
  have hflags : memoryFlags type prefetchable &&& decoder 32 4 = 0#32 ∧
      (memoryFlags type prefetchable).setWidth 64 &&& decoder 64 4 = 0#64 := by
    rcases htype with rfl | rfl <;> cases prefetchable <;> decide
  have hlow : value &&& ~~~decoder 32 4 = memoryFlags type prefetchable := by
    rw [hvalue]
    exact hbase.or_and_not_decoder hflags.1
  have hbit : ∀ (n : Nat) (m : BitVec 32), ~~~decoder 32 4 >>> n &&& m = m →
      value >>> n &&& m = memoryFlags type prefetchable >>> n &&& m := by
    intro n m hm
    rw [← hlow, BitVec.ushiftRight_and_distrib, BitVec.and_assoc, hm]
  have h1 : value &&& 1#32 = memoryFlags type prefetchable &&& 1#32 := hbit 0 1 (by decide)
  have h3 : value >>> 1 &&& 3#32 = memoryFlags type prefetchable >>> 1 &&& 3#32 :=
    hbit 1 3 (by decide)
  have h8 : value &&& 8#32 = memoryFlags type prefetchable &&& 8#32 := hbit 0 8 (by decide)
  rw [h1, h3, h8, not_fifteen 32 (.inl rfl), not_fifteen 64 (.inr rfl), hvalue, BitVec.setWidth_or,
    hbase.or_and_decoder hflags.1]
  refine ⟨?_, ?_, ?_, rfl, hbase.setWidth.or_and_decoder hflags.2⟩
  · rcases htype with rfl | rfl <;> cases prefetchable <;> decide
  · rcases htype with rfl | rfl <;> cases prefetchable <;> decide
  · rcases htype with rfl | rfl <;> cases prefetchable <;> decide

theorem sized_and (k : Nat) {base flags : BitVec 32} (hk : 4 ≤ k) (hbase : Aligned k base)
    (hflags : flags &&& decoder 32 4 = 0#32) :
    (Register.mk (base ||| flags) (decoder 32 k)).sized &&& decoder 32 4 = decoder 32 k := by
  rw [Register.sized_eq, BitVec.or_assoc, BitVec.or_comm flags, ← BitVec.or_assoc, hbase.or_decoder]
  exact ((aligned_decoder 32 k).mono hk).or_and_decoder hflags

theorem memoryFlags_low (type : BitVec 32) (prefetchable : Bool) (h : type = 0#32 ∨ type = 2#32) :
    memoryFlags type prefetchable &&& decoder 32 4 = 0#32 := by
  rcases h with rfl | rfl <;> cases prefetchable <;> decide

theorem barOf_mmio32 {k : Nat} {base : BitVec 32} {prefetchable : Bool} (hk : 4 ≤ k) (hk' : k < 32)
    (hbase : Aligned k base) (hvalue : base ≠ 0#32 ∨ prefetchable = true) (high : Register 32) :
    barOf (mmio32 k base prefetchable) high =
      ⟨.mmio32, base.setWidth 64, BitVec.twoPow 64 k, prefetchable⟩ := by
  obtain ⟨hio, htype, hprefetch, hlow, haddress⟩ :=
    memoryFlags_eq (hbase.mono hk) (.inl rfl) (mmio32_value k base prefetchable)
  have hsize : ~~~((mmio32 k base prefetchable).sized &&& ~~~15#32) + 1#32 = BitVec.twoPow 32 k := by
    rw [not_fifteen 32 (.inl rfl), mmio32, sized_and k hk hbase (memoryFlags_low _ _ (.inl rfl)),
      not_decoder_add_one]
  have hnonzero : (mmio32 k base prefetchable).value ≠ 0#32 := by
    intro hzero
    rw [hzero, BitVec.zero_and] at hlow
    rw [hzero] at hprefetch
    exact hvalue.elim (fun h => h hlow.symm) fun h => by simp [h] at hprefetch
  unfold barOf
  rw [if_neg hnonzero, if_neg (not_not.mpr hio), if_pos htype, hsize,
    setWidth_twoPow hk' (by decide)]
  exact congrArg₂ (fun a p => PCIBar.mk .mmio32 a (BitVec.twoPow 64 k) p) haddress hprefetch

theorem sized_mmio64High {k : Nat} {base : BitVec 64} (hbase : Aligned k base) :
    (mmio64High k base).sized = (decoder 64 k >>> 32).setWidth 32 := by
  rw [Register.sized_eq, mmio64High, ← BitVec.setWidth_or, ← BitVec.ushiftRight_or_distrib,
    hbase.or_decoder]

theorem barOf_mmio64 {k : Nat} {base : BitVec 64} {prefetchable : Bool} (hk : 4 ≤ k)
    (hbase : Aligned k base) :
    barOf (mmio64 k base prefetchable) (mmio64High k base) =
      ⟨.mmio64, base, BitVec.twoPow 64 k, prefetchable⟩ := by
  have hbase32 : Aligned k (base.setWidth 32) := hbase.setWidth
  obtain ⟨hio, htype, hprefetch, hlow, haddress⟩ :=
    memoryFlags_eq (hbase32.mono hk) (.inr rfl) (mmio64_value k base prefetchable)
  have hmask : (mmio64High k base).sized.setWidth 64 <<< 32 |||
      ((mmio64 k base prefetchable).sized &&& ~~~15#32).setWidth 64 = decoder 64 k := by
    rw [sized_mmio64High hbase, not_fifteen 32 (.inl rfl), mmio64, setWidth_decoder (by decide),
      sized_and k hk hbase32 (memoryFlags_low _ _ (.inr rfl)), show decoder 32 k = (decoder 64 k).setWidth 32 from (setWidth_decoder (by decide) k).symm]
    exact join_halves _
  have hnonzero : (mmio64 k base prefetchable).value ≠ 0#32 := by
    intro hzero
    rw [hzero] at htype
    exact absurd htype (by decide)
  have hnot32 : ¬ (mmio64 k base prefetchable).value >>> 1 &&& 3#32 = 0#32 := by
    intro hzero
    exact absurd (htype.symm.trans hzero) (by decide)
  unfold barOf
  rw [if_neg hnonzero, if_neg (not_not.mpr hio), if_neg hnot32, if_pos htype, hmask,
    not_decoder_add_one]
  refine congrArg₂ (fun a p => PCIBar.mk .mmio64 a (BitVec.twoPow 64 k) p) ?_ hprefetch
  rw [haddress]
  exact join_halves base

/-- A memory region at a base address register, and what should be reported of it. -/
inductive MemoryBAR (m : Ports) (l : Location) : BitVec 8 → PCIBar → Prop where
  | mmio32 {index : BitVec 8} {k : Nat} {base : BitVec 32} {prefetchable : Bool} :
      index < 6#8 → 4 ≤ k → k ≤ 31 → Aligned k base → base ≠ 0#32 →
      m.register l (barOffset index) = Pci.mmio32 k base prefetchable →
      MemoryBAR m l index ⟨.mmio32, base.setWidth 64, BitVec.twoPow 64 k, prefetchable⟩
  | mmio64 {index : BitVec 8} {k : Nat} {base : BitVec 64} {prefetchable : Bool} :
      index < 5#8 → 4 ≤ k → k ≤ 63 → Aligned k base →
      m.register l (barOffset index) = Pci.mmio64 k base prefetchable →
      m.register l (barOffset (index + 1)) = mmio64High k base →
      MemoryBAR m l index ⟨.mmio64, base, BitVec.twoPow 64 k, prefetchable⟩

/-- Sizing a memory region is exact, and the configuration space is as before. -/
theorem readBAR_exact {m : Ports} {l : Location} {index : BitVec 8} {bar : PCIBar}
    (h : MemoryBAR m l index bar) :
    ((readBAR l index).run m).1 = bar ∧ ((readBAR l index).run m).2.space = m.space := by
  cases h with
  | mmio32 hindex hk hk' hbase hnonzero hlow =>
      obtain ⟨latch, hrun⟩ := readBAR_run l hindex m
      rw [hrun, hlow, barOf_mmio32 hk (Nat.lt_succ_of_le hk') hbase (.inl hnonzero)]
      exact ⟨rfl, rfl⟩
  | mmio64 hindex hk hk' hbase hlow hhigh =>
      have hlt : index < 6#8 := Nat.lt_succ_of_lt hindex
      have hoffset : barOffset (index + 1) = barOffset index + 4#8 := by
        unfold barOffset
        bv_omega
      obtain ⟨latch, hrun⟩ := readBAR_run l hlt m
      rw [hoffset] at hhigh
      rw [hrun, hlow, hhigh, barOf_mmio64 hk hbase]
      exact ⟨rfl, rfl⟩

/-- A region of 8 GiB above 16 GiB in the first two registers. -/
def wideRegion : Ports :=
  ⟨0, fun address =>
    if address = configAddress ⟨0, 3, 0⟩ 0x14 then mmio64High 33 0x600000000
    else mmio64 33 0x600000000 true⟩

theorem readBAR_exact_wideRegion :
    ((readBAR ⟨0, 3, 0⟩ 0).run wideRegion).1 =
        ⟨.mmio64, 0x600000000, BitVec.twoPow 64 33, true⟩ ∧
      ((readBAR ⟨0, 3, 0⟩ 0).run wideRegion).2.space = wideRegion.space :=
  readBAR_exact (.mmio64 (by decide) (by decide) (by decide) (by decide) (by decide) (by decide))

end Avery.Pci
