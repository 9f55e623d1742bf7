import Avery.Drivers.Pci

/-!
# The base address registers of a device

The constructor of `PCIDevice` (`pci.cpp`) sizes the six base address registers one by
one.  A region with a 64-bit address takes two of them, and the constructor sizes the
second one like the others.

A `Layout` says what the last registers of a device are.  `Reported` is the purpose of
the constructor: one report for each region, at its first register.  It holds for a layout
iff the layout is `Clear` (`bars_reported_iff`).
-/

namespace Avery.Pci

open Registers

/-! ## The constructor -/

structure PCIDevice where
  location : Location
  pciVendorID : BitVec 16
  pciDeviceID : BitVec 16
  pciRevisionID : BitVec 8
  pciProgIF : BitVec 8
  pciSubClass : BitVec 8
  pciClassCode : BitVec 8
  pciInterruptLine : BitVec 8
  pciInterruptPin : BitVec 8
  bars : List PCIBar

/-- The loop of the constructor from register `i` on, for `n` registers. -/
def readBARs (l : Location) (i : Nat) : Nat → StateM Ports (List PCIBar)
  | 0 => return []
  | n + 1 => do
      let bar ← readBAR l (BitVec.ofNat 8 i)
      let bars ← readBARs l (i + 1) n
      return bar :: bars

def PCIDevice.create (l : Location) : StateM Ports PCIDevice := do
  let vendorID ← read16 l 0x00
  let deviceID ← read16 l 0x02
  let revisionID ← read8 l 0x08
  let progIF ← read8 l 0x09
  let subClass ← read8 l 0x0A
  let classCode ← read8 l 0x0B
  let interruptLine ← read8 l 0x3C
  let interruptPin ← read8 l 0x3D
  let bars ← readBARs l 0 6
  return { location := l
           pciVendorID := vendorID
           pciDeviceID := deviceID
           pciRevisionID := revisionID
           pciProgIF := progIF
           pciSubClass := subClass
           pciClassCode := classCode
           pciInterruptLine := interruptLine
           pciInterruptPin := interruptPin
           bars := bars }

/-- The `n` base address registers from `i` on. -/
def Ports.barRegisters (m : Ports) (l : Location) (i n : Nat) : List (Register 32) :=
  (List.range' i n).map fun j => m.register l (barOffset (BitVec.ofNat 8 j))

/-- What is read of base address registers before the register `last`. -/
def barsOf (last : Register 32) : List (Register 32) → List PCIBar
  | [] => []
  | r :: rs => barOf r (rs.headD last) :: barsOf last rs

theorem readBARs_run (l : Location) {i n : Nat} (h : i + n = 6) (m : Ports) :
    ∃ latch, (readBARs l i n).run m =
      (barsOf (m.register l 0x28) (m.barRegisters l i n), { m with latch := latch }) := by
  induction n generalizing i m with
  | zero => exact ⟨m.latch, rfl⟩
  | succ n ih =>
      have hlt : BitVec.ofNat 8 i < 6#8 := by bv_omega
      have hnext : barOffset (BitVec.ofNat 8 i) + 4#8 = barOffset (BitVec.ofNat 8 (i + 1)) := by
        unfold barOffset
        bv_omega
      obtain ⟨latch, hfirst⟩ := readBAR_run l hlt m
      obtain ⟨latch', hrest⟩ := ih (i := i + 1) (by omega) { m with latch := latch }
      have hhead : (m.barRegisters l (i + 1) n).headD (m.register l 0x28) =
          m.register l (barOffset (BitVec.ofNat 8 i) + 4#8) := by
        rw [hnext]
        cases n with
        | zero =>
            obtain rfl : i = 5 := by omega
            rfl
        | succ n => rfl
      refine ⟨latch', ?_⟩
      rw [readBARs, bind_run hfirst, bind_run hrest]
      change (_ :: barsOf (m.register l 0x28) (m.barRegisters l (i + 1) n), _) = _
      rw [← hhead]
      rfl

/-- A computation that leaves the configuration space alone. -/
def Peeks {α : Type} (x : StateM Ports α) : Prop :=
  ∀ m : Ports, ∃ value latch, x.run m = (value, { m with latch := latch })

theorem read16_peeks (l : Location) (offset : BitVec 8) : Peeks (read16 l offset) := by
  intro m
  unfold read16
  rw [bind_run (read32_run ..), StateT.run_pure]
  exact ⟨_, _, rfl⟩

theorem read8_peeks (l : Location) (offset : BitVec 8) : Peeks (read8 l offset) := by
  intro m
  unfold read8
  rw [bind_run (read32_run ..), StateT.run_pure]
  exact ⟨_, _, rfl⟩

/-- The base address registers of a new device are sized after its other registers were
read. -/
theorem create_run (l : Location) (m : Ports) :
    ((PCIDevice.create l).run m).1.bars = barsOf (m.register l 0x28) (m.barRegisters l 0 6) ∧
      ((PCIDevice.create l).run m).2.space = m.space := by
  obtain ⟨vendorID, latch, h1⟩ := read16_peeks l 0x00 m
  obtain ⟨deviceID, latch, h2⟩ := read16_peeks l 0x02 { m with latch := latch }
  obtain ⟨revisionID, latch, h3⟩ := read8_peeks l 0x08 { m with latch := latch }
  obtain ⟨progIF, latch, h4⟩ := read8_peeks l 0x09 { m with latch := latch }
  obtain ⟨subClass, latch, h5⟩ := read8_peeks l 0x0A { m with latch := latch }
  obtain ⟨classCode, latch, h6⟩ := read8_peeks l 0x0B { m with latch := latch }
  obtain ⟨interruptLine, latch, h7⟩ := read8_peeks l 0x3C { m with latch := latch }
  obtain ⟨interruptPin, latch, h8⟩ := read8_peeks l 0x3D { m with latch := latch }
  obtain ⟨latch, h9⟩ := readBARs_run l (i := 0) (n := 6) rfl { m with latch := latch }
  unfold PCIDevice.create
  rw [bind_run h1, bind_run h2, bind_run h3, bind_run h4, bind_run h5, bind_run h6, bind_run h7,
    bind_run h8, bind_run h9]
  exact ⟨rfl, rfl⟩

/-! ## Layouts -/

/-- The base address registers of a device from some register on: the regions that they
describe.  A register without a region reads as zero whatever is written. -/
inductive Layout : Nat → Type where
  | done : Layout 0
  | unused {n : Nat} : Layout n → Layout (n + 1)
  /-- The writable bits of an I/O region are arbitrary. -/
  | io {n : Nat} (base writable : BitVec 32) :
      Aligned 2 base → Layout n → Layout (n + 1)
  | mmio32 {n : Nat} (k : Nat) (base : BitVec 32) (prefetchable : Bool) :
      4 ≤ k → k ≤ 31 → Aligned k base → Layout n → Layout (n + 1)
  | mmio64 {n : Nat} (k : Nat) (base : BitVec 64) (prefetchable : Bool) :
      4 ≤ k → k ≤ 63 → Aligned k base → Layout n → Layout (n + 2)

namespace Layout

def registers {n : Nat} : Layout n → List (Register 32)
  | done => []
  | unused rest => ⟨0, 0⟩ :: rest.registers
  | io base writable _ rest => ⟨base ||| 1#32, writable⟩ :: rest.registers
  | mmio32 k base prefetchable _ _ _ rest => Pci.mmio32 k base prefetchable :: rest.registers
  | mmio64 k base prefetchable _ _ _ rest =>
      Pci.mmio64 k base prefetchable :: mmio64High k base :: rest.registers

/-- Each region is reported once, at its first register, and nothing else is reported. -/
def Reported {n : Nat} : Layout n → List PCIBar → Prop
  | done, bars => bars = []
  | unused rest, bars => ∃ bar tail, bars = bar :: tail ∧ bar.type = .none ∧ rest.Reported tail
  | io base _ _ rest, bars =>
      ∃ bar tail, bars = bar :: tail ∧ rest.Reported tail ∧
        bar.type = .io ∧ bar.address = base.setWidth 64 ∧ bar.prefetchable = false
  | mmio32 k base prefetchable _ _ _ rest, bars =>
      ∃ tail, bars = ⟨.mmio32, base.setWidth 64, BitVec.twoPow 64 k, prefetchable⟩ :: tail ∧
        rest.Reported tail
  | mmio64 k base prefetchable _ _ _ rest, bars =>
      ∃ upper tail,
        bars = ⟨.mmio64, base, BitVec.twoPow 64 k, prefetchable⟩ :: upper :: tail ∧
          upper.type = .none ∧ rest.Reported tail

/-- The upper half of a 64-bit address is zero or 2 modulo 4, and a 32-bit register is not
zero. -/
def Clear {n : Nat} : Layout n → Prop
  | done => True
  | unused rest => rest.Clear
  | io _ _ _ rest => rest.Clear
  | mmio32 _ base prefetchable _ _ _ rest => (base ≠ 0#32 ∨ prefetchable = true) ∧ rest.Clear
  | mmio64 _ base _ _ _ _ rest =>
      ((base >>> 32).setWidth 32 = 0#32 ∨ (base >>> 32).setWidth 32 &&& 3#32 = 2#32) ∧ rest.Clear

end Layout

/-- A register is reported as no region only with these values. -/
theorem type_barOf_eq_none {low high : Register 32} :
    (barOf low high).type = .none ↔ low.value = 0#32 ∨ low.value &&& 3#32 = 2#32 := by
  have hand : ∀ m : BitVec 32, 7#32 &&& m = m → low.value &&& m = (low.value &&& 7#32) &&& m := by
    intro m hm
    rw [BitVec.and_assoc, hm]
  have hbits : (low.value &&& 3#32 = 2#32) ↔ low.value &&& 1#32 = 0#32 ∧
      low.value >>> 1 &&& 3#32 ≠ 0#32 ∧ low.value >>> 1 &&& 3#32 ≠ 2#32 := by
    have hshift : low.value >>> 1 &&& 3#32 = (low.value &&& 7#32) >>> 1 &&& 3#32 := by
      rw [BitVec.ushiftRight_and_distrib, BitVec.and_assoc]
      rfl
    rw [hand 1#32 (by decide), hand 3#32 (by decide), hshift]
    have hall : ∀ n : Fin 8, (BitVec.ofNat 32 n &&& 3#32 = 2#32) ↔
        BitVec.ofNat 32 n &&& 1#32 = 0#32 ∧ BitVec.ofNat 32 n >>> 1 &&& 3#32 ≠ 0#32 ∧
          BitVec.ofNat 32 n >>> 1 &&& 3#32 ≠ 2#32 := by decide
    have hlt : (low.value &&& 7#32).toNat < 8 := by
      rw [BitVec.toNat_and]
      exact Nat.lt_of_le_of_lt Nat.and_le_right (by decide)
    simpa using hall ⟨_, hlt⟩
  rw [hbits]
  unfold barOf
  split
  · next hzero => simp [PCIBar.none, hzero]
  · next hzero =>
    split
    · next hio => simp [hzero, hio]
    · next hio =>
      rw [not_not] at hio
      split
      · next h32 => simp [hzero, h32]
      · next h32 =>
        split
        · next h64 => simp [hzero, h64]
        · next h64 => simp [PCIBar.none, hio, h32, h64]

theorem barOf_io {base writable : BitVec 32} (h : Aligned 2 base) (high : Register 32) :
    (barOf ⟨base ||| 1#32, writable⟩ high).type = .io ∧
      (barOf ⟨base ||| 1#32, writable⟩ high).address = base.setWidth 64 ∧
      (barOf ⟨base ||| 1#32, writable⟩ high).prefetchable = false := by
  have hlow : (base ||| 1#32) &&& ~~~decoder 32 2 = 1#32 := h.or_and_not_decoder (by decide)
  have hio : (base ||| 1#32) &&& 1#32 ≠ 0#32 := by
    rw [show (1#32 : BitVec 32) = ~~~decoder 32 2 &&& 1#32 by decide, ← BitVec.and_assoc]
    rw [show ~~~decoder 32 2 &&& 1#32 = 1#32 by decide, hlow]
    decide
  have hzero : base ||| 1#32 ≠ 0#32 := by
    intro hzero
    rw [hzero, BitVec.zero_and] at hio
    exact hio rfl
  have haddress : (base ||| 1#32).setWidth 64 &&& ~~~3#64 = base.setWidth 64 := by
    rw [BitVec.setWidth_or, show ~~~3#64 = decoder 64 2 by decide]
    exact h.setWidth.or_and_decoder (by decide)
  unfold barOf
  rw [if_neg hzero, if_pos hio]
  exact ⟨rfl, haddress, rfl⟩

theorem barsOf_reported {n : Nat} (layout : Layout n) (last : Register 32) :
    layout.Reported (barsOf last layout.registers) ↔ layout.Clear := by
  induction layout with
  | done => simp [Layout.Reported, Layout.Clear, Layout.registers, barsOf]
  | unused rest ih =>
      simp only [Layout.registers, barsOf, Layout.Reported, Layout.Clear, ← ih]
      constructor
      · rintro ⟨bar, tail, heq, -, htail⟩
        cases heq
        exact htail
      · intro htail
        exact ⟨_, _, rfl, type_barOf_eq_none.mpr (.inl rfl), htail⟩
  | io base writable hbase rest ih =>
      simp only [Layout.registers, barsOf, Layout.Reported, Layout.Clear, ← ih]
      constructor
      · rintro ⟨bar, tail, heq, htail, -⟩
        cases heq
        exact htail
      · intro htail
        exact ⟨_, _, rfl, htail, barOf_io hbase _⟩
  | mmio32 k base prefetchable hk hk' hbase rest ih =>
      simp only [Layout.registers, barsOf, Layout.Reported, Layout.Clear, ← ih]
      constructor
      · rintro ⟨tail, heq, htail⟩
        obtain ⟨hbar, rfl⟩ := List.cons.inj heq
        refine ⟨?_, htail⟩
        rw [or_iff_not_imp_left, not_not]
        rintro rfl
        cases prefetchable with
        | true => rfl
        | false =>
            -- the register holds zero, so nothing is reported
            have hzero : (Pci.mmio32 k 0#32 false).value = 0#32 := by
              rw [mmio32_value]
              decide
            cases (congrArg PCIBar.type hbar).symm.trans (type_barOf_eq_none.mpr (.inl hzero))
      · rintro ⟨hvalue, htail⟩
        refine ⟨_, ?_, htail⟩
        rw [barOf_mmio32 hk (Nat.lt_succ_of_le hk') hbase hvalue]
  | mmio64 k base prefetchable hk hk' hbase rest ih =>
      simp only [Layout.registers, barsOf, Layout.Reported, Layout.Clear, ← ih]
      have hbar : barOf (Pci.mmio64 k base prefetchable) (mmio64High k base) = _ :=
        barOf_mmio64 hk hbase
      constructor
      · rintro ⟨upper, tail, heq, hupper, htail⟩
        obtain ⟨-, heq⟩ := List.cons.inj heq
        obtain ⟨rfl, rfl⟩ := List.cons.inj heq
        exact ⟨type_barOf_eq_none.mp hupper, htail⟩
      · rintro ⟨hupper, htail⟩
        refine ⟨_, _, congrArg (· :: _) hbar, ?_, htail⟩
        exact type_barOf_eq_none.mpr hupper

/-- The constructor reports the regions of a device as it should iff its layout is clear. -/
theorem bars_reported_iff {l : Location} {m : Ports} {layout : Layout 6}
    (h : m.barRegisters l 0 6 = layout.registers) :
    layout.Reported ((PCIDevice.create l).run m).1.bars ↔ layout.Clear := by
  rw [(create_run l m).1, h]
  exact barsOf_reported layout _

/-- One region of 1 MiB at 64 GiB, in the first two registers. -/
def highRegion : Layout 6 :=
  .mmio64 20 0x1000000000 false (by decide) (by decide) (by decide)
    (.unused (.unused (.unused (.unused .done))))

/-- A device at slot 3 with the base address registers of `highRegion`. -/
def highRegionPorts : Ports :=
  ⟨0, fun address =>
    if address = configAddress ⟨0, 3, 0⟩ 0x10 then mmio64 20 0x1000000000 false
    else if address = configAddress ⟨0, 3, 0⟩ 0x14 then mmio64High 20 0x1000000000
    else ⟨0, 0⟩⟩

theorem highRegion_registers : highRegionPorts.barRegisters ⟨0, 3, 0⟩ 0 6 = highRegion.registers := by
  decide

theorem bars_reported_iff_highRegion :
    highRegion.Reported ((PCIDevice.create ⟨0, 3, 0⟩).run highRegionPorts).1.bars ↔
      highRegion.Clear :=
  bars_reported_iff highRegion_registers

/-- The upper half of the address is reported as a region of its own. -/
theorem highRegion_reported_twice :
    highRegionPorts.barRegisters ⟨0, 3, 0⟩ 0 6 = highRegion.registers ∧
      ¬ highRegion.Reported ((PCIDevice.create ⟨0, 3, 0⟩).run highRegionPorts).1.bars := by
  refine ⟨highRegion_registers, ?_⟩
  rw [(create_run _ _).1, highRegion_registers, barsOf_reported]
  simp only [highRegion, Layout.Clear, and_true]
  decide

end Avery.Pci
