import Avery.Interrupts.Hardware

/-!
# Masking and acknowledging interrupts

`pic.cpp`, `ioapic.cpp`, `lapic.cpp` and `controller.cpp`.
-/

namespace Avery

open Registers
open Stateful

namespace Interrupts

/-! ## The PICs -/

namespace pic

def remap : StateM Hardware Unit := do
  io.outb PIC1_COMMAND 0x11
  io.outb PIC2_COMMAND 0x11
  io.outb PIC1_DATA 0x20
  io.outb PIC2_DATA 0x28
  io.outb PIC1_DATA 0x04
  io.outb PIC2_DATA 0x02
  io.outb PIC1_DATA 0x01
  io.outb PIC2_DATA 0x01
  io.outb PIC1_DATA 0x00
  io.outb PIC2_DATA 0x00

def maskAll : StateM Hardware Unit := do
  io.outb PIC1_DATA 0xFF
  io.outb PIC2_DATA 0xFF

/-- The data port and the bit of a line. -/
def portOf (irq : BitVec 8) : BitVec 16 × BitVec 8 :=
  if irq < 8#8 then (PIC1_DATA, irq) else (PIC2_DATA, irq - 8#8)

def enableIRQ (irq : BitVec 8) : StateM Hardware Unit := do
  let (port, irq) := portOf irq
  let value ← io.inb port
  io.outb port (value &&& ~~~(1#8 <<< irq.toNat))

def disableIRQ (irq : BitVec 8) : StateM Hardware Unit := do
  let (port, irq) := portOf irq
  let value ← io.inb port
  io.outb port (value ||| 1#8 <<< irq.toNat)

def eoi (irq : BitVec 8) : StateM Hardware Unit := do
  if 8#8 ≤ irq then io.outb PIC2_COMMAND 0x20
  io.outb PIC1_COMMAND 0x20

end pic

/-! ## The APICs -/

namespace ioapic

def IOAPIC_REGSEL : BitVec 32 := 0x00
def IOAPIC_WINDOW : BitVec 32 := 0x10

def IOAPIC_REDTBL : BitVec 8 := 0x10

def init : StateM Hardware Bool := do
  let m ← get
  return m.ioapic.mapped

/-- `interface->write`. -/
def interfaceWrite (offset value : BitVec 32) : StateM Hardware Unit :=
  modify fun m => if m.ioapic.mapped then { m with ioapic := m.ioapic.store offset value } else m

/-- `interface->read`. -/
def interfaceRead (offset : BitVec 32) : StateM Hardware (BitVec 32) := do
  let m ← get
  return if m.ioapic.mapped then m.ioapic.load offset else 0#32

def read (reg : BitVec 8) : StateM Hardware (BitVec 32) := do
  interfaceWrite IOAPIC_REGSEL (reg.setWidth 32)
  interfaceRead IOAPIC_WINDOW

def write (reg : BitVec 8) (value : BitVec 32) : StateM Hardware Unit := do
  interfaceWrite IOAPIC_REGSEL (reg.setWidth 32)
  interfaceWrite IOAPIC_WINDOW value

def redirectIRQ (irq vector lapicId : BitVec 8) : StateM Hardware Unit := do
  let lowReg := IOAPIC_REDTBL + irq * 2#8
  let highReg := lowReg + 1#8
  let low := vector.setWidth 32
  let low := low ||| 0#32 <<< 8
  let low := low ||| 0#32 <<< 11
  let low := low ||| 0#32 <<< 13
  let low := low ||| 0#32 <<< 15
  let low := low &&& ~~~(1#32 <<< 16)
  let high := lapicId.setWidth 32 <<< 24
  write highReg high
  write lowReg low

def maskIRQ (irq : BitVec 8) : StateM Hardware Unit := do
  let lowReg := IOAPIC_REDTBL + irq * 2#8
  let low ← read lowReg
  write lowReg (low ||| 1#32 <<< 16)

def unmaskIRQ (irq : BitVec 8) : StateM Hardware Unit := do
  let lowReg := IOAPIC_REDTBL + irq * 2#8
  let low ← read lowReg
  write lowReg (low &&& ~~~(1#32 <<< 16))

end ioapic

namespace lapic

def LAPIC_ID : BitVec 32 := 0x020
def LAPIC_EOI : BitVec 32 := 0x0B0
def LAPIC_SVR : BitVec 32 := 0x0F0

def read (offset : BitVec 32) : StateM Hardware (BitVec 32) := do
  let m ← get
  return if m.lapic.mapped then m.lapic.load offset else 0#32

def write (offset value : BitVec 32) : StateM Hardware Unit :=
  modify fun m => if m.lapic.mapped then { m with lapic := m.lapic.store offset value } else m

def init : StateM Hardware Bool := do
  let m ← get
  if !m.lapic.mapped then return false
  let svr ← read LAPIC_SVR
  write LAPIC_SVR (svr ||| 0x100#32 ||| 0xFF#32)
  return true

def eoi : StateM Hardware Unit := write LAPIC_EOI 0

def id : StateM Hardware (BitVec 32) := do
  let value ← read LAPIC_ID
  return value >>> 24

end lapic

/-! ## The interrupt controller -/

inductive Backend where
  | PIC
  | APIC
deriving DecidableEq

structure System where
  hardware : Hardware
  backend : Backend

/-- A computation on the hardware. -/
def onHardware {α : Type} (x : StateM Hardware α) : StateM System α := fun s =>
  ((x.run s.hardware).1, { s with hardware := (x.run s.hardware).2 })

namespace interruptController

def IRQ_BASE : BitVec 8 := 0x20

def irqToVector (irq : BitVec 8) : BitVec 8 := IRQ_BASE + irq

def initPIC : StateM System Unit := do
  modify fun s => { s with backend := .PIC }
  onHardware pic.remap

/-- The loop of `initAPICCompat` from line `irq` on, for `n` lines. -/
def redirectLoop (lapicId : BitVec 8) (irq : Nat) : Nat → StateM Hardware Unit
  | 0 => return ()
  | n + 1 => do
      ioapic.redirectIRQ (BitVec.ofNat 8 irq) (irqToVector (BitVec.ofNat 8 irq)) lapicId
      ioapic.maskIRQ (BitVec.ofNat 8 irq)
      redirectLoop lapicId (irq + 1) n

def initAPICCompat : StateM System Unit := do
  if !(← onHardware ioapic.init) then
    initPIC
    return
  if !(← onHardware lapic.init) then
    initPIC
    return
  modify fun s => { s with backend := .APIC }
  onHardware pic.maskAll
  let lapicId ← onHardware lapic.id
  onHardware (redirectLoop (lapicId.setWidth 8) 0 16)

def enableIRQ (irq : BitVec 8) : StateM System Unit := do
  let s ← get
  if s.backend = .PIC then onHardware (pic.enableIRQ irq)
  else onHardware (ioapic.unmaskIRQ irq)

def disableIRQ (irq : BitVec 8) : StateM System Unit := do
  let s ← get
  if s.backend = .PIC then onHardware (pic.disableIRQ irq)
  else onHardware (ioapic.maskIRQ irq)

def eoi (irq : BitVec 8) : StateM System Unit := do
  let s ← get
  if s.backend = .PIC then onHardware (pic.eoi irq)
  else onHardware lapic.eoi

end interruptController

/-! ## What the functions do -/

/-- The I/O APIC after a register was selected. -/
def Ioapic.select (a : Ioapic) (reg : BitVec 8) : Ioapic := { a with regsel := reg.setWidth 32 }

/-- The I/O APIC after a register was selected and written. -/
def Ioapic.put (a : Ioapic) (reg : BitVec 8) (value : BitVec 32) : Ioapic :=
  { a.select reg with registers := Function.update a.registers reg ((a.registers reg).write value) }

section

variable {m : Hardware}

theorem interfaceWrite_run (h : m.ioapic.mapped = true) (offset value : BitVec 32) :
    (ioapic.interfaceWrite offset value).run m =
      ((), { m with ioapic := m.ioapic.store offset value }) := by
  change ((), if m.ioapic.mapped then _ else m) = _
  rw [if_pos h]

theorem interfaceRead_run (h : m.ioapic.mapped = true) (offset : BitVec 32) :
    (ioapic.interfaceRead offset).run m = (m.ioapic.load offset, m) := by
  change (if m.ioapic.mapped then _ else 0#32, m) = _
  rw [if_pos h]

/-- The low byte of the selector names the register. -/
theorem select_regsel (a : Ioapic) (reg : BitVec 8) : (a.select reg).regsel.setWidth 8 = reg := by
  change (reg.setWidth 32).setWidth 8 = reg
  rw [BitVec.setWidth_setWidth_of_le reg (by decide), BitVec.setWidth_eq]

theorem load_select (a : Ioapic) (reg : BitVec 8) :
    (a.select reg).load ioapic.IOAPIC_WINDOW = (a.registers reg).value := by
  change (a.registers _).value = _
  rw [select_regsel]

theorem store_select (a : Ioapic) (reg : BitVec 8) (value : BitVec 32) :
    (a.select reg).store ioapic.IOAPIC_WINDOW value = a.put reg value := by
  rw [Ioapic.store, if_neg (by decide), if_pos (by decide), select_regsel]
  rfl

theorem ioapicRead_run (h : m.ioapic.mapped = true) (reg : BitVec 8) :
    (ioapic.read reg).run m =
      ((m.ioapic.registers reg).value, { m with ioapic := m.ioapic.select reg }) := by
  rw [ioapic.read, bind_run (interfaceWrite_run h ..), ← load_select]
  exact interfaceRead_run (m := { m with ioapic := m.ioapic.select reg }) h _

theorem ioapicWrite_run (h : m.ioapic.mapped = true) (reg : BitVec 8) (value : BitVec 32) :
    (ioapic.write reg value).run m = ((), { m with ioapic := m.ioapic.put reg value }) := by
  rw [ioapic.write, bind_run (interfaceWrite_run h ..), ← store_select]
  exact interfaceWrite_run (m := { m with ioapic := m.ioapic.select reg }) h _ _

theorem maskIRQ_run (h : m.ioapic.mapped = true) (irq : BitVec 8) :
    (ioapic.maskIRQ irq).run m =
      ((), { m with
        ioapic := m.ioapic.put (lowRegister irq) (m.ioapic.low irq ||| 1#32 <<< 16) }) := by
  rw [ioapic.maskIRQ, bind_run (ioapicRead_run h _)]
  exact ioapicWrite_run (m := { m with ioapic := m.ioapic.select _ }) h _ _

theorem unmaskIRQ_run (h : m.ioapic.mapped = true) (irq : BitVec 8) :
    (ioapic.unmaskIRQ irq).run m =
      ((), { m with
        ioapic := m.ioapic.put (lowRegister irq) (m.ioapic.low irq &&& ~~~(1#32 <<< 16)) }) := by
  rw [ioapic.unmaskIRQ, bind_run (ioapicRead_run h _)]
  exact ioapicWrite_run (m := { m with ioapic := m.ioapic.select _ }) h _ _

theorem redirectIRQ_run (h : m.ioapic.mapped = true) (irq vector lapicId : BitVec 8) :
    (ioapic.redirectIRQ irq vector lapicId).run m =
      ((), { m with
        ioapic := (m.ioapic.put (lowRegister irq + 1#8) (lapicId.setWidth 32 <<< 24)).put
          (lowRegister irq) (vector.setWidth 32 &&& ~~~(1#32 <<< 16)) }) := by
  have hlow : vector.setWidth 32 ||| 0#32 <<< 8 ||| 0#32 <<< 11 ||| 0#32 <<< 13 ||| 0#32 <<< 15 =
      vector.setWidth 32 := by
    simp
  simp only [ioapic.redirectIRQ, hlow]
  rw [bind_run (ioapicWrite_run h _ _)]
  exact ioapicWrite_run (m := { m with ioapic := m.ioapic.put _ _ }) h _ _

end

end Interrupts

end Avery
