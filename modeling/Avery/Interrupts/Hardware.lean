import Avery.Library.Registers
import Avery.Library.Stateful
import Mathlib.Logic.Function.Basic

/-!
# The interrupt controllers of a PC

What `pic.cpp`, `ioapic.cpp` and `lapic.cpp` talk to.  Sixteen lines come from the
devices.  Two cascaded PICs take them, eight each, and the second one reports to line 2
of the first.  The I/O APIC takes the same lines and sends a message to the local APIC
of the processor.

A controller that has delivered an interrupt keeps it in service until it is
acknowledged, and delivers nothing of the same or a lower priority before.
-/

namespace Avery

open Registers
open Stateful

namespace Interrupts

/-! ## The two PICs -/

/-- The initialization word that a PIC waits for on its data port, if it does.  The first
one says whether a third and a fourth one follow. -/
inductive Awaits where
  | commands
  | offset (cascaded fourth : Bool)
  | cascade (fourth : Bool)
  | mode
deriving DecidableEq

structure Pic where
  awaits : Awaits
  /-- The vector of line 0. -/
  offset : BitVec 8
  mask : BitVec 8
  inService : BitVec 8
deriving DecidableEq

namespace Pic

/-- A first initialization word clears the mask.  An end of interrupt takes the line with
the highest priority, which is the lowest bit, out of service. -/
def command (p : Pic) (value : BitVec 8) : Pic :=
  if value.getLsbD 4 then
    { p with awaits := .offset (!value.getLsbD 1) (value.getLsbD 0), mask := 0 }
  else if value = 0x20#8 then { p with inService := p.inService &&& (p.inService - 1#8) }
  else p

def data (p : Pic) (value : BitVec 8) : Pic :=
  match p.awaits with
  | .commands => { p with mask := value }
  | .offset cascaded fourth =>
      { p with
        offset := value &&& 0xF8#8
        awaits := if cascaded then .cascade fourth else if fourth then .mode else .commands }
  | .cascade fourth => { p with awaits := if fourth then .mode else .commands }
  | .mode => { p with awaits := .commands }

/-- An interrupt on the line would reach the processor now. -/
def Opens (p : Pic) (line : Nat) : Prop :=
  p.awaits = .commands ∧ p.mask.getLsbD line = false ∧
    ∀ other ≤ line, p.inService.getLsbD other = false

instance (p : Pic) (line : Nat) : Decidable (p.Opens line) :=
  inferInstanceAs (Decidable (_ ∧ _ ∧ _))

def serve (p : Pic) (line : Nat) : Pic :=
  { p with inService := p.inService ||| 1#8 <<< line }

end Pic

structure Pics where
  master : Pic
  slave : Pic
deriving DecidableEq

/-- A device raises a line: the vector that the processor gets, if it gets one.  No device
has line 2 of the master. -/
def Pics.raise (p : Pics) (irq : Nat) : Option (BitVec 8 × Pics) :=
  if irq < 8 then
    if irq ≠ 2 ∧ p.master.Opens irq then
      some (p.master.offset + BitVec.ofNat 8 irq, { p with master := p.master.serve irq })
    else none
  else if p.master.Opens 2 ∧ p.slave.Opens (irq - 8) then
    some (p.slave.offset + BitVec.ofNat 8 (irq - 8),
      ⟨p.master.serve 2, p.slave.serve (irq - 8)⟩)
  else none

/-! ## The APICs -/

/-- The I/O APIC has many registers behind two words of memory, one to select a register
and a window.  Line `n` has registers `0x10 + 2 * n` and `0x11 + 2 * n`.  `mapped` says
whether the window of `mmio::Interface` to its memory is valid. -/
structure Ioapic where
  mapped : Bool
  regsel : BitVec 32
  registers : BitVec 8 → Register 32

/-- The registers of the local APIC that the code uses, and the vectors in service, the
last one first. -/
structure Lapic where
  mapped : Bool
  id : BitVec 32
  svr : BitVec 32
  inService : List (BitVec 8)

structure Hardware where
  pics : Pics
  ioapic : Ioapic
  lapic : Lapic

/-- The registers of a line in the I/O APIC. -/
def lowRegister (irq : BitVec 8) : BitVec 8 := 0x10#8 + irq * 2#8

def Ioapic.low (a : Ioapic) (irq : BitVec 8) : BitVec 32 := (a.registers (lowRegister irq)).value

def Ioapic.high (a : Ioapic) (irq : BitVec 8) : BitVec 32 :=
  (a.registers (lowRegister irq + 1#8)).value

/-- An enabled local APIC takes a vector whose class, the upper four bits, is higher than
that of every vector in service. -/
def Lapic.Takes (l : Lapic) (vector : BitVec 8) : Prop :=
  l.svr.getLsbD 8 = true ∧ ∀ v ∈ l.inService, v >>> 4 < vector >>> 4

instance (l : Lapic) (vector : BitVec 8) : Decidable (l.Takes vector) :=
  inferInstanceAs (Decidable (_ ∧ _))

/-- The vector that a device on the line sends to this processor.  Bit 16 of the lower
register masks the line, bits 8 to 11 are the kind of the message, and the upper byte of
the higher register is the destination. -/
def Hardware.message (m : Hardware) (irq : BitVec 8) : Option (BitVec 8) :=
  if (m.ioapic.low irq).getLsbD 16 = false ∧ m.ioapic.low irq &&& 0xF00#32 = 0#32 ∧
      m.ioapic.high irq &&& 0xFF000000#32 = m.lapic.id &&& 0xFF000000#32 then
    some ((m.ioapic.low irq).setWidth 8)
  else none

/-! ## Ports and memory -/

def PIC1_COMMAND : BitVec 16 := 0x20
def PIC1_DATA : BitVec 16 := 0x21
def PIC2_COMMAND : BitVec 16 := 0xA0
def PIC2_DATA : BitVec 16 := 0xA1

def Pics.outb (p : Pics) (port : BitVec 16) (value : BitVec 8) : Pics :=
  if port = PIC1_COMMAND then { p with master := p.master.command value }
  else if port = PIC1_DATA then { p with master := p.master.data value }
  else if port = PIC2_COMMAND then { p with slave := p.slave.command value }
  else if port = PIC2_DATA then { p with slave := p.slave.data value }
  else p

def Pics.inb (p : Pics) (port : BitVec 16) : BitVec 8 :=
  if port = PIC1_DATA then p.master.mask
  else if port = PIC2_DATA then p.slave.mask
  else 0xFF#8

namespace io

def outb (port : BitVec 16) (value : BitVec 8) : StateM Hardware Unit :=
  modify fun m => { m with pics := m.pics.outb port value }

def inb (port : BitVec 16) : StateM Hardware (BitVec 8) := do
  let m ← get
  return m.pics.inb port

end io

def Ioapic.store (a : Ioapic) (offset value : BitVec 32) : Ioapic :=
  if offset = 0x00#32 then { a with regsel := value }
  else if offset = 0x10#32 then
    { a with
      registers := Function.update a.registers (a.regsel.setWidth 8)
        ((a.registers (a.regsel.setWidth 8)).write value) }
  else a

def Ioapic.load (a : Ioapic) (offset : BitVec 32) : BitVec 32 :=
  if offset = 0x00#32 then a.regsel
  else if offset = 0x10#32 then (a.registers (a.regsel.setWidth 8)).value
  else 0#32

/-- A write of an end of interrupt takes the last vector out of service. -/
def Lapic.store (l : Lapic) (offset value : BitVec 32) : Lapic :=
  if offset = 0x0B0#32 then { l with inService := l.inService.tail }
  else if offset = 0x0F0#32 then { l with svr := value }
  else l

def Lapic.load (l : Lapic) (offset : BitVec 32) : BitVec 32 :=
  if offset = 0x020#32 then l.id
  else if offset = 0x0F0#32 then l.svr
  else 0#32

end Interrupts

end Avery
