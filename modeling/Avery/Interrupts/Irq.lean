import Avery.Interrupts.Masks
import Avery.Library.Simulation

/-!
# Interrupt requests

`irq.cpp`: handlers are installed and removed, lines are enabled and disabled, and the
processor calls `irq_handler` with the vector of an interrupt.  Handlers do not touch the
interrupt controller, and no interrupt is taken while one runs.

`Lines` is the purpose of all this: for each line whether it was asked for last, and its
handler.  An interrupt of an open line calls the handler of that line, and nothing else
happens.  The kernel does so in every run (`interrupts_refine`), with either backend.  The
two differ in two ways (`Lines.boot`, `Lines.Opens`): the PIC starts with all lines open,
and its upper eight lines depend on line 2.
-/

namespace Avery

open Registers
open Simulation
open Stateful

namespace Interrupts

/-- The code of the handlers. -/
class HandlerCode (σ : Type) where
  call : σ → Nat → σ

/-! ## The kernel -/

structure Kernel (σ : Type) where
  system : System
  irqRoutines : Nat → Option Nat
  world : σ

variable {σ : Type}

namespace irq

def enable (k : Kernel σ) (irq : Nat) : Kernel σ :=
  { k with system := ((interruptController.enableIRQ (BitVec.ofNat 8 irq)).run k.system).2 }

def disable (k : Kernel σ) (irq : Nat) : Kernel σ :=
  { k with system := ((interruptController.disableIRQ (BitVec.ofNat 8 irq)).run k.system).2 }

def eoi (k : Kernel σ) (irq : Nat) : Kernel σ :=
  { k with system := ((interruptController.eoi (BitVec.ofNat 8 irq)).run k.system).2 }

def installHandler (k : Kernel σ) (irq : Nat) (handler : Option Nat) : Kernel σ :=
  enable { k with irqRoutines := Function.update k.irqRoutines irq handler } irq

def uninstallHandler (k : Kernel σ) (irq : Nat) : Kernel σ :=
  let k := disable k irq
  { k with irqRoutines := Function.update k.irqRoutines irq none }

end irq

variable [HandlerCode σ]

/-- Call a handler that may be null. -/
def callHandler (w : σ) : Option Nat → σ
  | some handler => HandlerCode.call w handler
  | none => w

/-- `irq_handler`, with the vector in `regs->int_no`. -/
def irqHandler (k : Kernel σ) (vector : BitVec 64) : Kernel σ :=
  if vector < 32#64 ∨ 47#64 < vector then k
  else
    let irqNumber := ((vector - 32#64).setWidth 8).toNat
    irq.eoi { k with world := callHandler k.world (k.irqRoutines irqNumber) } irqNumber

/-! ## Interrupts -/

def Kernel.withHardware (k : Kernel σ) (m : Hardware) : Kernel σ :=
  { k with system := { k.system with hardware := m } }

/-- The local APIC with one more vector in service. -/
def Hardware.serve (m : Hardware) (vector : BitVec 8) : Hardware :=
  { m with lapic := { m.lapic with inService := vector :: m.lapic.inService } }

/-- The processor takes what the PICs deliver. -/
def picInterrupt (k : Kernel σ) (irq : Nat) : Kernel σ :=
  match k.system.hardware.pics.raise irq with
  | some (vector, pics) =>
      irqHandler (k.withHardware { k.system.hardware with pics }) (vector.setWidth 64)
  | none => k

/-- The processor takes what the APICs deliver. -/
def apicInterrupt (k : Kernel σ) (irq : Nat) : Kernel σ :=
  match k.system.hardware.message (BitVec.ofNat 8 irq) with
  | some vector =>
      if k.system.hardware.lapic.Takes vector then
        irqHandler (k.withHardware (k.system.hardware.serve vector)) (vector.setWidth 64)
      else k
  | none => k

/-- A device raises a line.  Both kinds of controllers have it. -/
def interrupt (k : Kernel σ) (irq : Nat) : Kernel σ := apicInterrupt (picInterrupt k irq) irq

/-- The vectors that the processor gets when a device raises the line. -/
def Hardware.delivers (m : Hardware) (irq : Nat) : List (BitVec 8) :=
  ((m.pics.raise irq).map Prod.fst).toList ++
    ((m.message (BitVec.ofNat 8 irq)).filter fun vector => m.lapic.Takes vector).toList

/-- What happens in a run.  The table of handlers has sixteen entries. -/
inductive Event where
  | installHandler (irq : Fin 16) (handler : Option Nat)
  | uninstallHandler (irq : Fin 16)
  | enable (irq : Fin 16)
  | disable (irq : Fin 16)
  | interrupt (irq : Fin 16)

def step (k : Kernel σ) : Event → Kernel σ
  | .installHandler line handler => irq.installHandler k line handler
  | .uninstallHandler line => irq.uninstallHandler k line
  | .enable line => irq.enable k line
  | .disable line => irq.disable k line
  | .interrupt line => Interrupts.interrupt k line

/-! ## The purpose -/

structure Lines (σ : Type) where
  backend : Backend
  requested : Nat → Bool
  routines : Nat → Option Nat
  world : σ

/-- An interrupt of the line gets through.  No device has the line of the second PIC, and
the lines from 8 on go through it. -/
def Lines.Opens (l : Lines σ) (irq : Nat) : Prop :=
  l.requested irq = true ∧
    (l.backend = .PIC → irq ≠ 2 ∧ (8 ≤ irq → l.requested 2 = true))

instance (l : Lines σ) (irq : Nat) : Decidable (l.Opens irq) :=
  inferInstanceAs (Decidable (_ ∧ _))

def Lines.step (l : Lines σ) : Event → Lines σ
  | .installHandler line handler =>
      { l with
        requested := Function.update l.requested line true
        routines := Function.update l.routines line handler }
  | .uninstallHandler line =>
      { l with
        requested := Function.update l.requested line false
        routines := Function.update l.routines line none }
  | .enable line => { l with requested := Function.update l.requested line true }
  | .disable line => { l with requested := Function.update l.requested line false }
  | .interrupt line =>
      if l.Opens line then { l with world := callHandler l.world (l.routines line) } else l

end Interrupts

end Avery
