import Avery.Library.Stateful
import Mathlib.Algebra.Group.Nat.Defs
import Mathlib.Logic.Function.Basic

/-!
# The drives of an ATA controller

What the driver of `ata.cpp` talks to: two channels with eight ports each, and two drives
on every channel.  A drive is busy for some polls of its status after each command and
each transfer; how many is arbitrary (`delays`).  A drive that always becomes ready is
`Ready`: it is never busy for as many polls as the driver makes.
-/

namespace Avery.Ata

open Stateful

/-! ## Drives -/

/-- A transfer command as the drive sees it when it is issued. -/
structure Command where
  write : Bool
  drive : Nat
  address : Nat
deriving DecidableEq

inductive Phase where
  | idle
  /-- Words of the sectors from `address` on are moved, and `done` of them are. -/
  | moving (write : Bool) (drive address done total : Nat)
deriving DecidableEq

/-- The registers of a channel, and the sectors of its drives. -/
structure Drives where
  seccount : Nat
  lba0 : Nat
  lba1 : Nat
  lba2 : Nat
  hddevsel : Nat
  phase : Phase
  /-- For how many polls of the status the drive is still busy. -/
  busy : Nat
  /-- For how many polls it will be busy the next times. -/
  delays : Nat → Nat
  /-- The words of each sector of each drive. -/
  sectors : Nat → Nat → Nat → BitVec 16
  /-- The transfer commands so far. -/
  commands : List Command

namespace Drives

/-- The drive that is selected. -/
def selected (s : Drives) : Nat := s.hddevsel / 16 % 2

/-- The 28 address bits. -/
def address (s : Drives) : Nat :=
  s.lba0 + 2 ^ 8 * s.lba1 + 2 ^ 16 * s.lba2 + 2 ^ 24 * (s.hddevsel % 16)

/-- The drive works for a while. -/
def works (s : Drives) : Drives :=
  { s with busy := s.delays 0, delays := fun n => s.delays (n + 1) }

/-- A count of zero means 256 sectors. -/
def transfer (s : Drives) (write : Bool) : Drives :=
  { s.works with
    phase := .moving write s.selected s.address 0 (256 * if s.seccount = 0 then 256 else s.seccount)
    commands := s.commands ++ [⟨write, s.selected, s.address⟩] }

def command (s : Drives) (value : Nat) : Drives :=
  if value = 0x20 then s.transfer false
  else if value = 0x30 then s.transfer true
  else { s.works with phase := .idle }

def outb (s : Drives) (reg value : Nat) : Drives :=
  if reg = 2 then { s with seccount := value }
  else if reg = 3 then { s with lba0 := value }
  else if reg = 4 then { s with lba1 := value }
  else if reg = 5 then { s with lba2 := value }
  else if reg = 6 then { s with hddevsel := value }
  else if reg = 7 then s.command value
  else s

/-- The busy bit alone, or the ready bit and perhaps the data request bit. -/
def status (s : Drives) : Nat :=
  if s.busy ≠ 0 then 0x80 else if s.phase = .idle then 0x40 else 0x48

def inb (s : Drives) (reg : Nat) : Nat × Drives :=
  if reg = 7 then (s.status, { s with busy := s.busy - 1 })
  else if reg = 2 then (s.seccount, s)
  else if reg = 3 then (s.lba0, s)
  else if reg = 4 then (s.lba1, s)
  else if reg = 5 then (s.lba2, s)
  else (s.hddevsel, s)

/-- The next word. -/
def advance (s : Drives) (write : Bool) (drive address done total : Nat) : Drives :=
  if done + 1 = total then { s.works with phase := .idle }
  else { s with phase := .moving write drive address (done + 1) total }

def inw (s : Drives) : BitVec 16 × Drives :=
  match s.phase with
  | .moving false drive address done total =>
      (s.sectors drive (address + done / 256) (done % 256),
        s.advance false drive address done total)
  | _ => (0, s)

/-- The sectors with another word. -/
def putWord (sectors : Nat → Nat → Nat → BitVec 16) (drive address word : Nat) (value : BitVec 16) :
    Nat → Nat → Nat → BitVec 16 :=
  Function.update sectors drive (Function.update (sectors drive) address
    (Function.update (sectors drive address) word value))

def outw (s : Drives) (value : BitVec 16) : Drives :=
  match s.phase with
  | .moving true drive address done total =>
      { s.advance true drive address done total with
        sectors := putWord s.sectors drive (address + done / 256) (done % 256) value }
  | _ => s

end Drives

/-! ## Ports -/

inductive Channel where
  | primary
  | secondary
deriving DecidableEq

def Channel.ioBase : Channel → Nat
  | .primary => 0x1F0
  | .secondary => 0x170

/-- The channels, and the buffer of the driver's caller. -/
structure World where
  channels : Channel → Drives
  words : Nat → BitVec 16

/-- The channel and the register behind a port. -/
def decode (port : Nat) : Option (Channel × Nat) :=
  if 0x1F0 ≤ port ∧ port < 0x1F8 then some (.primary, port - 0x1F0)
  else if 0x170 ≤ port ∧ port < 0x178 then some (.secondary, port - 0x170)
  else none

/-- The world with other drives on a channel. -/
def World.withDrives (w : World) (c : Channel) (s : Drives) : World :=
  { w with channels := Function.update w.channels c s }

namespace io

def outb (port value : Nat) : StateM World Unit :=
  modify fun w =>
    match decode port with
    | some (c, reg) => w.withDrives c ((w.channels c).outb reg value)
    | none => w

def inb (port : Nat) : StateM World Nat :=
  modifyGet fun w =>
    match decode port with
    | some (c, reg) =>
        (((w.channels c).inb reg).1, w.withDrives c ((w.channels c).inb reg).2)
    | none => (0xFF, w)

def inw (port : Nat) : StateM World (BitVec 16) :=
  modifyGet fun w =>
    match decode port with
    | some (c, 0) => ((w.channels c).inw.1, w.withDrives c (w.channels c).inw.2)
    | _ => (0xFFFF, w)

def outw (port : Nat) (value : BitVec 16) : StateM World Unit :=
  modify fun w =>
    match decode port with
    | some (c, 0) => w.withDrives c ((w.channels c).outw value)
    | _ => w

def wait : StateM World Unit := outb 0x80 0

end io

theorem decode_ioBase (c : Channel) {reg : Nat} (h : reg < 8) :
    decode (c.ioBase + reg) = some (c, reg) := by
  cases c with
  | primary =>
      rw [show Channel.primary.ioBase = 0x1F0 from rfl, decode, if_pos (by omega),
        Nat.add_sub_cancel_left]
  | secondary =>
      rw [show Channel.secondary.ioBase = 0x170 from rfl, decode, if_neg (by omega),
        if_pos (by omega), Nat.add_sub_cancel_left]

section

variable (c : Channel) {reg : Nat} (w : World)

theorem outb_run (h : reg < 8) (value : Nat) :
    (io.outb (c.ioBase + reg) value).run w =
      ((), w.withDrives c ((w.channels c).outb reg value)) := by
  simp only [io.outb, decode_ioBase c h]
  rfl

theorem inb_run (h : reg < 8) :
    (io.inb (c.ioBase + reg)).run w =
      (((w.channels c).inb reg).1, w.withDrives c ((w.channels c).inb reg).2) := by
  simp only [io.inb, decode_ioBase c h]
  rfl

theorem inw_run :
    (io.inw (c.ioBase + 0)).run w = ((w.channels c).inw.1, w.withDrives c (w.channels c).inw.2) := by
  simp only [io.inw, decode_ioBase c (show 0 < 8 by decide)]
  rfl

theorem outw_run (value : BitVec 16) :
    (io.outw (c.ioBase + 0) value).run w = ((), w.withDrives c ((w.channels c).outw value)) := by
  simp only [io.outw, decode_ioBase c (show 0 < 8 by decide)]
  rfl

end

@[simp] theorem channels_withDrives (w : World) (c : Channel) (s : Drives) :
    (w.withDrives c s).channels c = s := Function.update_self ..

@[simp] theorem words_withDrives (w : World) (c : Channel) (s : Drives) :
    (w.withDrives c s).words = w.words := rfl

@[simp] theorem withDrives_withDrives (w : World) (c : Channel) (s s' : Drives) :
    (w.withDrives c s).withDrives c s' = w.withDrives c s' := by
  simp [World.withDrives]

/-- A drive that always becomes ready, within the polls that the driver makes. -/
structure Ready (s : Drives) : Prop where
  busy : s.busy < 100000
  delays : ∀ n, s.delays n < 100000

end Avery.Ata
