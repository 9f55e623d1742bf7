import Avery.Drivers.AtaDrive
import Avery.Kernel.Types

/-!
# The ATA driver

`ata.cpp`: a transfer of `count` blocks is one command for each sector.  The 28 address
bits of a sector go to four registers.  Before the first command the range is compared
with the size of the disk, and its first block with the 28-bit limit.

The messages that a refused transfer prints are left out.
-/

namespace Avery.Ata

open Stateful

def ATA_REG_DATA : Nat := 0x00
def ATA_REG_SECCOUNT0 : Nat := 0x02
def ATA_REG_LBA0 : Nat := 0x03
def ATA_REG_LBA1 : Nat := 0x04
def ATA_REG_LBA2 : Nat := 0x05
def ATA_REG_HDDEVSEL : Nat := 0x06
def ATA_REG_COMMAND : Nat := 0x07
def ATA_REG_STATUS : Nat := 0x07

def ATA_SR_BSY : Nat := 0x80
def ATA_SR_DF : Nat := 0x20
def ATA_SR_DRQ : Nat := 0x08
def ATA_SR_ERR : Nat := 0x01

def ATA_CMD_READ_PIO : Nat := 0x20
def ATA_CMD_WRITE_PIO : Nat := 0x30
def ATA_CMD_CACHE_FLUSH : Nat := 0xE7

/-! ## Waiting and selecting -/

def pollBSY (ioBase : Nat) : Nat → StateM World Bool
  | 0 => return false
  | n + 1 => do
      let status ← io.inb (ioBase + ATA_REG_STATUS)
      if status &&& ATA_SR_BSY = 0 then return true
      pollBSY ioBase n

def waitBSY (ioBase : Nat) : StateM World Bool := pollBSY ioBase 100000

def pollDRQ (ioBase : Nat) : Nat → StateM World Bool
  | 0 => return false
  | n + 1 => do
      let status ← io.inb (ioBase + ATA_REG_STATUS)
      if status &&& (ATA_SR_ERR ||| ATA_SR_DF) ≠ 0 then return false
      if status &&& ATA_SR_BSY = 0 ∧ status &&& ATA_SR_DRQ ≠ 0 then return true
      pollDRQ ioBase n

def waitDRQ (ioBase : Nat) : StateM World Bool := pollDRQ ioBase 100000

def selectDrive (ioBase : Nat) (drive : UInt8) (lba : Nat) : StateM World Unit := do
  io.outb (ioBase + ATA_REG_HDDEVSEL)
    ((0xE0 ||| (drive.toNat &&& 1) <<< 4 ||| (lba >>> 24 &&& 0x0F)) % 2 ^ 8)
  io.wait

/-! ## Transfers -/

structure ATADiskDevice where
  channel : Channel
  drive : UInt8
  blockCount : UInt64

/-- The number of blocks of a new disk, from the words that the drive identifies itself with. -/
def sectorCountFromIdentify (id : Nat → UInt16) : UInt64 :=
  (id 60).toUInt64 ||| (id 61).toUInt64 <<< 16

example : sectorCountFromIdentify (fun i => if i = 61 then 0x1000 else 1) = 0x10000001 := by decide

def ATADiskDevice.ioBase (d : ATADiskDevice) : Nat := d.channel.ioBase

def writeWords (ioBase index : Nat) : StateM World Unit :=
  times (fun i => do
    let w ← get
    io.outw (ioBase + ATA_REG_DATA) (w.words (index + i))) 0 256

def readWords (ioBase index : Nat) : StateM World Unit :=
  times (fun i => do
    let value ← io.inw (ioBase + ATA_REG_DATA)
    modify fun w => { w with words := Function.update w.words (index + i) value }) 0 256

/-- The end of a round, when the drive asks for the data or has them. -/
def moveSector (d : ATADiskDevice) (write : Bool) (index : Nat) : StateM World Bool := do
  if write then
    writeWords d.ioBase index
    io.outb (d.ioBase + ATA_REG_COMMAND) ATA_CMD_CACHE_FLUSH
    waitBSY d.ioBase
  else
    readWords d.ioBase index
    return true

/-- One round of the loop of `access`. -/
def accessSector (d : ATADiskDevice) (write : Bool) (lba sector : Nat) : StateM World Bool := do
  let currentLBA := add64 lba sector
  if !(← waitBSY d.ioBase) then return false
  selectDrive d.ioBase d.drive currentLBA
  io.outb (d.ioBase + ATA_REG_SECCOUNT0) 1
  io.outb (d.ioBase + ATA_REG_LBA0) (currentLBA &&& 0xFF)
  io.outb (d.ioBase + ATA_REG_LBA1) (currentLBA >>> 8 &&& 0xFF)
  io.outb (d.ioBase + ATA_REG_LBA2) (currentLBA >>> 16 &&& 0xFF)
  io.outb (d.ioBase + ATA_REG_COMMAND) (if write then ATA_CMD_WRITE_PIO else ATA_CMD_READ_PIO)
  if !(← waitDRQ d.ioBase) then return false
  moveSector d write (mul32 sector 256)

/-- The loop of `access` from `sector` on, for `n` sectors. -/
def accessLoop (d : ATADiskDevice) (write : Bool) (lba sector : Nat) : Nat → StateM World Bool
  | 0 => return true
  | n + 1 => do
      if !(← accessSector d write lba sector) then return false
      accessLoop d write lba (sector + 1) n

def access (d : ATADiskDevice) (write : Bool) (lba : UInt64) (count : UInt32) : StateM World Bool := do
  if count = 0 then return true
  if lba + count.toUInt64 > d.blockCount then return false
  if lba > 0x0FFFFFFF then return false
  accessLoop d write lba.toNat 0 count.toNat

def readBlocks (d : ATADiskDevice) (lba : UInt64) (count : UInt32) : StateM World Bool :=
  access d false lba count

def writeBlocks (d : ATADiskDevice) (lba : UInt64) (count : UInt32) : StateM World Bool :=
  access d true lba count

/-! ## Waiting for a drive that becomes ready -/

/-- The drive once it is not busy any more. -/
def Drives.rested (s : Drives) : Drives := { s with busy := 0 }

/-- One poll. -/
def Drives.polled (s : Drives) : Drives := { s with busy := s.busy - 1 }

theorem inb_status (c : Channel) (w : World) :
    (io.inb (c.ioBase + ATA_REG_STATUS)).run w =
      ((w.channels c).status, w.withDrives c (w.channels c).polled) :=
  inb_run c w (by decide)

theorem status_busy {s : Drives} (h : s.busy ≠ 0) : s.status = 0x80 := if_pos h

theorem status_idle {s : Drives} (h : s.busy = 0) (hphase : s.phase = .idle) : s.status = 0x40 := by
  rw [Drives.status, if_neg (not_not.mpr h), if_pos hphase]

theorem status_moving {s : Drives} (h : s.busy = 0) (hphase : s.phase ≠ .idle) :
    s.status = 0x48 := by
  rw [Drives.status, if_neg (not_not.mpr h), if_neg hphase]

theorem rested_of_busy {s : Drives} (h : s.busy = 0) : s.polled = s.rested := by
  rw [Drives.polled, Drives.rested, h]

theorem polled_lt {s : Drives} {n : Nat} (h : s.busy ≠ 0) (hlt : s.busy < n + 1) :
    s.polled.busy < n := by
  change s.busy - 1 < n
  omega

section

variable {c : Channel}

theorem pollBSY_run {n : Nat} {w : World} (h : (w.channels c).busy < n) :
    (pollBSY c.ioBase n).run w = (true, w.withDrives c (w.channels c).rested) := by
  induction n generalizing w with
  | zero => exact absurd h (Nat.not_lt_zero _)
  | succ n ih =>
      rw [pollBSY, bind_run (inb_status c w)]
      by_cases hbusy : (w.channels c).busy = 0
      · have hclear : (w.channels c).status &&& ATA_SR_BSY = 0 := by
          by_cases hphase : (w.channels c).phase = .idle
          · rw [status_idle hbusy hphase]
            rfl
          · rw [status_moving hbusy hphase]
            rfl
        rw [if_pos hclear, rested_of_busy hbusy]
        rfl
      · rw [status_busy hbusy, if_neg (by decide), ih (by rw [channels_withDrives]; exact polled_lt hbusy h), channels_withDrives,
          withDrives_withDrives]
        rfl

theorem pollDRQ_run {n : Nat} {w : World} (h : (w.channels c).busy < n)
    (hphase : (w.channels c).phase ≠ .idle) :
    (pollDRQ c.ioBase n).run w = (true, w.withDrives c (w.channels c).rested) := by
  induction n generalizing w with
  | zero => exact absurd h (Nat.not_lt_zero _)
  | succ n ih =>
      rw [pollDRQ, bind_run (inb_status c w)]
      by_cases hbusy : (w.channels c).busy = 0
      · rw [status_moving hbusy hphase, if_neg (by decide), if_pos (by decide), rested_of_busy hbusy]
        rfl
      · rw [status_busy hbusy, if_neg (by decide), if_neg (by decide),
          ih (by rw [channels_withDrives]; exact polled_lt hbusy h)
            (by rw [channels_withDrives]; exact hphase),
          channels_withDrives, withDrives_withDrives]
        rfl

theorem waitBSY_run {w : World} (h : Ready (w.channels c)) :
    (waitBSY c.ioBase).run w = (true, w.withDrives c (w.channels c).rested) :=
  pollBSY_run h.busy

theorem waitDRQ_run {w : World} (h : Ready (w.channels c)) (hphase : (w.channels c).phase ≠ .idle) :
    (waitDRQ c.ioBase).run w = (true, w.withDrives c (w.channels c).rested) :=
  pollDRQ_run h.busy hphase

end

/-! ## Addressing a sector -/

/-- The drive after the driver has selected it and has written the address of a sector. -/
def Drives.addressed (s : Drives) (drive : UInt8) (lba : Nat) : Drives :=
  { s with
    hddevsel := (0xE0 ||| (drive.toNat &&& 1) <<< 4 ||| (lba >>> 24 &&& 0x0F)) % 2 ^ 8
    seccount := 1
    lba0 := lba &&& 0xFF
    lba1 := lba >>> 8 &&& 0xFF
    lba2 := lba >>> 16 &&& 0xFF }

/-- The low and the high part of the device register. -/
theorem hddevsel_eq (drive : UInt8) (lba : Nat) :
    ((0xE0 ||| (drive.toNat &&& 1) <<< 4 ||| (lba >>> 24 &&& 0x0F)) % 2 ^ 8) % 16 =
        lba / 2 ^ 24 % 16 ∧
      ((0xE0 ||| (drive.toNat &&& 1) <<< 4 ||| (lba >>> 24 &&& 0x0F)) % 2 ^ 8) / 16 % 2 =
        drive.toNat % 2 := by
  have hall : ∀ (b : Fin 2) (high : Fin 16),
      ((0xE0 ||| b.val <<< 4 ||| high.val) % 2 ^ 8) % 16 = high ∧
        ((0xE0 ||| b.val <<< 4 ||| high.val) % 2 ^ 8) / 16 % 2 = b := by decide
  rw [Nat.and_one_is_mod, show lba >>> 24 &&& 0x0F = lba / 2 ^ 24 % 16 by
    rw [Nat.shiftRight_eq_div_pow]
    exact Nat.and_two_pow_sub_one_eq_mod _ 4]
  exact hall ⟨drive.toNat % 2, by omega⟩ ⟨lba / 2 ^ 24 % 16, by omega⟩

theorem address_addressed (s : Drives) (drive : UInt8) (lba : Nat) :
    (s.addressed drive lba).address = lba % 2 ^ 28 := by
  have hbyte : ∀ n, n &&& 0xFF = n % 2 ^ 8 := fun n => Nat.and_two_pow_sub_one_eq_mod n 8
  change (lba &&& 0xFF) + 2 ^ 8 * (lba >>> 8 &&& 0xFF) + 2 ^ 16 * (lba >>> 16 &&& 0xFF) +
    2 ^ 24 * (_ % 2 ^ 8 % 16) = _
  rw [(hddevsel_eq drive lba).1, hbyte, hbyte, hbyte, Nat.shiftRight_eq_div_pow,
    Nat.shiftRight_eq_div_pow]
  omega

theorem selected_addressed (s : Drives) (drive : UInt8) (lba : Nat) :
    (s.addressed drive lba).selected = drive.toNat % 2 := (hddevsel_eq drive lba).2

/-! ## Moving the words of a sector -/

/-- The drive while the words of one sector are moved. -/
def Drives.mid (s : Drives) (write : Bool) (drive address k : Nat) : Drives :=
  if k = 256 then { s.works with phase := .idle }
  else { s with phase := .moving write drive address k 256 }

theorem mid_eq {k : Nat} (hk : k < 256) (s : Drives) (write : Bool) (drive address : Nat) :
    s.mid write drive address k = { s with phase := .moving write drive address k 256 } :=
  if_neg (Nat.ne_of_lt hk)

theorem inw_mid {k : Nat} (hk : k < 256) (s : Drives) (drive address : Nat) :
    (s.mid false drive address k).inw =
      (s.sectors drive address k, s.mid false drive address (k + 1)) := by
  have hword : s.sectors drive (address + k / 256) (k % 256) = s.sectors drive address k := by
    rw [Nat.div_eq_of_lt hk, Nat.mod_eq_of_lt hk, Nat.add_zero]
  rw [mid_eq hk, ← hword]
  rfl

theorem outw_mid {k : Nat} (hk : k < 256) (s : Drives) (drive address : Nat)
    (sectors : Nat → Nat → Nat → BitVec 16) (value : BitVec 16) :
    ({ s.mid true drive address k with sectors := sectors } : Drives).outw value =
      { s.mid true drive address (k + 1) with
        sectors := Drives.putWord sectors drive address k value } := by
  have hword : Drives.putWord sectors drive (address + k / 256) (k % 256) value =
      Drives.putWord sectors drive address k value := by
    rw [Nat.div_eq_of_lt hk, Nat.mod_eq_of_lt hk, Nat.add_zero]
  rw [mid_eq hk, ← hword]
  unfold Drives.mid
  simp only [Drives.outw, Drives.advance]
  split
  · rfl
  · rfl

/-- The buffer after `k` words of a sector were read to `index`. -/
def readInto (words sector : Nat → BitVec 16) (index k : Nat) : Nat → BitVec 16 :=
  fun q => if index ≤ q ∧ q < index + k then sector (q - index) else words q

/-- The sectors of the drives after `k` words were written to one of them. -/
def writtenTo (sectors : Nat → Nat → Nat → BitVec 16) (drive address : Nat)
    (words : Nat → BitVec 16) (index k : Nat) : Nat → Nat → Nat → BitVec 16 :=
  fun d a j => if d = drive ∧ a = address ∧ j < k then words (index + j) else sectors d a j

theorem readInto_succ (words sector : Nat → BitVec 16) (index k : Nat) :
    Function.update (readInto words sector index k) (index + k) (sector k) =
      readInto words sector index (k + 1) := by
  funext q
  unfold readInto
  rcases eq_or_ne q (index + k) with rfl | hne
  · rw [Function.update_self, if_pos (by omega), Nat.add_sub_cancel_left]
  · rw [Function.update_of_ne hne]
    by_cases hin : index ≤ q ∧ q < index + k
    · rw [if_pos hin, if_pos (by omega)]
    · rw [if_neg hin, if_neg (by omega)]

theorem writtenTo_succ (sectors : Nat → Nat → Nat → BitVec 16) (drive address : Nat)
    (words : Nat → BitVec 16) (index k : Nat) :
    Drives.putWord (writtenTo sectors drive address words index k) drive address k
        (words (index + k)) =
      writtenTo sectors drive address words index (k + 1) := by
  funext d a j
  unfold Drives.putWord writtenTo
  rcases eq_or_ne d drive with rfl | hd
  · rw [Function.update_self]
    rcases eq_or_ne a address with rfl | ha
    · rw [Function.update_self]
      rcases eq_or_ne j k with rfl | hj
      · rw [Function.update_self, if_pos ⟨rfl, rfl, Nat.lt_succ_self _⟩]
      · rw [Function.update_of_ne hj]
        by_cases hlt : j < k
        · rw [if_pos ⟨rfl, rfl, hlt⟩, if_pos ⟨rfl, rfl, by omega⟩]
        · rw [if_neg (fun h => hlt h.2.2), if_neg (fun h => hlt (by have := h.2.2; omega))]
    · rw [Function.update_of_ne ha, if_neg (fun h => ha h.2.1), if_neg (fun h => ha h.2.1)]
  · rw [Function.update_of_ne hd, if_neg (fun h => hd h.1), if_neg (fun h => hd h.1)]

theorem readWords_run {c : Channel} {w : World} {drive address : Nat} (index : Nat)
    (hphase : (w.channels c).phase = .moving false drive address 0 256) :
    (readWords c.ioBase index).run w =
      ((), { w.withDrives c ((w.channels c).mid false drive address 256) with
        words := readInto w.words ((w.channels c).sectors drive address) index 256 }) := by
  let state : Nat → World := fun k =>
    { w.withDrives c ((w.channels c).mid false drive address k) with
      words := readInto w.words ((w.channels c).sectors drive address) index k }
  have hstart : state 0 = w := by
    have hdrives : (w.channels c).mid false drive address 0 = w.channels c := by
      rw [mid_eq (by decide), ← hphase]
    have hwords : readInto w.words ((w.channels c).sectors drive address) index 0 = w.words := by
      funext q
      exact if_neg (by omega)
    simp only [state, hdrives, hwords, World.withDrives, Function.update_eq_self]
  have hstep : ∀ k, 0 ≤ k → k < 0 + 256 → (do
      let value ← io.inw (c.ioBase + ATA_REG_DATA)
      modify fun w : World => { w with words := Function.update w.words (index + k) value }
        : StateM World Unit).run (state k) = ((), state (k + 1)) := by
    intro k _ hk
    have hdrives : (state k).channels c = (w.channels c).mid false drive address k :=
      Function.update_self ..
    have hread := inw_run c (state k)
    rw [hdrives, inw_mid (by omega)] at hread
    rw [show ATA_REG_DATA = 0 from rfl, bind_run hread]
    change ((), _) = ((), _)
    simp only [state, World.withDrives, Function.update_idem, ← readInto_succ]
  have hloop := times_run hstep
  rw [hstart] at hloop
  exact hloop

theorem writeWords_run {c : Channel} {w : World} {drive address : Nat} (index : Nat)
    (hphase : (w.channels c).phase = .moving true drive address 0 256) :
    (writeWords c.ioBase index).run w =
      ((), w.withDrives c { (w.channels c).mid true drive address 256 with
        sectors := writtenTo (w.channels c).sectors drive address w.words index 256 }) := by
  let state : Nat → World := fun k =>
    w.withDrives c { (w.channels c).mid true drive address k with
      sectors := writtenTo (w.channels c).sectors drive address w.words index k }
  have hstart : state 0 = w := by
    have hsectors : writtenTo (w.channels c).sectors drive address w.words index 0 =
        (w.channels c).sectors := by
      funext d a j
      exact if_neg (by omega)
    simp only [state]
    rw [mid_eq (by decide), ← hphase, hsectors]
    simp only [World.withDrives, Function.update_eq_self]
  have hstep : ∀ k, 0 ≤ k → k < 0 + 256 → (do
      let w ← get
      io.outw (c.ioBase + ATA_REG_DATA) (w.words (index + k))
        : StateM World Unit).run (state k) = ((), state (k + 1)) := by
    intro k _ hk
    have hdrives : (state k).channels c = { (w.channels c).mid true drive address k with
        sectors := writtenTo (w.channels c).sectors drive address w.words index k } :=
      Function.update_self ..
    have hget : (get : StateM World World).run (state k) = (state k, state k) := rfl
    rw [bind_run hget, show ATA_REG_DATA = 0 from rfl, outw_run, hdrives, outw_mid (by omega)]
    simp only [state, withDrives_withDrives, words_withDrives, writtenTo_succ]
  have hloop := times_run hstep
  rw [hstart] at hloop
  exact hloop

/-! ## One sector -/

/-- The driver selects the drive, writes the address of a sector and issues a command. -/
theorem issue_run {α : Type} (d : ATADiskDevice) (write : Bool) (lba : Nat) (w : World)
    (f : StateM World α) :
    (do
      selectDrive d.ioBase d.drive lba
      io.outb (d.ioBase + ATA_REG_SECCOUNT0) 1
      io.outb (d.ioBase + ATA_REG_LBA0) (lba &&& 0xFF)
      io.outb (d.ioBase + ATA_REG_LBA1) (lba >>> 8 &&& 0xFF)
      io.outb (d.ioBase + ATA_REG_LBA2) (lba >>> 16 &&& 0xFF)
      io.outb (d.ioBase + ATA_REG_COMMAND) (if write then ATA_CMD_WRITE_PIO else ATA_CMD_READ_PIO)
      f).run w =
    f.run (w.withDrives d.channel
      (((w.channels d.channel).addressed d.drive lba).transfer write)) := by
  have hselect : (selectDrive d.ioBase d.drive lba).run w = ((), w.withDrives d.channel
      ((w.channels d.channel).outb ATA_REG_HDDEVSEL
        ((0xE0 ||| (d.drive.toNat &&& 1) <<< 4 ||| (lba >>> 24 &&& 0x0F)) % 2 ^ 8))) := by
    rw [selectDrive, ATADiskDevice.ioBase, bind_run (outb_run _ w (by decide) _)]
    rfl
  rw [bind_run hselect, ATADiskDevice.ioBase, bind_run (outb_run _ _ (by decide) _),
    bind_run (outb_run _ _ (by decide) _), bind_run (outb_run _ _ (by decide) _),
    bind_run (outb_run _ _ (by decide) _), bind_run (outb_run _ _ (by decide) _)]
  simp only [channels_withDrives, withDrives_withDrives]
  cases write with
  | false => rfl
  | true => rfl

/-- The drive has a command for one sector. -/
theorem phase_transfer (s : Drives) (write : Bool) (drive : UInt8) (lba : Nat) :
    ((s.addressed drive lba).transfer write).phase =
      .moving write (drive.toNat % 2) (lba % 2 ^ 28) 0 256 := by
  change Phase.moving write (s.addressed drive lba).selected (s.addressed drive lba).address 0 256 = _
  rw [selected_addressed, address_addressed]

theorem commands_transfer (s : Drives) (write : Bool) (drive : UInt8) (lba : Nat) :
    ((s.addressed drive lba).transfer write).commands =
      s.commands ++ [⟨write, drive.toNat % 2, lba % 2 ^ 28⟩] := by
  change s.commands ++ [⟨write, (s.addressed drive lba).selected,
    (s.addressed drive lba).address⟩] = _
  rw [selected_addressed, address_addressed]

/-- The words of one sector are moved, from or to the buffer at `index`. -/
structure MovedWords (d : ATADiskDevice) (write : Bool) (address index : Nat) (w w' : World) :
    Prop where
  ready : Ready (w'.channels d.channel)
  sectors : (w'.channels d.channel).sectors =
    if write then
      writtenTo (w.channels d.channel).sectors (d.drive.toNat % 2) address w.words index 256
    else (w.channels d.channel).sectors
  words : w'.words =
    if write then w.words
    else readInto w.words ((w.channels d.channel).sectors (d.drive.toNat % 2) address) index 256

/-- What one round of the loop does. -/
structure Moved (d : ATADiskDevice) (write : Bool) (address index : Nat) (w w' : World) : Prop
    extends MovedWords d write address index w w' where
  commands : (w'.channels d.channel).commands =
    (w.channels d.channel).commands ++ [⟨write, d.drive.toNat % 2, address⟩]

theorem Ready.rested {s : Drives} (h : Ready s) : Ready s.rested :=
  ⟨show 0 < 100000 by decide, h.delays⟩

theorem Ready.mid {s : Drives} (h : Ready s) (write : Bool) (drive address k : Nat) :
    Ready (s.mid write drive address k) := by
  unfold Drives.mid
  split
  · exact ⟨h.delays 0, fun n => h.delays (n + 1)⟩
  · exact ⟨h.busy, h.delays⟩

theorem moveSector_moved {d : ATADiskDevice} {w : World} {write : Bool} {address : Nat} (index : Nat)
    (h : Ready (w.channels d.channel))
    (hphase : (w.channels d.channel).phase = .moving write (d.drive.toNat % 2) address 0 256) :
    Returns (moveSector d write index) w true fun w' =>
      MovedWords d write address index w w' ∧
        (w'.channels d.channel).commands = (w.channels d.channel).commands := by
  have hmid : ∀ k, ((w.channels d.channel).mid write (d.drive.toNat % 2) address k).commands =
      (w.channels d.channel).commands := by
    intro k
    unfold Drives.mid
    split <;> rfl
  have hsectors : ∀ k, ((w.channels d.channel).mid write (d.drive.toNat % 2) address k).sectors =
      (w.channels d.channel).sectors := by
    intro k
    unfold Drives.mid
    split <;> rfl
  have hready := h.mid write (d.drive.toNat % 2) address 256
  unfold moveSector
  rw [Returns, show d.ioBase = d.channel.ioBase from rfl]
  cases write with
  | false =>
      rw [if_neg (by decide), bind_run (readWords_run index hphase)]
      have hdrives := channels_withDrives w d.channel
        ((w.channels d.channel).mid false (d.drive.toNat % 2) address 256)
      refine ⟨_, rfl, ⟨?_, ?_, rfl⟩, ?_⟩
      · exact (congrArg Ready hdrives).mpr hready
      · exact (congrArg Drives.sectors hdrives).trans (hsectors 256)
      · exact (congrArg Drives.commands hdrives).trans (hmid 256)
  | true =>
      rw [if_pos rfl, bind_run (writeWords_run index hphase), bind_run (outb_run _ _ (by decide) _),
        channels_withDrives, withDrives_withDrives]
      -- the flush is the last command, so the drive is busy once more
      rw [waitBSY_run (by
        rw [channels_withDrives]
        exact ⟨hready.delays 0, fun n => hready.delays (n + 1)⟩), withDrives_withDrives,
        channels_withDrives]
      refine ⟨_, rfl, ⟨?_, ?_, rfl⟩, ?_⟩
      · rw [channels_withDrives]
        exact ⟨show 0 < 100000 by decide, fun n => hready.delays (n + 1)⟩
      · rw [channels_withDrives]
        rfl
      · rw [channels_withDrives]
        exact hmid 256

theorem accessSector_moved {d : ATADiskDevice} {w : World} (h : Ready (w.channels d.channel))
    (write : Bool) (lba sector : Nat) :
    Returns (accessSector d write lba sector) w true
      (Moved d write (add64 lba sector % 2 ^ 28) (mul32 sector 256) w) := by
  let s := ((w.channels d.channel).rested.addressed d.drive (add64 lba sector)).transfer write
  let w' := w.withDrives d.channel s
  have hready : Ready s := ⟨h.delays 0, fun n => h.delays (n + 1)⟩
  have hphase : s.phase = .moving write (d.drive.toNat % 2) (add64 lba sector % 2 ^ 28) 0 256 :=
    phase_transfer ..
  have hcommands : s.commands = (w.channels d.channel).commands ++
      [⟨write, d.drive.toNat % 2, add64 lba sector % 2 ^ 28⟩] := commands_transfer ..
  have hdrives : w'.channels d.channel = s := channels_withDrives ..
  have hrequest : (waitDRQ d.channel.ioBase).run w' = (true, w'.withDrives d.channel s.rested) := by
    have hrun := waitDRQ_run (c := d.channel) (w := w') (by rw [hdrives]; exact hready)
      (by rw [hdrives, hphase]; simp)
    rwa [hdrives] at hrun
  have hmoved := moveSector_moved (d := d) (w := w'.withDrives d.channel s.rested)
    (mul32 sector 256) (by rw [channels_withDrives]; exact hready.rested)
    (by rw [channels_withDrives]; exact hphase)
  obtain ⟨w'', hrun, hwords, hsame⟩ := hmoved
  refine ⟨w'', ?_, ?_, ?_⟩
  · unfold accessSector
    rw [show d.ioBase = d.channel.ioBase from rfl, bind_run (waitBSY_run h), if_neg (by decide)]
    rw [show d.channel.ioBase = d.ioBase from rfl, issue_run, channels_withDrives,
      withDrives_withDrives]
    rw [show d.ioBase = d.channel.ioBase from rfl, bind_run hrequest, if_neg (by decide)]
    exact hrun
  · obtain ⟨hready', hsectors, hwords⟩ := hwords
    rw [channels_withDrives] at hsectors hwords
    exact ⟨hready', hsectors, hwords⟩
  · rw [hsame, channels_withDrives]
    exact hcommands

/-! ## All sectors of a transfer -/

/-- The part of the buffer that a wrapped index does not reach stays as it is. -/
theorem accessLoop_returns {d : ATADiskDevice} (write : Bool) (lba : Nat) {sector n : Nat} {w : World}
    (h : Ready (w.channels d.channel)) :
    Returns (accessLoop d write lba sector n) w true fun w' =>
      ∀ q, 2 ^ 32 ≤ q → w'.words q = w.words q := by
  induction n generalizing sector w with
  | zero => exact ⟨w, rfl, fun q _ => rfl⟩
  | succ n ih =>
      refine (accessSector_moved h write lba sector).bind fun w' hmoved => ?_
      refine (ih hmoved.ready).imp fun w'' hrest q hq => ?_
      rw [hrest q hq, hmoved.words]
      cases write with
      | true => rfl
      | false =>
          have hindex : mul32 sector 256 + 256 ≤ 2 ^ 32 := by
            unfold mul32 Words.mul
            omega
          exact if_neg (by omega)

/-- What the rounds of a transfer from `first` on should do: one command for each sector, and
afterwards the words of the sectors are those of the buffer.  A write leaves the buffer
and all other sectors alone, and a read all sectors and the rest of the buffer. -/
structure Transferred (d : ATADiskDevice) (write : Bool) (lba first count : Nat) (w w' : World) :
    Prop where
  commands : (w'.channels d.channel).commands = (w.channels d.channel).commands ++
    (List.range' first count).map fun i => ⟨write, d.drive.toNat % 2, lba + i⟩
  words : ∀ i, first ≤ i → i < first + count → ∀ j < 256,
    (w'.channels d.channel).sectors (d.drive.toNat % 2) (lba + i) j = w'.words (256 * i + j)
  buffer : ∀ q, write = true ∨ q < 256 * first ∨ 256 * (first + count) ≤ q →
    w'.words q = w.words q
  sectors : ∀ drive address,
    write = false ∨ drive ≠ d.drive.toNat % 2 ∨ address < lba + first ∨ lba + first + count ≤ address →
    (w'.channels d.channel).sectors drive address = (w.channels d.channel).sectors drive address

theorem Transferred.nil (d : ATADiskDevice) (write : Bool) (lba first : Nat) (w : World) :
    Transferred d write lba first 0 w w where
  commands := (List.append_nil _).symm
  words _ _ _ := by omega
  buffer _ _ := rfl
  sectors _ _ _ := rfl

/-- One round, when neither the address nor the index wraps. -/
theorem Moved.transferred {d : ATADiskDevice} {write : Bool} {lba sector : Nat} {w w' : World}
    (h : Moved d write (lba + sector) (256 * sector) w w') :
    Transferred d write lba sector 1 w w' where
  commands := h.commands
  words i hfirst hlast j hj := by
    obtain rfl : i = sector := by omega
    rw [h.sectors, h.words]
    cases write with
    | false =>
        refine Eq.symm ((if_pos (by omega)).trans ?_)
        rw [Nat.add_sub_cancel_left]
        rfl
    | true => exact if_pos ⟨rfl, rfl, hj⟩
  buffer q hq := by
    rw [h.words]
    cases write with
    | false => exact if_neg (by simp at hq; omega)
    | true => rfl
  sectors drive address hother := by
    rw [h.sectors]
    cases write with
    | false => rfl
    | true =>
        funext j
        exact if_neg (by simp at hother; omega)

theorem Transferred.cons {d : ATADiskDevice} {write : Bool} {lba first n : Nat} {w w' w'' : World}
    (h : Transferred d write lba first 1 w w') (hrest : Transferred d write lba (first + 1) n w' w'') :
    Transferred d write lba first (n + 1) w w'' where
  commands := by
    rw [hrest.commands, h.commands, List.append_assoc]
    rfl
  words i hfirst hlast j hj := by
    rcases Nat.eq_or_lt_of_le hfirst with rfl | hlt
    · rw [hrest.sectors _ _ (by omega), hrest.buffer _ (by omega)]
      exact h.words first (Nat.le_refl _) (by omega) j hj
    · exact hrest.words i hlt (by omega) j hj
  buffer q hq := by
    rw [hrest.buffer q (hq.imp_right fun h => by omega), h.buffer q (hq.imp_right fun h => by omega)]
  sectors drive address hother := by
    rw [hrest.sectors drive address (hother.imp_right fun h => by omega),
      h.sectors drive address (hother.imp_right fun h => by omega)]

theorem accessLoop_transferred {d : ATADiskDevice} (write : Bool) {lba sector n : Nat} {w : World}
    (h : Ready (w.channels d.channel)) (haddress : lba + sector + n ≤ 2 ^ 28)
    (hindex : sector + n ≤ 2 ^ 24) :
    Returns (accessLoop d write lba sector n) w true fun w' =>
      Ready (w'.channels d.channel) ∧ Transferred d write lba sector n w w' := by
  induction n generalizing sector w with
  | zero => exact ⟨w, rfl, h, .nil d write lba sector w⟩
  | succ n ih =>
      have hlba : add64 lba sector % 2 ^ 28 = lba + sector := by
        unfold add64 Words.add
        omega
      have hbuffer : mul32 sector 256 = 256 * sector := by
        unfold mul32 Words.mul
        omega
      have hround := accessSector_moved h write lba sector
      rw [hlba, hbuffer] at hround
      refine hround.bind fun w' hmoved => ?_
      refine (ih hmoved.ready (by omega) (by omega)).imp fun w'' hrest => ?_
      exact ⟨hrest.1, hmoved.transferred.cons hrest.2⟩

/-! ## Transfers of any range -/

/-- Some block of the range is not on the disk or has no 28-bit address. -/
def Exceeds (d : ATADiskDevice) (lba : UInt64) (count : UInt32) : Prop :=
  ∃ i < count.toNat, d.blockCount.toNat ≤ lba.toNat + i ∨ 2 ^ 28 ≤ lba.toNat + i

/-- Transfers of a range are as they should be, on a drive that always becomes ready. -/
structure Exact (d : ATADiskDevice) (lba : UInt64) (count : UInt32) : Prop where
  refused : Exceeds d lba count → ∀ write w, Ready (w.channels d.channel) →
    (access d write lba count).run w = (false, w)
  transferred : ∀ write w w', Ready (w.channels d.channel) →
    (access d write lba count).run w = (true, w') →
    Transferred d write lba.toNat 0 count.toNat w w'
  /-- A read into another buffer after a write. -/
  written : ∀ w w' buffer w'', Ready (w.channels d.channel) →
    (writeBlocks d lba count).run w = (true, w') →
    (readBlocks d lba count).run { w' with words := buffer } = (true, w'') →
    ∀ q < 256 * count.toNat, w''.words q = w.words q

/-- The range is refused, or it has 28-bit addresses and the buffer 32-bit indices. -/
def InReach (d : ATADiskDevice) (lba : UInt64) (count : UInt32) : Prop :=
  count = 0 ∨ 2 ^ 28 ≤ lba.toNat ∨ d.blockCount.toNat < lba.toNat + count.toNat ∨
    (lba.toNat + count.toNat ≤ 2 ^ 28 ∧ count.toNat ≤ 2 ^ 24)

theorem toNat_add_count {lba : UInt64} (h : lba.toNat < 2 ^ 28) (count : UInt32) :
    (lba + count.toUInt64).toNat = lba.toNat + count.toNat := by
  have hcount := count.toNat_lt
  rw [UInt64.toNat_add, UInt32.toNat_toUInt64]
  omega

section

variable {d : ATADiskDevice} {lba : UInt64} {count : UInt32}

theorem access_empty (write : Bool) (w : World) : (access d write lba 0).run w = (true, w) := rfl

theorem access_refused (hcount : count ≠ 0)
    (h : 2 ^ 28 ≤ lba.toNat ∨ d.blockCount.toNat < lba.toNat + count.toNat) (write : Bool) (w : World) :
    (access d write lba count).run w = (false, w) := by
  unfold access
  rw [if_neg hcount]
  by_cases hsize : lba + count.toUInt64 > d.blockCount
  · rw [if_pos hsize]
    rfl
  · by_cases hlimit : lba > 0x0FFFFFFF
    · rw [if_neg hsize, if_pos hlimit]
      rfl
    · have hsmall : lba.toNat < 2 ^ 28 := by
        have hle := UInt64.le_iff_toNat_le.mp (UInt64.not_lt.mp hlimit)
        exact Nat.lt_of_le_of_lt hle (by decide)
      have hle := UInt64.le_iff_toNat_le.mp (UInt64.not_lt.mp hsize)
      rw [toNat_add_count hsmall] at hle
      omega

theorem access_accepted (hcount : count ≠ 0) (hlba : lba.toNat < 2 ^ 28)
    (hsize : lba.toNat + count.toNat ≤ d.blockCount.toNat) (write : Bool) :
    access d write lba count = accessLoop d write lba.toNat 0 count.toNat := by
  have hfits : ¬ lba + count.toUInt64 > d.blockCount := by
    intro hgt
    have hlt := UInt64.lt_iff_toNat_lt.mp hgt
    rw [toNat_add_count hlba] at hlt
    omega
  have hlimit : ¬ lba > 0x0FFFFFFF := by
    intro hgt
    have hlt := UInt64.lt_iff_toNat_lt.mp hgt
    have hvalue : (0x0FFFFFFF : UInt64).toNat = 2 ^ 28 - 1 := by decide
    omega
  rw [access, if_neg hcount, if_neg hfits, if_neg hlimit]

/-- A range that is empty, refused, or within reach. -/
theorem InReach.cases (h : InReach d lba count) :
    count = 0 ∨
      count ≠ 0 ∧ (2 ^ 28 ≤ lba.toNat ∨ d.blockCount.toNat < lba.toNat + count.toNat) ∨
      count ≠ 0 ∧ lba.toNat < 2 ^ 28 ∧ lba.toNat + count.toNat ≤ d.blockCount.toNat ∧
        lba.toNat + count.toNat ≤ 2 ^ 28 ∧ count.toNat ≤ 2 ^ 24 := by
  by_cases hcount : count = 0
  · exact .inl hcount
  · have hrest := h.resolve_left hcount
    have hpos : 0 < count.toNat := by
      rw [Nat.pos_iff_ne_zero]
      exact fun hzero => hcount (UInt32.toNat_inj.mp hzero)
    by_cases hrefused : 2 ^ 28 ≤ lba.toNat ∨ d.blockCount.toNat < lba.toNat + count.toNat
    · exact .inr (.inl ⟨hcount, hrefused⟩)
    · refine .inr (.inr ⟨hcount, ?_⟩)
      omega

/-- A transfer that succeeds within reach is as it should be, and leaves a drive that
becomes ready. -/
theorem InReach.transferred (h : InReach d lba count) {write : Bool} {w w' : World}
    (hready : Ready (w.channels d.channel)) (hrun : (access d write lba count).run w = (true, w')) :
    Ready (w'.channels d.channel) ∧ Transferred d write lba.toNat 0 count.toNat w w' := by
  rcases h.cases with rfl | ⟨hcount, hrefused⟩ | ⟨hcount, hlba, hsize, haddress, hindex⟩
  · rw [access_empty] at hrun
    cases hrun
    exact ⟨hready, .nil ..⟩
  · rw [access_refused hcount hrefused] at hrun
    cases hrun
  · rw [access_accepted hcount hlba hsize] at hrun
    have haccess : Returns (accessLoop d write lba.toNat 0 count.toNat) w true _ :=
      accessLoop_transferred write hready haddress (by omega)
    obtain ⟨w'', hloop, hpost⟩ := haccess
    cases hrun.symm.trans hloop
    exact hpost

theorem InReach.exact (h : InReach d lba count) : Exact d lba count where
  refused hexceeds write w _ := by
    obtain ⟨i, hi, hbeyond⟩ := hexceeds
    rcases h.cases with rfl | ⟨hcount, hrefused⟩ | ⟨hcount, hlba, hsize, haddress, hindex⟩
    · exact absurd hi (Nat.not_lt_zero i)
    · exact access_refused hcount hrefused write w
    · omega
  transferred write w w' hready hrun := (h.transferred hready hrun).2
  written w w' buffer w'' hready hwrite hread q hq := by
    obtain ⟨hready', hout⟩ := h.transferred hready hwrite
    obtain ⟨-, hin⟩ := h.transferred (w := { w' with words := buffer }) hready' hread
    have hcell : 256 * (q / 256) + q % 256 = q := Nat.div_add_mod q 256
    have hback := hin.words (q / 256) (by omega) (by omega) (q % 256) (Nat.mod_lt _ (by decide))
    have hforth := hout.words (q / 256) (by omega) (by omega) (q % 256) (Nat.mod_lt _ (by decide))
    rw [hcell] at hback hforth
    rw [← hback, hin.sectors _ _ (.inl rfl), ← hout.buffer q (.inl rfl)]
    exact hforth

end

/-- Drives that are always ready at once, with ones in every sector. -/
def readyDrives : Drives :=
  { seccount := 0, lba0 := 0, lba1 := 0, lba2 := 0, hddevsel := 0, phase := .idle, busy := 0,
    delays := fun _ => 0, sectors := fun _ _ _ => 1, commands := [] }

/-- An empty buffer. -/
def readyWorld : World := { channels := fun _ => readyDrives, words := fun _ => 0 }

theorem readyWorld_ready (c : Channel) : Ready (readyWorld.channels c) :=
  ⟨show 0 < 100000 by decide, fun _ => show 0 < 100000 by decide⟩

/-- Out of reach, a range past the 28-bit limit is accepted, and a buffer of more than
`2 ^ 32` words is not filled to its end. -/
theorem Exact.inReach {d : ATADiskDevice} {lba : UInt64} {count : UInt32} (h : Exact d lba count) :
    InReach d lba count := by
  by_contra hfar
  have hcount : count ≠ 0 := fun hzero => hfar (.inl hzero)
  have hlba : lba.toNat < 2 ^ 28 := Nat.lt_of_not_le fun hle => hfar (.inr (.inl hle))
  have hsize : lba.toNat + count.toNat ≤ d.blockCount.toNat :=
    Nat.le_of_not_lt fun hlt => hfar (.inr (.inr (.inl hlt)))
  have hready := readyWorld_ready d.channel
  have hreturns : Returns (accessLoop d false lba.toNat 0 count.toNat) _ true _ :=
    accessLoop_returns false lba.toNat hready
  obtain ⟨w', hrun, hwords⟩ := hreturns
  rw [← access_accepted hcount hlba hsize] at hrun
  by_cases hlimit : lba.toNat + count.toNat ≤ 2 ^ 28
  · have hlarge : 2 ^ 24 < count.toNat :=
      Nat.lt_of_not_le fun hle => hfar (.inr (.inr (.inr ⟨hlimit, hle⟩)))
    have htransferred := h.transferred false readyWorld w' hready hrun
    have hword := htransferred.words (2 ^ 24) (by omega) (by omega) 0 (by decide)
    rw [htransferred.sectors _ _ (.inl rfl), hwords _ (by decide)] at hword
    exact absurd (show 1#16 = 0#16 from hword) (by decide)
  · have hrefused := h.refused ⟨count.toNat - 1, by omega, .inr (by omega)⟩ false readyWorld hready
    rw [hrun] at hrefused
    cases hrefused

/-- Transfers are as they should be exactly for the ranges within reach. -/
theorem access_exact_iff (d : ATADiskDevice) (lba : UInt64) (count : UInt32) :
    Exact d lba count ↔ InReach d lba count :=
  ⟨Exact.inReach, InReach.exact⟩

/-- A disk of `2 ^ 28 + 1` blocks accepts a range that ends with its last block. -/
theorem not_exact_last_block : ¬ Exact ⟨.primary, 0, 0x10000001⟩ 0x0FFFFFFF 2 := by
  intro h
  exact absurd h.inReach (by unfold InReach; decide)

end Avery.Ata
