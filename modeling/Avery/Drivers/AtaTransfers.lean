import Avery.Drivers.Ata
import Avery.Library.Simulation

/-!
# Transfers one after the other

The sectors of all drives are one array for the callers of `readBlocks` and `writeBlocks`:
a read returns what the last write to each of its sectors has stored, whatever transfers
on other disks or other sectors came between, and a transfer past the end of its disk fails
and changes nothing.  `accessLoop_transferred` speaks about the channel of the disk.  What
it leaves out is the other channel, which no port of a transfer belongs to
(`access_keeps`).
-/

namespace Avery.Ata

open Stateful Simulation

/-! ## The other channel -/

section

variable {c other : Channel} (h : other ≠ c)
include h

theorem withDrives_other (w : World) (s : Drives) :
    (w.withDrives c s).channels other = w.channels other := Function.update_of_ne h ..

theorem outb_keeps {reg : Nat} (hreg : reg < 8) (value : Nat) :
    Keeps (fun w => w.channels other) (io.outb (c.ioBase + reg) value) := by
  intro w
  rw [outb_run c w hreg]
  exact withDrives_other h ..

theorem inb_keeps {reg : Nat} (hreg : reg < 8) :
    Keeps (fun w => w.channels other) (io.inb (c.ioBase + reg)) := by
  intro w
  rw [inb_run c w hreg]
  exact withDrives_other h ..

theorem pollBSY_keeps (n : Nat) : Keeps (fun w => w.channels other) (pollBSY c.ioBase n) := by
  induction n with
  | zero => exact .pure false
  | succ n ih =>
      refine (inb_keeps h (by decide)).bind fun status => ?_
      split
      · exact .pure true
      · exact ih

theorem pollDRQ_keeps (n : Nat) : Keeps (fun w => w.channels other) (pollDRQ c.ioBase n) := by
  induction n with
  | zero => exact .pure false
  | succ n ih =>
      refine (inb_keeps h (by decide)).bind fun status => ?_
      split
      · exact .pure false
      · split
        · exact .pure true
        · exact ih

theorem selectDrive_keeps (drive : UInt8) (lba : Nat) :
    Keeps (fun w => w.channels other) (selectDrive c.ioBase drive lba) :=
  (outb_keeps h (by decide) _).bind fun _ _ => rfl

theorem readWords_keeps (index : Nat) :
    Keeps (fun w => w.channels other) (readWords c.ioBase index) := by
  refine Keeps.times (fun k => ?_) 0 256
  refine Keeps.bind (fun w => ?_) fun value w => rfl
  rw [show ATA_REG_DATA = 0 from rfl, inw_run]
  exact withDrives_other h ..

theorem writeWords_keeps (index : Nat) :
    Keeps (fun w => w.channels other) (writeWords c.ioBase index) := by
  refine Keeps.times (fun k => ?_) 0 256
  refine Keeps.bind (fun w => rfl) fun before w => ?_
  rw [show ATA_REG_DATA = 0 from rfl, outw_run]
  exact withDrives_other h ..

end

section

variable {d : ATADiskDevice} {other : Channel} (h : other ≠ d.channel)
include h

theorem moveSector_keeps (write : Bool) (index : Nat) :
    Keeps (fun w => w.channels other) (moveSector d write index) := by
  unfold moveSector
  split
  · refine (writeWords_keeps h index).bind fun _ => ?_
    exact (outb_keeps h (by decide) _).bind fun _ => pollBSY_keeps h _
  · exact (readWords_keeps h index).bind fun _ => .pure true

theorem accessSector_keeps (write : Bool) (lba sector : Nat) :
    Keeps (fun w => w.channels other) (accessSector d write lba sector) := by
  refine (pollBSY_keeps h _).bind fun idle => ?_
  split
  · exact .pure false
  · refine (selectDrive_keeps h _ _).bind fun _ => ?_
    refine (outb_keeps h (by decide) _).bind fun _ => ?_
    refine (outb_keeps h (by decide) _).bind fun _ => ?_
    refine (outb_keeps h (by decide) _).bind fun _ => ?_
    refine (outb_keeps h (by decide) _).bind fun _ => ?_
    refine (outb_keeps h (by decide) _).bind fun _ => ?_
    refine (pollDRQ_keeps h _).bind fun requested => ?_
    split
    · exact .pure false
    · exact moveSector_keeps h write _

theorem accessLoop_keeps (write : Bool) (lba sector n : Nat) :
    Keeps (fun w => w.channels other) (accessLoop d write lba sector n) := by
  induction n generalizing sector with
  | zero => exact .pure true
  | succ n ih =>
      refine (accessSector_keeps h write lba sector).bind fun moved => ?_
      split
      · exact .pure false
      · exact ih (sector + 1)

theorem access_keeps (write : Bool) (lba : UInt64) (count : UInt32) :
    Keeps (fun w => w.channels other) (access d write lba count) := by
  unfold access
  split
  · exact .pure true
  · split
    · exact .pure false
    · split
      · exact .pure false
      · exact accessLoop_keeps h write _ 0 _

end

/-! ## Requests -/

/-- A call of `readBlocks` or `writeBlocks`.  Identification knows at most `2 ^ 28` blocks,
and a buffer has fewer than `2 ^ 32` words. -/
structure Request where
  disk : ATADiskDevice
  write : Bool
  lba : UInt64
  count : UInt32
  buffer : Nat → BitVec 16
  blocks : disk.blockCount.toNat ≤ 2 ^ 28
  words : count.toNat ≤ 2 ^ 24

/-- Whether a call succeeds, and the buffer afterwards. -/
structure Outcome where
  ok : Bool
  buffer : Nat → BitVec 16

namespace Request

def call (r : Request) : StateM World Bool :=
  if r.write then writeBlocks r.disk r.lba r.count else readBlocks r.disk r.lba r.count

theorem call_eq (r : Request) : r.call = access r.disk r.write r.lba r.count := by
  cases hwrite : r.write with
  | false => rw [call, hwrite, if_neg (by decide), readBlocks]
  | true => rw [call, hwrite, if_pos rfl, writeBlocks]

/-- The call, with its own buffer. -/
def perform (s : World × List Outcome) (r : Request) : World × List Outcome :=
  let result := r.call.run { s.1 with words := r.buffer }
  (result.2, s.2 ++ [⟨result.1, result.2.words⟩])

end Request

/-! ## The array of all sectors -/

/-- The words of every sector, for each channel, drive and address. -/
abbrev Sectors := Channel → Nat → Nat → Nat → BitVec 16

/-- The sector belongs to the range of the request. -/
def Request.Covers (r : Request) (c : Channel) (drive address : Nat) : Prop :=
  c = r.disk.channel ∧ drive = r.disk.drive.toNat % 2 ∧
    r.lba.toNat ≤ address ∧ address < r.lba.toNat + r.count.toNat

instance (r : Request) (c : Channel) (drive address : Nat) : Decidable (r.Covers c drive address) :=
  inferInstanceAs (Decidable (_ ∧ _))

/-- The range of the request is on its disk. -/
def Request.Fits (r : Request) : Prop :=
  r.count = 0 ∨ r.lba.toNat + r.count.toNat ≤ r.disk.blockCount.toNat

instance (r : Request) : Decidable r.Fits := inferInstanceAs (Decidable (_ ∨ _))

namespace Sectors

def store (t : Sectors) (r : Request) : Sectors := fun c drive address j =>
  if r.Covers c drive address then r.buffer (256 * (address - r.lba.toNat) + j)
  else t c drive address j

def load (t : Sectors) (r : Request) : Nat → BitVec 16 := fun q =>
  if q < 256 * r.count.toNat then
    t r.disk.channel (r.disk.drive.toNat % 2) (r.lba.toNat + q / 256) (q % 256)
  else r.buffer q

def perform (s : Sectors × List Outcome) (r : Request) : Sectors × List Outcome :=
  if ¬ r.Fits then (s.1, s.2 ++ [⟨false, r.buffer⟩])
  else if r.write then (s.1.store r, s.2 ++ [⟨true, r.buffer⟩])
  else (s.1, s.2 ++ [⟨true, s.1.load r⟩])

end Sectors

/-! ## Refinement -/

/-- All drives become ready, and their sectors are those of the array. -/
structure Stores (w : World) (t : Sectors) : Prop where
  ready : ∀ c, Ready (w.channels c)
  words : ∀ c drive address, ∀ j < 256,
    (w.channels c).sectors drive address j = t c drive address j

/-- A transfer of the whole range, and nothing on the other channel. -/
theorem Request.call_fits {r : Request} (hfits : r.Fits) {w : World}
    (hready : ∀ c, Ready (w.channels c)) :
    Returns r.call w true fun w' =>
      (∀ c, Ready (w'.channels c)) ∧
      Transferred r.disk r.write r.lba.toNat 0 r.count.toNat w w' ∧
      ∀ other, other ≠ r.disk.channel → w'.channels other = w.channels other := by
  have hother : ∀ other, other ≠ r.disk.channel →
      (r.call.run w).2.channels other = w.channels other := by
    intro other hne
    rw [r.call_eq]
    exact access_keeps hne r.write r.lba r.count w
  suffices hcall : Returns r.call w true fun w' => Ready (w'.channels r.disk.channel) ∧
      Transferred r.disk r.write r.lba.toNat 0 r.count.toNat w w' by
    obtain ⟨w', hrun, hready', htransferred⟩ := hcall
    rw [hrun] at hother
    refine ⟨w', hrun, fun c => ?_, htransferred, hother⟩
    rcases eq_or_ne c r.disk.channel with rfl | hne
    · exact hready'
    · rw [hother c hne]
      exact hready c
  rw [r.call_eq]
  by_cases hcount : r.count = 0
  · rw [hcount]
    exact ⟨w, access_empty r.write w, hready _, .nil ..⟩
  · have hsize := hfits.resolve_left hcount
    have hblocks := r.blocks
    have hwords := r.words
    have hpos : 0 < r.count.toNat := by
      rw [Nat.pos_iff_ne_zero]
      exact fun hzero => hcount (UInt32.toNat_inj.mp hzero)
    rw [access_accepted hcount (by omega) hsize]
    exact accessLoop_transferred r.write (hready _) (by omega) (by omega)

/-- A range that is not on the disk. -/
theorem Request.call_refused {r : Request} (hfits : ¬ r.Fits) (w : World) :
    r.call.run w = (false, w) := by
  obtain ⟨hcount, hsize⟩ := not_or.mp hfits
  rw [r.call_eq]
  exact access_refused hcount (.inr (by omega)) r.write w

section

variable {r : Request} {w w' : World} {t : Sectors}

/-- What a write leaves on the drives. -/
theorem Stores.written (h : Stores w t) (hwrite : r.write = true)
    (hready : ∀ c, Ready (w'.channels c))
    (htransferred : Transferred r.disk r.write r.lba.toNat 0 r.count.toNat
      { w with words := r.buffer } w')
    (hother : ∀ other, other ≠ r.disk.channel → w'.channels other = w.channels other) :
    Stores w' (t.store r) where
  ready := hready
  words c drive address j hj := by
    unfold Sectors.store
    by_cases hcovers : r.Covers c drive address
    · rw [if_pos hcovers]
      obtain ⟨rfl, rfl, hlow, hhigh⟩ := hcovers
      have hword := htransferred.words (address - r.lba.toNat) (Nat.zero_le _) (by omega) j hj
      rw [htransferred.buffer _ (.inl hwrite), Nat.add_sub_cancel' hlow] at hword
      exact hword
    · rw [if_neg hcovers, ← h.words c drive address j hj]
      rcases eq_or_ne c r.disk.channel with rfl | hne
      · have hsame := htransferred.sectors drive address (by
          by_contra hin
          simp only [not_or, not_lt, not_le, Nat.add_zero] at hin
          exact hcovers ⟨rfl, not_ne_iff.mp hin.2.1, hin.2.2⟩)
        exact congrFun hsame j
      · rw [hother c hne]

/-- What a read finds. -/
theorem Stores.loaded (h : Stores w t) (hwrite : r.write = false)
    (hready : ∀ c, Ready (w'.channels c))
    (htransferred : Transferred r.disk r.write r.lba.toNat 0 r.count.toNat
      { w with words := r.buffer } w')
    (hother : ∀ other, other ≠ r.disk.channel → w'.channels other = w.channels other) :
    Stores w' t ∧ w'.words = t.load r := by
  have hsectors : ∀ drive address, (w'.channels r.disk.channel).sectors drive address =
      (w.channels r.disk.channel).sectors drive address :=
    fun drive address => htransferred.sectors drive address (.inl hwrite)
  refine ⟨⟨hready, fun c drive address j hj => ?_⟩, ?_⟩
  · rw [← h.words c drive address j hj]
    rcases eq_or_ne c r.disk.channel with rfl | hne
    · rw [hsectors]
    · rw [hother c hne]
  · funext q
    unfold Sectors.load
    by_cases hq : q < 256 * r.count.toNat
    · have hword := htransferred.words (q / 256) (Nat.zero_le _) (by omega) (q % 256)
        (Nat.mod_lt _ (by decide))
      rw [Nat.div_add_mod] at hword
      rw [if_pos hq, ← hword, hsectors]
      exact h.words _ _ _ _ (Nat.mod_lt _ (by decide))
    · rw [if_neg hq]
      exact htransferred.buffer q (.inr (.inr (by omega)))

end

/-- One call. -/
theorem perform_simulates :
    Simulates Request.perform Sectors.perform fun s t => Stores s.1 t.1 ∧ s.2 = t.2 := by
  rintro ⟨w, log⟩ ⟨t, log'⟩ r ⟨h, hlog⟩
  obtain rfl : log = log' := hlog
  unfold Request.perform Sectors.perform
  by_cases hfits : r.Fits
  · obtain ⟨w', hrun, hready, htransferred, hother⟩ :=
      Request.call_fits hfits (w := { w with words := r.buffer }) h.ready
    rw [hrun, if_neg (not_not.mpr hfits)]
    cases hwrite : r.write with
    | true =>
        rw [if_pos rfl]
        refine ⟨h.written hwrite hready htransferred hother, ?_⟩
        have hbuffer : w'.words = r.buffer :=
          funext fun q => htransferred.buffer q (.inl hwrite)
        simp only [hbuffer]
    | false =>
        rw [if_neg (by decide)]
        obtain ⟨hstores, hwords⟩ := h.loaded hwrite hready htransferred hother
        refine ⟨hstores, ?_⟩
        simp only [hwords]
  · rw [Request.call_refused hfits, if_pos hfits]
    exact ⟨⟨h.ready, h.words⟩, rfl⟩

/-- The array that a world stores. -/
def World.sectors (w : World) : Sectors := fun c => (w.channels c).sectors

theorem stores_sectors {w : World} (hready : ∀ c, Ready (w.channels c)) : Stores w w.sectors :=
  ⟨hready, fun _ _ _ _ _ => rfl⟩

/-- Every run of transfers on any disks answers as the array does, and the drives hold
what the array holds. -/
theorem transfers_refine {w : World} (hready : ∀ c, Ready (w.channels c)) (rs : List Request) :
    (rs.foldl Request.perform (w, [])).2 = (rs.foldl Sectors.perform (w.sectors, [])).2 ∧
      Stores (rs.foldl Request.perform (w, [])).1 (rs.foldl Sectors.perform (w.sectors, [])).1 := by
  have hstart : Stores w w.sectors ∧ ([] : List Outcome) = [] := ⟨stores_sectors hready, rfl⟩
  obtain ⟨hstores, hlog⟩ := perform_simulates.run (s := (w, [])) (t := (w.sectors, [])) rs hstart
  exact ⟨hlog, hstores⟩

/-- A write of two blocks to one disk, and the same range of another disk and of the
first one read again. -/
def mixedRequests : List Request :=
  [⟨⟨.primary, 0, 10⟩, true, 3, 2, fun q => BitVec.ofNat 16 q, by decide, by decide⟩,
    ⟨⟨.secondary, 0, 10⟩, false, 3, 2, fun _ => 0, by decide, by decide⟩,
    ⟨⟨.primary, 0, 10⟩, false, 3, 2, fun _ => 0, by decide, by decide⟩]

theorem transfers_refine_mixed :
    (mixedRequests.foldl Request.perform (readyWorld, [])).2 =
        (mixedRequests.foldl Sectors.perform (readyWorld.sectors, [])).2 ∧
      Stores (mixedRequests.foldl Request.perform (readyWorld, [])).1
        (mixedRequests.foldl Sectors.perform (readyWorld.sectors, [])).1 :=
  transfers_refine readyWorld_ready mixedRequests

end Avery.Ata
