import Avery.Fs.View

/-!
# The copies of the table

`writeFATEntry` stores a value in every copy of the table, and keeps the four high
bits that each copy has.  The store is described here byte for byte and for every
copy (`putEntries`), on any accepted volume whose tables end before the data region.

The offset of an entry is computed in 32 bits.  From cluster `2 ^ 30` on it wraps
around, and the entry that is written is that of another cluster
(`writeFATEntry_stored_iff`).
-/

namespace Avery.Fat32

open ByteMemory

/-! ## Entries -/

/-- The tables of an accepted volume end before the data region. -/
structure TablesApart (fs : FAT32FileSystem) : Prop where
  accepted : Accepted fs
  apart : fs.bpb.dataStart ≤ fs.fatFirstDataSector

/-- A table has an entry for the cluster. -/
def CoveredByTable (fs : FAT32FileSystem) (c : Nat) : Prop :=
  4 * (c + 1) ≤ fs.bpb.tableSize32 * 512

/-- The entry of a cluster in one copy of the table. -/
def fatEntry (fs : FAT32FileSystem) (table c : Nat) : Nat :=
  readLE fs.backingDevice.bytes (fatAddress fs table c) 4

/-- The position is in a sector of the tables. -/
def InTables (fs : FAT32FileSystem) (x : Nat) : Prop :=
  fs.bpb.reservedSectorCount ≤ x / 512 ∧ x / 512 < fs.bpb.dataStart

theorem fatEntry_lt (fs : FAT32FileSystem) (table c : Nat) : fatEntry fs table c < 2 ^ 32 :=
  readLE_lt _ _ 4

/-! ## Where entries are -/

section

variable {fs : FAT32FileSystem}

/-- Entries of different clusters or different copies do not overlap. -/
theorem fatAddress_apart {c d t u : Nat} (hc : CoveredByTable fs c) (hd : CoveredByTable fs d)
    (hne : t ≠ u ∨ c ≠ d) :
    fatAddress fs t c + 4 ≤ fatAddress fs u d ∨ fatAddress fs u d + 4 ≤ fatAddress fs t c := by
  unfold CoveredByTable at hc hd
  unfold fatAddress
  rcases Nat.lt_trichotomy t u with hlt | rfl | hlt
  · have hmul : (t + 1) * fs.bpb.tableSize32 ≤ u * fs.bpb.tableSize32 := Nat.mul_le_mul_right _ hlt
    rw [Nat.succ_mul] at hmul
    omega
  · have hcd := hne.resolve_left fun h => h rfl
    omega
  · have hmul : (u + 1) * fs.bpb.tableSize32 ≤ t * fs.bpb.tableSize32 := Nat.mul_le_mul_right _ hlt
    rw [Nat.succ_mul] at hmul
    omega

theorem fatAddress_inTables {c t x : Nat} (hc : CoveredByTable fs c) (ht : t < fs.bpb.tableCount)
    (hlow : fatAddress fs t c ≤ x) (hhigh : x < fatAddress fs t c + 4) : InTables fs x := by
  have hmul : (t + 1) * fs.bpb.tableSize32 ≤ fs.bpb.tableCount * fs.bpb.tableSize32 :=
    Nat.mul_le_mul_right _ ht
  rw [Nat.succ_mul] at hmul
  unfold CoveredByTable at hc
  unfold fatAddress at hlow hhigh
  unfold InTables BIOSParameterBlock.dataStart
  omega

/-- The cluster whose entry the code finds. -/
theorem CoveredByTable.wrapped {c : Nat} (hc : CoveredByTable fs c) :
    CoveredByTable fs (c % 2 ^ 30) := by
  have hle := Nat.mod_le c (2 ^ 30)
  unfold CoveredByTable at hc ⊢
  omega

theorem mul32_four (c : Nat) : mul32 c 4 = 4 * (c % 2 ^ 30) := by
  unfold mul32 Words.mul
  omega

variable (ht : TablesApart fs)

include ht

theorem TablesApart.noWrap : fs.bpb.dataStart < 2 ^ 32 := by
  have hlt : fs.fatFirstDataSector < 2 ^ 32 := by
    rw [ht.accepted.fatFirstDataSector]
    exact Words.add_lt 32 _ _
  exact Nat.lt_of_le_of_lt ht.apart hlt

/-- The sector and the offset that the code computes. -/
theorem TablesApart.entry_address {table c : Nat} (htable : table < fs.bpb.tableCount)
    (hc : CoveredByTable fs c) :
    fatSector fs table c * 512 + mul32 c 4 % fs.bpb.bytesPerSector =
      fatAddress fs table (c % 2 ^ 30) := by
  have hsmall : c % 2 ^ 30 < 2 ^ 30 := Nat.mod_lt _ (by decide)
  have hcovered := hc.wrapped
  unfold CoveredByTable at hcovered
  have hsector : fatSector fs table c = fatSector fs table (c % 2 ^ 30) := by
    unfold fatSector
    rw [mul32_four, mul32_four, Nat.mod_mod]
  rw [hsector, ht.accepted.fatSector_eq ht.noWrap htable (by omega) hsmall, mul32_four,
    ht.accepted.bytesPerSector, fatAddress]
  generalize fs.bpb.reservedSectorCount + table * fs.bpb.tableSize32 = base
  omega

theorem TablesApart.entry_inside (c : Nat) : mul32 c 4 % fs.bpb.bytesPerSector + 4 ≤ 512 := by
  rw [mul32_four, ht.accepted.bytesPerSector]
  omega

/-- What `readFATEntry` returns. -/
theorem TablesApart.fatValue_eq {c : Nat} (hc : CoveredByTable fs c) :
    fs.fatValue c = fatEntry fs 0 (c % 2 ^ 30) &&& 0x0FFFFFFF := by
  have hfirst : add32 fs.fatFirstSector (mul32 0 fs.bpb.tableSize32) = fs.fatFirstSector := by
    have hsmall := ht.accepted.stored.reservedSectorCount
    rw [mul32, Words.mul_eq (by omega), Nat.zero_mul, add32, ht.accepted.fatFirstSector,
      Words.add_eq (by omega), Nat.add_zero]
  rw [fatEntry, ← ht.entry_address ht.accepted.tableCount hc, ← readLE_window (ht.entry_inside c)]
  unfold FAT32FileSystem.fatValue fatSector
  rw [hfirst]

end

theorem SameVolume.tablesApart {fs fs' : FAT32FileSystem} (h : SameVolume fs fs')
    (ht : TablesApart fs) : TablesApart fs' := by
  refine ⟨h.accepted ht.accepted, ?_⟩
  rw [h.bpb, h.fatFirstDataSector]
  exact ht.apart

/-! ## The bytes that are stored -/

theorem rawValue_low (old v : Nat) : rawValue old v &&& 0x0FFFFFFF = v &&& 0x0FFFFFFF := by
  rw [rawValue, Nat.and_or_distrib_right, Nat.and_assoc, Nat.and_assoc]
  simp

theorem rawValue_high (old v : Nat) : rawValue old v &&& 0xF0000000 = old &&& 0xF0000000 := by
  rw [rawValue, Nat.and_or_distrib_right, Nat.and_assoc, Nat.and_assoc]
  simp

/-- A number is its four high bits and the rest. -/
theorem or_masks {x : Nat} (hx : x < 2 ^ 32) : (x &&& 0xF0000000) ||| (x &&& 0x0FFFFFFF) = x := by
  rw [← Nat.and_or_distrib_left, show (0xF0000000 ||| 0x0FFFFFFF : Nat) = 2 ^ 32 - 1 by decide,
    Words.and_mask, Nat.mod_eq_of_lt hx]

theorem rawValue_self {old v : Nat} (hold : old < 2 ^ 32)
    (h : old &&& 0x0FFFFFFF = v &&& 0x0FFFFFFF) : rawValue old v = old := by
  rw [rawValue, ← h, or_masks hold]

/-- The disk after the entry of `c` has been stored in `n` copies from `table` on. -/
def putEntries (fs : FAT32FileSystem) (c v : Nat) : Nat → Nat → (Nat → UInt8) → Nat → UInt8
  | _, 0, bytes => bytes
  | table, n + 1, bytes =>
      putEntries fs c v (table + 1) n (writeLE bytes (fatAddress fs table c) 4
        (rawValue (readLE bytes (fatAddress fs table c) 4) v))

section

variable {fs : FAT32FileSystem} {c d v : Nat}

theorem readLE_putEntries_other (hc : CoveredByTable fs c) (hd : CoveredByTable fs d) {t : Nat} :
    ∀ {n table : Nat} {bytes : Nat → UInt8}, d ≠ c ∨ t < table →
      readLE (putEntries fs c v table n bytes) (fatAddress fs t d) 4 =
        readLE bytes (fatAddress fs t d) 4
  | 0, _, _, _ => rfl
  | n + 1, table, bytes, hne => by
      rw [putEntries, readLE_putEntries_other hc hd (hne.imp_right Nat.lt_succ_of_lt)]
      refine readLE_writeLE_disjoint (fatAddress_apart hc hd ?_)
      exact hne.symm.imp (fun h => (Nat.ne_of_lt h).symm) Ne.symm

theorem readLE_putEntries_same (hc : CoveredByTable fs c) {t : Nat} :
    ∀ {n table : Nat} {bytes : Nat → UInt8}, table ≤ t → t < table + n →
      readLE (putEntries fs c v table n bytes) (fatAddress fs t c) 4 =
        rawValue (readLE bytes (fatAddress fs t c) 4) v
  | 0, table, _, hlow, hhigh => absurd hhigh (Nat.not_lt.mpr hlow)
  | n + 1, table, bytes, hlow, hhigh => by
      rw [putEntries]
      rcases Nat.eq_or_lt_of_le hlow with rfl | hlt
      · rw [readLE_putEntries_other hc hc (Or.inr (Nat.lt_succ_self _)),
          readLE_writeLE_same (rawValue_lt _ v)]
      · rw [readLE_putEntries_same hc hlt (by omega),
          readLE_writeLE_disjoint (fatAddress_apart hc hc (Or.inl (Nat.ne_of_lt hlt)))]

theorem putEntries_outside (hc : CoveredByTable fs c) {x : Nat} (hx : ¬ InTables fs x) :
    ∀ {n table : Nat} {bytes : Nat → UInt8}, table + n ≤ fs.bpb.tableCount →
      putEntries fs c v table n bytes x = bytes x
  | 0, _, _, _ => rfl
  | n + 1, table, bytes, hcount => by
      rw [putEntries, putEntries_outside hc hx (by omega)]
      refine if_neg fun hin => hx ?_
      exact fatAddress_inTables hc (by omega) hin.1 hin.2

/-- On a device that never fails every copy is written. -/
theorem writeFATEntryLoop_put (ht : TablesApart fs) (hr : fs.Reliable) (hc : CoveredByTable fs c) :
    ∀ {n table : Nat} {bytes : Nat → UInt8}, table + n ≤ fs.bpb.tableCount →
      writeFATEntryLoop c v (fs.stored 0 bytes) table n =
        (true, fs.stored 0 (putEntries fs (c % 2 ^ 30) v table n bytes))
  | 0, _, _, _ => rfl
  | n + 1, table, bytes, hcount => by
      have hsame := sameVolume_stored fs 0 bytes
      have hr' := hsame.reliable hr
      have ht' := hsame.tablesApart ht
      have htable : table < (fs.stored 0 bytes).bpb.tableCount := by
        change table < fs.bpb.tableCount
        omega
      rw [writeFATEntryLoop_step (ht'.entry_address htable hc) (ht'.entry_inside c) n, hr' 0, hr' 1,
        putEntries]
      simp only [Bool.false_eq_true, if_false]
      rw [hr'.stored_eq]
      exact writeFATEntryLoop_put ht hr hc (by omega)

/-- `writeFATEntry` on a device that never fails. -/
theorem writeFATEntry_put (ht : TablesApart fs) (hr : fs.Reliable) (hc : CoveredByTable fs c) :
    writeFATEntry fs c v = (true, fs.stored 0
      (putEntries fs (c % 2 ^ 30) v 0 fs.bpb.tableCount fs.backingDevice.bytes)) :=
  writeFATEntryLoop_put ht hr hc (Nat.le_of_eq (Nat.zero_add _))

end

/-! ## The entry store -/

/-- `v` has been stored for `c`, as a table is expected to do it. -/
structure EntryStored (fs : FAT32FileSystem) (c v : Nat) (fs' : FAT32FileSystem) : Prop where
  read : (readFATEntry fs' c).1 = some (v &&& 0x0FFFFFFF)
  copies : ∀ table < fs.bpb.tableCount,
    fatEntry fs' table c &&& 0x0FFFFFFF = fatEntry fs' 0 c &&& 0x0FFFFFFF
  high : ∀ table < fs.bpb.tableCount,
    fatEntry fs' table c &&& 0xF0000000 = fatEntry fs table c &&& 0xF0000000
  others : ∀ d, CoveredByTable fs d → d ≠ c → ∀ table < fs.bpb.tableCount,
    fatEntry fs' table d = fatEntry fs table d
  outside : ∀ x, ¬ InTables fs x → fs'.backingDevice.bytes x = fs.backingDevice.bytes x

section

variable {fs : FAT32FileSystem} {c v : Nat}

/-- The entries after the store, in the numbering of the tables. -/
theorem fatEntry_put (hc : CoveredByTable fs c) {table d : Nat} (hd : CoveredByTable fs d)
    (htable : table < fs.bpb.tableCount) :
    fatEntry (fs.stored 0 (putEntries fs c v 0 fs.bpb.tableCount fs.backingDevice.bytes)) table d =
      if d = c then rawValue (fatEntry fs table c) v else fatEntry fs table d := by
  split
  next heq =>
    subst heq
    exact readLE_putEntries_same hc (Nat.zero_le table) (by omega)
  next hne => exact readLE_putEntries_other hc hd (Or.inl hne)

/-- The store is as expected below `2 ^ 30`.  Above, only a store that changes
nothing is. -/
theorem writeFATEntry_stored_iff (ht : TablesApart fs) (hr : fs.Reliable)
    (hc : CoveredByTable fs c) (v : Nat) :
    (∃ fs', writeFATEntry fs c v = (true, fs') ∧ EntryStored fs c v fs') ↔
      c < 2 ^ 30 ∨ ∀ table < fs.bpb.tableCount,
        fatEntry fs table (c % 2 ^ 30) &&& 0x0FFFFFFF = v &&& 0x0FFFFFFF ∧
        fatEntry fs table c &&& 0x0FFFFFFF = fatEntry fs 0 c &&& 0x0FFFFFFF := by
  have hw := hc.wrapped
  have hpos := ht.accepted.tableCount
  have hput : ∀ {table d}, CoveredByTable fs d → table < fs.bpb.tableCount → _ := fun hd htable =>
    fatEntry_put hw (v := v) hd htable
  have hout : ∀ {x}, ¬ InTables fs x →
      putEntries fs (c % 2 ^ 30) v 0 fs.bpb.tableCount fs.backingDevice.bytes x =
        fs.backingDevice.bytes x := fun hx =>
    putEntries_outside hw hx (Nat.le_of_eq (Nat.zero_add fs.bpb.tableCount))
  have hsame := sameVolume_stored fs 0
    (putEntries fs (c % 2 ^ 30) v 0 fs.bpb.tableCount fs.backingDevice.bytes)
  rw [writeFATEntry_put ht hr hc]
  generalize hfs' : fs.stored 0
    (putEntries fs (c % 2 ^ 30) v 0 fs.bpb.tableCount fs.backingDevice.bytes) = fs' at hput hsame
  have hbytes : ∀ {x}, ¬ InTables fs x → fs'.backingDevice.bytes x = fs.backingDevice.bytes x :=
    fun hx => hfs' ▸ hout hx
  constructor
  · rintro ⟨_, heq, h⟩
    cases heq
    rcases Nat.lt_or_ge c (2 ^ 30) with hlt | hge
    · exact Or.inl hlt
    have hne : c % 2 ^ 30 ≠ c := fun heq => by
      have hmod := Nat.mod_lt c (Nat.two_pow_pos 30)
      omega
    refine Or.inr fun table htable => ⟨?_, ?_⟩
    · rw [← h.others _ hw hne table htable, hput hw htable, if_pos rfl, rawValue_low]
    · have hcopies := h.copies table htable
      rw [hput hc htable, hput hc hpos, if_neg hne.symm, if_neg hne.symm] at hcopies
      exact hcopies
  · intro hcond
    refine ⟨fs', rfl, ?_, fun table htable => ?_, fun table htable => ?_, fun d hd hne table htable => ?_,
      fun x hx => hbytes hx⟩
    · rw [readFATEntry_eq, hsame.reliable hr 0]
      have hvalue := (hsame.tablesApart ht).fatValue_eq (c := c) (by
        unfold CoveredByTable
        rw [hsame.bpb]
        exact hc)
      rw [hvalue, hput hw hpos, if_pos rfl, rawValue_low]
      rfl
    · rw [hput hc htable, hput hc hpos]
      split
      next => rw [rawValue_low, rawValue_low]
      next hne =>
        rcases hcond with hlt | hall
        · exact absurd (Nat.mod_eq_of_lt hlt).symm hne
        · exact (hall table htable).2
    · rw [hput hc htable]
      split
      next heq => rw [rawValue_high, ← heq]
      next => rfl
    · rw [hput hd htable]
      split
      next heq =>
        rcases hcond with hlt | hall
        · exact absurd (heq.trans (Nat.mod_eq_of_lt hlt)) hne
        · rw [heq, rawValue_self (fatEntry_lt fs table _) (hall table htable).1]
      next => rfl

end

/-- Cluster 5 of the small volume. -/
theorem writeFATEntry_stored_tinyVolume :
    ∃ fs', writeFATEntry tinyVolume 5 7 = (true, fs') ∧ EntryStored tinyVolume 5 7 fs' := by
  have ha := (accepted_of_mount mount_tinyDisk).1
  have ht : TablesApart tinyVolume := ⟨ha, by decide +kernel⟩
  have hr : tinyVolume.Reliable := fun _ => rfl
  have hc : CoveredByTable tinyVolume 5 := by
    unfold CoveredByTable
    decide +kernel
  exact (writeFATEntry_stored_iff ht hr hc 7).mpr (Or.inl (by decide))

/-- An empty disk of `2 ^ 32 - 1` sectors, with one table of `2 ^ 23 + 1` sectors. -/
def hugeDisk : BlockDevice where
  bytes :=
    let bytes := writeLE (fun _ => 0) 11 2 512
    let bytes := writeLE bytes 13 1 1
    let bytes := writeLE bytes 14 2 1
    let bytes := writeLE bytes 16 1 1
    let bytes := writeLE bytes 32 4 (2 ^ 32 - 1)
    let bytes := writeLE bytes 36 4 (2 ^ 23 + 1)
    let bytes := writeLE bytes 44 4 2
    writeLE bytes 510 2 0xAA55
  faults := fun _ => false

def hugeVolume : FAT32FileSystem := (mount hugeDisk).get (by decide +kernel)

/-- The entry of cluster `2 ^ 30` is stored at the entry of cluster `0`. -/
theorem writeFATEntry_wraps :
    mount hugeDisk = some hugeVolume ∧ TablesApart hugeVolume ∧ hugeVolume.Reliable ∧
    CoveredByTable hugeVolume (2 ^ 30) ∧ 2 ^ 30 < hugeVolume.totalClusters + 2 ∧
    ¬ ∃ fs', writeFATEntry hugeVolume (2 ^ 30) 5 = (true, fs') ∧
      EntryStored hugeVolume (2 ^ 30) 5 fs' := by
  have hmount : mount hugeDisk = some hugeVolume := (Option.some_get _).symm
  refine ⟨hmount, ⟨(accepted_of_mount hmount).1, by decide +kernel⟩, fun _ => rfl, ?_,
    by decide +kernel, ?_⟩
  · unfold CoveredByTable
    decide +kernel
  · rintro ⟨fs', heq, h⟩
    have hzero : CoveredByTable hugeVolume 0 := by
      unfold CoveredByTable
      decide +kernel
    have hentry := h.others 0 hzero (by decide) 0 (by decide +kernel)
    rw [← show (writeFATEntry hugeVolume (2 ^ 30) 5).2 = fs' from congrArg Prod.snd heq] at hentry
    revert hentry
    decide +kernel

end Avery.Fat32
