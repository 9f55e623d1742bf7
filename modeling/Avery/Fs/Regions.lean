import Avery.Fs.TableStore

/-!
# Writes and the regions of a volume

A volume has a reserved region with the FSInfo sector, the copies of the table, and
the data region.  On a device that never fails a write goes to one region, so what
lies in the others is as it was: a store in the tables changes no data
(`clusterData_congr`), and neither does the FSInfo sector change an entry
(`fatEntry_congr`).
-/

namespace Avery.Fat32

open ByteMemory

/-- The tables lie before the data region and have an entry for every cluster, and
the FSInfo sector lies before the tables. -/
structure TablesCover (fs : FAT32FileSystem) : Prop where
  tables : TablesApart fs
  covered : 4 * (fs.totalClusters + 2) ≤ fs.bpb.tableSize32 * 512
  fsInfoSector : fs.bpb.fsInfoSector < fs.bpb.reservedSectorCount

/-- The number of a cluster of the volume. -/
def InVolume (fs : FAT32FileSystem) (c : Nat) : Prop := 2 ≤ c ∧ c < fs.totalClusters + 2

section

variable {fs : FAT32FileSystem}

theorem SameVolume.tablesCover {fs' : FAT32FileSystem} (h : SameVolume fs fs')
    (hc : TablesCover fs) : TablesCover fs' := by
  refine ⟨h.tablesApart hc.tables, ?_, ?_⟩
  · rw [h.totalClusters, h.bpb]
    exact hc.covered
  · rw [h.bpb]
    exact hc.fsInfoSector

theorem TablesCover.coveredByTable (h : TablesCover fs) {c : Nat} (hc : InVolume fs c) :
    CoveredByTable fs c := by
  have hcovered := h.covered
  have hhigh := hc.2
  unfold CoveredByTable
  omega

theorem TablesCover.dataStart (h : TablesCover fs) : fs.fatFirstDataSector = fs.bpb.dataStart :=
  h.tables.accepted.dataStart_eq h.tables.noWrap

/-! ## What depends on which region -/

theorem fatEntry_congr {n : Nat} {bytes : Nat → UInt8} {table c : Nat} (hc : CoveredByTable fs c)
    (htable : table < fs.bpb.tableCount)
    (h : ∀ x, InTables fs x → bytes x = fs.backingDevice.bytes x) :
    fatEntry (fs.stored n bytes) table c = fatEntry fs table c :=
  readLE_congr fun x hlow hhigh => h x (fatAddress_inTables hc htable hlow hhigh)

theorem TablesCover.clusterData_eq (h : TablesCover fs) {c : Nat} (hc : InVolume fs c)
    (hsmall : c < 2 ^ 32) :
    fs.clusterData c =
      window fs.backingDevice.bytes (dataAddress fs c) (fs.bpb.sectorsPerCluster * 512) := by
  rw [← h.tables.accepted.clusterToSector_address h.dataStart hc.1 hc.2 hsmall]
  rfl

theorem TablesCover.clusterData_congr (h : TablesCover fs) {n : Nat} {bytes : Nat → UInt8} {c : Nat}
    (hc : InVolume fs c) (hsmall : c < 2 ^ 32)
    (hbytes : ∀ x, dataAddress fs c ≤ x → x < dataAddress fs c + fs.bpb.sectorsPerCluster * 512 →
      bytes x = fs.backingDevice.bytes x) :
    (fs.stored n bytes).clusterData c = fs.clusterData c := by
  have h' := (sameVolume_stored fs n bytes).tablesCover h
  have hdata : (fs.stored n bytes).clusterData c = _ := h'.clusterData_eq hc hsmall
  rw [hdata, h.clusterData_eq hc hsmall]
  exact window_congr fun i hi => hbytes _ (Nat.le_add_right _ _) (Nat.add_lt_add_left hi _)

/-! ## Writes on a device that never fails -/

/-- Every entry in every copy is as before. -/
structure SameEntries (fs fs' : FAT32FileSystem) : Prop where
  same : SameVolume fs fs'
  entries : ∀ table < fs.bpb.tableCount, ∀ d, CoveredByTable fs d →
    fatEntry fs' table d = fatEntry fs table d

/-- The data of the clusters, where their positions do not wrap around. -/
def SameData (fs fs' : FAT32FileSystem) : Prop :=
  ∀ d, InVolume fs d → d < 2 ^ 32 → fs'.clusterData d = fs.clusterData d

theorem SameEntries.fatValue (h : TablesCover fs) {fs' : FAT32FileSystem} (hs : SameEntries fs fs')
    {c : Nat} (hc : CoveredByTable fs c) : fs'.fatValue c = fs.fatValue c := by
  have hc' : CoveredByTable fs' c := by
    unfold CoveredByTable
    rw [hs.same.bpb]
    exact hc
  rw [(hs.same.tablesCover h).tables.fatValue_eq hc', h.tables.fatValue_eq hc,
    hs.entries 0 h.tables.accepted.tableCount _ hc.wrapped]

/-- The value `v` is stored for `c` in every copy. -/
structure Put (fs : FAT32FileSystem) (c v : Nat) (fs' : FAT32FileSystem) : Prop where
  same : SameVolume fs fs'
  entries : ∀ table < fs.bpb.tableCount, ∀ d, CoveredByTable fs d →
    fatEntry fs' table d = if d = c then rawValue (fatEntry fs table c) v else fatEntry fs table d
  data : SameData fs fs'

theorem inTables_lt {x : Nat} (h : InTables fs x) :
    fs.bpb.reservedSectorCount * 512 ≤ x ∧ x < fs.bpb.dataStart * 512 := by
  unfold InTables at h
  omega

theorem TablesCover.put (h : TablesCover fs) (hr : fs.Reliable) {c : Nat} (hc : CoveredByTable fs c)
    (hsmall : c < 2 ^ 30) (v : Nat) :
    ∃ fs', writeFATEntry fs c v = (true, fs') ∧ Put fs c v fs' := by
  refine ⟨_, writeFATEntry_put h.tables hr hc, sameVolume_stored fs 0 _, ?_, ?_⟩
  · intro table ht d hd
    rw [Nat.mod_eq_of_lt hsmall]
    exact fatEntry_put hc hd ht
  · intro d hd hsmall'
    refine h.clusterData_congr hd hsmall' fun x hx _ => ?_
    refine putEntries_outside hc.wrapped (fun hin => ?_) (Nat.le_of_eq (Nat.zero_add _))
    exact absurd (Nat.le_trans (dataStart_le_dataAddress fs d) hx)
      (Nat.not_le.mpr (inTables_lt hin).2)

/-- What `readFATEntry` returns after the store. -/
theorem Put.fatValue (h : TablesCover fs) {fs' : FAT32FileSystem} {c v : Nat} (hp : Put fs c v fs')
    {d : Nat} (hd : CoveredByTable fs d) (hsmall : d < 2 ^ 30) :
    fs'.fatValue d = if d = c then v &&& 0x0FFFFFFF else fs.fatValue d := by
  have hd' : CoveredByTable fs' d := by
    unfold CoveredByTable
    rw [hp.same.bpb]
    exact hd
  rw [(hp.same.tablesCover h).tables.fatValue_eq hd', h.tables.fatValue_eq hd,
    Nat.mod_eq_of_lt hsmall, hp.entries 0 h.tables.accepted.tableCount d hd]
  split
  next => exact rawValue_low _ v
  next => rfl

theorem TablesCover.zeroed (h : TablesCover fs) (hr : fs.Reliable) {c : Nat} (hc : InVolume fs c)
    (hsmall : c < 2 ^ 32) :
    ∃ fs', zeroCluster fs c = (true, fs') ∧ SameEntries fs fs' ∧ fs'.fsInfo = fs.fsInfo ∧
      (∀ i, fs'.clusterData c i = 0) ∧
      ∀ d, InVolume fs d → d < 2 ^ 32 → d ≠ c → fs'.clusterData d = fs.clusterData d := by
  have haddress := h.tables.accepted.clusterToSector_address h.dataStart hc.1 hc.2 hsmall
  have hwrite : zeroCluster fs c = (true, fs.stored 0 (blit fs.backingDevice.bytes
      (dataAddress fs c) (fs.bpb.sectorsPerCluster * 512) fun _ => 0)) := by
    rw [zeroCluster, writeCluster, if_neg (Nat.not_lt.mpr hc.1), writeSectors_eq, hr 0, haddress,
      hr.stored_eq]
    rfl
  refine ⟨_, hwrite, ⟨sameVolume_stored fs 0 _, fun table ht d hd => ?_⟩, rfl, fun i => ?_,
    fun d hd hdsmall hne => ?_⟩
  · refine fatEntry_congr hd ht fun x hx => blit_of_lt ?_
    exact Nat.lt_of_lt_of_le (inTables_lt hx).2 (dataStart_le_dataAddress fs c)
  · have h' := (sameVolume_stored fs 0 (blit fs.backingDevice.bytes
      (dataAddress fs c) (fs.bpb.sectorsPerCluster * 512) fun _ => 0)).tablesCover h
    have hdata := h'.clusterData_eq hc hsmall
    rw [hdata, window]
    split
    next hi =>
      have hzero : blit fs.backingDevice.bytes (dataAddress fs c) (fs.bpb.sectorsPerCluster * 512)
          (fun _ => 0) (dataAddress fs c + i) = 0 := blit_of_mem hi
      exact hzero
    next => rfl
  · refine h.clusterData_congr hd hdsmall fun x hlow hhigh => ?_
    rcases Nat.lt_or_gt_of_ne hne with hlt | hlt
    · exact blit_of_lt (Nat.lt_of_lt_of_le hhigh (dataAddress_apart fs hd.1 hlt))
    · exact blit_of_ge (Nat.le_trans (dataAddress_apart fs hc.1 hlt) hlow)

end

end Avery.Fat32
