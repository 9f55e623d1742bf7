import Avery.Fs.Disk
import Avery.Fs.Geometry
import Avery.Fs.Requests

/-!
# The view of a mounted volume

`view` reads a mounted volume as a `Disk`: the links are those of the first table,
and a cluster holds the bytes of its sectors.  On a volume with a consistent
geometry every access to a cluster or to a table entry of a cluster is one access
in the view.  A request may fail, so a write is described by two outcomes: the view
has changed as intended, or the write returned `false` and the view is as before.
When the tables are written one after the other and a later one fails, the first
outcome comes with `false`.
-/

namespace Avery.Fat32

open ByteMemory

/-- A volume that `mount` accepted and whose geometry is consistent. -/
structure Mounted (fs : FAT32FileSystem) : Prop where
  accepted : Accepted fs
  consistent : Consistent fs

theorem mounted_of_sane {device : BlockDevice} {fs : FAT32FileSystem}
    (hmount : mount device = some fs) (hsane : (BIOSParameterBlock.ofSector device.bytes).Sane) :
    Mounted fs :=
  ⟨(accepted_of_mount hmount).1, (mount_consistent_iff hmount).mpr hsane⟩

/-- Nothing but the disk, the device's answers and the FSInfo differs. -/
structure SameVolume (fs fs' : FAT32FileSystem) : Prop where
  bpb : fs'.bpb = fs.bpb
  fatFirstSector : fs'.fatFirstSector = fs.fatFirstSector
  fatFirstDataSector : fs'.fatFirstDataSector = fs.fatFirstDataSector
  totalSectors : fs'.totalSectors = fs.totalSectors
  totalClusters : fs'.totalClusters = fs.totalClusters
  reliable : fs.Reliable → fs'.Reliable

namespace SameVolume

theorem refl (fs : FAT32FileSystem) : SameVolume fs fs := ⟨rfl, rfl, rfl, rfl, rfl, id⟩

theorem trans {fs fs' fs'' : FAT32FileSystem} (h : SameVolume fs fs') (h' : SameVolume fs' fs'') :
    SameVolume fs fs'' where
  bpb := h'.bpb.trans h.bpb
  fatFirstSector := h'.fatFirstSector.trans h.fatFirstSector
  fatFirstDataSector := h'.fatFirstDataSector.trans h.fatFirstDataSector
  totalSectors := h'.totalSectors.trans h.totalSectors
  totalClusters := h'.totalClusters.trans h.totalClusters
  reliable := h'.reliable ∘ h.reliable

theorem accepted {fs fs' : FAT32FileSystem} (h : SameVolume fs fs') (ha : Accepted fs) :
    Accepted fs' := by
  obtain ⟨h₁, h₂, h₃, h₄, h₅, -⟩ := h
  cases fs
  cases fs'
  simp only at h₁ h₂ h₃ h₄ h₅
  subst h₁ h₂ h₃ h₄ h₅
  exact ⟨ha.1, ha.2, ha.3, ha.4, ha.5, ha.6, ha.7, ha.8, ha.9, ha.10, ha.11, ha.12, ha.13⟩

theorem mounted {fs fs' : FAT32FileSystem} (h : SameVolume fs fs') (hm : Mounted fs) :
    Mounted fs' := by
  obtain ⟨ha, hc⟩ := hm
  refine ⟨h.accepted ha, ?_⟩
  obtain ⟨h₁, h₂, h₃, h₄, h₅, -⟩ := h
  cases fs
  cases fs'
  simp only at h₁ h₂ h₃ h₄ h₅
  subst h₁ h₂ h₃ h₄ h₅
  exact ⟨hc.1, hc.2, hc.3, hc.4, hc.5, hc.6, hc.7⟩

/-- Fuel that is enough stays enough. -/
theorem enough {fs fs' : FAT32FileSystem} (h : SameVolume fs fs') {fuel : Nat}
    (hfuel : fs.totalClusters < fuel) : fs'.totalClusters < fuel := by
  rwa [h.totalClusters]

end SameVolume

theorem sameVolume_served (fs : FAT32FileSystem) (n : Nat) : SameVolume fs (fs.served n) :=
  ⟨rfl, rfl, rfl, rfl, rfl, fun h k => h (k + n)⟩

theorem sameVolume_stored (fs : FAT32FileSystem) (n : Nat) (bytes : Nat → UInt8) :
    SameVolume fs (fs.stored n bytes) :=
  ⟨rfl, rfl, rfl, rfl, rfl, fun h k => h (k + n)⟩

/-- What a mounted volume is to its operations.  Numbers that are not clusters hold
and link to nothing. -/
def view (fs : FAT32FileSystem) : Disk where
  clusters := fs.totalClusters
  slots := clusterSize fs / entrySize
  root := fs.bpb.rootCluster
  fat c := if 2 ≤ c ∧ c < fs.totalClusters + 2 then fs.fatValue c else 0
  data c := if 2 ≤ c ∧ c < fs.totalClusters + 2 then fs.clusterData c else fun _ => 0

@[simp] theorem view_served (fs : FAT32FileSystem) (n : Nat) : view (fs.served n) = view fs := rfl

/-! ## Where things are -/

/-- The position of a cluster's entry in a table. -/
def fatAddress (fs : FAT32FileSystem) (table c : Nat) : Nat :=
  (fs.bpb.reservedSectorCount + table * fs.bpb.tableSize32) * 512 + 4 * c

/-- The position of a cluster's data. -/
def dataAddress (fs : FAT32FileSystem) (c : Nat) : Nat :=
  (fs.bpb.dataStart + fs.bpb.sectorsPerCluster * (c - 2)) * 512

theorem Accepted.clusterToSector_address {fs : FAT32FileSystem} (ha : Accepted fs)
    (hstart : fs.fatFirstDataSector = fs.bpb.dataStart) {c : Nat} (hlow : 2 ≤ c)
    (hhigh : c < fs.totalClusters + 2) (hsmall : c < 2 ^ 32) :
    clusterToSector fs c * 512 = dataAddress fs c := by
  have hregion := ha.dataRegion
  have htotal : fs.totalSectors < 2 ^ 32 := ha.totalSectors ▸ ha.stored.totalSectors
  have hcount : fs.bpb.sectorsPerCluster * fs.totalClusters ≤
      fs.totalSectors - fs.fatFirstDataSector := by
    rw [ha.totalClusters]
    exact Nat.mul_div_le _ _
  have hindex : fs.bpb.sectorsPerCluster * (c - 2) ≤ fs.bpb.sectorsPerCluster * fs.totalClusters :=
    Nat.mul_le_mul_left _ (by omega)
  have hsub : sub32 c 2 = c - 2 := Words.sub_eq hsmall hlow
  have hmul : mul32 (c - 2) fs.bpb.sectorsPerCluster = fs.bpb.sectorsPerCluster * (c - 2) := by
    rw [Nat.mul_comm]
    refine Words.mul_eq ?_
    rw [Nat.mul_comm]
    omega
  unfold clusterToSector dataAddress
  rw [hsub, hmul, hstart, add32, Words.add_eq (by omega)]

section

variable {fs : FAT32FileSystem} (hm : Mounted fs)

include hm

theorem Mounted.sane : fs.bpb.Sane := (consistent_iff_sane hm.accepted).mp hm.consistent

theorem Mounted.unmarked : (view fs).Unmarked := hm.consistent.marks

theorem Mounted.root_valid : (view fs).Valid (view fs).root :=
  ⟨hm.accepted.rootCluster, hm.consistent.rootCluster⟩

theorem Mounted.clusterSize_eq : clusterSize fs = fs.bpb.sectorsPerCluster * 512 := by
  rw [clusterSize, hm.accepted.bytesPerSector, Nat.mul_comm]

theorem Mounted.slots_eq : (view fs).slots = fs.bpb.sectorsPerCluster * 16 := by
  show clusterSize fs / entrySize = _
  rw [hm.clusterSize_eq]
  unfold entrySize
  omega

theorem Mounted.size_eq : (view fs).size = clusterSize fs := by
  rw [Disk.size, hm.slots_eq, hm.clusterSize_eq]
  unfold entrySize
  omega

theorem Mounted.two_le_slots : 2 ≤ (view fs).slots := by
  have hpos := hm.accepted.spc_pos
  rw [hm.slots_eq]
  omega

theorem Mounted.clusterToSector_eq {c : Nat} (hc : (view fs).Valid c) :
    clusterToSector fs c * 512 = dataAddress fs c := by
  have hmarks := hm.consistent.marks
  have hhigh : c < fs.totalClusters + 2 := hc.2
  exact hm.accepted.clusterToSector_address hm.consistent.dataStart hc.1 hhigh (by omega)

theorem Mounted.fatSector_address {table c : Nat} (htable : table < fs.bpb.tableCount)
    (hc : (view fs).Valid c) :
    fatSector fs table c * 512 + mul32 c 4 % fs.bpb.bytesPerSector = fatAddress fs table c := by
  have hhigh : c < fs.totalClusters + 2 := hc.2
  have hcovered := hm.consistent.covered
  have hmarks := hm.consistent.marks
  rw [hm.accepted.fatSector_eq hm.sane.noWrap htable (by omega) (by omega),
    hm.accepted.bytesPerSector, mul32, Words.mul_eq (by omega), fatAddress]
  generalize fs.bpb.reservedSectorCount + table * fs.bpb.tableSize32 = base
  omega

theorem Mounted.fatValue_eq {c : Nat} (hc : (view fs).Valid c) :
    fs.fatValue c =
      readLE fs.backingDevice.bytes (fatAddress fs 0 c) 4 &&& 0x0FFFFFFF := by
  have haddress := hm.fatSector_address hm.accepted.tableCount hc
  have hwindow : mul32 c 4 % fs.bpb.bytesPerSector + 4 ≤ 512 := by
    have hhigh : c < fs.totalClusters + 2 := hc.2
    have hmarks := hm.consistent.marks
    rw [hm.accepted.bytesPerSector, mul32, Words.mul_eq (by omega)]
    omega
  rw [← haddress, ← readLE_window hwindow]
  have hfirst : add32 fs.fatFirstSector (mul32 0 fs.bpb.tableSize32) = fs.fatFirstSector := by
    have hsmall := hm.accepted.stored.reservedSectorCount
    rw [mul32, Words.mul_eq (by omega), Nat.zero_mul, add32, hm.accepted.fatFirstSector,
      Words.add_eq (by omega), Nat.add_zero]
  unfold FAT32FileSystem.fatValue fatSector
  rw [hfirst]

theorem Mounted.clusterData_eq {c : Nat} (hc : (view fs).Valid c) :
    fs.clusterData c =
      window fs.backingDevice.bytes (dataAddress fs c) (fs.bpb.sectorsPerCluster * 512) := by
  rw [← hm.clusterToSector_eq hc]
  rfl

omit hm in
theorem fat_view {c : Nat} (hc : (view fs).Valid c) : (view fs).fat c = fs.fatValue c :=
  if_pos hc

omit hm in
theorem data_view {c : Nat} (hc : (view fs).Valid c) : (view fs).data c = fs.clusterData c :=
  if_pos hc

/-- The entries of the first table end before the data region. -/
theorem Mounted.fatAddress_lt {c : Nat} (hc : (view fs).Valid c) :
    fs.bpb.reservedSectorCount * 512 ≤ fatAddress fs 0 c ∧
      fatAddress fs 0 c + 4 ≤ (fs.bpb.reservedSectorCount + fs.bpb.tableSize32) * 512 ∧
      fs.bpb.reservedSectorCount + fs.bpb.tableSize32 ≤ fs.bpb.dataStart := by
  have hhigh : c < fs.totalClusters + 2 := hc.2
  have hcovered := hm.consistent.covered
  have htables : fs.bpb.tableSize32 ≤ fs.bpb.tableCount * fs.bpb.tableSize32 :=
    Nat.le_mul_of_pos_left _ hm.accepted.tableCount
  unfold fatAddress BIOSParameterBlock.dataStart
  omega

/-- The other tables lie between the first one and the data region. -/
theorem Mounted.fatAddress_rest {table c : Nat} (hc : (view fs).Valid c) (hfirst : 0 < table)
    (htable : table < fs.bpb.tableCount) :
    (fs.bpb.reservedSectorCount + fs.bpb.tableSize32) * 512 ≤ fatAddress fs table c ∧
      fatAddress fs table c + 4 ≤ fs.bpb.dataStart * 512 := by
  have hone : fs.bpb.tableSize32 ≤ table * fs.bpb.tableSize32 := Nat.le_mul_of_pos_left _ hfirst
  have hlast : (table + 1) * fs.bpb.tableSize32 ≤ fs.bpb.tableCount * fs.bpb.tableSize32 :=
    Nat.mul_le_mul_right _ htable
  have hcovered := hm.consistent.covered
  have hhigh : c < fs.totalClusters + 2 := hc.2
  rw [Nat.succ_mul] at hlast
  unfold fatAddress BIOSParameterBlock.dataStart
  omega

end

/-- Clusters do not overlap. -/
theorem dataAddress_apart (fs : FAT32FileSystem) {c c' : Nat} (hc : 2 ≤ c) (hlt : c < c') :
    dataAddress fs c + fs.bpb.sectorsPerCluster * 512 ≤ dataAddress fs c' := by
  have hmul : fs.bpb.sectorsPerCluster * (c - 2 + 1) ≤ fs.bpb.sectorsPerCluster * (c' - 2) :=
    Nat.mul_le_mul_left _ (by omega)
  rw [Nat.mul_succ] at hmul
  unfold dataAddress
  omega

theorem dataStart_le_dataAddress (fs : FAT32FileSystem) (c : Nat) :
    fs.bpb.dataStart * 512 ≤ dataAddress fs c :=
  Nat.mul_le_mul_right _ (Nat.le_add_right _ _)

/-! ## What a change of the disk does to the view -/

theorem Disk.ext_view {fs : FAT32FileSystem} {d : Disk} (hclusters : d.clusters = fs.totalClusters)
    (hslots : d.slots = clusterSize fs / entrySize) (hroot : d.root = fs.bpb.rootCluster)
    (hfat : ∀ c, d.fat c = (view fs).fat c) (hdata : ∀ c, d.data c = (view fs).data c) :
    view fs = d := by
  obtain ⟨clusters, slots, root, fat, data⟩ := d
  simp only at hclusters hslots hroot hfat hdata
  subst hclusters hslots hroot
  rw [show fat = (view fs).fat from funext hfat, show data = (view fs).data from funext hdata]
  rfl

theorem valid_view_stored {fs : FAT32FileSystem} {n : Nat} {bytes : Nat → UInt8} {c : Nat} :
    (view (fs.stored n bytes)).Valid c ↔ (view fs).Valid c := by
  unfold Disk.Valid
  rfl

section

variable {fs : FAT32FileSystem} (hm : Mounted fs) {n : Nat} {bytes : Nat → UInt8}

include hm

theorem fat_view_stored {c : Nat} (hc : (view fs).Valid c) :
    (view (fs.stored n bytes)).fat c = readLE bytes (fatAddress fs 0 c) 4 &&& 0x0FFFFFFF := by
  have hm' := (sameVolume_stored fs n bytes).mounted hm
  have hstored : (view (fs.stored n bytes)).Valid c := valid_view_stored.mpr hc
  rw [fat_view hstored, hm'.fatValue_eq hstored]
  rfl

theorem data_view_stored {c : Nat} (hc : (view fs).Valid c) :
    (view (fs.stored n bytes)).data c =
      window bytes (dataAddress fs c) (fs.bpb.sectorsPerCluster * 512) := by
  have hm' := (sameVolume_stored fs n bytes).mounted hm
  have hstored : (view (fs.stored n bytes)).Valid c := valid_view_stored.mpr hc
  rw [data_view hstored, hm'.clusterData_eq hstored]
  rfl

omit hm in
theorem fat_view_of_not_valid {c : Nat} (hc : ¬ (view fs).Valid c) : (view fs).fat c = 0 :=
  if_neg hc

omit hm in
theorem data_view_of_not_valid {c : Nat} (hc : ¬ (view fs).Valid c) :
    (view fs).data c = fun _ => 0 :=
  if_neg hc

omit hm in
theorem data_in_region (fs : FAT32FileSystem) (c i : Nat) :
    fs.bpb.dataStart * 512 ≤ dataAddress fs c + i :=
  Nat.le_trans (dataStart_le_dataAddress fs c) (Nat.le_add_right _ _)

omit hm in
theorem window_congr {mem mem' : Nat → UInt8} {a k : Nat}
    (h : ∀ i < k, mem' (a + i) = mem (a + i)) : window mem' a k = window mem a k := by
  funext i
  unfold window
  split
  · exact h i ‹_›
  · rfl

/-- What lies in the first table or in the data region decides. -/
theorem view_stored
    (hsame : ∀ x, (fs.bpb.reservedSectorCount * 512 ≤ x ∧
      x < (fs.bpb.reservedSectorCount + fs.bpb.tableSize32) * 512) ∨
      fs.bpb.dataStart * 512 ≤ x → bytes x = fs.backingDevice.bytes x) :
    view (fs.stored n bytes) = view fs := by
  refine Disk.ext_view rfl rfl rfl (fun c => ?_) (fun c => ?_)
  · by_cases hc : (view fs).Valid c
    · rw [fat_view_stored hm hc, fat_view hc, hm.fatValue_eq hc]
      have hlt := hm.fatAddress_lt hc
      rw [readLE_congr fun x h₁ h₂ => hsame x (.inl (by omega))]
    · rw [fat_view_of_not_valid hc]
      exact (fat_view_of_not_valid (mt valid_view_stored.mp hc)).symm
  · by_cases hc : (view fs).Valid c
    · rw [data_view_stored hm hc, data_view hc, hm.clusterData_eq hc]
      exact (window_congr fun i _ => hsame _ (.inr (data_in_region fs c i))).symm
    · rw [data_view_of_not_valid hc]
      exact (data_view_of_not_valid (mt valid_view_stored.mp hc)).symm

/-- Writing a table entry in the first table. -/
theorem view_stored_fat {c raw v : Nat} (hc : (view fs).Valid c) (hraw : raw < 2 ^ 32)
    (hv : raw &&& 0x0FFFFFFF = v)
    (hsame : ∀ x, x < (fs.bpb.reservedSectorCount + fs.bpb.tableSize32) * 512 ∨
      fs.bpb.dataStart * 512 ≤ x →
      bytes x = writeLE fs.backingDevice.bytes (fatAddress fs 0 c) 4 raw x) :
    view (fs.stored n bytes) = (view fs).setFat c v := by
  have hlt := hm.fatAddress_lt hc
  refine Disk.ext_view rfl rfl rfl (fun x => ?_) (fun x => ?_)
  · by_cases hx : (view fs).Valid x
    · rw [fat_view_stored hm hx]
      have hlt' := hm.fatAddress_lt hx
      rw [readLE_congr fun y _ h => hsame y (.inl (by omega))]
      by_cases heq : x = c
      · subst heq
        rw [readLE_writeLE_same (by simpa using hraw), hv, Disk.fat_setFat_same]
      · rw [readLE_writeLE_disjoint (by unfold fatAddress; omega), Disk.fat_setFat_of_ne heq,
          fat_view hx, hm.fatValue_eq hx]
    · have hne : x ≠ c := by
        rintro rfl
        exact hx hc
      rw [Disk.fat_setFat_of_ne hne, fat_view_of_not_valid hx]
      exact (fat_view_of_not_valid (mt valid_view_stored.mp hx)).symm
  · rw [Disk.data_setFat]
    by_cases hx : (view fs).Valid x
    · rw [data_view_stored hm hx, data_view hx, hm.clusterData_eq hx]
      refine (window_congr fun i _ => ?_).symm
      have hregion := data_in_region fs x i
      rw [hsame _ (.inr hregion), writeLE_of_ge (by omega)]
    · rw [data_view_of_not_valid hx]
      exact (data_view_of_not_valid (mt valid_view_stored.mp hx)).symm

/-- Writing the data of a cluster. -/
theorem view_stored_data {c : Nat} (hc : (view fs).Valid c) {data : Nat → UInt8}
    (hbytes : bytes = blit fs.backingDevice.bytes (dataAddress fs c)
      (fs.bpb.sectorsPerCluster * 512) data) :
    view (fs.stored n bytes) = (view fs).setData c data := by
  have hsize : (view fs).size = fs.bpb.sectorsPerCluster * 512 :=
    hm.size_eq.trans hm.clusterSize_eq
  refine Disk.ext_view rfl rfl rfl (fun x => ?_) (fun x => ?_)
  · rw [Disk.fat_setData]
    by_cases hx : (view fs).Valid x
    · rw [fat_view_stored hm hx, fat_view hx, hm.fatValue_eq hx]
      have hlt := hm.fatAddress_lt hx
      have hregion := dataStart_le_dataAddress fs c
      rw [hbytes, readLE_congr fun y _ h => blit_of_lt (by omega)]
    · rw [fat_view_of_not_valid hx]
      exact (fat_view_of_not_valid (mt valid_view_stored.mp hx)).symm
  · by_cases heq : x = c
    · subst heq
      rw [data_view_stored hm hc, hbytes, Disk.setData]
      simp only [Function.update_self]
      funext i
      rw [hsize, window]
      split
      · exact (blit_of_mem ‹_›).symm
      · rfl
    · rw [Disk.data_setData_of_ne heq]
      by_cases hx : (view fs).Valid x
      · rw [data_view_stored hm hx, data_view hx, hm.clusterData_eq hx, hbytes]
        refine (window_congr fun i _ => ?_).symm
        rcases Nat.lt_or_gt_of_ne heq with hlt | hlt
        · have hapart := dataAddress_apart fs hx.1 hlt
          exact blit_of_lt (by omega)
        · have hapart := dataAddress_apart fs hc.1 hlt
          exact blit_of_ge (by omega)
      · rw [data_view_of_not_valid hx]
        exact (data_view_of_not_valid (mt valid_view_stored.mp hx)).symm

end

/-! ## Requests that write -/

theorem writeSectors_eq (fs : FAT32FileSystem) (sector count : Nat) (data : Nat → UInt8) :
    writeSectors fs sector count data =
      if fs.fault 0 then (false, fs.served 1)
      else (true, fs.stored 1 (blit fs.backingDevice.bytes (sector * 512) (count * 512) data)) := by
  unfold writeSectors BlockDevice.writeBlocks FAT32FileSystem.fault
  cases fs.backingDevice.faults 0 <;> rfl

/-- The value that `writeFATEntry` stores over an old one keeps its high bits. -/
def rawValue (old v : Nat) : Nat := (old &&& 0xF0000000) ||| (v &&& 0x0FFFFFFF)

theorem rawValue_lt (old v : Nat) : rawValue old v < 2 ^ 32 :=
  Nat.or_lt_two_pow (Nat.lt_of_le_of_lt Nat.and_le_right (by decide))
    (Nat.lt_of_le_of_lt Nat.and_le_right (by decide))

theorem rawValue_and {old v : Nat} (hv : v < 2 ^ 28) : rawValue old v &&& 0x0FFFFFFF = v := by
  have hmask : (0x0FFFFFFF : Nat) = 2 ^ 28 - 1 := rfl
  have hhigh : old &&& 0xF0000000 &&& (2 ^ 28 - 1) = 0 := by
    rw [Nat.and_assoc]
    exact Nat.and_zero old
  unfold rawValue
  rw [hmask, Nat.and_or_distrib_right, hhigh, Nat.zero_or, Nat.and_assoc, Nat.and_self,
    Words.and_mask, Nat.mod_eq_of_lt hv]

/-- One table of `writeFATEntry`, with the position of the entry it writes. -/
theorem writeFATEntryLoop_step {fs : FAT32FileSystem} {c v table address : Nat}
    (haddress : fatSector fs table c * 512 + mul32 c 4 % fs.bpb.bytesPerSector = address)
    (hwindow : mul32 c 4 % fs.bpb.bytesPerSector + 4 ≤ 512) (n : Nat) :
    writeFATEntryLoop c v fs table (n + 1) =
      if fs.fault 0 then (false, fs.served 1)
      else if fs.fault 1 then (false, fs.served 2)
      else
        writeFATEntryLoop c v
          (fs.stored 2 (writeLE fs.backingDevice.bytes address 4
            (rawValue (readLE fs.backingDevice.bytes address 4) v)))
          (table + 1) n := by
  rw [writeFATEntryLoop]
  simp only [readSectors_eq, writeSectors_eq]
  cases h₀ : fs.fault 0 with
  | true => rfl
  | false =>
      simp only [Bool.false_eq_true, if_false, FAT32FileSystem.fault_served, Nat.zero_add]
      cases h₁ : fs.fault 1 with
      | true => simp
      | false =>
          simp only [Bool.false_eq_true, if_false, Nat.one_mul]
          change writeFATEntryLoop c v (fs.stored 2 (blit fs.backingDevice.bytes
            (fatSector fs table c * 512) 512 (writeLE (window fs.backingDevice.bytes
              (fatSector fs table c * 512) 512) (mul32 c 4 % fs.bpb.bytesPerSector) 4
              (rawValue (readLE (window fs.backingDevice.bytes (fatSector fs table c * 512) 512)
                (mul32 c 4 % fs.bpb.bytesPerSector) 4) v)))) (table + 1) n = _
          rw [blit_writeLE_window hwindow, readLE_window hwindow, haddress]

theorem writeFATEntryLoop_succ {fs : FAT32FileSystem} (hm : Mounted fs) {c v table : Nat}
    (hc : (view fs).Valid c) (htable : table < fs.bpb.tableCount) (n : Nat) :
    writeFATEntryLoop c v fs table (n + 1) =
      if fs.fault 0 then (false, fs.served 1)
      else if fs.fault 1 then (false, fs.served 2)
      else
        writeFATEntryLoop c v
          (fs.stored 2 (writeLE fs.backingDevice.bytes (fatAddress fs table c) 4
            (rawValue (readLE fs.backingDevice.bytes (fatAddress fs table c) 4) v)))
          (table + 1) n := by
  refine writeFATEntryLoop_step (hm.fatSector_address htable hc) ?_ n
  have hhigh : c < fs.totalClusters + 2 := hc.2
  have hmarks := hm.consistent.marks
  rw [hm.accepted.bytesPerSector, mul32, Words.mul_eq (by omega)]
  omega

/-- The tables after the first one are not in the view. -/
theorem writeFATEntryLoop_rest {c v n table : Nat} {fs : FAT32FileSystem} (hm : Mounted fs)
    (hc : (view fs).Valid c) (hfirst : 0 < table) (hcount : table + n = fs.bpb.tableCount) :
    ∃ ok m bytes, writeFATEntryLoop c v fs table n = (ok, fs.stored m bytes) ∧
      (∀ x, x < (fs.bpb.reservedSectorCount + fs.bpb.tableSize32) * 512 ∨
        fs.bpb.dataStart * 512 ≤ x → bytes x = fs.backingDevice.bytes x) ∧
      (fs.Reliable → ok = true) := by
  induction n generalizing fs table with
  | zero => exact ⟨true, 0, _, rfl, fun _ _ => rfl, fun _ => rfl⟩
  | succ n ih =>
      have htable : table < fs.bpb.tableCount := by omega
      rw [writeFATEntryLoop_succ hm hc htable]
      cases h₀ : fs.fault 0 with
      | true =>
          exact ⟨false, 1, _, rfl, fun _ _ => rfl, fun h => by rw [h 0] at h₀; cases h₀⟩
      | false =>
          cases h₁ : fs.fault 1 with
          | true =>
              exact ⟨false, 2, _, rfl, fun _ _ => rfl, fun h => by rw [h 1] at h₁; cases h₁⟩
          | false =>
              simp only [Bool.false_eq_true, if_false]
              generalize hraw : rawValue _ v = raw
              have hsame := sameVolume_stored fs 2
                (writeLE fs.backingDevice.bytes (fatAddress fs table c) 4 raw)
              obtain ⟨ok, m, bytes, hloop, hbytes, hok⟩ :=
                ih (hsame.mounted hm) (valid_view_stored.mpr hc) (Nat.succ_pos table) (by
                  change table + 1 + n = fs.bpb.tableCount
                  omega)
              refine ⟨ok, m + 2, bytes, ?_, fun x hx => ?_, fun h => hok (hsame.reliable h)⟩
              · rw [hloop]
                simp only [FAT32FileSystem.stored, Nat.add_assoc]
              · rw [hbytes x hx]
                obtain ⟨hlow, hhigh⟩ := hm.fatAddress_rest hc hfirst htable
                change writeLE _ _ _ _ x = _
                rcases hx with hx | hx
                · exact writeLE_of_lt (Nat.lt_of_lt_of_le hx hlow)
                · exact writeLE_of_ge (Nat.le_trans hhigh hx)

/-- A write that changed the view as intended, or returned `false` and left it as it
was.  The reserved sectors and the FSInfo in memory are as before. -/
structure Wrote (fs : FAT32FileSystem) (d : Disk) (ok : Bool) (fs' : FAT32FileSystem) : Prop where
  same : SameVolume fs fs'
  view : view fs' = d ∨ ok = false ∧ view fs' = view fs
  reliable : fs.Reliable → ok = true
  fsInfo : fs'.fsInfo = fs.fsInfo
  reserved : ∀ x < fs.bpb.reservedSectorCount * 512,
    fs'.backingDevice.bytes x = fs.backingDevice.bytes x

theorem Wrote.view_eq {fs fs' : FAT32FileSystem} {d : Disk} (h : Wrote fs d true fs') :
    Fat32.view fs' = d :=
  h.view.resolve_right fun hfalse => Bool.noConfusion hfalse.1

theorem writeFATEntry_wrote {fs : FAT32FileSystem} (hm : Mounted fs) {c v : Nat}
    (hc : (view fs).Valid c) (hv : v < 2 ^ 28) :
    ∃ ok fs', writeFATEntry fs c v = (ok, fs') ∧ Wrote fs ((view fs).setFat c v) ok fs' := by
  obtain ⟨n, hn⟩ : ∃ n, fs.bpb.tableCount = n + 1 :=
    ⟨_, (Nat.succ_pred_eq_of_pos hm.accepted.tableCount).symm⟩
  unfold writeFATEntry
  rw [hn, writeFATEntryLoop_succ hm hc hm.accepted.tableCount]
  have hlt := hm.fatAddress_lt hc
  cases h₀ : fs.fault 0 with
  | true =>
      exact ⟨false, _, rfl, sameVolume_served fs 1, .inr ⟨rfl, rfl⟩,
        fun h => (Bool.noConfusion ((h 0).symm.trans h₀)), rfl, fun _ _ => rfl⟩
  | false =>
      cases h₁ : fs.fault 1 with
      | true =>
          exact ⟨false, _, rfl, sameVolume_served fs 2, .inr ⟨rfl, rfl⟩,
            fun h => (Bool.noConfusion ((h 1).symm.trans h₁)), rfl, fun _ _ => rfl⟩
      | false =>
          simp only [Bool.false_eq_true, if_false]
          generalize hraw : rawValue _ v = raw
          have hsame := sameVolume_stored fs 2
            (writeLE fs.backingDevice.bytes (fatAddress fs 0 c) 4 raw)
          have htables : 1 + n = fs.bpb.tableCount := by rw [hn, Nat.add_comm]
          obtain ⟨ok, m, bytes, hloop, hbytes, hok⟩ :=
            writeFATEntryLoop_rest (v := v) (hsame.mounted hm) (valid_view_stored.mpr hc)
              Nat.one_pos htables
          rw [hloop]
          refine ⟨ok, _, rfl, hsame.trans (sameVolume_stored _ m bytes), .inl ?_,
            fun h => hok (hsame.reliable h), rfl, fun x hx => ?_⟩
          · change view (fs.stored (m + 2) bytes) = _
            refine view_stored_fat hm hc (hraw ▸ rawValue_lt _ v) (hraw ▸ rawValue_and hv) hbytes
          · have htable : x < (fs.bpb.reservedSectorCount + fs.bpb.tableSize32) * 512 :=
              Nat.lt_of_lt_of_le hx (Nat.mul_le_mul_right _ (Nat.le_add_right _ _))
            exact (hbytes x (.inl htable)).trans (writeLE_of_lt (Nat.lt_of_lt_of_le hx hlt.1))

/-- Reads, in terms of the view. -/
theorem readFATEntry_view {fs : FAT32FileSystem} {c : Nat} (hc : (view fs).Valid c) :
    readFATEntry fs c = (if fs.fault 0 then none else some ((view fs).fat c), fs.served 1) := by
  rw [readFATEntry_eq, fat_view hc]

theorem readCluster_view {fs : FAT32FileSystem} {c : Nat} (hc : (view fs).Valid c) :
    readCluster fs c = (if fs.fault 0 then none else some ((view fs).data c), fs.served 1) := by
  rw [readCluster_eq fs hc.1, data_view hc]

theorem writeCluster_wrote {fs : FAT32FileSystem} (hm : Mounted fs) {c : Nat}
    (hc : (view fs).Valid c) (data : Nat → UInt8) :
    ∃ ok fs', writeCluster fs c data = (ok, fs') ∧ Wrote fs ((view fs).setData c data) ok fs' ∧
      (ok = false → view fs' = view fs) := by
  unfold writeCluster
  rw [if_neg (Nat.not_lt.mpr hc.1), writeSectors_eq, hm.clusterToSector_eq hc]
  cases h₀ : fs.fault 0 with
  | true =>
      exact ⟨false, _, rfl, ⟨sameVolume_served fs 1, .inr ⟨rfl, rfl⟩,
        fun h => (Bool.noConfusion ((h 0).symm.trans h₀)), rfl, fun _ _ => rfl⟩, fun _ => rfl⟩
  | false =>
      refine ⟨true, _, rfl, ⟨sameVolume_stored fs 1 _, .inl (view_stored_data hm hc rfl),
        fun _ => rfl, rfl, fun x hx => ?_⟩, fun h => Bool.noConfusion h⟩
      have hregion := dataStart_le_dataAddress fs c
      refine blit_of_lt ?_
      unfold BIOSParameterBlock.dataStart at hregion
      omega

/-- A cluster is read, edited and written back. -/
theorem editCluster_wrote {fs : FAT32FileSystem} (hm : Mounted fs) {c : Nat}
    (hc : (view fs).Valid c) (edit : (Nat → UInt8) → Nat → UInt8) :
    ∃ ok fs', (match readCluster fs c with
        | (none, fs) => (false, fs)
        | (some data, fs) => writeCluster fs c (edit data)) = (ok, fs') ∧
      Wrote fs ((view fs).setData c (edit ((view fs).data c))) ok fs' ∧
      (ok = false → view fs' = view fs) := by
  rw [readCluster_view hc]
  have hsame := sameVolume_served fs 1
  cases h₀ : fs.fault 0 with
  | true =>
      exact ⟨false, _, rfl, ⟨hsame, .inr ⟨rfl, rfl⟩,
        fun h => Bool.noConfusion ((h 0).symm.trans h₀), rfl, fun _ _ => rfl⟩, fun _ => rfl⟩
  | false =>
      obtain ⟨ok, fs', hwrite, hwrote, hfalse⟩ :=
        writeCluster_wrote (hsame.mounted hm) hc (edit ((view fs).data c))
      exact ⟨ok, fs', hwrite, ⟨hsame.trans hwrote.same, hwrote.view,
        fun h => hwrote.reliable (hsame.reliable h), hwrote.fsInfo, hwrote.reserved⟩, hfalse⟩

/-! ## The FSInfo sector -/

/-- The count of free clusters in the FSInfo sector. -/
def storedCount (fs : FAT32FileSystem) : Nat :=
  readLE fs.backingDevice.bytes (fs.bpb.fsInfoSector * 512 + 488) 4

theorem readLE_toSector (info : FSInfo) (hcount : info.freeClusterCount < 2 ^ 32) :
    readLE info.toSector 488 4 = info.freeClusterCount := by
  unfold FSInfo.toSector
  rw [readLE_writeLE_disjoint (by omega), readLE_congr fun x _ h => blit_of_lt (by omega),
    readLE_writeLE_disjoint (by omega), readLE_writeLE_same (by simpa using hcount)]

theorem lt_of_sector_lt {a b x : Nat} (hab : a < b) (hx : x < a * 512 + 512) : x < b * 512 := by
  have hle := Nat.mul_le_mul_right 512 (Nat.succ_le_of_lt hab)
  rw [Nat.succ_mul] at hle
  exact Nat.lt_of_lt_of_le hx hle

theorem Wrote.storedCount {fs fs' : FAT32FileSystem} {d : Disk} {ok : Bool} (hm : Mounted fs)
    (h : Wrote fs d ok fs') (hinfo : fs.bpb.fsInfoSector ≠ 0) :
    Fat32.storedCount fs' = Fat32.storedCount fs := by
  have hreserved := hm.consistent.fsInfoSector hinfo
  unfold Fat32.storedCount
  rw [h.same.bpb]
  refine readLE_congr fun x _ hx => h.reserved x (lt_of_sector_lt hreserved ?_)
  rw [Nat.add_assoc] at hx
  exact Nat.lt_of_lt_of_le hx (Nat.add_le_add_left (by decide) _)

/-- The FSInfo in memory has been replaced and written to its sector, which is not
seen in the view. -/
structure Synced (fs : FAT32FileSystem) (count : Nat) (fs' : FAT32FileSystem) : Prop where
  same : SameVolume fs fs'
  view : view fs' = view fs
  memory : fs'.fsInfo.freeClusterCount = count
  stored : fs.Reliable → fs.bpb.fsInfoSector ≠ 0 → count < 2 ^ 32 → storedCount fs' = count

theorem syncFSInfo_synced {fs : FAT32FileSystem} (hm : Mounted fs) (info : FSInfo) :
    Synced fs info.freeClusterCount (syncFSInfo { fs with fsInfo := info }).2 := by
  unfold syncFSInfo
  by_cases hinfo : fs.bpb.fsInfoSector = 0
  · rw [if_pos hinfo]
    exact ⟨⟨rfl, rfl, rfl, rfl, rfl, id⟩, rfl, rfl, fun _ h => absurd hinfo h⟩
  rw [if_neg hinfo]
  have hreserved := hm.consistent.fsInfoSector hinfo
  have hregion := hm.fatAddress_lt hm.root_valid
  simp only [writeSectors_eq]
  generalize hnew : ({ info with
    leadSignature := 0x41615252
    structureSignature := 0x61417272
    trailSignature := 0xAA550000 } : FSInfo) = info'
  have hcount : info'.freeClusterCount = info.freeClusterCount := by rw [← hnew]
  have hm' : Mounted { fs with fsInfo := info' } :=
    (⟨rfl, rfl, rfl, rfl, rfl, id⟩ : SameVolume fs { fs with fsInfo := info' }).mounted hm
  cases h₀ : FAT32FileSystem.fault { fs with fsInfo := info' } 0 with
  | true =>
      refine ⟨⟨rfl, rfl, rfl, rfl, rfl, fun h k => h (k + 1)⟩, rfl, hcount, fun h => ?_⟩
      exact Bool.noConfusion ((h 0).symm.trans h₀)
  | false =>
      refine ⟨⟨rfl, rfl, rfl, rfl, rfl, fun h k => h (k + 1)⟩, ?_, hcount, fun _ _ hlt => ?_⟩
      · refine view_stored hm' fun x hx => blit_of_ge ?_
        by_contra hlt
        have hsector := lt_of_sector_lt hreserved (Nat.not_le.mp hlt)
        rcases hx with hx | hx
        · exact absurd hsector (Nat.not_lt.mpr hx.1)
        · have hstart := Nat.le_trans (Nat.mul_le_mul_right 512 (Nat.le_trans
            (Nat.le_add_right _ _) hregion.2.2)) hx
          exact absurd hsector (Nat.not_lt.mpr hstart)
      · rw [← hcount, ← readLE_toSector info' (hcount ▸ hlt)]
        exact readLE_blit (by decide)

/-! ## A search around the end of the volume -/

/-- The round in which a search from `start` on tries `c`. -/
theorem exists_round {n start c : Nat} (hstart : 2 ≤ start ∧ start < n + 2)
    (hc : 2 ≤ c ∧ c < n + 2) : ∃ j < n, 2 + (start - 2 + j) % n = c := by
  obtain ⟨hlow, hhigh⟩ := hc
  obtain ⟨hlow', hhigh'⟩ := hstart
  rcases Nat.lt_or_ge c start with hlt | hge
  · refine ⟨c + n - start, by omega, ?_⟩
    rw [show start - 2 + (c + n - start) = c - 2 + n by omega, Nat.add_mod_right,
      Nat.mod_eq_of_lt (by omega), Nat.add_sub_cancel' hlow]
  · refine ⟨c - start, by omega, ?_⟩
    rw [show start - 2 + (c - start) = c - 2 by omega, Nat.mod_eq_of_lt (by omega),
      Nat.add_sub_cancel' hlow]

end Avery.Fat32
