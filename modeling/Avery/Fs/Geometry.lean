import Avery.Fs.Volume

/-!
# The geometry of a mounted volume

`mount` derives the position of the data region and the number of clusters from
the boot sector, in 32 bits.  It checks few relations between the fields, so a
volume it accepts need not be `Consistent`; the fields decide
(`mount_consistent_iff`).  Nor does `clusterToSector` check its argument, and the
numbers that it keeps inside the data region are those that are in range modulo
the wrap-around (`cluster_access_iff`).
-/

namespace Avery.Fat32

open ByteMemory

/-! ## What `mount` accepts -/

def BIOSParameterBlock.totalSectors (bpb : BIOSParameterBlock) : Nat :=
  if bpb.totalSectors16 ≠ 0 then bpb.totalSectors16 else bpb.totalSectors32

/-- The first sector of the data region, as an exact sum. -/
def BIOSParameterBlock.dataStart (bpb : BIOSParameterBlock) : Nat :=
  bpb.reservedSectorCount + bpb.tableCount * bpb.tableSize32

/-- The fields fit the bytes they are stored in. -/
structure BIOSParameterBlock.Stored (bpb : BIOSParameterBlock) : Prop where
  sectorsPerCluster : bpb.sectorsPerCluster < 2 ^ 8
  reservedSectorCount : bpb.reservedSectorCount < 2 ^ 16
  tableCount : bpb.tableCount < 2 ^ 8
  totalSectors : bpb.totalSectors < 2 ^ 32
  tableSize32 : bpb.tableSize32 < 2 ^ 32
  rootCluster : bpb.rootCluster < 2 ^ 32

theorem stored_ofSector (sector : Nat → UInt8) : (BIOSParameterBlock.ofSector sector).Stored where
  sectorsPerCluster := readLE_lt sector 13 1
  reservedSectorCount := readLE_lt sector 14 2
  tableCount := readLE_lt sector 16 1
  totalSectors := by
    unfold BIOSParameterBlock.totalSectors
    have h₁ := readLE_lt sector 19 2
    have h₂ := readLE_lt sector 32 4
    split
    · exact Nat.lt_trans h₁ (by decide)
    · exact h₂
  tableSize32 := readLE_lt sector 36 4
  rootCluster := readLE_lt sector 44 4

/-- What the checks of `mount` establish. -/
structure Accepted (fs : FAT32FileSystem) : Prop where
  stored : fs.bpb.Stored
  bytesPerSector : fs.bpb.bytesPerSector = 512
  sectorsPerCluster : ∃ k ≤ 7, fs.bpb.sectorsPerCluster = 2 ^ k
  reservedSectorCount : 0 < fs.bpb.reservedSectorCount
  tableCount : 0 < fs.bpb.tableCount
  tableSize32 : 0 < fs.bpb.tableSize32
  rootCluster : 2 ≤ fs.bpb.rootCluster
  fatFirstSector : fs.fatFirstSector = fs.bpb.reservedSectorCount
  fatFirstDataSector : fs.fatFirstDataSector =
    add32 fs.bpb.reservedSectorCount (mul32 fs.bpb.tableCount fs.bpb.tableSize32)
  totalSectors : fs.totalSectors = fs.bpb.totalSectors
  dataRegion : fs.fatFirstDataSector < fs.totalSectors
  totalClusters : fs.totalClusters =
    (fs.totalSectors - fs.fatFirstDataSector) / fs.bpb.sectorsPerCluster
  someCluster : 0 < fs.totalClusters

theorem pow_of_and_pred {s : Nat} (hlt : s < 2 ^ 8) (hs : s ≠ 0) (hand : s &&& (s - 1) = 0) :
    ∃ k ≤ 7, s = 2 ^ k := by
  have hall : ∀ s < 2 ^ 8, s ≠ 0 → s &&& (s - 1) = 0 → ∃ k ≤ 7, s = 2 ^ k := by
    decide +kernel
  exact hall s hlt hs hand

/-- The boot sector is the first 512 bytes of the disk. -/
theorem ofSector_window (bytes : Nat → UInt8) :
    BIOSParameterBlock.ofSector (window bytes 0 512) = BIOSParameterBlock.ofSector bytes := by
  simp [BIOSParameterBlock.ofSector, readLE_window]

theorem readFSInfo_device (device : BlockDevice) (fsInfoSector : Nat) :
    ∃ n, (readFSInfo device fsInfoSector).2 =
      { device with faults := fun k => device.faults (k + n) } := by
  unfold readFSInfo BlockDevice.readBlocks
  split
  · exact ⟨0, rfl⟩
  · cases device.faults 0 with
    | true => exact ⟨1, rfl⟩
    | false =>
        refine ⟨1, ?_⟩
        simp only [Bool.false_eq_true, if_false]
        split <;> rfl

/-- Mounting checks the fields of the boot sector and only reads. -/
theorem accepted_of_mount {device : BlockDevice} {fs : FAT32FileSystem}
    (hmount : mount device = some fs) :
    Accepted fs ∧ fs.bpb = BIOSParameterBlock.ofSector device.bytes ∧
      ∃ n, fs.backingDevice = { device with faults := fun k => device.faults (k + n) } := by
  unfold mount BlockDevice.readBlocks at hmount
  cases hfault : device.faults 0 with
  | true => simp [hfault] at hmount
  | false =>
      simp only [hfault, Bool.false_eq_true, if_false, Nat.zero_mul, Nat.one_mul,
        ofSector_window] at hmount
      have hstored := stored_ofSector device.bytes
      generalize BIOSParameterBlock.ofSector device.bytes = bpb at hmount hstored ⊢
      split at hmount
      · cases hmount
      next hvalid =>
      have htotal : (if bpb.totalSectors16 ≠ 0 then bpb.totalSectors16 else bpb.totalSectors32) =
          bpb.totalSectors := rfl
      rw [htotal] at hmount
      split at hmount
      · cases hmount
      next hregion =>
      split at hmount
      · cases hmount
      next hclusters =>
      simp only [Option.some.injEq] at hmount
      subst hmount
      simp only [validateBootSector, Bool.not_eq_true', decide_eq_false_iff_not, not_not,
        not_or, Nat.not_lt] at hvalid
      obtain ⟨hbytes, ⟨hspc, hpow⟩, ⟨hres, htables, hsize⟩, hroot, _⟩ := hvalid
      refine ⟨{
        stored := hstored
        bytesPerSector := hbytes
        sectorsPerCluster := pow_of_and_pred hstored.sectorsPerCluster hspc hpow
        reservedSectorCount := Nat.pos_of_ne_zero hres
        tableCount := Nat.pos_of_ne_zero htables
        tableSize32 := Nat.pos_of_ne_zero hsize
        rootCluster := hroot
        fatFirstSector := rfl
        fatFirstDataSector := rfl
        totalSectors := rfl
        dataRegion := Nat.not_le.mp hregion
        totalClusters := rfl
        someCluster := Nat.pos_of_ne_zero hclusters }, rfl, ?_⟩
      obtain ⟨n, hdevice⟩ := readFSInfo_device device.served bpb.fsInfoSector
      refine ⟨n + 1, ?_⟩
      rw [hdevice]
      simp only [BlockDevice.served, Nat.add_assoc]

/-! ## A small volume -/

/-- A disk with two reserved sectors, one table of one sector and eight clusters
of one sector.  The root directory is one empty cluster. -/
def tinyDisk (rootCluster : Nat) : BlockDevice where
  bytes :=
    let bytes := writeLE (fun _ => 0) 11 2 512
    let bytes := writeLE bytes 13 1 1
    let bytes := writeLE bytes 14 2 2
    let bytes := writeLE bytes 16 1 1
    let bytes := writeLE bytes 19 2 11
    let bytes := writeLE bytes 36 4 1
    let bytes := writeLE bytes 44 4 rootCluster
    let bytes := writeLE bytes 48 2 1
    let bytes := writeLE bytes 510 2 0xAA55
    let bytes := writeLE bytes 512 4 0x41615252
    let bytes := writeLE bytes (512 + 484) 4 0x61417272
    let bytes := writeLE bytes (512 + 488) 4 7
    let bytes := writeLE bytes (512 + 492) 4 3
    let bytes := writeLE bytes (512 + 508) 4 0xAA550000
    writeLE bytes (1024 + 8) 4 0x0FFFFFFF
  faults := fun _ => false

def tinyVolume : FAT32FileSystem := (mount (tinyDisk 2)).get (by decide +kernel)

theorem mount_tinyDisk : mount (tinyDisk 2) = some tinyVolume := (Option.some_get _).symm

/-! ## Consistent geometry -/

/-- The sector of a cluster's entry in one of the tables. -/
def fatSector (fs : FAT32FileSystem) (table cluster : Nat) : Nat :=
  add32 (add32 fs.fatFirstSector (mul32 table fs.bpb.tableSize32))
    (mul32 cluster 4 / fs.bpb.bytesPerSector)

/-- The relations between the fields of a mounted volume that the accesses to its
tables, clusters and FSInfo sector rely on. -/
structure Consistent (fs : FAT32FileSystem) : Prop where
  dataStart : fs.fatFirstDataSector = fs.bpb.dataStart
  clusters : fs.totalClusters =
    (fs.totalSectors - fs.bpb.dataStart) / fs.bpb.sectorsPerCluster
  covered : 4 * (fs.totalClusters + 2) ≤ fs.bpb.tableSize32 * 512
  accesses : ∀ table < fs.bpb.tableCount, ∀ cluster < fs.totalClusters + 2,
    fs.bpb.reservedSectorCount + table * fs.bpb.tableSize32 ≤ fatSector fs table cluster ∧
    fatSector fs table cluster <
      fs.bpb.reservedSectorCount + (table + 1) * fs.bpb.tableSize32 ∧
    fatSector fs table cluster < fs.fatFirstDataSector
  rootCluster : fs.bpb.rootCluster < fs.totalClusters + 2
  marks : fs.totalClusters ≤ 0x0FFFFFF5
  fsInfoSector : fs.bpb.fsInfoSector ≠ 0 → fs.bpb.fsInfoSector < fs.bpb.reservedSectorCount

/-- The same, as inequalities between the fields of the boot sector. -/
structure BIOSParameterBlock.Sane (bpb : BIOSParameterBlock) : Prop where
  noWrap : bpb.dataStart < 2 ^ 32
  covered : bpb.totalSectors <
    bpb.dataStart + bpb.sectorsPerCluster * (128 * bpb.tableSize32 - 1)
  marks : bpb.totalSectors < bpb.dataStart + bpb.sectorsPerCluster * 0x0FFFFFF6
  rootCluster : bpb.dataStart + bpb.sectorsPerCluster * (bpb.rootCluster - 1) ≤ bpb.totalSectors
  fsInfoSector : bpb.fsInfoSector < max 1 bpb.reservedSectorCount

instance (bpb : BIOSParameterBlock) : Decidable bpb.Sane :=
  decidable_of_iff
    ((bpb.dataStart < 2 ^ 32 ∧
      bpb.totalSectors < bpb.dataStart + bpb.sectorsPerCluster * (128 * bpb.tableSize32 - 1)) ∧
      (bpb.totalSectors < bpb.dataStart + bpb.sectorsPerCluster * 0x0FFFFFF6 ∧
        bpb.dataStart + bpb.sectorsPerCluster * (bpb.rootCluster - 1) ≤ bpb.totalSectors) ∧
      bpb.fsInfoSector < max 1 bpb.reservedSectorCount)
    ⟨fun ⟨⟨h₁, h₂⟩, ⟨h₃, h₄⟩, h₅⟩ => ⟨h₁, h₂, h₃, h₄, h₅⟩,
      fun ⟨h₁, h₂, h₃, h₄, h₅⟩ => ⟨⟨h₁, h₂⟩, ⟨h₃, h₄⟩, h₅⟩⟩

section

variable {fs : FAT32FileSystem} (ha : Accepted fs)

include ha

theorem Accepted.spc_pos : 0 < fs.bpb.sectorsPerCluster := by
  obtain ⟨k, _, hk⟩ := ha.sectorsPerCluster
  rw [hk]
  exact Nat.two_pow_pos k

/-- Without a wrap-around the data region is where the exact sum says. -/
theorem Accepted.dataStart_eq (hwrap : fs.bpb.dataStart < 2 ^ 32) :
    fs.fatFirstDataSector = fs.bpb.dataStart := by
  unfold BIOSParameterBlock.dataStart at hwrap ⊢
  rw [ha.fatFirstDataSector, mul32, Words.mul_eq (by omega), add32, Words.add_eq hwrap]

/-- A bound on the number of clusters, in terms of the sectors. -/
theorem Accepted.totalClusters_lt_iff (hstart : fs.fatFirstDataSector = fs.bpb.dataStart) {n : Nat} :
    fs.totalClusters < n ↔
      fs.bpb.totalSectors < fs.bpb.dataStart + fs.bpb.sectorsPerCluster * n := by
  have hregion := ha.dataRegion
  rw [ha.totalSectors, hstart] at hregion
  rw [ha.totalClusters, ha.totalSectors, hstart, Nat.div_lt_iff_lt_mul ha.spc_pos, Nat.mul_comm]
  omega

theorem Accepted.fatSector_eq {table cluster : Nat} (hwrap : fs.bpb.dataStart < 2 ^ 32)
    (htable : table < fs.bpb.tableCount) (hcluster : 4 * cluster < fs.bpb.tableSize32 * 512)
    (hsmall : cluster < 2 ^ 30) :
    fatSector fs table cluster =
      fs.bpb.reservedSectorCount + table * fs.bpb.tableSize32 + cluster / 128 := by
  have hmul : (table + 1) * fs.bpb.tableSize32 ≤ fs.bpb.tableCount * fs.bpb.tableSize32 :=
    Nat.mul_le_mul_right _ htable
  rw [Nat.succ_mul] at hmul
  unfold BIOSParameterBlock.dataStart at hwrap
  have hindex : mul32 cluster 4 / fs.bpb.bytesPerSector = cluster / 128 := by
    rw [mul32, Words.mul_eq (by omega), ha.bytesPerSector]
    omega
  have hbase : add32 fs.fatFirstSector (mul32 table fs.bpb.tableSize32) =
      fs.bpb.reservedSectorCount + table * fs.bpb.tableSize32 := by
    rw [ha.fatFirstSector, mul32, Words.mul_eq (by omega), add32, Words.add_eq (by omega)]
  rw [fatSector, hindex, hbase, add32, Words.add_eq (by omega)]

end

theorem consistent_iff_sane {fs : FAT32FileSystem} (ha : Accepted fs) :
    Consistent fs ↔ fs.bpb.Sane := by
  have hres := ha.reservedSectorCount
  constructor
  · intro hc
    have hwrap : fs.bpb.dataStart < 2 ^ 32 := by
      rw [← hc.dataStart, ha.fatFirstDataSector]
      exact Words.add_lt 32 _ _
    have hcovered := hc.covered
    have hinfo := hc.fsInfoSector
    refine ⟨hwrap, (ha.totalClusters_lt_iff hc.dataStart).mp (by omega),
      (ha.totalClusters_lt_iff hc.dataStart).mp (by have := hc.marks; omega), ?_, by omega⟩
    have hroot := hc.rootCluster
    have hnot := mt (ha.totalClusters_lt_iff hc.dataStart (n := fs.bpb.rootCluster - 1)).mpr
      (by omega)
    omega
  · intro hs
    have hstart := ha.dataStart_eq hs.noWrap
    have hsize := ha.tableSize32
    have hcovered := (ha.totalClusters_lt_iff hstart).mpr hs.covered
    have hmarks := (ha.totalClusters_lt_iff hstart).mpr hs.marks
    have hinfo := hs.fsInfoSector
    refine ⟨hstart, by rw [← hstart]; exact ha.totalClusters, by omega, ?_, ?_, by omega, by omega⟩
    · intro table htable cluster hcluster
      have hmul : (table + 1) * fs.bpb.tableSize32 ≤ fs.bpb.tableCount * fs.bpb.tableSize32 :=
        Nat.mul_le_mul_right _ htable
      rw [ha.fatSector_eq hs.noWrap htable (by omega) (by omega), hstart]
      unfold BIOSParameterBlock.dataStart
      rw [Nat.succ_mul] at hmul ⊢
      omega
    · have hnot := mt (ha.totalClusters_lt_iff hstart (n := fs.bpb.rootCluster - 1)).mp
        (by have := hs.rootCluster; omega)
      have hroot := ha.rootCluster
      omega

/-- A volume that `mount` accepts is consistent if and only if the fields of its
boot sector are sane. -/
theorem mount_consistent_iff {device : BlockDevice} {fs : FAT32FileSystem}
    (hmount : mount device = some fs) :
    Consistent fs ↔ (BIOSParameterBlock.ofSector device.bytes).Sane := by
  obtain ⟨ha, hbpb, _⟩ := accepted_of_mount hmount
  rw [← hbpb]
  exact consistent_iff_sane ha

theorem tinyVolume_consistent : Consistent tinyVolume :=
  (mount_consistent_iff mount_tinyDisk).mpr (by decide +kernel)

/-- A root directory past the last cluster is not refused. -/
theorem mount_accepts_root_out_of_range :
    ∃ fs, mount (tinyDisk 100) = some fs ∧ ¬ Consistent fs := by
  have hsome : (mount (tinyDisk 100)).isSome = true := by decide +kernel
  obtain ⟨fs, hmount⟩ := Option.isSome_iff_exists.mp hsome
  obtain ⟨ha, hbpb, _⟩ := accepted_of_mount hmount
  refine ⟨fs, hmount, fun hc => ?_⟩
  have hroot := ((consistent_iff_sane ha).mp hc).rootCluster
  rw [hbpb] at hroot
  exact absurd hroot (by decide +kernel)

/-! ## The accesses to clusters -/

/-- `readCluster` or `writeCluster` of a cluster depends on a sector of some disk
or changes one, in a request that the device serves. -/
def Touches (fs : FAT32FileSystem) (cluster sector : Nat) : Prop :=
  (∃ (disk disk' : Nat → UInt8) (data data' : Nat → UInt8),
    (∀ x, x / 512 ≠ sector → disk x = disk' x) ∧
    (readCluster { fs with backingDevice := ⟨disk, fun _ => false⟩ } cluster).1 = some data ∧
    (readCluster { fs with backingDevice := ⟨disk', fun _ => false⟩ } cluster).1 = some data' ∧
    ∃ i < clusterSize fs, data i ≠ data' i) ∨
  ∃ (device : BlockDevice) (data : Nat → UInt8) (fs' : FAT32FileSystem),
    writeCluster { fs with backingDevice := device } cluster data = (true, fs') ∧
    ∃ x, x / 512 = sector ∧ fs'.backingDevice.bytes x ≠ device.bytes x

theorem writeCluster_ok (fs : FAT32FileSystem) (disk : Nat → UInt8) (faults : Nat → Bool)
    (data : Nat → UInt8) {cluster : Nat} (hfault : faults 0 = false) (hcluster : 2 ≤ cluster) :
    writeCluster { fs with backingDevice := ⟨disk, faults⟩ } cluster data =
      (true, { fs with backingDevice :=
        ⟨blit disk (clusterToSector fs cluster * 512) (fs.bpb.sectorsPerCluster * 512) data,
          fun k => faults (k + 1)⟩ }) := by
  simp only [writeCluster, Nat.not_lt.mpr hcluster, if_false, writeSectors,
    BlockDevice.writeBlocks, hfault, Bool.false_eq_true]
  rfl

theorem touches_iff {fs : FAT32FileSystem} (hbytes : fs.bpb.bytesPerSector = 512)
    {cluster sector : Nat} :
    Touches fs cluster sector ↔ 2 ≤ cluster ∧ clusterToSector fs cluster ≤ sector ∧
      sector < clusterToSector fs cluster + fs.bpb.sectorsPerCluster := by
  constructor
  · rintro (⟨disk, disk', data, data', hsame, hread, hread', i, hi, hne⟩ |
      ⟨device, data, fs', hwrite, x, hx, hne⟩)
    · unfold readCluster at hread hread'
      split at hread
      · cases hread
      next hcluster =>
      rw [if_neg hcluster] at hread'
      cases hread
      cases hread'
      unfold clusterSize at hi
      rw [hbytes] at hi
      have hin : (clusterToSector fs cluster * 512 + i) / 512 = sector := by
        by_contra hout
        have hin : i < fs.bpb.sectorsPerCluster * 512 := by omega
        exact hne ((window_of_lt hin).trans ((hsame _ hout).trans (window_of_lt hin).symm))
      omega
    · unfold writeCluster at hwrite
      split at hwrite
      · cases hwrite
      next hcluster =>
      cases hfault : device.faults 0 with
      | true => simp [writeSectors, BlockDevice.writeBlocks, hfault] at hwrite
      | false =>
          simp [writeSectors, BlockDevice.writeBlocks, hfault] at hwrite
          subst hwrite
          simp only [blit, ne_eq, ite_eq_right_iff, Classical.not_imp] at hne
          obtain ⟨hin, _⟩ := hne
          have hstart : clusterToSector { fs with backingDevice := device } cluster =
            clusterToSector fs cluster := rfl
          rw [hstart] at hin
          omega
  · rintro ⟨hcluster, hlow, hhigh⟩
    have hwrite := writeCluster_ok fs (fun _ => 0) (fun _ => false) (fun _ => 1) rfl hcluster
    refine .inr ⟨⟨fun _ => 0, fun _ => false⟩, fun _ => 1, _, hwrite, sector * 512,
      Nat.mul_div_cancel _ (by decide), ?_⟩
    simp only [blit]
    rw [if_pos (by omega)]
    decide

/-- The number of cluster numbers before `clusterToSector` wraps around. -/
def clusterPeriod (fs : FAT32FileSystem) : Nat := 2 ^ 32 / fs.bpb.sectorsPerCluster

theorem Accepted.period {fs : FAT32FileSystem} (ha : Accepted fs) :
    fs.bpb.sectorsPerCluster * clusterPeriod fs = 2 ^ 32 := by
  obtain ⟨k, hk, hspc⟩ := ha.sectorsPerCluster
  unfold clusterPeriod
  rw [hspc, Nat.mul_div_cancel' (Nat.pow_dvd_pow 2 (by omega))]

theorem Accepted.period_pos {fs : FAT32FileSystem} (ha : Accepted fs) : 0 < clusterPeriod fs := by
  have hperiod := ha.period
  refine Nat.pos_of_ne_zero fun hzero => ?_
  rw [hzero, Nat.mul_zero] at hperiod
  exact absurd hperiod (by decide)

/-- The position of a cluster is its number modulo the period. -/
theorem Accepted.clusterToSector_eq {fs : FAT32FileSystem} (ha : Accepted fs) {cluster : Nat}
    (hlow : 2 ≤ cluster) (hhigh : cluster < 2 ^ 32) :
    clusterToSector fs cluster = (fs.fatFirstDataSector +
      fs.bpb.sectorsPerCluster * ((cluster - 2) % clusterPeriod fs)) % 2 ^ 32 := by
  have hsub : sub32 cluster 2 = cluster - 2 := Words.sub_eq hhigh hlow
  have hmul : mul32 (cluster - 2) fs.bpb.sectorsPerCluster =
      fs.bpb.sectorsPerCluster * ((cluster - 2) % clusterPeriod fs) := by
    unfold mul32 Words.mul
    rw [← ha.period, Nat.mul_comm, Nat.mul_mod_mul_left]
  unfold clusterToSector add32 Words.add
  rw [hsub, hmul]

/-- An access stays inside the data region exactly for the numbers that are in
range modulo the period. -/
theorem Accepted.confined_iff {fs : FAT32FileSystem} (ha : Accepted fs) {cluster : Nat}
    (hlow : 2 ≤ cluster) (hhigh : cluster < 2 ^ 32) :
    (fs.fatFirstDataSector ≤ clusterToSector fs cluster ∧
      clusterToSector fs cluster + fs.bpb.sectorsPerCluster ≤ fs.totalSectors) ↔
    (cluster - 2) % clusterPeriod fs < fs.totalClusters := by
  have hspc := ha.spc_pos
  have hregion := ha.dataRegion
  have htotal : fs.totalSectors < 2 ^ 32 := ha.totalSectors ▸ ha.stored.totalSectors
  have hperiod := ha.period
  have hpos := ha.period_pos
  have hindex := Nat.mod_lt (cluster - 2) hpos
  rw [ha.clusterToSector_eq hlow hhigh, ha.totalClusters, Nat.lt_div_iff_mul_lt hspc]
  generalize (cluster - 2) % clusterPeriod fs = index at hindex ⊢
  have hbound : fs.bpb.sectorsPerCluster * (index + 1) ≤ 2 ^ 32 := by
    rw [← hperiod]
    exact Nat.mul_le_mul_left _ hindex
  rw [Nat.mul_succ] at hbound
  rw [Nat.mul_comm index]
  generalize fs.bpb.sectorsPerCluster * index = offset at hbound ⊢
  by_cases hwrap : fs.fatFirstDataSector + offset < 2 ^ 32
  · rw [Nat.mod_eq_of_lt hwrap]
    omega
  · rw [Nat.mod_eq_sub_mod (Nat.not_lt.mp hwrap), Nat.mod_eq_of_lt (by omega)]
    omega

/-- Two blocks of a ring stay apart when the ring is turned. -/
theorem apart_mod {size turn a b n : Nat} (hturn : turn < n) (hab : a + size ≤ b)
    (hb : b + size ≤ n) :
    (turn + a) % n + size ≤ (turn + b) % n ∨ (turn + b) % n + size ≤ (turn + a) % n := by
  by_cases hwrap : turn + b < n
  · rw [Nat.mod_eq_of_lt hwrap, Nat.mod_eq_of_lt (by omega)]
    omega
  · have hmod : (turn + b) % n = turn + b - n := by
      rw [Nat.mod_eq_sub_mod (Nat.not_lt.mp hwrap)]
      rcases Nat.lt_or_ge (turn + b - n) n with hlt | hge
      · exact Nat.mod_eq_of_lt hlt
      · omega
    by_cases hwrap' : turn + a < n
    · rw [hmod, Nat.mod_eq_of_lt hwrap']
      omega
    · rw [hmod, Nat.mod_eq_sub_mod (Nat.not_lt.mp hwrap'), Nat.mod_eq_of_lt (by omega)]
      omega

/-- Two numbers have a sector in common exactly when they agree modulo the
period. -/
theorem Accepted.disjoint_iff {fs : FAT32FileSystem} (ha : Accepted fs) {cluster cluster' : Nat}
    (hlow : 2 ≤ cluster) (hhigh : cluster < 2 ^ 32) (hlow' : 2 ≤ cluster')
    (hhigh' : cluster' < 2 ^ 32) :
    (clusterToSector fs cluster + fs.bpb.sectorsPerCluster ≤ clusterToSector fs cluster' ∨
      clusterToSector fs cluster' + fs.bpb.sectorsPerCluster ≤ clusterToSector fs cluster) ↔
    (cluster - 2) % clusterPeriod fs ≠ (cluster' - 2) % clusterPeriod fs := by
  have hspc := ha.spc_pos
  have hperiod := ha.period
  have hpos := ha.period_pos
  have hindex := Nat.mod_lt (cluster - 2) hpos
  have hindex' := Nat.mod_lt (cluster' - 2) hpos
  rw [ha.clusterToSector_eq hlow hhigh, ha.clusterToSector_eq hlow' hhigh']
  generalize (cluster - 2) % clusterPeriod fs = i at hindex ⊢
  generalize (cluster' - 2) % clusterPeriod fs = j at hindex' ⊢
  constructor
  · rintro hapart rfl
    omega
  · intro hne
    have hapart : ∀ {i j : Nat}, i < j → j < clusterPeriod fs →
        fs.bpb.sectorsPerCluster * i + fs.bpb.sectorsPerCluster ≤ fs.bpb.sectorsPerCluster * j ∧
        fs.bpb.sectorsPerCluster * j + fs.bpb.sectorsPerCluster ≤ 2 ^ 32 := by
      intro i j hij hj
      rw [← hperiod, ← Nat.mul_succ, ← Nat.mul_succ]
      exact ⟨Nat.mul_le_mul_left _ hij, Nat.mul_le_mul_left _ hj⟩
    have hregion : fs.fatFirstDataSector < 2 ^ 32 := by
      rw [ha.fatFirstDataSector]
      exact Words.add_lt 32 _ _
    rcases Nat.lt_or_gt_of_ne hne with hlt | hlt
    · obtain ⟨hij, hbound⟩ := hapart hlt hindex'
      exact apart_mod hregion hij hbound
    · obtain ⟨hij, hbound⟩ := hapart hlt hindex
      exact (apart_mod hregion hij hbound).symm

/-- On a volume that `mount` accepts, the accesses to a cluster stay inside the
data region if and only if its number is below 2 or in range modulo the period,
and the accesses to two clusters have no sector in common if and only if one
number is below 2 or they differ modulo the period. -/
theorem cluster_access_iff {device : BlockDevice} {fs : FAT32FileSystem}
    (hmount : mount device = some fs) :
    (∀ cluster < 2 ^ 32,
      (∀ sector, Touches fs cluster sector →
        fs.fatFirstDataSector ≤ sector ∧ sector < fs.totalSectors) ↔
      cluster < 2 ∨ (cluster - 2) % clusterPeriod fs < fs.totalClusters) ∧
    ∀ cluster < 2 ^ 32, ∀ cluster' < 2 ^ 32, cluster ≠ cluster' →
      ((∀ sector, ¬ (Touches fs cluster sector ∧ Touches fs cluster' sector)) ↔
      cluster < 2 ∨ cluster' < 2 ∨
        (cluster - 2) % clusterPeriod fs ≠ (cluster' - 2) % clusterPeriod fs) := by
  obtain ⟨ha, _⟩ := accepted_of_mount hmount
  have hspc := ha.spc_pos
  constructor
  · intro cluster hhigh
    simp only [touches_iff ha.bytesPerSector]
    rcases Nat.lt_or_ge cluster 2 with hlow | hlow
    · simp only [hlow, true_or, iff_true]
      omega
    · rw [← ha.confined_iff hlow hhigh]
      constructor
      · intro hall
        have hfirst := hall (clusterToSector fs cluster) ⟨hlow, Nat.le_refl _, by omega⟩
        have hlast := hall (clusterToSector fs cluster + (fs.bpb.sectorsPerCluster - 1))
          ⟨hlow, by omega, by omega⟩
        omega
      · omega
  · intro cluster hhigh cluster' hhigh' _
    simp only [touches_iff ha.bytesPerSector]
    rcases Nat.lt_or_ge cluster 2 with hlow | hlow
    · simp only [hlow, true_or, iff_true]
      omega
    rcases Nat.lt_or_ge cluster' 2 with hlow' | hlow'
    · simp only [hlow', true_or, or_true, iff_true]
      omega
    rw [← ha.disjoint_iff hlow hhigh hlow' hhigh']
    constructor
    · intro hall
      have hfirst := hall (clusterToSector fs cluster)
      have hfirst' := hall (clusterToSector fs cluster')
      omega
    · omega

theorem cluster_access_iff_tinyVolume :
    ¬ ∃ sector, Touches tinyVolume 5 sector ∧ Touches tinyVolume 6 sector := by
  have hiff := (cluster_access_iff mount_tinyDisk).2 5 (by decide) 6 (by decide) (by decide)
  rintro ⟨sector, htouch⟩
  exact hiff.mpr (.inr (.inr (by decide +kernel))) sector htouch

/-- The sector after the last one of the volume is cluster 10. -/
theorem cluster_past_the_end_touches_disk :
    mount (tinyDisk 2) = some tinyVolume ∧ Touches tinyVolume 10 11 ∧
      ¬ 11 < tinyVolume.totalSectors :=
  ⟨mount_tinyDisk, (touches_iff (by decide +kernel)).mpr (by decide +kernel), by decide +kernel⟩

end Avery.Fat32
