import Avery.Fs.FileRuns

/-!
# The size on the disk

`flush` and `close` store the size that a handle reports, as far as it fits into 32 bits.  A file
of 4 GiB is stored with the size 0.
-/

namespace Avery.Fat32

open ByteMemory FAT32FileHandle

variable {fs fs' : FAT32FileSystem} {h h' : FAT32FileHandle} {xs xs' : List Nat} {q : Nat × Nat}
  {fuel : Nat}

/-- After `flush` the slot holds the low 32 bits of the size. -/
theorem Hosted.flush_recorded (hh : Hosted fs h xs q) (hr : Recorded (view fs) h q)
    (hopen : h.closed = false) :
    ∃ h' fs', h.flush fs = (true, h', fs') ∧ h'.fatNode = h.fatNode ∧
      ((view fs').slotOf q).fileSize = h.fatNode.nodeSize % 2 ^ 32 := by
  cases hdirty : h.dirty with
  | false =>
      refine ⟨h, fs, ?_, rfl, hr.clean hdirty⟩
      unfold FAT32FileHandle.flush
      simp [hopen, hdirty]
  | true =>
      obtain ⟨fs', hflush, _, hf⟩ := hh.flush hopen hdirty
      exact ⟨_, fs', hflush, rfl, hf.fileSize⟩

/-- After any calls, `flush` and `close` store the size that the handle reports if and only if it
fits into 32 bits. -/
theorem persisted_size_iff {held : Nat × Nat → Option Nat} {x : Nat} {p : Listed} (hm : Mounted fs)
    (hr : fs.Reliable) (hfuel : fs.totalClusters < fuel) (hd : (view fs).WellFormed held)
    (hp : (view fs).File x p) (hheld : held p.place = some p.firstCluster) (mode : Nat)
    (calls : List FileCall) :
    ∃ s, runCalls fuel calls (.start (handleFor (p.info x) mode) fs) = some s ∧
      (∃ h' fs', s.handle.flush s.volume = (true, h', fs') ∧
        (((view fs').slotOf p.place).fileSize = h'.fatNode.nodeSize ↔
          s.handle.fatNode.nodeSize < 2 ^ 32)) ∧
      ∃ h' fs', s.handle.close s.volume = (true, h', fs') ∧
        (((view fs').slotOf p.place).fileSize = h'.fatNode.nodeSize ↔
          s.handle.fatNode.nodeSize < 2 ^ 32) := by
  obtain ⟨s, xs, hrun, hh', hs, hrecorded, _⟩ :=
    runCalls_recorded hm hr hfuel hd hp hheld mode calls
  have hopen : s.handle.closed = false := hs.closed
  have hfits : ∀ n : Nat, n % 2 ^ 32 = n ↔ n < 2 ^ 32 := fun n =>
    ⟨fun h => h ▸ Nat.mod_lt n (by decide), Nat.mod_eq_of_lt⟩
  obtain ⟨h', fs', hflush, hnode, hsize⟩ := hh'.flush_recorded hrecorded hopen
  refine ⟨s, hrun, ⟨h', fs', hflush, ?_⟩, { h' with closed := true }, fs', ?_, ?_⟩
  · rw [hsize, hnode]
    exact hfits _
  · unfold FAT32FileHandle.close
    simp [hopen, hflush]
  · rw [hsize, hnode]
    exact hfits _

/-- A byte is written to the file of a small volume. -/
theorem persisted_size_iff_fileVolume :
    ∃ s, runCalls 10 [.seek 700, .write (some fun _ => 65) 1]
        (.start (handleFor (fileEntry.info 2) modeWrite) fileVolume) = some s ∧
      (∃ h' fs', s.handle.flush s.volume = (true, h', fs') ∧
        (((view fs').slotOf fileEntry.place).fileSize = h'.fatNode.nodeSize ↔
          s.handle.fatNode.nodeSize < 2 ^ 32)) ∧
      ∃ h' fs', s.handle.close s.volume = (true, h', fs') ∧
        (((view fs').slotOf fileEntry.place).fileSize = h'.fatNode.nodeSize ↔
          s.handle.fatNode.nodeSize < 2 ^ 32) :=
  persisted_size_iff mounted_fileVolume (fun _ => rfl) (by decide +kernel) opened_fileVolume
    file_fileVolume rfl modeWrite [.seek 700, .write (some fun _ => 65) 1]

/-! ## A file of 4 GiB -/

/-- What the clusters of the disk link to: the root directory has one, and the file has the
others. -/
def longLink (c : Nat) : Nat :=
  if c < 2 then 0 else if 2 < c ∧ c < 65538 then c + 1 else 0x0FFFFFFF

/-- The boot sector of a disk with clusters of 64 KiB, and the slot of its file, which is one byte
short of 4 GiB. -/
def longBoot : Nat → UInt8 :=
  let bytes := writeLE (fun _ => 0) 11 2 512
  let bytes := writeLE bytes 13 1 128
  let bytes := writeLE bytes 14 2 2
  let bytes := writeLE bytes 16 1 1
  let bytes := writeLE bytes 32 4 (515 + 128 * 65537)
  let bytes := writeLE bytes 36 4 513
  let bytes := writeLE bytes 44 4 2
  let bytes := writeLE bytes 510 2 0xAA55
  setFields (setName bytes 263680 (65 :: List.replicate 10 space)) 263680 attributeArchive 3
    (2 ^ 32 - 1)

def longDisk : BlockDevice where
  bytes x :=
    if 1024 ≤ x ∧ x < 1024 + 4 * 65539 then byteOf (longLink ((x - 1024) / 4)) ((x - 1024) % 4)
    else longBoot x
  faults := fun _ => false

def longVolume : FAT32FileSystem := (mount longDisk).get (by decide +kernel)

/-- The entry of the file. -/
def longEntry : Listed := ⟨clusterSlot 2 ((view longVolume).data 2) 0, [], 0⟩

theorem mount_longDisk : mount longDisk = some longVolume := (Option.some_get _).symm

/-- What reading the boot sector and the slot of the file gives. -/
theorem reading_longVolume :
    ((BIOSParameterBlock.ofSector longDisk.bytes).Sane ∧
      longVolume.bpb.reservedSectorCount = 2 ∧ longVolume.bpb.sectorsPerCluster = 128 ∧
      dataAddress longVolume 2 = 263680 ∧ longVolume.totalClusters < 65538) ∧
    ((view longVolume).root = 2 ∧ (view longVolume).clusters = 65537 ∧
      (view longVolume).slots = 2048 ∧ (view longVolume).size = 65536) ∧
    longEntry.slot.kind = .entry ∧ ¬ longEntry.slot.attributes &&& attributeDirectory ≠ 0 ∧
      longEntry.firstCluster = 3 := by
  decide +kernel

theorem mounted_longVolume : Mounted longVolume :=
  mounted_of_sane mount_longDisk reading_longVolume.1.1

theorem clusters_longVolume : (view longVolume).clusters = 65537 := reading_longVolume.2.1.2.1

theorem bytes_longVolume : longVolume.backingDevice.bytes = longDisk.bytes := by
  obtain ⟨_, _, n, hdevice⟩ := accepted_of_mount mount_longDisk
  rw [hdevice]

theorem fat_longVolume {c : Nat} (hc : (view longVolume).Valid c) :
    (view longVolume).fat c = longLink c := by
  have hhigh : c < (view longVolume).clusters + 2 := hc.2
  rw [clusters_longVolume] at hhigh
  have haddress : fatAddress longVolume 0 c = 1024 + 4 * c := by
    have hreserved : longVolume.bpb.reservedSectorCount = 2 := reading_longVolume.1.2.1
    rw [fatAddress, hreserved]
    omega
  have hsmall : longLink c < 2 ^ 28 := by
    unfold longLink
    split
    · decide
    · split
      · omega
      · decide
  have hread : readLE longDisk.bytes (1024 + 4 * c) 4 = longLink c := by
    have hbytes : ∀ i < 4, longDisk.bytes (1024 + 4 * c + i) = byteOf (longLink c) (0 + i) := by
      intro i hi
      have hindex : (1024 + 4 * c + i - 1024) / 4 = c ∧ (1024 + 4 * c + i - 1024) % 4 = i := by
        omega
      change (if _ then _ else _) = _
      rw [if_pos (by omega), hindex.1, hindex.2, Nat.zero_add]
    rw [readLE_of_bytes hbytes, Nat.pow_zero, Nat.div_one]
    exact Nat.mod_eq_of_lt (Nat.lt_trans hsmall (by decide))
  have hmask : (0x0FFFFFFF : Nat) = 2 ^ 28 - 1 := rfl
  rw [fat_view hc, mounted_longVolume.fatValue_eq hc, haddress, bytes_longVolume, hread, hmask,
    Nat.and_two_pow_sub_one_eq_mod, Nat.mod_eq_of_lt hsmall]

theorem valid_longVolume {c : Nat} : (view longVolume).Valid c ↔ 2 ≤ c ∧ c < 65539 := by
  unfold Disk.Valid
  rw [clusters_longVolume]

/-- The clusters of the file. -/
theorem chain_longVolume : (view longVolume).Chain 3 (List.range' 3 65536) := by
  refine Chains.chain_range' (fun i hi => valid_longVolume.mpr (by omega)) (fun i hi => ?_) ?_
  · rw [fat_longVolume (valid_longVolume.mpr (by omega)), longLink, if_neg (by omega),
      if_pos (by omega)]
  · rw [fat_longVolume (valid_longVolume.mpr (by omega))]
    decide

theorem root_longVolume : (view longVolume).Chain 2 [2] := by
  have hvalid : (view longVolume).Valid 2 := valid_longVolume.mpr (by decide)
  refine ⟨rfl, hvalid, ?_⟩
  change isEndOfChain ((view longVolume).fat 2) = true
  rw [fat_longVolume hvalid]
  decide

/-- Everything behind the slot of the file is zero. -/
theorem longBoot_of_ge {x : Nat} (hx : 263680 + 32 ≤ x) : longBoot x = 0 := by
  unfold longBoot
  rw [setFields_other (.inr hx), setName, blit_of_ge (by omega)]
  simp (disch := omega) only [writeLE_of_ge]

theorem slotsIn_longVolume : ∃ free, (∀ t ∈ free, t.kind = .endMark) ∧
    (view longVolume).slotsIn 2 = longEntry.slot :: free := by
  refine ⟨clusterSlots 2 ((view longVolume).data 2) 1 2047, fun t ht => ?_, ?_⟩
  · obtain ⟨i, hi, rfl⟩ := List.mem_map.mp ht
    rw [List.mem_range'_1] at hi
    obtain ⟨⟨-, -, hspc, haddress, -⟩, -⟩ := reading_longVolume
    have hdata : (view longVolume).data 2 (entrySize * i) = 0 := by
      rw [data_view (valid_longVolume.mpr (by decide)),
        mounted_longVolume.clusterData_eq (valid_longVolume.mpr (by decide)), haddress, hspc]
      unfold window
      split
      · rw [bytes_longVolume]
        change (if _ then _ else _) = _
        unfold entrySize
        rw [if_neg (by omega), longBoot_of_ge (by omega)]
      · rfl
    exact Disk.kind_of_zero hdata
  · have hchain := root_longVolume.chain_eq mounted_longVolume.unmarked
    have hslots : (view longVolume).slots = 2048 := reading_longVolume.2.1.2.2.1
    rw [Disk.slotsIn, hchain, Disk.dirSlots, List.flatMap_singleton, Disk.slotsOf, hslots,
      clusterSlots_succ]
    rfl

theorem file_longVolume :
    (view longVolume).WellFormed (fun _ => some 3) ∧ (view longVolume).File 2 longEntry := by
  have hroot : (view longVolume).root = 2 := reading_longVolume.2.1.1
  have hvalid : (view longVolume).Valid 2 := valid_longVolume.mpr (by decide)
  have hchain := root_longVolume.chain_eq mounted_longVolume.unmarked
  have hclusters := chain_longVolume.chain_eq mounted_longVolume.unmarked
  have hkind : longEntry.slot.kind = .entry := reading_longVolume.2.2.1
  have hfile : ¬ longEntry.IsDirectory := reading_longVolume.2.2.2.1
  obtain ⟨free, hfree, hslots⟩ := slotsIn_longVolume
  obtain ⟨hlist, htail⟩ := Disk.listing_single hkind hfree
  have hlisting : (view longVolume).listing 2 = [longEntry] := by
    change Fat32.listing [] 0 ((view longVolume).slotsIn 2) = _
    rw [hslots, hlist]
    rfl
  refine ⟨Disk.wellFormed_of_file mounted_longVolume.unmarked (hroot ▸ hvalid) ?_
    (hroot ▸ hlisting) hfile ?_ fun _ => ⟨valid_longVolume.mpr (by decide), ?_, ?_⟩, hroot ▸ .root,
    ⟨?_, .inl hroot.symm⟩, hfile⟩
  · rw [hroot, hchain]
    exact root_longVolume
  · rw [hroot, hslots]
    exact htail
  · change (view longVolume).Chain 3 ((view longVolume).chain 3)
    rw [hclusters]
    exact chain_longVolume
  · intro c hc
    change c ∈ (view longVolume).chain 3 at hc
    rw [hclusters, List.mem_range'_1] at hc
    rw [hroot, hchain, List.mem_singleton]
    omega
  · rw [hlisting]
    exact List.mem_singleton_self _

/-- The file is made one byte longer, and its entry then says that it is empty. -/
theorem flush_stores_zero :
    mount longDisk = some longVolume ∧ Mounted longVolume ∧ longVolume.Reliable ∧
    (view longVolume).WellFormed (fun _ => some 3) ∧ (view longVolume).File 2 longEntry ∧
    longEntry.firstCluster = 3 ∧
    ∃ s, runCalls 65538 [.truncate (2 ^ 32)]
        (.start (handleFor (longEntry.info 2) modeWrite) longVolume) = some s ∧
      ∃ h' fs', s.handle.flush s.volume = (true, h', fs') ∧ h'.fatNode.nodeSize = 2 ^ 32 ∧
        ((view fs').slotOf longEntry.place).fileSize = 0 := by
  obtain ⟨hd, hp⟩ := file_longVolume
  have hfirst : longEntry.firstCluster = 3 := reading_longVolume.2.2.2.2
  have hr : longVolume.Reliable := fun _ => rfl
  have hfuel : longVolume.totalClusters < 65538 := reading_longVolume.1.2.2.2.2
  refine ⟨mount_longDisk, mounted_longVolume, hr, hd, hp, hfirst, ?_⟩
  have hh := (handleFor_single hd hp (congrArg some hfirst.symm) modeWrite).hosted
    mounted_longVolume hr
  obtain ⟨ok, h', fs', xs', hcall, htrue, hfalse⟩ := hh.truncate hfuel rfl rfl (2 ^ 32)
  cases ok with
  | false =>
      -- the chain is long enough
      obtain ⟨hwritten, _, _, _, hshort⟩ := hfalse rfl
      have hlong := hwritten.reworked.initial.length_le
      have hsize : (view longVolume).size = 65536 := reading_longVolume.2.1.2.2.2
      change ((view longVolume).chain longEntry.firstCluster).length ≤ _ at hlong
      rw [hfirst, chain_longVolume.chain_eq mounted_longVolume.unmarked, List.length_range'] at hlong
      rw [hsize] at hshort
      omega
  | true =>
      have ht := htrue rfl
      refine ⟨(Session.start (handleFor (longEntry.info 2) modeWrite) longVolume).after 0 h' fs',
        ?_, h', fs', ?_, ht.fileSize, ht.storedSize⟩
      · rw [runCalls, FileCall.run, Session.start, hcall]
        rfl
      · have hopen : h'.closed = false := ht.handle.closed
        unfold FAT32FileHandle.flush Session.after
        simp [hopen, ht.clean]

end Avery.Fat32
