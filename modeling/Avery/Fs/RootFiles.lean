import Avery.Fs.OpenFiles

/-!
# A volume with one file

A volume whose root directory holds a file and nothing else is well formed when the chains of
the two are apart.  `fileVolume` is a small one, whose file is empty, and `longFileVolume` one
whose file has two clusters.
-/

namespace Avery.Fat32

open ByteMemory

namespace Disk

variable {d : Disk} {held : Nat × Nat → Option Nat} {p : Listed}

theorem kind_of_zero {c i : Nat} {data : Nat → UInt8} (h : data (entrySize * i) = 0) :
    (clusterSlot c data i).kind = .endMark := by
  refine (Slot.kind_endMark _).mpr ?_
  have hinside : 0 < entrySize := by decide
  change window data (entrySize * i) entrySize 0 = 0
  rw [window_of_lt hinside, Nat.add_zero, h]

/-- Free slots behind one entry. -/
theorem listing_single {s : Slot} {free : List Slot} (hs : s.kind = .entry)
    (hfree : ∀ t ∈ free, t.kind = .endMark) :
    Fat32.listing [] 0 (s :: free) = [⟨s, [], 0⟩] ∧ Tail (s :: free) := by
  have hrest : Fat32.listing [] 1 free = [] := by
    cases free with
    | nil => rfl
    | cons t free => simp [Fat32.listing, hfree t (List.mem_cons_self ..)]
  refine ⟨by simp [Fat32.listing, hs, hrest], ?_⟩
  refine List.pairwise_cons.mpr ⟨fun _ _ hend => ?_,
    List.pairwise_of_forall_mem_list fun _ _ t ht _ => hfree t ht⟩
  rw [hs] at hend
  cases hend

/-- The root directory is the only one. -/
theorem wellFormed_of_file (hd : d.Unmarked) (hroot : d.Valid d.root)
    (hchain : d.Chain d.root (d.chain d.root)) (hlist : d.listing d.root = [p])
    (hfile : ¬ p.IsDirectory) (htail : Tail (d.slotsIn d.root))
    (hhead : 2 ≤ head held p → d.Valid (head held p) ∧
      d.Chain (head held p) (d.chain (head held p)) ∧
      ∀ c ∈ d.chain (head held p), c ∉ d.chain d.root) : d.WellFormed held := by
  have hentry : ∀ {q}, d.Entry d.root q → q = p := by
    intro q hq
    have hmem := hq.listed
    rw [hlist] at hmem
    exact List.mem_singleton.mp hmem
  have hnone : ∀ {x q}, x = d.root → ¬ d.Child x q := by
    rintro x q rfl hq
    obtain rfl := hentry hq.entry
    exact hfile hq.directory
  refine WellFormedOn.wellFormed (D := (· = d.root)) {
    unmarked := hd
    root := rfl
    closed := fun hx hq => absurd hq (hnone hx)
    single := fun hx _ hq => absurd hq (hnone hx)
    dots := fun hx hq => absurd hq (hnone hx)
    plain := fun hx hne => absurd hx hne
    tail := fun hx => hx ▸ htail
    chain := fun hown => ?_
    apart := fun hown hown' hc hc' => ?_ }
  · cases hown with
    | directory hx => exact hx ▸ ⟨hroot, hchain⟩
    | file hx hq _ htwo =>
        subst hx
        obtain rfl := hentry hq
        exact ⟨(hhead htwo).1, (hhead htwo).2.1⟩
  · cases hown with
    | directory hx =>
        subst hx
        cases hown' with
        | directory hy =>
            subst hy
            rfl
        | file hy hq _ htwo =>
            subst hy
            obtain rfl := hentry hq
            exact absurd hc ((hhead htwo).2.2 _ hc')
    | file hx hq _ htwo =>
        subst hx
        obtain rfl := hentry hq
        cases hown' with
        | directory hy =>
            subst hy
            exact absurd hc' ((hhead htwo).2.2 _ hc)
        | file hy hq' _ _ =>
            subst hy
            obtain rfl := hentry hq'
            rfl

end Disk

/-! ## A small one -/

/-- The disk of `tinyVolume` with the empty file `a` in the root directory. -/
def fileDisk : BlockDevice where
  bytes := blit (tinyDisk 2).bytes 1536 entrySize
    (rawEntry (65 :: List.replicate 10 space) attributeArchive 0)
  faults := fun _ => false

def fileVolume : FAT32FileSystem := (mount fileDisk).get (by decide +kernel)

/-- The first entry of the root directory. -/
def firstEntry (fs : FAT32FileSystem) : Listed := ⟨clusterSlot 2 ((view fs).data 2) 0, [], 0⟩

/-- The root directory is one cluster, with one file in its first slot. -/
structure RootFile (fs : FAT32FileSystem) : Prop where
  root : (view fs).root = 2
  slots : (view fs).slots = 16
  chain : (view fs).chain 2 = [2] ∧ (view fs).Valid 2 ∧ isEndOfChain ((view fs).fat 2) = true
  kind : (firstEntry fs).slot.kind = .entry
  file : ¬ (firstEntry fs).slot.attributes &&& attributeDirectory ≠ 0
  rest : ∀ i < 16, 1 ≤ i → (clusterSlot 2 ((view fs).data 2) i).kind = .endMark

namespace RootFile

variable {fs : FAT32FileSystem} (h : RootFile fs)

include h

theorem slotsIn : ∃ free, (∀ t ∈ free, t.kind = .endMark) ∧
    (view fs).slotsIn 2 = (firstEntry fs).slot :: free := by
  refine ⟨clusterSlots 2 ((view fs).data 2) 1 15, fun t ht => ?_, ?_⟩
  · obtain ⟨i, hi, rfl⟩ := List.mem_map.mp ht
    rw [List.mem_range'_1] at hi
    exact h.rest i hi.2 hi.1
  · rw [Disk.slotsIn, h.chain.1, Disk.dirSlots, List.flatMap_singleton, Disk.slotsOf, h.slots,
      clusterSlots_succ]
    rfl

theorem listing :
    (view fs).listing 2 = [firstEntry fs] ∧ Disk.Tail ((view fs).slotsIn 2) := by
  obtain ⟨free, hfree, hslots⟩ := h.slotsIn
  obtain ⟨hlist, htail⟩ := Disk.listing_single h.kind hfree
  refine ⟨?_, hslots ▸ htail⟩
  change Fat32.listing [] 0 ((view fs).slotsIn 2) = _
  rw [hslots, hlist]
  rfl

theorem mem : (view fs).File 2 (firstEntry fs) := by
  refine ⟨h.root ▸ .root, ⟨?_, .inl h.root.symm⟩, h.file⟩
  rw [h.listing.1]
  exact List.mem_singleton_self _

theorem wellFormed {held : Nat × Nat → Option Nat} (hm : Mounted fs)
    (hhead : 2 ≤ Disk.head held (firstEntry fs) →
      (view fs).Valid (Disk.head held (firstEntry fs)) ∧
        (view fs).Chain (Disk.head held (firstEntry fs))
          ((view fs).chain (Disk.head held (firstEntry fs))) ∧
        2 ∉ (view fs).chain (Disk.head held (firstEntry fs))) : (view fs).WellFormed held := by
  have hroot := h.root
  refine Disk.wellFormed_of_file hm.unmarked hm.root_valid ?_ (hroot ▸ h.listing.1) h.file
    (hroot ▸ h.listing.2) fun htwo => ?_
  · rw [hroot, h.chain.1]
    exact ⟨rfl, h.chain.2.1, h.chain.2.2⟩
  · obtain ⟨hvalid, hchain, hapart⟩ := hhead htwo
    refine ⟨hvalid, hchain, fun c hc hmem => ?_⟩
    rw [hroot, h.chain.1, List.mem_singleton] at hmem
    exact hapart (hmem ▸ hc)

end RootFile

/-- The entry of the file. -/
def fileEntry : Listed := ⟨clusterSlot 2 ((view fileVolume).data 2) 0, [], 0⟩

theorem mount_fileDisk : mount fileDisk = some fileVolume := (Option.some_get _).symm

theorem mounted_fileVolume : Mounted fileVolume :=
  mounted_of_sane mount_fileDisk (by decide +kernel)

theorem rootFile_fileVolume : RootFile fileVolume where
  root := by decide +kernel
  slots := by decide +kernel
  chain := by decide +kernel
  kind := by decide +kernel
  file := by decide +kernel
  rest := by decide +kernel

theorem root_fileVolume : (view fileVolume).root = 2 := rootFile_fileVolume.root

theorem listing_fileVolume :
    (view fileVolume).listing 2 = [fileEntry] ∧ Disk.Tail ((view fileVolume).slotsIn 2) :=
  rootFile_fileVolume.listing

theorem file_fileVolume : (view fileVolume).File 2 fileEntry := rootFile_fileVolume.mem

/-- The volume is well formed while its file has no clusters. -/
theorem wellFormed_fileVolume {held : Nat × Nat → Option Nat}
    (hheld : Disk.head held fileEntry < 2) : (view fileVolume).WellFormed held :=
  rootFile_fileVolume.wellFormed mounted_fileVolume fun htwo => absurd hheld (Nat.not_lt.mpr htwo)

/-- Handles that have just been opened know what the entry says. -/
theorem opened_fileVolume : (view fileVolume).WellFormed fun _ => some fileEntry.firstCluster :=
  wellFormed_fileVolume (by decide)

/-- The disk of `fileVolume` with 700 bytes in the file, in clusters 3 and 4. -/
def longFileDisk : BlockDevice where
  bytes :=
    let bytes := writeLE fileDisk.bytes (512 + 488) 4 5
    let bytes := writeLE bytes (1024 + 12) 4 4
    let bytes := writeLE bytes (1024 + 16) 4 0x0FFFFFFF
    let bytes := writeLE bytes (1536 + 26) 2 3
    let bytes := writeLE bytes (1536 + 28) 4 700
    blit bytes 2048 700 fun _ => 65
  faults := fun _ => false

def longFileVolume : FAT32FileSystem := (mount longFileDisk).get (by decide +kernel)

theorem mount_longFileDisk : mount longFileDisk = some longFileVolume := (Option.some_get _).symm

theorem mounted_longFileVolume : Mounted longFileVolume :=
  mounted_of_sane mount_longFileDisk (by decide +kernel)

theorem rootFile_longFileVolume : RootFile longFileVolume where
  root := by decide +kernel
  slots := by decide +kernel
  chain := by decide +kernel
  kind := by decide +kernel
  file := by decide +kernel
  rest := by decide +kernel

theorem opened_longFileVolume :
    (view longFileVolume).WellFormed fun _ => some (firstEntry longFileVolume).firstCluster := by
  have hfirst : (firstEntry longFileVolume).firstCluster = 3 := by decide +kernel
  have hlinks : (view longFileVolume).Valid 3 ∧ (view longFileVolume).fat 3 = 4 ∧
      (view longFileVolume).Valid 4 ∧ isEndOfChain ((view longFileVolume).fat 4) = true := by
    decide +kernel
  have hchain : (view longFileVolume).Chain 3 [3, 4] :=
    ⟨rfl, hlinks.1, hlinks.2.1, hlinks.2.2.1, hlinks.2.2.2⟩
  have hfollow : (view longFileVolume).chain 3 = [3, 4] :=
    hchain.chain_eq mounted_longFileVolume.unmarked
  have hhead : Disk.head (fun _ => some (firstEntry longFileVolume).firstCluster)
      (firstEntry longFileVolume) = 3 := hfirst
  refine rootFile_longFileVolume.wellFormed mounted_longFileVolume fun _ => ?_
  rw [hhead, hfollow]
  exact ⟨hlinks.1, hchain, by decide⟩

end Avery.Fat32
