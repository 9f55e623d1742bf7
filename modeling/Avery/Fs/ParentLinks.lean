import Avery.Fs.PathSpelling
import Avery.Fs.RootFiles

/-!
# Going up

The second slot of a directory names its parent, and the format has it store 0 when the parent
is the root (`Conformant`).  `findEntry` follows the number as it stands.  So the way up from a
directory and the path of its parent lead to the same place below every directory but the root
(`goingUp_iff`): 0 is no cluster, and nothing is found from there.
-/

namespace Avery.Fat32

open ByteMemory

namespace Disk

variable {d : Disk} {held : Nat × Nat → Option Nat}

/-- The `..` of a child of the root stores 0, and that of any deeper directory the first cluster
of its parent. -/
def Conformant (d : Disk) : Prop :=
  ∀ {y q}, d.Reachable y → d.Child y q → ∀ s t rest, d.slotsIn q.firstCluster = s :: t :: rest →
    t.firstCluster = if y = d.root then 0 else y

/-- What `..` finds in a directory. -/
theorem find_parent {x c : Nat} (h : d.DotSlots x c) :
    ∃ s t rest, d.slotsIn c = s :: t :: rest ∧ d.find c [dot, dot] = some ⟨t, [], 1⟩ ∧
      t.attributes &&& attributeDirectory ≠ 0 := by
  obtain ⟨s, t, rest, hslots, hs, hsname, _, _, ht, htname, htdir, _⟩ := h
  refine ⟨s, t, rest, hslots, ?_, htdir⟩
  have hlist : d.listing c = ⟨s, [], 0⟩ :: ⟨t, [], 1⟩ :: Fat32.listing [] 2 rest := by
    change Fat32.listing [] 0 (d.slotsIn c) = _
    rw [hslots, Fat32.listing, hs]
    simp only [Fat32.listing, ht]
  have hself : Listed.name ⟨s, [], 0⟩ = [dot] := by
    rw [Listed.name, if_pos rfl, hsname, decode_fillDotName]
    rfl
  have hparent : Listed.name ⟨t, [], 1⟩ = [dot, dot] := by
    rw [Listed.name, if_pos rfl, htname, decode_fillDotName]
    rfl
  have hfirst : namesEqual [dot] [dot, dot] = false := by decide
  have hsecond : namesEqual [dot, dot] [dot, dot] = true := by decide
  rw [find, hlist, List.find?_cons, List.find?_cons, hself, hparent, hfirst, hsecond]

/-- What `..` stores in a child of `y`. -/
def parentLink (d : Disk) (y : Nat) : Nat := if y = d.root then 0 else y

/-- Going up from a child of `y` and on from there. -/
theorem locate_up (hd : d.WellFormed held) (hconf : d.Conformant) {y : Nat} {q : Listed}
    (hy : d.Reachable y) (hq : d.Child y q) (parts : List Str) :
    (d.locate q.firstCluster ([dot, dot] :: parts)).map (fun r => r.2.firstCluster) =
      if parts = [] then some (d.parentLink y)
      else (d.locate (d.parentLink y) parts).map fun r => r.2.firstCluster := by
  obtain ⟨s, t, rest, hslots, hfind, hdir⟩ := find_parent (hd.dots hy hq)
  have hfirst : (⟨t, [], 1⟩ : Listed).firstCluster = d.parentLink y :=
    hconf hy hq s t rest hslots
  have htdir : (⟨t, [], 1⟩ : Listed).IsDirectory := hdir
  rw [locate, hfind]
  simp only [htdir, if_true]
  split
  · rw [Option.map_some, hfirst]
  · rw [hfirst]

/-- The first cluster that a path resolves to. -/
def target (d : Disk) (path : Str) : Option Nat :=
  (d.resolve path).map DirectoryEntryInfo.firstCluster

theorem target_below {path : Str} {e : DirectoryEntryInfo} (h : d.resolve path = some e)
    (hdir : e.isDirectory = true) {parts : List Str}
    (hparts : ∀ part ∈ parts, part ≠ [] ∧ slash ∉ part) :
    d.target (below path parts) =
      if parts = [] then some e.firstCluster
      else (d.locate e.firstCluster parts).map fun r => r.2.firstCluster := by
  split
  · next hnil =>
    have hpath : below path [] = path := by simp [below]
    rw [hnil, target, hpath, h]
    rfl
  · next hne =>
    rw [target, resolve_below h hdir hne hparts, Option.map_map]
    rfl

end Disk

/-! ## Both ways -/

variable {fs : FAT32FileSystem} {held : Nat × Nat → Option Nat} {fuel : Nat}

/-- `findEntry` finds something on both paths, with one first cluster, or nothing on either. -/
def SameTarget (fs : FAT32FileSystem) (fuel : Nat) (path path' : Str) : Prop :=
  ∃ entry entry' fs₁ fs₂, findEntry fs fuel path = some (entry, fs₁) ∧
    findEntry fs fuel path' = some (entry', fs₂) ∧
    entry.map DirectoryEntryInfo.firstCluster = entry'.map DirectoryEntryInfo.firstCluster

theorem sameTarget_iff (hm : Mounted fs) (hd : (view fs).WellFormed held) (hr : fs.Reliable)
    (hfuel : fs.totalClusters < fuel) (path path' : Str) :
    SameTarget fs fuel path path' ↔ (view fs).target path = (view fs).target path' := by
  have hfind : ∀ path, ∃ n, findEntry fs fuel path =
      some ((view fs).resolve path, fs.served n) := by
    intro path
    obtain ⟨result, n, hcall, hresult⟩ := findEntry_answers hm hd hfuel path
    rw [hresult.resolve_right fun hfail => hfail.2 hr] at hcall
    exact ⟨n, hcall⟩
  obtain ⟨n, hcall⟩ := hfind path
  obtain ⟨n', hcall'⟩ := hfind path'
  constructor
  · rintro ⟨entry, entry', fs₁, fs₂, h, h', heq⟩
    cases hcall.symm.trans h
    cases hcall'.symm.trans h'
    exact heq
  · intro heq
    exact ⟨_, _, _, _, hcall, hcall', heq⟩

theorem goingUp_iff (hm : Mounted fs) (hd : (view fs).WellFormed held)
    (hconf : (view fs).Conformant) (hr : fs.Reliable) (hfuel : fs.totalClusters < fuel)
    {path parent : Str} {e b : DirectoryEntryInfo} {q : Listed}
    (he : (view fs).resolve path = some e) (hedir : e.isDirectory = true)
    (hb : (view fs).resolve parent = some b) (hbdir : b.isDirectory = true)
    (hreach : (view fs).Reachable b.firstCluster) (hq : (view fs).Child b.firstCluster q)
    (hfirst : q.firstCluster = e.firstCluster) {parts : List Str}
    (hparts : ∀ part ∈ parts, part ≠ [] ∧ slash ∉ part) :
    SameTarget fs fuel (below path ([dot, dot] :: parts)) (below parent parts) ↔
      b.firstCluster ≠ (view fs).root ∨
        parts ≠ [] ∧ (view fs).locate (view fs).root parts = none := by
  have hup : ∀ part ∈ [dot, dot] :: parts, part ≠ [] ∧ slash ∉ part := by
    intro part hpart
    rcases List.mem_cons.mp hpart with rfl | hpart
    · decide
    · exact hparts part hpart
  rw [sameTarget_iff hm hd hr hfuel, Disk.target_below he hedir hup, if_neg (List.cons_ne_nil _ _),
    Disk.target_below hb hbdir hparts, ← hfirst, Disk.locate_up hd hconf hreach hq]
  by_cases hroot : b.firstCluster = (view fs).root
  · -- the link is 0, where no path leads on from
    have htwo : 2 ≤ (view fs).root := hm.root_valid.1
    have hlink : (view fs).parentLink b.firstCluster = 0 := if_pos hroot
    rw [hlink, hroot, Disk.locate_of_lt Nat.zero_lt_two]
    by_cases hnil : parts = []
    · simp only [hnil, if_true, Option.some.injEq]
      simp
      omega
    · simp only [if_neg hnil, Option.map_none]
      simp [hnil, eq_comm]
  · have hlink : (view fs).parentLink b.firstCluster = b.firstCluster := if_neg hroot
    rw [hlink]
    simp [hroot]

/-! ## A directory in the root -/

namespace Disk

variable {d : Disk} {p : Listed} {s t : Slot}

/-- The entry of the root is the only one, when the directory that it leads to is empty. -/
theorem only_entry (hne : p.firstCluster ≠ d.root) (hlist : d.listing d.root = [p])
    (hlist' : d.listing p.firstCluster = [⟨s, [], 0⟩, ⟨t, [], 1⟩]) (hs : s.IsDot) (ht : t.IsDot)
    {x : Nat} {q : Listed} (hx : x = d.root ∨ x = p.firstCluster) (hq : d.Entry x q) :
    x = d.root ∧ q = p := by
  have hmem := hq.listed
  rcases hx with rfl | rfl
  · rw [hlist] at hmem
    exact ⟨rfl, List.mem_singleton.mp hmem⟩
  · have hreal := hq.real.resolve_left hne
    rw [hlist'] at hmem
    rcases List.mem_cons.mp hmem with rfl | hmem
    · exact absurd hs hreal
    · rw [List.mem_singleton.mp hmem] at hreal
      exact absurd ht hreal

/-- A root directory that holds one directory, which is empty. -/
theorem wellFormedOn_of_directory (hd : d.Unmarked)
    (hroot : d.Valid d.root ∧ d.Chain d.root (d.chain d.root))
    (hfirst : d.Valid p.firstCluster ∧ d.Chain p.firstCluster (d.chain p.firstCluster))
    (hapart : ∀ c ∈ d.chain d.root, c ∉ d.chain p.firstCluster) (hne : p.firstCluster ≠ d.root)
    (hlist : d.listing d.root = [p]) (hdir : p.IsDirectory)
    (hlist' : d.listing p.firstCluster = [⟨s, [], 0⟩, ⟨t, [], 1⟩]) (hs : s.IsDot) (ht : t.IsDot)
    (hdots : d.DotSlots d.root p.firstCluster)
    (htail : Tail (d.slotsIn d.root) ∧ Tail (d.slotsIn p.firstCluster)) :
    d.WellFormedOn (fun _ => none) fun x => x = d.root ∨ x = p.firstCluster := by
  have hentry : ∀ {x q}, (x = d.root ∨ x = p.firstCluster) → d.Entry x q → x = d.root ∧ q = p :=
    fun hx hq => only_entry hne hlist hlist' hs ht hx hq
  have howner : ∀ {o c}, d.Owns (fun _ => none) (fun x => x = d.root ∨ x = p.firstCluster) o c →
      o = .directory c ∧ (c = d.root ∨ c = p.firstCluster) := by
    intro o c hown
    cases hown with
    | directory hx => exact ⟨rfl, hx⟩
    | file hx hq hnot _ =>
        obtain ⟨_, rfl⟩ := hentry hx hq
        exact absurd hdir hnot
  refine {
    unmarked := hd
    root := .inl rfl
    closed := fun hx hq => ?_
    single := fun hx hy hq hq' _ => ?_
    dots := fun hx hq => ?_
    plain := fun hx hne' hq _ => ?_
    tail := fun hx => ?_
    chain := fun hown => ?_
    apart := fun hown hown' hc hc' => ?_ }
  · obtain ⟨rfl, rfl⟩ := hentry hx hq.entry
    exact ⟨.inr rfl, hne⟩
  · rw [(hentry hx hq.entry).2, (hentry hy hq'.entry).2]
  · obtain ⟨rfl, rfl⟩ := hentry hx hq.entry
    exact hdots
  · rcases hx with rfl | rfl
    · exact absurd rfl hne'
    · rw [hlist'] at hq
      rcases List.mem_cons.mp hq with rfl | hq
      · rfl
      · rw [List.mem_singleton.mp hq]
  · rcases hx with rfl | rfl
    · exact htail.1
    · exact htail.2
  · rcases (howner hown).2 with rfl | rfl
    · exact hroot
    · exact hfirst
  · obtain ⟨rfl, h⟩ := howner hown
    obtain ⟨rfl, h'⟩ := howner hown'
    rcases h with rfl | rfl <;> rcases h' with rfl | rfl
    · rfl
    · exact absurd hc' (hapart _ hc)
    · exact absurd hc (hapart _ hc')
    · rfl

end Disk

/-- The disk of `tinyVolume` with the empty directory `D` in the root directory.  The `..` of `D`
stores 0. -/
def directoryDisk : BlockDevice where
  bytes :=
    let bytes := writeLE (tinyDisk 2).bytes (512 + 488) 4 6
    let bytes := writeLE bytes (1024 + 12) 4 0x0FFFFFFF
    let bytes := blit bytes 1536 entrySize (rawEntry (padded 11 [68]) attributeDirectory 3)
    let bytes := blit bytes 2048 entrySize (rawEntry (fillDotName false) attributeDirectory 3)
    blit bytes 2080 entrySize (rawEntry (fillDotName true) attributeDirectory 0)
  faults := fun _ => false

def directoryVolume : FAT32FileSystem := (mount directoryDisk).get (by decide +kernel)

/-- Slot `i` of the cluster `c`. -/
def directorySlot (c i : Nat) : Slot := clusterSlot c ((view directoryVolume).data c) i

/-- The entry of `D`. -/
def directoryEntry : Listed := ⟨directorySlot 2 0, [], 0⟩

theorem mount_directoryDisk : mount directoryDisk = some directoryVolume :=
  (Option.some_get _).symm

/-- What reading the disk gives. -/
theorem reading_directoryVolume :
    ((BIOSParameterBlock.ofSector directoryDisk.bytes).Sane ∧ (view directoryVolume).root = 2 ∧
      (view directoryVolume).slots = 16 ∧ directoryVolume.totalClusters < 10) ∧
    (∀ c ∈ [2, 3], (view directoryVolume).chain c = [c] ∧ (view directoryVolume).Valid c ∧
      isEndOfChain ((view directoryVolume).fat c) = true) ∧
    ∀ i < 16, (directorySlot 2 i).kind = (if i < 1 then .entry else .endMark) ∧
      (directorySlot 3 i).kind = if i < 2 then .entry else .endMark := by
  decide +kernel

theorem reading_directoryEntry :
    (directoryEntry.firstCluster = 3 ∧ directoryEntry.slot.attributes &&& attributeDirectory ≠ 0 ∧
      namesEqual directoryEntry.name [68] = true) ∧
    ((directorySlot 3 0).name = fillDotName false ∧
      (directorySlot 3 0).attributes &&& attributeDirectory ≠ 0 ∧
      (directorySlot 3 0).firstCluster = 3) ∧
    (directorySlot 3 1).name = fillDotName true ∧
      (directorySlot 3 1).attributes &&& attributeDirectory ≠ 0 ∧
      (directorySlot 3 1).firstCluster = 0 := by
  decide +kernel

theorem mounted_directoryVolume : Mounted directoryVolume :=
  mounted_of_sane mount_directoryDisk reading_directoryVolume.1.1

theorem root_directoryVolume : (view directoryVolume).root = 2 := reading_directoryVolume.1.2.1

theorem slotsIn_directoryVolume {c : Nat} (hc : (view directoryVolume).chain c = [c]) :
    (view directoryVolume).slotsIn c =
      directorySlot c 0 :: directorySlot c 1 ::
        clusterSlots c ((view directoryVolume).data c) 2 14 := by
  obtain ⟨⟨-, -, hslots, -⟩, -⟩ := reading_directoryVolume
  rw [Disk.slotsIn, hc, Disk.dirSlots, List.flatMap_singleton, Disk.slotsOf, hslots,
    clusterSlots_succ, clusterSlots_succ]
  rfl

theorem kind_rootSlot {i : Nat} (hi : i < 16) :
    (directorySlot 2 i).kind = if i < 1 then .entry else .endMark :=
  (reading_directoryVolume.2.2 i hi).1

theorem kind_childSlot {i : Nat} (hi : i < 16) :
    (directorySlot 3 i).kind = if i < 2 then .entry else .endMark :=
  (reading_directoryVolume.2.2 i hi).2

theorem free_directoryVolume {c : Nat} (hc : c = 2 ∨ c = 3) :
    ∀ t ∈ clusterSlots c ((view directoryVolume).data c) 2 14, t.kind = .endMark := by
  intro t ht
  obtain ⟨i, hi, rfl⟩ := List.mem_map.mp ht
  obtain ⟨hle, hlt⟩ := List.mem_range'_1.mp hi
  rcases hc with rfl | rfl
  · exact (kind_rootSlot (by omega)).trans (if_neg (by omega))
  · exact (kind_childSlot (by omega)).trans (if_neg (by omega))

theorem chains_directoryVolume : ∀ c, c = 2 ∨ c = 3 → (view directoryVolume).chain c = [c] ∧
    (view directoryVolume).Valid c ∧ (view directoryVolume).Chain c [c] := by
  intro c hc
  obtain ⟨hchain, hvalid, hend⟩ := reading_directoryVolume.2.1 c (by simpa using hc)
  exact ⟨hchain, hvalid, rfl, hvalid, hend⟩

theorem listing_directoryVolume :
    (view directoryVolume).listing 2 = [directoryEntry] ∧
      Disk.Tail ((view directoryVolume).slotsIn 2) := by
  have hkind : (directorySlot 2 0).kind = .entry := kind_rootSlot (by decide)
  have hfree : ∀ t ∈ directorySlot 2 1 :: clusterSlots 2 ((view directoryVolume).data 2) 2 14,
      t.kind = .endMark := by
    intro t ht
    rcases List.mem_cons.mp ht with rfl | ht
    · exact kind_rootSlot (by decide)
    · exact free_directoryVolume (.inl rfl) t ht
  have hslots := slotsIn_directoryVolume (chains_directoryVolume 2 (.inl rfl)).1
  obtain ⟨hlist, htail⟩ := Disk.listing_single hkind hfree
  refine ⟨?_, hslots ▸ htail⟩
  change Fat32.listing [] 0 ((view directoryVolume).slotsIn 2) = _
  rw [hslots, hlist]
  rfl

theorem listing_directory :
    (view directoryVolume).listing 3 = [⟨directorySlot 3 0, [], 0⟩, ⟨directorySlot 3 1, [], 1⟩] ∧
      Disk.Tail ((view directoryVolume).slotsIn 3) := by
  have hs : (directorySlot 3 0).kind = .entry := kind_childSlot (by decide)
  have ht : (directorySlot 3 1).kind = .entry := kind_childSlot (by decide)
  have hfree := free_directoryVolume (c := 3) (.inr rfl)
  have hslots := slotsIn_directoryVolume (chains_directoryVolume 3 (.inr rfl)).1
  constructor
  · change Fat32.listing [] 0 ((view directoryVolume).slotsIn 3) = _
    rw [hslots, listing_cons (by simp [hs]), if_pos hs, listing_cons (by simp [ht]), if_pos ht,
      listing_ended hfree]
    rfl
  · rw [hslots]
    refine List.pairwise_cons.mpr ⟨fun _ _ hend => absurd hend (by simp [hs]),
      List.pairwise_cons.mpr ⟨fun _ _ hend => absurd hend (by simp [ht]), ?_⟩⟩
    exact List.pairwise_of_forall_mem_list fun _ _ t ht _ => hfree t ht

theorem firstCluster_directoryEntry : directoryEntry.firstCluster = 3 :=
  reading_directoryEntry.1.1

theorem isDirectory_directoryEntry : directoryEntry.IsDirectory := reading_directoryEntry.1.2.1

theorem dotSlots_directoryVolume : (view directoryVolume).DotSlots (view directoryVolume).root 3 := by
  refine ⟨directorySlot 3 0, directorySlot 3 1, _,
    slotsIn_directoryVolume (chains_directoryVolume 3 (.inr rfl)).1, ?_⟩
  obtain ⟨-, ⟨hdot, hdotDir, hself⟩, hdotdot, hdotdotDir, hparent⟩ := reading_directoryEntry
  exact ⟨kind_childSlot (by decide), hdot, hdotDir, hself, kind_childSlot (by decide), hdotdot,
    hdotdotDir, .inr ⟨rfl, hparent⟩⟩

theorem wellFormedOn_directoryVolume : (view directoryVolume).WellFormedOn (fun _ => none)
    fun x => x = (view directoryVolume).root ∨ x = directoryEntry.firstCluster := by
  obtain ⟨hchain, hvalid, hlinked⟩ := chains_directoryVolume 2 (.inl rfl)
  obtain ⟨hchain', hvalid', hlinked'⟩ := chains_directoryVolume 3 (.inr rfl)
  have hroot := root_directoryVolume
  have hfirst := firstCluster_directoryEntry
  refine Disk.wellFormedOn_of_directory (s := directorySlot 3 0) (t := directorySlot 3 1)
    mounted_directoryVolume.unmarked ?_ ?_ ?_ ?_ ?_ ?_ ?_ ?_ ?_ ?_ ?_
  · rw [hroot, hchain]
    exact ⟨hvalid, hlinked⟩
  · rw [hfirst, hchain']
    exact ⟨hvalid', hlinked'⟩
  · rw [hroot, hfirst, hchain, hchain']
    decide
  · rw [hfirst, hroot]
    decide
  · rw [hroot]
    exact listing_directoryVolume.1
  · exact isDirectory_directoryEntry
  · rw [hfirst]
    exact listing_directory.1
  · exact .inl reading_directoryEntry.2.1.1
  · exact .inr reading_directoryEntry.2.2.1
  · rw [hfirst]
    exact dotSlots_directoryVolume
  · rw [hroot, hfirst]
    exact ⟨listing_directoryVolume.2, listing_directory.2⟩

theorem child_directoryEntry : (view directoryVolume).Child 2 directoryEntry := by
  refine ⟨⟨?_, .inl root_directoryVolume.symm⟩, ?_, ?_⟩
  · rw [listing_directoryVolume.1]
    exact List.mem_singleton_self _
  · exact isDirectory_directoryEntry
  · rw [firstCluster_directoryEntry]
    decide

theorem conformant_directoryVolume : (view directoryVolume).Conformant := by
  intro y q hy hq s t rest hslots
  have hroot := root_directoryVolume
  have hfirst := firstCluster_directoryEntry
  have hne : directoryEntry.firstCluster ≠ (view directoryVolume).root := by
    rw [hfirst, hroot]
    decide
  obtain ⟨rfl, rfl⟩ := Disk.only_entry (s := directorySlot 3 0) (t := directorySlot 3 1) hne
    (hroot.symm ▸ listing_directoryVolume.1) (hfirst.symm ▸ listing_directory.1)
    (.inl reading_directoryEntry.2.1.1) (.inr reading_directoryEntry.2.2.1)
    (wellFormedOn_directoryVolume.reachable hy) hq.entry
  rw [hfirst, slotsIn_directoryVolume (chains_directoryVolume 3 (.inr rfl)).1] at hslots
  obtain ⟨_, hrest⟩ := List.cons.injEq .. ▸ hslots
  obtain ⟨rfl, _⟩ := List.cons.injEq .. ▸ hrest
  rw [if_pos rfl]
  exact reading_directoryEntry.2.2.2.2

/-- The path `/D`. -/
def directoryPath : Str := [47, 68]

theorem resolve_directoryVolume :
    (view directoryVolume).resolve directoryPath = some (directoryEntry.info 2) ∧
      (view directoryVolume).resolve [slash] = some (rootEntry 2) := by
  have hroot := root_directoryVolume
  have hname : namesEqual directoryEntry.name [68] = true := reading_directoryEntry.1.2.2
  constructor
  · have hsplit : splitPath directoryPath = [[68]] := rfl
    rw [Disk.resolve_of_splitPath (by rw [hsplit]; exact List.cons_ne_nil _ _), hsplit,
      Disk.locate_singleton, hroot, Disk.find, listing_directoryVolume.1, List.find?_cons, hname]
    rfl
  · rw [Disk.resolve, if_pos (.inr rfl), hroot]

theorem goingUp_directoryVolume :
    SameTarget directoryVolume 10 (below directoryPath [[dot, dot], [68]]) (below [slash] [[68]]) ↔
      (2 : Nat) ≠ (view directoryVolume).root ∨
        [[68]] ≠ ([] : List Str) ∧
          (view directoryVolume).locate (view directoryVolume).root [[68]] = none :=
  goingUp_iff mounted_directoryVolume wellFormedOn_directoryVolume.wellFormed
    conformant_directoryVolume (fun _ => rfl) reading_directoryVolume.1.2.2.2
    resolve_directoryVolume.1 (by decide +kernel) resolve_directoryVolume.2 (by decide +kernel)
    (root_directoryVolume ▸ .root) child_directoryEntry rfl (by decide)

/-- From `D` the way up leads nowhere: `/D/..` names the cluster 0, and `/D/../D` is not found. -/
theorem no_way_up :
    (Mounted directoryVolume ∧ (view directoryVolume).WellFormed (fun _ => none) ∧
      (view directoryVolume).Conformant ∧ directoryVolume.Reliable) ∧
    ¬ SameTarget directoryVolume 10 (below directoryPath [[dot, dot]]) (below [slash] []) ∧
    ¬ SameTarget directoryVolume 10 (below directoryPath [[dot, dot], [68]])
      (below [slash] [[68]]) := by
  have hcalls : ∀ {path path' : Str}, SameTarget directoryVolume 10 path path' →
      (findEntry directoryVolume 10 path).map (fun r => r.1.map DirectoryEntryInfo.firstCluster) =
        (findEntry directoryVolume 10 path').map
          fun r => r.1.map DirectoryEntryInfo.firstCluster := by
    rintro path path' ⟨entry, entry', fs₁, fs₂, h, h', heq⟩
    rw [h, h', Option.map_some, Option.map_some, heq]
  refine ⟨⟨mounted_directoryVolume, wellFormedOn_directoryVolume.wellFormed,
    conformant_directoryVolume, fun _ => rfl⟩, fun h => ?_, fun h => ?_⟩
  · exact absurd (hcalls h) (by decide +kernel)
  · exact absurd (hcalls h) (by decide +kernel)

end Avery.Fat32
