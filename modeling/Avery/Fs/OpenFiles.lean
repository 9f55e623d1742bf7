import Avery.Fs.FileChanges
import Avery.Fs.FileContents

/-!
# Open files and their entries

A handle keeps the place of the slot that its file was found in.  On a well-formed volume that
slot lies in a directory and so outside the clusters of the file (`Hosted`), which is all that
the methods of the handle need to know about the rest of the volume.
-/

namespace Avery

open ByteMemory Fat32

namespace Fat32

open FAT32FileHandle

namespace Disk

variable {d d' : Disk} {q : Nat × Nat}

/-- The slot at a place. -/
def slotOf (d : Disk) (q : Nat × Nat) : Slot := clusterSlot q.1 (d.data q.1) (q.2 / entrySize)

theorem slotOf_congr (h : d'.data q.1 = d.data q.1) : d'.slotOf q = d.slotOf q := by
  unfold slotOf
  rw [h]

/-- The slot of an entry is one of its cluster. -/
theorem slot_of_listed {x : Nat} {p : Listed} (hp : p ∈ d.listing x) :
    ∃ i < d.slots, p.slot = clusterSlot p.slot.cluster (d.data p.slot.cluster) i := by
  obtain ⟨before, after, hslots, _⟩ := listing_mem hp
  have hmem : p.slot ∈ d.slotsIn x := by
    unfold slotsIn
    rw [hslots]
    simp
  exact (mem_dirSlots hmem).2

theorem slotOf_place {x : Nat} {p : Listed} (hp : p ∈ d.listing x) : d.slotOf p.place = p.slot := by
  obtain ⟨i, _, hslot⟩ := slot_of_listed hp
  have hoffset : p.slot.offset = entrySize * i := congrArg Slot.offset hslot
  have hindex : p.slot.offset / entrySize = i := by
    rw [hoffset]
    exact Nat.mul_div_cancel_left i (by decide)
  change clusterSlot p.slot.cluster (d.data p.slot.cluster) (p.slot.offset / entrySize) = p.slot
  rw [hindex]
  exact hslot.symm

end Disk

/-- `h` is the one handle on the file `p` of the directory `x`. -/
structure SingleHandle (d : Disk) (held : Nat × Nat → Option Nat) (h : FAT32FileHandle) (x : Nat)
    (p : Listed) : Prop where
  wellFormed : d.WellFormed held
  file : d.File x p
  held : held p.place = some h.fatNode.nodeFirstCluster
  inStep : InStep h
  info : ∃ info, h.fatNode.entryInfo = some info ∧
    (info.directoryEntryCluster, info.directoryEntryOffset) = p.place ∧
    info.attributes = p.slot.attributes

/-- The handle that `open` makes for an entry. -/
theorem handleFor_single {d : Disk} {held : Nat × Nat → Option Nat} {x : Nat} {p : Listed}
    (hd : d.WellFormed held) (hp : d.File x p) (hheld : held p.place = some p.firstCluster)
    (mode : Nat) : SingleHandle d held (handleFor (p.info x) mode) x p where
  wellFormed := hd
  file := hp
  held := hheld
  inStep := by
    refine ⟨rfl, rfl, ?_⟩
    have hsize : (p.info x).size % 2 ^ 32 = (p.info x).size :=
      Nat.mod_eq_of_lt (readLE_lt p.slot.raw 28 4)
    change some (p.info x) = some { p.info x with size := (p.info x).size % 2 ^ 32 }
    rw [hsize]
  info := ⟨p.info x, rfl, rfl, rfl⟩

/-- The handle is open on a file with the clusters `xs`, and its slot, at `q`, is outside
them. -/
structure Hosted (fs : FAT32FileSystem) (h : FAT32FileHandle) (xs : List Nat) (q : Nat × Nat) :
    Prop where
  mounted : Mounted fs
  reliable : fs.Reliable
  inStep : InStep h
  leads : (view fs).Leads h.fatNode.nodeFirstCluster xs
  info : ∃ info, h.fatNode.entryInfo = some info ∧
    (info.directoryEntryCluster, info.directoryEntryOffset) = q ∧ info.isDirectory = false
  valid : (view fs).Valid q.1
  used : (view fs).fat q.1 ≠ 0
  apart : q.1 ∉ xs
  slot : ∃ i < (view fs).slots, q.2 = entrySize * i

variable {fs fs' : FAT32FileSystem} {h h' : FAT32FileHandle} {xs xs' : List Nat} {q : Nat × Nat}

theorem SingleHandle.leads {d : Disk} {held : Nat × Nat → Option Nat} {x : Nat} {p : Listed}
    (hs : SingleHandle d held h x p) :
    d.Leads h.fatNode.nodeFirstCluster (d.chain h.fatNode.nodeFirstCluster) := by
  rcases Nat.lt_or_ge h.fatNode.nodeFirstCluster 2 with hlow | hf
  · exact .inl ⟨hlow, Disk.chain_of_lt hlow⟩
  · exact .inr (hs.wellFormed.chain (hs.file.owns hs.held hf))

theorem SingleHandle.hosted {held : Nat × Nat → Option Nat} {x : Nat} {p : Listed}
    (hs : SingleHandle (view fs) held h x p) (hm : Mounted fs) (hr : fs.Reliable) :
    Hosted fs h ((view fs).chain h.fatNode.nodeFirstCluster) p.place := by
  have hd := hs.wellFormed
  have hlisted := hs.file.entry.listed
  have hmem : p.slot.cluster ∈ (view fs).chain x := Disk.mem_chain_of_listed hlisted
  have howned : (view fs).Owned held (view fs).Reachable (.directory x) p.slot.cluster :=
    ⟨x, .directory hs.file.reachable, hmem⟩
  obtain ⟨info, hinfo, hplace, hattr⟩ := hs.info
  obtain ⟨i, hi, heq⟩ := Disk.slot_of_listed hlisted
  refine ⟨hm, hr, hs.inStep, hs.leads, ⟨info, hinfo, hplace, ?_⟩,
    (hd.chain (.directory hs.file.reachable)).2.valid hmem, hd.fat_ne_free howned, fun hin => ?_,
    i, hi, congrArg Slot.offset heq⟩
  · refine Bool.eq_false_iff.mpr fun hdir => hs.file.file ?_
    rw [DirectoryEntryInfo.isDirectory, hattr] at hdir
    exact of_decide_eq_true hdir
  · -- the slot lies in a directory
    obtain ⟨f, hf, hc⟩ := hs.file.owned hd.unmarked hs.held hs.leads hin
    cases hd.apart (.directory hs.file.reachable) hf hmem hc

theorem Disk.Leads.eq_nil {d : Disk} {f : Nat} (h : d.Leads f xs) (hf : f < 2) : xs = [] := by
  rcases h with ⟨_, hnil⟩ | ⟨hvalid, _⟩
  · exact hnil
  · exact absurd hvalid.1 (Nat.not_le.mpr hf)

theorem Disk.Leads.lt_two {d : Disk} {f : Nat} (hd : d.Unmarked) (h : d.Leads f []) : f < 2 := by
  rcases h with ⟨hlow, _⟩ | ⟨hvalid, hchain⟩
  · exact hlow
  · exact absurd hchain (hd.not_ends hvalid)

theorem Disk.Leads.ne_nil {d : Disk} {f : Nat} (hd : d.Unmarked) (h : d.Leads f xs) (hf : 2 ≤ f) :
    xs ≠ [] := by
  rintro rfl
  exact Nat.not_lt.mpr hf (h.lt_two hd)

theorem Disk.Leads.small {d : Disk} {f : Nat} (hd : d.Unmarked) (h : d.Leads f xs) :
    f < 2 ^ 32 := by
  rcases h with ⟨hlow, _⟩ | ⟨hvalid, _⟩
  · omega
  · unfold Disk.Unmarked at hd
    have hlt := hvalid.2
    omega

/-! ## flush -/

/-- In its cluster, only the slot at `q` has changed, behind the eleven bytes of its name. -/
def Disk.SameBeside (d : Disk) (q : Nat × Nat) (d' : Disk) : Prop :=
  ∀ i < d.size, i < q.2 + 11 ∨ q.2 + entrySize ≤ i → d'.data q.1 i = d.data q.1 i

theorem Disk.SameBeside.trans {d d' d'' : Disk} (h : d.SameBeside q d') (h' : d'.SameBeside q d'')
    (hsize : d'.size = d.size) : d.SameBeside q d'' := fun i hi hout =>
  (h' i (hsize.symm ▸ hi) hout).trans (h i hi hout)

/-- The slot at `q` has got the first cluster and the size of a handle. -/
structure Flushed (d : Disk) (h : FAT32FileHandle) (q : Nat × Nat) (d' : Disk) : Prop where
  shape : Disk.SameShape d d'
  fat : d'.fat = d.fat
  data : ∀ c, c ≠ q.1 → d'.data c = d.data c
  beside : d.SameBeside q d'
  firstCluster : (d'.slotOf q).firstCluster = h.fatNode.nodeFirstCluster
  fileSize : (d'.slotOf q).fileSize = h.fatNode.nodeSize % 2 ^ 32

theorem updateDirectoryEntry_wrote (hm : Mounted fs)
    (entry : DirectoryEntryInfo) (hc : (view fs).Valid entry.directoryEntryCluster) :
    ∃ ok fs', updateDirectoryEntry fs entry = (ok, fs') ∧
      Wrote fs ((view fs).setData entry.directoryEntryCluster
        (setFields ((view fs).data entry.directoryEntryCluster) entry.directoryEntryOffset
          entry.attributes entry.firstCluster entry.storedSize)) ok fs' ∧
      (ok = false → view fs' = view fs) := by
  unfold updateDirectoryEntry
  rw [if_neg (Nat.not_lt.mpr hc.1)]
  exact editCluster_wrote hm hc fun data =>
    setFields data entry.directoryEntryOffset entry.attributes entry.firstCluster entry.storedSize

/-- The slot after its fields have been stored. -/
theorem Disk.slotOf_setFields {d : Disk} {i : Nat} (hi : i < d.slots) (c : Nat)
    (attributes : UInt8) {firstCluster size : Nat} (hfirst : firstCluster < 2 ^ 32)
    (hsize : size < 2 ^ 32) :
    let s := (d.setData c (setFields (d.data c) (entrySize * i) attributes firstCluster size)).slotOf
      (c, entrySize * i)
    s.firstCluster = firstCluster ∧ s.fileSize = size := by
  have hindex : entrySize * i / entrySize = i := Nat.mul_div_cancel_left i (by decide)
  have hend : entrySize * (i + 1) ≤ d.size := Nat.mul_le_mul_left _ hi
  generalize hdata : setFields (d.data c) (entrySize * i) attributes firstCluster size = data
  have hslot : (d.setData c data).slotOf (c, entrySize * i) = clusterSlot c data i := by
    unfold slotOf
    rw [hindex]
    unfold clusterSlot
    refine congrArg _ (window_congr fun j hj => data_setData_same ?_)
    rw [Nat.mul_succ] at hend
    omega
  obtain ⟨_, hfirst', hsize', _⟩ := clusterSlot_setFields c i (d.data c) attributes hfirst hsize
  rw [hslot, ← hdata]
  exact ⟨hfirst', hsize'⟩

/-- `flush` stores what the handle knows, if it has anything to store. -/
theorem Hosted.flush (hh : Hosted fs h xs q) (hopen : h.closed = false) (hdirty : h.dirty = true) :
    ∃ fs', h.flush fs = (true, { h with dirty := false }, fs') ∧ SameVolume fs fs' ∧
      Flushed (view fs) h q (view fs') := by
  obtain ⟨info, hinfo, hplace, hfile⟩ := hh.info
  obtain ⟨i, hi, hoffset⟩ := hh.slot
  have hstep := hh.inStep.entry
  rw [hinfo, Option.map_some, Option.some.injEq] at hstep
  have hfirst : info.firstCluster = h.fatNode.nodeFirstCluster :=
    congrArg DirectoryEntryInfo.firstCluster hstep
  have hsize : info.size = h.fatNode.nodeSize % 2 ^ 32 := congrArg DirectoryEntryInfo.size hstep
  have hcluster : info.directoryEntryCluster = q.1 := congrArg Prod.fst hplace
  have hplaceOffset : info.directoryEntryOffset = entrySize * i :=
    (congrArg Prod.snd hplace).trans hoffset
  have hstored : info.storedSize = h.fatNode.nodeSize % 2 ^ 32 := by
    rw [DirectoryEntryInfo.storedSize, hfile]
    exact hsize
  obtain ⟨ok, fs', hupdate, hwrote, _⟩ :=
    updateDirectoryEntry_wrote hh.mounted info (hcluster.symm ▸ hh.valid)
  have hok := hwrote.reliable hh.reliable
  subst hok
  have hview := hwrote.view_eq
  rw [hcluster, hplaceOffset, hstored, hfirst] at hview
  obtain ⟨hfirst', hsize'⟩ := Disk.slotOf_setFields hi q.1 info.attributes
    (hh.leads.small hh.mounted.unmarked)
    (Nat.mod_lt h.fatNode.nodeSize (show 0 < 2 ^ 32 by decide))
  have hq : q = (q.1, entrySize * i) := by rw [← hoffset]
  refine ⟨fs', ?_, hwrote.same, ?_⟩
  · unfold FAT32FileHandle.flush
    simp [hopen, hdirty, hinfo, hupdate]
  · rw [hview]
    refine ⟨⟨rfl, rfl, rfl⟩, rfl, fun c hc => Disk.data_setData_of_ne hc, fun j hj hout => ?_, ?_, ?_⟩
    · rw [hoffset] at hout
      rw [Disk.data_setData_same hj]
      exact setFields_other hout
    · rw [hq]
      exact hfirst'
    · rw [hq]
      exact hsize'

/-- A change that leaves the slot of a handle leaves the handle where it is. -/
theorem Hosted.moved (hh : Hosted fs h xs q) (hsame : SameVolume fs fs')
    (hslots : (view fs').slots = (view fs).slots) (hs : SameFile h h')
    (hleads : (view fs').Leads h'.fatNode.nodeFirstCluster xs')
    (hused : (view fs').fat q.1 ≠ 0) (hapart : q.1 ∉ xs') : Hosted fs' h' xs' q := by
  obtain ⟨info, hinfo, hplace, hfile⟩ := hh.info
  refine ⟨hsame.mounted hh.mounted, hsame.reliable hh.reliable, hs.inStep, hleads,
    ⟨{ info with
      firstCluster := h'.fatNode.nodeFirstCluster
      size := h'.fatNode.nodeSize % 2 ^ 32 }, ?_, hplace, hfile⟩, ?_, hused, hapart, ?_⟩
  · rw [hs.entry, hinfo, Option.map_some]
  · obtain ⟨hlow, hhigh⟩ := hh.valid
    refine ⟨hlow, ?_⟩
    change q.1 < fs'.totalClusters + 2
    rw [hsame.totalClusters]
    exact hhigh
  · rw [hslots]
    exact hh.slot

end Fat32

end Avery
