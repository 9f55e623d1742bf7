import Avery.Fs.Directories

/-!
# Directories as lists of slots

`readDirectory` scans the slots of a directory cluster by cluster and gathers
entries as it goes.  Here a directory is the list of its slots, and its entries
are computed from that list in one recursion (`listing`).  A long name belongs to the
entry that follows it directly, so the entries behind a slot depend on what is before
it only through the long name gathered so far (`lfnAfter`).
-/

namespace Avery.Fat32

open ByteMemory

/-! ## Slots and entries -/

/-- A slot of a directory: where it is and what it holds. -/
structure Slot where
  cluster : Nat
  offset : Nat
  raw : Nat → UInt8

inductive SlotKind where
  | endMark
  | deleted
  | longName
  | volumeLabel
  | entry
deriving DecidableEq

namespace Slot

def kind (s : Slot) : SlotKind :=
  if s.raw 0 = 0 then .endMark
  else if s.raw 0 = entryDeleted then .deleted
  else if s.raw 11 = attributeLongName then .longName
  else if s.raw 11 &&& attributeVolumeID ≠ 0 then .volumeLabel
  else .entry

end Slot

/-- A slot that holds an entry, the long name before it, and its number in the
directory. -/
structure Listed where
  slot : Slot
  lfn : Str
  index : Nat

/-- What `readDirectory` returns for the entry. -/
def Listed.info (p : Listed) (firstCluster : Nat) : DirectoryEntryInfo where
  name := if p.lfn = [] then shortNameToString p.slot.raw else p.lfn
  attributes := p.slot.raw 11
  firstCluster := firstClusterOf p.slot.raw
  size := fileSizeOf p.slot.raw
  parentDirectoryCluster := firstCluster
  directoryEntryCluster := p.slot.cluster
  directoryEntryOffset := p.slot.offset
  directoryEntryIndex := p.index

/-- Slot `i` of a cluster, with nothing behind its last byte. -/
def clusterSlot (cluster : Nat) (data : Nat → UInt8) (i : Nat) : Slot :=
  ⟨cluster, entrySize * i, window data (entrySize * i) entrySize⟩

/-- The slots of a cluster from slot `i` on, `n` of them. -/
def clusterSlots (cluster : Nat) (data : Nat → UInt8) (i n : Nat) : List Slot :=
  (List.range' i n).map (clusterSlot cluster data)

/-- The entries among slots that follow the long name `lfn`, up to the end mark. -/
def listing : Str → Nat → List Slot → List Listed
  | _, _, [] => []
  | lfn, index, s :: slots =>
      match s.kind with
      | .endMark => []
      | .deleted => listing [] (index + 1) slots
      | .longName => listing (cStr (longNamePart s.raw) ++ lfn) (index + 1) slots
      | .volumeLabel => listing [] (index + 1) slots
      | .entry => ⟨s, lfn, index⟩ :: listing [] (index + 1) slots

/-- The long name that has been gathered behind some slots. -/
def lfnAfter : Str → List Slot → Str
  | lfn, [] => lfn
  | lfn, s :: slots =>
      match s.kind with
      | .longName => lfnAfter (cStr (longNamePart s.raw) ++ lfn) slots
      | _ => lfnAfter [] slots

/-- No end mark is among the slots. -/
def Unended (slots : List Slot) : Prop := ∀ s ∈ slots, s.kind ≠ .endMark

instance (slots : List Slot) : Decidable (Unended slots) :=
  inferInstanceAs (Decidable (∀ s ∈ slots, s.kind ≠ .endMark))

theorem unended_nil : Unended [] := by simp [Unended]

theorem unended_cons {s : Slot} {slots : List Slot} :
    Unended (s :: slots) ↔ s.kind ≠ .endMark ∧ Unended slots := by
  simp [Unended]

theorem unended_append {slots slots' : List Slot} :
    Unended (slots ++ slots') ↔ Unended slots ∧ Unended slots' := by
  simp [Unended, or_imp, forall_and]

/-! ## Scanning -/

theorem clusterSlots_succ (cluster : Nat) (data : Nat → UInt8) (i n : Nat) :
    clusterSlots cluster data i (n + 1) =
      clusterSlot cluster data i :: clusterSlots cluster data (i + 1) n := by
  simp [clusterSlots, List.range'_succ]

theorem Slot.kind_endMark (s : Slot) : s.kind = .endMark ↔ s.raw 0 = 0 := by
  constructor
  · intro hkind
    by_contra hraw
    rw [Slot.kind, if_neg hraw] at hkind
    split at hkind
    · cases hkind
    split at hkind
    · cases hkind
    split at hkind <;> cases hkind
  · intro hraw
    rw [Slot.kind, if_pos hraw]

/-- The bytes of a slot decide what `readDirectory` makes of it. -/
theorem Scan.slot_congr {raw raw' : Nat → UInt8} (h : ∀ i < entrySize, raw i = raw' i)
    (scan : Scan) (firstCluster cluster offset : Nat) :
    scan.slot raw firstCluster cluster offset = scan.slot raw' firstCluster cluster offset := by
  have hread : ∀ {a n : Nat}, a + n ≤ entrySize → readLE raw a n = readLE raw' a n :=
    fun hle => readLE_congr fun x _ hx => h x (by omega)
  have hsize : entrySize = 32 := rfl
  have hname : shortNameToString raw = shortNameToString raw' := by
    have hbase : (List.range 8).map raw = (List.range 8).map raw' :=
      List.map_congr_left fun i hi => h i (by have := List.mem_range.mp hi; omega)
    have hext : ((List.range 3).map fun i => raw (8 + i)) =
        (List.range 3).map fun i => raw' (8 + i) :=
      List.map_congr_left fun i hi => h (8 + i) (by have := List.mem_range.mp hi; omega)
    simp only [shortNameToString, hbase, hext]
  have hpart : longNamePart raw = longNamePart raw' := by
    have hchars : ∀ start count, start + 2 * count ≤ entrySize →
        ((List.range count).map fun i => readLE raw (start + 2 * i) 2) =
          (List.range count).map fun i => readLE raw' (start + 2 * i) 2 := by
      intro start count hle
      refine List.map_congr_left fun i hi => hread ?_
      have hlt := List.mem_range.mp hi
      omega
    simp only [longNamePart]
    rw [hchars 1 5 (by omega), hchars 14 6 (by omega), hchars 28 2 (by omega)]
  unfold Scan.slot firstClusterOf fileSizeOf
  rw [h 0 (by omega), h 11 (by omega), hread (a := 20) (n := 2) (by omega),
    hread (a := 26) (n := 2) (by omega), hread (a := 28) (n := 4) (by omega), hname, hpart]

/-- A step of `readDirectory`, by the kind of the slot. -/
theorem Scan.slot_eq (scan : Scan) (s : Slot) (firstCluster : Nat) (hend : s.kind ≠ .endMark) :
    scan.slot s.raw firstCluster s.cluster s.offset =
      { entries := scan.entries ++
          if s.kind = .entry then [Listed.info ⟨s, scan.lfn, scan.globalIndex⟩ firstCluster] else []
        lfn := lfnAfter scan.lfn [s]
        globalIndex := scan.globalIndex + 1 } := by
  unfold Slot.kind at hend
  unfold Scan.slot lfnAfter Slot.kind
  split at hend
  · exact absurd rfl hend
  next hzero =>
  rw [if_neg hzero]
  split
  · simp [lfnAfter]
  split
  · simp [lfnAfter]
  split
  · simp [lfnAfter]
  · simp [lfnAfter, Listed.info]

theorem listing_cons {s : Slot} (hend : s.kind ≠ .endMark) (lfn : Str) (index : Nat)
    (slots : List Slot) :
    listing lfn index (s :: slots) =
      (if s.kind = .entry then [⟨s, lfn, index⟩] else []) ++
        listing (lfnAfter lfn [s]) (index + 1) slots := by
  cases hkind : s.kind <;> simp_all [listing, lfnAfter]

theorem lfnAfter_cons (lfn : Str) (s : Slot) (slots : List Slot) :
    lfnAfter lfn (s :: slots) = lfnAfter (lfnAfter lfn [s]) slots := by
  cases hkind : s.kind <;> simp [lfnAfter, hkind]

/-- The slots up to the end mark decide. -/
theorem listing_append_ended {slots : List Slot} (hend : ¬ Unended slots) (lfn : Str) (index : Nat)
    (slots' : List Slot) : listing lfn index (slots ++ slots') = listing lfn index slots := by
  induction slots generalizing lfn index with
  | nil => exact absurd unended_nil hend
  | cons s slots ih =>
      by_cases hs : s.kind = .endMark
      · simp [listing, hs]
      · have hrest : ¬ Unended slots := fun h => hend (unended_cons.mpr ⟨hs, h⟩)
        rw [List.cons_append, listing_cons hs, listing_cons hs, ih hrest]

theorem listing_append {slots : List Slot} (hend : Unended slots) (lfn : Str) (index : Nat)
    (slots' : List Slot) :
    listing lfn index (slots ++ slots') =
      listing lfn index slots ++
        listing (lfnAfter lfn slots) (index + slots.length) slots' := by
  induction slots generalizing lfn index with
  | nil => rfl
  | cons s slots ih =>
      obtain ⟨hs, hrest⟩ := unended_cons.mp hend
      rw [List.cons_append, listing_cons hs, listing_cons hs, ih hrest,
        lfnAfter_cons lfn s slots, List.append_assoc, List.length_cons, Nat.add_right_comm,
        Nat.add_assoc]

/-- The scan of a cluster gathers the entries among its slots. -/
theorem scanCluster_eq (data : Nat → UInt8) (firstCluster cluster : Nat) (scan : Scan) (i n : Nat) :
    ∃ scan', scanCluster data firstCluster cluster scan i n =
        (!decide (Unended (clusterSlots cluster data i n)), scan') ∧
      scan'.entries = scan.entries ++
        (listing scan.lfn scan.globalIndex (clusterSlots cluster data i n)).map
          (Listed.info · firstCluster) ∧
      (Unended (clusterSlots cluster data i n) →
        scan'.lfn = lfnAfter scan.lfn (clusterSlots cluster data i n) ∧
        scan'.globalIndex = scan.globalIndex + n) := by
  induction n generalizing scan i with
  | zero => exact ⟨scan, by simp [scanCluster, clusterSlots, unended_nil, listing, lfnAfter]⟩
  | succ n ih =>
      rw [clusterSlots_succ, scanCluster]
      have hsame : ∀ j < entrySize,
          slotAt data (entrySize * i) j = window data (entrySize * i) entrySize j :=
        fun j hj => (window_of_lt hj).symm
      have hfirst := hsame 0 (by decide)
      by_cases hend : slotAt data (entrySize * i) 0 = 0
      · have hkind := (Slot.kind_endMark (clusterSlot cluster data i)).mpr (hfirst.symm.trans hend)
        refine ⟨scan, ?_⟩
        simp [hend, unended_cons, hkind, listing]
      · have hkind := mt (Slot.kind_endMark (clusterSlot cluster data i)).mp
          (fun h => hend (hfirst.trans h))
        have hslot := (Scan.slot_congr hsame scan firstCluster cluster (entrySize * i)).trans
          (scan.slot_eq (clusterSlot cluster data i) firstCluster hkind)
        obtain ⟨scan', hscan, hentries, hlfn⟩ := ih
          (scan.slot (slotAt data (entrySize * i)) firstCluster cluster (entrySize * i)) (i + 1)
        rw [hslot] at hscan hentries hlfn
        refine ⟨scan', ?_, ?_, ?_⟩
        · simp only [hend, if_false, hslot, hscan, unended_cons, ne_eq, hkind, not_false_eq_true,
            true_and]
        · rw [hentries, listing_cons hkind, List.map_append, List.append_assoc]
          split <;> rfl
        · intro hunended
          obtain ⟨h₁, h₂⟩ := hlfn (unended_cons.mp hunended).2
          rw [lfnAfter_cons]
          exact ⟨h₁, by simp only at h₂; omega⟩

end Avery.Fat32
