import Avery.Fs.Trees

/-!
# The writes to directories

`createDirectoryEntry`, `updateDirectoryEntry` and `remove` each write one cluster of a directory
back.  Here each of these writes is a `Rewrite` of one slot.
-/

namespace Avery.Fat32

open ByteMemory

namespace Disk

variable {d : Disk} {x c i : Nat} {pre post : List Nat} {data : Nat → UInt8}

/-- The slots of a directory around one cluster that is stored anew. -/
theorem slotsIn_setData (data : Nat → UInt8) (hchain : d.chain x = pre ++ c :: post) (hnodup : (d.chain x).Nodup) :
    (d.setData c data).slotsIn x =
      d.dirSlots pre ++ clusterSlots c data 0 d.slots ++ d.dirSlots post := by
  rw [hchain, List.nodup_append, List.nodup_cons] at hnodup
  have hpre : (d.setData c data).dirSlots pre = d.dirSlots pre := by
    refine (sameShape_setData d c data).dirSlots_eq
      fun y hy => data_setData_of_ne ?_
    exact hnodup.2.2 y hy c (List.mem_cons_self ..)
  have hpost : (d.setData c data).dirSlots post = d.dirSlots post := by
    refine (sameShape_setData d c data).dirSlots_eq
      fun y hy => data_setData_of_ne ?_
    rintro rfl
    exact hnodup.2.1.1 hy
  have hcluster : (d.setData c data).slotsOf c = clusterSlots c data 0 d.slots := by
    refine clusterSlots_congr fun y _ hy => data_setData_same ?_
    rw [Nat.zero_add] at hy
    exact hy
  have hsame : (d.setData c data).chain x = d.chain x := rfl
  rw [slotsIn, hsame, hchain, ← hpre, ← hpost, ← hcluster, dirSlots, List.flatMap_append,
    List.flatMap_cons, ← List.append_assoc, dirSlots, dirSlots]

theorem slotsIn_around (hchain : d.chain x = pre ++ c :: post) :
    d.slotsIn x = d.dirSlots pre ++ clusterSlots c (d.data c) 0 d.slots ++ d.dirSlots post := by
  rw [slotsIn, hchain, dirSlots, List.flatMap_append, List.flatMap_cons, ← List.append_assoc,
    dirSlots, dirSlots, slotsOf]

/-- The slots before slot `i` of a cluster. -/
def slotsBefore (d : Disk) (pre : List Nat) (c i : Nat) : List Slot :=
  d.dirSlots pre ++ clusterSlots c (d.data c) 0 i

/-- Where an entry of a directory is. -/
theorem listed_at {p : Listed} (hnodup : (d.chain x).Nodup) (hp : p ∈ d.listing x) :
    ∃ pre post i, d.chain x = pre ++ p.slot.cluster :: post ∧ i < d.slots ∧
      p.slot = clusterSlot p.slot.cluster (d.data p.slot.cluster) i ∧
      Unended (d.slotsBefore pre p.slot.cluster i) ∧ p.slot.kind = .entry ∧
      p.lfn = lfnAfter [] (d.slotsBefore pre p.slot.cluster i) ∧
      p.index = (d.slotsBefore pre p.slot.cluster i).length := by
  obtain ⟨before, after, hslots, hun, hkind, hlfn, hindex⟩ := listing_mem hp
  have hmem : p.slot ∈ d.dirSlots (d.chain x) := by
    change d.dirSlots (d.chain x) = _ at hslots
    rw [hslots]
    simp
  obtain ⟨hcluster, i, hi, hslot⟩ := mem_dirSlots hmem
  obtain ⟨pre, post, hchain⟩ := List.append_of_mem hcluster
  refine ⟨pre, post, i, hchain, hi, hslot, ?_⟩
  have haround := slotsIn_around hchain
  rw [clusterSlots_split _ _ hi, ← List.append_assoc, List.append_assoc, List.cons_append, ← hslot]
    at haround
  obtain ⟨rfl, _, _⟩ := split_unique hnodup hslots haround rfl
  exact ⟨hun, hkind, hlfn, by rw [hindex, Nat.zero_add]; rfl⟩

/-- A slot is stored anew and the others stay. -/
theorem rewrite_replace (hchain : d.chain x = pre ++ c :: post) (hnodup : (d.chain x).Nodup)
    (hi : i < d.slots)
    (hsame : ∀ y, y < entrySize * i ∨ entrySize * (i + 1) ≤ y → data y = d.data c y)
    (hun : Unended (d.slotsBefore pre c i)) (htail : Tail (d.slotsIn x))
    (hold : (clusterSlot c (d.data c) i).kind ≠ .longName)
    (hnew : (clusterSlot c data i).kind = .entry ∨ (clusterSlot c data i).kind = .deleted) :
    Rewrite d x (clusterSlot c (d.data c) i) (clusterSlot c data i)
      (entryAt (d.slotsBefore pre c i) (clusterSlot c (d.data c) i))
      (entryAt (d.slotsBefore pre c i) (clusterSlot c data i)) (d.setData c data) := by
  have haround := slotsIn_around hchain
  have haround' := slotsIn_setData data hchain hnodup
  rw [clusterSlots_split _ _ hi, ← List.append_assoc, List.append_assoc, List.cons_append] at haround
  rw [clusterSlots_replace hi hsame, ← List.append_assoc, List.append_assoc, List.cons_append]
    at haround'
  refine ⟨by rw [hchain]; simp [clusterSlot], ⟨data, rfl⟩,
    d.slotsBefore pre c i, [], _, ⟨rfl, by simp, by simpa using hun, hold, hnew, ?_⟩,
    by rw [List.append_nil]; exact haround, by rw [List.map_nil, List.append_nil]; exact haround',
    by rw [List.append_nil], by rw [List.map_nil, List.append_nil]⟩
  intro hend v hv
  rw [haround] at htail
  exact (List.pairwise_cons.mp (List.pairwise_append.mp htail).2.1).1 v hv hend

/-- An entry and its long name go. -/
theorem rewrite_erase {p : Listed} (hnodup : (d.chain x).Nodup) (hp : p ∈ d.listing x)
    (hsame : ∀ y, y < p.slot.offset ∨ p.slot.offset + entrySize ≤ y →
      data y = markEntryAndLongNameDeleted (d.data p.slot.cluster) p.slot.offset y)
    (hnew : (⟨p.slot.cluster, p.slot.offset, window data p.slot.offset entrySize⟩ : Slot).kind =
      .deleted) :
    Rewrite d x p.slot ⟨p.slot.cluster, p.slot.offset, window data p.slot.offset entrySize⟩ [p] []
      (d.setData p.slot.cluster data) := by
  obtain ⟨pre, post, i, hchain, hi, hslot, hun, hkind, hlfn, hindex⟩ := listed_at hnodup hp
  have hoffset : p.slot.offset = entrySize * i := congrArg Slot.offset hslot
  obtain ⟨slot, lfn, index⟩ := p
  obtain ⟨c, offset, raw⟩ := slot
  simp only at *
  subst hoffset
  obtain ⟨k, hrun, hclusters, hclusters'⟩ := clusterSlots_erase c hi
    (fun y hy => hsame y (by rwa [Nat.mul_succ] at hy))
  have haround := slotsIn_around hchain
  have haround' := slotsIn_setData data hchain hnodup
  rw [hclusters] at haround
  rw [hclusters'] at haround'
  have hcut : clusterSlots c (d.data c) 0 i =
      clusterSlots c (d.data c) 0 k ++ clusterSlots c (d.data c) k (i - k) := by
    have hadd := clusterSlots_add c (d.data c) 0 k (i - k)
    rwa [Nat.add_sub_cancel' hrun.le, Nat.zero_add] at hadd
  have hbefore : d.slotsBefore pre c i =
      d.dirSlots pre ++ clusterSlots c (d.data c) 0 k ++ clusterSlots c (d.data c) k (i - k) := by
    rw [slotsBefore, hcut, List.append_assoc]
  refine ⟨by rw [hchain]; simp, ⟨data, rfl⟩, d.dirSlots pre ++ clusterSlots c (d.data c) 0 k,
    clusterSlots c (d.data c) k (i - k),
    clusterSlots c (d.data c) (i + 1) (d.slots - (i + 1)) ++ d.dirSlots post,
    ⟨rfl, fun r hr => ?_, hbefore ▸ hun, by simp [hkind], .inr hnew, by simp [hkind]⟩, ?_, ?_, ?_, ?_⟩
  · obtain ⟨j, hj, rfl⟩ := List.mem_map.mp hr
    obtain ⟨h₁, h₂⟩ := List.mem_range'_1.mp hj
    rw [Nat.add_sub_cancel' hrun.le] at h₂
    exact (clusterSlot_attributes ..).trans (hrun.longName j h₁ h₂)
  · rw [haround, hslot]
    simp only [List.append_assoc, List.cons_append]
  · rw [haround']
    simp only [List.append_assoc, List.cons_append]
    rfl
  · rw [entryAt, if_pos hkind, ← hbefore, ← hlfn, ← hindex]
  · rw [entryAt, if_neg (by simp [hnew])]

/-! ## The three writes -/

/-- `remove` -/
theorem rewrite_remove {p : Listed} (hnodup : (d.chain x).Nodup) (hp : p ∈ d.listing x) :
    ∃ s', s'.kind = .deleted ∧ Rewrite d x p.slot s' [p] [] (d.setData p.slot.cluster
      (markEntryAndLongNameDeleted (d.data p.slot.cluster) p.slot.offset)) := by
  obtain ⟨_, _, i, _, _, hslot, _⟩ := listed_at hnodup hp
  have hoffset : p.slot.offset = entrySize * i := congrArg Slot.offset hslot
  generalize hdata : markEntryAndLongNameDeleted (d.data p.slot.cluster) p.slot.offset = data
  have hkind : (⟨p.slot.cluster, p.slot.offset, window data p.slot.offset entrySize⟩ : Slot).kind =
      .deleted := by
    refine Slot.kind_deleted ?_
    rw [← hdata, hoffset]
    change window (markEntryAndLongNameDeleted (d.data p.slot.cluster) (entrySize * i))
      (entrySize * i) entrySize 0 = _
    rw [window_of_lt (i := 0) (by decide), Nat.add_zero,
      markEntryAndLongNameDeleted_self _ (Nat.le_refl _), if_pos rfl]
  exact ⟨_, hkind, rewrite_erase hnodup hp (fun y _ => by rw [hdata]) hkind⟩

/-- `updateDirectoryEntry` -/
theorem rewrite_update {p : Listed} {attributes : UInt8} {first size : Nat}
    (hnodup : (d.chain x).Nodup) (hp : p ∈ d.listing x) (htail : Tail (d.slotsIn x))
    (hplain : Slot.Plain attributes) (hfirst : first < 2 ^ 32) (hsize : size < 2 ^ 32) :
    ∃ s', s'.name = p.slot.name ∧ (s'.attributes = attributes ∧ s'.firstCluster = first ∧
      s'.fileSize = size) ∧
      Rewrite d x p.slot s' [p] [⟨s', p.lfn, p.index⟩] (d.setData p.slot.cluster
        (setFields (d.data p.slot.cluster) p.slot.offset attributes first size)) := by
  obtain ⟨pre, post, i, hchain, hi, hslot, hun, hkind, hlfn, hindex⟩ := listed_at hnodup hp
  have hoffset : p.slot.offset = entrySize * i := congrArg Slot.offset hslot
  rw [hoffset]
  generalize hdata : setFields (d.data p.slot.cluster) (entrySize * i) attributes first size = data
  obtain ⟨hattr, hfirst', hsize', hraw⟩ := clusterSlot_setFields p.slot.cluster i
    (d.data p.slot.cluster) attributes hfirst hsize
  rw [hdata] at hattr hfirst' hsize' hraw
  have hsame : ∀ y, y < entrySize * i ∨ entrySize * (i + 1) ≤ y →
      data y = d.data p.slot.cluster y := by
    intro y hy
    rw [← hdata]
    refine setFields_other ?_
    unfold entrySize at hy ⊢
    omega
  have hname : ∀ j < 11, (clusterSlot p.slot.cluster data i).raw j = p.slot.raw j := by
    intro j hj
    rw [hraw j hj, hslot]
    exact (window_of_lt (Nat.lt_trans hj (by decide))).symm
  have hnewkind : (clusterSlot p.slot.cluster data i).kind = .entry := by
    have hold := (Slot.kind_entry_iff p.slot).mp hkind
    refine (Slot.kind_entry_iff _).mpr ⟨?_, ?_, hattr ▸ hplain⟩
    · rw [hname 0 (by decide)]
      exact hold.1
    · rw [hname 0 (by decide)]
      exact hold.2.1
  have h := rewrite_replace hchain hnodup hi hsame hun htail (by rw [← hslot, hkind]; simp)
    (.inl hnewkind)
  rw [← hslot, entryAt, if_pos hkind, entryAt, if_pos hnewkind, ← hlfn, ← hindex] at h
  exact ⟨_, Slot.name_congr hname, ⟨hattr, hfirst', hsize'⟩, h⟩

/-- `createDirectoryEntry`: slot `i` of the cluster `c` is free and the slots before it are not. -/
theorem rewrite_insert {name : Str} {attributes : UInt8} {first : Nat}
    (hchain : d.chain x = pre ++ c :: post) (hnodup : (d.chain x).Nodup) (hi : i < d.slots)
    (hun : Unended (d.slotsBefore pre c i)) (htail : Tail (d.slotsIn x))
    (hfree : d.data c (entrySize * i) = 0 ∨ d.data c (entrySize * i) = entryDeleted)
    (hname : name.length = 11) (hzero : name.getD 0 0 ≠ 0) (hplain : Slot.Plain attributes)
    (hfirst : first < 2 ^ 32) :
    ∃ s s', s.kind ≠ .entry ∧ s'.place = (c, entrySize * i) ∧ s'.name = name ∧
      (s'.attributes = attributes ∧ s'.firstCluster = first ∧ s'.fileSize = 0) ∧
      Rewrite d x s s' []
        (if name.getD 0 0 = entryDeleted then []
          else [⟨s', lfnAfter [] (d.slotsBefore pre c i), (d.slotsBefore pre c i).length⟩])
        (d.setData c
          (blit (d.data c) (entrySize * i) entrySize (rawEntry name attributes first))) := by
  obtain ⟨hattr, hfirst', hsize', hname'⟩ := clusterSlot_rawEntry c i (d.data c) attributes
    hname hfirst
  generalize hdata : blit (d.data c) (entrySize * i) entrySize (rawEntry name attributes first) = data
    at hattr hfirst' hsize' hname' ⊢
  have hsame : ∀ y, y < entrySize * i ∨ entrySize * (i + 1) ≤ y → data y = d.data c y := by
    intro y hy
    rw [← hdata]
    rcases hy with hy | hy
    · exact blit_of_lt hy
    · exact blit_of_ge hy
  have hfree' : (clusterSlot c (d.data c) i).kind = .endMark ∨
      (clusterSlot c (d.data c) i).kind = .deleted := by
    have hraw : (clusterSlot c (d.data c) i).raw 0 = d.data c (entrySize * i) :=
      window_of_lt (n := entrySize) (i := 0) (by decide)
    rcases hfree with h | h
    · exact .inl ((Slot.kind_endMark _).mpr (hraw.trans h))
    · exact .inr (Slot.kind_deleted (hraw.trans h))
  have hnotEntry : (clusterSlot c (d.data c) i).kind ≠ .entry := by
    rcases hfree' with h | h <;> simp [h]
  have hkind := Slot.kind_of_name hname' (hattr ▸ hplain) hzero
  have h := rewrite_replace hchain hnodup hi hsame hun htail
    (by rcases hfree' with h | h <;> simp [h]) (by rw [hkind]; split <;> simp)
  rw [entryAt, if_neg hnotEntry, entryAt, hkind] at h
  refine ⟨_, _, hnotEntry, rfl, hname', ⟨hattr, hfirst', hsize'⟩, ?_⟩
  by_cases hdel : name.getD 0 0 = entryDeleted
  · rw [if_pos hdel] at h ⊢
    exact h
  · rw [if_neg hdel] at h ⊢
    exact h

end Disk

end Avery.Fat32
