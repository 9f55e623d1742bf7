import Avery.Fs.DirectoryLayout
import Avery.Fs.Removal
import Avery.Fs.RootFiles

/-!
# The slots of a name

In a directory each entry has its short slot and right before it the slots of its long name
(`NameSets`, `Disk.longSlots`).  `remove` and `rename` read one cluster, that of the short slot,
and walk back in it over slots with the attributes of a long name.  So they mark the whole name
deleted exactly when it does not begin in an earlier cluster of the directory
(`name_erased_iff`).
-/

namespace Avery.Fat32

open ByteMemory

/-! ## Name sets -/

/-- Slots of long names stand right before the short slot that they belong to. -/
inductive NameSets : List Slot → Prop
  | nil : NameSets []
  | endMark {s : Slot} {rest : List Slot} : s.kind = .endMark → NameSets (s :: rest)
  | skip {s : Slot} {rest : List Slot} : s.kind = .deleted ∨ s.kind = .volumeLabel →
      NameSets rest → NameSets (s :: rest)
  | set {long : List Slot} {s : Slot} {rest : List Slot} : (∀ r ∈ long, r.kind = .longName) →
      s.kind = .entry → NameSets rest → NameSets (long ++ s :: rest)

/-- A slot of a long name is followed by another one or by a short slot. -/
def Follows (s t : Slot) : Prop := s.kind = .longName → t.kind = .longName ∨ t.kind = .entry

theorem isChain_follows_set {long rest : List Slot} {s : Slot}
    (hlong : ∀ r ∈ long, r.kind = .longName) (hs : s.kind = .entry)
    (hrest : rest.IsChain Follows) : (long ++ s :: rest).IsChain Follows := by
  induction long with
  | nil =>
      refine List.IsChain.cons hrest fun t _ hkind => ?_
      rw [hs] at hkind
      cases hkind
  | cons r long ih =>
      have htail := ih fun r hr => hlong r (List.mem_cons_of_mem _ hr)
      refine List.IsChain.cons htail fun t ht _ => ?_
      cases long with
      | nil =>
          obtain rfl : s = t := by simpa using ht
          exact .inr hs
      | cons r' long =>
          obtain rfl : r' = t := by simpa using ht
          exact .inl (hlong r' (by simp))

/-- Up to the end mark every long name is followed by its short slot. -/
theorem NameSets.follows {slots : List Slot} (h : NameSets slots) {before after : List Slot}
    (hslots : slots = before ++ after) (hun : Unended before) : before.IsChain Follows := by
  have hlive : (slots.takeWhile fun s => s.kind ≠ .endMark).IsChain Follows := by
    clear hslots
    induction h with
    | nil => exact .nil
    | @endMark s rest hs =>
        rw [List.takeWhile_cons_of_neg (by simp [hs])]
        exact .nil
    | @skip s rest hs _ ih =>
        rw [List.takeWhile_cons_of_pos (by rcases hs with hs | hs <;> simp [hs])]
        refine List.IsChain.cons ih fun t _ hkind => ?_
        rcases hs with hs | hs <;> rw [hs] at hkind <;> cases hkind
    | @set long s rest hlong hs _ ih =>
        rw [List.takeWhile_append_of_pos (by intro r hr; simp [hlong r hr]),
          List.takeWhile_cons_of_pos (by simp [hs])]
        exact isChain_follows_set hlong hs ih
  rw [hslots, List.takeWhile_append_of_pos (by simpa [Unended] using hun)] at hlive
  exact hlive.left_of_append

theorem LongSlots.kind {name : Str} (hlength : name.length ≤ 255) {k : Nat} {slots : List Slot}
    (hs : LongSlots name k slots) (hk : k ≤ lfnSlots name) : ∀ r ∈ slots, r.kind = .longName := by
  induction hs with
  | nil => simp
  | cons hslot _ ih =>
      intro r hr
      cases hr with
      | head => exact hslot.kind hlength (by omega)
      | tail _ hr => exact ih (by omega) r hr

/-- The layouts of items are made of name sets. -/
theorem Layout.nameSets {items : List (Item × Slot)} {slots : List Slot} (h : Layout items slots) :
    NameSets slots := by
  induction h with
  | nil => exact .nil
  | endMark hs => exact .endMark ((Slot.kind_endMark _).mpr hs)
  | skip hs _ ih => exact .skip hs.kind ih
  | @item items item long s rest hv hlong hs _ ih =>
      refine .set ?_ (hs.kind hv) ih
      unfold NameSlots at hlong
      cases hname : item.long with
      | none =>
          rw [hname] at hlong
          simp [hlong]
      | some name =>
          rw [hname] at hlong
          exact hlong.kind (hv.long name hname).2.2 (Nat.le_refl _)

namespace Disk

variable {d : Disk}

/-! ## The long name of an entry -/

/-- The slots of the long name of `p`: those right before its short slot. -/
def longSlots (d : Disk) (x : Nat) (p : Listed) : List Slot :=
  ((d.slotsIn x).takeWhile fun s => s.place ≠ p.place).rtakeWhile fun s => s.kind = .longName

/-- The places of all slots of the name. -/
def namePlaces (d : Disk) (x : Nat) (p : Listed) : List (Nat × Nat) :=
  (d.longSlots x p ++ [p.slot]).map Slot.place

theorem rtakeWhile_append {α : Type} (P : α → Bool) (before after : List α) :
    (before ++ after).rtakeWhile P =
      if ∀ a ∈ after, P a then before.rtakeWhile P ++ after else after.rtakeWhile P := by
  induction after using List.reverseRecOn with
  | nil => simp
  | append_singleton after a ih =>
      rw [← List.append_assoc, List.rtakeWhile_concat, List.rtakeWhile_concat, ih]
      by_cases ha : P a = true
      · by_cases hafter : ∀ b ∈ after, P b = true
        · rw [if_pos ha, if_pos hafter, if_pos, List.append_assoc]
          intro b hb
          rcases List.mem_append.mp hb with hb | hb
          · exact hafter b hb
          · simpa [List.mem_singleton.mp hb] using ha
        · rw [if_pos ha, if_neg hafter, if_neg, if_pos ha]
          exact fun hall => hafter fun b hb => hall b (List.mem_append_left _ hb)
      · rw [if_neg ha, if_neg, if_neg ha]
        exact fun hall => ha (hall a (by simp))

/-- The long names at the end of the first slots of a cluster. -/
theorem rtakeWhile_clusterSlots (c : Nat) (data : Nat → UInt8) (i : Nat) :
    ∃ m ≤ i, (clusterSlots c data 0 i).rtakeWhile (fun s => s.kind = .longName) =
        clusterSlots c data m (i - m) ∧
      (∀ j, m ≤ j → j < i → (clusterSlot c data j).kind = .longName) ∧
      ∀ j, m = j + 1 → (clusterSlot c data j).kind ≠ .longName := by
  induction i with
  | zero =>
      exact ⟨0, Nat.le_refl 0, rfl, fun j _ hj => absurd hj (Nat.not_lt_zero j),
        fun j hj => absurd hj.symm (Nat.succ_ne_zero j)⟩
  | succ i ih =>
      have hsplit : clusterSlots c data 0 (i + 1) =
          clusterSlots c data 0 i ++ [clusterSlot c data i] := by
        rw [clusterSlots_add, Nat.zero_add]
        rfl
      by_cases hkind : (clusterSlot c data i).kind = .longName
      · obtain ⟨m, hle, heq, hlong, hstart⟩ := ih
        refine ⟨m, Nat.le_succ_of_le hle, ?_, fun j hj hlt => ?_, hstart⟩
        · have hadd := clusterSlots_add c data m (i - m) 1
          rw [Nat.add_sub_cancel' hle, ← Nat.sub_add_comm hle] at hadd
          rw [hsplit, List.rtakeWhile_concat_pos _ _ _ (by simpa using hkind), heq, hadd]
          rfl
        · rcases Nat.lt_succ_iff_lt_or_eq.mp hlt with hlt | rfl
          · exact hlong j hj hlt
          · exact hkind
      · refine ⟨i + 1, Nat.le_refl _, ?_, fun j h₁ h₂ => absurd h₁ (Nat.not_le.mpr h₂),
          fun j hj => ?_⟩
        · rw [hsplit, List.rtakeWhile_concat_neg _ _ _ (by simpa using hkind), Nat.sub_self]
          rfl
        · obtain rfl : i = j := Nat.succ.inj hj
          exact hkind

theorem kind_of_attributes {s : Slot} (hattr : s.attributes = attributeLongName)
    (hend : s.kind ≠ .endMark) : s.kind = .longName ∨ s.kind = .deleted := by
  have hzero : s.raw 0 ≠ 0 := fun h => hend ((Slot.kind_endMark s).mpr h)
  by_cases hdel : s.raw 0 = entryDeleted
  · exact .inr (Slot.kind_deleted hdel)
  · left
    change s.raw 11 = attributeLongName at hattr
    rw [Slot.kind, if_neg hzero, if_neg hdel, if_pos hattr]

/-- The slots that are marked: those of the long name in the cluster, and before them slots that
are deleted already. -/
theorem longRun_covers {c k i : Nat} {data : Nat → UInt8} (hrun : LongRun data k i)
    (hfollows : (clusterSlots c data 0 i).IsChain Follows) (hun : Unended (clusterSlots c data 0 i)) :
    ∃ m, k ≤ m ∧ m ≤ i ∧ (clusterSlots c data 0 i).rtakeWhile (fun s => s.kind = .longName) =
        clusterSlots c data m (i - m) ∧
      ((∀ s ∈ clusterSlots c data 0 i, s.kind = .longName) → m = 0) ∧
      ∀ j, k ≤ j → j < m → (clusterSlot c data j).kind = .deleted := by
  obtain ⟨m, hmi, heq, hlong, hstart⟩ := rtakeWhile_clusterSlots c data i
  have hmem : ∀ j < i, clusterSlot c data j ∈ clusterSlots c data 0 i := fun j hj =>
    List.mem_map_of_mem (List.mem_range'_1.mpr ⟨Nat.zero_le j, by omega⟩)
  have hkm : k ≤ m := by
    by_contra hlt
    obtain ⟨j, rfl⟩ : ∃ j, k = j + 1 := ⟨k - 1, by omega⟩
    refine hrun.start j rfl ?_
    have hlt := hrun.le
    exact (clusterSlot_attributes c data j).symm.trans
      (Slot.attributes_of_longName (hlong j (by omega) (by omega)))
  refine ⟨m, hkm, hmi, heq, fun hall => ?_, fun j hkj hjm => ?_⟩
  · cases m with
    | zero => rfl
    | succ m => exact absurd (hall _ (hmem m hmi)) (hstart m rfl)
  · -- downwards from the slot before the long name: no long name stands before a deleted slot
    have hkinds : ∀ j, k ≤ j → j < m →
        (clusterSlot c data j).kind = .longName ∨ (clusterSlot c data j).kind = .deleted :=
      fun j h₁ h₂ => kind_of_attributes
        ((clusterSlot_attributes c data j).trans (hrun.longName j h₁ (by omega)))
        (hun _ (hmem j (by omega)))
    have hdown : ∀ t j, k ≤ j → j + t + 1 = m → (clusterSlot c data j).kind = .deleted := by
      intro t
      induction t with
      | zero => exact fun j h₁ h₂ => (hkinds j h₁ (by omega)).resolve_left (hstart j h₂.symm)
      | succ t ih =>
          intro j h₁ h₂
          refine (hkinds j h₁ (by omega)).resolve_left fun hlongj => ?_
          have hnext := ih (j + 1) (by omega) (by omega)
          have hstep := List.isChain_iff_getElem.mp hfollows j (by simp; omega)
          simp only [clusterSlots, List.getElem_map, List.getElem_range', Nat.zero_add,
            Nat.one_mul] at hstep
          rcases hstep hlongj with hkind | hkind <;> rw [hnext] at hkind <;> cases hkind
    exact hdown (m - j - 1) j hkj (by omega)

/-- The cluster of the short slot: the long name ends with the slots from `m` on in it, and those
from `k` on before them are deleted already. -/
structure NameRun (d : Disk) (x : Nat) (p : Listed) (k m i : Nat) (early : List Slot) : Prop where
  inside : i < d.slots
  slot : p.slot = clusterSlot p.slot.cluster (d.data p.slot.cluster) i
  run : LongRun (d.data p.slot.cluster) k i
  start : k ≤ m
  stop : m ≤ i
  longSlots : d.longSlots x p =
    early ++ clusterSlots p.slot.cluster (d.data p.slot.cluster) m (i - m)
  early : ∀ s ∈ early, s ∈ d.slotsIn x ∧ s.cluster ≠ p.slot.cluster ∧ s.kind = .longName
  deleted : ∀ j, k ≤ j → j < m →
    (clusterSlot p.slot.cluster (d.data p.slot.cluster) j).kind = .deleted

theorem longRun_unique {data : Nat → UInt8} {k k' i : Nat} (h : LongRun data k i)
    (h' : LongRun data k' i) : k = k' := by
  rcases Nat.lt_trichotomy k k' with hlt | heq | hlt
  · obtain ⟨j, rfl⟩ : ∃ j, k' = j + 1 := ⟨k' - 1, by omega⟩
    exact absurd (h.longName j (by omega) (by have := h'.le; omega)) (h'.start j rfl)
  · exact heq
  · obtain ⟨j, rfl⟩ : ∃ j, k = j + 1 := ⟨k - 1, by omega⟩
    exact absurd (h'.longName j (by omega) (by have := h.le; omega)) (h.start j rfl)

theorem nameRun {x : Nat} {p : Listed} (hnodup : (d.chain x).Nodup) (hp : p ∈ d.listing x)
    (hsets : NameSets (d.slotsIn x)) : ∃ k m i early, NameRun d x p k m i early := by
  obtain ⟨pre, post, i, hchain, hi, hslot, hun, _⟩ := listed_at hnodup hp
  generalize hc : p.slot.cluster = c at *
  have hslots : d.slotsIn x = d.slotsBefore pre c i ++ p.slot ::
      (clusterSlots c (d.data c) (i + 1) (d.slots - (i + 1)) ++ d.dirSlots post) := by
    rw [slotsIn_around hchain, clusterSlots_split _ _ hi, slotsBefore, hslot]
    simp only [List.append_assoc, List.cons_append]
  -- the slots before the short one are at other places
  have hbefore : (d.slotsIn x).takeWhile (fun s => s.place ≠ p.place) = d.slotsBefore pre c i := by
    have hplaces := nodup_places (d := d) hnodup
    change ((d.slotsIn x).map Slot.place).Nodup at hplaces
    rw [hslots, List.map_append, List.nodup_append] at hplaces
    rw [hslots, List.takeWhile_append_of_pos, List.takeWhile_cons_of_neg, List.append_nil]
    · simp [Listed.place]
    · intro s hs
      simpa using hplaces.2.2 s.place (List.mem_map_of_mem hs) p.place (by simp [Listed.place])
  have hfollows := hsets.follows hslots hun
  rw [slotsBefore] at hfollows hun
  obtain ⟨k, hrun, _⟩ := markLongNameDeleted_run (d.data c) i
  obtain ⟨m, hkm, hmi, heq, hall, hdeleted⟩ := longRun_covers hrun hfollows.right_of_append
    (unended_append.mp hun).2
  have hlong : d.longSlots x p = (if ∀ s ∈ clusterSlots c (d.data c) 0 i, s.kind = .longName
      then (d.dirSlots pre).rtakeWhile (fun s => s.kind = .longName) else []) ++
        clusterSlots c (d.data c) m (i - m) := by
    rw [longSlots, hbefore, slotsBefore, rtakeWhile_append]
    simp only [decide_eq_true_eq]
    split
    · next h =>
      obtain rfl := hall h
      rw [Nat.sub_zero]
    · rw [heq, List.nil_append]
  refine ⟨k, m, i, _, ⟨hi, hc ▸ hslot, hc ▸ hrun, hkm, hmi, hc ▸ hlong, ?_, hc ▸ hdeleted⟩⟩
  intro s hs
  split at hs
  · have hmem := (List.rtakeWhile_suffix (fun s : Slot => s.kind = .longName)
      (d.dirSlots pre)).subset hs
    refine ⟨?_, ?_, by simpa using List.mem_rtakeWhile_imp hs⟩
    · rw [hslots, slotsBefore]
      simp [hmem]
    · rintro hsame
      rw [hchain, List.nodup_append] at hnodup
      exact hnodup.2.2 s.cluster (mem_dirSlots hmem).1 c (List.mem_cons_self ..)
        (hsame.trans hc)
  · cases hs

/-! ## Marking the slots -/

theorem slotOf_index (d : Disk) (c j : Nat) :
    d.slotOf (c, entrySize * j) = clusterSlot c (d.data c) j := by
  rw [slotOf, Nat.mul_div_cancel_left j (by decide)]

theorem getElem?_clusterSlots (c : Nat) (data : Nat → UInt8) {i n j : Nat} (hj : j < n) :
    (clusterSlots c data i n)[j]? = some (clusterSlot c data (i + j)) := by
  rw [clusterSlots, List.getElem?_map, List.getElem?_range' hj]
  simp

/-- The slots of the cluster after the walk from slot `i`. -/
theorem clusterSlot_erase (c : Nat) {data data' : Nat → UInt8} {k i n : Nat} (hi : i < n)
    (hrun : LongRun data k i)
    (hsame : ∀ x < entrySize * n, x < entrySize * i ∨ entrySize * (i + 1) ≤ x →
      data' x = markEntryAndLongNameDeleted data (entrySize * i) x) {j : Nat} (hj : j < n)
    (hne : j ≠ i) :
    clusterSlot c data' j =
      if k ≤ j ∧ j < i then (clusterSlot c data j).erased else clusterSlot c data j := by
  have hstored : clusterSlot c data' j = clusterSlot c
      (fun x => if x < entrySize * n then data' x else
        markEntryAndLongNameDeleted data (entrySize * i) x) j := by
    refine (clusterSlot_congr fun x _ hx => ?_).symm
    rw [if_pos (Nat.lt_of_lt_of_le hx (Nat.mul_le_mul_left _ hj))]
  have hagree : ∀ x, x < entrySize * i ∨ entrySize * (i + 1) ≤ x →
      (fun x => if x < entrySize * n then data' x else
        markEntryAndLongNameDeleted data (entrySize * i) x) x =
      markEntryAndLongNameDeleted data (entrySize * i) x := by
    intro x hx
    change (if x < entrySize * n then data' x else _) = _
    split
    · next hlt => exact hsame x hlt hx
    · rfl
  obtain ⟨k', hrun', _, hnew⟩ := clusterSlots_erase c hi hagree
  obtain rfl := longRun_unique hrun hrun'
  have hki := hrun.le
  have hget := congrArg (fun slots : List Slot => slots[j]?) hnew
  rw [getElem?_clusterSlots _ _ hj, Nat.zero_add, ← hstored] at hget
  by_cases hjk : j < k
  · rw [List.getElem?_append_left (by simp; omega), List.getElem?_append_left (by simp; omega),
      getElem?_clusterSlots _ _ hjk, Nat.zero_add] at hget
    rw [if_neg (by omega)]
    exact Option.some.inj hget
  · by_cases hji : j < i
    · rw [List.getElem?_append_left (by simp; omega), List.getElem?_append_right (by simp; omega),
        List.getElem?_map, getElem?_clusterSlots _ _ (by simp; omega)] at hget
      rw [if_pos (by omega)]
      simp only [length_clusterSlots, Option.map_some, Option.some.injEq] at hget
      rw [hget, Nat.add_sub_cancel' (by omega)]
    · obtain ⟨t, rfl⟩ : ∃ t, j = i + 1 + t := ⟨j - (i + 1), by omega⟩
      rw [List.getElem?_append_right (by simp; omega)] at hget
      simp only [List.length_append, length_clusterSlots, List.length_map] at hget
      rw [show i + 1 + t - (k + (i - k)) = t + 1 by omega, List.getElem?_cons_succ,
        getElem?_clusterSlots _ _ (by omega)] at hget
      rw [if_neg (by omega)]
      exact Option.some.inj hget

/-- The long name of the entry begins in the cluster of its short slot. -/
def Together (d : Disk) (x : Nat) (p : Listed) : Prop :=
  ∀ s ∈ d.longSlots x p, s.cluster = p.slot.cluster

instance (d : Disk) (x : Nat) (p : Listed) : Decidable (d.Together x p) :=
  inferInstanceAs (Decidable (∀ s ∈ _, _))

/-- The slots of the name are marked deleted, and all other slots are as they were. -/
def ErasesName (d d' : Disk) (x : Nat) (p : Listed) : Prop :=
  ∀ c j, j < d.slots → d'.slotOf (c, entrySize * j) =
    if (c, entrySize * j) ∈ d.namePlaces x p then (d.slotOf (c, entrySize * j)).erased
    else d.slotOf (c, entrySize * j)

/-- The walk over the long name of `p` has been made, and the short slot may have been stored
anew. -/
structure Walked (d d' : Disk) (p : Listed) : Prop where
  other : ∀ c, c ≠ p.slot.cluster → d'.data c = d.data c
  cluster : ∀ y < d.size, y < p.slot.offset ∨ p.slot.offset + entrySize ≤ y →
    d'.data p.slot.cluster y =
      markEntryAndLongNameDeleted (d.data p.slot.cluster) p.slot.offset y

namespace NameRun

variable {d' : Disk} {x k m i : Nat} {p : Listed} {early : List Slot}

theorem place_eq (h : NameRun d x p k m i early) : p.place = (p.slot.cluster, entrySize * i) :=
  congrArg (fun s : Slot => (p.slot.cluster, s.offset)) h.slot

theorem slotOf (h : NameRun d x p k m i early) (hw : Walked d d' p) {c j : Nat} (hj : j < d.slots)
    (hne : (c, entrySize * j) ≠ p.place) :
    d'.slotOf (c, entrySize * j) =
      if c = p.slot.cluster ∧ k ≤ j ∧ j < i then (d.slotOf (c, entrySize * j)).erased
      else d.slotOf (c, entrySize * j) := by
  by_cases hc : c = p.slot.cluster
  · subst hc
    have hji : j ≠ i := by
      rintro rfl
      exact hne h.place_eq.symm
    have hoffset : p.slot.offset = entrySize * i := congrArg Slot.offset h.slot
    have hcluster := hw.cluster
    rw [hoffset] at hcluster
    rw [slotOf_index, slotOf_index, clusterSlot_erase p.slot.cluster h.inside h.run hcluster hj hji]
    simp only [true_and]
  · rw [if_neg fun hand => hc hand.1, slotOf_congr (hw.other c hc)]

theorem mem_early (h : NameRun d x p k m i early) {s : Slot} (hs : s ∈ early) :
    ∃ j < d.slots, s.place = (s.cluster, entrySize * j) ∧ d.slotOf s.place = s := by
  obtain ⟨j, hj, hslot⟩ := (mem_dirSlots (h.early s hs).1).2
  have hplace : s.place = (s.cluster, entrySize * j) :=
    congrArg (fun t : Slot => (s.cluster, t.offset)) hslot
  exact ⟨j, hj, hplace, by rw [hplace, slotOf_index]; exact hslot.symm⟩

/-- The part of the name in an earlier cluster stays. -/
theorem early_kept (h : NameRun d x p k m i early) (hw : Walked d d' p) {s : Slot}
    (hs : s ∈ early) : (d'.slotOf s.place).kind = .longName := by
  obtain ⟨j, hj, hplace, hslot⟩ := h.mem_early hs
  obtain ⟨_, hcluster, hkind⟩ := h.early s hs
  have hne : (s.cluster, entrySize * j) ≠ p.place := fun heq =>
    hcluster (congrArg Prod.fst heq)
  rw [hplace, h.slotOf hw hj hne, if_neg fun hand => hcluster hand.1, ← hplace, hslot, hkind]

theorem together_iff (h : NameRun d x p k m i early) : d.Together x p ↔ early = [] := by
  unfold Together
  rw [h.longSlots]
  constructor
  · intro hall
    refine List.eq_nil_iff_forall_not_mem.mpr fun s hs => ?_
    exact (h.early s hs).2.1 (hall s (List.mem_append_left _ hs))
  · rintro rfl s hs
    obtain ⟨j, _, rfl⟩ := List.mem_map.mp hs
    rfl

/-- No slot of the long name is left live when the name is all in one cluster, and not otherwise. -/
theorem deleted_iff (h : NameRun d x p k m i early) (hw : Walked d d' p) :
    (∀ s ∈ d.longSlots x p, (d'.slotOf s.place).kind = .deleted) ↔ d.Together x p := by
  rw [h.together_iff, h.longSlots]
  constructor
  · intro hall
    refine List.eq_nil_iff_forall_not_mem.mpr fun s hs => ?_
    have hkind := hall s (List.mem_append_left _ hs)
    rw [h.early_kept hw hs] at hkind
    cases hkind
  · rintro rfl s hs
    obtain ⟨j, hj, rfl⟩ := List.mem_map.mp hs
    obtain ⟨hmj, hji⟩ := List.mem_range'_1.mp hj
    rw [Nat.add_sub_cancel' h.stop] at hji
    have hinside := h.inside
    have hne : (p.slot.cluster, entrySize * j) ≠ p.place := by
      rw [h.place_eq]
      intro heq
      have hmul := congrArg Prod.snd heq
      exact Nat.ne_of_lt hji (Nat.eq_of_mul_eq_mul_left (by decide) hmul)
    have hkm := h.start
    change (d'.slotOf (p.slot.cluster, entrySize * j)).kind = _
    rw [h.slotOf hw (by omega) hne, if_pos ⟨rfl, by omega, hji⟩]
    rfl

theorem mem_namePlaces (h : NameRun d x p k m i []) {c j : Nat} :
    (c, entrySize * j) ∈ d.namePlaces x p ↔ c = p.slot.cluster ∧ m ≤ j ∧ j ≤ i := by
  have hstop := h.stop
  have hinj : ∀ j', entrySize * j' = entrySize * j ↔ j' = j := fun j' =>
    ⟨fun heq => Nat.eq_of_mul_eq_mul_left (by decide) heq, fun heq => heq ▸ rfl⟩
  rw [namePlaces, h.longSlots, List.nil_append, List.map_append, List.mem_append, List.map_singleton,
    List.mem_singleton]
  change _ ∨ _ = p.place ↔ _
  rw [h.place_eq, Prod.mk.injEq]
  constructor
  · rintro (hmem | ⟨hc, hj⟩)
    · obtain ⟨s, hs, hplace⟩ := List.mem_map.mp hmem
      obtain ⟨j', hj', rfl⟩ := List.mem_map.mp hs
      obtain ⟨hc, hj⟩ := Prod.mk.injEq .. ▸ hplace
      obtain ⟨h₁, h₂⟩ := List.mem_range'_1.mp hj'
      obtain rfl := (hinj j').mp hj
      exact ⟨hc.symm, h₁, by omega⟩
    · obtain rfl := (hinj i).mp hj.symm
      exact ⟨hc, hstop, Nat.le_refl _⟩
  · rintro ⟨rfl, hmj, hji⟩
    rcases Nat.eq_or_lt_of_le hji with rfl | hlt
    · exact .inr ⟨rfl, rfl⟩
    · exact .inl (List.mem_map_of_mem (f := Slot.place)
        (List.mem_map_of_mem (List.mem_range'_1.mpr ⟨hmj, by omega⟩)))

theorem erases_iff (h : NameRun d x p k m i early) (hw : Walked d d' p)
    (hself : d'.slotOf p.place = p.slot.erased) : ErasesName d d' x p ↔ d.Together x p := by
  constructor
  · intro herases
    rw [h.together_iff]
    refine List.eq_nil_iff_forall_not_mem.mpr fun s hs => ?_
    obtain ⟨j, hj, hplace, hslot⟩ := h.mem_early hs
    have hmem : (s.cluster, entrySize * j) ∈ d.namePlaces x p := by
      rw [namePlaces, h.longSlots, ← hplace]
      exact List.mem_map_of_mem (by simp [hs])
    have herased := herases s.cluster j hj
    rw [if_pos hmem, ← hplace] at herased
    have hkind := h.early_kept hw hs
    rw [herased] at hkind
    cases hkind
  · intro htogether c j hj
    obtain rfl := h.together_iff.mp htogether
    simp only [h.mem_namePlaces]
    have hstart := h.start
    by_cases hplace : (c, entrySize * j) = p.place
    · have hself' : d.slotOf p.place = p.slot := by
        rw [h.place_eq, slotOf_index]
        exact h.slot.symm
      have hin : c = p.slot.cluster ∧ m ≤ j ∧ j ≤ i :=
        h.mem_namePlaces.mp (by rw [hplace]; simp [namePlaces, Listed.place])
      rw [if_pos hin, hplace, hself, hself']
    · rw [h.slotOf hw hj hplace]
      by_cases hc : c = p.slot.cluster
      · subst hc
        have hji : j ≠ i := by
          rintro rfl
          exact hplace h.place_eq.symm
        by_cases hmarked : k ≤ j ∧ j < m
        · -- a slot before the name that was deleted already
          have hkind := h.deleted j hmarked.1 hmarked.2
          have hstop := h.stop
          rw [if_pos ⟨rfl, hmarked.1, by omega⟩, if_neg (by omega), slotOf_index,
            Slot.erased_of_deleted hkind]
        · have hiff : (k ≤ j ∧ j < i) ↔ (m ≤ j ∧ j ≤ i) := by omega
          simp only [true_and, hiff]
      · rw [if_neg fun hand => hc hand.1, if_neg fun hand => hc hand.1]

end NameRun

end Disk

/-! ## remove and rename -/

section

variable {fs fs' : FAT32FileSystem} {held : Nat × Nat → Option Nat} {fuel : Nat}

/-- The calls that a successful `remove` makes. -/
theorem remove_ok {path : Str} (h : remove fs fuel path = some (.ok (), fs')) :
    ∃ entry fs₁ fs₂ fs₃, findEntry fs fuel path = some (some entry, fs₁) ∧
      checkEmpty fs₁ fuel entry = some (.ok (), fs₂) ∧ eraseEntry fs₂ entry id = (true, fs₃) ∧
      freeClusterChain fs₃ fuel entry.firstCluster = some (true, fs') ∧
      ¬ (entry.directoryEntryCluster < 2 ∨ isDotEntry entry.name = true) := by
  unfold remove at h
  simp only [Option.bind_eq_bind, Option.bind_eq_some_iff, Prod.exists] at h
  obtain ⟨entry, fs₁, hfind, h⟩ := h
  cases entry with
  | none => cases h
  | some entry =>
  simp only at h
  split at h
  · cases h
  next hreal =>
  simp only [Option.bind_eq_some_iff, Prod.exists] at h
  obtain ⟨empty, fs₂, hcheck, h⟩ := h
  cases empty with
  | error e => cases h
  | ok =>
  cases herase : eraseEntry fs₂ entry id with
  | mk ok fs₃ =>
  cases ok with
  | false =>
      simp only [herase] at h
      cases h
  | true =>
  simp only [herase, Option.bind_eq_some_iff, Prod.exists] at h
  obtain ⟨freed, fs₄, hfree, h⟩ := h
  cases freed with
  | false => cases h
  | true =>
      cases h
      exact ⟨entry, fs₁, fs₂, fs₃, hfind, hcheck, herase, hfree, hreal⟩

/-- The slot that `rename` stores in the place of the old one. -/
def renamedData (entry : DirectoryEntryInfo) (shortName : Str) (data : Nat → UInt8) : Nat → UInt8 :=
  setFields (setName data entry.directoryEntryOffset shortName) entry.directoryEntryOffset
    entry.attributes entry.firstCluster entry.storedSize

/-- The calls that a successful `rename` makes. -/
theorem rename_ok {oldPath newPath : Str} (h : rename fs fuel oldPath newPath = some (.ok (), fs')) :
    ∃ oldEntry oldParent newParent existing shortName fs₁ fs₂ fs₃ fs₄,
      findEntry fs fuel oldPath = some (some oldEntry, fs₁) ∧
      findEntry fs₁ fuel newPath = some (existing, fs₂) ∧
      findEntry fs₂ fuel (parentOf oldPath) = some (some oldParent, fs₃) ∧
      findEntry fs₃ fuel (parentOf newPath) = some (some newParent, fs₄) ∧
      (oldParent.firstCluster = newParent.firstCluster →
        eraseEntry fs₄ oldEntry (renamedData oldEntry shortName) = (true, fs')) := by
  unfold rename at h
  simp only [Option.bind_eq_bind, Option.bind_eq_some_iff, Prod.exists] at h
  obtain ⟨oldEntry, fs₁, hfind, h⟩ := h
  cases oldEntry with
  | none => cases h
  | some oldEntry =>
  simp only [Option.bind_eq_some_iff, Prod.exists] at h
  obtain ⟨existing, fs₂, hnew, h⟩ := h
  split at h
  · cases h
  split at h
  · cases h
  next shortName _ =>
  simp only [Option.bind_eq_some_iff, Prod.exists] at h
  obtain ⟨oldParent, fs₃, hold, h⟩ := h
  cases oldParent with
  | none => cases h
  | some oldParent =>
  simp only [Option.bind_eq_some_iff, Prod.exists] at h
  obtain ⟨newParent, fs₄, hparent, h⟩ := h
  cases newParent with
  | none => cases h
  | some newParent =>
  refine ⟨oldEntry, oldParent, newParent, existing, shortName, fs₁, fs₂, fs₃, fs₄, hfind, hnew, hold,
    hparent, fun hsame => ?_⟩
  simp only [if_pos hsame] at h
  change (some (if (eraseEntry fs₄ oldEntry (renamedData oldEntry shortName)).1 = true then
    Except.ok () else .error .ioError, (eraseEntry fs₄ oldEntry (renamedData oldEntry shortName)).2) :
      Option (Except VFSError Unit × FAT32FileSystem)) = _ at h
  cases herase : eraseEntry fs₄ oldEntry (renamedData oldEntry shortName) with
  | mk ok fs₅ =>
  rw [herase] at h
  cases ok with
  | false => cases h
  | true =>
      cases h
      rfl

theorem Answers.found {α : Type} {call : Option (Option α × FAT32FileSystem)} {answer : Option α}
    {a : α} (h : Answers fs call answer) (hcall : call = some (some a, fs')) :
    answer = some a ∧ ∃ n, fs' = fs.served n := by
  obtain ⟨result, n, heq, hresult⟩ := h
  rw [hcall] at heq
  cases heq
  refine ⟨?_, n, rfl⟩
  rcases hresult with h | ⟨h, _⟩
  · exact h.symm
  · cases h

/-- What `eraseEntry` leaves of the directory when the edit stays in the slot. -/
theorem eraseEntry_walked (hm : Mounted fs) {x : Nat} {p : Listed}
    (hvalid : (view fs).Valid p.slot.cluster) {edit : (Nat → UInt8) → Nat → UInt8}
    (hedit : ∀ data y, y < p.slot.offset ∨ p.slot.offset + entrySize ≤ y → edit data y = data y)
    (h : eraseEntry fs (p.info x) edit = (true, fs')) :
    view fs' = (view fs).setData p.slot.cluster (edit (markEntryAndLongNameDeleted
      ((view fs).data p.slot.cluster) p.slot.offset)) ∧
    Disk.Walked (view fs) (view fs') p ∧ SameVolume fs fs' := by
  obtain ⟨ok, fs'', herase, hwrote, _⟩ := eraseEntry_wrote hm (p.info x) hvalid edit
  rw [h] at herase
  cases herase
  have hview := hwrote.view_eq
  refine ⟨hview, ⟨fun c hc => ?_, fun y hy hout => ?_⟩, hwrote.same⟩
  · rw [hview]
    exact Disk.data_setData_of_ne hc
  · rw [hview]
    exact (Disk.data_setData_same hy).trans (hedit _ y hout)

theorem resolve_of_locate {d : Disk} {path : Str} {x : Nat} {p : Listed}
    (h : d.locate d.root (splitPath path) = some (x, p)) : d.resolve path = some (p.info x) := by
  have hne : ¬ (path = [] ∨ path = [slash]) := by
    rintro (rfl | rfl) <;> cases h
  rw [Disk.resolve, if_neg hne, h]
  rfl

theorem clusterSlot_marked (c : Nat) {data data' : Nat → UInt8} {i : Nat}
    (h : ∀ y, entrySize * i ≤ y → y < entrySize * (i + 1) →
      data' y = markEntryAndLongNameDeleted data (entrySize * i) y) :
    clusterSlot c data' i = (clusterSlot c data i).erased := by
  unfold clusterSlot Slot.erased
  congr 1
  funext j
  change (if j < entrySize then data' (entrySize * i + j) else 0) =
    if j = 0 then entryDeleted else if j < entrySize then data (entrySize * i + j) else 0
  by_cases hj : j < entrySize
  · rw [if_pos hj, if_pos hj, h _ (Nat.le_add_right ..) (by rw [Nat.mul_succ]; omega),
      markEntryAndLongNameDeleted_self _ (Nat.le_add_right ..)]
    by_cases hzero : j = 0
    · rw [if_pos hzero, hzero, if_pos (Nat.add_zero _)]
    · rw [if_neg hzero, if_neg (by omega)]
  · rw [if_neg hj, if_neg hj, if_neg]
    rintro rfl
    exact hj (by decide)

variable {path : Str} {x : Nat} {p : Listed}

/-- What a successful `remove` leaves of the directory. -/
theorem remove_walked (hm : Mounted fs) (hd : (view fs).WellFormed held)
    (hfuel : fs.totalClusters < fuel)
    (hlocate : (view fs).locate (view fs).root (splitPath path) = some (x, p))
    (hhead : Disk.head held p = p.firstCluster) (h : remove fs fuel path = some (.ok (), fs')) :
    Disk.Walked (view fs) (view fs') p ∧ (view fs').slotOf p.place = p.slot.erased := by
  obtain ⟨entry, fs₁, fs₂, fs₃, hfind, hcheck, herase, hfree, hreal⟩ := remove_ok h
  obtain ⟨hresolve, n, rfl⟩ := (findEntry_answers hm hd hfuel path).found hfind
  rw [resolve_of_locate hlocate] at hresolve
  cases hresolve
  obtain ⟨hcluster, hdot⟩ := not_or.mp hreal
  obtain ⟨x', p', hx, hlocate', _, hp⟩ := hd.resolve_entry (resolve_of_locate hlocate) hcluster
    (Bool.eq_false_iff.mpr hdot)
  rw [hlocate] at hlocate'
  cases hlocate'
  have hm₁ := (sameVolume_served fs n).mounted hm
  obtain ⟨empty, m, hempty, _⟩ := checkEmpty_answers hm₁ hd hx hp hfuel
  rw [hcheck] at hempty
  cases hempty
  have hm₂ := (sameVolume_served (fs.served n) m).mounted hm₁
  have hvalid : (view fs).Valid p.slot.cluster :=
    (hd.chain (.directory hx)).2.valid (Disk.mem_chain_of_listed hp.listed)
  obtain ⟨hview, hwalked, hsame⟩ := eraseEntry_walked hm₂ hvalid (fun _ _ _ => rfl) herase
  -- freeing the clusters changes no data
  have hdata : (view fs').data = (view fs₃).data := by
    have hchain : 2 ≤ p.firstCluster → (view fs₃).Valid p.firstCluster ∧
        (view fs₃).Chain p.firstCluster ((view fs).chain p.firstCluster) := fun hfirst => by
      rw [hview]
      exact hd.chain_entry hx hp hhead hfirst
    obtain ⟨freed, fs₄, ys, hcall, _, _, hview₄, _⟩ := freeClusterChain_chain (hsame.mounted hm₂)
      hchain (fun hlow => Disk.chain_of_lt hlow) (hsame.enough hfuel)
    change freeClusterChain fs₃ fuel p.firstCluster = _ at hfree
    rw [hfree] at hcall
    cases hcall
    rw [hview₄]
    rfl
  refine ⟨⟨fun c hc => ?_, fun y hy hout => ?_⟩, ?_⟩
  · rw [hdata]
    exact hwalked.other c hc
  · rw [hdata]
    exact hwalked.cluster y hy hout
  · obtain ⟨i, hi, hslot⟩ := Disk.slot_of_listed hp.listed
    have hoffset : p.slot.offset = entrySize * i := congrArg Slot.offset hslot
    have hplace : p.place = (p.slot.cluster, entrySize * i) := congrArg _ hoffset
    rw [hplace, Disk.slotOf_index, hdata, hview]
    conv_rhs => rw [hslot]
    refine clusterSlot_marked _ fun y _ hlt => ?_
    rw [hoffset]
    refine Disk.data_setData_same (Nat.lt_of_lt_of_le hlt ?_)
    exact Nat.mul_le_mul_left _ hi

theorem renamedData_other {entry : DirectoryEntryInfo} {shortName : Str} {data : Nat → UInt8} {y : Nat}
    (h : y < entry.directoryEntryOffset ∨ entry.directoryEntryOffset + entrySize ≤ y) :
    renamedData entry shortName data y = data y := by
  have hsize : entrySize = 32 := rfl
  rw [renamedData, setFields_other (by omega), setName]
  rcases h with h | h
  · exact blit_of_lt h
  · exact blit_of_ge (by omega)

/-- What a successful `rename` inside a directory leaves of the directory. -/
theorem rename_walked {newPath : Str} {oldParent newParent : DirectoryEntryInfo} (hm : Mounted fs)
    (hd : (view fs).WellFormed held) (hfuel : fs.totalClusters < fuel)
    (hlocate : (view fs).locate (view fs).root (splitPath path) = some (x, p))
    (hold : (view fs).resolve (parentOf path) = some oldParent)
    (hnew : (view fs).resolve (parentOf newPath) = some newParent)
    (hsame : oldParent.firstCluster = newParent.firstCluster)
    (h : rename fs fuel path newPath = some (.ok (), fs')) : Disk.Walked (view fs) (view fs') p := by
  obtain ⟨oldEntry, oldParent', newParent', existing, shortName, fs₁, fs₂, fs₃, fs₄, hfind, hexisting,
    hfindOld, hfindNew, herase⟩ := rename_ok h
  have hm' : ∀ n, Mounted (fs.served n) := fun n => (sameVolume_served fs n).mounted hm
  obtain ⟨hresolve, n, rfl⟩ := (findEntry_answers hm hd hfuel path).found hfind
  rw [resolve_of_locate hlocate] at hresolve
  cases hresolve
  obtain ⟨existing', m, hcall, _⟩ := findEntry_answers (hm' n) hd hfuel newPath
  rw [hexisting, FAT32FileSystem.served_served] at hcall
  cases hcall
  obtain ⟨hresolve, n', rfl⟩ := (findEntry_answers (hm' (n + m)) hd hfuel (parentOf path)).found hfindOld
  cases hold.symm.trans hresolve
  rw [FAT32FileSystem.served_served] at hfindNew
  obtain ⟨hresolve, n'', rfl⟩ := (findEntry_answers (hm' _) hd hfuel (parentOf newPath)).found hfindNew
  cases hnew.symm.trans hresolve
  obtain ⟨hx, part, _, hfound⟩ := hd.locate_mem .root hlocate
  have hp := (Disk.find_mem hfound).1
  have hvalid : (view fs).Valid p.slot.cluster :=
    (hd.chain (.directory hx)).2.valid (Disk.mem_chain_of_listed hp)
  have herase := herase hsame
  rw [FAT32FileSystem.served_served] at herase
  exact (eraseEntry_walked (hm' _) hvalid (fun data y hy => renamedData_other hy) herase).2.1

theorem name_erased_iff (hm : Mounted fs) (hd : (view fs).WellFormed held)
    (hfuel : fs.totalClusters < fuel)
    (hlocate : (view fs).locate (view fs).root (splitPath path) = some (x, p))
    (hsets : NameSets ((view fs).slotsIn x)) :
    (∀ fs', Disk.head held p = p.firstCluster → remove fs fuel path = some (.ok (), fs') →
      ((view fs).ErasesName (view fs') x p ↔ (view fs).Together x p)) ∧
    ∀ newPath oldParent newParent fs',
      (view fs).resolve (parentOf path) = some oldParent →
      (view fs).resolve (parentOf newPath) = some newParent →
      oldParent.firstCluster = newParent.firstCluster →
      rename fs fuel path newPath = some (.ok (), fs') →
      ((∀ s ∈ (view fs).longSlots x p, ((view fs').slotOf s.place).kind = .deleted) ↔
        (view fs).Together x p) := by
  obtain ⟨hx, part, _, hfound⟩ := hd.locate_mem .root hlocate
  obtain ⟨k, m, i, early, hrun⟩ := Disk.nameRun (hd.nodup hx) (Disk.find_mem hfound).1 hsets
  constructor
  · intro fs' hhead h
    obtain ⟨hwalked, hself⟩ := remove_walked hm hd hfuel hlocate hhead h
    exact hrun.erases_iff hwalked hself
  · intro newPath oldParent newParent fs' hold hnew hsame h
    exact hrun.deleted_iff (rename_walked hm hd hfuel hlocate hold hnew hsame h)

end

/-! ## A name in two clusters -/

/-- The disk of `tinyVolume` with two clusters for the root directory.  Behind fifteen deleted
slots the long name of `notes.txt` ends the first, and its short slot begins the second. -/
def splitDisk : BlockDevice where
  bytes :=
    let bytes := writeLE (tinyDisk 2).bytes (512 + 488) 4 6
    let bytes := writeLE bytes (1024 + 8) 4 3
    let bytes := writeLE bytes (1024 + 12) 4 0x0FFFFFFF
    let bytes := blit bytes 1536 480 fun _ => entryDeleted
    let bytes := blit bytes 2016 entrySize notesSlot
    blit bytes 2048 entrySize
      (rawEntry (padded 8 notesItem.base ++ padded 3 notesItem.ext) attributeArchive 0)
  faults := fun _ => false

def splitVolume : FAT32FileSystem := (mount splitDisk).get (by decide +kernel)

/-- The slots before the entry. -/
def splitBefore : List Slot := clusterSlots 2 ((view splitVolume).data 2) 0 16

/-- The entry of `notes.txt`. -/
def splitEntry : Listed := ⟨clusterSlot 3 ((view splitVolume).data 3) 0, lfnAfter [] splitBefore, 16⟩

theorem mount_splitDisk : mount splitDisk = some splitVolume := (Option.some_get _).symm

/-- What reading the disk gives. -/
theorem reading_splitVolume :
    ((BIOSParameterBlock.ofSector splitDisk.bytes).Sane ∧ (view splitVolume).root = 2 ∧
      (view splitVolume).slots = 16 ∧ splitVolume.totalClusters < 10) ∧
    ((view splitVolume).chain 2 = [2, 3] ∧ ((view splitVolume).Valid 2 ∧
      (view splitVolume).fat 2 = 3) ∧ (view splitVolume).Valid 3 ∧
      isEndOfChain ((view splitVolume).fat 3) = true) ∧
    (∀ i < 16, (clusterSlot 2 ((view splitVolume).data 2) i).kind =
      if i = 15 then .longName else .deleted) ∧
    ∀ i < 16, 1 ≤ i → (clusterSlot 3 ((view splitVolume).data 3) i).kind = .endMark := by
  decide +kernel

theorem reading_splitEntry :
    splitEntry.slot.kind = .entry ∧ ¬ splitEntry.slot.attributes &&& attributeDirectory ≠ 0 ∧
      ¬ 2 ≤ splitEntry.firstCluster ∧
      namesEqual splitEntry.name [110, 111, 116, 101, 115, 46, 116, 120, 116] = true := by
  decide +kernel

theorem mounted_splitVolume : Mounted splitVolume :=
  mounted_of_sane mount_splitDisk reading_splitVolume.1.1

theorem root_splitVolume : (view splitVolume).root = 2 := reading_splitVolume.1.2.1

theorem chain_splitVolume :
    (view splitVolume).chain 2 = [2, 3] ∧ (view splitVolume).Chain 2 [2, 3] := by
  obtain ⟨-, ⟨hchain, ⟨hvalid, hnext⟩, hvalid', hend⟩, -⟩ := reading_splitVolume
  exact ⟨hchain, rfl, hvalid, hnext, hvalid', hend⟩

theorem kinds_splitBefore :
    ∀ i < 16, (clusterSlot 2 ((view splitVolume).data 2) i).kind =
      if i = 15 then .longName else .deleted :=
  reading_splitVolume.2.2.1

theorem slotsIn_splitVolume : ∃ free, (∀ t ∈ free, t.kind = .endMark) ∧
    (view splitVolume).slotsIn 2 = splitBefore ++ splitEntry.slot :: free := by
  refine ⟨clusterSlots 3 ((view splitVolume).data 3) 1 15, fun t ht => ?_, ?_⟩
  · obtain ⟨i, hi, rfl⟩ := List.mem_map.mp ht
    rw [List.mem_range'_1] at hi
    exact reading_splitVolume.2.2.2 i hi.2 hi.1
  · have hslots : (view splitVolume).slots = 16 := reading_splitVolume.1.2.2.1
    have hsecond : clusterSlots 3 ((view splitVolume).data 3) 0 16 =
        splitEntry.slot :: clusterSlots 3 ((view splitVolume).data 3) 1 15 :=
      clusterSlots_succ 3 _ 0 15
    rw [Disk.slotsIn, chain_splitVolume.1, Disk.dirSlots, List.flatMap_cons, List.flatMap_singleton,
      Disk.slotsOf, Disk.slotsOf, hslots, hsecond]
    rfl

theorem kind_splitEntry : splitEntry.slot.kind = .entry := reading_splitEntry.1

theorem mem_splitBefore {s : Slot} (h : s ∈ splitBefore) :
    s.kind = .longName ∨ s.kind = .deleted := by
  obtain ⟨i, hi, rfl⟩ := mem_clusterSlots h
  rw [kinds_splitBefore i hi]
  split
  · exact .inl rfl
  · exact .inr rfl

theorem unended_splitBefore : Unended splitBefore := fun s hs => by
  rcases mem_splitBefore hs with h | h <;> simp [h]

theorem listing_splitVolume :
    (view splitVolume).listing 2 = [splitEntry] ∧ Disk.Tail ((view splitVolume).slotsIn 2) := by
  obtain ⟨free, hfree, hslots⟩ := slotsIn_splitVolume
  constructor
  · change Fat32.listing [] 0 ((view splitVolume).slotsIn 2) = _
    rw [hslots, listing_split unended_splitBefore (by simp [kind_splitEntry])
      (by simp [kind_splitEntry]), listing_ended hfree, listing_noEntry unended_splitBefore, entryAt,
      if_pos kind_splitEntry]
    · rfl
    · intro s hs
      rcases mem_splitBefore hs with h | h <;> simp [h]
  · rw [hslots, Disk.Tail, List.pairwise_append]
    refine ⟨List.Pairwise.imp_of_mem (R := fun _ _ => True) (fun hs _ _ hend =>
      absurd hend (unended_splitBefore _ hs)) (List.pairwise_of_forall fun _ _ => trivial), ?_,
      fun s hs t _ hend => absurd hend (unended_splitBefore s hs)⟩
    refine List.pairwise_cons.mpr ⟨fun t ht _ => hfree t ht, ?_⟩
    exact List.pairwise_of_forall_mem_list fun _ _ t ht _ => hfree t ht

theorem wellFormed_splitVolume : (view splitVolume).WellFormed fun _ => none := by
  have hroot := root_splitVolume
  refine Disk.wellFormed_of_file mounted_splitVolume.unmarked mounted_splitVolume.root_valid ?_
    (hroot ▸ listing_splitVolume.1) (p := splitEntry) ?_ (hroot ▸ listing_splitVolume.2) ?_
  · rw [hroot, chain_splitVolume.1]
    exact chain_splitVolume.2
  · exact reading_splitEntry.2.1
  · intro htwo
    exact absurd htwo reading_splitEntry.2.2.1

theorem layout_splitVolume : Layout [(notesItem, splitEntry.slot)] ((view splitVolume).slotsIn 2) := by
  obtain ⟨free, hfree, hslots⟩ := slotsIn_splitVolume
  have hbefore : splitBefore = clusterSlots 2 ((view splitVolume).data 2) 0 15 ++
      [clusterSlot 2 ((view splitVolume).data 2) 15] := clusterSlots_add 2 _ 0 15 1
  have hskipped : ∀ s ∈ clusterSlots 2 ((view splitVolume).data 2) 0 15, Skipped s := by
    unfold Skipped
    decide +kernel
  have hlong : NameSlots notesItem.long [clusterSlot 2 ((view splitVolume).data 2) 15] :=
    .cons ⟨by decide +kernel, by decide +kernel, by decide +kernel⟩ .nil
  have hshort : ShortSlot notesItem splitEntry.slot :=
    ⟨by decide +kernel, by decide +kernel, by decide +kernel, by decide +kernel, by decide +kernel⟩
  have hrest : Layout [] free := by
    cases free with
    | nil => exact .nil
    | cons t free => exact .endMark ((Slot.kind_endMark _).mp (hfree t (List.mem_cons_self ..)))
  rw [hslots, hbefore, List.append_assoc]
  exact .skip_all hskipped (.item valid_notesItem hlong hshort hrest)

theorem nameSets_splitVolume : NameSets ((view splitVolume).slotsIn 2) :=
  layout_splitVolume.nameSets

/-- The path `/notes.txt`. -/
def notesPath : Str := [47, 110, 111, 116, 101, 115, 46, 116, 120, 116]

theorem locate_splitVolume :
    (view splitVolume).locate (view splitVolume).root (splitPath notesPath) =
      some (2, splitEntry) := by
  have hroot := root_splitVolume
  have hsplit : splitPath notesPath = [[110, 111, 116, 101, 115, 46, 116, 120, 116]] := by decide
  have hname := reading_splitEntry.2.2.2
  rw [hroot, hsplit, Disk.locate, Disk.find, listing_splitVolume.1]
  simp [hname]

theorem name_erased_splitVolume :
    (∀ fs', Disk.head (fun _ => none) splitEntry = splitEntry.firstCluster →
      remove splitVolume 10 notesPath = some (.ok (), fs') →
      ((view splitVolume).ErasesName (view fs') 2 splitEntry ↔
        (view splitVolume).Together 2 splitEntry)) ∧
    ∀ newPath oldParent newParent fs',
      (view splitVolume).resolve (parentOf notesPath) = some oldParent →
      (view splitVolume).resolve (parentOf newPath) = some newParent →
      oldParent.firstCluster = newParent.firstCluster →
      rename splitVolume 10 notesPath newPath = some (.ok (), fs') →
      ((∀ s ∈ (view splitVolume).longSlots 2 splitEntry,
        ((view fs').slotOf s.place).kind = .deleted) ↔
        (view splitVolume).Together 2 splitEntry) :=
  name_erased_iff mounted_splitVolume wellFormed_splitVolume reading_splitVolume.1.2.2.2
    locate_splitVolume nameSets_splitVolume

/-- `remove` and `rename` succeed, and the slot of the long name in the first cluster stays. -/
theorem longName_left_live :
    Mounted splitVolume ∧ (view splitVolume).WellFormed (fun _ => none) ∧
    NameSets ((view splitVolume).slotsIn 2) ∧
    (∃ fs', remove splitVolume 10 notesPath = some (.ok (), fs') ∧
      ((view fs').slotOf (2, entrySize * 15)).kind = .longName) ∧
    ∃ fs', rename splitVolume 10 notesPath [slash, 98] = some (.ok (), fs') ∧
      ((view fs').slotOf (2, entrySize * 15)).kind = .longName := by
  have hcall : ∀ {call : Option (Except VFSError Unit × FAT32FileSystem)},
      call.map (fun r => (r.1.isOk, ((view r.2).slotOf (2, entrySize * 15)).kind)) =
        some (true, .longName) →
      ∃ fs', call = some (.ok (), fs') ∧
        ((view fs').slotOf (2, entrySize * 15)).kind = .longName := by
    intro call h
    obtain ⟨⟨result, fs'⟩, rfl, heq⟩ := Option.map_eq_some_iff.mp h
    obtain ⟨hok, hkind⟩ := Prod.mk.injEq .. ▸ heq
    cases result with
    | error e => cases hok
    | ok => exact ⟨fs', rfl, hkind⟩
  exact ⟨mounted_splitVolume, wellFormed_splitVolume, nameSets_splitVolume,
    hcall (by decide +kernel), hcall (by decide +kernel)⟩

end Avery.Fat32
