import Avery.Fs.Slots

/-!
# Edits of slots

Every change to a directory writes one cluster back in which one slot is different.
When that slot held an entry that goes away or gets another name, the slots of its
long name that lie in the same cluster are marked deleted.  In the list of slots
this is `before ++ long ++ s :: after` becoming `before ++ long.map erased ++ s' :: after`
(`Edit`), and in the list of entries one entry has been inserted, has been removed or has
changed (`Edit.listing`).
-/

namespace Avery.Fat32

open ByteMemory

namespace Slot

/-- The eleven bytes of the short name. -/
def name (s : Slot) : Str := (List.range 11).map s.raw

def attributes (s : Slot) : UInt8 := s.raw 11

def firstCluster (s : Slot) : Nat := firstClusterOf s.raw

def fileSize (s : Slot) : Nat := fileSizeOf s.raw

/-- Where the slot is on the disk. -/
def place (s : Slot) : Nat × Nat := (s.cluster, s.offset)

/-- The slot, marked deleted. -/
def erased (s : Slot) : Slot :=
  { s with raw := fun i => if i = 0 then entryDeleted else s.raw i }

@[simp] theorem place_erased (s : Slot) : s.erased.place = s.place := rfl

@[simp] theorem kind_erased (s : Slot) : s.erased.kind = .deleted := rfl

theorem kind_entry_iff (s : Slot) :
    s.kind = .entry ↔ s.raw 0 ≠ 0 ∧ s.raw 0 ≠ entryDeleted ∧ s.attributes ≠ attributeLongName ∧
      s.attributes &&& attributeVolumeID = 0 := by
  unfold kind attributes
  split
  · simp_all
  split
  · simp_all
  split
  · simp_all
  split <;> simp_all

theorem raw_of_name {s : Slot} {n : Str} (h : s.name = n) {i : Nat} (hi : i < 11) :
    s.raw i = n.getD i 0 := by
  rw [← h, name, List.getD_eq_getElem _ _ (by simpa using hi)]
  simp

theorem name_congr {s s' : Slot} (h : ∀ i < 11, s'.raw i = s.raw i) : s'.name = s.name :=
  List.map_congr_left fun i hi => h i (List.mem_range.mp hi)

theorem kind_deleted {s : Slot} (h : s.raw 0 = entryDeleted) : s.kind = .deleted := by
  have hne : s.raw 0 ≠ 0 := by
    rw [h]
    decide
  rw [kind, if_neg hne, if_pos h]

theorem kind_deleted_iff (s : Slot) : s.kind = .deleted ↔ s.raw 0 = entryDeleted := by
  constructor
  · intro hkind
    unfold kind at hkind
    split at hkind
    · cases hkind
    split at hkind
    · assumption
    split at hkind
    · cases hkind
    split at hkind <;> cases hkind
  · exact kind_deleted

theorem attributes_of_longName {s : Slot} (h : s.kind = .longName) :
    s.attributes = attributeLongName := by
  unfold kind at h
  split at h
  · cases h
  split at h
  · cases h
  split at h
  · assumption
  · split at h <;> cases h

theorem erased_of_deleted {s : Slot} (h : s.kind = .deleted) : s.erased = s := by
  have hraw := (kind_deleted_iff s).mp h
  obtain ⟨cluster, offset, raw⟩ := s
  simp only [erased, Slot.mk.injEq, true_and]
  funext i
  split
  · next hi => rw [hi, ← hraw]
  · rfl

/-- Attributes of an entry. -/
def Plain (attributes : UInt8) : Prop :=
  attributes ≠ attributeLongName ∧ attributes &&& attributeVolumeID = 0

/-- A slot with a new name holds an entry or counts as deleted. -/
theorem kind_of_name {s : Slot} {n : Str} (hname : s.name = n) (hplain : Plain s.attributes)
    (hzero : n.getD 0 0 ≠ 0) :
    s.kind = if n.getD 0 0 = entryDeleted then .deleted else .entry := by
  have hraw := raw_of_name hname (by decide : 0 < 11)
  split
  · next hdel => exact kind_deleted (hraw.trans hdel)
  · next hdel => exact (kind_entry_iff s).mpr ⟨hraw ▸ hzero, hraw ▸ hdel, hplain⟩

/-- A slot with the attributes of a long name holds no entry. -/
theorem kind_of_longName {s : Slot} (h : s.attributes = attributeLongName) : s.kind ≠ .entry := by
  intro hkind
  exact ((kind_entry_iff s).mp hkind).2.2.1 h

end Slot

/-! ## What an edit does to the entries -/

/-- The slot `s` has become `s'`, and slots of a long name right before it have been
marked deleted. -/
structure Edit (s s' : Slot) (before long after : List Slot) : Prop where
  place : s'.place = s.place
  longName : ∀ r ∈ long, r.attributes = attributeLongName
  unended : Unended (before ++ long)
  old : s.kind ≠ .longName
  new : s'.kind = .entry ∨ s'.kind = .deleted
  tail : s.kind = .endMark → ∀ v ∈ after, v.kind = .endMark

/-- The entry in a slot behind other slots, if it holds one. -/
def entryAt (before : List Slot) (s : Slot) : List Listed :=
  if s.kind = .entry then [⟨s, lfnAfter [] before, before.length⟩] else []

theorem listing_ended {slots : List Slot} (h : ∀ s ∈ slots, s.kind = .endMark) (lfn : Str)
    (index : Nat) : listing lfn index slots = [] := by
  cases slots with
  | nil => rfl
  | cons s slots => rw [listing, h s (List.mem_cons_self ..)]

theorem listing_noEntry {slots : List Slot} (hun : Unended slots)
    (h : ∀ s ∈ slots, s.kind ≠ .entry) (lfn : Str) (index : Nat) :
    listing lfn index slots = [] := by
  induction slots generalizing lfn index with
  | nil => rfl
  | cons s slots ih =>
      obtain ⟨hs, hrest⟩ := unended_cons.mp hun
      rw [listing_cons hs, if_neg (h s (List.mem_cons_self ..)), List.nil_append]
      exact ih hrest (fun r hr => h r (List.mem_cons_of_mem _ hr)) _ _

/-- The entries behind some slots, the first of which holds no long name. -/
theorem listing_split {before : List Slot} (hun : Unended before) {s : Slot}
    (hs : s.kind ≠ .longName) (hend : s.kind ≠ .endMark) (after : List Slot) :
    listing [] 0 (before ++ s :: after) =
      listing [] 0 before ++ entryAt before s ++ listing [] (before.length + 1) after := by
  rw [listing_append hun, Nat.zero_add, List.append_assoc, listing_cons hend]
  have hlfn : ∀ lfn : Str, lfnAfter lfn [s] = [] := by
    intro lfn
    cases hkind : s.kind <;> simp_all [lfnAfter]
  rw [hlfn, entryAt]

theorem listing_split_end {before after : List Slot} (hun : Unended before) {s : Slot}
    (hend : s.kind = .endMark) :
    listing [] 0 (before ++ s :: after) = listing [] 0 before := by
  rw [listing_append hun, listing, hend, List.append_nil]

/-- Where an entry comes from. -/
theorem listing_mem {lfn : Str} {index : Nat} {slots : List Slot} {p : Listed}
    (h : p ∈ listing lfn index slots) :
    ∃ before after, slots = before ++ p.slot :: after ∧ Unended before ∧ p.slot.kind = .entry ∧
      p.lfn = lfnAfter lfn before ∧ p.index = index + before.length := by
  induction slots generalizing lfn index with
  | nil => cases h
  | cons s slots ih =>
      by_cases hend : s.kind = .endMark
      · rw [listing, hend] at h
        cases h
      rw [listing_cons hend] at h
      rcases List.mem_append.mp h with h | h
      · split at h
        · next hkind =>
          cases List.mem_singleton.mp h
          exact ⟨[], slots, rfl, unended_nil, hkind, rfl, rfl⟩
        · cases h
      · obtain ⟨before, after, hslots, hun, hkind, hlfn, hindex⟩ := ih h
        refine ⟨s :: before, after, by rw [hslots, List.cons_append], unended_cons.mpr ⟨hend, hun⟩,
          hkind, by rw [hlfn, lfnAfter_cons lfn s before], ?_⟩
        rw [hindex, List.length_cons]
        omega

theorem listing_sublist (lfn : Str) (index : Nat) (slots : List Slot) :
    ((listing lfn index slots).map Listed.slot).Sublist slots := by
  induction slots generalizing lfn index with
  | nil => exact .slnil
  | cons s slots ih =>
      by_cases hend : s.kind = .endMark
      · rw [listing, hend]
        exact List.nil_sublist _
      rw [listing_cons hend, List.map_append]
      split
      · exact (ih _ _).cons_cons s
      · exact (ih _ _).cons s

/-- End marks behind the slots list nothing. -/
theorem listing_append_end {slots ended : List Slot} (h : ∀ s ∈ ended, s.kind = .endMark) :
    listing [] 0 (slots ++ ended) = listing [] 0 slots := by
  by_cases hun : Unended slots
  · rw [listing_append hun, listing_ended h, List.append_nil]
  · exact listing_append_ended hun _ _ _

namespace Edit

variable {s s' : Slot} {before long after : List Slot}

theorem unended_erased (h : Edit s s' before long after) :
    Unended (before ++ long.map Slot.erased) := by
  refine unended_append.mpr ⟨(unended_append.mp h.unended).1, fun r hr => ?_⟩
  obtain ⟨r, _, rfl⟩ := List.mem_map.mp hr
  simp

theorem new_unended (h : Edit s s' before long after) : s'.kind ≠ .endMark ∧ s'.kind ≠ .longName := by
  rcases h.new with hkind | hkind <;> simp [hkind]

/-- Two entries at the beginning of the slots stay where they are, if the slot that is
rewritten is not one of them. -/
theorem keeps_first (h : Edit s s' before long after) {a b : Slot} {rest : List Slot}
    (hslots : before ++ long ++ s :: after = a :: b :: rest) (ha : a.kind = .entry)
    (hb : b.kind = .entry) (hsa : s ≠ a) (hsb : s ≠ b) :
    ∃ rest', before ++ long.map Slot.erased ++ s' :: after = a :: b :: rest' := by
  have hlong : ∀ r ∈ long, r ≠ a ∧ r ≠ b := fun r hr =>
    ⟨fun heq => Slot.kind_of_longName (h.longName r hr) (heq ▸ ha),
      fun heq => Slot.kind_of_longName (h.longName r hr) (heq ▸ hb)⟩
  cases before with
  | nil =>
      cases long with
      | nil => exact absurd (List.cons.inj hslots).1 hsa
      | cons r long => exact absurd (List.cons.inj hslots).1 (hlong r (List.mem_cons_self ..)).1
  | cons r before =>
      obtain ⟨rfl, htail⟩ := List.cons.inj hslots
      cases before with
      | nil =>
          cases long with
          | nil => exact absurd (List.cons.inj htail).1 hsb
          | cons r' long =>
              exact absurd (List.cons.inj htail).1 (hlong r' (List.mem_cons_self ..)).2
      | cons r' before =>
          obtain ⟨rfl, _⟩ := List.cons.inj htail
          exact ⟨_, rfl⟩

/-- End marks stay behind the other slots. -/
theorem pairwise (h : Edit s s' before long after)
    (htail : (before ++ long ++ s :: after).Pairwise fun s t => s.kind = .endMark → t.kind = .endMark) :
    (before ++ long.map Slot.erased ++ s' :: after).Pairwise
      fun s t => s.kind = .endMark → t.kind = .endMark := by
  have hafter := (List.pairwise_cons.mp (List.pairwise_append.mp htail).2.1).2
  refine List.pairwise_append.mpr ⟨?_, List.pairwise_cons.mpr ⟨?_, hafter⟩, ?_⟩
  · exact List.Pairwise.imp_of_mem (R := fun _ _ => True)
      (fun hr _ _ hend => absurd hend (h.unended_erased _ hr)) (List.pairwise_of_forall fun _ _ => trivial)
  · exact fun t _ hend => absurd hend h.new_unended.1
  · exact fun r hr t _ hend => absurd hend (h.unended_erased r hr)

/-- One entry is inserted, removed or changed. -/
theorem listing (h : Edit s s' before long after) :
    ∃ pre post,
      Fat32.listing [] 0 (before ++ long ++ s :: after) =
        pre ++ entryAt (before ++ long) s ++ post ∧
      Fat32.listing [] 0 (before ++ long.map Slot.erased ++ s' :: after) =
        pre ++ entryAt (before ++ long.map Slot.erased) s' ++ post := by
  obtain ⟨hbefore, hlong⟩ := unended_append.mp h.unended
  have hsame : Fat32.listing [] 0 (before ++ long) = Fat32.listing [] 0 before := by
    rw [listing_append hbefore, listing_noEntry hlong fun r hr => Slot.kind_of_longName (h.longName r hr),
      List.append_nil]
  have hsame' : Fat32.listing [] 0 (before ++ long.map Slot.erased) = Fat32.listing [] 0 before := by
    rw [listing_append hbefore, listing_noEntry (unended_append.mp h.unended_erased).2, List.append_nil]
    intro r hr
    obtain ⟨r, _, rfl⟩ := List.mem_map.mp hr
    simp
  have hnew := listing_split h.unended_erased h.new_unended.2 h.new_unended.1 after
  rw [hsame', List.length_append, List.length_map] at hnew
  refine ⟨Fat32.listing [] 0 before, Fat32.listing [] (before.length + long.length + 1) after, ?_, hnew⟩
  by_cases hend : s.kind = .endMark
  · rw [listing_split_end h.unended hend, hsame, listing_ended (h.tail hend)]
    simp [entryAt, hend]
  · rw [listing_split h.unended h.old hend, hsame, List.length_append]

end Edit

/-! ## The slots of a cluster -/

section

variable {cluster : Nat} {data data' : Nat → UInt8}

theorem clusterSlot_attributes (cluster : Nat) (data : Nat → UInt8) (i : Nat) :
    (clusterSlot cluster data i).raw 11 = data (entrySize * i + 11) :=
  window_of_lt (n := entrySize) (i := 11) (by decide)

theorem clusterSlot_congr {i : Nat}
    (h : ∀ x, entrySize * i ≤ x → x < entrySize * (i + 1) → data' x = data x) :
    clusterSlot cluster data' i = clusterSlot cluster data i := by
  have hraw : window data' (entrySize * i) entrySize = window data (entrySize * i) entrySize := by
    funext j
    unfold window
    split
    · exact h _ (Nat.le_add_right _ _) (by rw [Nat.mul_succ]; omega)
    · rfl
  rw [clusterSlot, hraw, clusterSlot]

theorem clusterSlots_congr {i n : Nat}
    (h : ∀ x, entrySize * i ≤ x → x < entrySize * (i + n) → data' x = data x) :
    clusterSlots cluster data' i n = clusterSlots cluster data i n := by
  refine List.map_congr_left fun j hj => clusterSlot_congr fun x h₁ h₂ => ?_
  obtain ⟨hle, hlt⟩ := List.mem_range'_1.mp hj
  exact h x (Nat.le_trans (Nat.mul_le_mul_left _ hle) h₁)
    (Nat.lt_of_lt_of_le h₂ (Nat.mul_le_mul_left _ hlt))

theorem clusterSlots_add (cluster : Nat) (data : Nat → UInt8) (i m n : Nat) :
    clusterSlots cluster data i (m + n) =
      clusterSlots cluster data i m ++ clusterSlots cluster data (i + m) n := by
  rw [clusterSlots, ← List.range'_append_1, List.map_append, clusterSlots, clusterSlots]

/-- The slots of a cluster around one of them. -/
theorem clusterSlots_split (cluster : Nat) (data : Nat → UInt8) {i n : Nat} (hi : i < n) :
    clusterSlots cluster data 0 n =
      clusterSlots cluster data 0 i ++ clusterSlot cluster data i ::
        clusterSlots cluster data (i + 1) (n - (i + 1)) := by
  have hn : n = i + (n - (i + 1) + 1) := by omega
  conv => lhs; rw [hn]
  rw [clusterSlots_add, Nat.zero_add, clusterSlots_succ]

theorem mem_clusterSlots {s : Slot} {n : Nat} (h : s ∈ clusterSlots cluster data 0 n) :
    ∃ i < n, s = clusterSlot cluster data i := by
  obtain ⟨i, hi, rfl⟩ := List.mem_map.mp h
  exact ⟨i, by simpa using hi, rfl⟩

@[simp] theorem length_clusterSlots (cluster : Nat) (data : Nat → UInt8) (i n : Nat) :
    (clusterSlots cluster data i n).length = n := by
  simp [clusterSlots]

/-- Only slot `i` is different. -/
theorem clusterSlots_replace {i n : Nat} (hi : i < n)
    (hsame : ∀ x, x < entrySize * i ∨ entrySize * (i + 1) ≤ x → data' x = data x) :
    clusterSlots cluster data' 0 n =
      clusterSlots cluster data 0 i ++ clusterSlot cluster data' i ::
        clusterSlots cluster data (i + 1) (n - (i + 1)) := by
  rw [clusterSlots_split cluster data' hi,
    clusterSlots_congr fun x _ h => hsame x (.inl (by rwa [Nat.zero_add] at h)),
    clusterSlots_congr fun x h _ => hsame x (.inr h)]

end

/-! ## Marking a long name deleted -/

/-- The slots from `k` on, before slot `i`, are those that the loop marks. -/
structure LongRun (data : Nat → UInt8) (k i : Nat) : Prop where
  le : k ≤ i
  longName : ∀ j, k ≤ j → j < i → data (entrySize * j + 11) = attributeLongName
  start : ∀ j, k = j + 1 → data (entrySize * j + 11) ≠ attributeLongName

theorem markDeleted_apply (data : Nat → UInt8) (i x : Nat) :
    markDeleted data i x = if x = entrySize * i then entryDeleted else data x := by
  unfold markDeleted blit
  by_cases h : x = entrySize * i
  · rw [if_pos h, if_pos (by omega)]
  · rw [if_neg h, if_neg (by omega)]

/-- The loop marks the slots of a long name right before slot `i`. -/
theorem markLongNameDeleted_run (data : Nat → UInt8) (i : Nat) :
    ∃ k, LongRun data k i ∧
      (∀ j, k ≤ j → j < i → markLongNameDeleted data i (entrySize * j) = entryDeleted) ∧
      ∀ x, (∀ j, k ≤ j → j < i → x ≠ entrySize * j) → markLongNameDeleted data i x = data x := by
  induction i generalizing data with
  | zero =>
      exact ⟨0, ⟨Nat.le_refl 0, fun j _ h => absurd h (Nat.not_lt_zero j),
        fun j h => absurd h.symm (Nat.succ_ne_zero j)⟩, fun j _ h => absurd h (Nat.not_lt_zero j),
        fun _ _ => rfl⟩
  | succ i ih =>
      rw [markLongNameDeleted]
      by_cases hlong : data (entrySize * i + 11) = attributeLongName
      · rw [if_neg (not_not.mpr hlong)]
        obtain ⟨k, hrun, hmarked, hkept⟩ := ih (markDeleted data i)
        -- the mark in slot `i` does not change the attributes of a slot
        have hattr : ∀ j, markDeleted data i (entrySize * j + 11) = data (entrySize * j + 11) := by
          intro j
          rw [markDeleted_apply, if_neg]
          unfold entrySize
          omega
        refine ⟨k, ⟨Nat.le_succ_of_le hrun.le, fun j h₁ h₂ => ?_, fun j h => ?_⟩,
          fun j h₁ h₂ => ?_, fun x hx => ?_⟩
        · rcases Nat.lt_succ_iff_lt_or_eq.mp h₂ with hlt | rfl
          · rw [← hattr]
            exact hrun.longName j h₁ hlt
          · exact hlong
        · rw [← hattr]
          exact hrun.start j h
        · rcases Nat.lt_succ_iff_lt_or_eq.mp h₂ with hlt | rfl
          · exact hmarked j h₁ hlt
          · rw [hkept _ fun j' _ h => ?_, markDeleted_apply, if_pos rfl]
            unfold entrySize
            omega
        · rw [hkept x fun j h₁ h₂ => hx j h₁ (Nat.lt_succ_of_lt h₂), markDeleted_apply,
            if_neg (hx i hrun.le (Nat.lt_succ_self i))]
      · rw [if_pos hlong]
        refine ⟨i + 1, ⟨Nat.le_refl _, fun j h₁ h₂ => absurd h₂ (Nat.not_lt.mpr h₁), fun j h => ?_⟩,
          fun j h₁ h₂ => absurd h₂ (Nat.not_lt.mpr h₁), fun _ _ => rfl⟩
        cases h
        exact hlong

/-- Slot `i` itself after `markEntryAndLongNameDeleted`. -/
theorem markEntryAndLongNameDeleted_self (data : Nat → UInt8) {i x : Nat}
    (hle : entrySize * i ≤ x) :
    markEntryAndLongNameDeleted data (entrySize * i) x =
      if x = entrySize * i then entryDeleted else data x := by
  have hindex : entrySize * i / entrySize = i := Nat.mul_div_cancel_left i (by decide)
  unfold markEntryAndLongNameDeleted
  simp only [hindex]
  obtain ⟨k, _, _, hkept⟩ := markLongNameDeleted_run (markDeleted data i) i
  rw [hkept x fun j _ h => ?_, markDeleted_apply]
  have hlt := Nat.mul_lt_mul_of_pos_left h (by decide : 0 < entrySize)
  omega

/-- The slots of a cluster in which an entry and its long name have been marked
deleted and slot `i` may have been stored anew. -/
theorem clusterSlots_erase (cluster : Nat) {data data' : Nat → UInt8} {i n : Nat} (hi : i < n)
    (hsame : ∀ x, x < entrySize * i ∨ entrySize * (i + 1) ≤ x →
      data' x = markEntryAndLongNameDeleted data (entrySize * i) x) :
    ∃ k, LongRun data k i ∧
      clusterSlots cluster data 0 n =
        clusterSlots cluster data 0 k ++ clusterSlots cluster data k (i - k) ++
          clusterSlot cluster data i :: clusterSlots cluster data (i + 1) (n - (i + 1)) ∧
      clusterSlots cluster data' 0 n =
        clusterSlots cluster data 0 k ++ (clusterSlots cluster data k (i - k)).map Slot.erased ++
          clusterSlot cluster data' i :: clusterSlots cluster data (i + 1) (n - (i + 1)) := by
  have hindex : entrySize * i / entrySize = i := Nat.mul_div_cancel_left i (by decide)
  unfold markEntryAndLongNameDeleted at hsame
  simp only [hindex] at hsame
  obtain ⟨k, hrun, hmarked, hkept⟩ := markLongNameDeleted_run (markDeleted data i) i
  have hattr : ∀ j, markDeleted data i (entrySize * j + 11) = data (entrySize * j + 11) := by
    intro j
    rw [markDeleted_apply, if_neg]
    unfold entrySize
    omega
  -- away from the marks nothing has changed
  have hother : ∀ x, (∀ j, k ≤ j → j < i → x ≠ entrySize * j) →
      x < entrySize * i ∨ entrySize * (i + 1) ≤ x → data' x = data x := by
    intro x hx hout
    rw [hsame x hout, hkept x hx, markDeleted_apply, if_neg]
    rw [Nat.mul_succ] at hout
    rcases hout with hout | hout
    · exact Nat.ne_of_lt hout
    · have hpos : 0 < entrySize := by decide
      omega
  have hki := hrun.le
  have hcut : clusterSlots cluster data' 0 i =
      clusterSlots cluster data' 0 k ++ clusterSlots cluster data' k (i - k) := by
    have hadd := clusterSlots_add cluster data' 0 k (i - k)
    rwa [Nat.add_sub_cancel' hki, Nat.zero_add] at hadd
  have hcut' : clusterSlots cluster data 0 i =
      clusterSlots cluster data 0 k ++ clusterSlots cluster data k (i - k) := by
    have hadd := clusterSlots_add cluster data 0 k (i - k)
    rwa [Nat.add_sub_cancel' hki, Nat.zero_add] at hadd
  have hbefore : clusterSlots cluster data' 0 k = clusterSlots cluster data 0 k := by
    refine clusterSlots_congr fun x _ hx => ?_
    rw [Nat.zero_add] at hx
    refine hother x (fun j h₁ _ => ?_) (.inl ?_)
    · exact Nat.ne_of_lt (Nat.lt_of_lt_of_le hx (Nat.mul_le_mul_left _ h₁))
    · exact Nat.lt_of_lt_of_le hx (Nat.mul_le_mul_left _ hki)
  have hlong : clusterSlots cluster data' k (i - k) =
      (clusterSlots cluster data k (i - k)).map Slot.erased := by
    unfold clusterSlots
    rw [List.map_map]
    refine List.map_congr_left fun j hj => ?_
    obtain ⟨h₁, h₂⟩ := List.mem_range'_1.mp hj
    rw [Nat.add_sub_cancel' hki] at h₂
    have hend : entrySize * j + entrySize ≤ entrySize * i := Nat.mul_le_mul_left entrySize h₂
    have hpos : 0 < entrySize := by decide
    unfold clusterSlot Function.comp Slot.erased
    congr 1
    funext x
    simp only [window]
    by_cases hx : x = 0
    · subst hx
      rw [if_pos rfl, if_pos (by decide), Nat.add_zero, hsame _ (.inl (by omega)), hmarked j h₁ h₂]
    · rw [if_neg hx]
      split
      · next hlt =>
        refine hother _ (fun j' _ _ => ?_) (.inl (by omega))
        unfold entrySize at hlt ⊢
        omega
      · rfl
  refine ⟨k, ⟨hki, fun j h₁ h₂ => ?_, fun j h => ?_⟩, ?_, ?_⟩
  · rw [← hattr]
    exact hrun.longName j h₁ h₂
  · rw [← hattr]
    exact hrun.start j h
  · rw [clusterSlots_split cluster data hi, hcut']
  · rw [clusterSlots_split cluster data' hi, hcut, hbefore, hlong]
    refine congrArg _ (congrArg _ (clusterSlots_congr fun x h _ => hother x (fun j _ h₂ => ?_) (.inr h)))
    exact Nat.ne_of_gt (Nat.lt_of_lt_of_le (Nat.mul_lt_mul_of_pos_left h₂ (by decide))
      (Nat.le_trans (Nat.mul_le_mul_left _ (Nat.le_succ i)) h))

/-! ## What is stored in a slot -/

section

variable {data : Nat → UInt8} {offset firstCluster size : Nat} {attributes : UInt8}

/-- `setFields` leaves the name and everything outside the slot. -/
theorem setFields_other {x : Nat} (h : x < offset + 11 ∨ offset + 32 ≤ x) :
    setFields data offset attributes firstCluster size x = data x := by
  unfold setFields
  rcases h with h | h
  · rw [writeLE_of_lt (by omega), writeLE_of_lt (by omega), writeLE_of_lt (by omega),
      blit_of_lt (by omega)]
  · rw [writeLE_of_ge (by omega), writeLE_of_ge (by omega), writeLE_of_ge (by omega),
      blit_of_ge (by omega)]

theorem setFields_attributes :
    setFields data offset attributes firstCluster size (offset + 11) = attributes := by
  unfold setFields
  rw [writeLE_of_lt (by omega), writeLE_of_lt (by omega), writeLE_of_lt (by omega)]
  exact blit_of_mem (i := 0) (by decide)

theorem setFields_firstCluster (h : firstCluster < 2 ^ 32) :
    readLE (setFields data offset attributes firstCluster size) (offset + 20) 2 * 2 ^ 16 +
      readLE (setFields data offset attributes firstCluster size) (offset + 26) 2 =
      firstCluster := by
  simp only [setFields]
  rw [readLE_writeLE_disjoint (a := offset + 28) (b := offset + 20) (by omega),
    readLE_writeLE_disjoint (a := offset + 26) (b := offset + 20) (by omega), readLE_writeLE_mod,
    readLE_writeLE_disjoint (by omega), readLE_writeLE_mod]
  omega

theorem setFields_size (h : size < 2 ^ 32) :
    readLE (setFields data offset attributes firstCluster size) (offset + 28) 4 = size := by
  unfold setFields
  rw [readLE_writeLE_same (by simpa using h)]

/-- The slot in which `setFields` has stored. -/
theorem clusterSlot_setFields (cluster i : Nat) (data : Nat → UInt8) (attributes : UInt8)
    (hfirst : firstCluster < 2 ^ 32) (hsize : size < 2 ^ 32) :
    let s := clusterSlot cluster
      (setFields data (entrySize * i) attributes firstCluster size) i
    s.attributes = attributes ∧ s.firstCluster = firstCluster ∧ s.fileSize = size ∧
      ∀ j < 11, s.raw j = data (entrySize * i + j) := by
  have h₂₀ : 20 + 2 ≤ entrySize := by decide
  have h₂₆ : 26 + 2 ≤ entrySize := by decide
  have h₂₈ : 28 + 4 ≤ entrySize := by decide
  refine ⟨?_, ?_, ?_, fun j hj => ?_⟩
  · have hlt : 11 < entrySize := by decide
    exact (window_of_lt hlt).trans setFields_attributes
  · change readLE (window _ _ _) 20 2 * 2 ^ 16 + readLE (window _ _ _) 26 2 = _
    rw [readLE_window h₂₀, readLE_window h₂₆, setFields_firstCluster hfirst]
  · change readLE (window _ _ _) 28 4 = _
    rw [readLE_window h₂₈, setFields_size hsize]
  · have hlt : j < entrySize := Nat.lt_trans hj (by decide)
    exact (window_of_lt hlt).trans (setFields_other (.inl (Nat.add_lt_add_left hj _)))

end

/-- A new slot. -/
theorem clusterSlot_rawEntry {firstCluster : Nat} {name : Str} (cluster i : Nat)
    (data : Nat → UInt8) (attributes : UInt8) (hname : name.length = 11) (hfirst : firstCluster < 2 ^ 32) :
    let s := clusterSlot cluster
      (blit data (entrySize * i) entrySize (rawEntry name attributes firstCluster)) i
    s.attributes = attributes ∧ s.firstCluster = firstCluster ∧ s.fileSize = 0 ∧
      s.name = name := by
  have hraw : ∀ j < entrySize, (clusterSlot cluster
      (blit data (entrySize * i) entrySize (rawEntry name attributes firstCluster)) i).raw j =
      rawEntry name attributes firstCluster j := fun j hj =>
    (window_of_lt hj).trans (blit_of_mem hj)
  have hread : ∀ b m, b + m ≤ entrySize → readLE (clusterSlot cluster
      (blit data (entrySize * i) entrySize (rawEntry name attributes firstCluster)) i).raw b m =
      readLE (rawEntry name attributes firstCluster) b m := fun b m hle =>
    readLE_congr fun x _ hx => hraw x (Nat.lt_of_lt_of_le hx hle)
  refine ⟨?_, ?_, ?_, ?_⟩
  · exact (hraw 11 (by decide)).trans setFields_attributes
  · have hfields : readLE (rawEntry name attributes firstCluster) (0 + 20) 2 * 2 ^ 16 +
        readLE (rawEntry name attributes firstCluster) (0 + 26) 2 = firstCluster :=
      setFields_firstCluster hfirst
    change readLE _ 20 2 * 2 ^ 16 + readLE _ 26 2 = _
    rw [hread 20 2 (by decide), hread 26 2 (by decide)]
    exact hfields
  · change readLE _ 28 4 = _
    rw [hread 28 4 (by decide)]
    exact setFields_size (by decide)
  · unfold Slot.name
    refine List.ext_getElem (by simp [hname]) fun j hj _ => ?_
    simp only [List.length_map, List.length_range] at hj
    rw [List.getElem_map, List.getElem_range, hraw j (Nat.lt_trans hj (by decide)), rawEntry,
      setFields_other (.inl (by omega)), setName]
    have hblit : blit (fun _ => 0) 0 11 (fun i => name.getD i 0) (0 + j) = name.getD j 0 :=
      blit_of_mem hj
    rw [Nat.zero_add] at hblit
    rw [hblit, List.getD_eq_getElem _ _ (hname ▸ hj)]

end Avery.Fat32
