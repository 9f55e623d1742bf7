import Avery.Fs.Allocation
import Avery.Fs.Lookup
import Avery.Fs.Rewrites

/-!
# Free slots

`createDirectoryEntry` looks for a free slot, which may add a cluster to the directory.
Nothing of that is seen in any directory (`Quiet`), and a failure leaves at most clusters
that belong to nobody.
-/

namespace Avery.Fat32

namespace Disk

/-- A cluster that is in use and belongs to no owner. -/
structure Lost (d : Disk) (held : Nat × Nat → Option Nat) (D : Nat → Prop) (c : Nat) : Prop where
  valid : d.Valid c
  used : d.fat c ≠ freeCluster
  good : d.fat c ≠ badCluster
  unowned : ∀ o, ¬ d.Owned held D o c

section

variable {d d' d'' : Disk} {held : Nat × Nat → Option Nat} {D : Nat → Prop} {o : Option Owner}

/-- The owners are the same on both sides. -/
theorem SameTree.owns_iff (h : SameTree d d' D) {o : Owner} {c : Nat} :
    d'.Owns held D o c ↔ d.Owns held D o c := by
  refine ⟨h.owns, fun hown => ?_⟩
  cases hown with
  | directory hc => exact .directory hc
  | file hx hp hfile hhead => exact .file hx ((h.entry hx).mpr hp) hfile hhead

/-- A change that no directory shows.  Only the chain of the owner `o` may have changed, and
when `strict` holds no cluster has got lost. -/
structure Quiet (strict : Prop) (held : Nat × Nat → Option Nat) (D : Nat → Prop)
    (o : Option Owner) (d d' : Disk) : Prop where
  tree : SameTree d d' D
  wellFormed : d'.WellFormedOn held D
  spares : Spares d d' held D o
  lost : strict → ∀ {c}, d'.Lost held D c → d.Lost held D c

namespace Quiet

variable {strict : Prop}

theorem refl (hd : d.WellFormedOn held D) : Quiet strict held D o d d :=
  ⟨.refl d D, hd, ⟨.refl d, fun _ _ => ⟨rfl, rfl⟩⟩, fun _ => id⟩

theorem trans (hd : d.WellFormedOn held D) (h : Quiet strict held D o d d')
    (h' : Quiet strict held D o d' d'') : Quiet strict held D o d d'' where
  tree := h.tree.trans h'.tree
  wellFormed := h'.wellFormed
  spares := by
    refine ⟨h.spares.shape.trans h'.spares.shape, fun {o' c} hne hown => ?_⟩
    obtain ⟨f, hf, hc⟩ := hown
    have hchain := (h.spares.chain hd hne hf).2
    have hown' : d'.Owned held D o' c := ⟨f, h.tree.owns_iff.mpr hf, hchain.symm ▸ hc⟩
    obtain ⟨h₁, h₂⟩ := h.spares.kept hne ⟨f, hf, hc⟩
    obtain ⟨h₃, h₄⟩ := h'.spares.kept hne hown'
    exact ⟨h₃.trans h₁, h₄.trans h₂⟩
  lost hs := h.lost hs ∘ h'.lost hs

theorem weaken (h : Quiet strict held D none d d') (o : Owner) : Quiet strict held D (some o) d d' :=
  ⟨h.tree, h.wellFormed, ⟨h.spares.shape, fun _ hown => h.spares.kept (by simp) hown⟩, h.lost⟩

theorem imp {strict' : Prop} (hs : strict' → strict) (h : Quiet strict held D o d d') :
    Quiet strict' held D o d d' :=
  ⟨h.tree, h.wellFormed, h.spares, fun h' => h.lost (hs h')⟩

/-- Clusters that belong to nobody may change. -/
theorem of_spares (hd : d.WellFormedOn held D) (h : Spares d d' held D none)
    (hlost : strict → ∀ {c}, d'.Lost held D c → d.Lost held D c) : Quiet strict held D none d d' :=
  ⟨h.sameTree hd fun c => by simp, h.wellFormedOn hd, h, hlost⟩

end Quiet

/-- The chains of owners that are spared contain the same clusters. -/
theorem Spares.owned_iff (h : Spares d d' held D none) (hd : d.WellFormedOn held D) {o : Owner}
    {c : Nat} : d'.Owned held D o c ↔ d.Owned held D o c := by
  have htree := h.sameTree hd fun c => by simp
  constructor
  · rintro ⟨f, hf, hc⟩
    have hf' := htree.owns_iff.mp hf
    exact ⟨f, hf', (h.chain hd (by simp) hf').2 ▸ hc⟩
  · rintro ⟨f, hf, hc⟩
    exact ⟨f, htree.owns_iff.mpr hf, (h.chain hd (by simp) hf).2.symm ▸ hc⟩

theorem spares_of_free (hd : d.WellFormedOn held D) (hshape : SameShape d d') {c : Nat}
    (hfree : d.fat c = freeCluster)
    (hsame : ∀ x, x ≠ c → d'.fat x = d.fat x ∧ d'.data x = d.data x) : Spares d d' held D none := by
  refine ⟨hshape, fun _ hown => hsame _ ?_⟩
  rintro rfl
  exact hd.not_owned hfree hown

theorem quiet_leak (hd : d.WellFormedOn held D) (h : Leak d d') : Quiet False held D none d d' := by
  cases h with
  | none => exact .refl hd
  | marked hc hfree =>
      refine .of_spares hd (spares_of_free hd ⟨rfl, rfl, rfl⟩ hfree fun x hx => ?_) False.elim
      exact ⟨fat_setFat_of_ne hx, rfl⟩
  | zeroed hc hfree =>
      refine .of_spares hd (spares_of_free hd ⟨rfl, rfl, rfl⟩ hfree fun x hx => ?_) False.elim
      exact ⟨fat_alloc_of_ne hx, data_alloc_of_ne hx⟩

/-- A directory gets one more cluster. -/
theorem quiet_grow {strict : Prop} (hd : d.WellFormedOn held D) {x last c : Nat} {ys : List Nat}
    (hx : D x) (hchain : d.chain x = ys ++ [last]) (hc : d.Valid c) (hfree : d.fat c = 0) :
    Quiet strict held D (some (.directory x)) d ((d.alloc c).setFat last c) := by
  obtain ⟨htree, hwf, hnew⟩ := hd.grow hx hchain hc hfree
  have hne : ∀ {o e}, d.Owned held D o e → e ≠ c := by
    rintro o e hown rfl
    exact hd.not_owned hfree hown
  have hlast : d.Owned held D (.directory x) last := ⟨x, .directory hx, by simp [hchain]⟩
  refine ⟨htree, hwf, ⟨htree.shape, fun {o' e} ho hown => ?_⟩, fun _ {e} hlost => ?_⟩
  · have hel : e ≠ last := by
      rintro rfl
      obtain ⟨f, hf, he⟩ := hown
      obtain ⟨f', hf', he'⟩ := hlast
      exact ho (congrArg some (hd.apart hf hf' he he'))
    exact ⟨(fat_setFat_of_ne hel).trans (fat_alloc_of_ne (hne hown)), data_alloc_of_ne (hne hown)⟩
  · -- the clusters in question belong to `x`
    have hin : ∀ {e}, e ∈ ys ++ [last, c] →
        ((d.alloc c).setFat last c).Owned held D (.directory x) e := fun he =>
      ⟨x, .directory hx, hnew.symm ▸ he⟩
    have hec : e ≠ c := by
      rintro rfl
      exact hlost.unowned _ (hin (by simp))
    have hel : e ≠ last := by
      rintro rfl
      exact hlost.unowned _ (hin (by simp))
    have hfat : ((d.alloc c).setFat last c).fat e = d.fat e :=
      (fat_setFat_of_ne hel).trans (fat_alloc_of_ne hec)
    refine ⟨hlost.valid, hfat ▸ hlost.used, hfat ▸ hlost.good, fun o hown => ?_⟩
    obtain ⟨f, hf, he⟩ := hown
    by_cases ho : o = .directory x
    · subst ho
      cases hf
      rw [hchain] at he
      exact hlost.unowned _ (hin (by simp at he ⊢; tauto))
    · have hsame : ((d.alloc c).setFat last c).chain f = d.chain f := by
        refine (htree.shape.chain_eq hd.unmarked (hd.chain hf).2 fun y hy => ?_).2
        have hyl : y ≠ last := by
          rintro rfl
          obtain ⟨f', hf', he'⟩ := hlast
          exact ho (hd.apart hf hf' hy he')
        exact (fat_setFat_of_ne hyl).trans (fat_alloc_of_ne (hne ⟨f, hf, hy⟩))
      exact hlost.unowned o ⟨f, htree.owns_iff.mpr hf, hsame.symm ▸ he⟩

end

/-! ## Finding a free slot -/

/-- The slot at an offset of a cluster is the first free one of the directory. -/
def FirstFree (d : Disk) (x c offset : Nat) (before : List Slot) : Prop :=
  ∃ pre post i, d.chain x = pre ++ c :: post ∧ offset = entrySize * i ∧ i < d.slots ∧
    before = d.slotsBefore pre c i ∧
    (∀ s ∈ before, s.kind ≠ .endMark ∧ s.kind ≠ .deleted) ∧
    (d.data c (entrySize * i) = 0 ∨ d.data c (entrySize * i) = entryDeleted)

end Disk

theorem freeSlot_none {data : Nat → UInt8} {i n : Nat} (h : freeSlot data i n = none) :
    ∀ j, i ≤ j → j < i + n → data (entrySize * j) ≠ 0 ∧ data (entrySize * j) ≠ entryDeleted := by
  induction n generalizing i with
  | zero => intro j h₁ h₂; omega
  | succ n ih =>
      rw [freeSlot] at h
      split at h
      · cases h
      next hused =>
      intro j h₁ h₂
      rcases Nat.eq_or_lt_of_le h₁ with rfl | hlt
      · exact not_or.mp hused
      · exact ih h j hlt (by omega)

theorem freeSlot_some {data : Nat → UInt8} {i n k : Nat} (h : freeSlot data i n = some k) :
    i ≤ k ∧ k < i + n ∧ (data (entrySize * k) = 0 ∨ data (entrySize * k) = entryDeleted) ∧
      ∀ j, i ≤ j → j < k → data (entrySize * j) ≠ 0 ∧ data (entrySize * j) ≠ entryDeleted := by
  induction n generalizing i with
  | zero => cases h
  | succ n ih =>
      rw [freeSlot] at h
      split at h
      · next hfree =>
        cases h
        exact ⟨Nat.le_refl _, by omega, hfree, fun j h₁ h₂ => by omega⟩
      next hused =>
      obtain ⟨h₁, h₂, h₃, h₄⟩ := ih h
      refine ⟨by omega, by omega, h₃, fun j hij hjk => ?_⟩
      rcases Nat.eq_or_lt_of_le hij with rfl | hlt
      · exact not_or.mp hused
      · exact h₄ j hlt hjk

/-- Slots that are not free. -/
theorem taken_of_data {c : Nat} {data : Nat → UInt8} {i : Nat}
    (h : data (entrySize * i) ≠ 0 ∧ data (entrySize * i) ≠ entryDeleted) :
    (clusterSlot c data i).kind ≠ .endMark ∧ (clusterSlot c data i).kind ≠ .deleted := by
  have hraw : (clusterSlot c data i).raw 0 = data (entrySize * i) :=
    ByteMemory.window_of_lt (n := entrySize) (i := 0) (by decide)
  rw [← hraw] at h
  unfold Slot.kind
  rw [if_neg h.1, if_neg h.2]
  split
  · simp
  split <;> simp

/-- The slots before the first free one. -/
def takenSlots (slots : List Slot) : List Slot :=
  slots.takeWhile fun s => s.kind ≠ .endMark ∧ s.kind ≠ .deleted

theorem takenSlots_append {before after : List Slot} {s : Slot}
    (hbefore : ∀ r ∈ before, r.kind ≠ .endMark ∧ r.kind ≠ .deleted)
    (hs : s.kind = .endMark ∨ s.kind = .deleted) : takenSlots (before ++ s :: after) = before := by
  unfold takenSlots
  rw [List.takeWhile_append_of_pos fun r hr => by simpa using hbefore r hr, List.takeWhile_cons,
    if_neg (by rcases hs with h | h <;> simp [h]), List.append_nil]

theorem takenSlots_all {slots : List Slot}
    (h : ∀ r ∈ slots, r.kind ≠ .endMark ∧ r.kind ≠ .deleted) : takenSlots slots = slots :=
  List.takeWhile_eq_self_iff.mpr fun r hr => by simpa using h r hr

/-- What `findFreeDirectoryEntry` has done for the directory `x`. -/
structure Searched (fs : FAT32FileSystem) (held : Nat × Nat → Option Nat) (D : Nat → Prop) (x : Nat)
    (result : Option (Nat × Nat)) (fs' : FAT32FileSystem) : Prop where
  same : SameVolume fs fs'
  quiet : Disk.Quiet fs.Reliable held D (some (.directory x)) (view fs) (view fs')
  found : ∀ c offset, result = some (c, offset) →
    (view fs').FirstFree x c offset (takenSlots ((view fs).slotsIn x))
  full : fs.Reliable → result = none →
    view fs' = view fs ∧ ∀ c, (view fs).Valid c → (view fs).fat c ≠ 0
  counted : fs.Reliable → Counted fs → Counted fs'

section

variable {held : Nat × Nat → Option Nat} {D : Nat → Prop}

/-- A request has failed before anything was written. -/
theorem Searched.fails {fs : FAT32FileSystem} (hd : (view fs).WellFormedOn held D) {x n k : Nat}
    (h : fs.fault k = true) : Searched fs held D x none (fs.served n) where
  same := sameVolume_served fs n
  quiet := .refl hd
  found _ _ h := nomatch h
  full hr := Bool.noConfusion ((hr k).symm.trans h)
  counted hr := Bool.noConfusion ((hr k).symm.trans h)

theorem clusterSlots_taken {c i n : Nat} {data : Nat → UInt8}
    (h : ∀ j, i ≤ j → j < i + n → data (entrySize * j) ≠ 0 ∧ data (entrySize * j) ≠ entryDeleted) :
    ∀ s ∈ clusterSlots c data i n, s.kind ≠ .endMark ∧ s.kind ≠ .deleted := by
  intro s hs
  obtain ⟨j, hj, rfl⟩ := List.mem_map.mp hs
  obtain ⟨h₁, h₂⟩ := List.mem_range'_1.mp hj
  exact taken_of_data (h j h₁ h₂)

/-- There is a free slot in the cluster `c`. -/
theorem Searched.here {fs : FAT32FileSystem} (hd : (view fs).WellFormedOn held D) {x c i n : Nat}
    {pre post : List Nat} (hchain : (view fs).chain x = pre ++ c :: post)
    (htaken : ∀ s ∈ (view fs).dirSlots pre, s.kind ≠ .endMark ∧ s.kind ≠ .deleted)
    (hfree : freeSlot ((view fs).data c) 0 (view fs).slots = some i) :
    Searched fs held D x (some (c, entrySize * i)) (fs.served n) where
  same := sameVolume_served fs n
  quiet := .refl hd
  found c' offset h := by
    cases h
    obtain ⟨_, hi, hdata, hused⟩ := freeSlot_some hfree
    rw [Nat.zero_add] at hi
    have hbefore : ∀ s ∈ (view fs).slotsBefore pre c i, s.kind ≠ .endMark ∧ s.kind ≠ .deleted := by
      intro s hs
      rcases List.mem_append.mp hs with hs | hs
      · exact htaken s hs
      · exact clusterSlots_taken (fun j h₁ h₂ => hused j h₁ (by omega)) s hs
    have hraw : (clusterSlot c ((view fs).data c) i).raw 0 = (view fs).data c (entrySize * i) :=
      ByteMemory.window_of_lt (n := entrySize) (i := 0) (by decide)
    have heq : takenSlots ((view fs).slotsIn x) = (view fs).slotsBefore pre c i := by
      have hslots := Disk.slotsIn_around hchain
      rw [clusterSlots_split _ _ hi, ← List.append_assoc, List.append_assoc, List.cons_append]
        at hslots
      rw [hslots]
      refine takenSlots_append hbefore ?_
      rcases hdata with h | h
      · exact .inl ((Slot.kind_endMark _).mpr (hraw.trans h))
      · exact .inr (Slot.kind_deleted (hraw.trans h))
    exact ⟨pre, post, i, hchain, rfl, hi, heq, heq.symm ▸ hbefore, hdata⟩
  full _ h := nomatch h
  counted _ h := ⟨h.memory, h.stored⟩

/-- There is no free slot, and a cluster is added. -/
theorem Searched.extend {fs fs' : FAT32FileSystem} (hm : Mounted fs)
    (hd : (view fs).WellFormedOn held D) {x c : Nat} {pre : List Nat} {result : Option Nat}
    (hx : D x) (hchain : (view fs).chain x = pre ++ [c])
    (htaken : ∀ s ∈ (view fs).slotsIn x, s.kind ≠ .endMark ∧ s.kind ≠ .deleted)
    (h : Extended fs c result fs') :
    Searched fs held D x (result.map fun new => (new, 0)) fs' where
  same := h.same
  quiet := by
    cases result with
    | some new =>
        obtain ⟨hvalid, hfree, hview⟩ := h.grown new rfl
        rw [hview]
        exact Disk.quiet_grow hd hx hchain hvalid hfree
    | none =>
        by_cases hr : fs.Reliable
        · rw [(h.full hr rfl).1]
          exact .refl hd
        · refine .imp hr ?_
          rcases h.failed rfl with hleak | ⟨new, hvalid, hfree, hview⟩
          · exact (Disk.quiet_leak hd hleak).weaken _
          · rw [hview]
            exact Disk.quiet_grow hd hx hchain hvalid hfree
  found c' offset heq := by
    cases result with
    | none => cases heq
    | some new =>
        cases heq
        obtain ⟨hvalid, hfree, hview⟩ := h.grown c' rfl
        obtain ⟨_, _, hchain'⟩ := hd.grow hx hchain hvalid hfree
        have hne : ∀ e ∈ pre ++ [c], e ≠ c' := by
          rintro e he rfl
          exact hd.not_owned hfree ⟨x, .directory hx, hchain ▸ he⟩
        have hshape : (view fs).SameShape (((view fs).alloc c').setFat c c') := ⟨rfl, rfl, rfl⟩
        have hslots : (((view fs).alloc c').setFat c c').dirSlots (pre ++ [c]) =
            (view fs).slotsIn x := by
          rw [Disk.slotsIn, hchain]
          exact hshape.dirSlots_eq fun e he => Disk.data_alloc_of_ne (hne e he)
        rw [hview, takenSlots_all htaken]
        refine ⟨pre ++ [c], [], 0, by rw [hchain']; simp, rfl, Nat.lt_of_lt_of_le Nat.zero_lt_two hm.two_le_slots, ?_, htaken, .inl ?_⟩
        · rw [Disk.slotsBefore, hslots]
          simp [clusterSlots]
        · rw [Disk.data_setFat, Disk.data_alloc_same]
  full hr hnone := by
    cases result with
    | some new => cases hnone
    | none => exact h.full hr rfl
  counted := h.counted

theorem findFreeDirectoryEntryLoop_searched {fs₀ : FAT32FileSystem} (hm : Mounted fs₀)
    (hd : (view fs₀).WellFormedOn held D) {x : Nat} (hx : D x) {fuelExtend : Nat}
    (hextend : fs₀.totalClusters < fuelExtend) :
    ∀ (post : List Nat) {m : Nat} {pre : List Nat} {c fuel : Nat},
      (view fs₀).chain x = pre ++ c :: post →
      (∀ s ∈ (view fs₀).dirSlots pre, s.kind ≠ .endMark ∧ s.kind ≠ .deleted) →
      post.length < fuel →
      ∃ result fs', findFreeDirectoryEntryLoop fuelExtend x fuel (fs₀.served m) c =
        some (result, fs') ∧ Searched fs₀ held D x result fs' := by
  intro post m pre c fuel hchain htaken hfuel
  obtain ⟨fuel, rfl⟩ : ∃ n, fuel = n + 1 := ⟨fuel - 1, by omega⟩
  have hown := hd.chain (.directory hx)
  have hc : (view fs₀).Valid c := hown.2.valid (by rw [hchain]; simp)
  rw [findFreeDirectoryEntryLoop_succ, if_neg (Nat.not_lt.mpr hc.1)]
  simp only [FAT32FileSystem.served_served, FAT32FileSystem.clusterData_served, slotCount_served,
    FAT32FileSystem.fatValue_served]
  rw [← data_view hc, slotCount_view, ← fat_view hc]
  cases h₀ : (fs₀.served m).fault 0 with
  | true => exact ⟨none, _, rfl, .fails hd h₀⟩
  | false =>
  simp only [Bool.false_eq_true, if_false]
  cases hfree : freeSlot ((view fs₀).data c) 0 (view fs₀).slots with
  | some i => exact ⟨_, _, rfl, .here hd hchain htaken hfree⟩
  | none =>
  have htaken' : ∀ s ∈ (view fs₀).dirSlots (pre ++ [c]), s.kind ≠ .endMark ∧ s.kind ≠ .deleted := by
    intro s hs
    rw [Disk.dirSlots, List.flatMap_append] at hs
    rcases List.mem_append.mp hs with hs | hs
    · exact htaken s hs
    · rw [List.flatMap_singleton] at hs
      exact clusterSlots_taken (freeSlot_none hfree) s hs
  cases h₁ : (fs₀.served m).fault 1 with
  | true => exact ⟨none, _, rfl, .fails hd h₁⟩
  | false =>
  simp only [Bool.false_eq_true, if_false]
  cases post with
  | nil =>
      have hend : isEndOfChain ((view fs₀).fat c) = true := by
        have hlast := hown.2
        rw [hchain] at hlast
        exact Chains.Chain.stop_last hlast
      have hsame := sameVolume_served fs₀ (m + 2)
      obtain ⟨result, fs', hcall, hextended⟩ := extendClusterChain_extended
        (hsame.mounted hm)
        (show (view fs₀).Chain x (pre ++ [c]) from hchain ▸ hown.2) hextend
      rw [if_pos hend, hcall, Option.map_some]
      refine ⟨_, _, rfl, .extend hm hd hx hchain (by rw [Disk.slotsIn, hchain]; exact htaken')
        ⟨hsame.trans hextended.same, hextended.grown, hextended.failed,
          fun hr => hextended.full (hsame.reliable hr),
          fun hr hc => hextended.counted (hsame.reliable hr) ⟨hc.memory, hc.stored⟩⟩⟩
  | cons next post =>
      have hlink : (view fs₀).fat c = next := by
        have hlast := hown.2
        rw [hchain] at hlast
        exact Chains.Chain.link hlast
      have hnext : (view fs₀).Valid next := hown.2.valid (by rw [hchain]; simp)
      rw [hlink, if_neg (hm.unmarked.not_ends hnext)]
      exact findFreeDirectoryEntryLoop_searched hm hd hx hextend post
        (by rw [hchain]; simp) htaken' (by simpa using hfuel)

theorem findFreeDirectoryEntry_searched {fs : FAT32FileSystem} (hm : Mounted fs)
    (hd : (view fs).WellFormedOn held D) {x fuel : Nat} (hx : D x) (hfuel : fs.totalClusters < fuel) :
    ∃ result fs', findFreeDirectoryEntry fs fuel x = some (result, fs') ∧
      Searched fs held D x result fs' := by
  obtain ⟨hvalid, hchain⟩ := hd.chain (.directory hx)
  have hlength := hchain.length_le hm.unmarked
  obtain ⟨post, heq, _⟩ := hchain.eq_cons hm.unmarked hvalid
  rw [heq] at hlength
  have hsplit : (view fs).chain x = [] ++ x :: post := heq
  have hlt : post.length < fuel := Nat.lt_of_lt_of_le hlength (Nat.le_of_lt hfuel)
  have h := findFreeDirectoryEntryLoop_searched hm hd hx hfuel post (m := 0) hsplit
    (by simp [Disk.dirSlots]) hlt
  exact h

end

end Avery.Fat32
