import Avery.Fs.View

/-!
# Allocating and freeing clusters

`allocateCluster`, `freeClusterChain`, `extendClusterChain` and
`getClusterForOffset`, in terms of the view.  Where a request may fail the outcome
is one of the states that the writes pass through.  On a device that never fails
every call has one outcome, and the count of free clusters stays exact (`Counted`).
-/

namespace Avery.Fat32

/-- The count of free clusters is right, in memory and in the FSInfo sector. -/
structure Counted (fs : FAT32FileSystem) : Prop where
  memory : fs.fsInfo.freeClusterCount = (view fs).freeCount
  stored : fs.bpb.fsInfoSector ≠ 0 → storedCount fs = (view fs).freeCount

/-- A cluster has been marked as used and belongs to no chain. -/
inductive Leak (d : Disk) : Disk → Prop
  | none : Leak d d
  | marked {c : Nat} : d.Valid c → d.fat c = 0 → Leak d (d.setFat c 0x0FFFFFFF)
  | zeroed {c : Nat} : d.Valid c → d.fat c = 0 → Leak d (d.alloc c)

/-! ## allocateCluster -/

structure Allocated (fs : FAT32FileSystem) (result : Option Nat) (fs' : FAT32FileSystem) : Prop where
  same : SameVolume fs fs'
  taken : ∀ c, result = some c →
    (view fs).Valid c ∧ (view fs).fat c = 0 ∧ view fs' = (view fs).alloc c
  leak : result = none → Leak (view fs) (view fs')
  full : fs.Reliable → result = none →
    view fs' = view fs ∧ ∀ c, (view fs).Valid c → (view fs).fat c ≠ 0
  counted : fs.Reliable → Counted fs → Counted fs'

theorem freeCount_lt {fs : FAT32FileSystem} (hm : Mounted fs) : (view fs).freeCount < 0xFFFFFFFF :=
  Nat.lt_of_le_of_lt (Nat.le_trans Disk.freeCount_le hm.unmarked) (by decide)

theorem Synced.counted {fs fs' : FAT32FileSystem} {count : Nat} (h : Synced fs count fs')
    (hm : Mounted fs) (hreliable : fs.Reliable) (hcount : count = (Fat32.view fs).freeCount) :
    Counted fs' := by
  have hlt := freeCount_lt hm
  refine ⟨?_, fun hsector => ?_⟩
  · rw [h.memory, h.view, hcount]
  · rw [h.same.bpb] at hsector
    rw [h.stored hreliable hsector (by omega), h.view, hcount]

theorem takeCluster_allocated {fs : FAT32FileSystem} (hm : Mounted fs) {c : Nat}
    (hc : (view fs).Valid c) (hfree : (view fs).fat c = 0) :
    ∃ result fs', takeCluster fs c = (result, fs') ∧ Allocated fs result fs' ∧
      (fs.Reliable → result = some c) := by
  unfold takeCluster
  obtain ⟨ok₁, fs₁, h₁, hwrote₁⟩ := writeFATEntry_wrote hm hc (v := 0x0FFFFFFF) (by decide)
  rw [h₁]
  cases ok₁ with
  | false =>
      have hunreliable : ¬ fs.Reliable := fun h => Bool.noConfusion (hwrote₁.reliable h)
      refine ⟨none, fs₁, rfl, ⟨hwrote₁.same, fun _ h => (nomatch h), fun _ => ?_,
        fun h => absurd h hunreliable, fun h => absurd h hunreliable⟩,
        fun h => absurd h hunreliable⟩
      rcases hwrote₁.view with h | ⟨_, h⟩
      · rw [h]
        exact .marked hc hfree
      · rw [h]
        exact .none
  | true =>
      have hview₁ := hwrote₁.view_eq
      have hm₁ := hwrote₁.same.mounted hm
      have hc₁ : (view fs₁).Valid c := by rw [hview₁]; exact hc
      simp only [zeroCluster]
      obtain ⟨ok₂, fs₂, h₂, hwrote₂, hfalse₂⟩ := writeCluster_wrote hm₁ hc₁ fun _ => 0
      rw [h₂]
      have hsame₂ := hwrote₁.same.trans hwrote₂.same
      cases ok₂ with
      | false =>
          have hunreliable : ¬ fs.Reliable :=
            fun h => Bool.noConfusion (hwrote₂.reliable (hwrote₁.same.reliable h))
          have hview₂ := hfalse₂ rfl
          have hm₂ := hsame₂.mounted hm
          have hc₂ : (view fs₂).Valid c := by rw [hview₂]; exact hc₁
          obtain ⟨ok₃, fs₃, h₃, hwrote₃⟩ := writeFATEntry_wrote hm₂ hc₂ (v := freeCluster) (by decide)
          refine ⟨none, fs₃, by simp only [h₃], ⟨hsame₂.trans hwrote₃.same, fun _ h => (nomatch h),
            fun _ => ?_, fun h => absurd h hunreliable, fun h => absurd h hunreliable⟩,
            fun h => absurd h hunreliable⟩
          rcases hwrote₃.view with h | ⟨_, h⟩
          · rw [h, hview₂, hview₁, Disk.setFat_setFat, freeCluster, Disk.setFat_self hfree]
            exact .none
          · rw [h, hview₂, hview₁]
            exact .marked hc hfree
      | true =>
          have hview₂ : view fs₂ = (view fs).alloc c := by
            rw [hwrote₂.view_eq, hview₁]
            rfl
          have hsync := fun info => syncFSInfo_synced (hsame₂.mounted hm) info
          refine ⟨some c, _, rfl, ⟨hsame₂.trans (hsync _).same, fun c' h => ?_,
            fun h => (nomatch h), fun _ h => (nomatch h), fun hreliable hcounted => ?_⟩, fun _ => rfl⟩
          · cases h
            exact ⟨hc, hfree, (hsync _).view.trans hview₂⟩
          · have hfreeCount := Disk.freeCount_alloc hc hfree
            have hlt := freeCount_lt hm
            refine (hsync _).counted (hsame₂.mounted hm) (hsame₂.reliable hreliable) ?_
            have hinfo : fs₂.fsInfo = fs.fsInfo := hwrote₂.fsInfo.trans hwrote₁.fsInfo
            simp only [hinfo, hcounted.memory, hview₂]
            rw [if_pos (by omega)]
            omega

/-- The loop of `allocateCluster` tries the clusters from the hint on, around the end
of the volume. -/
theorem allocateClusterLoop_allocated {fs : FAT32FileSystem} (hm : Mounted fs) {start : Nat}
    (hstart : 2 ≤ start ∧ start < fs.totalClusters + 2) {n i : Nat}
    (hcount : i + n = fs.totalClusters) :
    ∃ result fs', allocateClusterLoop start fs i n = (result, fs') ∧ SameVolume fs fs' ∧
      (∀ c, result = some c →
        (view fs).Valid c ∧ (view fs).fat c = 0 ∧ view fs' = (view fs).alloc c) ∧
      (result = none → Leak (view fs) (view fs')) ∧
      (fs.Reliable → result = none → view fs' = view fs ∧
        ∀ j, i ≤ j → j < fs.totalClusters →
          (view fs).fat (2 + (start - 2 + j) % fs.totalClusters) ≠ 0) ∧
      (fs.Reliable → Counted fs → Counted fs') := by
  induction n generalizing fs i with
  | zero =>
      exact ⟨none, fs, rfl, .refl fs, fun _ h => (nomatch h), fun _ => .none,
        fun _ _ => ⟨rfl, fun j h₁ h₂ => by omega⟩, fun _ h => h⟩
  | succ n ih =>
      have hmarks := hm.consistent.marks
      have hwrap : add32 (start - 2) i = start - 2 + i := Words.add_eq (by omega)
      rw [allocateClusterLoop]
      simp only [hwrap]
      have hmod : (start - 2 + i) % fs.totalClusters < fs.totalClusters := Nat.mod_lt _ (by omega)
      have hc : (view fs).Valid (2 + (start - 2 + i) % fs.totalClusters) :=
        ⟨by omega, by change _ < fs.totalClusters + 2; omega⟩
      rw [readFATEntry_view hc]
      cases h₀ : fs.fault 0 with
      | true =>
          have hunreliable : ¬ fs.Reliable := fun h => Bool.noConfusion ((h 0).symm.trans h₀)
          exact ⟨none, _, rfl, sameVolume_served fs 1, fun _ h => (nomatch h), fun _ => .none,
            fun h => absurd h hunreliable, fun h => absurd h hunreliable⟩
      | false =>
          simp only [Bool.false_eq_true, if_false]
          have hsame := sameVolume_served fs 1
          split
          · next hused =>
            obtain ⟨result, fs', hloop, hsame', htaken, hleak, hfull, hcounted⟩ :=
              ih (hsame.mounted hm) (i := i + 1) hstart (by
                change i + 1 + n = fs.totalClusters
                omega)
            refine ⟨result, fs', hloop, hsame.trans hsame', htaken, hleak, fun hr hnone => ?_,
              fun hr h => hcounted (hsame.reliable hr) ⟨h.memory, h.stored⟩⟩
            obtain ⟨hview, hrest⟩ := hfull (hsame.reliable hr) hnone
            refine ⟨hview, fun j hij hj => ?_⟩
            rcases Nat.eq_or_lt_of_le hij with rfl | hlt
            · exact hused
            · exact hrest j hlt hj
          · next hfree =>
            simp only [ne_eq, not_not] at hfree
            obtain ⟨result, fs', htake, hallocated, hsome⟩ :=
              takeCluster_allocated (hsame.mounted hm) hc hfree
            refine ⟨result, fs', htake, hsame.trans hallocated.same, hallocated.taken,
              hallocated.leak, fun hr hnone => ?_,
              fun hr h => hallocated.counted (hsame.reliable hr) ⟨h.memory, h.stored⟩⟩
            rw [hsome (hsame.reliable hr)] at hnone
            cases hnone

theorem allocateCluster_allocated {fs : FAT32FileSystem} (hm : Mounted fs) :
    ∃ result fs', allocateCluster fs = (result, fs') ∧ Allocated fs result fs' := by
  unfold allocateCluster
  have hmarks := hm.consistent.marks
  have hpos := hm.accepted.someCluster
  have hwrap : add32 fs.totalClusters 2 = fs.totalClusters + 2 := Words.add_eq (by omega)
  simp only [hwrap]
  generalize hstart : (if 2 ≤ fs.fsInfo.nextFreeCluster ∧
    fs.fsInfo.nextFreeCluster < fs.totalClusters + 2 then fs.fsInfo.nextFreeCluster else 2) = start
  have hrange : 2 ≤ start ∧ start < fs.totalClusters + 2 := by
    rw [← hstart]
    split <;> omega
  obtain ⟨result, fs', hloop, hsame, htaken, hleak, hfull, hcounted⟩ :=
    allocateClusterLoop_allocated hm hrange (i := 0) (Nat.zero_add _)
  refine ⟨result, fs', hloop, hsame, htaken, hleak, fun hr hnone => ?_, hcounted⟩
  obtain ⟨hview, hused⟩ := hfull hr hnone
  refine ⟨hview, fun c hc => ?_⟩
  obtain ⟨j, hj, heq⟩ := exists_round hrange hc
  exact heq ▸ hused j (Nat.zero_le j) hj

/-! ## freeClusterChain -/

/-- The first clusters of a chain have been freed, all of them if the call succeeded. -/
structure Freed (fs : FAT32FileSystem) (xs : List Nat) (ok : Bool) (fs' : FAT32FileSystem) :
    Prop where
  same : SameVolume fs fs'
  freed : ∃ ys, ys <+: xs ∧ view fs' = (view fs).freeAll ys ∧ (ok = true → ys = xs)
  reliable : fs.Reliable → ok = true
  counted : fs.Reliable → fs.fsInfo.freeClusterCount = (view fs).freeCount → Counted fs'

theorem freeClusterChainLoop_freed {xs : List Nat} {fs : FAT32FileSystem} (hm : Mounted fs)
    {c fuel : Nat} (hchain : (view fs).Chain c xs) (hfuel : xs.length < fuel) :
    ∃ ok fs', freeClusterChainLoop fuel fs c = some (ok, fs') ∧ Freed fs xs ok fs' := by
  induction xs generalizing fs c fuel with
  | nil =>
      obtain ⟨fuel, rfl⟩ : ∃ n, fuel = n + 1 := ⟨fuel - 1, by omega⟩
      have hsync := syncFSInfo_synced hm fs.fsInfo
      have hend : isEndOfChain c = true := hchain
      refine ⟨true, _, by simp [freeClusterChainLoop, hend], hsync.same,
        ⟨[], List.nil_prefix, ?_, fun _ => rfl⟩, fun _ => rfl, fun hr hcount => ?_⟩
      · rw [Disk.freeAll_nil]
        exact hsync.view
      · exact hsync.counted hm hr hcount
  | cons x xs ih =>
      obtain ⟨fuel, rfl⟩ : ∃ n, fuel = n + 1 := ⟨fuel - 1, by simp at hfuel; omega⟩
      have hnodup := hchain.nodup hm.unmarked
      have hfree := hchain.fat_ne_free (List.mem_cons_self ..)
      have hbad := hchain.fat_ne_bad hm.unmarked (List.mem_cons_self ..)
      obtain ⟨rfl, hvalid, hrest⟩ := hchain
      rw [freeClusterChainLoop, if_neg (by simp [hvalid.1, hm.unmarked.not_ends hvalid]),
        readFATEntry_view hvalid]
      cases h₀ : fs.fault 0 with
      | true =>
          have hunreliable : ¬ fs.Reliable := fun h => Bool.noConfusion ((h 0).symm.trans h₀)
          exact ⟨false, _, rfl, sameVolume_served fs 1,
            ⟨[], List.nil_prefix, by simp, fun h => Bool.noConfusion h⟩,
            fun h => absurd h hunreliable, fun h => absurd h hunreliable⟩
      | false =>
          simp only [Bool.false_eq_true, if_false]
          have hsame₀ := sameVolume_served fs 1
          obtain ⟨ok, fs₁, h₁, hwrote⟩ := writeFATEntry_wrote (hsame₀.mounted hm) (c := x) hvalid
            (v := freeCluster) (by decide)
          have hsame₁ := hsame₀.trans hwrote.same
          rw [h₁]
          cases ok with
          | false =>
              have hunreliable : ¬ fs.Reliable :=
                fun h => Bool.noConfusion (hwrote.reliable (hsame₀.reliable h))
              refine ⟨false, _, rfl, hsame₁, ?_, fun h => absurd h hunreliable,
                fun h => absurd h hunreliable⟩
              rcases hwrote.view with hview | ⟨_, hview⟩
              · refine ⟨[x], by simp, ?_, fun h => Bool.noConfusion h⟩
                rw [hview, ← Disk.freeAll_cons, Disk.freeAll_nil]
                rfl
              · exact ⟨[], List.nil_prefix, by simp [hview], fun h => Bool.noConfusion h⟩
          | true =>
              have hview : view fs₁ = (view fs).setFat x 0 := hwrote.view_eq
              generalize hcount : (if fs₁.fsInfo.freeClusterCount ≠ 0xFFFFFFFF then
                fs₁.fsInfo.freeClusterCount + 1 else fs₁.fsInfo.freeClusterCount) = count
              have hsame₂ : SameVolume fs { fs₁ with fsInfo :=
                  { fs₁.fsInfo with freeClusterCount := count } } :=
                hsame₁.trans ⟨rfl, rfl, rfl, rfl, rfl, id⟩
              have hchain' : (view { fs₁ with fsInfo :=
                  { fs₁.fsInfo with freeClusterCount := count } }).Chain ((view fs).fat x) xs := by
                have hmem := (List.nodup_cons.mp hnodup).1
                exact hview ▸ Disk.Chain.setFat hrest hmem
              obtain ⟨ok, fs', hloop, hfreed⟩ :=
                ih (hsame₂.mounted hm) hchain' (by simpa using hfuel)
              obtain ⟨ys, hprefix, hview', hys⟩ := hfreed.freed
              refine ⟨ok, fs', ?_, hsame₂.trans hfreed.same,
                ⟨x :: ys, List.prefix_cons_inj x |>.mpr hprefix, ?_, fun h => by rw [hys h]⟩,
                fun h => hfreed.reliable (hsame₂.reliable h), fun hr hexact => ?_⟩
              · simp only [hcount]
                rw [if_neg (by simp [hbad, hfree])]
                exact hloop
              · rw [hview', ← Disk.freeAll_cons, ← hview]
                rfl
              · refine hfreed.counted (hsame₂.reliable hr) ?_
                change count = (view fs₁).freeCount
                have hlt := freeCount_lt hm
                have hinfo : fs₁.fsInfo = fs.fsInfo := hwrote.fsInfo
                rw [hview, Disk.freeCount_free hvalid hfree, ← hcount, hinfo, hexact,
                  if_pos (by omega)]

theorem freeClusterChain_freed {fs : FAT32FileSystem} (hm : Mounted fs) {c fuel : Nat}
    {xs : List Nat} (hc : (view fs).Valid c) (hchain : (view fs).Chain c xs)
    (hfuel : fs.totalClusters < fuel) :
    ∃ ok fs', freeClusterChain fs fuel c = some (ok, fs') ∧ Freed fs xs ok fs' := by
  unfold freeClusterChain
  rw [if_neg (Nat.not_lt.mpr hc.1)]
  exact freeClusterChainLoop_freed hm hchain
    (Nat.lt_of_le_of_lt (hchain.length_le hm.unmarked) hfuel)

/-! ## extendClusterChain -/

theorem lastClusterLoop_last {ys : List Nat} {fs : FAT32FileSystem} (hm : Mounted fs)
    {c e fuel : Nat} (hchain : (view fs).Chain c (ys ++ [e])) (hfuel : ys.length < fuel) :
    ∃ result n, lastClusterLoop fuel fs c = some (result, fs.served n) ∧
      (∀ last, result = some last → last = e) ∧ (fs.Reliable → result = some e) := by
  induction ys generalizing fs c fuel with
  | nil =>
      obtain ⟨fuel, rfl⟩ : ∃ n, fuel = n + 1 := ⟨fuel - 1, by omega⟩
      obtain ⟨rfl, hvalid, hend⟩ := hchain
      rw [lastClusterLoop, readFATEntry_view hvalid]
      cases h₀ : fs.fault 0 with
      | true => exact ⟨none, 1, rfl, fun _ h => (nomatch h),
          fun h => Bool.noConfusion ((h 0).symm.trans h₀)⟩
      | false =>
          have hend : isEndOfChain ((view fs).fat e) = true := hend
          refine ⟨some e, 1, by simp [hend], fun last h => (Option.some.inj h).symm, fun _ => rfl⟩
  | cons y ys ih =>
      obtain ⟨fuel, rfl⟩ : ∃ n, fuel = n + 1 := ⟨fuel - 1, by simp at hfuel; omega⟩
      have hbad := hchain.fat_ne_bad hm.unmarked (List.mem_cons_self ..)
      have hfree := hchain.fat_ne_free (List.mem_cons_self ..)
      obtain ⟨rfl, hvalid, hrest⟩ := hchain
      rw [lastClusterLoop, readFATEntry_view hvalid]
      cases h₀ : fs.fault 0 with
      | true => exact ⟨none, 1, rfl, fun _ h => (nomatch h),
          fun h => Bool.noConfusion ((h 0).symm.trans h₀)⟩
      | false =>
          have hsame := sameVolume_served fs 1
          have hnext : (view fs).Valid ((view fs).fat y) :=
            Disk.Chain.valid_head hrest (by simp)
          obtain ⟨result, n, hloop, hlast, hreliable⟩ :=
            ih (hsame.mounted hm) hrest (by simpa using hfuel)
          refine ⟨result, 1 + n, ?_, hlast, fun h => hreliable (hsame.reliable h)⟩
          simp only [Bool.false_eq_true, if_false]
          rw [if_neg (by simpa using hm.unmarked.not_ends hnext), if_neg (by simp [hbad, hfree]),
            hloop, FAT32FileSystem.served_served]

/-- The chain has grown by one cluster, or a cluster has leaked, or nothing has
happened. -/
structure Extended (fs : FAT32FileSystem) (last : Nat) (result : Option Nat)
    (fs' : FAT32FileSystem) : Prop where
  same : SameVolume fs fs'
  grown : ∀ c, result = some c → (view fs).Valid c ∧ (view fs).fat c = 0 ∧
    view fs' = ((view fs).alloc c).setFat last c
  failed : result = none → Leak (view fs) (view fs') ∨
    ∃ c, (view fs).Valid c ∧ (view fs).fat c = 0 ∧
      view fs' = ((view fs).alloc c).setFat last c
  full : fs.Reliable → result = none →
    view fs' = view fs ∧ ∀ c, (view fs).Valid c → (view fs).fat c ≠ 0
  counted : fs.Reliable → Counted fs → Counted fs'

theorem Wrote.counted {fs fs' : FAT32FileSystem} {d : Disk} {ok : Bool} (hm : Mounted fs)
    (h : Wrote fs d ok fs') (hcount : d.freeCount = (Fat32.view fs).freeCount)
    (hcounted : Counted fs) : Counted fs' := by
  have hview : (Fat32.view fs').freeCount = (Fat32.view fs).freeCount := by
    rcases h.view with hview | ⟨_, hview⟩
    · rw [hview, hcount]
    · rw [hview]
  refine ⟨?_, fun hsector => ?_⟩
  · rw [h.fsInfo, hview, hcounted.memory]
  · rw [h.same.bpb] at hsector
    rw [h.storedCount hm hsector, hview, hcounted.stored hsector]

theorem extendClusterChain_extended {fs : FAT32FileSystem} (hm : Mounted fs) {start e fuel : Nat}
    {ys : List Nat} (hchain : (view fs).Chain start (ys ++ [e]))
    (hfuel : fs.totalClusters < fuel) :
    ∃ result fs', extendClusterChain fs fuel start = some (result, fs') ∧
      Extended fs e result fs' := by
  have hvalid := hchain.valid_head (by simp)
  have hlength := hchain.length_le hm.unmarked
  rw [List.length_append] at hlength
  have hlong : ys.length < fuel := by
    change ys.length + 1 ≤ fs.totalClusters at hlength
    omega
  obtain ⟨last, n, hloop, hlast, hreliable⟩ := lastClusterLoop_last hm hchain hlong
  unfold extendClusterChain
  rw [if_neg (Nat.not_lt.mpr hvalid.1), hloop]
  simp only [Option.bind_eq_bind, Option.bind_some]
  have hsame := sameVolume_served fs n
  cases last with
  | none =>
      have hunreliable : ¬ fs.Reliable := fun h => nomatch hreliable h
      exact ⟨none, _, rfl, hsame, fun _ h => (nomatch h), fun _ => .inl .none,
        fun h => absurd h hunreliable, fun h => absurd h hunreliable⟩
  | some last =>
      cases hlast last rfl
      obtain ⟨result, fs₁, halloc, hallocated⟩ := allocateCluster_allocated (hsame.mounted hm)
      have hsame₁ := hsame.trans hallocated.same
      simp only [halloc]
      cases result with
      | none =>
          exact ⟨none, fs₁, rfl, hsame₁, fun _ h => (nomatch h),
            fun _ => .inl (hallocated.leak rfl), fun h => hallocated.full (hsame.reliable h),
            fun h hc => hallocated.counted (hsame.reliable h) ⟨hc.memory, hc.stored⟩⟩
      | some c =>
          obtain ⟨hc, hfree, hview₁⟩ := hallocated.taken c rfl
          have hm₁ := hsame₁.mounted hm
          have hlast₁ : (view fs₁).Valid e := by
            rw [hview₁]
            exact hchain.valid (List.mem_append_right _ (List.mem_singleton_self _))
          have hsmall : c < 2 ^ 28 := by
            have hmarks := hm.consistent.marks
            have hlt : c < fs.totalClusters + 2 := hc.2
            omega
          obtain ⟨ok, fs₂, hwrite, hwrote⟩ := writeFATEntry_wrote hm₁ hlast₁ hsmall
          have hsame₂ := hsame₁.trans hwrote.same
          have hused : (view fs).fat e ≠ 0 := hchain.fat_ne_free (by simp)
          have hne : e ≠ c := by
            rintro rfl
            exact hused hfree
          have hcount : ((view fs₁).setFat e c).freeCount = (view fs₁).freeCount := by
            refine Disk.freeCount_link ?_ ?_
            · rw [hview₁, Disk.fat_alloc_of_ne hne]
              exact hused
            · have hlow := hc.1
              omega
          have hcounted : fs.Reliable → Counted fs → Counted fs₂ := fun hr hc =>
            hwrote.counted hm₁ hcount
              (hallocated.counted (hsame.reliable hr) ⟨hc.memory, hc.stored⟩)
          simp only [hwrite]
          cases ok with
          | true =>
              have hview₂ := hwrote.view_eq
              rw [hview₁] at hview₂
              refine ⟨some c, fs₂, rfl, hsame₂, fun c' h => ?_, fun h => (nomatch h),
                fun _ h => (nomatch h), hcounted⟩
              cases h
              exact ⟨hc, hfree, hview₂⟩
          | false =>
              have hunreliable : ¬ fs.Reliable :=
                fun h => Bool.noConfusion (hwrote.reliable (hsame₁.reliable h))
              refine ⟨none, fs₂, rfl, hsame₂, fun _ h => (nomatch h), fun _ => ?_,
                fun h => absurd h hunreliable, hcounted⟩
              rcases hwrote.view with hview | ⟨_, hview⟩
              · rw [hview₁] at hview
                exact .inr ⟨c, hc, hfree, hview⟩
              · rw [hview, hview₁]
                exact .inl (.zeroed hc hfree)

/-! ## getClusterForOffset -/

/-- The chain `zs` has grown to `zs'`, and then perhaps a cluster has leaked. -/
structure Sought (fs : FAT32FileSystem) (zs : List Nat) (index : Nat) (allocateIfMissing : Bool)
    (result : Option Nat) (fs' : FAT32FileSystem) (d : Disk) (zs' : List Nat) : Prop where
  same : SameVolume fs fs'
  grown : (view fs).Grown zs d zs'
  leak : Leak d (view fs')
  fixed : allocateIfMissing = false → d = view fs ∧ zs' = zs ∧ view fs' = view fs
  found : ∀ c, result = some c →
    view fs' = d ∧ zs'[index]? = some c ∧ zs'.length = max zs.length (index + 1)
  missing : fs.Reliable → result = none → view fs' = d ∧
    (allocateIfMissing = false ∧ zs.length ≤ index ∨
      allocateIfMissing = true ∧ zs'.length ≤ index ∧ ∀ c, d.Valid c → d.fat c ≠ 0)
  counted : fs.Reliable → Counted fs → Counted fs'

theorem Sought.of_served {fs fs' : FAT32FileSystem} {zs zs' : List Nat} {index n : Nat}
    {allocateIfMissing : Bool} {result : Option Nat} {d : Disk}
    (h : Sought (fs.served n) zs index allocateIfMissing result fs' d zs') :
    Sought fs zs index allocateIfMissing result fs' d zs' where
  same := (sameVolume_served fs n).trans h.same
  grown := h.grown
  leak := h.leak
  fixed := h.fixed
  found := h.found
  missing hr := h.missing ((sameVolume_served fs n).reliable hr)
  counted hr hc := h.counted ((sameVolume_served fs n).reliable hr) ⟨hc.memory, hc.stored⟩

theorem Sought.of_fault {fs : FAT32FileSystem} (h₀ : fs.fault 0 = true) (zs : List Nat)
    (index : Nat) (allocateIfMissing : Bool) :
    Sought fs zs index allocateIfMissing none (fs.served 1) (view fs) zs := by
  have hunreliable : ¬ fs.Reliable := fun h => Bool.noConfusion ((h 0).symm.trans h₀)
  exact ⟨sameVolume_served fs 1, .refl, .none, fun _ => ⟨rfl, rfl, rfl⟩, fun _ h => (nomatch h),
    fun h => absurd h hunreliable, fun h => absurd h hunreliable⟩

/-- No cluster could be added to a chain that ends before the index. -/
theorem Extended.sought_none {fs fs₁ : FAT32FileSystem} {c : Nat}
    (h : Extended fs c none fs₁) (pre : List Nat) (index : Nat) :
    ∃ d zs', Sought fs (pre ++ [c]) (pre.length + (index + 1)) true none fs₁ d zs' := by
  rcases h.failed rfl with hleak | ⟨x, hx, hxfree, hview⟩
  · refine ⟨_, _, h.same, .refl, hleak, fun h => Bool.noConfusion h, fun _ h => (nomatch h),
      fun hr _ => ?_, h.counted⟩
    obtain ⟨hview, hused⟩ := h.full hr rfl
    exact ⟨hview, .inr ⟨rfl, by simp, hused⟩⟩
  · refine ⟨_, _, h.same, .step .refl hx hxfree, hview ▸ .none, fun h => Bool.noConfusion h,
      fun _ h => (nomatch h), fun hr _ => ?_, h.counted⟩
    exact absurd hxfree ((h.full hr rfl).2 x hx)

/-- The search goes on in the chain that has grown by one cluster. -/
theorem Extended.sought_some {fs fs₁ fs' : FAT32FileSystem} {pre zs' : List Nat}
    {c x index : Nat} {result : Option Nat} {d : Disk} (h : Extended fs c (some x) fs₁)
    (hsought : Sought fs₁ (pre ++ [c] ++ [x]) ((pre ++ [c]).length + index) true result fs' d zs') :
    Sought fs (pre ++ [c]) (pre.length + (index + 1)) true result fs' d zs' := by
  obtain ⟨hx, hxfree, hview⟩ := h.grown x rfl
  have hgrown : (view fs).Grown (pre ++ [c]) (((view fs).alloc x).setFat c x) (pre ++ [c, x]) :=
    .step .refl hx hxfree
  rw [List.length_append, List.length_singleton, Nat.add_assoc, Nat.add_comm 1,
    List.append_assoc, List.singleton_append] at hsought
  refine ⟨h.same.trans hsought.same, hgrown.trans (hview ▸ hsought.grown), hsought.leak,
    fun h => Bool.noConfusion h, fun c' hfound => ?_, fun hr hnone => ?_,
    fun hr hc => hsought.counted (h.same.reliable hr) (h.counted hr hc)⟩
  · obtain ⟨hview', hget, hlength⟩ := hsought.found c' hfound
    refine ⟨hview', hget, ?_⟩
    rw [hlength]
    simp only [List.length_append, List.length_cons, List.length_nil]
    omega
  · obtain ⟨hview', hrest⟩ := hsought.missing (h.same.reliable hr) hnone
    exact ⟨hview', hrest.imp (fun h => Bool.noConfusion h.1) id⟩

theorem Extended.of_served {fs fs' : FAT32FileSystem} {last n : Nat} {result : Option Nat}
    (h : Extended (fs.served n) last result fs') : Extended fs last result fs' where
  same := (sameVolume_served fs n).trans h.same
  grown := h.grown
  failed := h.failed
  full hr := h.full ((sameVolume_served fs n).reliable hr)
  counted hr hc := h.counted ((sameVolume_served fs n).reliable hr) ⟨hc.memory, hc.stored⟩

theorem getClusterLoop_sought {fuel first : Nat} {allocateIfMissing : Bool} {index : Nat}
    {fs : FAT32FileSystem} (hm : Mounted fs) (hfuel : fs.totalClusters < fuel) {pre post : List Nat}
    {c : Nat} (hchain : (view fs).Chain first (pre ++ c :: post)) :
    ∃ result fs' d zs', getClusterLoop fuel first allocateIfMissing fs index c =
      some (result, fs') ∧
      Sought fs (pre ++ c :: post) (pre.length + index) allocateIfMissing result fs' d zs' := by
  induction index generalizing fs pre post c with
  | zero =>
      refine ⟨some c, fs, _, _, rfl, .refl fs, .refl, .none, fun _ => ⟨rfl, rfl, rfl⟩,
        fun c' h => ?_, fun _ h => (nomatch h), fun _ h => h⟩
      cases h
      exact ⟨rfl, by simp, by simp⟩
  | succ index ih =>
      have hc := hchain.valid (x := c) (by simp)
      have hfree := hchain.fat_ne_free (x := c) (by simp)
      have hbad := hchain.fat_ne_bad hm.unmarked (x := c) (by simp)
      rw [getClusterLoop, readFATEntry_view hc]
      cases h₀ : fs.fault 0 with
      | true =>
          exact ⟨none, _, _, _, rfl, .of_fault h₀ _ _ _⟩
      | false =>
          have hsame := sameVolume_served fs 1
          simp only [Bool.false_eq_true, if_false]
          cases post with
          | cons next post =>
              have hlink : (view fs).fat c = next := Chains.Chain.link hchain
              have hnext : (view fs).Valid next := hchain.valid (by simp)
              rw [if_neg (by rw [hlink]; exact hm.unmarked.not_ends hnext),
                if_neg (by simp [hbad, hfree]), hlink]
              have hrest : (view (fs.served 1)).Chain first ((pre ++ [c]) ++ next :: post) := by
                simpa using hchain
              obtain ⟨result, fs', d, zs', hloop, hsought⟩ := ih (hsame.mounted hm) hfuel hrest
              rw [List.length_append, List.length_singleton, Nat.add_assoc, Nat.add_comm 1,
                List.append_assoc, List.singleton_append] at hsought
              exact ⟨result, fs', d, zs', hloop, hsought.of_served⟩
          | nil =>
              have hend : isEndOfChain ((view fs).fat c) = true := Chains.Chain.stop_last hchain
              rw [if_pos hend]
              cases allocateIfMissing with
              | false =>
                  refine ⟨none, _, _, _, rfl, hsame, .refl, .none, fun _ => ⟨rfl, rfl, rfl⟩,
                    fun _ h => (nomatch h), fun _ _ => ⟨rfl, .inl ⟨rfl, ?_⟩⟩, fun _ h => ⟨h.1, h.2⟩⟩
                  simp
              | true =>
                  obtain ⟨new, fs₁, hextend, hserved⟩ :=
                    extendClusterChain_extended (hsame.mounted hm) hchain hfuel
                  have hextended := hserved.of_served
                  simp only [Bool.not_true, Bool.false_eq_true, if_false, hextend,
                    Option.bind_eq_bind, Option.bind_some]
                  cases new with
                  | none =>
                      obtain ⟨d, zs', hsought⟩ := hextended.sought_none pre index
                      exact ⟨none, fs₁, d, zs', rfl, hsought⟩
                  | some x =>
                      obtain ⟨hx, hxfree, hview⟩ := hextended.grown x rfl
                      have hchain₁ : (view fs₁).Chain first (pre ++ [c] ++ x :: []) := by
                        rw [List.append_assoc, List.singleton_append, hview]
                        exact (Disk.Grown.step .refl hx hxfree).chain hm.unmarked hchain
                      have hxgood : ¬ (x = freeCluster ∨ x = badCluster) := by
                        have hlow := hx.1
                        have hhigh : x < fs.totalClusters + 2 := hx.2
                        have hmarks := hm.consistent.marks
                        unfold freeCluster badCluster
                        omega
                      obtain ⟨result, fs', d, zs', hloop, hsought⟩ :=
                        ih (hextended.same.mounted hm)
                          (hextended.same.totalClusters ▸ hfuel) hchain₁
                      simp only [hxgood, if_false]
                      exact ⟨result, fs', d, zs', hloop, hextended.sought_some hsought⟩

theorem getClusterForOffset_sought {fs : FAT32FileSystem} (hm : Mounted fs)
    {fuel first : Nat} {xs : List Nat} (hfuel : fs.totalClusters < fuel)
    (hfirst : (view fs).Valid first) (hchain : (view fs).Chain first xs) (offset : Nat)
    (allocateIfMissing : Bool) :
    ∃ result fs' d xs', getClusterForOffset fs fuel first offset allocateIfMissing =
      some (result, fs') ∧
      Sought fs xs (offset / clusterSize fs) allocateIfMissing result fs' d xs' := by
  obtain ⟨ys, rfl, _⟩ := hchain.eq_cons hm.unmarked hfirst
  unfold getClusterForOffset
  rw [if_neg (Nat.not_lt.mpr hfirst.1)]
  have hwhole : (view fs).Chain first ([] ++ first :: ys) := hchain
  obtain ⟨result, fs', d, xs', hloop, hsought⟩ := getClusterLoop_sought hm hfuel hwhole
  rw [List.length_nil, Nat.zero_add] at hsought
  exact ⟨result, fs', d, xs', hloop, hsought⟩

end Avery.Fat32
