import Avery.Kernel.PhysicalCalls

/-!
# The order in which pages are found

`allocPages` scans the bitmap once and returns the lowest run of free pages
(`allocPages_first_fit`).  `allocPage` starts at the hint.  As long as no call
of `allocPages` moves the hint past free pages, no page below the hint is free,
so `allocPage` returns the lowest free page (`allocPage_lowest_first`).

Neither result needs the counters to be right, so the map may be of any size
and any free that the assertions let pass may have happened.
-/

namespace Avery.Pmm

open Transition (Run)

/-! ## Runs of pages -/

/-- The `count` pages from `start` on are all free. -/
def FreeRun (pm : PhysicalMemory) (start count : Nat) : Prop :=
  start + count ≤ pm.totalPages ∧
    ∀ p, start ≤ p → p < start + count → Bitmap.test pm.bitmap p = false

theorem FreeRun.subset {pm : PhysicalMemory} {start count : Nat} (h : FreeRun pm start count) :
    Finset.Ico start (start + count) ⊆ freeSet pm := by
  intro p hp
  obtain ⟨h₁, h₂⟩ := Finset.mem_Ico.mp hp
  exact mem_freeSet.mpr ⟨Nat.lt_of_lt_of_le h₂ h.1, h.2 p h₁ h₂⟩

/-- What the search knows at bit `i` about the runs it has left behind: the bit
before the current run is set, and no run of `count` bits ends at or before
`i`. -/
structure Scanned (bitmap : Nat → UInt8) (count i runLength : Nat) : Prop where
  within : runLength ≤ i
  left : runLength < i → Bitmap.test bitmap (i - runLength - 1) = true
  none : ∀ s, s + count ≤ i → ∃ k, s ≤ k ∧ k < s + count ∧ Bitmap.test bitmap k = true

theorem Scanned.start {bitmap : Nat → UInt8} {count : Nat} (hcount : 0 < count) :
    Scanned bitmap count 0 0 :=
  ⟨Nat.le_refl _, fun h => by omega, fun s h => by omega⟩

/-- A set bit ends the current run. -/
theorem Scanned.used {bitmap : Nat → UInt8} {count i runLength : Nat} (hcount : 0 < count)
    (h : Scanned bitmap count i runLength) (ht : Bitmap.test bitmap i = true) :
    Scanned bitmap count (i + 1) 0 := by
  refine ⟨Nat.zero_le _, fun _ => ht, fun s hs => ?_⟩
  by_cases hend : s + count ≤ i
  · exact h.none s hend
  · exact ⟨i, by omega, by omega, ht⟩

/-- A clear bit makes the current run longer; it is still too short, so a run
that ends here has the set bit before the current one inside. -/
theorem Scanned.free {bitmap : Nat → UInt8} {count i runLength : Nat}
    (h : Scanned bitmap count i runLength) (hshort : runLength + 1 < count) :
    Scanned bitmap count (i + 1) (runLength + 1) := by
  have hwithin := h.within
  refine ⟨by omega, fun hlt => ?_, fun s hs => ?_⟩
  · rw [show i + 1 - (runLength + 1) - 1 = i - runLength - 1 by omega]
    exact h.left (by omega)
  · by_cases hend : s + count ≤ i
    · exact h.none s hend
    · exact ⟨i - runLength - 1, by omega, by omega, h.left (by omega)⟩

/-- The search passes over no run: before the one it finds, and anywhere if it
finds none, every interval of `count` bits has a set bit. -/
theorem findRun_skips {bitmap : Nat → UInt8} {count : Nat} :
    ∀ {n i runStart runLength : Nat}, RunSoFar bitmap count i runStart runLength →
      Scanned bitmap count i runLength → ∀ s, s + count ≤ i + n →
      (∀ t, findRun bitmap count i runStart runLength n = some t → s < t) →
      ∃ k, s ≤ k ∧ k < s + count ∧ Bitmap.test bitmap k = true
  | 0, _, _, _, _, hscan, s, hs, _ => hscan.none s (by omega)
  | n + 1, i, runStart, runLength, inv, hscan, s, hs, hbefore => by
      have hshort := inv.short
      rw [findRun] at hbefore
      cases ht : Bitmap.test bitmap i with
      | true =>
          rw [if_pos ht] at hbefore
          exact findRun_skips inv.used (hscan.used (by omega) ht) s (by omega) hbefore
      | false =>
          rw [if_neg (by simp [ht])] at hbefore
          by_cases hdone : runLength + 1 = count
          · -- the run found ends at `i`
            rw [if_pos hdone] at hbefore
            have hlt := hbefore _ rfl
            have hstart := inv.start_add
            exact hscan.none s (by omega)
          · rw [if_neg hdone] at hbefore
            exact findRun_skips (inv.free ht hdone) (hscan.free (by omega)) s (by omega) hbefore

/-- `allocPages` takes the lowest run, or there is none and nothing changes. -/
theorem allocPages_shape (pm : PhysicalMemory) {count : Nat} (hcount : 0 < count) :
    (∃ start, FreeRun pm start count ∧ (∀ s < start, ¬ FreeRun pm s count) ∧
      allocPages pm count = (pageToPhysical start, takeRun pm start count)) ∨
    ((∀ s, ¬ FreeRun pm s count) ∧ allocPages pm count = (outOfMemory, pm)) := by
  have hscan : Scanned pm.bitmap count 0 0 := .start hcount
  have hskips := findRun_skips (n := pm.totalPages) (RunSoFar.begin hcount) hscan
  rw [allocPages, if_neg (by omega)]
  cases hr : findRun pm.bitmap count 0 0 0 pm.totalPages with
  | none =>
      refine Or.inr ⟨fun s hs => ?_, rfl⟩
      obtain ⟨k, h₁, h₂, ht⟩ := hskips s (by have := hs.1; omega) (by simp [hr])
      rw [hs.2 k h₁ h₂] at ht
      cases ht
  | some start =>
      obtain ⟨hle, hclear⟩ := findRun_some (RunSoFar.begin hcount) hr
      refine Or.inl ⟨start, ⟨by omega, hclear⟩, fun s hlt hs => ?_, rfl⟩
      obtain ⟨k, h₁, h₂, ht⟩ := hskips s (by have := hs.1; omega) (by simp [hr, hlt])
      rw [hs.2 k h₁ h₂] at ht
      cases ht

/-! ## Taking a run and giving it back -/

theorem releaseRun_freePages :
    ∀ (n p : Nat) {pm : PhysicalMemory}, pm.freePages < 2 ^ 64 →
      (releaseRun pm p n).freePages = add64 pm.freePages n
  | 0, _, pm, h => (Words.add_eq (show pm.freePages + 0 < 2 ^ 64 from h)).symm
  | n + 1, p, pm, h => by
      have hstep : (releasePage pm p).freePages = add64 pm.freePages 1 := rfl
      rw [releaseRun, releaseRun_freePages n (p + 1) (Words.add_lt _ _ _), hstep]
      unfold add64 Words.add
      omega

theorem releaseRun_usedPages :
    ∀ (n p : Nat) {pm : PhysicalMemory}, pm.usedPages < 2 ^ 64 →
      (releaseRun pm p n).usedPages = sub64 pm.usedPages n
  | 0, _, pm, h => (Words.sub_eq h (Nat.zero_le _)).symm
  | n + 1, p, pm, h => by
      have hstep : (releasePage pm p).usedPages = sub64 pm.usedPages 1 := rfl
      rw [releaseRun, releaseRun_usedPages n (p + 1) (Words.sub_lt _ _ _), hstep]
      unfold sub64 Words.sub
      omega

theorem test_takeRun (pm : PhysicalMemory) (start count p : Nat) :
    Bitmap.test (takeRun pm start count).bitmap p =
      (Bitmap.test pm.bitmap p || decide (start ≤ p ∧ p < start + count)) :=
  test_setRun _ _ _ _

/-- Releasing a run just taken restores the bitmap. -/
theorem bitmap_release_takeRun {pm : PhysicalMemory} {start count : Nat}
    (hrun : FreeRun pm start count) :
    (releaseRun (takeRun pm start count) start count).bitmap = pm.bitmap := by
  refine Bitmap.ext_test fun p => ?_
  rw [test_releaseRun, test_takeRun]
  by_cases hin : start ≤ p ∧ p < start + count
  · simp [hin, hrun.2 p hin.1 hin.2]
  · simp [hin]

/-- `allocPages` is exact first fit.  It fails, and changes nothing, exactly when
there is no run of `count` free pages.  Otherwise it takes the lowest one, and
`freePages` on what it returned undoes it. -/
theorem allocPages_first_fit {ram : Nat → UInt8} {entries : List MemmapEntry}
    {pm pm' : PhysicalMemory} {calls : List Call} {count : Nat}
    (hinit : init ram (some ⟨some entries⟩) = some pm) (hrun : Run Use pm calls pm')
    (hcount : 0 < count) :
    (allocPages pm' count = (outOfMemory, pm') ↔ ∀ s, ¬ FreeRun pm' s count) ∧
    (Bitmap.test pm'.bitmap 0 = true →
      ((allocPages pm' count).1 = outOfMemory ↔ ∀ s, ¬ FreeRun pm' s count)) ∧
    ∀ s, FreeRun pm' s count → (∀ s' < s, ¬ FreeRun pm' s' count) →
      (allocPages pm' count).1 = s * pageSize ∧
      (∀ p, Bitmap.test (allocPages pm' count).2.bitmap p =
        (Bitmap.test pm'.bitmap p || decide (s ≤ p ∧ p < s + count))) ∧
      (allocPages pm' count).2.freePages = sub64 pm'.freePages count ∧
      (allocPages pm' count).2.usedPages = add64 pm'.usedPages count ∧
      (Tallied pm' → (allocPages pm' count).2.freePages + count = pm'.freePages ∧
        (allocPages pm' count).2.usedPages = pm'.usedPages + count) ∧
      ∃ pm'', freePages (allocPages pm' count).2 (s * pageSize) count = some pm'' ∧
        pm''.bitmap = pm'.bitmap ∧ pm''.freePages = pm'.freePages ∧
        pm''.usedPages = pm'.usedPages := by
  have h := inRange_run hinit hrun
  rcases allocPages_shape pm' hcount with ⟨start, hfree, hleast, heq⟩ | ⟨hnone, heq⟩
  · have hlt := h.addressable
    have hbelow := hfree.1
    have haddr : pageToPhysical start = start * pageSize := pageToPhysical_eq (by omega)
    have hbit := hfree.2 start (Nat.le_refl _) (by omega)
    refine ⟨⟨fun hsame => ?_, fun hnone => absurd hfree (hnone start)⟩, fun hzero => ?_,
      fun s hs hsleast => ?_⟩
    · -- the bit of the first page taken is set afterwards
      rw [heq, Prod.mk.injEq] at hsame
      have htest := test_takeRun pm' start count start
      rw [hsame.2, hbit] at htest
      simp [hcount] at htest
    · have hne : start ≠ 0 := by
        rintro rfl
        rw [hzero] at hbit
        cases hbit
      rw [heq, haddr, outOfMemory]
      refine ⟨fun hout => ?_, fun hnone => absurd hfree (hnone start)⟩
      unfold pageSize at hout
      omega
    · have hstart : s = start := by
        rcases Nat.lt_trichotomy s start with hlow | hsame | hhigh
        · exact absurd hs (hleast s hlow)
        · exact hsame
        · exact absurd hfree (hsleast start hhigh)
      subst hstart
      rw [heq, haddr]
      refine ⟨rfl, test_takeRun pm' s count, rfl, rfl, fun htally => ?_, ?_⟩
      · exact htally.takeRun_counters hfree.subset
      · refine ⟨releaseRun (takeRun pm' s count) s count, ?_, bitmap_release_takeRun hfree, ?_, ?_⟩
        · rw [← haddr]
          refine freePages_eq hlt hbelow fun p h₁ h₂ => ?_
          rw [test_takeRun]
          simp [h₁, h₂]
        · have hf := h.free
          rw [releaseRun_freePages _ _ (Words.sub_lt _ _ _)]
          show add64 (sub64 pm'.freePages count) count = pm'.freePages
          unfold add64 sub64 Words.add Words.sub
          omega
        · have hu := h.used
          rw [releaseRun_usedPages _ _ (Words.add_lt _ _ _)]
          show sub64 (add64 pm'.usedPages count) count = pm'.usedPages
          unfold add64 sub64 Words.add Words.sub
          omega
  · rw [heq]
    exact ⟨⟨fun _ => hnone, fun _ => rfl⟩, fun _ => ⟨fun _ => hnone, fun _ => rfl⟩,
      fun s hs _ => absurd hs (hnone s)⟩

/-- Two pages of the small map: the lowest run starts behind the bitmap. -/
theorem allocPages_first_fit_smallMap : (allocPages smallMemory 2).1 = 2 * 4096 := by
  have hinit : init (fun _ => 0) (some ⟨some smallMap⟩) = some smallMemory := (Option.some_get _).symm
  have hrun : Run Use smallMemory [] smallMemory := .nil
  have hfree : FreeRun smallMemory 2 2 := by
    unfold FreeRun
    decide +kernel
  refine ((allocPages_first_fit hinit hrun (by decide)).2.2 2 hfree ?_).1
  unfold FreeRun
  decide +kernel

/-! ## Single pages -/

/-- No page below the hint is free. -/
def HintLowest (pm : PhysicalMemory) : Prop :=
  ∀ p < pm.lastAllocIndex, Bitmap.test pm.bitmap p = true

/-- The loop that starts over at page zero finds nothing. -/
theorem HintLowest.wrap_none {pm : PhysicalMemory} (h : HintLowest pm) :
    findClear pm.bitmap 0 pm.lastAllocIndex = none := by
  cases hf : findClear pm.bitmap 0 pm.lastAllocIndex with
  | none => rfl
  | some i =>
      obtain ⟨_, hlt, hclear, _⟩ := findClear_some hf
      rw [h i (by omega)] at hclear
      cases hclear

/-- `allocPage` takes the lowest free page. -/
theorem HintLowest.allocPage_shape {pm : PhysicalMemory} (h : HintLowest pm)
    (hhint : pm.lastAllocIndex ≤ pm.totalPages) :
    (∃ i, i < pm.totalPages ∧ Bitmap.test pm.bitmap i = false ∧
      (∀ p < i, Bitmap.test pm.bitmap p = true) ∧
      allocPage pm = (pageToPhysical i, takePage pm i)) ∨
    ((∀ p < pm.totalPages, Bitmap.test pm.bitmap p = true) ∧
      allocPage pm = (outOfMemory, pm)) := by
  unfold allocPage
  cases hf : findClear pm.bitmap pm.lastAllocIndex (pm.totalPages - pm.lastAllocIndex) with
  | some i =>
      obtain ⟨_, hlt, hclear, hall⟩ := findClear_some hf
      refine Or.inl ⟨i, by omega, hclear, fun p hp => ?_, rfl⟩
      by_cases hlow : p < pm.lastAllocIndex
      · exact h p hlow
      · exact hall p (by omega) hp
  | none =>
      rw [h.wrap_none]
      refine Or.inr ⟨fun p hp => ?_, rfl⟩
      by_cases hlow : p < pm.lastAllocIndex
      · exact h p hlow
      · exact findClear_none hf p (by omega) (by omega)

theorem HintLowest.release {pm : PhysicalMemory} (h : HintLowest pm) (page : Nat) :
    HintLowest (releasePage pm page) := by
  intro p hp
  have hlow : p < (if page < pm.lastAllocIndex then page else pm.lastAllocIndex) := hp
  refine test_releasePage_of_ne ?_ (h p ?_) <;> split at hlow <;> omega

theorem HintLowest.free_page {pm pm' : PhysicalMemory} {addr : Nat} (h : HintLowest pm)
    (hcall : freePage pm addr = some pm') : HintLowest pm' := by
  obtain ⟨_, _, _, rfl⟩ := freePage_eq_some.mp hcall
  exact h.release _

theorem HintLowest.use {pm pm' : PhysicalMemory} {a : Call} (h : HintLowest pm)
    (hrange : InRange pm) (huse : Use pm a pm') (hsingle : ∀ count, a ≠ .allocPages count) :
    HintLowest pm' := by
  cases huse with
  | allocPage =>
      rcases h.allocPage_shape hrange.hint with ⟨i, hlt, _, hlow, heq⟩ | ⟨_, heq⟩
      · rw [heq]
        have haddressable := hrange.addressable
        have hhint : (takePage pm i).lastAllocIndex = i + 1 := Words.add_eq (by omega)
        intro p hp
        rw [hhint] at hp
        show Bitmap.test (Bitmap.set pm.bitmap i) p = true
        rw [Bitmap.test_set, Bool.or_eq_true, decide_eq_true_eq]
        rcases Nat.eq_or_lt_of_le (Nat.le_of_lt_succ hp) with rfl | hp
        · exact Or.inr rfl
        · exact Or.inl (hlow p hp)
      · rw [heq]
        exact h
  | @allocPages count => exact absurd rfl (hsingle count)
  | freePage hcall => exact h.free_page hcall
  | freePages hcall => exact freePages_keeps HintLowest (fun _ _ _ _ h => h.free_page) hcall h

theorem hintLowest_init {ram : Nat → UInt8} {entries : List MemmapEntry} {pm : PhysicalMemory}
    (hinit : init ram (some ⟨some entries⟩) = some pm) : HintLowest pm := by
  simp only [init, Option.bind_eq_bind, Option.bind_some] at hinit
  split at hinit
  · cases hinit
  · rw [← Option.some.inj hinit]
    exact fun p hp => absurd hp (Nat.not_lt_zero p)

/-- Every state of a run without `allocPages` has the hint below all free
pages. -/
theorem hintLowest_run {ram : Nat → UInt8} {entries : List MemmapEntry} {pm pm' : PhysicalMemory}
    {calls : List Call} (hinit : init ram (some ⟨some entries⟩) = some pm)
    (hrun : Run (fun s a t => Use s a t ∧ ∀ count, a ≠ .allocPages count) pm calls pm') :
    HintLowest pm' ∧ InRange pm' := by
  have hstep : ∀ s a t, HintLowest s ∧ InRange s →
      (Use s a t ∧ ∀ count, a ≠ Call.allocPages count) → HintLowest t ∧ InRange t :=
    fun s a t h huse => ⟨h.1.use h.2 huse.1 huse.2, h.2.use huse.1⟩
  exact hrun.invariant hstep ⟨hintLowest_init hinit, inRange_init hinit⟩

theorem HintLowest.allocPage_eq {pm : PhysicalMemory} (h : HintLowest pm) (hrange : InRange pm)
    {i : Nat} (hlt : i < pm.totalPages) (hclear : Bitmap.test pm.bitmap i = false)
    (hlow : ∀ p < i, Bitmap.test pm.bitmap p = true) :
    allocPage pm = (i * pageSize, takePage pm i) := by
  have haddressable := hrange.addressable
  rcases h.allocPage_shape hrange.hint with ⟨j, hj, hjclear, hjlow, heq⟩ | ⟨hall, _⟩
  · have hij : j = i := by
      rcases Nat.lt_trichotomy i j with hlt | hsame | hgt
      · rw [hjlow i hlt] at hclear
        cases hclear
      · exact hsame.symm
      · rw [hlow j hgt] at hjclear
        cases hjclear
    subst hij
    rw [heq, pageToPhysical_eq (by omega)]
    rfl
  · rw [hall i hlt] at hclear
    cases hclear

/-- Without calls of `allocPages` every page below the hint is in use.  So the
second loop of `allocPage` finds nothing, `allocPage` returns the lowest free
page, and a page freed below all other free pages is returned next. -/
theorem allocPage_lowest_first {ram : Nat → UInt8} {entries : List MemmapEntry}
    {pm pm' : PhysicalMemory} {calls : List Call}
    (hinit : init ram (some ⟨some entries⟩) = some pm)
    (hrun : Run (fun s a t => Use s a t ∧ ∀ count, a ≠ .allocPages count) pm calls pm') :
    (∀ p < pm'.lastAllocIndex, Bitmap.test pm'.bitmap p = true) ∧
    findClear pm'.bitmap 0 pm'.lastAllocIndex = none ∧
    (∀ i < pm'.totalPages, Bitmap.test pm'.bitmap i = false →
      (∀ p < i, Bitmap.test pm'.bitmap p = true) →
      allocPage pm' = (i * pageSize, takePage pm' i)) ∧
    ((∀ p < pm'.totalPages, Bitmap.test pm'.bitmap p = true) →
      allocPage pm' = (outOfMemory, pm')) ∧
    ∀ addr pm'', freePage pm' addr = some pm'' → addr / pageSize < pm'.totalPages →
      (∀ p < pm'.totalPages, Bitmap.test pm'.bitmap p = false → addr / pageSize < p) →
      (allocPage pm'').1 = addr := by
  obtain ⟨h, hrange⟩ := hintLowest_run hinit hrun
  refine ⟨h, h.wrap_none, fun i hlt hclear hlow => h.allocPage_eq hrange hlt hclear hlow,
    fun hall => ?_, fun addr pm'' hcall hlt hbelow => ?_⟩
  · rcases h.allocPage_shape hrange.hint with ⟨i, hlt, hclear, _⟩ | ⟨_, heq⟩
    · rw [hall i hlt] at hclear
      cases hclear
    · exact heq
  · obtain ⟨hmod, _, _, rfl⟩ := freePage_eq_some.mp hcall
    have hclear : Bitmap.test (releasePage pm' (addr / pageSize)).bitmap (addr / pageSize) = false := by
      simp [test_releasePage]
    have hlow : ∀ p < addr / pageSize,
        Bitmap.test (releasePage pm' (addr / pageSize)).bitmap p = true := by
      intro p hp
      refine test_releasePage_of_ne (by omega) ?_
      cases ht : Bitmap.test pm'.bitmap p with
      | true => rfl
      | false =>
          have := hbelow p (by omega) ht
          omega
    rw [(h.release _).allocPage_eq (hrange.release _) hlt hclear hlow]
    unfold pageSize at *
    omega

/-- The two pages behind the bitmap of the small map are taken and the first is
given back: it is returned next. -/
theorem allocPage_lowest_first_smallMap :
    (allocPage (releasePage (allocPage (allocPage smallMemory).2).2 2)).1 = 8192 := by
  have hinit : init (fun _ => 0) (some ⟨some smallMap⟩) = some smallMemory := (Option.some_get _).symm
  have hrun : Run (fun s a t => Use s a t ∧ ∀ count, a ≠ .allocPages count) smallMemory
      [.allocPage, .allocPage] (allocPage (allocPage smallMemory).2).2 :=
    .cons ⟨.allocPage, fun _ h => by cases h⟩ (.single ⟨.allocPage, fun _ h => by cases h⟩)
  refine (allocPage_lowest_first hinit hrun).2.2.2.2 8192 _ ?_ ?_ ?_
  · exact freePage_eq_some.mpr ⟨by decide, by decide +kernel, by decide +kernel, rfl⟩
  · decide +kernel
  · decide +kernel

end Avery.Pmm
