import Avery.Kernel.PhysicalMemory
import Mathlib.Tactic.SetLike

/-!
# Counters of the physical memory manager

`freeSet` is the set of free frames a state stands for, and `Counted` says that
the two counters and the search hint agree with it.  Every operation is then
one equation about `freeSet`: `allocPage` erases a member, `allocPages` removes
an interval of members, `freePage` inserts a page and `freePages` an interval,
`markFree` and `markUsed` add and remove the part of an interval below
`totalPages`.
-/

namespace Avery.Pmm

/-- The free frames. -/
def freeSet (pm : PhysicalMemory) : Finset Nat := Bitmap.zeros pm.bitmap pm.totalPages

/-- The counters and the hint of a state describe its bitmap, and the address
of every page is a word. -/
structure Tallied (pm : PhysicalMemory) : Prop where
  free : pm.freePages = (freeSet pm).card
  total : pm.usedPages + pm.freePages = pm.totalPages
  hint : pm.lastAllocIndex ≤ pm.totalPages
  addressable : pm.totalPages < 2 ^ 52

/-- The counters and the hint of a state describe its bitmap. -/
structure Counted (pm : PhysicalMemory) : Prop where
  free : pm.freePages = (freeSet pm).card
  total : pm.usedPages + pm.freePages = pm.totalPages
  hint : pm.lastAllocIndex ≤ pm.totalPages
  small : pm.totalPages ≤ 2 ^ 33

/-- Two states manage the same frames: nothing but the bitmap, the counters and
the hint differs. -/
structure SameFrames (pm pm' : PhysicalMemory) : Prop where
  totalPages : pm'.totalPages = pm.totalPages
  bitmapPhysicalAddress : pm'.bitmapPhysicalAddress = pm.bitmapPhysicalAddress
  bitmapSize : pm'.bitmapSize = pm.bitmapSize

theorem SameFrames.refl (pm : PhysicalMemory) : SameFrames pm pm := ⟨rfl, rfl, rfl⟩

theorem SameFrames.trans {a b c : PhysicalMemory} (h₁ : SameFrames a b) (h₂ : SameFrames b c) :
    SameFrames a c :=
  ⟨h₂.1.trans h₁.1, h₂.2.trans h₁.2, h₂.3.trans h₁.3⟩

theorem mem_freeSet {pm : PhysicalMemory} {p : Nat} :
    p ∈ freeSet pm ↔ p < pm.totalPages ∧ Bitmap.test pm.bitmap p = false :=
  Bitmap.mem_zeros

theorem Counted.tallied {pm : PhysicalMemory} (h : Counted pm) : Tallied pm :=
  ⟨h.free, h.total, h.hint, Nat.lt_of_le_of_lt h.small (by decide)⟩

/-- The bound on a small memory is kept with its frames. -/
theorem Counted.of_tallied {pm pm' : PhysicalMemory} (h : Counted pm) (hs : SameFrames pm pm')
    (ht : Tallied pm') : Counted pm' :=
  ⟨ht.free, ht.total, ht.hint, hs.totalPages ▸ h.small⟩

/-- No frame is free exactly when the counter says so. -/
theorem Tallied.freePages_eq_zero {pm : PhysicalMemory} (h : Tallied pm) :
    pm.freePages = 0 ↔ ∀ p < pm.totalPages, Bitmap.test pm.bitmap p = true := by
  rw [h.free, Finset.card_eq_zero, Finset.eq_empty_iff_forall_notMem]
  constructor
  · intro hnone p hp
    cases ht : Bitmap.test pm.bitmap p with
    | true => rfl
    | false => exact absurd (mem_freeSet.mpr ⟨hp, ht⟩) (hnone p)
  · intro hall p hp
    obtain ⟨hlt, ht⟩ := mem_freeSet.mp hp
    rw [hall p hlt] at ht
    cases ht

/-! ## Addresses -/

theorem pageToPhysical_eq {page : Nat} (h : page < 2 ^ 52) : pageToPhysical page = page * 4096 :=
  Words.mul_eq (by unfold pageSize; omega)

theorem physicalToPage_pageToPhysical {page : Nat} (h : page < 2 ^ 52) :
    physicalToPage (pageToPhysical page) = page := by
  rw [pageToPhysical_eq h]
  exact Nat.mul_div_cancel _ (by decide)

theorem pageToPhysical_mod (page : Nat) : pageToPhysical page % pageSize = 0 := by
  show page * 4096 % 2 ^ 64 % 4096 = 0
  omega

/-! ## One page -/

theorem findClear_some {bitmap : Nat → UInt8} :
    ∀ {n i j : Nat}, findClear bitmap i n = some j →
      i ≤ j ∧ j < i + n ∧ Bitmap.test bitmap j = false ∧
        ∀ k, i ≤ k → k < j → Bitmap.test bitmap k = true
  | 0, _, _, h => by simp [findClear] at h
  | n + 1, i, j, h => by
      rw [findClear] at h
      cases ht : Bitmap.test bitmap i with
      | false =>
          rw [if_neg (by simp [ht]), Option.some.injEq] at h
          subst h
          exact ⟨Nat.le_refl _, by omega, ht, fun k h₁ h₂ => by omega⟩
      | true =>
          rw [if_pos ht] at h
          obtain ⟨hle, hlt, hf, hall⟩ := findClear_some h
          refine ⟨by omega, by omega, hf, fun k h₁ h₂ => ?_⟩
          rcases Nat.eq_or_lt_of_le h₁ with rfl | hk
          · exact ht
          · exact hall k hk h₂

theorem findClear_none {bitmap : Nat → UInt8} :
    ∀ {n i : Nat}, findClear bitmap i n = none →
      ∀ k, i ≤ k → k < i + n → Bitmap.test bitmap k = true
  | 0, _, _, k, h₁, h₂ => by omega
  | n + 1, i, h, k, h₁, h₂ => by
      rw [findClear] at h
      cases ht : Bitmap.test bitmap i with
      | false => rw [if_neg (by simp [ht])] at h; cases h
      | true =>
          rw [if_pos ht] at h
          rcases Nat.eq_or_lt_of_le h₁ with rfl | hk
          · exact ht
          · exact findClear_none h k hk (by omega)

/-- What `allocPage` does: it takes a clear page, or every page is in use and
nothing changes. -/
theorem allocPage_shape {pm : PhysicalMemory} (hhint : pm.lastAllocIndex ≤ pm.totalPages) :
    (∃ i, i ∈ freeSet pm ∧ allocPage pm = (pageToPhysical i, takePage pm i)) ∨
    ((∀ p < pm.totalPages, Bitmap.test pm.bitmap p = true) ∧ allocPage pm = (outOfMemory, pm)) := by
  unfold allocPage
  cases h₁ : findClear pm.bitmap pm.lastAllocIndex (pm.totalPages - pm.lastAllocIndex) with
  | some i =>
      obtain ⟨_, hlt, hf, _⟩ := findClear_some h₁
      exact Or.inl ⟨i, mem_freeSet.mpr ⟨by omega, hf⟩, rfl⟩
  | none =>
      cases h₂ : findClear pm.bitmap 0 pm.lastAllocIndex with
      | some i =>
          obtain ⟨_, hlt, hf, _⟩ := findClear_some h₂
          exact Or.inl ⟨i, mem_freeSet.mpr ⟨by omega, hf⟩, rfl⟩
      | none =>
          refine Or.inr ⟨fun p hp => ?_, rfl⟩
          by_cases hlow : p < pm.lastAllocIndex
          · exact findClear_none h₂ p (Nat.zero_le _) (by omega)
          · exact findClear_none h₁ p (by omega) (by omega)

theorem Tallied.alloc_cases {pm : PhysicalMemory} (h : Tallied pm) :
    (∃ i, i ∈ freeSet pm ∧ allocPage pm = (pageToPhysical i, takePage pm i)) ∨
    (pm.freePages = 0 ∧ allocPage pm = (outOfMemory, pm)) :=
  (allocPage_shape h.hint).imp_right (And.imp_left h.freePages_eq_zero.mpr)

theorem allocPage_cases {pm : PhysicalMemory} (h : Counted pm) :
    (∃ i, i ∈ freeSet pm ∧ allocPage pm = (pageToPhysical i, takePage pm i)) ∨
    (pm.freePages = 0 ∧ allocPage pm = (outOfMemory, pm)) :=
  h.tallied.alloc_cases

theorem freeSet_takePage (pm : PhysicalMemory) (i : Nat) :
    freeSet (takePage pm i) = (freeSet pm).erase i :=
  Bitmap.zeros_set _ _ _

theorem Tallied.take {pm : PhysicalMemory} {i : Nat} (h : Tallied pm) (hi : i ∈ freeSet pm) :
    Tallied (takePage pm i) := by
  have hlt : i < pm.totalPages := (mem_freeSet.mp hi).1
  have hpos : 0 < (freeSet pm).card := Finset.card_pos.mpr ⟨i, hi⟩
  have hfree := h.free
  have htotal := h.total
  have hsmall := h.addressable
  have hf : (takePage pm i).freePages = pm.freePages - 1 :=
    Words.sub_eq (by omega) (by omega)
  have hu : (takePage pm i).usedPages = pm.usedPages + 1 := Words.add_eq (by omega)
  have hl : (takePage pm i).lastAllocIndex = i + 1 := Words.add_eq (by omega)
  refine ⟨?_, ?_, ?_, hsmall⟩
  · rw [hf, freeSet_takePage, Finset.card_erase_of_mem hi, hfree]
  · rw [hf, hu]
    show _ = pm.totalPages
    omega
  · rw [hl]
    exact hlt

theorem takePage_sameFrames (pm : PhysicalMemory) (i : Nat) : SameFrames pm (takePage pm i) :=
  ⟨rfl, rfl, rfl⟩

theorem takePage_counted {pm : PhysicalMemory} {i : Nat} (h : Counted pm) (hi : i ∈ freeSet pm) :
    Counted (takePage pm i) :=
  h.of_tallied (takePage_sameFrames pm i) (h.tallied.take hi)

theorem freeSet_releasePage {pm : PhysicalMemory} {p : Nat} (hp : p < pm.totalPages) :
    freeSet (releasePage pm p) = insert p (freeSet pm) :=
  Bitmap.zeros_clear hp

theorem Tallied.release {pm : PhysicalMemory} {p : Nat} (h : Tallied pm)
    (hp : p < pm.totalPages) (ht : Bitmap.test pm.bitmap p = true) :
    Tallied (releasePage pm p) := by
  have hnot : p ∉ freeSet pm := fun hmem => by
    rw [(mem_freeSet.mp hmem).2] at ht
    cases ht
  have hcard : (insert p (freeSet pm)).card = (freeSet pm).card + 1 :=
    Finset.card_insert_of_notMem hnot
  have hle : (insert p (freeSet pm)).card ≤ pm.totalPages := by
    rw [← freeSet_releasePage hp]
    exact Bitmap.card_zeros_le _ _
  have hfree := h.free
  have htotal := h.total
  have hsmall := h.addressable
  have hf : (releasePage pm p).freePages = pm.freePages + 1 := Words.add_eq (by omega)
  have hu : (releasePage pm p).usedPages = pm.usedPages - 1 :=
    Words.sub_eq (by omega) (by omega)
  refine ⟨?_, ?_, ?_, hsmall⟩
  · rw [hf, freeSet_releasePage hp, hcard, hfree]
  · rw [hf, hu]
    show _ = pm.totalPages
    omega
  · have hhint := h.hint
    show (if p < pm.lastAllocIndex then p else pm.lastAllocIndex) ≤ pm.totalPages
    split <;> omega

theorem releasePage_sameFrames (pm : PhysicalMemory) (p : Nat) : SameFrames pm (releasePage pm p) :=
  ⟨rfl, rfl, rfl⟩

theorem releasePage_counted {pm : PhysicalMemory} {p : Nat} (h : Counted pm)
    (hp : p < pm.totalPages) (ht : Bitmap.test pm.bitmap p = true) :
    Counted (releasePage pm p) :=
  h.of_tallied (releasePage_sameFrames pm p) (h.tallied.release hp ht)

/-- A page that is in use is freed. -/
theorem freePage_eq {pm : PhysicalMemory} {p : Nat} (h : pm.totalPages < 2 ^ 52)
    (hp : p < pm.totalPages) (ht : Bitmap.test pm.bitmap p = true) :
    freePage pm (pageToPhysical p) = some (releasePage pm p) := by
  have hle : p < 2 ^ 52 := by omega
  simp only [freePage, physicalToPage_pageToPhysical hle, pageToPhysical_mod]
  exact if_pos ⟨trivial, Nat.le_of_lt hp, ht⟩

/-! ## Runs of pages -/

/-- The loop invariant of the search: the current run of clear bits ends at
`i`, and it is still too short. -/
structure RunSoFar (bitmap : Nat → UInt8) (count i runStart runLength : Nat) : Prop where
  adjacent : 0 < runLength → runStart + runLength = i
  clear : 0 < runLength → ∀ k, runStart ≤ k → k < i → Bitmap.test bitmap k = false
  short : runLength < count

section

variable {bitmap : Nat → UInt8} {count i runStart runLength : Nat}

theorem RunSoFar.begin (hcount : 0 < count) : RunSoFar bitmap count 0 0 0 :=
  ⟨fun h => by omega, fun h => by omega, hcount⟩

/-- A set bit ends the run. -/
theorem RunSoFar.used (h : RunSoFar bitmap count i runStart runLength) :
    RunSoFar bitmap count (i + 1) runStart 0 :=
  have hshort := h.short
  ⟨fun h => by omega, fun h => by omega, by omega⟩

/-- The start of the run, with the current bit counted in. -/
theorem RunSoFar.start_add (h : RunSoFar bitmap count i runStart runLength) :
    (if runLength = 0 then i else runStart) + runLength = i := by
  split
  next hz => omega
  next hz => exact h.adjacent (by omega)

theorem RunSoFar.clear_le (h : RunSoFar bitmap count i runStart runLength)
    (ht : Bitmap.test bitmap i = false) {k : Nat} (h₁ : (if runLength = 0 then i else runStart) ≤ k)
    (h₂ : k < i + 1) : Bitmap.test bitmap k = false := by
  rcases Nat.eq_or_lt_of_le (Nat.le_of_lt_succ h₂) with rfl | hk
  · exact ht
  · split at h₁
    next hz => omega
    next hz => exact h.clear (by omega) k h₁ hk

/-- A clear bit that does not complete the run makes it longer. -/
theorem RunSoFar.free (h : RunSoFar bitmap count i runStart runLength)
    (ht : Bitmap.test bitmap i = false) (hdone : runLength + 1 ≠ count) :
    RunSoFar bitmap count (i + 1) (if runLength = 0 then i else runStart) (runLength + 1) := by
  have hshort := h.short
  have hstart := h.start_add
  exact ⟨fun _ => by omega, fun _ _ h₁ h₂ => h.clear_le ht h₁ h₂, by omega⟩

end

theorem findRun_some {bitmap : Nat → UInt8} {count : Nat} :
    ∀ {n i runStart runLength s : Nat}, RunSoFar bitmap count i runStart runLength →
      findRun bitmap count i runStart runLength n = some s →
      s + count ≤ i + n ∧ ∀ k, s ≤ k → k < s + count → Bitmap.test bitmap k = false
  | 0, _, _, _, _, _, h => by simp [findRun] at h
  | n + 1, i, runStart, runLength, s, inv, h => by
      rw [findRun] at h
      cases ht : Bitmap.test bitmap i with
      | true =>
          rw [if_pos ht] at h
          obtain ⟨hle, hclear⟩ := findRun_some inv.used h
          exact ⟨by omega, hclear⟩
      | false =>
          rw [if_neg (by simp [ht])] at h
          by_cases hdone : runLength + 1 = count
          · rw [if_pos hdone, Option.some.injEq] at h
            subst h
            have hstart := inv.start_add
            exact ⟨by omega, fun k h₁ h₂ => inv.clear_le ht h₁ (by omega)⟩
          · rw [if_neg hdone] at h
            obtain ⟨hle, hclear⟩ := findRun_some (inv.free ht hdone) h
            exact ⟨by omega, hclear⟩

theorem test_setRun (bitmap : Nat → UInt8) (start j : Nat) :
    ∀ n, Bitmap.test (setRun bitmap start n) j =
      (Bitmap.test bitmap j || decide (start ≤ j ∧ j < start + n))
  | 0 => by simp [setRun]
  | n + 1 => by
      rw [setRun, Bitmap.test_set, test_setRun bitmap start j n, Bool.or_assoc]
      congr 1
      rw [← Bool.decide_or, decide_eq_decide]
      omega

theorem zeros_setRun (bitmap : Nat → UInt8) (start n total : Nat) :
    Bitmap.zeros (setRun bitmap start n) total =
      Bitmap.zeros bitmap total \ Finset.Ico start (start + n) := by
  ext j
  simp only [Bitmap.mem_zeros, test_setRun, Bool.or_eq_false_iff, decide_eq_false_iff_not,
    Finset.mem_sdiff, Finset.mem_Ico, and_assoc]

/-- The state `allocPages` leaves when it finds a run. -/
def takeRun (pm : PhysicalMemory) (start count : Nat) : PhysicalMemory :=
  { pm with
    bitmap := setRun pm.bitmap start count
    freePages := sub64 pm.freePages count
    usedPages := add64 pm.usedPages count
    lastAllocIndex := add64 start count }

theorem takeRun_sameFrames (pm : PhysicalMemory) (start count : Nat) :
    SameFrames pm (takeRun pm start count) :=
  ⟨rfl, rfl, rfl⟩

/-- What `allocPages` does: it takes an interval of free pages, or nothing
changes. -/
theorem allocPages_cases (pm : PhysicalMemory) {count : Nat} (hc : count ≠ 0) :
    (∃ start, start + count ≤ pm.totalPages ∧ Finset.Ico start (start + count) ⊆ freeSet pm ∧
      allocPages pm count = (pageToPhysical start, takeRun pm start count)) ∨
    allocPages pm count = (outOfMemory, pm) := by
  rw [allocPages, if_neg hc]
  cases hr : findRun pm.bitmap count 0 0 0 pm.totalPages with
  | none => exact Or.inr rfl
  | some start =>
      obtain ⟨hle, hclear⟩ := findRun_some (RunSoFar.begin (Nat.pos_of_ne_zero hc)) hr
      refine Or.inl ⟨start, by omega, fun p hp => ?_, rfl⟩
      obtain ⟨h₁, h₂⟩ := Finset.mem_Ico.mp hp
      exact mem_freeSet.mpr ⟨by omega, hclear p h₁ h₂⟩

theorem freeSet_takeRun (pm : PhysicalMemory) (start count : Nat) :
    freeSet (takeRun pm start count) = freeSet pm \ Finset.Ico start (start + count) :=
  zeros_setRun _ _ _ _

/-- Taking a run moves its length from one counter to the other. -/
theorem Tallied.takeRun_counters {pm : PhysicalMemory} {start count : Nat} (h : Tallied pm)
    (hsub : Finset.Ico start (start + count) ⊆ freeSet pm) :
    (takeRun pm start count).freePages + count = pm.freePages ∧
      (takeRun pm start count).usedPages = pm.usedPages + count := by
  have hcount : count ≤ (freeSet pm).card := by
    have := Finset.card_le_card hsub
    rw [Nat.card_Ico] at this
    omega
  have hfree := h.free
  have htotal := h.total
  have hsmall := h.addressable
  have hf : (takeRun pm start count).freePages = pm.freePages - count :=
    Words.sub_eq (by omega) (by omega)
  exact ⟨by omega, Words.add_eq (by omega)⟩

theorem Tallied.take_run {pm : PhysicalMemory} {start count : Nat} (h : Tallied pm)
    (hle : start + count ≤ pm.totalPages)
    (hsub : Finset.Ico start (start + count) ⊆ freeSet pm) : Tallied (takeRun pm start count) := by
  have hcard : (freeSet (takeRun pm start count)).card = (freeSet pm).card - count := by
    rw [freeSet_takeRun, Finset.card_sdiff_of_subset hsub, Nat.card_Ico]
    omega
  obtain ⟨hf, hu⟩ := h.takeRun_counters hsub
  have hfree := h.free
  have htotal := h.total
  have hsmall := h.addressable
  have hl : (takeRun pm start count).lastAllocIndex = start + count := Words.add_eq (by omega)
  refine ⟨?_, ?_, ?_, hsmall⟩
  · rw [hcard]
    omega
  · show _ = pm.totalPages
    omega
  · rw [hl]
    exact hle

theorem takeRun_counted {pm : PhysicalMemory} {start count : Nat} (h : Counted pm)
    (hle : start + count ≤ pm.totalPages)
    (hsub : Finset.Ico start (start + count) ⊆ freeSet pm) : Counted (takeRun pm start count) :=
  h.of_tallied (takeRun_sameFrames pm start count) (h.tallied.take_run hle hsub)

/-- The `n` pages from `p` on, released one after the other. -/
def releaseRun (pm : PhysicalMemory) (p : Nat) : Nat → PhysicalMemory
  | 0 => pm
  | n + 1 => releaseRun (releasePage pm p) (p + 1) n
termination_by structural n => n

theorem releaseRun_sameFrames (pm : PhysicalMemory) (p : Nat) :
    ∀ n, SameFrames pm (releaseRun pm p n)
  | 0 => .refl pm
  | n + 1 => (releasePage_sameFrames pm p).trans (releaseRun_sameFrames _ _ n)

theorem test_releasePage (pm : PhysicalMemory) (p j : Nat) :
    Bitmap.test (releasePage pm p).bitmap j = (Bitmap.test pm.bitmap j && !decide (p = j)) :=
  Bitmap.test_clear _ _ _

theorem test_releaseRun (j : Nat) :
    ∀ (n p : Nat) (pm : PhysicalMemory), Bitmap.test (releaseRun pm p n).bitmap j =
      (Bitmap.test pm.bitmap j && !decide (p ≤ j ∧ j < p + n))
  | 0, p, pm => by
      have hout : decide (p ≤ j ∧ j < p + 0) = false := decide_eq_false (by omega)
      rw [hout, Bool.not_false, Bool.and_true, releaseRun]
  | n + 1, p, pm => by
      rw [releaseRun, test_releaseRun j n (p + 1), test_releasePage, Bool.and_assoc]
      congr 1
      rw [← Bool.not_or, ← Bool.decide_or]
      refine congrArg _ (decide_eq_decide.mpr ?_)
      omega

/-- A page in use stays in use when another one is released. -/
theorem test_releasePage_of_ne {pm : PhysicalMemory} {p j : Nat} (hne : p ≠ j)
    (ht : Bitmap.test pm.bitmap j = true) : Bitmap.test (releasePage pm p).bitmap j = true := by
  rw [test_releasePage, ht]
  simp [hne]

theorem freeSet_releaseRun {pm : PhysicalMemory} {p n : Nat} (hle : p + n ≤ pm.totalPages) :
    freeSet (releaseRun pm p n) = freeSet pm ∪ Finset.Ico p (p + n) := by
  ext j
  rw [mem_freeSet, (releaseRun_sameFrames pm p n).totalPages, test_releaseRun, Finset.mem_union,
    mem_freeSet, Finset.mem_Ico, Bool.and_eq_false_iff, Bool.not_eq_false', decide_eq_true_eq]
  constructor
  · rintro ⟨hlt, ht | hin⟩
    · exact Or.inl ⟨hlt, ht⟩
    · exact Or.inr hin
  · rintro (⟨hlt, ht⟩ | hin)
    · exact ⟨hlt, Or.inl ht⟩
    · exact ⟨by omega, Or.inr hin⟩

theorem Tallied.release_run :
    ∀ (n p : Nat) {pm : PhysicalMemory}, Tallied pm → p + n ≤ pm.totalPages →
      (∀ j, p ≤ j → j < p + n → Bitmap.test pm.bitmap j = true) → Tallied (releaseRun pm p n)
  | 0, _, _, h, _, _ => h
  | n + 1, p, pm, h, hle, hset => by
      refine Tallied.release_run n (p + 1)
        (h.release (by omega) (hset p (Nat.le_refl _) (by omega))) ?_ fun j h₁ h₂ => ?_
      · show p + 1 + n ≤ pm.totalPages
        omega
      · exact test_releasePage_of_ne (by omega) (hset j (by omega) (by omega))

/-- The loop of `freePages` on pages that are all in use releases them one after
the other. -/
theorem freePagesLoop_eq (start : Nat) :
    ∀ (n i : Nat) {pm : PhysicalMemory}, pm.totalPages < 2 ^ 52 → start + i + n ≤ pm.totalPages →
      (∀ p, start + i ≤ p → p < start + i + n → Bitmap.test pm.bitmap p = true) →
      freePagesLoop pm (pageToPhysical start) i n = some (releaseRun pm (start + i) n)
  | 0, _, _, _, _, _ => rfl
  | n + 1, i, pm, hsmall, hle, hset => by
      have haddr : add64 (pageToPhysical start) (mul64 i pageSize) = pageToPhysical (start + i) := by
        have hi : mul64 i pageSize = i * 4096 := Words.mul_eq (by unfold pageSize; omega)
        rw [pageToPhysical_eq (by omega), pageToPhysical_eq (by omega), hi, Nat.add_mul]
        exact Words.add_eq (by omega)
      have hfree := freePage_eq hsmall (by omega : start + i < pm.totalPages)
        (hset _ (Nat.le_refl _) (by omega))
      rw [freePagesLoop, haddr, hfree]
      refine freePagesLoop_eq start n (i + 1) hsmall ?_ fun p h₁ h₂ => ?_
      · show start + (i + 1) + n ≤ pm.totalPages
        omega
      · exact test_releasePage_of_ne (by omega) (hset p (by omega) (by omega))

/-- A run of pages that are all in use is released. -/
theorem freePages_eq {pm : PhysicalMemory} {start count : Nat} (h : pm.totalPages < 2 ^ 52)
    (hle : start + count ≤ pm.totalPages)
    (hset : ∀ p, start ≤ p → p < start + count → Bitmap.test pm.bitmap p = true) :
    freePages pm (pageToPhysical start) count = some (releaseRun pm start count) := by
  rw [freePages, if_pos (pageToPhysical_mod start)]
  exact freePagesLoop_eq start count 0 h hle hset

/-- A run of pages that are all in use is freed. -/
theorem freePages_spec {pm : PhysicalMemory} {start count : Nat} (h : Counted pm)
    (hle : start + count ≤ pm.totalPages)
    (hset : ∀ p, start ≤ p → p < start + count → Bitmap.test pm.bitmap p = true) :
    ∃ pm', freePages pm (pageToPhysical start) count = some pm' ∧ Counted pm' ∧
      SameFrames pm pm' ∧ freeSet pm' = freeSet pm ∪ Finset.Ico start (start + count) :=
  ⟨releaseRun pm start count, freePages_eq h.tallied.addressable hle hset,
    h.of_tallied (releaseRun_sameFrames ..) (Tallied.release_run _ _ h.tallied hle hset),
    releaseRun_sameFrames .., freeSet_releaseRun hle⟩

end Avery.Pmm
