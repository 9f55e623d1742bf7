import Avery.Library.Transition
import Avery.Kernel.PhysicalFill
import Avery.Kernel.PhysicalRuns

/-!
# Calls on the physical memory manager

`Use` is one call, by any caller: unlike the runs of `Clients` a page may be
given back that was never handed out, as long as the assertions of `freePage`
let it pass.  They do at one address too many.  The bound `page <= totalPages`
admits the page behind the last one, and the padding of the bitmap has its bit
set (`freePage_checked_iff`).

The map may be of any size.  What is said of `allocPages` and of the search hint
is about the bitmap and does not need the counters to be right.
-/

namespace Avery.Pmm

open Transition (Run)

/-- One call.  A call that stops the kernel reaches no state. -/
inductive Use : PhysicalMemory → Call → PhysicalMemory → Prop
  | allocPage {pm : PhysicalMemory} : Use pm .allocPage (allocPage pm).2
  | allocPages {pm : PhysicalMemory} {count : Nat} :
      Use pm (.allocPages count) (allocPages pm count).2
  | freePage {pm pm' : PhysicalMemory} {addr : Nat} :
      freePage pm addr = some pm' → Use pm (.freePage addr) pm'
  | freePages {pm pm' : PhysicalMemory} {addr count : Nat} :
      freePages pm addr count = some pm' → Use pm (.freePages addr count) pm'

/-! ## What each call does -/

/-- `freePage` is its three checks and `releasePage`. -/
theorem freePage_eq_some {pm pm' : PhysicalMemory} {addr : Nat} :
    freePage pm addr = some pm' ↔
      addr % pageSize = 0 ∧ addr / pageSize ≤ pm.totalPages ∧
        Bitmap.test pm.bitmap (addr / pageSize) = true ∧
        pm' = releasePage pm (addr / pageSize) := by
  constructor
  · intro h
    rw [freePage] at h
    split at h
    next hchecks => exact ⟨hchecks.1, hchecks.2.1, hchecks.2.2, (Option.some.inj h).symm⟩
    next => cases h
  · rintro ⟨hmod, hle, ht, rfl⟩
    exact if_pos ⟨hmod, hle, ht⟩

/-- The loop of `freePages` keeps what each of its calls of `freePage` keeps. -/
theorem freePagesLoop_keeps {Inv : PhysicalMemory → Prop} {addr : Nat} :
    ∀ (n i : Nat) {pm pm' : PhysicalMemory},
      (∀ j, i ≤ j → j < i + n → ∀ {s t : PhysicalMemory}, Inv s →
        freePage s (add64 addr (mul64 j pageSize)) = some t → Inv t) →
      freePagesLoop pm addr i n = some pm' → Inv pm → Inv pm'
  | 0, _, _, _, _, hloop, h => Option.some.inj hloop ▸ h
  | n + 1, i, pm, pm', hfree, hloop, h => by
      rw [freePagesLoop] at hloop
      obtain ⟨pm₁, hfirst, hrest⟩ := Option.bind_eq_some_iff.mp hloop
      refine freePagesLoop_keeps n (i + 1) (fun j h₁ h₂ => hfree j (by omega) (by omega)) hrest ?_
      exact hfree i (Nat.le_refl _) (by omega) h hfirst

theorem freePages_keeps (Inv : PhysicalMemory → Prop) {pm pm' : PhysicalMemory}
    {addr count : Nat}
    (hfree : ∀ j < count, ∀ {s t : PhysicalMemory}, Inv s →
      freePage s (add64 addr (mul64 j pageSize)) = some t → Inv t)
    (hcall : freePages pm addr count = some pm') (h : Inv pm) : Inv pm' := by
  rw [freePages] at hcall
  split at hcall
  · exact freePagesLoop_keeps count 0 (fun j _ hj => hfree j (by omega)) hcall h
  · cases hcall

/-! ## Ranges -/

theorem InRange.take {pm : PhysicalMemory} {i : Nat} (h : InRange pm) (hi : i < pm.totalPages) :
    InRange (takePage pm i) := by
  have hlt := h.addressable
  refine ⟨Words.sub_lt _ _ _, Words.add_lt _ _ _, ?_, hlt⟩
  show add64 i 1 ≤ pm.totalPages
  rw [add64, Words.add_eq (by omega)]
  exact hi

theorem InRange.release {pm : PhysicalMemory} (h : InRange pm) (p : Nat) :
    InRange (releasePage pm p) := by
  refine ⟨Words.add_lt _ _ _, Words.sub_lt _ _ _, ?_, h.addressable⟩
  have hhint := h.hint
  show (if p < pm.lastAllocIndex then p else pm.lastAllocIndex) ≤ pm.totalPages
  split <;> omega

theorem InRange.free_page {pm pm' : PhysicalMemory} {addr : Nat} (h : InRange pm)
    (hcall : freePage pm addr = some pm') : InRange pm' := by
  obtain ⟨_, _, _, rfl⟩ := freePage_eq_some.mp hcall
  exact h.release _

theorem InRange.take_run {pm : PhysicalMemory} {start count : Nat} (h : InRange pm)
    (hle : start + count ≤ pm.totalPages) : InRange (takeRun pm start count) := by
  have hlt := h.addressable
  refine ⟨Words.sub_lt _ _ _, Words.add_lt _ _ _, ?_, hlt⟩
  show add64 start count ≤ pm.totalPages
  rw [add64, Words.add_eq (by omega)]
  exact hle

theorem InRange.use {pm pm' : PhysicalMemory} {a : Call} (h : InRange pm) (huse : Use pm a pm') :
    InRange pm' := by
  cases huse with
  | allocPage =>
      rcases allocPage_shape h.hint with ⟨i, hi, heq⟩ | ⟨_, heq⟩
      · rw [heq]
        exact h.take (mem_freeSet.mp hi).1
      · rw [heq]
        exact h
  | @allocPages count =>
      by_cases hzero : count = 0
      · subst hzero
        exact h
      rcases allocPages_cases pm hzero with ⟨start, hle, _, heq⟩ | heq
      · rw [heq]
        exact h.take_run hle
      · rw [heq]
        exact h
  | freePage hcall => exact h.free_page hcall
  | freePages hcall => exact freePages_keeps InRange (fun _ _ _ _ h => h.free_page) hcall h

/-- Every state a run from `init` reaches is in range. -/
theorem inRange_run {ram : Nat → UInt8} {entries : List MemmapEntry} {pm pm' : PhysicalMemory}
    {calls : List Call} (hinit : init ram (some ⟨some entries⟩) = some pm)
    (hrun : Run Use pm calls pm') : InRange pm' :=
  hrun.invariant (fun _ _ _ h huse => h.use huse) (inRange_init hinit)

/-! ## Frees that the assertions let pass -/

/-- The call frees no page at `totalPages * PAGE_SIZE`, the address behind the
last page. -/
def Call.OffEdge (totalPages : Nat) : Call → Prop
  | .allocPage => True
  | .allocPages _ => True
  | .freePage addr => addr ≠ totalPages * pageSize
  | .freePages addr count => ∀ j < count, add64 addr (mul64 j pageSize) ≠ totalPages * pageSize

/-- A page that `freePage` accepts lies below the end, or is the one behind it. -/
theorem page_lt_of_accepted {pm pm' : PhysicalMemory} {addr : Nat}
    (hedge : addr ≠ pm.totalPages * pageSize) (hcall : freePage pm addr = some pm') :
    addr / pageSize < pm.totalPages := by
  obtain ⟨hmod, hle, _⟩ := freePage_eq_some.mp hcall
  unfold pageSize at *
  omega

theorem Tallied.free_page {pm pm' : PhysicalMemory} {addr : Nat} (h : Tallied pm)
    (hedge : addr ≠ pm.totalPages * pageSize) (hcall : freePage pm addr = some pm') :
    Tallied pm' := by
  have hlt := page_lt_of_accepted hedge hcall
  obtain ⟨_, _, ht, rfl⟩ := freePage_eq_some.mp hcall
  exact h.release hlt ht

theorem Tallied.use {pm pm' : PhysicalMemory} {a : Call} (h : Tallied pm) (huse : Use pm a pm')
    (hedge : a.OffEdge pm.totalPages) : Tallied pm' := by
  cases huse with
  | allocPage =>
      rcases h.alloc_cases with ⟨i, hi, heq⟩ | ⟨_, heq⟩
      · rw [heq]
        exact h.take hi
      · rw [heq]
        exact h
  | @allocPages count =>
      by_cases hzero : count = 0
      · subst hzero
        exact h
      rcases allocPages_cases pm hzero with ⟨start, hle, hsub, heq⟩ | heq
      · rw [heq]
        exact h.take_run hle hsub
      · rw [heq]
        exact h
  | freePage hcall => exact h.free_page hedge hcall
  | @freePages _ addr count hcall =>
      -- the loop keeps the number of pages, so the address behind them stays the same
      refine (freePages_keeps (fun s => Tallied s ∧ s.totalPages = pm.totalPages) ?_ hcall
        ⟨h, rfl⟩).1
      rintro j hj s t ⟨hs, htotal⟩ hfree
      refine ⟨hs.free_page (htotal ▸ hedge j hj) hfree, ?_⟩
      obtain ⟨_, _, _, rfl⟩ := freePage_eq_some.mp hfree
      exact htotal

/-- What `freePage` promises of an address it accepts: it is the address of a
page that was in use, and the counters still describe the bitmap. -/
def FreesOwned (pm : PhysicalMemory) (addr : Nat) : Prop :=
  ∀ pm', freePage pm addr = some pm' →
    addr % pageSize = 0 ∧ addr / pageSize < pm.totalPages ∧
    Bitmap.test pm.bitmap (addr / pageSize) = true ∧
    pm'.freePages = ((Finset.range pm'.totalPages).filter fun p =>
      Bitmap.test pm'.bitmap p = false).card ∧
    pm'.usedPages + pm'.freePages = pm'.totalPages

theorem Tallied.freesOwned_iff {pm : PhysicalMemory} (h : Tallied pm) (addr : Nat) :
    FreesOwned pm addr ↔
      ¬ (addr = pm.totalPages * pageSize ∧ Bitmap.test pm.bitmap pm.totalPages = true) := by
  constructor
  · rintro hfrees ⟨rfl, ht⟩
    have hpage : pm.totalPages * pageSize / pageSize = pm.totalPages :=
      Nat.mul_div_cancel _ (by decide)
    have hcall : freePage pm (pm.totalPages * pageSize) = some (releasePage pm pm.totalPages) :=
      freePage_eq_some.mpr
        ⟨Nat.mul_mod_left _ _, by rw [hpage], by rwa [hpage], by rw [hpage]⟩
    have hlt := (hfrees _ hcall).2.1
    rw [hpage] at hlt
    exact Nat.lt_irrefl _ hlt
  · intro hnot pm' hcall
    obtain ⟨hmod, hle, ht, _⟩ := freePage_eq_some.mp hcall
    have hedge : addr ≠ pm.totalPages * pageSize := by
      rintro rfl
      rw [Nat.mul_div_cancel _ (by decide)] at ht
      exact hnot ⟨rfl, ht⟩
    have h' := h.free_page hedge hcall
    exact ⟨hmod, page_lt_of_accepted hedge hcall, ht, h'.free, h'.total⟩

/-- In a run that frees nothing at the address behind the last page, the
counters describe the bitmap, and there is one address `freePage` accepts
wrongly, if any. -/
theorem freePage_checked_iff {ram : Nat → UInt8} {entries : List MemmapEntry}
    {pm pm' : PhysicalMemory} {calls : List Call} (hfill : Filled ram entries)
    (hinit : init ram (some ⟨some entries⟩) = some pm)
    (hrun : Run (fun s a t => Use s a t ∧ a.OffEdge s.totalPages) pm calls pm') :
    pm'.freePages = ((Finset.range pm'.totalPages).filter fun p =>
      Bitmap.test pm'.bitmap p = false).card ∧
    pm'.usedPages + pm'.freePages = pm'.totalPages ∧
    ∀ addr, FreesOwned pm' addr ↔
      ¬ (addr = pm'.totalPages * pageSize ∧ Bitmap.test pm'.bitmap pm'.totalPages = true) := by
  have h : Tallied pm' :=
    hrun.invariant (fun _ _ _ h huse => h.use huse.1 huse.2) (tallied_init hfill hinit)
  exact ⟨h.free, h.total, h.freesOwned_iff⟩

/-- A page of the small map is handed out; giving it back is accepted rightly. -/
theorem freePage_checked_iff_smallMap : FreesOwned (allocPage smallMemory).2 8192 := by
  have hfill : Filled (fun _ => 0) smallMap := filled_of_le _ (by simp [smallMap])
  have hinit : init (fun _ => 0) (some ⟨some smallMap⟩) = some smallMemory := (Option.some_get _).symm
  have hrun : Run (fun s a t => Use s a t ∧ a.OffEdge s.totalPages) smallMemory [.allocPage]
      (allocPage smallMemory).2 := .single ⟨.allocPage, trivial⟩
  refine ((freePage_checked_iff hfill hinit hrun).2.2 8192).mpr fun h => ?_
  have htotal : (allocPage smallMemory).2.totalPages = 5 := by decide +kernel
  rw [htotal] at h
  exact absurd h.1 (by decide)

/-- The small map has five pages.  `freePage` accepts the address of page five,
and the count of free pages then exceeds the clear bits. -/
theorem page_behind_the_end_is_freed :
    smallMemory.totalPages = 5 ∧
    ∃ pm', freePage smallMemory (5 * 4096) = some pm' ∧
      pm'.freePages = 4 ∧
      ((Finset.range pm'.totalPages).filter fun p => Bitmap.test pm'.bitmap p = false).card = 3 := by
  refine ⟨by decide +kernel, releasePage smallMemory 5, ?_, by decide +kernel, by decide +kernel⟩
  exact freePage_eq_some.mpr ⟨by decide, by decide +kernel, by decide +kernel, rfl⟩

end Avery.Pmm
