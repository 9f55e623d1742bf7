import Avery.Library.Transition
import Avery.Kernel.PhysicalInit

/-!
# Runs of the physical memory manager

`Clients` is the allocator together with what its callers hold: for each
allocation, the pages of it that have not been given back.  A step is one call.
`allocPage` and `allocPages` may be called at any time.  `freePage` and
`freePages` are called on a run of pages that are all handed out, whichever
allocations they came from.

`Safe` is the invariant.  It says that the counters describe the bitmap, that
no page is held twice, that every page held is in use, and that every page held
or free is one of the allocatable pages of the map.
-/

namespace Avery.Pmm

open Transition (Run)

/-- The allocator and its callers. -/
structure Clients where
  pm : PhysicalMemory
  /-- The pages still held, one list for each allocation. -/
  live : List (List Nat)

/-- A call of one of the four operations. -/
inductive Call where
  | allocPage
  | allocPages (count : Nat)
  | freePage (addr : Nat)
  | freePages (addr count : Nat)

/-- The caller records the pages of the address it got, if it got one. -/
def grant (live : List (List Nat)) (addr count : Nat) : List (List Nat) :=
  if addr = outOfMemory then live else live ++ [List.range' (physicalToPage addr) count]

/-- The pages from `start` on are no longer held. -/
def revoke (live : List (List Nat)) (start count : Nat) : List (List Nat) :=
  live.map fun pages => pages.filter fun p => ¬ (start ≤ p ∧ p < start + count)

inductive Step : Clients → Call → Clients → Prop
  | allocPage {c : Clients} :
      Step c .allocPage ⟨(allocPage c.pm).2, grant c.live (allocPage c.pm).1 1⟩
  | allocPages {c : Clients} {count : Nat} :
      Step c (.allocPages count)
        ⟨(allocPages c.pm count).2, grant c.live (allocPages c.pm count).1 count⟩
  | freePage {c : Clients} {p : Nat} {pm' : PhysicalMemory} :
      p ∈ c.live.flatten →
      freePage c.pm (pageToPhysical p) = some pm' →
      Step c (.freePage (pageToPhysical p)) ⟨pm', revoke c.live p 1⟩
  | freePages {c : Clients} {start count : Nat} {pm' : PhysicalMemory} :
      (∀ p, start ≤ p → p < start + count → p ∈ c.live.flatten) →
      freePages c.pm (pageToPhysical start) count = some pm' →
      Step c (.freePages (pageToPhysical start) count) ⟨pm', revoke c.live start count⟩

/-- The invariant of the runs. -/
structure Safe (entries : List MemmapEntry) (c : Clients) : Prop where
  counted : Counted c.pm
  nodup : c.live.flatten.Nodup
  held : ∀ p ∈ c.live.flatten, Allocatable entries c.pm p ∧ p ∉ freeSet c.pm
  free : ∀ p ∈ freeSet c.pm, Allocatable entries c.pm p

theorem Allocatable.congr {entries : List MemmapEntry} {pm pm' : PhysicalMemory} {p : Nat}
    (hs : SameFrames pm pm') (h : Allocatable entries pm p) : Allocatable entries pm' p := by
  refine ⟨by rw [hs.totalPages]; exact h.below, h.notZero, fun hb => h.notBitmap ?_, h.usable⟩
  rwa [IsBitmapPage, hs.bitmapPhysicalAddress, hs.bitmapSize] at hb

theorem Safe.in_use {entries : List MemmapEntry} {c : Clients} (h : Safe entries c) {p : Nat}
    (hp : p ∈ c.live.flatten) : p < c.pm.totalPages ∧ Bitmap.test c.pm.bitmap p = true := by
  obtain ⟨ha, hnot⟩ := h.held p hp
  refine ⟨ha.below, ?_⟩
  cases ht : Bitmap.test c.pm.bitmap p with
  | true => rfl
  | false => exact absurd (mem_freeSet.mpr ⟨ha.below, ht⟩) hnot

/-! ## What a call does to the pages held -/

theorem flatten_grant (live : List (List Nat)) {start : Nat} (count : Nat) (hpos : start ≠ 0)
    (hle : start < 2 ^ 52) :
    (grant live (pageToPhysical start) count).flatten =
      live.flatten ++ List.range' start count := by
  have hne : pageToPhysical start ≠ outOfMemory := by
    rw [pageToPhysical_eq hle, outOfMemory]
    omega
  rw [grant, if_neg hne, physicalToPage_pageToPhysical hle]
  simp

theorem grant_outOfMemory (live : List (List Nat)) (count : Nat) :
    grant live outOfMemory count = live :=
  if_pos rfl

theorem mem_flatten_revoke {live : List (List Nat)} {start count p : Nat} :
    p ∈ (revoke live start count).flatten ↔
      p ∈ live.flatten ∧ ¬ (start ≤ p ∧ p < start + count) := by
  rw [revoke, ← List.filter_flatten, List.mem_filter, decide_eq_true_eq]

theorem nodup_flatten_revoke {live : List (List Nat)} (start count : Nat)
    (h : live.flatten.Nodup) : (revoke live start count).flatten.Nodup := by
  rw [revoke, ← List.filter_flatten]
  exact h.filter _

/-! ## The step lemma -/

/-- Handing out an interval of free pages keeps the invariant. -/
theorem Safe.hand_out {entries : List MemmapEntry} {c : Clients} (h : Safe entries c)
    {pm' : PhysicalMemory} {start count : Nat} (hcount : 0 < count)
    (hsub : Finset.Ico start (start + count) ⊆ freeSet c.pm) (hc : Counted pm')
    (hs : SameFrames c.pm pm')
    (hfree : freeSet pm' = freeSet c.pm \ Finset.Ico start (start + count)) :
    Safe entries ⟨pm', grant c.live (pageToPhysical start) count⟩ := by
  have hstart : start ∈ freeSet c.pm := hsub (Finset.mem_Ico.mpr ⟨Nat.le_refl _, by omega⟩)
  have ha := h.free start hstart
  have hsmall := h.counted.small
  have hbelow := ha.below
  have hflat := flatten_grant c.live count ha.notZero (by omega)
  have hrange {p : Nat} (hp : p ∈ List.range' start count) : p ∈ Finset.Ico start (start + count) := by
    rw [List.mem_range'_1] at hp
    exact Finset.mem_Ico.mpr hp
  refine ⟨hc, ?_, fun p hp => ?_, fun p hp => ?_⟩
  · show (grant c.live (pageToPhysical start) count).flatten.Nodup
    rw [hflat, List.nodup_append]
    refine ⟨h.nodup, List.nodup_range', fun a ha b hb hab => ?_⟩
    exact (h.held a ha).2 (hsub (hrange (hab ▸ hb)))
  · replace hp : p ∈ (grant c.live (pageToPhysical start) count).flatten := hp
    rw [hflat, List.mem_append] at hp
    show _ ∧ p ∉ freeSet pm'
    rw [hfree, Finset.mem_sdiff]
    rcases hp with hp | hp
    · obtain ⟨ha, hnot⟩ := h.held p hp
      exact ⟨ha.congr hs, fun hin => hnot hin.1⟩
    · exact ⟨(h.free p (hsub (hrange hp))).congr hs, fun hin => hin.2 (hrange hp)⟩
  · replace hp : p ∈ freeSet pm' := hp
    rw [hfree, Finset.mem_sdiff] at hp
    exact (h.free p hp.1).congr hs

/-- Taking back a run of pages that are held keeps the invariant. -/
theorem Safe.take_back {entries : List MemmapEntry} {c : Clients} (h : Safe entries c)
    {pm' : PhysicalMemory} {start count : Nat}
    (hheld : ∀ p, start ≤ p → p < start + count → p ∈ c.live.flatten) (hc : Counted pm')
    (hs : SameFrames c.pm pm')
    (hfree : freeSet pm' = freeSet c.pm ∪ Finset.Ico start (start + count)) :
    Safe entries ⟨pm', revoke c.live start count⟩ := by
  refine ⟨hc, nodup_flatten_revoke _ _ h.nodup, fun p hp => ?_, fun p hp => ?_⟩
  · obtain ⟨hlive, hout⟩ := mem_flatten_revoke.mp hp
    obtain ⟨ha, hnot⟩ := h.held p hlive
    refine ⟨ha.congr hs, fun hin => ?_⟩
    replace hin : p ∈ freeSet pm' := hin
    rw [hfree, Finset.mem_union, Finset.mem_Ico] at hin
    exact hin.elim hnot hout
  · replace hp : p ∈ freeSet pm' := hp
    rw [hfree, Finset.mem_union, Finset.mem_Ico] at hp
    rcases hp with hp | ⟨h₁, h₂⟩
    · exact (h.free p hp).congr hs
    · exact (h.held p (hheld p h₁ h₂)).1.congr hs

/-- A run of pages that are held is accepted by `freePages`. -/
theorem Safe.freePages_accepts {entries : List MemmapEntry} {c : Clients} (h : Safe entries c)
    {start count : Nat} (hcount : 0 < count)
    (hheld : ∀ p, start ≤ p → p < start + count → p ∈ c.live.flatten) :
    ∃ pm', freePages c.pm (pageToPhysical start) count = some pm' ∧ Counted pm' ∧
      SameFrames c.pm pm' ∧ freeSet pm' = freeSet c.pm ∪ Finset.Ico start (start + count) := by
  refine freePages_spec h.counted ?_ fun p h₁ h₂ => (h.in_use (hheld p h₁ h₂)).2
  have := (h.in_use (hheld (start + count - 1) (by omega) (by omega))).1
  omega

/-- Every call keeps the invariant. -/
theorem Safe.step {entries : List MemmapEntry} {c c' : Clients} {a : Call} (h : Safe entries c)
    (hstep : Step c a c') : Safe entries c' := by
  cases hstep with
  | allocPage =>
      rcases allocPage_cases h.counted with ⟨i, hi, heq⟩ | ⟨_, heq⟩
      · rw [heq]
        have hone : Finset.Ico i (i + 1) = {i} := Nat.Ico_succ_singleton i
        refine h.hand_out Nat.one_pos (by simpa [hone] using hi) (takePage_counted h.counted hi)
          (takePage_sameFrames _ _) ?_
        rw [freeSet_takePage, hone, Finset.sdiff_singleton_eq_erase]
      · rw [heq, grant_outOfMemory]
        exact h
  | @allocPages count =>
      by_cases hzero : count = 0
      · subst hzero
        exact h
      rcases allocPages_cases c.pm hzero with ⟨start, hle, hsub, heq⟩ | heq
      · rw [heq]
        exact h.hand_out (Nat.pos_of_ne_zero hzero) hsub (takeRun_counted h.counted hle hsub)
          (takeRun_sameFrames _ _ _) (freeSet_takeRun _ _ _)
      · rw [heq, grant_outOfMemory]
        exact h
  | @freePage p pm' hlive hfree =>
      obtain ⟨hlt, ht⟩ := h.in_use hlive
      rw [freePage_eq h.counted.tallied.addressable hlt ht, Option.some.injEq] at hfree
      subst hfree
      refine h.take_back (fun q h₁ h₂ => ?_) (releasePage_counted h.counted hlt ht)
        (releasePage_sameFrames _ _) ?_
      · rwa [show q = p by omega]
      · rw [freeSet_releasePage hlt, Nat.Ico_succ_singleton, Finset.insert_eq, Finset.union_comm]
  | @freePages start count pm' hheld hfree =>
      by_cases hzero : count = 0
      · subst hzero
        have heq : pm' = c.pm := by
          rw [freePages] at hfree
          split at hfree
          · exact (Option.some.inj hfree).symm
          · cases hfree
        rw [heq]
        exact h.take_back hheld h.counted (.refl _) (by simp)
      · obtain ⟨pm₁, heq, hc, hs, hset⟩ :=
          h.freePages_accepts (Nat.pos_of_ne_zero hzero) hheld
        rw [heq, Option.some.injEq] at hfree
        subst hfree
        exact h.take_back hheld hc hs hset

theorem safe_init {ram : Nat → UInt8} {entries : List MemmapEntry} {pm : PhysicalMemory}
    (hfit : MapFits entries) (hinit : init ram (some ⟨some entries⟩) = some pm) :
    Safe entries ⟨pm, []⟩ := by
  obtain ⟨hc, hm⟩ := init_spec hfit hinit
  exact ⟨hc, List.nodup_nil, fun p hp => absurd hp List.not_mem_nil, fun p hp => (hm p).mp hp⟩

/-- Every state a run from `init` reaches is safe. -/
theorem safe_run {ram : Nat → UInt8} {entries : List MemmapEntry} {pm : PhysicalMemory}
    {calls : List Call} {c : Clients} (hfit : MapFits entries)
    (hinit : init ram (some ⟨some entries⟩) = some pm) (hrun : Run Step ⟨pm, []⟩ calls c) :
    Safe entries c :=
  hrun.invariant (fun _ _ _ h hs => h.step hs) (safe_init hfit hinit)

/-! ## Exclusivity and accounting -/

/-- In every state a run reaches, no page belongs to two live allocations,
every page handed out is one of the usable ones, the counters and the hint
describe the bitmap, and `allocPage` runs out exactly when no page is free. -/
theorem pages_exclusive_and_counted {ram : Nat → UInt8} {entries : List MemmapEntry}
    {pm : PhysicalMemory} {calls : List Call} {c : Clients}
    (hfit : ∀ e ∈ entries, e.base + e.length ≤ 2 ^ 45)
    (hinit : init ram (some ⟨some entries⟩) = some pm) (hrun : Run Step ⟨pm, []⟩ calls c) :
    c.live.Pairwise List.Disjoint ∧
    (∀ pages ∈ c.live, ∀ p ∈ pages,
      p < c.pm.totalPages ∧ p ≠ 0 ∧ ¬ IsBitmapPage c.pm p ∧ InUsableEntry entries p) ∧
    c.pm.freePages =
      ((Finset.range c.pm.totalPages).filter fun p => Bitmap.test c.pm.bitmap p = false).card ∧
    c.pm.usedPages + c.pm.freePages = c.pm.totalPages ∧
    c.pm.lastAllocIndex ≤ c.pm.totalPages ∧
    ((allocPage c.pm).1 = outOfMemory ↔ c.pm.freePages = 0) := by
  have h := safe_run hfit hinit hrun
  refine ⟨(List.nodup_flatten.mp h.nodup).2, fun pages hpages p hp => ?_, h.counted.free,
    h.counted.total, h.counted.hint, ?_⟩
  · have ha := (h.held p (List.mem_flatten.mpr ⟨pages, hpages, hp⟩)).1
    exact ⟨ha.below, ha.notZero, ha.notBitmap, ha.usable⟩
  · rcases allocPage_cases h.counted with ⟨i, hi, heq⟩ | ⟨hzero, heq⟩
    · have ha := h.free i hi
      have hbelow := ha.below
      have hne := ha.notZero
      have hsmall := h.counted.small
      have hpos : 0 < c.pm.freePages := by
        rw [h.counted.free]
        exact Finset.card_pos.mpr ⟨i, hi⟩
      rw [heq, pageToPhysical_eq (by omega), outOfMemory]
      omega
    · simp [heq, hzero]

/-- A page and a pair of pages of the small map, one of the pair given back. -/
theorem pages_exclusive_and_counted_smallMap :
    ∃ c, Run Step ⟨smallMemory, []⟩ [.allocPage, .allocPages 2, .freePage (pageToPhysical 3)] c ∧
      c.live = [[2], [4]] ∧ c.live.Pairwise List.Disjoint ∧
      c.pm.usedPages + c.pm.freePages = c.pm.totalPages := by
  have hinit : init (fun _ => 0) (some ⟨some smallMap⟩) = some smallMemory := (Option.some_get _).symm
  have hfree : (freePage (allocPages (allocPage smallMemory).2 2).2 (pageToPhysical 3)).isSome =
      true := by
    decide +kernel
  obtain ⟨pm, hpm⟩ := Option.isSome_iff_exists.mp hfree
  have hrun : Run Step ⟨smallMemory, []⟩ [.allocPage, .allocPages 2, .freePage (pageToPhysical 3)] _ :=
    .cons .allocPage (.cons .allocPages (.single (.freePage (by decide +kernel) hpm)))
  have hlive : revoke (grant (grant [] (allocPage smallMemory).1 1)
      (allocPages (allocPage smallMemory).2 2).1 2) 3 1 = [[2], [4]] := by
    decide +kernel
  have hsound := pages_exclusive_and_counted (by simp [smallMap]) hinit hrun
  exact ⟨_, hrun, hlive, hsound.1, hsound.2.2.2.1⟩

end Avery.Pmm
