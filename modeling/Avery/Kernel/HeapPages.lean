import Avery.Kernel.PageMap
import Avery.Kernel.KernelSpace

/-!
# Pages for the heap

The loop of `expandHeap` takes one page at a time and maps it behind the last.
`MappedTo s s' start k` says that `s'` is `s` after `k` such steps: `k` more
pages are mapped, the tables they need exist, and the free pages are fewer by
exactly the number of these pages and tables (`demand`).

From such a state the next step succeeds, fails or stops the kernel, and the
state `s` the loop started from decides which.
-/

namespace Avery

open Vmm

/-! ## Requests to the physical memory manager -/

namespace Pmm

theorem allocPage_usable {pm : PhysicalMemory} (h : Usable pm) (hpos : 0 < pm.freePages) :
    ∃ i, i ∈ freeSet pm ∧ allocPage pm = (pageToPhysical i, takePage pm i) ∧
      pageToPhysical i = i * 4096 ∧ i ≠ 0 := by
  rcases allocPage_cases h.counted with ⟨i, hi, heq⟩ | ⟨hz, _⟩
  · have hlt := (mem_freeSet.mp hi).1
    have hsmall := h.counted.small
    refine ⟨i, hi, heq, pageToPhysical_eq (by omega), fun hz => ?_⟩
    subst hz
    exact h.notZero hi
  · omega

theorem freePages_takePage {pm : PhysicalMemory} {i : Nat} (h : Counted pm) (hi : i ∈ freeSet pm) :
    (takePage pm i).freePages = pm.freePages - 1 := by
  rw [(takePage_counted h hi).free, freeSet_takePage, Finset.card_erase_of_mem hi, h.free]

/-- Requests up to the number of free pages are served. -/
theorem afterRequests_usable {pm : PhysicalMemory} (h : Usable pm) :
    ∀ {k : Nat}, k ≤ pm.freePages → Usable (afterRequests pm k) ∧
      (afterRequests pm k).freePages = pm.freePages - k ∧
      freeSet (afterRequests pm k) ⊆ freeSet pm
  | 0, _ => ⟨h, rfl, Finset.Subset.refl _⟩
  | k + 1, hk => by
      obtain ⟨hu, hfree, hsub⟩ := afterRequests_usable h (k := k) (by omega)
      obtain ⟨i, hi, heq, _, _⟩ := allocPage_usable hu (by omega)
      have hnext : afterRequests pm (k + 1) = takePage (afterRequests pm k) i := by
        rw [← afterRequests_add pm k 1]
        exact congrArg Prod.snd heq
      have hu' := hu.allocPage
      rw [heq] at hu'
      rw [hnext]
      refine ⟨hu', by rw [freePages_takePage hu.counted hi]; omega, ?_⟩
      rw [freeSet_takePage]
      exact (Finset.erase_subset i _).trans hsub

theorem outOfPagesAfter_iff {pm : PhysicalMemory} (h : Usable pm) {k : Nat}
    (hk : k ≤ pm.freePages) : OutOfPagesAfter pm k ↔ k = pm.freePages := by
  obtain ⟨hu, hfree, _⟩ := afterRequests_usable h hk
  show (allocPage (afterRequests pm k)).1 = 0 ↔ _
  constructor
  · intro hz
    by_contra hne
    obtain ⟨i, _, heq, haddr, hi⟩ := allocPage_usable hu (by omega)
    rw [heq, haddr] at hz
    omega
  · intro heq
    rcases allocPage_cases hu.counted with ⟨i, hi, _⟩ | ⟨_, heq'⟩
    · have hcard := hu.counted.free
      have hpos := Finset.card_pos.mpr ⟨i, hi⟩
      omega
    · rw [heq']
      rfl

end Pmm

namespace KernelSpace

open Pmm (freeSet takePage pageToPhysical Usable)
open LawfulPageAllocator (Valid Owned)

/-! ## One page -/

def Mapped (s : KernelSpace) (virt : Nat) : Prop :=
  (leafEntry s.machine s.kernelPml4 virt).isSome

/-- The table at a path, in the kernel's tables. -/
abbrev table (s : KernelSpace) (p : List (Fin 512)) : Option Nat :=
  tableAt s.machine s.kernelPml4 p

abbrev freePages (s : KernelSpace) : Nat := s.machine.pages.freePages

/-- All tables of the kernel are well-formed. -/
abbrev Whole (s : KernelSpace) : Prop := Vmm.WellFormed s.machine s.kernelPml4

/-- The tables stay a tree when more frames are in use. -/
theorem Whole.setPages {s : KernelSpace} (h : s.Whole) {pages : Pmm.PhysicalMemory}
    (hv : Usable pages) (hsub : freeSet pages ⊆ freeSet s.machine.pages) :
    (s.setPages pages).Whole := by
  refine ⟨hv, h.tree, fun p t hp ht => ?_⟩
  obtain ⟨q, howned, hq⟩ := h.owned p t hp ht
  exact ⟨q, fun hmem => howned (hsub hmem), hq⟩

/-- The rest of the kernel has taken `k` pages. -/
theorem Whole.afterRequests {s : KernelSpace} (h : s.Whole) {k : Nat}
    (hk : k ≤ s.freePages) :
    (s.setPages (Vmm.afterRequests s.machine.pages k)).Whole ∧
      (s.setPages (Vmm.afterRequests s.machine.pages k)).freePages = s.freePages - k := by
  obtain ⟨hu, hfree, hsub⟩ := Pmm.afterRequests_usable h.valid hk
  exact ⟨h.setPages hu hsub, hfree⟩

/-! ## The loop -/

/-- The page iteration `i` of the loop maps. -/
def pageAt (start i : Nat) : Nat := add64 start (4096 * i)

/-- The paths of all tables that the first `k` pages need. -/
def neededTables (start k : Nat) : Finset (List (Fin 512)) :=
  (Finset.range k).biUnion fun i => tablePaths (pageAt start i)

theorem mem_neededTables {start k : Nat} {p : List (Fin 512)} :
    p ∈ neededTables start k ↔ ∃ i < k, p ∈ tablePaths (pageAt start i) := by
  simp only [neededTables, Finset.mem_biUnion, Finset.mem_range]

/-- The frames that the first `k` iterations take: the pages themselves and the
tables that do not exist yet. -/
def demand (s : KernelSpace) (start k : Nat) : Nat :=
  k + ((neededTables start k).filter fun p => s.table p = none).card

/-- `s'` is `s` after `k` iterations. -/
structure MappedTo (s s' : KernelSpace) (start k : Nat) : Prop where
  root : s'.kernelPml4 = s.kernelPml4
  offset : s'.machine.hhdmOffset = s.machine.hhdmOffset
  wellFormed : s'.Whole
  mapped : ∀ v, s'.Mapped v ↔ s.Mapped v ∨ ∃ i < k, pageOf v = pageOf (pageAt start i)
  kept : ∀ p t, p.length ≤ 3 → s.table p = some t → s'.table p = some t
  missing : ∀ p, p.length ≤ 3 → (s'.table p = none ↔ s.table p = none ∧ p ∉ neededTables start k)
  sub : freeSet s'.machine.pages ⊆ freeSet s.machine.pages
  free : s'.freePages + s.demand start k = s.freePages

theorem neededTables_succ (start k : Nat) :
    neededTables start (k + 1) = neededTables start k ∪ tablePaths (pageAt start k) := by
  rw [neededTables, Finset.range_add_one, Finset.biUnion_insert, Finset.union_comm]
  rfl

variable {s s' : KernelSpace} {start k : Nat}

theorem mappedTo_zero (start : Nat) (h : s.Whole) : MappedTo s s start 0 where
  root := rfl
  offset := rfl
  wellFormed := h
  mapped v := by simp
  kept _ _ _ ht := ht
  missing p _ := by simp [neededTables]
  sub := Finset.Subset.refl _
  free := by simp [demand, neededTables]

theorem MappedTo.mapped_start (h : MappedTo s s' start k) (hk : 0 < k) (hstart : start < 2 ^ 64) :
    s'.Mapped start := by
  have hzero : pageAt start 0 = start := Words.add_eq (by omega)
  exact (h.mapped start).mpr (Or.inr ⟨0, hk, by rw [hzero]⟩)

/-- One more page costs itself and the tables that are missing for it. -/
theorem MappedTo.demand_succ (h : MappedTo s s' start k) :
    s.demand start (k + 1) = s.demand start k + 1 +
      (missingTables s'.machine s'.kernelPml4 (pageAt start k)).card := by
  have hnew : (tablePaths (pageAt start k)).filter
      (fun p => s.table p = none ∧ p ∉ neededTables start k) =
      missingTables s'.machine s'.kernelPml4 (pageAt start k) :=
    Finset.filter_congr fun p hp => (h.missing p (length_of_mem_tablePaths hp)).symm
  have hunion : (neededTables start (k + 1)).filter (fun p => s.table p = none) =
      (neededTables start k).filter (fun p => s.table p = none) ∪
        missingTables s'.machine s'.kernelPml4 (pageAt start k) := by
    rw [← hnew, neededTables_succ]
    ext p
    simp only [Finset.mem_filter, Finset.mem_union]
    tauto
  have hdisjoint : Disjoint ((neededTables start k).filter fun p => s.table p = none)
      (missingTables s'.machine s'.kernelPml4 (pageAt start k)) := by
    rw [← hnew]
    refine Finset.disjoint_left.mpr fun p h₁ h₂ => ?_
    exact (Finset.mem_filter.mp h₂).2.2 (Finset.mem_filter.mp h₁).1
  rw [demand, hunion, Finset.card_union_of_disjoint hdisjoint, demand]
  omega

theorem demand_le_succ (s : KernelSpace) (start k : Nat) :
    s.demand start k + 1 ≤ s.demand start (k + 1) := by
  have hsub : ((neededTables start k).filter fun p => s.table p = none).card ≤
      ((neededTables start (k + 1)).filter fun p => s.table p = none).card := by
    rw [neededTables_succ]
    exact Finset.card_le_card (Finset.filter_subset_filter _ Finset.subset_union_left)
  unfold demand
  omega

theorem demand_mono (s : KernelSpace) (start : Nat) {j k : Nat} (hjk : j < k) :
    s.demand start j < s.demand start k := by
  induction hjk with
  | refl => exact demand_le_succ s start j
  | step _ ih => exact Nat.lt_of_lt_of_le ih (Nat.le_of_succ_le (demand_le_succ s start _))

/-- Physical memory is too small for the pages of the loop to meet again. -/
theorem MappedTo.lt_bound (h : MappedTo s s' start k) (hs : Usable s.machine.pages) :
    k ≤ 2 ^ 33 := by
  have hfree := h.free
  have hcounted := hs.counted
  have htotal := hcounted.total
  have hsmall := hcounted.small
  unfold demand freePages at hfree
  omega

theorem pageAt_mod (hstart : start % 4096 = 0) (i : Nat) : pageAt start i % 4096 = 0 := by
  unfold pageAt add64 Words.add
  omega

theorem pageOf_pageAt_ne {i j : Nat} (hij : i < j) (hj : j ≤ 2 ^ 33) (hstart : start % 4096 = 0) :
    pageOf (pageAt start j) ≠ pageOf (pageAt start i) := by
  unfold pageOf pageAt add64 Words.add
  omega

/-- The page of the next iteration is mapped only if it was mapped from the start. -/
theorem MappedTo.mapped_next (h : MappedTo s s' start k) (hs : Usable s.machine.pages)
    (hstart : start % 4096 = 0) : s'.Mapped (pageAt start k) ↔ s.Mapped (pageAt start k) := by
  rw [h.mapped]
  refine ⟨fun hm => hm.resolve_right ?_, Or.inl⟩
  rintro ⟨i, hi, heq⟩
  exact pageOf_pageAt_ne hi (h.lt_bound hs) hstart heq

/-- A mapped page has all its tables. -/
theorem missingTables_of_mapped {m : Machine Pmm.PhysicalMemory} {pml4 virt : Nat}
    (h : leafEntry m pml4 virt ≠ none) : missingTables m pml4 virt = ∅ := by
  have hpath : tableAt m pml4 (path virt) ≠ none := fun hn => h (by rw [leafEntry, hn]; rfl)
  have h₂ : tableAt m pml4 [pml4Index virt, pdptIndex virt] ≠ none :=
    Trie.walk_ne_none_of_append (q := [pdIndex virt]) hpath
  have h₁ : tableAt m pml4 [pml4Index virt] ≠ none :=
    Trie.walk_ne_none_of_append (q := [pdptIndex virt, pdIndex virt]) hpath
  refine Finset.filter_false_of_mem fun p hp => ?_
  simp only [tablePaths, Finset.mem_insert, Finset.mem_singleton] at hp
  rcases hp with rfl | rfl | rfl
  · exact h₁
  · exact h₂
  · exact hpath

/-- With the page `i` taken from physical memory. -/
def withoutPage (s : KernelSpace) (i : Nat) : KernelSpace := s.setPages (takePage s.machine.pages i)

theorem withoutPage_wellFormed {i : Nat} (h : s.Whole) (hi : i ∈ freeSet s.machine.pages) :
    (s.withoutPage i).Whole := by
  have hu : Usable s.machine.pages := h.valid
  have hsub : freeSet (takePage s.machine.pages i) ⊆ freeSet s.machine.pages := by
    rw [Pmm.freeSet_takePage]
    exact Finset.erase_subset i _
  exact h.setPages ⟨Pmm.takePage_counted hu.counted hi, fun hz => hu.notZero (hsub hz)⟩ hsub

/-- `mapPage` after a page has been taken for it: it stops the kernel when the
tables cannot be served, fails on a mapped page, and otherwise maps. -/
theorem mapPage_cases {i virt : Nat} (h : s.Whole) (hi : i ∈ freeSet s.machine.pages)
    (hv : virt % 4096 = 0) :
    s.freePages < 1 + (missingTables s.machine s.kernelPml4 virt).card ∧
      mapPage (s.withoutPage i) virt (i * 4096) = none ∨
    (s.Mapped virt ∧ ∃ m', Created (s.withoutPage i).machine m' s.kernelPml4 ∅ ∧
      mapPage (s.withoutPage i) virt (i * 4096) = some (false, ⟨m', s.kernelPml4⟩)) ∨
    ¬ s.Mapped virt ∧ 1 + (missingTables s.machine s.kernelPml4 virt).card ≤ s.freePages ∧
      ∃ t m' e, Created (s.withoutPage i).machine m' s.kernelPml4
        (missingTables s.machine s.kernelPml4 virt) ∧ isPresent e = true ∧
      tableAt m' s.kernelPml4 (path virt) = some t ∧
      mapPage (s.withoutPage i) virt (i * 4096) =
        some (true, ⟨m'.setEntry t (ptIndex virt) e, s.kernelPml4⟩) := by
  have hwf : Vmm.WellFormed (s.withoutPage i).machine s.kernelPml4 := withoutPage_wellFormed h hi
  have hu : Usable (s.withoutPage i).machine.pages := hwf.valid
  have hcount : (s.withoutPage i).machine.pages.freePages = s.freePages - 1 :=
    Pmm.freePages_takePage (h.valid : Usable _).counted hi
  have hpos : 0 < s.freePages := by
    rw [freePages, (h.valid : Usable _).counted.free]
    exact Finset.card_pos.mpr ⟨i, hi⟩
  have hserved : ∀ k, k ≤ s.freePages - 1 →
      (OutOfPagesAfter (s.withoutPage i).machine.pages k ↔ k = s.freePages - 1) := fun k hk => by
    rw [Pmm.outOfPagesAfter_iff hu (by rw [hcount]; exact hk), hcount]
  rcases Vmm.mapPage_cases flagWritable hwf hv
      (show i * 4096 % pageSize = 0 from Nat.mul_mod_left i 4096) with
    ⟨hn, k, hk, hout⟩ | ⟨t, m', hc, ht, ⟨hleaf, heq⟩ | ⟨hleaf, heq⟩⟩
  · refine Or.inl ⟨?_, by rw [mapPage]; exact congrArg _ hn⟩
    have hk : k < (missingTables s.machine s.kernelPml4 virt).card := hk
    by_contra hlt
    have := (hserved k (by omega)).mp hout
    omega
  · have hnone : missingTables (s.withoutPage i).machine s.kernelPml4 virt = ∅ :=
      missingTables_of_mapped hleaf
    rw [hnone] at hc
    refine Or.inr (Or.inl ⟨Option.isSome_iff_ne_none.mpr hleaf, m', hc, ?_⟩)
    rw [mapPage]
    exact congrArg _ heq
  · have hc : Created (s.withoutPage i).machine m' s.kernelPml4
        (missingTables s.machine s.kernelPml4 virt) := hc
    refine Or.inr (Or.inr ⟨fun hm => Option.isSome_iff_ne_none.mp hm hleaf, ?_, t, m', _, hc,
      isPresent_or_present _, ht, by rw [mapPage]; exact congrArg _ heq⟩)
    by_contra hlt
    exact hc.served (s.freePages - 1) (by omega) ((hserved _ (Nat.le_refl _)).mpr rfl)

/-- One iteration takes a page and maps it, or there is none. -/
theorem mapPagesLoop_cases {pm : Pmm.PhysicalMemory} (hu : Usable pm) :
    (pm.freePages = 0 ∧ ∀ {s : KernelSpace}, s.machine.pages = pm → ∀ start offset n,
        Heap.mapPagesLoop s start offset (n + 1) = some (false, s)) ∨
      ∃ i ∈ freeSet pm, ∀ {s : KernelSpace}, s.machine.pages = pm → ∀ start offset n,
        Heap.mapPagesLoop s start offset (n + 1) =
          (mapPage (s.withoutPage i) (add64 start offset) (i * 4096)).bind fun r =>
            if r.1 then Heap.mapPagesLoop r.2 start (offset + 4096) n
            else (freePage r.2 (i * 4096)).map fun s => (false, s) := by
  by_cases hz : pm.freePages = 0
  · refine Or.inl ⟨hz, fun {s} hs start offset n => ?_⟩
    subst hs
    rcases Pmm.allocPage_cases hu.counted with ⟨i, hi, _⟩ | ⟨_, heq⟩
    · rw [hu.counted.free, Finset.card_eq_zero] at hz
      rw [hz] at hi
      exact absurd hi (Finset.notMem_empty i)
    · have halloc : PageAllocator.allocPage s = (0, s) :=
        congrArg (fun r : Nat × Pmm.PhysicalMemory => (r.1, s.setPages r.2)) heq
      rw [Heap.mapPagesLoop, halloc]
      rfl
  obtain ⟨i, hi, heq, haddr, hi0⟩ := Pmm.allocPage_usable hu (Nat.pos_of_ne_zero hz)
  refine Or.inr ⟨i, hi, fun {s} hs start offset n => ?_⟩
  subst hs
  have halloc : PageAllocator.allocPage s = (i * 4096, s.withoutPage i) := by
    rw [← haddr]
    exact congrArg (fun r : Nat × Pmm.PhysicalMemory => (r.1, s.setPages r.2)) heq
  have hphys : i * 4096 ≠ 0 := by omega
  rw [Heap.mapPagesLoop, halloc]
  simp only [if_neg hphys]
  refine congrArg _ (funext fun r => ?_)
  obtain ⟨ok, r⟩ := r
  cases ok with
  | true => rfl
  | false => cases hf : freePage r (i * 4096) <;> simp [hf, KernelPages.freePage]

section Step

variable (h : MappedTo s s' start k)

include h

/-- After a page has been mapped. -/
theorem MappedTo.advance {i t e : Nat} {m' : Machine Pmm.PhysicalMemory}
    (hi : i ∈ freeSet s'.machine.pages)
    (hcard : 1 + (missingTables s'.machine s'.kernelPml4 (pageAt start k)).card ≤ s'.freePages)
    (hc : Created (s'.withoutPage i).machine m' s'.kernelPml4
      (missingTables s'.machine s'.kernelPml4 (pageAt start k))) (he : isPresent e = true)
    (ht : tableAt m' s'.kernelPml4 (path (pageAt start k)) = some t) :
    MappedTo s ⟨m'.setEntry t (ptIndex (pageAt start k)) e, s'.kernelPml4⟩ start (k + 1) := by
  obtain ⟨hwf, htables, hleaf⟩ := hc.wellFormed.setEntry ht e
  have hu : Usable (s'.withoutPage i).machine.pages := (withoutPage_wellFormed h.wellFormed hi).valid
  have hcount : (s'.withoutPage i).machine.pages.freePages = s'.freePages - 1 :=
    Pmm.freePages_takePage (h.wellFormed.valid : Usable _).counted hi
  obtain ⟨_, hfree, hsub⟩ := Pmm.afterRequests_usable hu
    (k := (missingTables s'.machine s'.kernelPml4 (pageAt start k)).card) (by omega)
  have hdemand := h.demand_succ
  have hbefore := h.free
  have hpages : m'.pages = _ := hc.pages
  refine ⟨h.root, hc.offset.trans h.offset, hwf, fun v => ?_, fun p u hp hu => ?_, fun p hp => ?_, ?_,
    ?_⟩
  · have hold : leafEntry m' s'.kernelPml4 v = leafEntry s'.machine s'.kernelPml4 v := hc.leaf v
    rw [Mapped, hleaf, hold]
    by_cases hpage : pageOf v = pageOf (pageAt start k)
    · rw [if_pos hpage, if_pos he]
      exact iff_of_true rfl (Or.inr ⟨k, Nat.lt_succ_self k, hpage⟩)
    · rw [if_neg hpage]
      refine (h.mapped v).trans (or_congr_right ⟨?_, ?_⟩)
      · rintro ⟨j, hj, heq⟩
        exact ⟨j, Nat.lt_succ_of_lt hj, heq⟩
      · rintro ⟨j, hj, heq⟩
        have hne : j ≠ k := fun hjk => hpage (hjk ▸ heq)
        exact ⟨j, by omega, heq⟩
  · rw [table, htables p hp]
    exact hc.kept p u hp (h.kept p u hp hu)
  · have hold : tableAt m' s'.kernelPml4 p = none ↔ s'.table p = none ∧
        p ∉ missingTables s'.machine s'.kernelPml4 (pageAt start k) := hc.missing p hp
    have hmem : s'.table p = none → (p ∉ missingTables s'.machine s'.kernelPml4 (pageAt start k) ↔
        p ∉ tablePaths (pageAt start k)) := fun hn => by
      rw [missingTables, Finset.mem_filter, and_iff_left hn]
    rw [table, htables p hp, hold, neededTables_succ, Finset.notMem_union, ← and_assoc,
      ← h.missing p hp]
    exact and_congr_right hmem
  · have hsub' : freeSet m'.pages ⊆ freeSet (s'.withoutPage i).machine.pages := by
      rw [hpages]
      exact hsub
    exact hsub'.trans ((Pmm.freeSet_takePage _ i ▸ Finset.erase_subset i _).trans h.sub)
  · have hafter : m'.pages.freePages = s'.freePages - 1 -
        (missingTables s'.machine s'.kernelPml4 (pageAt start k)).card := by
      rw [hpages, hfree, hcount]
    show m'.pages.freePages + _ = _
    omega

/-- A page taken and given back leaves the same pages free. -/
theorem MappedTo.giveBack {i : Nat} {m' : Machine Pmm.PhysicalMemory}
    (hi : i ∈ freeSet s'.machine.pages)
    (hc : Created (s'.withoutPage i).machine m' s'.kernelPml4 ∅) :
    ∃ s'', freePage ⟨m', s'.kernelPml4⟩ (i * 4096) = some s'' ∧ MappedTo s s'' start k := by
  have hcounted : Pmm.Counted s'.machine.pages := (h.wellFormed.valid : Usable _).counted
  have hpages : m'.pages = takePage s'.machine.pages i := hc.pages
  have hlt : i < (takePage s'.machine.pages i).totalPages := (Pmm.mem_freeSet.mp hi).1
  have htaken : i ∉ freeSet (takePage s'.machine.pages i) := by
    rw [Pmm.freeSet_takePage]
    exact Finset.notMem_erase i _
  have htest : Bitmap.test (takePage s'.machine.pages i).bitmap i = true := by
    cases ht : Bitmap.test (takePage s'.machine.pages i).bitmap i with
    | true => rfl
    | false => exact absurd (Pmm.mem_freeSet.mpr ⟨hlt, ht⟩) htaken
  have hcounted' := Pmm.takePage_counted hcounted hi
  have hset : freeSet (Pmm.releasePage (takePage s'.machine.pages i) i) =
      freeSet s'.machine.pages := by
    rw [Pmm.freeSet_releasePage hlt, Pmm.freeSet_takePage, Finset.insert_erase hi]
  have hreleased := Pmm.releasePage_counted hcounted' hlt htest
  have hfree : Pmm.freePage (takePage s'.machine.pages i) (i * 4096) =
      some (Pmm.releasePage (takePage s'.machine.pages i) i) := by
    have hsmall := hcounted'.small
    rw [← Pmm.pageToPhysical_eq (by omega)]
    exact Pmm.freePage_eq hcounted'.tallied.addressable hlt htest
  have hcount : (Pmm.releasePage (takePage s'.machine.pages i) i).freePages = s'.freePages := by
    rw [hreleased.free, hset, freePages, hcounted.free]
  refine ⟨KernelSpace.setPages ⟨m', s'.kernelPml4⟩
    (Pmm.releasePage (takePage s'.machine.pages i) i), ?_, ?_⟩
  · rw [freePage, hpages, hfree]
    rfl
  · have hwf : (KernelSpace.mk m' s'.kernelPml4).Whole := hc.wellFormed
    have hu : Usable (Pmm.releasePage (takePage s'.machine.pages i) i) :=
      ⟨hreleased, hset ▸ (h.wellFormed.valid : Usable _).notZero⟩
    have hnone : ∀ p, p.length ≤ 3 → (tableAt m' s'.kernelPml4 p = none ↔ s'.table p = none) :=
      fun p hp => (hc.missing p hp).trans (and_iff_left (Finset.notMem_empty p))
    refine ⟨h.root, hc.offset.trans h.offset, ⟨hu, hwf.tree, fun p t hp ht => ?_⟩, fun v => ?_,
      fun p u hp ht => hc.kept p u hp (h.kept p u hp ht), fun p hp => ?_, ?_, ?_⟩
    · cases hold : s'.table p with
      | none =>
          have hmissing := (hnone p hp).mpr hold
          have ht : tableAt m' s'.kernelPml4 p = some t := ht
          rw [hmissing] at ht
          cases ht
      | some u =>
          obtain ⟨q, howned, hq, heq⟩ := h.wellFormed.owned p u hp hold
          have ht : tableAt m' s'.kernelPml4 p = some t := ht
          rw [hc.kept p u hp hold, Option.some.injEq] at ht
          subst ht
          refine ⟨q, fun hmem => howned (hset ▸ hmem), hq, heq.trans ?_⟩
          exact congrArg (add64 q) hc.offset.symm
    · refine Iff.trans ?_ (h.mapped v)
      exact Eq.to_iff (congrArg (fun e : Option Nat => (e.isSome : Prop)) (hc.leaf v))
    · exact (hnone p hp).trans (h.missing p hp)
    · exact (Finset.Subset.trans (Finset.subset_of_eq hset) h.sub)
    · exact (congrArg (· + s.demand start k) hcount).trans h.free

/-- After an iteration that has mapped its page. -/
theorem MappedTo.mapPage_true {i : Nat} {r : KernelSpace} (hstart : start % 4096 = 0)
    (hi : i ∈ freeSet s'.machine.pages)
    (hmap : mapPage (s'.withoutPage i) (pageAt start k) (i * 4096) = some (true, r)) :
    MappedTo s r start (k + 1) := by
  rcases mapPage_cases h.wellFormed hi (pageAt_mod hstart k) with
    ⟨_, hnone⟩ | ⟨_, m', _, heq⟩ | ⟨_, hle, t, m', e, hc, he, ht, heq⟩
  · rw [hnone] at hmap
    cases hmap
  · rw [heq] at hmap
    cases hmap
  · rw [heq, Option.some.injEq, Prod.mk.injEq] at hmap
    obtain ⟨-, rfl⟩ := hmap
    exact h.advance hi hle hc he ht

/-- The next iteration, as the state before the loop decides it. -/
theorem MappedTo.step (hwf : s.Whole) (hstart : start % 4096 = 0) (n : Nat) :
    ((s.freePages = s.demand start k ∨
        s.demand start k < s.freePages ∧ s.Mapped (pageAt start k)) ∧
      ∃ s'', Heap.mapPagesLoop s' start (4096 * k) (n + 1) = some (false, s'') ∧
        MappedTo s s'' start k) ∨
    (¬ s.Mapped (pageAt start k) ∧ s.demand start (k + 1) ≤ s.freePages ∧
      ∃ s'', Heap.mapPagesLoop s' start (4096 * k) (n + 1) =
          Heap.mapPagesLoop s'' start (4096 * (k + 1)) n ∧ MappedTo s s'' start (k + 1)) ∨
    ¬ s.Mapped (pageAt start k) ∧ s.demand start k < s.freePages ∧
      s.freePages < s.demand start (k + 1) ∧
      Heap.mapPagesLoop s' start (4096 * k) (n + 1) = none := by
  have hu : Usable s'.machine.pages := h.wellFormed.valid
  have hfree := h.free
  have hdemand := h.demand_succ
  have hmapped := h.mapped_next hwf.valid hstart
  rcases mapPagesLoop_cases hu with ⟨hz, hloop⟩ | ⟨i, hi, hloop⟩
  · have hz : s'.freePages = 0 := hz
    exact Or.inl ⟨Or.inl (by omega), s', hloop rfl .., h⟩
  have hpos : 0 < s'.freePages := by
    rw [freePages, hu.counted.free]
    exact Finset.card_pos.mpr ⟨i, hi⟩
  have hloop : Heap.mapPagesLoop s' start (4096 * k) (n + 1) =
      (mapPage (s'.withoutPage i) (pageAt start k) (i * 4096)).bind fun r =>
        if r.1 then Heap.mapPagesLoop r.2 start (4096 * (k + 1)) n
        else (freePage r.2 (i * 4096)).map fun s => (false, s) :=
    hloop rfl ..
  rcases mapPage_cases h.wellFormed hi (pageAt_mod hstart k) with
    ⟨hlt, hnone⟩ | ⟨hm, m', hc, hmap⟩ | ⟨hm, hle, t, m', e, hc, he, ht, hmap⟩
  · refine Or.inr (Or.inr ⟨fun hm => ?_, by omega, by omega, by rw [hloop, hnone]; rfl⟩)
    rw [missingTables_of_mapped (Option.isSome_iff_ne_none.mp (hmapped.mpr hm)),
      Finset.card_empty] at hlt
    omega
  · obtain ⟨s'', hfreed, hback⟩ := h.giveBack hi hc
    refine Or.inl ⟨Or.inr ⟨by omega, hmapped.mp hm⟩, s'', ?_, hback⟩
    rw [hloop, hmap, Option.bind_some]
    simp only [Bool.false_eq_true, if_false, hfreed]
    rfl
  · refine Or.inr (Or.inl ⟨fun hs => hm (hmapped.mpr hs), by omega, _, ?_, h.advance hi hle hc he ht⟩)
    rw [hloop, hmap, Option.bind_some]
    rfl

end Step

/-! ## The whole loop -/

/-- The loop fails at iteration `k`: the pages before are mapped without trouble,
and then no page is left, or the page is mapped already. -/
def FailsAt (s : KernelSpace) (start k : Nat) : Prop :=
  (∀ i < k, ¬ s.Mapped (pageAt start i)) ∧
    (s.freePages = s.demand start k ∨ s.demand start k < s.freePages ∧ s.Mapped (pageAt start k))

/-- A loop that returns false failed at one of its iterations. -/
theorem MappedTo.loop_false (hwf : s.Whole) (hstart : start % 4096 = 0) {r : KernelSpace} :
    ∀ {n k : Nat} {s' : KernelSpace}, MappedTo s s' start k →
      (∀ i < k, ¬ s.Mapped (pageAt start i)) →
      Heap.mapPagesLoop s' start (4096 * k) n = some (false, r) →
      ∃ j, k ≤ j ∧ j < k + n ∧ FailsAt s start j ∧ MappedTo s r start j
  | 0, _, _, _, _, hloop => by
      rw [Heap.mapPagesLoop, Option.some.injEq, Prod.mk.injEq] at hloop
      exact absurd hloop.1 Bool.noConfusion
  | n + 1, k, s', h, hbefore, hloop => by
      rcases h.step hwf hstart n with
        ⟨hfail, s'', heq, h'⟩ | ⟨hm, _, s'', heq, h'⟩ | ⟨_, _, _, heq⟩
      · rw [heq, Option.some.injEq, Prod.mk.injEq] at hloop
        obtain ⟨_, rfl⟩ := hloop
        exact ⟨k, Nat.le_refl k, by omega, ⟨hbefore, hfail⟩, h'⟩
      · rw [heq] at hloop
        have hbefore' : ∀ i < k + 1, ¬ s.Mapped (pageAt start i) := fun i hi => by
          rcases Nat.lt_succ_iff_lt_or_eq.mp hi with hi | rfl
          · exact hbefore i hi
          · exact hm
        obtain ⟨j, hkj, hj, hfails, hr⟩ := h'.loop_false hwf hstart hbefore' hloop
        exact ⟨j, by omega, by omega, hfails, hr⟩
      · rw [heq] at hloop
        cases hloop

/-- A loop returns false when it fails at one of its iterations. -/
theorem MappedTo.loop_fails (hwf : s.Whole) (hstart : start % 4096 = 0) {j : Nat}
    (hfails : FailsAt s start j) :
    ∀ {n k : Nat} {s' : KernelSpace}, MappedTo s s' start k → k ≤ j → j < k + n →
      ∃ r, Heap.mapPagesLoop s' start (4096 * k) n = some (false, r) ∧ MappedTo s r start j
  | 0, _, _, _, hkj, hj => by omega
  | n + 1, k, s', h, hkj, hj => by
      have hreach : s.demand start j ≤ s.freePages := by
        rcases hfails.2 with heq | ⟨hlt, _⟩
        · exact Nat.le_of_eq heq.symm
        · exact Nat.le_of_lt hlt
      rcases Nat.lt_or_eq_of_le hkj with hlt | rfl
      · have hmono := demand_mono s start hlt
        have hnext : s.demand start (k + 1) ≤ s.demand start j := by
          rcases Nat.lt_or_eq_of_le hlt with hlt' | heq
          · exact Nat.le_of_lt (demand_mono s start hlt')
          · exact Nat.le_of_eq (congrArg _ heq)
        rcases h.step hwf hstart n with
          ⟨hstop | ⟨_, hm⟩, _⟩ | ⟨_, _, s'', heq, h'⟩ | ⟨_, _, hshort, _⟩
        · omega
        · exact absurd hm (hfails.1 k hlt)
        · rw [heq]
          exact h'.loop_fails hwf hstart hfails hlt (by omega)
        · omega
      · rcases h.step hwf hstart n with
          ⟨_, s'', heq, h'⟩ | ⟨hm, hle, _⟩ | ⟨hm, hlt, _⟩
        · exact ⟨s'', heq, h'⟩
        · have hmono := demand_le_succ s start k
          rcases hfails.2 with heq | ⟨_, hmapped⟩
          · omega
          · exact absurd hmapped hm
        · rcases hfails.2 with heq | ⟨_, hmapped⟩
          · omega
          · exact absurd hmapped hm

/-- A loop over unmapped pages returns true when there are enough free pages. -/
theorem MappedTo.loop_true (hwf : s.Whole) (hstart : start % 4096 = 0) :
    ∀ {n k : Nat} {s' : KernelSpace}, MappedTo s s' start k →
      (∀ i < k + n, ¬ s.Mapped (pageAt start i)) → s.demand start (k + n) ≤ s.freePages →
      ∃ r, Heap.mapPagesLoop s' start (4096 * k) n = some (true, r) ∧ MappedTo s r start (k + n)
  | 0, _, s', h, _, _ => ⟨s', rfl, h⟩
  | n + 1, k, s', h, hunmapped, hdemand => by
      have hmono := demand_mono s start (show k < k + (n + 1) by omega)
      have hnext : s.demand start (k + 1) ≤ s.demand start (k + (n + 1)) := by
        rcases Nat.eq_zero_or_pos n with rfl | hn
        · exact Nat.le_refl _
        · exact Nat.le_of_lt (demand_mono s start (by omega))
      rcases h.step hwf hstart n with
        ⟨hstop | ⟨_, hm⟩, _⟩ | ⟨_, _, s'', heq, h'⟩ | ⟨_, _, hshort, _⟩
      · omega
      · exact absurd hm (hunmapped k (by omega))
      · rw [heq, show k + (n + 1) = k + 1 + n by omega]
        rw [show k + (n + 1) = k + 1 + n by omega] at hunmapped hdemand
        exact h'.loop_true hwf hstart hunmapped hdemand
      · omega

/-- A loop that returns true has mapped all its pages. -/
theorem MappedTo.loop_done (hwf : s.Whole) (hstart : start % 4096 = 0) {r : KernelSpace} :
    ∀ {n k : Nat} {s' : KernelSpace}, MappedTo s s' start k →
      Heap.mapPagesLoop s' start (4096 * k) n = some (true, r) → MappedTo s r start (k + n)
  | 0, _, _, h, hloop => by
      rw [Heap.mapPagesLoop, Option.some.injEq, Prod.mk.injEq] at hloop
      obtain ⟨_, rfl⟩ := hloop
      exact h
  | n + 1, k, s', h, hloop => by
      rcases h.step hwf hstart n with
        ⟨_, s'', heq, _⟩ | ⟨_, _, s'', heq, h'⟩ | ⟨_, _, _, heq⟩
      · rw [heq, Option.some.injEq, Prod.mk.injEq] at hloop
        exact absurd hloop.1 Bool.noConfusion
      · rw [heq] at hloop
        rw [show k + (n + 1) = k + 1 + n by omega]
        exact h'.loop_done hwf hstart hloop
      · rw [heq] at hloop
        cases hloop

/-- A loop that returns has mapped some of its pages. -/
theorem MappedTo.loop_returns (hwf : s.Whole) (hstart : start % 4096 = 0) {ok : Bool}
    {r : KernelSpace} {n : Nat} (h : Heap.mapPagesLoop s start 0 n = some (ok, r)) :
    ∃ j ≤ n, MappedTo s r start j := by
  have hzero := mappedTo_zero start hwf
  cases ok with
  | true =>
      have hdone := hzero.loop_done hwf hstart h
      exact ⟨0 + n, by omega, hdone⟩
  | false =>
      obtain ⟨j, _, hj, _, hr⟩ := hzero.loop_false hwf hstart
        (fun i hi => absurd hi (Nat.not_lt_zero i)) h
      exact ⟨j, by omega, hr⟩

/-- A loop that stops the kernel needs more pages than there are. -/
theorem MappedTo.loop_none (hwf : s.Whole) (hstart : start % 4096 = 0) {n : Nat} :
    ∀ {k : Nat} {s' : KernelSpace}, MappedTo s s' start k →
      Heap.mapPagesLoop s' start (4096 * k) n = none → s.freePages < s.demand start (k + n) := by
  induction n with
  | zero =>
      intro k s' _ hloop
      cases hloop
  | succ n ih =>
      intro k s' h hloop
      have hnext : k + (n + 1) = k + 1 + n := by omega
      rw [hnext]
      rcases h.step hwf hstart n with
        ⟨_, s'', heq, _⟩ | ⟨_, _, s'', heq, h'⟩ | ⟨_, _, hshort, _⟩
      · rw [heq] at hloop
        cases hloop
      · rw [heq] at hloop
        exact ih h' hloop
      · cases n with
        | zero => exact hshort
        | succ n => exact Nat.lt_trans hshort (demand_mono s start (by omega))

/-! ## What the loop takes -/

/-- Before the first page nothing has been taken. -/
theorem MappedTo.freeSet_eq {s s' : KernelSpace} {start : Nat} (hr : MappedTo s s' start 0)
    (hwf : s.Whole) : freeSet s'.machine.pages = freeSet s.machine.pages := by
  have hfree := hr.free
  have hzero : s.demand start 0 = 0 := by simp [demand, neededTables]
  have hs : s.freePages = _ := (hwf.valid : Usable _).counted.free
  have hs' : s'.freePages = _ := (hr.wellFormed.valid : Usable _).counted.free
  exact Finset.eq_of_subset_of_card_le hr.sub (by omega)

/-- Of the frames that `k` iterations take, all but `k` hold page tables.  If
all of them do, there were no iterations. -/
theorem MappedTo.eq_zero_of_tables {s s' : KernelSpace} {start k : Nat}
    (hr : MappedTo s s' start k) (hwf : s.Whole)
    (htables : ∀ q ∈ freeSet s.machine.pages, q ∉ freeSet s'.machine.pages →
      ∃ p, p.length ≤ 3 ∧
        s'.table p = some (s'.machine.physicalToVirtual (pageToPhysical q))) : k = 0 := by
  have hcounted := (hwf.valid : Usable _).counted
  have hs : s.freePages = _ := hcounted.free
  have hs' : s'.freePages = _ := (hr.wellFormed.valid : Usable _).counted.free
  have hfree := hr.free
  have htaken : (freeSet s.machine.pages \ freeSet s'.machine.pages).card = s.demand start k := by
    rw [Finset.card_sdiff_of_subset hr.sub]
    omega
  have haddr : ∀ q ∈ freeSet s.machine.pages,
      q ≤ 2 ^ 33 ∧ pageToPhysical q = q * 4096 ∧ q * 4096 < 2 ^ 52 := fun q hq => by
    have hlt := (Pmm.mem_freeSet.mp hq).1
    have hsmall := hcounted.small
    exact ⟨by omega, Pmm.pageToPhysical_eq (by omega), by omega⟩
  choose! f hf using fun q (hq : q ∈ freeSet s.machine.pages \ freeSet s'.machine.pages) =>
    htables q (Finset.mem_sdiff.mp hq).1 (Finset.mem_sdiff.mp hq).2
  have hle : (freeSet s.machine.pages \ freeSet s'.machine.pages).card ≤
      ((neededTables start k).filter fun p => s.table p = none).card := by
    refine Finset.card_le_card_of_injOn f (fun q hq => ?_) fun q hq q' hq' heq => ?_
    · obtain ⟨hlen, htable⟩ := hf q hq
      have hqfree := (Finset.mem_sdiff.mp hq).1
      obtain ⟨hbound, hphys, hsmall⟩ := haddr q hqfree
      have hnone : s.table (f q) = none := by
        cases hold : s.table (f q) with
        | none => rfl
        | some t =>
            -- a table of `s` lies in a frame that was in use already
            obtain ⟨g, howned, hg, heq⟩ := hwf.owned (f q) t hlen hold
            rw [hr.kept (f q) t hlen hold, Option.some.injEq, heq, hphys] at htable
            have hoffset : s'.machine.physicalToVirtual (q * 4096) =
                s.machine.physicalToVirtual (q * 4096) := congrArg (add64 (q * 4096)) hr.offset
            rw [hoffset] at htable
            have hgq := physicalToVirtual_inj hg hsmall htable
            have hpage : Pmm.physicalToPage g = q := by
              rw [hgq, ← hphys]
              exact Pmm.physicalToPage_pageToPhysical (by omega)
            exact absurd hqfree (hpage ▸ howned)
      refine Finset.mem_filter.mpr ⟨?_, hnone⟩
      by_contra hnot
      have := (hr.missing (f q) hlen).mpr ⟨hnone, hnot⟩
      rw [htable] at this
      cases this
    · have h₁ := (hf q hq).2
      have h₂ := (hf q' hq').2
      obtain ⟨_, hphys, hsmall⟩ := haddr q (Finset.mem_sdiff.mp hq).1
      obtain ⟨_, hphys', hsmall'⟩ := haddr q' (Finset.mem_sdiff.mp hq').1
      rw [heq, h₂, hphys, hphys', Option.some.injEq] at h₁
      have := physicalToVirtual_inj hsmall' hsmall h₁
      omega
  rw [htaken, demand] at hle
  omega

end KernelSpace

end Avery
