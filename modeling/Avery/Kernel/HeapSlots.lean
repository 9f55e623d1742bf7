import Avery.Kernel.HeapPages
import Avery.Kernel.RootSlots

/-!
# The heap's entries of the root

The heap maps pages from `kernelHeapStart` on, which are below the entries of the root from its
own on (`heapSlots`).  So it is enough that the tables below these are well-formed
(`WellFormed`).  The entries before may lead to anything, also to large pages, whose frames
`getNextTable` takes for tables.

The loop of `expandHeap` does on the heap's part of the tables what it does on the whole
(`mapPagesLoop_heapPart`).  There `MappedTo` describes it.
-/

namespace Avery.KernelSpace

open Vmm
open Pmm (Usable freeSet)
open Heap (kernelHeapStart kernelHeapMaxSize)

/-- The entries of the root from that of `kernelHeapStart` on. -/
def heapSlots (i : Fin 512) : Prop := 320 ≤ i.val

instance : DecidablePred heapSlots := fun i => inferInstanceAs (Decidable (320 ≤ i.val))

/-- The space with no other entry in the root. -/
def heapPart (s : KernelSpace) : KernelSpace :=
  { s with machine := s.machine.restrict heapSlots s.kernelPml4 }

/-- The tables of the pages from `kernelHeapStart` on are well-formed. -/
abbrev WellFormed (s : KernelSpace) : Prop := s.heapPart.Whole

theorem Whole.wellFormed {s : KernelSpace} (h : s.Whole) : s.WellFormed := Vmm.WellFormed.restrict h

/-- The rest of the kernel has taken `k` pages. -/
theorem WellFormed.afterRequests {s : KernelSpace} (h : s.WellFormed) {k : Nat}
    (hk : k ≤ s.freePages) :
    (s.setPages (Vmm.afterRequests s.machine.pages k)).WellFormed ∧
      (s.setPages (Vmm.afterRequests s.machine.pages k)).freePages = s.freePages - k :=
  Whole.afterRequests h hk

/-! ## Pages of the heap -/

/-- An address of a page where the heap may grow. -/
structure InHeap (start : Nat) : Prop where
  aligned : start % 4096 = 0
  start_le : kernelHeapStart ≤ start
  le_max : start ≤ kernelHeapStart + kernelHeapMaxSize

theorem slot_of_le {v : Nat} (hle : kernelHeapStart ≤ v) (hlt : v < 2 ^ 64) :
    heapSlots (pml4Index v) := by
  unfold kernelHeapStart at hle
  rw [heapSlots, pml4Index, tableIndex_val]
  omega

/-- No growth leaves the heap's entries of the root: before that, physical memory ends. -/
theorem InHeap.slot {start i : Nat} (hs : InHeap start) (hi : i ≤ 2 ^ 33) :
    heapSlots (pml4Index (pageAt start i)) := by
  have hle := hs.start_le
  have hmax := hs.le_max
  unfold kernelHeapStart at hle hmax
  unfold kernelHeapMaxSize at hmax
  have hat : pageAt start i = start + 4096 * i := Words.add_eq (by omega)
  refine slot_of_le ?_ ?_ <;> rw [hat]
  · unfold kernelHeapStart
    omega
  · omega

variable {s r : KernelSpace}

theorem mapped_heapPart (h : s.WellFormed) {v : Nat} (hv : heapSlots (pml4Index v)) :
    s.heapPart.Mapped v ↔ s.Mapped v := by
  have hleaf : leafEntry s.heapPart.machine s.kernelPml4 v = leafEntry s.machine s.kernelPml4 v :=
    leafEntry_restrict h.tree hv
  unfold Mapped
  rw [← hleaf]
  rfl

theorem mapped_pageAt (h : s.WellFormed) {start i : Nat} (hs : InHeap start) (hi : i ≤ 2 ^ 33) :
    s.heapPart.Mapped (pageAt start i) ↔ s.Mapped (pageAt start i) :=
  mapped_heapPart h (hs.slot hi)

theorem demand_heapPart (h : s.WellFormed) {start k : Nat} (hs : InHeap start) (hk : k ≤ 2 ^ 33) :
    s.heapPart.demand start k = s.demand start k := by
  have htables : (neededTables start k).filter (fun p => s.heapPart.table p = none) =
      (neededTables start k).filter fun p => s.table p = none := by
    refine Finset.filter_congr fun p hp => ?_
    obtain ⟨i, hi, hp⟩ := mem_neededTables.mp hp
    have hslot := hs.slot (Nat.le_trans (Nat.le_of_lt hi) hk)
    have htable : ∀ q : List (Fin 512), q.length ≤ 2 →
        s.heapPart.table (pml4Index (pageAt start i) :: q) =
          s.table (pml4Index (pageAt start i) :: q) := fun q hq => tableAt_restrict h.tree hslot hq
    simp only [tablePaths, path, Finset.mem_insert, Finset.mem_singleton] at hp
    rcases hp with rfl | rfl | rfl <;> rw [htable _ (by simp)]
  rw [demand, demand, htables]

theorem freePages_le (h : s.WellFormed) : s.freePages ≤ 2 ^ 33 := by
  have hu : Usable s.machine.pages := h.valid
  have htotal := hu.counted.total
  have hsmall := hu.counted.small
  show s.machine.pages.freePages ≤ 2 ^ 33
  omega

theorem le_demand (s : KernelSpace) (start k : Nat) : k ≤ s.demand start k := Nat.le_add_right _ _

theorem failsAt_heapPart (h : s.WellFormed) {start k : Nat} (hs : InHeap start) :
    FailsAt s.heapPart start k ↔ FailsAt s start k := by
  have hfree := freePages_le h
  have hbound : k ≤ 2 ^ 33 → (FailsAt s.heapPart start k ↔ FailsAt s start k) := fun hk => by
    have hfirst : (∀ i < k, ¬ s.heapPart.Mapped (pageAt start i)) ↔
        ∀ i < k, ¬ s.Mapped (pageAt start i) :=
      forall₂_congr fun i hi => not_congr (mapped_pageAt h hs (Nat.le_trans (Nat.le_of_lt hi) hk))
    rw [FailsAt, FailsAt, hfirst, mapped_pageAt h hs hk, demand_heapPart h hs hk]
    rfl
  constructor
  · intro hfails
    have hk : k ≤ s.freePages := by
      have hle := le_demand s.heapPart start k
      have heq : s.heapPart.freePages = s.freePages := rfl
      rcases hfails.2 with hlast | ⟨hlast, _⟩ <;> omega
    exact (hbound (Nat.le_trans hk hfree)).mp hfails
  · intro hfails
    have hk : k ≤ s.freePages := by
      have hle := le_demand s start k
      rcases hfails.2 with hlast | ⟨hlast, _⟩ <;> omega
    exact (hbound (Nat.le_trans hk hfree)).mpr hfails

/-! ## The loop on the heap's part -/

theorem mapPage_heapPart (h : s.WellFormed) {virt : Nat} (hv : heapSlots (pml4Index virt))
    (phys : Nat) : mapPage s.heapPart virt phys = (mapPage s virt phys).map (Prod.map id heapPart) := by
  have hpart : mapPage s.heapPart virt phys =
      (Vmm.mapPage (s.machine.restrict heapSlots s.kernelPml4) s.kernelPml4 virt phys
        flagWritable).map fun r => (r.1, { s.heapPart with machine := r.2 }) := rfl
  rw [hpart, mapPage]
  rcases mapPage_restricts h hv phys flagWritable with ⟨hn, hn'⟩ | ⟨ok, m', heq, heq', -⟩
  · rw [hn, hn']
    rfl
  · rw [heq, heq']
    rfl

theorem freePage_heapPart (s : KernelSpace) (addr : Nat) :
    freePage s.heapPart addr = (freePage s addr).map heapPart := by
  rw [freePage, freePage, Option.map_map]
  rfl

theorem MappedTo.loop_heapPart {s₀ : KernelSpace} (hwf : s₀.Whole) {start : Nat} (hs : InHeap start) :
    ∀ {n k : Nat} {s : KernelSpace}, MappedTo s₀ s.heapPart start k →
      Heap.mapPagesLoop s.heapPart start (4096 * k) n =
        (Heap.mapPagesLoop s start (4096 * k) n).map (Prod.map id heapPart)
  | 0, _, _, _ => rfl
  | n + 1, k, s, h => by
      have hu : Usable s.machine.pages := h.wellFormed.valid
      have hslot := hs.slot (h.lt_bound hwf.valid)
      rcases mapPagesLoop_cases hu with ⟨_, hloop⟩ | ⟨i, hi, hloop⟩
      · rw [hloop (s := s) rfl, hloop (s := s.heapPart) rfl]
        rfl
      have hwithout : (s.withoutPage i).WellFormed := withoutPage_wellFormed h.wellFormed hi
      have hpage : mapPage (s.heapPart.withoutPage i) (pageAt start k) (i * 4096) =
          (mapPage (s.withoutPage i) (pageAt start k) (i * 4096)).map (Prod.map id heapPart) :=
        mapPage_heapPart hwithout hslot (i * 4096)
      have hloop₁ := hloop (s := s) rfl start (4096 * k) n
      have hloop₂ := hloop (s := s.heapPart) rfl start (4096 * k) n
      rw [← pageAt] at hloop₁ hloop₂
      rw [hloop₁, hloop₂]
      cases hmap : mapPage (s.withoutPage i) (pageAt start k) (i * 4096) with
      | none =>
          rw [hpage, hmap]
          rfl
      | some r =>
          obtain ⟨ok, r⟩ := r
          rw [hmap] at hpage
          rw [hpage]
          cases ok with
          | true => exact (h.mapPage_true hs.aligned hi hpage).loop_heapPart hwf hs
          | false =>
              simp only [Option.map_some, Option.bind_some, Prod.map, id_eq, Bool.false_eq_true,
                if_false, freePage_heapPart, Option.map_map]
              rfl

section

variable {start n : Nat} (hwf : s.WellFormed) (hs : InHeap start)

include hwf hs

theorem mapPagesLoop_heapPart (n : Nat) : Heap.mapPagesLoop s.heapPart start 0 n =
    (Heap.mapPagesLoop s start 0 n).map (Prod.map id heapPart) :=
  (mappedTo_zero start hwf).loop_heapPart hwf hs

/-- A loop that returns true has mapped all its pages. -/
theorem loop_done (hloop : Heap.mapPagesLoop s start 0 n = some (true, r)) :
    MappedTo s.heapPart r.heapPart start n := by
  have hpart := mapPagesLoop_heapPart hwf hs n
  rw [hloop] at hpart
  have hr := (mappedTo_zero start hwf).loop_done hwf hs.aligned hpart
  rwa [Nat.zero_add] at hr

/-- A loop that returns false failed at one of its iterations. -/
theorem loop_false (hloop : Heap.mapPagesLoop s start 0 n = some (false, r)) :
    ∃ j < n, FailsAt s start j ∧ MappedTo s.heapPart r.heapPart start j := by
  have hpart := mapPagesLoop_heapPart hwf hs n
  rw [hloop] at hpart
  obtain ⟨j, _, hj, hfails, hr⟩ := (mappedTo_zero start hwf).loop_false hwf hs.aligned
    (fun i hi => absurd hi (Nat.not_lt_zero i)) hpart
  exact ⟨j, by omega, (failsAt_heapPart hwf hs).mp hfails, hr⟩

/-- A loop returns false when it fails at one of its iterations. -/
theorem loop_fails {j : Nat} (hfails : FailsAt s start j) (hj : j < n) :
    ∃ r, Heap.mapPagesLoop s start 0 n = some (false, r) ∧
      MappedTo s.heapPart r.heapPart start j := by
  have hpart := mapPagesLoop_heapPart hwf hs n
  obtain ⟨r, hloop, hr⟩ := (mappedTo_zero start hwf).loop_fails hwf hs.aligned
    ((failsAt_heapPart hwf hs).mpr hfails) (Nat.zero_le j) (n := n) (by omega)
  rw [Nat.mul_zero, hpart] at hloop
  obtain ⟨⟨ok, r⟩, hwhole, heq⟩ := Option.map_eq_some_iff.mp hloop
  obtain ⟨rfl, rfl⟩ := Prod.mk.inj heq
  exact ⟨r, hwhole, hr⟩

/-- A loop over unmapped pages returns true when there are enough free pages. -/
theorem loop_true (hunmapped : ∀ i < n, ¬ s.Mapped (pageAt start i))
    (hdemand : s.demand start n ≤ s.freePages) :
    ∃ r, Heap.mapPagesLoop s start 0 n = some (true, r) ∧
      MappedTo s.heapPart r.heapPart start n := by
  have hn : n ≤ 2 ^ 33 := (le_demand s start n).trans (hdemand.trans (freePages_le hwf))
  have hpart := mapPagesLoop_heapPart hwf hs n
  obtain ⟨r, hloop, hr⟩ := (mappedTo_zero start hwf).loop_true hwf hs.aligned (n := n)
    (fun i hi hm => hunmapped i (by omega) ((mapped_pageAt hwf hs (by omega)).mp hm))
    (by rw [Nat.zero_add, demand_heapPart hwf hs hn]; exact hdemand)
  rw [Nat.zero_add] at hr
  rw [Nat.mul_zero, hpart] at hloop
  obtain ⟨⟨ok, r⟩, hwhole, heq⟩ := Option.map_eq_some_iff.mp hloop
  obtain ⟨rfl, rfl⟩ := Prod.mk.inj heq
  exact ⟨r, hwhole, hr⟩

/-- A loop that returns has mapped some of its pages. -/
theorem loop_returns {ok : Bool} (hloop : Heap.mapPagesLoop s start 0 n = some (ok, r)) :
    ∃ j ≤ n, MappedTo s.heapPart r.heapPart start j := by
  have hpart := mapPagesLoop_heapPart hwf hs n
  rw [hloop] at hpart
  exact MappedTo.loop_returns hwf hs.aligned hpart

/-- A loop that stops the kernel needs more pages than there are. -/
theorem loop_none (hloop : Heap.mapPagesLoop s start 0 n = none) :
    s.freePages < s.demand start n := by
  have hpart := mapPagesLoop_heapPart hwf hs n
  rw [hloop] at hpart
  have hshort := (mappedTo_zero start hwf).loop_none hwf hs.aligned hpart
  rw [Nat.zero_add] at hshort
  by_cases hn : n ≤ 2 ^ 33
  · rwa [demand_heapPart hwf hs hn] at hshort
  · have hfree := freePages_le hwf
    have hle := le_demand s start n
    omega

omit hwf in
/-- What the pages and their tables have cost. -/
theorem MappedTo.free_eq (hwf : s.WellFormed) (hr : MappedTo s.heapPart r.heapPart start n) :
    r.freePages + s.demand start n = s.freePages := by
  have hfree := hr.free
  rwa [demand_heapPart hwf hs (hr.lt_bound hwf.valid)] at hfree

end

/-- Which pages of the heap are mapped after the loop. -/
theorem MappedTo.mapped_iff {start k : Nat} (hr : MappedTo s.heapPart r.heapPart start k)
    (hwf : s.WellFormed) {v : Nat} (hv : heapSlots (pml4Index v)) :
    r.Mapped v ↔ s.Mapped v ∨ ∃ i < k, pageOf v = pageOf (pageAt start i) := by
  rw [← mapped_heapPart hr.wellFormed hv, ← mapped_heapPart hwf hv]
  exact hr.mapped v

theorem MappedTo.mapped_first {start k : Nat} (hr : MappedTo s.heapPart r.heapPart start k)
    (hs : InHeap start) (hk : 0 < k) : r.Mapped start := by
  have hlt : start < 2 ^ 64 := Nat.lt_of_le_of_lt hs.le_max (by decide)
  exact (mapped_heapPart hr.wellFormed (slot_of_le hs.start_le hlt)).mp (hr.mapped_start hk hlt)

end Avery.KernelSpace
