import Avery.Kernel.HeapOverflow

/-!
# Running out of pages

`expandHeap` reports a missing page for the heap itself, but a missing page for
a page table stops the kernel in `newTable`.  So `allocate` returns null when the
free pages end with a page of the heap, and stops when they end between a page
and its tables (`StopsAt`).
-/

namespace Avery

namespace KernelSpace

/-- The loop stops the kernel at iteration `k`: there is a page for the heap, but
not for all tables that the page needs. -/
def StopsAt (s : KernelSpace) (start k : Nat) : Prop :=
  (∀ i ≤ k, ¬ s.Mapped (pageAt start i)) ∧ s.demand start k < s.freePages ∧
    s.freePages < s.demand start (k + 1)

variable {s s' : KernelSpace} {start k : Nat}

theorem demand_le_of_le (s : KernelSpace) (start : Nat) {j k : Nat} (hjk : j ≤ k) :
    s.demand start j ≤ s.demand start k := by
  rcases Nat.eq_or_lt_of_le hjk with rfl | hlt
  · exact Nat.le_refl _
  · exact Nat.le_of_lt (demand_mono s start hlt)

/-- The rest of the loop stops the kernel exactly when one of its iterations
does. -/
theorem MappedTo.loop_none_iff (hwf : s.Whole) (hstart : start % 4096 = 0) :
    ∀ {n k : Nat} {s' : KernelSpace}, MappedTo s s' start k →
      (∀ i < k, ¬ s.Mapped (pageAt start i)) →
      (Heap.mapPagesLoop s' start (4096 * k) n = none ↔
        ∃ j, k ≤ j ∧ j < k + n ∧ s.StopsAt start j)
  | 0, k, s', _, _ => by
      refine ⟨fun hnone => (by cases hnone), ?_⟩
      rintro ⟨j, h₁, h₂, _⟩
      omega
  | n + 1, k, s', h, hbefore => by
      rcases h.step hwf hstart n with
        ⟨hfail, s'', heq, _⟩ | ⟨hm, hle, s'', heq, h'⟩ | ⟨hm, hlt, hshort, heq⟩
      · -- no page is left, or the page is mapped
        rw [heq]
        refine ⟨fun hnone => (by cases hnone), ?_⟩
        rintro ⟨j, hkj, _, hunmapped, hdemand, _⟩
        rcases hfail with hend | ⟨_, hmapped⟩
        · have := demand_le_of_le s start hkj
          omega
        · exact absurd hmapped (hunmapped k hkj)
      · have hbefore' : ∀ i < k + 1, ¬ s.Mapped (pageAt start i) := fun i hi => by
          rcases Nat.lt_succ_iff_lt_or_eq.mp hi with hi | rfl
          · exact hbefore i hi
          · exact hm
        rw [heq, h'.loop_none_iff hwf hstart hbefore']
        constructor
        · rintro ⟨j, h₁, h₂, hstops⟩
          exact ⟨j, by omega, by omega, hstops⟩
        · rintro ⟨j, h₁, h₂, hstops⟩
          rcases Nat.eq_or_lt_of_le h₁ with rfl | hlt
          · have := hstops.2.2
            omega
          · exact ⟨j, hlt, by omega, hstops⟩
      · rw [heq]
        refine ⟨fun _ => ⟨k, Nat.le_refl k, by omega, fun i hi => ?_, hlt, hshort⟩, fun _ => rfl⟩
        rcases Nat.eq_or_lt_of_le hi with rfl | hi
        · exact hm
        · exact hbefore i hi

theorem stopsAt_heapPart (h : s.WellFormed) (hs : InHeap start) :
    s.heapPart.StopsAt start k ↔ s.StopsAt start k := by
  have hfree := freePages_le h
  have hbound : k < 2 ^ 33 → (s.heapPart.StopsAt start k ↔ s.StopsAt start k) := fun hk => by
    have hpages : (∀ i ≤ k, ¬ s.heapPart.Mapped (pageAt start i)) ↔
        ∀ i ≤ k, ¬ s.Mapped (pageAt start i) :=
      forall₂_congr fun i hi =>
        not_congr (mapped_pageAt h hs (Nat.le_trans hi (Nat.le_of_lt hk)))
    rw [StopsAt, StopsAt, hpages, demand_heapPart h hs (Nat.le_of_lt hk), demand_heapPart h hs hk]
    rfl
  constructor
  · intro hstops
    have hlt : k < s.freePages := Nat.lt_of_le_of_lt (le_demand s.heapPart start k) hstops.2.1
    exact (hbound (Nat.lt_of_lt_of_le hlt hfree)).mp hstops
  · intro hstops
    have hlt : k < s.freePages := Nat.lt_of_le_of_lt (le_demand s start k) hstops.2.1
    exact (hbound (Nat.lt_of_lt_of_le hlt hfree)).mpr hstops

/-- The loop stops the kernel exactly when one of its iterations does. -/
theorem mapPagesLoop_none_iff (hwf : s.WellFormed) (hs : InHeap start) (n : Nat) :
    Heap.mapPagesLoop s start 0 n = none ↔ ∃ k < n, s.StopsAt start k := by
  have hpart := (mappedTo_zero start hwf).loop_none_iff hwf hs.aligned (n := n)
    fun i hi => absurd hi (Nat.not_lt_zero i)
  rw [Nat.mul_zero, mapPagesLoop_heapPart hwf hs, Option.map_eq_none_iff] at hpart
  simp only [Nat.zero_le, true_and, Nat.zero_add, stopsAt_heapPart hwf hs] at hpart
  exact hpart

end KernelSpace

namespace Heap

open Transition KernelSpace LinkedList ByteMemory

variable {h h' : KernelHeap KernelSpace} {bs : List Block}

/-! ## Growing for a request -/

/-- Growth stops the kernel when a page table cannot be served, or when it maps no
page and the page at the end of the heap is not there for the header. -/
theorem expandHeap_none_iff (inv : HeapInv h bs) (hwf : h.env.WellFormed) (n : Nat) :
    expandHeap h n = none ↔ add64 h.heapEnd (alignUp n 4096) ≤ h.heapMax ∧
      (alignUp n 4096 = 0 ∧ ¬ h.env.Mapped h.heapEnd ∨
        ∃ k < alignUp n 4096 / 4096, h.env.StopsAt h.heapEnd k) := by
  have hend : h.heapEnd < 2 ^ 64 := Nat.lt_of_le_of_lt inv.end_le (by decide)
  have hloop_none := mapPagesLoop_none_iff hwf inv.inHeap (alignUp n 4096 / 4096)
  have hcount : alignUp n 4096 / 4096 = 0 ↔ alignUp n 4096 = 0 := by
    have hround : alignUp n 4096 = (n + 4095) % 2 ^ 64 / 4096 * 4096 :=
      alignUp_eq_mod (k := 12) (by decide)
    omega
  rw [expandHeap_eq, ← hcount]
  split
  next hrefused => exact ⟨fun hnone => (by cases hnone), fun hc => absurd hc.1 (Nat.not_le.mpr hrefused)⟩
  next hfits =>
  rw [← hloop_none, and_iff_right (Nat.not_lt.mp hfits)]
  cases hloop : mapPagesLoop h.env h.heapEnd 0 (alignUp n 4096 / 4096) with
  | none => exact ⟨fun _ => Or.inr rfl, fun _ => rfl⟩
  | some r =>
      obtain ⟨ok, r⟩ := r
      cases ok with
      | false =>
          refine ⟨fun hnone => (by cases hnone), fun hc => ?_⟩
          obtain ⟨hz, _⟩ := hc.resolve_right (fun hno => by cases hno)
          rw [hz] at hloop
          cases hloop
      | true =>
          have hr := loop_done hwf inv.inHeap hloop
          have hsame : alignUp n 4096 / 4096 = 0 → r = h.env := fun hz => by
            rw [hz] at hloop
            exact (Prod.mk.inj (Option.some.inj hloop)).2.symm
          simp only [Option.bind_some, Bool.not_true, Bool.false_eq_true, if_false,
            Option.map_eq_none_iff, reduceCtorEq, or_false]
          by_cases hm : r.Mapped h.heapEnd
          · obtain ⟨h₁, happ⟩ := appendBlock_returns (h := { h with env := r })
              (n := alignUp n 4096) (inv.setEnv r).listed inv.tiled
              (Nat.lt_of_succ_lt_succ inv.length_lt) (isMapped_iff.mpr hm)
            rw [happ]
            exact ⟨fun hnone => (by cases hnone), fun hc => absurd (hsame hc.1 ▸ hm) hc.2⟩
          · have hz : alignUp n 4096 / 4096 = 0 := by
              by_contra hne
              exact hm (hr.mapped_first inv.inHeap (Nat.pos_of_ne_zero hne))
            have hunmapped : KernelPages.isMapped r h.heapEnd = false :=
              Bool.eq_false_iff.mpr fun hc => hm (isMapped_iff.mp hc)
            rw [appendBlock_eq, hunmapped]
            exact ⟨fun _ => ⟨hz, hsame hz ▸ hm⟩, fun _ => rfl⟩

/-! ## One request -/

/-- The request has to grow the heap, and there are not enough free pages for
that. -/
def RunsOut (h : KernelHeap KernelSpace) (n : Nat) : Prop :=
  n ≠ 0 ∧ findFreeBlock h (alignUp n 16) = some 0 ∧
    h.env.freePages < h.env.demand h.heapEnd (grown n / 4096)

/-- The call returns, and when pages run out it returns null. -/
def ReturnsNormally (h : KernelHeap KernelSpace) (n : Nat) : Prop :=
  ∃ ptr h', allocate h n = some (ptr, h') ∧ (RunsOut h n → ptr = 0)

/-- The request has to grow the heap by a size that the check lets pass, and then
a page table cannot be served, or there is no page at all and the header goes to
an unmapped address. -/
def StopsKernel (h : KernelHeap KernelSpace) (n : Nat) : Prop :=
  n ≠ 0 ∧ findFreeBlock h (alignUp n 16) = some 0 ∧ add64 h.heapEnd (grown n) ≤ h.heapMax ∧
    (grown n = 0 ∧ ¬ h.env.Mapped h.heapEnd ∨
      ∃ k < grown n / 4096, h.env.StopsAt h.heapEnd k)

theorem allocate_none_iff (inv : HeapInv h bs) (hwf : h.env.WellFormed) (n : Nat) :
    allocate h n = none ↔ StopsKernel h n := by
  rcases Nat.eq_zero_or_pos n with rfl | hpos
  · exact ⟨fun hnone => (by cases hnone), fun hc => absurd rfl hc.1⟩
  have hn : n ≠ 0 := Nat.ne_of_gt hpos
  rw [StopsKernel, and_iff_right hn, grown, ← expandHeap_none_iff inv hwf, allocate_eq h hn]
  have hfound := inv.findFreeBlock_eq (alignUp n 16)
  generalize (((bs.find? fun b => b.free ∧ alignUp n 16 ≤ b.size).map Block.addr).getD 0) = a
    at hfound
  rw [hfound, Option.bind_some, Option.some.injEq]
  by_cases ha : a = 0
  · rw [if_neg (not_not.mpr ha), and_iff_right ha]
    cases hexp : expandHeap h (requested n) with
    | none => exact iff_of_true rfl rfl
    | some r =>
        obtain ⟨ok, g⟩ := r
        cases ok with
        | false => exact iff_of_false (fun hno => by cases hno) (fun hno => by cases hno)
        | true =>
            obtain ⟨c, hc⟩ := findFreeBlock_grown inv hwf (ha ▸ hfound) hexp
            refine iff_of_false (fun hno => ?_) (fun hno => by cases hno)
            simp only [Option.bind_some, Bool.not_true, Bool.false_eq_true, if_false, hc] at hno
            split at hno <;> cases hno
  · rw [if_pos ha]
    exact iff_of_false (fun hno => by cases hno) fun hc => ha hc.1

/-- A growth with too few free pages does not succeed. -/
theorem expandHeap_ne_true {n : Nat} (inv : HeapInv h bs) (hwf : h.env.WellFormed)
    (hshort : h.env.freePages < h.env.demand h.heapEnd (alignUp n 4096 / 4096)) :
    expandHeap h n ≠ some (true, h') := fun hexp => by
  have hfree := (expandHeap_true_mapped inv hwf hexp).free_eq inv.inHeap hwf
  omega

/-- When pages run out, a call that returns returns null. -/
theorem RunsOut.null {n ptr : Nat} (hout : RunsOut h n) (inv : HeapInv h bs)
    (hwf : h.env.WellFormed) (halloc : allocate h n = some (ptr, h')) : ptr = 0 := by
  obtain ⟨hn, hfind, hshort⟩ := hout
  rw [allocate_eq h hn, hfind, Option.bind_some, if_neg (not_not.mpr rfl)] at halloc
  obtain ⟨⟨ok, g⟩, hexp, halloc⟩ := Option.bind_eq_some_iff.mp halloc
  cases ok with
  | false => exact (Prod.mk.inj (Option.some.inj halloc)).1.symm
  | true => exact absurd hexp (expandHeap_ne_true inv hwf hshort)

/-- In every state of a run, with any number of free pages, and for every size:
the request returns normally if and only if it does not stop the kernel in one of
the two ways of `StopsKernel`. -/
theorem allocate_returns_iff {mem : Nat → UInt8} {env : KernelSpace}
    {h₀ h : KernelHeap KernelSpace} {calls : List Call} (hwf : env.WellFormed)
    (hinit : init mem env = some h₀) (hrun : Run WideStep h₀ calls h) (n : Nat) :
    ReturnsNormally h n ↔ ¬ StopsKernel h n := by
  obtain ⟨⟨bs, inv⟩, hwf'⟩ := wide_run hwf hinit hrun
  rw [← allocate_none_iff inv hwf']
  constructor
  · rintro ⟨ptr, h', halloc, _⟩ hnone
    rw [hnone] at halloc
    cases halloc
  · intro hsome
    obtain ⟨⟨ptr, h'⟩, halloc⟩ := Option.ne_none_iff_exists'.mp hsome
    exact ⟨ptr, h', halloc, fun hout => hout.null inv hwf' halloc⟩

/-- After one allocation, another grows the small heap.  At the start there are too few free
pages for a request of 64 KiB, and it returns null. -/
theorem allocate_returns_iff_heap32 :
    ReturnsNormally heap32Half.2 40000 ∧ ReturnsNormally heap32 (2 ^ 16) ∧
      (allocate heap32 (2 ^ 16)).map Prod.fst = some 0 := by
  have hinit : init (fun _ => 0) space32 = some heap32 := (Option.some_get _).symm
  have hfound : findFreeBlock heap32 (alignUp 40000 16) ≠ some 0 := by decide +kernel
  have hrun : Run WideStep heap32 [.allocate 40000] heap32Half.2 :=
    .single (.allocate (fun hc => hfound hc.2.1) heap32Half_eq)
  obtain ⟨⟨bs, inv⟩, hwf⟩ := wide_run space32_unmapped.1 hinit hrun
  obtain ⟨⟨bs₀, inv₀⟩, hwf₀⟩ := wide_run space32_unmapped.1 hinit .nil
  have hgrows : allocate heap32Half.2 40000 ≠ none :=
    Option.isSome_iff_ne_none.mp (by decide +kernel)
  have hnull : (allocate heap32 (2 ^ 16)).map Prod.fst = some 0 := by decide +kernel
  refine ⟨(allocate_returns_iff space32_unmapped.1 hinit hrun 40000).mpr fun hstops => ?_,
    (allocate_returns_iff space32_unmapped.1 hinit .nil (2 ^ 16)).mpr fun hstops => ?_, hnull⟩
  · exact hgrows ((allocate_none_iff inv hwf _).mpr hstops)
  · rw [(allocate_none_iff inv₀ hwf₀ _).mpr hstops] at hnull
    cases hnull

/-! ## A page table that cannot be served -/

theorem tablePaths_eq {v w : Nat} (h : v / 2 ^ 21 = w / 2 ^ 21) :
    Vmm.tablePaths v = Vmm.tablePaths w := by
  have hpath : Vmm.path v = Vmm.path w := by
    simp only [Vmm.path, Vmm.pml4Index, Vmm.pdptIndex, Vmm.pdIndex, List.cons.injEq, and_true,
      Fin.ext_iff, Vmm.tableIndex_val]
    refine ⟨?_, ?_, ?_⟩ <;> omega
  have hindices := hpath
  simp only [Vmm.path, List.cons.injEq, and_true] at hindices
  rw [Vmm.tablePaths, Vmm.tablePaths, hpath, hindices.1, hindices.2.1]

/-- The heap of `init` lies in one page table of 512 pages. -/
theorem neededTables_initial :
    neededTables kernelHeapStart 16 = Vmm.tablePaths kernelHeapStart := by
  have hall : ∀ i < 16, Vmm.tablePaths (pageAt kernelHeapStart i) = Vmm.tablePaths kernelHeapStart :=
    fun i hi => tablePaths_eq (by
      unfold pageAt add64 Words.add kernelHeapStart
      omega)
  ext p
  rw [mem_neededTables]
  constructor
  · rintro ⟨i, hi, hp⟩
    exact hall i hi ▸ hp
  · intro hp
    exact ⟨0, by decide, (hall 0 (by decide)).symm ▸ hp⟩

theorem demand_initial (s : KernelSpace) : s.demand kernelHeapStart 16 ≤ 19 := by
  have htables : ((neededTables kernelHeapStart 16).filter fun p => s.table p = none).card ≤ 3 := by
    rw [neededTables_initial]
    exact Vmm.card_missingTables_le ..
  unfold demand
  omega

/-- The heap's entries of the root are not present.  The other entries may lead to anything. -/
def Fresh (s : KernelSpace) : Prop :=
  ∀ i, heapSlots i → Vmm.isPresent (s.machine.tables s.kernelPml4 i) = false

theorem Fresh.of_root {s : KernelSpace} (hroot : s.machine.tables s.kernelPml4 = fun _ => 0) :
    Fresh s := fun i _ => by rw [hroot, Vmm.isPresent_zero]

theorem Fresh.table {s : KernelSpace} (hfresh : Fresh s) (i : Fin 512) (p : List (Fin 512)) :
    s.heapPart.table (i :: p) = none := by
  cases h : s.heapPart.table (i :: p) with
  | none => rfl
  | some t => cases (Vmm.tableAt_of_absent hfresh h).1

theorem Fresh.unmapped {s : KernelSpace} (hfresh : Fresh s) (v : Nat) : ¬ s.heapPart.Mapped v :=
  fun hm => by
    have hnone : Vmm.tableAt s.heapPart.machine s.kernelPml4 (Vmm.path v) = none :=
      hfresh.table _ _
    have hleaf : Vmm.leafEntry s.heapPart.machine s.kernelPml4 v = none := by
      rw [Vmm.leafEntry, hnone]
      rfl
    have hsome : (Vmm.leafEntry s.heapPart.machine s.kernelPml4 v).isSome := hm
    rw [hleaf] at hsome
    cases hsome

/-- What `init` makes of an address space where the heap has no tables: one free block on
16 pages. -/
theorem init_fresh {env : KernelSpace} (mem : Nat → UInt8) (hwf : env.WellFormed)
    (hfresh : Fresh env) (hfree : 19 ≤ env.freePages) :
    ∃ h₀, init mem env = some h₀ ∧
      HeapInv h₀ [⟨kernelHeapStart, 16 * 4096 - headerSize, true⟩] ∧
      h₀.heapEnd = kernelHeapStart + 16 * 4096 ∧
      MappedTo env.heapPart h₀.env.heapPart kernelHeapStart 16 := by
  have inv := heapInv_empty mem env
  have hcount : (kernelHeapInitialSize + 4095) / 4096 = 16 := by decide
  have hdemand := Nat.le_trans (demand_initial env) hfree
  obtain ⟨h₀, hexp⟩ := expandHeap_succeeds (n := kernelHeapInitialSize) inv hwf
    (fun v h₁ h₂ hm => hfresh.unmapped v ((mapped_heapPart hwf (inv.slot h₁ h₂)).mpr hm))
    (by decide) (by simp only; decide) (by rw [hcount]; exact hdemand)
  have hmapped := expandHeap_true_mapped inv hwf hexp
  rcases expandHeap_grows inv (by decide) (by simp only; decide) hexp with
    ⟨hno, _⟩ | ⟨_, inv', _, hend⟩
  · cases hno
  · refine ⟨h₀, ?_, inv', hend, hmapped⟩
    unfold init
    simp only [hexp, Option.bind_eq_bind, Option.bind_some, if_true]
    rfl

/-- The heap of `init` has the tables for 496 more pages, and not for the next. -/
theorem demand_after_init {env s : KernelSpace} (hfresh : Fresh env)
    (hs : MappedTo env.heapPart s kernelHeapStart 16) {k : Nat} :
    (k ≤ 496 → s.demand (kernelHeapStart + 16 * 4096) k = k) ∧
      (496 < k → k < s.demand (kernelHeapStart + 16 * 4096) k) := by
  have hpage : ∀ i ≤ 496, pageAt (kernelHeapStart + 16 * 4096) i =
      kernelHeapStart + 16 * 4096 + 4096 * i := fun i hi =>
    Words.add_eq (by unfold kernelHeapStart; omega)
  have hmissing : ∀ i p, (i :: p).length ≤ 3 →
      (s.table (i :: p) = none ↔ i :: p ∉ Vmm.tablePaths kernelHeapStart) := fun i p hp => by
    rw [hs.missing _ hp, neededTables_initial, and_iff_right (hfresh.table i p)]
  constructor
  · intro hk
    have hnone : ((neededTables (kernelHeapStart + 16 * 4096) k).filter
        fun p => s.table p = none) = ∅ := by
      refine Finset.filter_false_of_mem fun p hp => ?_
      obtain ⟨i, hi, hp⟩ := mem_neededTables.mp hp
      rw [hpage i (by omega), tablePaths_eq (w := kernelHeapStart) (by
        unfold kernelHeapStart
        omega)] at hp
      have hlen := Vmm.length_of_mem_tablePaths hp
      cases p with
      | nil => simp [Vmm.tablePaths, Vmm.path] at hp
      | cons i p => exact fun hn => (hmissing i p hlen).mp hn hp
    rw [demand, hnone, Finset.card_empty, Nat.add_zero]
  · intro hk
    have hnew : Vmm.path (pageAt (kernelHeapStart + 16 * 4096) 496) ∈
        (neededTables (kernelHeapStart + 16 * 4096) k).filter fun p => s.table p = none := by
      refine Finset.mem_filter.mpr ⟨mem_neededTables.mpr ⟨496, hk, by simp [Vmm.tablePaths]⟩, ?_⟩
      rw [hpage 496 (Nat.le_refl _)]
      refine (hmissing _ [_, _] (Nat.le_refl 3)).mpr ?_
      decide +kernel
    have hpos := Finset.card_pos.mpr ⟨_, hnew⟩
    unfold demand
    omega

/-- With 497 pages left, a request of 2 MiB stops the kernel: the 497th page of the
growth is the first of a new page table, and takes the last frame. -/
theorem table_shortage {env : KernelSpace} (inv : HeapInv h bs) (hfresh : Fresh env)
    (hend : h.heapEnd = kernelHeapStart + 16 * 4096)
    (hmapped : MappedTo env.heapPart h.env.heapPart kernelHeapStart 16)
    (hle : 497 ≤ h.env.freePages) :
    ∃ env', WideStep h .other { h with env := env' } ∧ env'.freePages = 497 ∧
      allocate { h with env := env' } (2 ^ 21) = none := by
  have hwf : h.env.WellFormed := hmapped.wellFormed
  obtain ⟨pages, hwf', hleft⟩ : ∃ pages, (h.env.setPages pages).WellFormed ∧
      pages.freePages = 497 := by
    obtain ⟨hwf', hleft⟩ := hwf.afterRequests (Nat.sub_le h.env.freePages 497)
    exact ⟨_, hwf', hleft.trans (Nat.sub_sub_self hle)⟩
  have hserved := (demand_after_init hfresh hmapped (k := 496)).1 (Nat.le_refl _)
  have hmissing := (demand_after_init hfresh hmapped (k := 496 + 1)).2 (Nat.lt_succ_self _)
  rw [← hend, demand_heapPart hwf inv.inHeap (by omega)] at hserved hmissing
  have hmax := inv.max
  have inv' := inv.setEnv (h.env.setPages pages)
  have hstep : WideStep h .other { h with mem := h.mem, env := h.env.setPages pages } :=
    .other (fun _ _ _ _ => rfl) hwf'
  refine ⟨h.env.setPages pages, hstep, hleft, (allocate_none_iff inv' hwf' _).mpr
    ⟨by decide, ?_, ?_, Or.inr ⟨496, by decide, fun i hi hm => ?_, ?_, ?_⟩⟩⟩
  · -- no block is as large as the request
    have halign : alignUp (2 ^ 21) 16 = 2 ^ 21 := by decide
    have hnone : bs.find? (fun b => b.free ∧ alignUp (2 ^ 21) 16 ≤ b.size) = none := by
      refine List.find?_eq_none.mpr fun b hb hfits => ?_
      rw [decide_eq_true_eq, halign] at hfits
      obtain ⟨hlow, hhigh⟩ := inv.tiled.mem_bounds b hb
      unfold Block.fin at hhigh
      omega
    rw [inv'.findFreeBlock_eq, hnone]
    rfl
  · simp only
    rw [hend, hmax]
    decide
  · have hpage := (mapped_pageAt hwf inv.inHeap (by omega)).mpr hm
    rcases (hmapped.mapped _).mp hpage with hold | ⟨j, hj, heq⟩
    · exact hfresh.unmapped _ hold
    · simp only [hend] at heq
      unfold Vmm.pageOf pageAt add64 Words.add kernelHeapStart at heq
      omega
  · show h.env.demand h.heapEnd 496 < pages.freePages
    rw [hserved, hleft]
    decide
  · show pages.freePages < h.env.demand h.heapEnd (496 + 1)
    rw [hleft]
    exact hmissing

/-- Creating an address space takes one page for the empty root table. -/
theorem createAddressSpace_fresh {m : Vmm.Machine Pmm.PhysicalMemory} (hu : Pmm.Usable m.pages)
    (hpos : 0 < m.pages.freePages) :
    ∃ s : KernelSpace, Vmm.createAddressSpace m = some (s.kernelPml4, s.machine) ∧
      s.WellFormed ∧ Fresh s ∧ s.freePages = m.pages.freePages - 1 := by
  obtain ⟨i, hi, heq, haddr, hne⟩ := Pmm.allocPage_usable hu hpos
  have hphys : i * 4096 ≠ 0 := by omega
  have halloc : PageAllocator.allocPage m.pages = (i * 4096, Pmm.takePage m.pages i) := by
    rw [← haddr]
    exact heq
  have hcreate : Vmm.createAddressSpace m = some (m.physicalToVirtual (i * 4096),
      { m with
        tables := Function.update m.tables (m.physicalToVirtual (i * 4096)) fun _ => 0
        pages := Pmm.takePage m.pages i }) := by
    rw [Vmm.createAddressSpace, Vmm.newTable, halloc]
    exact if_neg hphys
  have hwhole : Whole ⟨_, _⟩ := (Vmm.refines_createAddressSpace hu hcreate).wellFormed
  exact ⟨⟨_, _⟩, hcreate, hwhole.wellFormed, .of_root (Function.update_self ..),
    Pmm.freePages_takePage hu.counted hi⟩

/-- From 517 free pages on, the heap of `init` leaves 497 of them free. -/
theorem init_leaves_pages {m : Vmm.Machine Pmm.PhysicalMemory} (hu : Pmm.Usable m.pages)
    (hfree : 517 ≤ m.pages.freePages) :
    ∃ (s : KernelSpace) (h₀ : KernelHeap KernelSpace),
      Vmm.createAddressSpace m = some (s.kernelPml4, s.machine) ∧ s.WellFormed ∧ Fresh s ∧
      init (fun _ => 0) s = some h₀ ∧
      HeapInv h₀ [⟨kernelHeapStart, 16 * 4096 - headerSize, true⟩] ∧
      h₀.heapEnd = kernelHeapStart + 16 * 4096 ∧
      MappedTo s.heapPart h₀.env.heapPart kernelHeapStart 16 ∧
      497 ≤ h₀.env.freePages := by
  obtain ⟨s, hcreate, hwf, hfresh, hleft⟩ := createAddressSpace_fresh hu (by omega)
  obtain ⟨h₀, hinit, inv, hend, hmapped⟩ := init_fresh (fun _ => 0) hwf hfresh (by omega)
  have hcount := hmapped.free_eq (heapInv_empty (fun _ => 0) s).inHeap hwf
  have hdemand := demand_initial s
  simp only at hcount
  exact ⟨s, h₀, hcreate, hwf, hfresh, hinit, inv, hend, hmapped, by omega⟩

/-! A machine with 600 usable pages. -/

def map600 : List Pmm.MemmapEntry := [⟨4096, 600 * 4096, Pmm.limineMemmapUsable⟩]

def pages600 : Pmm.PhysicalMemory :=
  (Pmm.init (fun _ => 0) (some ⟨some map600⟩)).get (by decide +kernel)

theorem pages600_usable : Pmm.Usable pages600 ∧ 517 ≤ pages600.freePages := by
  have hinit : Pmm.init (fun _ => 0) (some ⟨some map600⟩) = some pages600 := (Option.some_get _).symm
  refine ⟨Pmm.usable_init (by simp [Pmm.MapFits, map600]) hinit, ?_⟩
  have hshape : (pages600.totalPages, pages600.bitmapPhysicalAddress, pages600.bitmapSize) =
      (601, 4096, 4096) := by decide +kernel
  simp only [Prod.mk.injEq] at hshape
  obtain ⟨htotal, haddr, hsize⟩ := hshape
  rw [(Pmm.init_free_iff (by simp [map600]) hinit).2.1]
  refine Nat.le_trans ?_ (Finset.card_le_card (s := Finset.Ico 2 601) fun p hp => ?_)
  · rw [Nat.card_Ico]
    decide
  · obtain ⟨h₁, h₂⟩ := Finset.mem_Ico.mp hp
    refine Finset.mem_filter.mpr ⟨Finset.mem_range.mpr (by omega), by omega, fun hb => ?_, ?_⟩
    · unfold Pmm.IsBitmapPage pageSize at hb
      rw [haddr, hsize] at hb
      omega
    · refine ⟨_, List.mem_singleton_self _, rfl, ?_⟩
      unfold Pmm.MemmapEntry.Holds pageSize
      simp only
      omega

/-- The pages have not run out, and the kernel stops in `newTable`. -/
theorem table_shortage_stops_kernel :
    ∃ (s : KernelSpace) (h₀ h : KernelHeap KernelSpace),
      Vmm.createAddressSpace ⟨0xFFFF800000000000, fun _ _ => 0, pages600⟩ =
        some (s.kernelPml4, s.machine) ∧ s.WellFormed ∧ init (fun _ => 0) s = some h₀ ∧
      Run WideStep h₀ [.other] h ∧ h.env.freePages = 497 ∧ ¬ ReturnsNormally h (2 ^ 21) := by
  obtain ⟨s, h₀, hcreate, hwf, hfresh, hinit, inv, hend, hmapped, hle⟩ := init_leaves_pages
    (m := ⟨0xFFFF800000000000, fun _ _ => 0, pages600⟩) pages600_usable.1 pages600_usable.2
  obtain ⟨env, hstep, hpages, hnone⟩ := table_shortage inv hfresh hend hmapped hle
  refine ⟨s, h₀, _, hcreate, hwf, hinit, .single hstep, hpages, ?_⟩
  rintro ⟨ptr, h', halloc, _⟩
  rw [hnone] at halloc
  cases halloc

end Heap

end Avery
