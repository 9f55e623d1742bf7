import Avery.Library.Transition
import Avery.Kernel.HeapCalls
import Avery.Kernel.KernelSpace

/-!
# Runs of the heap

The clients of the heap allocate, free and reallocate in any order, and write to
their payloads in between.  The rest of the kernel shares physical memory and
page tables with the heap and changes them at any time, so an allocation of pages
may fail at any point.  The invariant holds in every state of such a run.
-/

namespace Avery.Heap

open Transition

variable {E : Type} [KernelPages E]

inductive Call where
  | allocate (size : Nat)
  | free (ptr : Nat)
  | realloc (ptr newSize : Nat)
  /-- Anything that is not a call of the heap. -/
  | other

/-- A call that returns.  Requests are at most 64 MiB, and `free` and `realloc`
are given live pointers.  Other code changes live payloads, memory outside the
heap and the environment. -/
inductive Step : KernelHeap E → Call → KernelHeap E → Prop
  | allocate {h h' : KernelHeap E} {size ptr : Nat} :
      size ≤ 64 * 1024 * 1024 → allocate h size = some (ptr, h') → Step h (.allocate size) h'
  | free {h h' : KernelHeap E} {ptr : Nat} :
      ptr ∈ (live h.trace).map Prod.fst → free h ptr = some h' → Step h (.free ptr) h'
  | realloc {h h' : KernelHeap E} {ptr newSize newPtr : Nat} :
      ptr ∈ (live h.trace).map Prod.fst → newSize ≤ 64 * 1024 * 1024 →
      realloc h ptr newSize = some (newPtr, h') → Step h (.realloc ptr newSize) h'
  | other {h : KernelHeap E} {mem : Nat → UInt8} {env : E} :
      (∀ x, h.heapStart ≤ x → x < h.heapEnd → (∀ p ∈ live h.trace, Clear x 1 p) →
        mem x = h.mem x) → Step h .other { h with mem, env }

/-- The blocks of a reachable state. -/
def Reached (h : KernelHeap E) : Prop := ∃ bs, HeapInv h bs ∧ kernelHeapStart < h.heapEnd

omit [KernelPages E] in
/-- The state `init` builds before it grows the heap for the first time. -/
theorem heapInv_empty (mem : Nat → UInt8) (env : E) :
    HeapInv
      { mem
        head := 0
        heapStart := kernelHeapStart
        heapEnd := kernelHeapStart
        heapMax := kernelHeapStart + kernelHeapMaxSize
        usedMemory := 0
        freeMemory := 0
        env
        trace := [] } [] where
  listed := ⟨rfl, trivial, fun _ hb => absurd hb List.not_mem_nil⟩
  tiled := rfl
  sizes := fun _ hb => absurd hb List.not_mem_nil
  coalesced := List.isChain_nil
  start := rfl
  max := rfl
  fits := Nat.le_add_right ..
  pages := by unfold kernelHeapStart; simp only
  live := List.Perm.refl []
  safe := trivial

/-- `init` returns a heap when the first growth succeeds. -/
theorem init_expanded {mem : Nat → UInt8} {env : E} {h : KernelHeap E}
    (hinit : init mem env = some h) :
    expandHeap
      { mem
        head := 0
        heapStart := kernelHeapStart
        heapEnd := kernelHeapStart
        heapMax := kernelHeapStart + kernelHeapMaxSize
        usedMemory := 0
        freeMemory := 0
        env
        trace := [] } kernelHeapInitialSize = some (true, h) := by
  unfold init at hinit
  obtain ⟨⟨ok, h'⟩, hexp, hret⟩ := Option.bind_eq_some_iff.mp hinit
  cases ok with
  | false => cases hret
  | true =>
      simp only [if_true, Option.pure_def, Option.some.injEq] at hret
      rw [hexp, hret]

theorem reached_init {mem : Nat → UInt8} {env : E} {h : KernelHeap E}
    (hinit : init mem env = some h) : Reached h ∧ live h.trace = [] := by
  have hexp := init_expanded hinit
  have hsize : 0 < kernelHeapInitialSize ∧
      kernelHeapStart + (kernelHeapInitialSize + 4095) / 4096 * 4096 < 2 ^ 64 := by
    unfold kernelHeapInitialSize kernelHeapStart
    omega
  rcases expandHeap_spec (heapInv_empty mem env) hsize.1 hsize.2 hexp with
    ⟨hfalse, _⟩ | ⟨_, bs, inv, hlive, hlt⟩
  · cases hfalse
  · simp only at hlt
    exact ⟨⟨bs, inv, by omega⟩, hlive⟩

theorem reached_step {h h' : KernelHeap E} {c : Call} (hr : Reached h) (hs : Step h c h') :
    Reached h' := by
  obtain ⟨bs, inv, hlt⟩ := hr
  cases hs with
  | allocate hsize halloc =>
      obtain ⟨bs', inv', hle, _⟩ := allocate_spec inv (inv.noWrap hsize) halloc
      exact ⟨bs', inv', Nat.lt_of_lt_of_le hlt hle⟩
  | free hlive hfree =>
      obtain ⟨h'', bs', hfree', inv', hend, _⟩ := free_spec inv hlive
      rw [hfree', Option.some.injEq] at hfree
      subst hfree
      exact ⟨bs', inv', by rw [hend]; exact hlt⟩
  | realloc hlive hsize hre =>
      obtain ⟨bs', inv', hle, _⟩ := realloc_spec inv ((inv.noWrap hsize).allocates inv) hlive hre
      exact ⟨bs', inv', Nat.lt_of_lt_of_le hlt hle⟩
  | other hmem =>
      refine ⟨bs, inv.write _ _ fun x h₁ h₂ hclear => hmem x ?_ h₂ hclear, hlt⟩
      rw [inv.start]
      exact h₁

theorem reached_run {mem : Nat → UInt8} {env : E} {h₀ h : KernelHeap E} {calls : List Call}
    (hinit : init mem env = some h₀) (hrun : Run Step h₀ calls h) : Reached h :=
  hrun.invariant (fun _ _ _ hr hs => reached_step hr hs) (reached_init hinit).1

/-! ## The shape of the list -/

/-- Without blocks in use, a list with no two free neighbours has one block. -/
theorem single_of_all_free {bs : List Block} {s e : Nat} (ht : Tiled s bs e) (hlt : s < e)
    (hc : bs.IsChain NotBothFree) (hall : payloads bs = []) :
    bs = [⟨s, e - s - headerSize, true⟩] := by
  have hfree : ∀ b ∈ bs, b.free = true := fun b hb => by
    cases hf : b.free with
    | true => rfl
    | false => exact absurd (mem_payloads.mpr ⟨b, hb, hf, rfl⟩) (hall ▸ List.not_mem_nil)
  match bs, ht, hc, hfree with
  | [], ht, _, _ => exact absurd ht (Nat.ne_of_lt hlt)
  | [b], ⟨hb, hfin⟩, _, hfree =>
      have hbf := hfree b (List.mem_singleton_self b)
      have hfin : b.addr + headerSize + b.size = e := hfin
      obtain ⟨addr, size, free⟩ := b
      simp only at hb hfin hbf
      subst hb hbf
      have hsize : size = e - addr - headerSize := by omega
      rw [hsize]
  | b :: c :: _, _, hc, hfree =>
      rw [List.isChain_cons_cons] at hc
      exact absurd ⟨hfree b (List.mem_cons_self ..),
        hfree c (List.mem_cons_of_mem _ (List.mem_cons_self ..))⟩ hc.1

/-- In every reachable state the blocks from `head` along `next` tile the heap,
`prev` inverts `next`, sizes are multiples of 16, and no two neighbours are free.
When nothing is live the list is one free block. -/
theorem blocks_tile_and_coalesce {mem : Nat → UInt8} {env : E} {h₀ h : KernelHeap E}
    {calls : List Call} (hinit : init mem env = some h₀) (hrun : Run Step h₀ calls h) :
    ∃ bs, Listed h bs ∧ Tiled h.heapStart bs h.heapEnd ∧ (∀ b ∈ bs, b.size % 16 = 0) ∧
      bs.IsChain NotBothFree ∧
      (live h.trace = [] → bs = [⟨h.heapStart, h.heapEnd - h.heapStart - headerSize, true⟩]) := by
  obtain ⟨bs, inv, hlt⟩ := reached_run hinit hrun
  rw [inv.start]
  refine ⟨bs, inv.listed, inv.tiled, inv.sizes, inv.coalesced, fun hnone => ?_⟩
  have hlive := inv.live
  rw [hnone] at hlive
  exact single_of_all_free inv.tiled hlt inv.coalesced hlive.nil_eq.symm

/-! A heap over 32 usable pages, two allocations in it, and the release of the first. -/

def pages32 : Pmm.PhysicalMemory :=
  (Pmm.init (fun _ => 0) (some ⟨some [⟨4096, 32 * 4096, Pmm.limineMemmapUsable⟩]⟩)).get
    (by decide +kernel)

def space32 : KernelSpace :=
  let (pml4, machine) := (Vmm.createAddressSpace ⟨0xFFFF800000000000, fun _ _ => 0, pages32⟩).get
    (by decide +kernel)
  ⟨machine, pml4⟩

def heap32 : KernelHeap KernelSpace := (init (fun _ => 0) space32).get (by decide +kernel)

def heap32Allocated : Nat × KernelHeap KernelSpace := (allocate heap32 100).get (by decide +kernel)

def heap32Freed : KernelHeap KernelSpace :=
  (free heap32Allocated.2 heap32Allocated.1).get (by decide +kernel)

/-- A second allocation beside the first. -/
def heap32Second : Nat × KernelHeap KernelSpace :=
  (allocate heap32Allocated.2 200).get (by decide +kernel)

/-- An allocation of more than half of the small heap.  The next one has to grow it. -/
def heap32Half : Nat × KernelHeap KernelSpace := (allocate heap32 40000).get (by decide +kernel)

theorem heap32Half_eq : allocate heap32 40000 = some (heap32Half.1, heap32Half.2) := by
  rw [Prod.mk.eta]
  exact (Option.some_get _).symm

theorem run_heap32Allocated : Run Step heap32 [.allocate 100] heap32Allocated.2 := by
  have halloc : allocate heap32 100 = some (heap32Allocated.1, heap32Allocated.2) := by
    rw [Prod.mk.eta]
    exact (Option.some_get _).symm
  exact .single (.allocate (by omega) halloc)

theorem run_heap32Second : Run Step heap32 [.allocate 100, .allocate 200] heap32Second.2 := by
  have halloc : allocate heap32Allocated.2 200 = some (heap32Second.1, heap32Second.2) := by
    rw [Prod.mk.eta]
    exact (Option.some_get _).symm
  exact run_heap32Allocated.append (.single (.allocate (by omega) halloc))

theorem run_heap32Freed :
    Run Step heap32 [.allocate 100, .free heap32Allocated.1] heap32Freed := by
  have hfree : free heap32Allocated.2 heap32Allocated.1 = some heap32Freed := (Option.some_get _).symm
  exact run_heap32Allocated.append (.single (.free (by decide +kernel) hfree))

/-- The released heap is one block again. -/
theorem blocks_tile_and_coalesce_heap32 :
    ∃ bs, Listed heap32Freed bs ∧
      bs = [⟨heap32Freed.heapStart,
        heap32Freed.heapEnd - heap32Freed.heapStart - headerSize, true⟩] := by
  have hinit : init (fun _ => 0) space32 = some heap32 := (Option.some_get _).symm
  obtain ⟨bs, hlisted, _, _, _, hnone⟩ := blocks_tile_and_coalesce hinit run_heap32Freed
  exact ⟨bs, hlisted, hnone (by decide +kernel)⟩

/-! ## Separation -/

theorem Tiled.aligned :
    ∀ {bs : List Block} {s e : Nat}, Tiled s bs e → s % 16 = 0 → (∀ b ∈ bs, b.size % 16 = 0) →
      ∀ b ∈ bs, b.addr % 16 = 0
  | [], _, _, _, _, _, _, hb => absurd hb List.not_mem_nil
  | c :: bs, s, _, ⟨hs, ht⟩, h16, hsizes, b, hb => by
      have hc := hsizes c (List.mem_cons_self ..)
      rcases List.mem_cons.mp hb with rfl | hb
      · rw [hs]
        exact h16
      · refine ht.aligned ?_ (fun x hx => hsizes x (List.mem_cons_of_mem _ hx)) b hb
        unfold Block.fin headerSize
        omega

/-- In every reachable state the live payloads are aligned, lie inside the heap,
have the size their header says and do not overlap, and no header write of the
run fell inside a payload live at that moment.  A call that returns a pointer
makes it live with a payload at least as large as the request. -/
theorem payloads_separate {mem : Nat → UInt8} {env : E} {h₀ h : KernelHeap E}
    {calls : List Call} (hinit : init mem env = some h₀) (hrun : Run Step h₀ calls h) :
    (∀ p ∈ live h.trace, p.1 % 16 = 0 ∧ size h (p.1 - headerSize) = p.2 ∧
      h.heapStart ≤ p.1 ∧ p.1 + p.2 ≤ h.heapEnd) ∧
    (live h.trace).Pairwise (fun p q => Clear p.1 p.2 q) ∧
    Safe h.trace ∧
    (∀ n ptr h', n ≤ 64 * 1024 * 1024 → allocate h n = some (ptr, h') → ptr ≠ 0 →
      ∃ k, n ≤ k ∧ (ptr, k) ∈ live h'.trace) ∧
    ∀ p n ptr h', p ∈ (live h.trace).map Prod.fst → n ≤ 64 * 1024 * 1024 →
      realloc h p n = some (ptr, h') → ptr ≠ 0 → ∃ k, n ≤ k ∧ (ptr, k) ∈ live h'.trace := by
  obtain ⟨bs, inv, _⟩ := reached_run hinit hrun
  refine ⟨fun p hp => ?_, inv.live_disjoint, inv.safe, fun n ptr h' hn halloc hne => ?_,
    fun p n ptr h' hp hn hre hne => ?_⟩
  · obtain ⟨b, hb, _, rfl⟩ := inv.mem_live.mp hp
    have hd := inv.listed.describes b hb
    have h16 := inv.tiled.aligned (by unfold kernelHeapStart; simp only) inv.sizes b hb
    obtain ⟨h₁, h₂⟩ := inv.tiled.mem_bounds b hb
    have hsub : b.payload.1 - headerSize = b.addr := Nat.add_sub_cancel ..
    rw [hsub, inv.start]
    refine ⟨?_, hd.size_eq, Nat.le_trans h₁ (Nat.le_add_right ..), h₂⟩
    show (b.addr + 48) % 16 = 0
    omega
  · obtain ⟨_, _, _, hz | ⟨_, k, hk, hlive⟩⟩ := allocate_spec inv (inv.noWrap hn) halloc
    · exact absurd hz.1 hne
    · exact ⟨k, hk, hlive ▸ List.mem_cons_self ..⟩
  · obtain ⟨_, _, _, hz | ⟨_, k, hk, hlive, _⟩⟩ := realloc_spec inv ((inv.noWrap hn).allocates inv) hp hre
    · exact absurd hz.1 hne
    · exact ⟨k, hk, hlive⟩

/-- Two payloads in the small heap. -/
theorem payloads_separate_heap32 :
    live heap32Second.2.trace = [(heap32Second.1, 208), (heap32Allocated.1, 112)] ∧
      (live heap32Second.2.trace).Pairwise fun p q => Clear p.1 p.2 q := by
  have hinit : init (fun _ => 0) space32 = some heap32 := (Option.some_get _).symm
  have hlive : live heap32Second.2.trace = [(heap32Second.1, 208), (heap32Allocated.1, 112)] := by
    decide +kernel
  exact ⟨hlive, (payloads_separate hinit run_heap32Second).2.1⟩

end Avery.Heap
