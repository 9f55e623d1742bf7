import Avery.Kernel.HeapRuns
import Avery.Kernel.HeapSlots

/-!
# Failed growth

`expandHeap` returns false when the size check refuses, or when its loop cannot
take or map a page.  The pages mapped before stay mapped, and nobody gives their
frames back.  So a failed call leaves the heap growable exactly when its loop did
not fail after the first page.
-/

namespace Avery.Heap

open Transition KernelSpace
open Pmm (freeSet pageToPhysical)

/-! ## Success -/

theorem isMapped_iff {s : KernelSpace} {virt : Nat} :
    KernelPages.isMapped s virt = true ↔ s.Mapped virt := by
  show s.isMapped virt = true ↔ _
  rw [KernelSpace.isMapped, KernelSpace.Mapped, Vmm.leafEntry, Vmm.getPte_lookup]
  cases Vmm.tableAt s.machine s.kernelPml4 (Vmm.path virt) with
  | none => simp
  | some t => cases hp : Vmm.isPresent (s.machine.tables t (Vmm.ptIndex virt)) <;> simp [hp]

variable {h h' : KernelHeap KernelSpace} {bs : List Block}

theorem HeapInv.inHeap (inv : HeapInv h bs) : InHeap h.heapEnd where
  aligned := inv.pages
  start_le := inv.tiled.le
  le_max := inv.end_le

theorem HeapInv.slot (inv : HeapInv h bs) {v : Nat} (hle : h.heapEnd ≤ v) (hlt : v < h.heapMax) :
    heapSlots (Vmm.pml4Index v) := by
  refine slot_of_le (Nat.le_trans inv.inHeap.start_le hle) (Nat.lt_trans hlt ?_)
  rw [inv.max]
  decide

/-- `expandHeap` succeeds once its pages are mapped. -/
theorem HeapInv.expandHeap_done {n : Nat} {r : KernelSpace} (inv : HeapInv h bs) (hpos : 0 < n)
    (hn : h.heapEnd + (n + 4095) / 4096 * 4096 < 2 ^ 64)
    (hfits : ¬ h.heapEnd + (n + 4095) / 4096 * 4096 > h.heapMax)
    (hloop : mapPagesLoop h.env h.heapEnd 0 ((n + 4095) / 4096) = some (true, r))
    (hr : MappedTo h.env.heapPart r.heapPart h.heapEnd ((n + 4095) / 4096)) :
    ∃ h', expandHeap h n = some (true, h') := by
  have hlen := inv.length_lt
  have hmapped : r.Mapped h.heapEnd := hr.mapped_first inv.inHeap (by omega)
  obtain ⟨h₁, happ⟩ := appendBlock_returns (h := { h with env := r })
    (n := (n + 4095) / 4096 * 4096) (inv.setEnv r).listed inv.tiled (by omega)
    (isMapped_iff.mpr hmapped)
  rw [inv.expandHeap_eq hn, if_neg hfits, hloop, Option.bind_some]
  simp only [Bool.not_true, Bool.false_eq_true, if_false, happ, Option.map_some]
  exact ⟨_, rfl⟩

/-- Growth by a size that fits succeeds when the pages are unmapped and enough
frames are free for them and for the missing tables. -/
theorem expandHeap_succeeds {n : Nat} (inv : HeapInv h bs) (hwf : h.env.WellFormed)
    (hunmapped : ∀ v, h.heapEnd ≤ v → v < h.heapMax → ¬ h.env.Mapped v) (hpos : 0 < n)
    (hfits : h.heapEnd + n ≤ h.heapMax)
    (hdemand : h.env.demand h.heapEnd ((n + 4095) / 4096) ≤ h.env.freePages) :
    ∃ h', expandHeap h n = some (true, h') := by
  have hmax := inv.max
  have hpages := inv.pages
  unfold kernelHeapStart kernelHeapMaxSize at hmax
  have hpage : ∀ i < (n + 4095) / 4096, pageAt h.heapEnd i = h.heapEnd + 4096 * i := fun i hi =>
    Words.add_eq (by omega)
  obtain ⟨r, hloop, hr⟩ := loop_true hwf inv.inHeap (n := (n + 4095) / 4096)
    (fun i hi => by rw [hpage i hi]; exact hunmapped _ (by omega) (by omega)) hdemand
  exact inv.expandHeap_done hpos (by omega) (by omega) hloop hr

/-! ## Failure -/

/-- What a failed `expandHeap` should leave behind.  No page up to `heapMax` is
mapped, every frame that was taken and is not free again holds a page table, the
heap itself is unchanged, and whenever enough frames are free a size that fits
can be added. -/
def KeepsGrowable (h : KernelHeap KernelSpace) (n : Nat) : Prop :=
  ∀ h', expandHeap h n = some (false, h') →
    (∀ v, h.heapEnd ≤ v → v < h.heapMax → ¬ h'.env.Mapped v) ∧
    (∀ q ∈ freeSet h.env.machine.pages, q ∉ freeSet h'.env.machine.pages →
      ∃ p, p.length ≤ 3 ∧
        h'.env.heapPart.table p = some (h'.env.machine.physicalToVirtual (pageToPhysical q))) ∧
    h' = { h with env := h'.env } ∧
    ∀ pages m, (h'.env.setPages pages).WellFormed → 0 < m → h.heapEnd + m ≤ h.heapMax →
      (h'.env.setPages pages).demand h.heapEnd ((m + 4095) / 4096) ≤ pages.freePages →
      ∃ h'', expandHeap { h' with env := h'.env.setPages pages } m = some (true, h'')

/-- Of a failed call, either the size check refused, or the loop failed. -/
theorem expandHeap_false {n : Nat} (hwf : h.env.WellFormed) (hs : InHeap h.heapEnd)
    (hexp : expandHeap h n = some (false, h')) :
    h' = { h with env := h'.env } ∧
      (add64 h.heapEnd (alignUp n 4096) > h.heapMax ∧ h' = h ∨
      ¬ add64 h.heapEnd (alignUp n 4096) > h.heapMax ∧
        ∃ j, j < alignUp n 4096 / 4096 ∧ FailsAt h.env h.heapEnd j ∧
          MappedTo h.env.heapPart h'.env.heapPart h.heapEnd j) := by
  rw [expandHeap_eq] at hexp
  split at hexp
  next hrefused =>
    simp only [Option.some.injEq, Prod.mk.injEq, true_and] at hexp
    subst hexp
    exact ⟨rfl, Or.inl ⟨hrefused, rfl⟩⟩
  next hfits =>
  obtain ⟨⟨ok, r⟩, hloop, hexp⟩ := Option.bind_eq_some_iff.mp hexp
  cases ok with
  | true =>
      simp only [Bool.not_true, Bool.false_eq_true, if_false] at hexp
      obtain ⟨_, _, hexp⟩ := Option.map_eq_some_iff.mp hexp
      simp at hexp
  | false =>
      simp only [Bool.not_false, if_true, Option.some.injEq, Prod.mk.injEq, true_and] at hexp
      subst hexp
      obtain ⟨j, hj, hfails, hr⟩ := loop_false hwf hs hloop
      exact ⟨rfl, Or.inr ⟨hfits, j, hj, hfails, hr⟩⟩

/-- For every state of a run of the heap in which no page from `heapEnd` to
`heapMax` is mapped, and every size: a failed `expandHeap` leaves the heap
growable if and only if the size check refuses, or the loop does not fail after
its first page. -/
theorem expandHeap_keepsGrowable_iff {mem : Nat → UInt8} {env : KernelSpace}
    {h₀ h : KernelHeap KernelSpace} {calls : List Call} (hinit : init mem env = some h₀)
    (hrun : Run Step h₀ calls h) (hwf : h.env.WellFormed)
    (hunmapped : ∀ v, h.heapEnd ≤ v → v < h.heapMax → ¬ h.env.Mapped v) (n : Nat) :
    KeepsGrowable h n ↔
      add64 h.heapEnd (alignUp n 4096) > h.heapMax ∨
        ∀ k, 1 ≤ k → k < alignUp n 4096 / 4096 → ¬ FailsAt h.env h.heapEnd k := by
  obtain ⟨bs, inv, _⟩ := reached_run hinit hrun
  constructor
  · intro hkeeps
    by_contra hno
    obtain ⟨hfits, hfails⟩ := not_or.mp hno
    obtain ⟨k, hk, hlt, hfails⟩ : ∃ k, 1 ≤ k ∧ k < alignUp n 4096 / 4096 ∧
        FailsAt h.env h.heapEnd k := by
      by_contra hnone
      exact hfails fun k hk hlt hf => hnone ⟨k, hk, hlt, hf⟩
    obtain ⟨r, hloop, hr⟩ := loop_fails hwf inv.inHeap hfails hlt
    have hexp : expandHeap h n = some (false, { h with env := r }) := by
      rw [expandHeap_eq, if_neg hfits, hloop]
      rfl
    have hzero := hr.eq_zero_of_tables hwf (hkeeps _ hexp).2.1
    omega
  · intro hcond h' hexp
    obtain ⟨hsame, hcase⟩ := expandHeap_false hwf inv.inHeap hexp
    have hr : MappedTo h.env.heapPart h'.env.heapPart h.heapEnd 0 := by
      rcases hcase with ⟨_, rfl⟩ | ⟨hfits, j, hj, hfails, hr⟩
      · exact mappedTo_zero _ hwf
      rcases Nat.eq_zero_or_pos j with rfl | hpos
      · exact hr
      · exact absurd hfails (hcond.resolve_left hfits j hpos hj)
    have hunmapped' : ∀ v, h.heapEnd ≤ v → v < h.heapMax → ¬ h'.env.Mapped v := fun v h₁ h₂ hm => by
      rcases (hr.mapped_iff hwf (inv.slot h₁ h₂)).mp hm with hm | ⟨i, hi, _⟩
      · exact hunmapped v h₁ h₂ hm
      · exact absurd hi (Nat.not_lt_zero i)
    refine ⟨hunmapped', fun q hq hq' => ?_, hsame, fun pages m hpages hpos hfits hdemand => ?_⟩
    · have hsame : freeSet h'.env.machine.pages = freeSet h.env.machine.pages := hr.freeSet_eq hwf
      rw [hsame] at hq'
      exact absurd hq hq'
    · rw [hsame]
      exact expandHeap_succeeds (inv.setEnv (h'.env.setPages pages)) hpages hunmapped' hpos hfits
        hdemand

/-! ## A failed call -/

/-- After `init` in an address space with nothing mapped, the page tables are
well formed and nothing from `heapEnd` on is mapped. -/
theorem init_unmapped {mem : Nat → UInt8} {env : KernelSpace} (hinit : init mem env = some h)
    (hwf : env.WellFormed) (hunmapped : ∀ v, ¬ env.Mapped v) :
    h.env.WellFormed ∧ ∀ v, h.heapEnd ≤ v → v < h.heapMax → ¬ h.env.Mapped v := by
  have hexp := init_expanded hinit
  have halign : alignUp kernelHeapInitialSize 4096 = 16 * 4096 := by decide
  rw [expandHeap_eq, halign] at hexp
  split at hexp
  next => simp at hexp
  obtain ⟨⟨ok, r⟩, hloop, hexp⟩ := Option.bind_eq_some_iff.mp hexp
  cases ok with
  | false => simp at hexp
  | true =>
  simp only [Bool.not_true, Bool.false_eq_true, if_false] at hexp hloop
  obtain ⟨h₁, happ, hexp⟩ := Option.map_eq_some_iff.mp hexp
  simp only [Prod.mk.injEq, true_and] at hexp
  have hstart : InHeap kernelHeapStart := (heapInv_empty mem env).inHeap
  have hr : MappedTo env.heapPart r.heapPart kernelHeapStart 16 := loop_done hwf hstart hloop
  have hlisted := ((heapInv_empty mem env).setEnv r).listed
  obtain ⟨_, hedits, _⟩ := appendBlock_spec ⟨kernelHeapStart, 16 * 4096 - headerSize, true⟩
    hlisted rfl rfl (by decide) (by decide) rfl (by decide) happ
  have henv : h₁.env = r := congrArg KernelHeap.env hedits.rest
  have hend : h₁.heapEnd = kernelHeapStart := congrArg KernelHeap.heapEnd hedits.rest
  have hmax : h₁.heapMax = kernelHeapStart + kernelHeapMaxSize :=
    congrArg KernelHeap.heapMax hedits.rest
  subst hexp
  simp only [henv, hend, hmax]
  refine ⟨hr.wellFormed, fun v h₁ h₂ hm => ?_⟩
  have hle : kernelHeapStart ≤ v := Nat.le_trans (by decide) h₁
  have hlt : v < 2 ^ 64 := Nat.lt_trans h₂ (by decide)
  rcases (hr.mapped_iff hwf (slot_of_le hle hlt)).mp hm with hm | ⟨i, hi, heq⟩
  · exact hunmapped v hm
  · unfold add64 Words.add kernelHeapStart at h₁
    unfold kernelHeapStart kernelHeapMaxSize at h₂
    unfold Vmm.pageOf pageAt add64 Words.add kernelHeapStart at heq
    omega

/-! Twelve more pages for the small heap, of which eleven can be served. -/

theorem space32_unmapped : space32.WellFormed ∧ ∀ v, ¬ space32.Mapped v := by
  have hinit : Pmm.init (fun _ => 0) (some ⟨some [⟨4096, 32 * 4096, Pmm.limineMemmapUsable⟩]⟩) =
      some pages32 := (Option.some_get _).symm
  have hv := Pmm.usable_init (by simp [Pmm.MapFits]) hinit
  have hcreate : Vmm.createAddressSpace ⟨0xFFFF800000000000, fun _ _ => 0, pages32⟩ =
      some (space32.kernelPml4, space32.machine) :=
    (Option.some_get (by decide +kernel)).symm
  have hrefines := Vmm.refines_createAddressSpace hv hcreate
  have hwhole : space32.Whole := hrefines.wellFormed
  exact ⟨hwhole.wellFormed, fun v hm => Finmap.notMem_empty ((hrefines.mem_iff v).mpr hm)⟩

theorem heap32_unmapped : heap32.env.WellFormed ∧
    ∀ v, heap32.heapEnd ≤ v → v < heap32.heapMax → ¬ heap32.env.Mapped v :=
  have hinit : init (fun _ => 0) space32 = some heap32 := (Option.some_get _).symm
  init_unmapped hinit space32_unmapped.1 space32_unmapped.2

/-- The failed call leaves its first page mapped. -/
theorem failed_growth_leaves_pages_mapped :
    Run Step heap32 [] heap32 ∧ heap32.env.WellFormed ∧
      (∀ v, heap32.heapEnd ≤ v → v < heap32.heapMax → ¬ heap32.env.Mapped v) ∧
      ∃ h', expandHeap heap32 (12 * 4096) = some (false, h') ∧
        h'.env.Mapped heap32.heapEnd := by
  have hexp : (expandHeap heap32 (12 * 4096)).map
      (fun r => (r.1, KernelPages.isMapped r.2.env heap32.heapEnd)) = some (false, true) := by
    decide +kernel
  obtain ⟨⟨ok, h'⟩, hexp, heq⟩ := Option.map_eq_some_iff.mp hexp
  obtain ⟨rfl, hm⟩ := Prod.mk.inj heq
  exact ⟨.nil, heap32_unmapped.1, heap32_unmapped.2, h', hexp, isMapped_iff.mp hm⟩

/-- The rest of the kernel takes `k` pages. -/
def takenPages (h : KernelHeap KernelSpace) (k : Nat) : KernelHeap KernelSpace :=
  { h with
    mem := h.mem
    env := h.env.setPages (Vmm.afterRequests h.env.machine.pages k) }

theorem step_takenPages (h : KernelHeap KernelSpace) (k : Nat) : Step h .other (takenPages h k) :=
  .other fun _ _ _ _ => rfl

theorem takenPages_unmapped (k : Nat)
    (hunmapped : ∀ v, h.heapEnd ≤ v → v < h.heapMax → ¬ h.env.Mapped v) :
    ∀ v, (takenPages h k).heapEnd ≤ v → v < (takenPages h k).heapMax →
      ¬ (takenPages h k).env.Mapped v :=
  hunmapped

/-- Without the eleven free pages the growth of the small heap fails at its first page. -/
theorem expandHeap_keepsGrowable_iff_heap32 :
    (∃ h', expandHeap (takenPages heap32 11) (2 * 4096) = some (false, h')) ∧
      KeepsGrowable (takenPages heap32 11) (2 * 4096) := by
  have hinit : init (fun _ => 0) space32 = some heap32 := (Option.some_get _).symm
  have hfails : (expandHeap (takenPages heap32 11) (2 * 4096)).map Prod.fst = some false := by
    decide +kernel
  obtain ⟨⟨ok, h'⟩, hexp, rfl⟩ := Option.map_eq_some_iff.mp hfails
  have hcount : heap32.env.freePages = 11 := by decide +kernel
  obtain ⟨hwf, hfree⟩ := heap32_unmapped.1.afterRequests (k := 11) (by rw [hcount])
  rw [hcount] at hfree
  have hzero : (takenPages heap32 11).env.freePages = 0 := hfree
  refine ⟨⟨h', hexp⟩, (expandHeap_keepsGrowable_iff hinit (.single (step_takenPages heap32 11)) hwf
    (takenPages_unmapped 11 heap32_unmapped.2) _).mpr (Or.inr fun k hk _ hfailsAt => ?_)⟩
  have hdemand : k ≤ (takenPages heap32 11).env.demand (takenPages heap32 11).heapEnd k :=
    Nat.le_add_right _ _
  rcases hfailsAt.2 with heq | ⟨hlt, _⟩ <;> omega

end Avery.Heap
