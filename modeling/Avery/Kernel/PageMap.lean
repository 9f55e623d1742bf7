import Avery.Kernel.PageTables
import Avery.Kernel.PhysicalInit
import Mathlib.Data.Finmap

/-!
# Page tables refine a partial map

The abstract address space is a finite partial map from page numbers to frame
addresses.  Mapping a page inserts it when both addresses are aligned and the
page is absent, unmapping erases it, and a translation looks it up.

`Refines` relates page tables to such a map: the leaf entry of every address
holds the frame the map gives its page.  Each call preserves it and answers as
the map does, so a whole run does.  The only call that may fail to return is
`mapPage`, and only because the allocator has no frame for a table.
-/

namespace Avery

/-! ## The physical memory manager as an allocator of frames -/

namespace Pmm

/-- The states of the allocator in which page zero is not free. -/
structure Usable (pm : PhysicalMemory) : Prop where
  counted : Counted pm
  notZero : 0 ∉ freeSet pm

theorem Usable.allocPage {pm : PhysicalMemory} (h : Usable pm) : Usable (allocPage pm).2 := by
  rcases allocPage_cases h.counted with ⟨i, hi, heq⟩ | ⟨_, heq⟩
  · rw [heq]
    refine ⟨takePage_counted h.counted hi, fun hz => h.notZero ?_⟩
    rw [freeSet_takePage] at hz
    exact Finset.mem_of_mem_erase hz
  · rw [heq]
    exact h

/-- A frame is owned when it is not free. -/
instance : LawfulPageAllocator PhysicalMemory where
  Valid := Usable
  Owned pm q := physicalToPage q ∉ freeSet pm
  valid_alloc _ h := h.allocPage
  owned_alloc pm q h ho := by
    show _ ∉ freeSet (Pmm.allocPage pm).2
    rcases allocPage_cases h.counted with ⟨i, hi, heq⟩ | ⟨_, heq⟩
    · rw [heq, freeSet_takePage]
      exact fun hmem => ho (Finset.mem_of_mem_erase hmem)
    · rw [heq]
      exact ho
  owned_new pm h hne := by
    show physicalToPage (Pmm.allocPage pm).1 ∉ freeSet (Pmm.allocPage pm).2
    rcases allocPage_cases h.counted with ⟨i, hi, heq⟩ | ⟨_, heq⟩
    · have hlt := (mem_freeSet.mp hi).1
      have hsmall := h.counted.small
      rw [heq, physicalToPage_pageToPhysical (by omega), freeSet_takePage]
      exact Finset.notMem_erase i _
    · exact absurd (congrArg Prod.fst heq) hne
  fresh pm h hne := by
    show ¬ physicalToPage (Pmm.allocPage pm).1 ∉ freeSet pm
    rcases allocPage_cases h.counted with ⟨i, hi, heq⟩ | ⟨_, heq⟩
    · have hlt := (mem_freeSet.mp hi).1
      have hsmall := h.counted.small
      rw [heq, physicalToPage_pageToPhysical (by omega)]
      exact not_not.mpr hi
    · exact absurd (congrArg Prod.fst heq) hne
  aligned pm h := by
    show (Pmm.allocPage pm).1 % 4096 = 0
    rcases allocPage_cases h.counted with ⟨i, hi, heq⟩ | ⟨_, heq⟩
    · have hlt := (mem_freeSet.mp hi).1
      have hsmall := h.counted.small
      rw [heq]
      exact pageToPhysical_mod _
    · rw [heq]
      rfl
  small pm h := by
    show (Pmm.allocPage pm).1 < 2 ^ 52
    rcases allocPage_cases h.counted with ⟨i, hi, heq⟩ | ⟨_, heq⟩
    · have hlt := (mem_freeSet.mp hi).1
      have hsmall := h.counted.small
      rw [heq, pageToPhysical_eq (by omega)]
      omega
    · rw [heq]
      exact Nat.two_pow_pos 52

theorem usable_init {ram : Nat → UInt8} {entries : List MemmapEntry} {pm : PhysicalMemory}
    (hfit : MapFits entries) (hinit : init ram (some ⟨some entries⟩) = some pm) : Usable pm := by
  obtain ⟨hc, hm⟩ := init_spec hfit hinit
  exact ⟨hc, fun hz => ((hm 0).mp hz).notZero rfl⟩

end Pmm

namespace Vmm

open LawfulPageAllocator (Valid)

/-! ## The abstract address space -/

/-- A finite partial map from page numbers to frame addresses. -/
abbrev PageMap : Type := Finmap fun _ : Nat => Nat

namespace PageMap

def mapPage (pm : PageMap) (virt phys : Nat) : Bool × PageMap :=
  if virt % pageSize = 0 ∧ phys % pageSize = 0 ∧ pageOf virt ∉ pm then
    (true, pm.insert (pageOf virt) phys)
  else (false, pm)

def unmapPage (pm : PageMap) (virt : Nat) : Bool × PageMap :=
  if virt % pageSize = 0 ∧ pageOf virt ∈ pm then (true, pm.erase (pageOf virt)) else (false, pm)

def virtToPhysical (pm : PageMap) (virt : Nat) : Nat :=
  match pm.lookup (pageOf virt) with
  | some frame => frame + virt % pageSize
  | none => 0

/-- Mapping a page leaves every other page as it was. -/
theorem lookup_mapPage_other (pm : PageMap) {virt : Nat} (phys : Nat) {p : Nat}
    (h : p ≠ pageOf virt) : (pm.mapPage virt phys).2.lookup p = pm.lookup p := by
  unfold mapPage
  split
  · exact Finmap.lookup_insert_of_ne _ h
  · rfl

/-- Unmapping a page leaves every other page as it was. -/
theorem lookup_unmapPage_other (pm : PageMap) {virt p : Nat} (h : p ≠ pageOf virt) :
    (pm.unmapPage virt).2.lookup p = pm.lookup p := by
  unfold unmapPage
  split
  · exact Finmap.lookup_erase_ne h
  · rfl

end PageMap

/-! ## Runs -/

inductive Call where
  | mapPage (virt phys flags : Nat)
  | unmapPage (virt : Nat)
  | virtToPhysical (virt : Nat)

inductive Answer where
  | done (ok : Bool)
  | address (phys : Nat)
deriving DecidableEq

/-- Frames are addressed with 52 bits and flags stay out of the frame field. -/
def Call.Admissible : Call → Prop
  | .mapPage _ phys flags => phys < 2 ^ 52 ∧ flags &&& pteAddrMask = 0
  | _ => True

/-- The page a call is about. -/
def Call.page : Call → Nat
  | .mapPage virt _ _ => pageOf virt
  | .unmapPage virt => pageOf virt
  | .virtToPhysical virt => pageOf virt

/-- The call on the page tables. -/
def exec {A : Type} [PageAllocator A] (m : Machine A) (pml4 : Nat) :
    Call → Option (Answer × Machine A)
  | .mapPage virt phys flags => (mapPage m pml4 virt phys flags).map fun r => (.done r.1, r.2)
  | .unmapPage virt => (unmapPage m pml4 virt).map fun r => (.done r.1, r.2)
  | .virtToPhysical virt => (virtToPhysical m pml4 virt).map fun r => (.address r.1, r.2)

/-- The call on the partial map. -/
def specExec (pm : PageMap) : Call → Answer × PageMap
  | .mapPage virt phys _ => (.done (pm.mapPage virt phys).1, (pm.mapPage virt phys).2)
  | .unmapPage virt => (.done (pm.unmapPage virt).1, (pm.unmapPage virt).2)
  | .virtToPhysical virt => (.address (pm.virtToPhysical virt), pm)

/-- A sequence of calls on the page tables, with the answers. -/
def execAll {A : Type} [PageAllocator A] (m : Machine A) (pml4 : Nat) :
    List Call → Option (List Answer × Machine A)
  | [] => some ([], m)
  | c :: cs => do
      let (a, m) ← exec m pml4 c
      let (as, m) ← execAll m pml4 cs
      return (a :: as, m)

/-- The same sequence on the partial map. -/
def specExecAll (pm : PageMap) : List Call → List Answer × PageMap
  | [] => ([], pm)
  | c :: cs =>
      let (a, pm) := specExec pm c
      let (as, pm) := specExecAll pm cs
      (a :: as, pm)

/-! ## The refinement -/

variable {A : Type} [PageAllocator A] [LawfulPageAllocator A]

structure Refines (m : Machine A) (pml4 : Nat) (pm : PageMap) : Prop where
  wellFormed : WellFormed m pml4
  frames : ∀ v, (leafEntry m pml4 v).map (fun e => e &&& pteAddrMask) = pm.lookup (pageOf v)

section

variable {m : Machine A} {pml4 : Nat} {pm : PageMap}

theorem Refines.mem_iff (h : Refines m pml4 pm) (v : Nat) :
    pageOf v ∈ pm ↔ (leafEntry m pml4 v).isSome := by
  rw [← Finmap.lookup_isSome, ← h.frames]
  cases leafEntry m pml4 v <;> simp

/-- A page of the map has a present entry in a last-level table. -/
theorem Refines.slot_of_mem (h : Refines m pml4 pm) {virt : Nat} (hmem : pageOf virt ∈ pm) :
    ∃ t, tableAt m pml4 (path virt) = some t ∧ isPresent (m.tables t (ptIndex virt)) = true := by
  have hleaf := (h.mem_iff virt).mp hmem
  rw [leafEntry] at hleaf
  cases ht : tableAt m pml4 (path virt) with
  | none => rw [ht] at hleaf; cases hleaf
  | some t =>
      rw [ht, Option.bind_some] at hleaf
      split at hleaf
      next hp => exact ⟨t, rfl, hp⟩
      next => cases hleaf

/-- The entry of a page outside the map is not present. -/
theorem Refines.slot_of_not_mem (h : Refines m pml4 pm) {virt t : Nat} (hmem : pageOf virt ∉ pm)
    (ht : tableAt m pml4 (path virt) = some t) : isPresent (m.tables t (ptIndex virt)) = false := by
  cases hp : isPresent (m.tables t (ptIndex virt)) with
  | false => rfl
  | true => exact absurd ((h.mem_iff virt).mpr (by simp [leafEntry, ht, hp])) hmem

/-- `virtToPhysical` answers as the map does and changes nothing. -/
theorem Refines.virtToPhysical (h : Refines m pml4 pm) (virt : Nat) :
    virtToPhysical m pml4 virt = some (pm.virtToPhysical virt, m) := by
  have hframe := h.frames virt
  have hoffset : virt &&& 0xFFF = virt % 4096 := by
    rw [show (0xFFF : Nat) = 2 ^ 12 - 1 by decide, Words.and_mask, show (2 : Nat) ^ 12 = 4096 by decide]
  unfold Vmm.virtToPhysical PageMap.virtToPhysical
  rw [getPte_lookup]
  unfold leafEntry at hframe
  cases ht : tableAt m pml4 (path virt) with
  | none =>
      rw [ht] at hframe
      rw [← hframe]
      rfl
  | some t =>
      rw [ht, Option.bind_some] at hframe
      cases hp : isPresent (m.tables t (ptIndex virt)) with
      | false =>
          rw [hp] at hframe
          rw [← hframe]
          simp [hp]
      | true =>
          rw [hp] at hframe
          rw [← hframe]
          have hle : m.tables t (ptIndex virt) &&& pteAddrMask ≤ pteAddrMask := Nat.and_le_right
          have hsum : add64 (m.tables t (ptIndex virt) &&& pteAddrMask) (virt % 4096) =
              (m.tables t (ptIndex virt) &&& pteAddrMask) + virt % 4096 :=
            Words.add_eq (by unfold pteAddrMask at hle ⊢; omega)
          simp [hp, hoffset, hsum, pageSize]

/-- A write into the slot of an address moves the map at the page of the
address only. -/
theorem Refines.setEntry {virt t e : Nat} (h : WellFormed m pml4)
    (ht : tableAt m pml4 (path virt) = some t) {pm' : PageMap}
    (hpage : (if isPresent e then some (e &&& pteAddrMask) else none) = pm'.lookup (pageOf virt))
    (hother : ∀ v, pageOf v ≠ pageOf virt →
      (leafEntry m pml4 v).map (fun e => e &&& pteAddrMask) = pm'.lookup (pageOf v)) :
    Refines (m.setEntry t (ptIndex virt) e) pml4 pm' := by
  obtain ⟨hwf, _, hleaf⟩ := h.setEntry ht e
  refine ⟨hwf, fun v => ?_⟩
  rw [hleaf]
  by_cases hv : pageOf v = pageOf virt
  · rw [if_pos hv, hv, ← hpage]
    split <;> rfl
  · rw [if_neg hv]
    exact hother v hv

/-- `unmapPage` answers as the map does. -/
theorem Refines.unmapPage (h : Refines m pml4 pm) (virt : Nat) :
    ∃ m', unmapPage m pml4 virt = some ((pm.unmapPage virt).1, m') ∧
      Refines m' pml4 (pm.unmapPage virt).2 ∧ m'.pages = m.pages := by
  by_cases ha : virt % pageSize = 0
  · by_cases hmem : pageOf virt ∈ pm
    · have hspec : pm.unmapPage virt = (true, pm.erase (pageOf virt)) := if_pos ⟨ha, hmem⟩
      obtain ⟨t, ht, hp⟩ := h.slot_of_mem hmem
      refine ⟨m.setEntry t (ptIndex virt) 0, ?_, ?_, rfl⟩
      · rw [Vmm.unmapPage, getPte_lookup, ht, hspec]
        simp [ha, hp]
      · rw [hspec]
        refine Refines.setEntry h.wellFormed ht ?_ fun v hv => ?_
        · rw [isPresent_zero, Finmap.lookup_erase]
          rfl
        · rw [h.frames, Finmap.lookup_erase_ne hv]
    · have hspec : pm.unmapPage virt = (false, pm) := if_neg fun hc => hmem hc.2
      refine ⟨m, ?_, ?_, rfl⟩
      · rw [Vmm.unmapPage, getPte_lookup, hspec]
        cases ht : tableAt m pml4 (path virt) with
        | none => simp [ha]
        | some t => simp [ha, h.slot_of_not_mem hmem ht]
      · rw [hspec]
        exact h
  · have hspec : pm.unmapPage virt = (false, pm) := if_neg fun hc => ha hc.1
    rw [hspec]
    exact ⟨m, by simp [Vmm.unmapPage, ha], h, rfl⟩

/-- `mapPage` answers as the map does, or one of at most three requests for a
table fails. -/
theorem Refines.mapPage (h : Refines m pml4 pm) (virt : Nat) {phys flags : Nat}
    (hphys : phys < 2 ^ 52) (hflags : flags &&& pteAddrMask = 0) :
    mapPage m pml4 virt phys flags = none ∧ (∃ k < 3, OutOfPagesAfter m.pages k) ∨
    ∃ m', mapPage m pml4 virt phys flags = some ((pm.mapPage virt phys).1, m') ∧
      Refines m' pml4 (pm.mapPage virt phys).2 ∧ ∃ k ≤ 3, m'.pages = afterRequests m.pages k := by
  by_cases ha : virt % pageSize = 0 ∧ phys % pageSize = 0
  · obtain ⟨hv, hf⟩ := ha
    have hthree := card_missingTables_le m pml4 virt
    have hmem : pageOf virt ∈ pm ↔ leafEntry m pml4 virt ≠ none := by
      rw [h.mem_iff, Option.isSome_iff_ne_none]
    rcases mapPage_cases flags h.wellFormed hv hf with
      ⟨hn, k, hk, hz⟩ | ⟨t, m₁, hc, ht, ⟨hleaf, heq⟩ | ⟨hleaf, heq⟩⟩
    · exact Or.inl ⟨hn, k, by omega, hz⟩
    · have hspec : pm.mapPage virt phys = (false, pm) := if_neg fun hc => hc.2.2 (hmem.mpr hleaf)
      rw [hspec]
      exact Or.inr ⟨m₁, heq, ⟨hc.wellFormed, fun v => by rw [hc.leaf]; exact h.frames v⟩,
        _, hthree, hc.pages⟩
    · have hspec : pm.mapPage virt phys = (true, pm.insert (pageOf virt) phys) :=
        if_pos ⟨hv, hf, fun hin => hmem.mp hin hleaf⟩
      rw [hspec]
      refine Or.inr ⟨_, heq, Refines.setEntry hc.wellFormed ht ?_ fun v hne => ?_,
        _, hthree, hc.pages⟩
      · rw [isPresent_or_present, leaf_and_addrMask hphys hf hflags, Finmap.lookup_insert]
        rfl
      · rw [hc.leaf, h.frames, Finmap.lookup_insert_of_ne _ hne]
  · have hspec : pm.mapPage virt phys = (false, pm) := if_neg fun hc => ha ⟨hc.1, hc.2.1⟩
    rw [hspec]
    refine Or.inr ⟨m, ?_, h, 0, by omega, rfl⟩
    rw [Vmm.mapPage, if_pos (not_and_or.mp ha)]
    rfl

/-- One call: it answers as the map does, or one of three requests fails. -/
theorem Refines.exec (h : Refines m pml4 pm) {c : Call} (hc : c.Admissible) :
    exec m pml4 c = none ∧ (∃ k < 3, OutOfPagesAfter m.pages k) ∨
    ∃ m', exec m pml4 c = some ((specExec pm c).1, m') ∧ Refines m' pml4 (specExec pm c).2 ∧
      ∃ k ≤ 3, m'.pages = afterRequests m.pages k := by
  cases c with
  | mapPage virt phys flags =>
      rcases h.mapPage virt hc.1 hc.2 with ⟨hn, hz⟩ | ⟨m', heq, h', hpages⟩
      · exact Or.inl ⟨by rw [Vmm.exec, hn]; rfl, hz⟩
      · exact Or.inr ⟨m', by rw [Vmm.exec, heq]; rfl, h', hpages⟩
  | unmapPage virt =>
      obtain ⟨m', heq, h', hpages⟩ := h.unmapPage virt
      exact Or.inr ⟨m', by rw [Vmm.exec, heq]; rfl, h', 0, by omega, hpages⟩
  | virtToPhysical virt =>
      exact Or.inr ⟨m, by rw [Vmm.exec, h.virtToPhysical virt]; rfl, h, 0, by omega, rfl⟩

end

/-- A run answers as the map does, or one of its requests fails. -/
theorem Refines.execAll :
    ∀ {calls : List Call} {m : Machine A} {pml4 : Nat} {pm : PageMap}, Refines m pml4 pm →
      (∀ c ∈ calls, c.Admissible) →
      execAll m pml4 calls = none ∧ (∃ k < 3 * calls.length, OutOfPagesAfter m.pages k) ∨
      ∃ m', execAll m pml4 calls = some ((specExecAll pm calls).1, m') ∧
        Refines m' pml4 (specExecAll pm calls).2
  | [], m, _, _, h, _ => Or.inr ⟨m, rfl, h⟩
  | c :: cs, m, pml4, pm, h, hadm => by
      have hc := hadm c (List.mem_cons_self ..)
      have hcs : ∀ c' ∈ cs, c'.Admissible := fun c' h' => hadm c' (List.mem_cons_of_mem _ h')
      rcases h.exec hc with ⟨hn, k, hk, hz⟩ | ⟨m₁, heq, h₁, j, hj, hpages⟩
      · exact Or.inl ⟨by rw [Vmm.execAll, hn]; rfl, k, by rw [List.length_cons]; omega, hz⟩
      rcases h₁.execAll hcs with ⟨hn, k, hk, hz⟩ | ⟨m₂, heq₂, h₂⟩
      · refine Or.inl ⟨by simp [Vmm.execAll, heq, hn], j + k, by rw [List.length_cons]; omega, ?_⟩
        rw [OutOfPagesAfter, ← afterRequests_add, ← hpages]
        exact hz
      · exact Or.inr ⟨m₂, by simp [Vmm.execAll, heq, heq₂, specExecAll], h₂⟩

/-- A new address space is the empty map. -/
theorem refines_createAddressSpace {m m₀ : Machine A} {pml4 : Nat} (hv : Valid m.pages)
    (hcreate : createAddressSpace m = some (pml4, m₀)) : Refines m₀ pml4 ∅ := by
  rw [createAddressSpace, newTable] at hcreate
  by_cases hz : (PageAllocator.allocPage m.pages).1 = 0
  · simp [hz, Pmm.outOfMemory] at hcreate
  simp only [Pmm.outOfMemory, hz, if_false, Option.some.injEq, Prod.mk.injEq] at hcreate
  obtain ⟨rfl, rfl⟩ := hcreate
  have hempty : ∀ i, child { m with
      tables := Function.update m.tables
        (m.physicalToVirtual (PageAllocator.allocPage m.pages).1) (fun _ => 0)
      pages := (PageAllocator.allocPage m.pages).2 }
      (m.physicalToVirtual (PageAllocator.allocPage m.pages).1) i = none := by
    intro i
    simp [child, isPresent_zero]
  refine ⟨⟨LawfulPageAllocator.valid_alloc _ hv, Trie.tree_of_no_edges 3 hempty, ?_⟩, fun v => ?_⟩
  · intro p t _ ht
    cases p with
    | nil =>
        cases ht
        exact ⟨_, LawfulPageAllocator.owned_new _ hv hz, LawfulPageAllocator.small _ hv, rfl⟩
    | cons i p =>
        rw [tableAt, Trie.walk, hempty i] at ht
        cases ht
  · rw [leafEntry, tableAt, path, Trie.walk, hempty]
    rfl

/-- On every address space, every sequence of calls that returns gives the
answers of a finite partial map that starts empty, and the page tables translate
afterwards as that map does.  A call on one page changes the map at no other
page.  A sequence returns unless one of its requests for a table, at most three
for each call, finds the allocator out of pages. -/
theorem pageTables_refine_partial_map {m m₀ : Machine A} {pml4 : Nat} (hv : Valid m.pages)
    (hcreate : createAddressSpace m = some (pml4, m₀)) {calls : List Call}
    (hadm : ∀ c ∈ calls, c.Admissible) :
    (execAll m₀ pml4 calls = none → ∃ k < 3 * calls.length, OutOfPagesAfter m₀.pages k) ∧
    ∀ answers m', execAll m₀ pml4 calls = some (answers, m') →
      ∃ pm, specExecAll ∅ calls = (answers, pm) ∧
        (∀ virt, virtToPhysical m' pml4 virt = some (pm.virtToPhysical virt, m')) ∧
        ∀ c virt, pageOf virt ≠ c.page →
          (specExec pm c).2.virtToPhysical virt = pm.virtToPhysical virt := by
  have h := refines_createAddressSpace hv hcreate
  rcases h.execAll hadm with ⟨hn, hz⟩ | ⟨m', heq, h'⟩
  · refine ⟨fun _ => hz, fun answers m' hrun => ?_⟩
    rw [hn] at hrun
    cases hrun
  refine ⟨fun hn => absurd (heq.symm.trans hn) (Option.some_ne_none _), fun answers m'' hrun => ?_⟩
  rw [heq, Option.some.injEq, Prod.mk.injEq] at hrun
  obtain ⟨rfl, rfl⟩ := hrun
  refine ⟨(specExecAll ∅ calls).2, rfl, h'.virtToPhysical, fun c virt hne => ?_⟩
  unfold PageMap.virtToPhysical
  cases c with
  | mapPage v phys flags => rw [specExec, PageMap.lookup_mapPage_other _ phys hne]
  | unmapPage v => rw [specExec, PageMap.lookup_unmapPage_other _ hne]
  | virtToPhysical v => rfl

/-- Eight usable pages, after `init`. -/
def eightPages : Pmm.PhysicalMemory :=
  (Pmm.init (fun _ => 0) (some ⟨some [⟨4096, 8 * 4096, Pmm.limineMemmapUsable⟩]⟩)).get
    (by decide +kernel)

/-- The first address space over eight pages. -/
def eightPagesSpace : Nat × Machine Pmm.PhysicalMemory :=
  (createAddressSpace ⟨0xFFFF800000000000, fun _ _ => 0, eightPages⟩).get (by decide +kernel)

theorem eightPages_usable : Pmm.Usable eightPages := by
  have hinit : Pmm.init (fun _ => 0) (some ⟨some [⟨4096, 8 * 4096, Pmm.limineMemmapUsable⟩]⟩) =
      some eightPages := (Option.some_get _).symm
  exact Pmm.usable_init (by simp [Pmm.MapFits]) hinit

theorem createAddressSpace_eightPages :
    createAddressSpace ⟨0xFFFF800000000000, fun _ _ => 0, eightPages⟩ = some eightPagesSpace :=
  (Option.some_get _).symm

/-- A page mapped over eight pages of memory, and an address inside it. -/
theorem pageTables_refine_partial_map_eightPages :
    ∃ pm, specExecAll ∅ [.mapPage 0x400000 0x7000 2, .virtToPhysical 0x400123] =
      ([.done true, .address 0x7123], pm) := by
  have hrun : (execAll eightPagesSpace.2 eightPagesSpace.1
      [.mapPage 0x400000 0x7000 2, .virtToPhysical 0x400123]).map Prod.fst =
      some [.done true, .address 0x7123] := by decide +kernel
  obtain ⟨⟨answers, m'⟩, hrun, rfl⟩ := Option.map_eq_some_iff.mp hrun
  have hadm : ∀ c ∈ [Call.mapPage 0x400000 0x7000 2, .virtToPhysical 0x400123], c.Admissible := by
    intro c hc
    rcases List.mem_pair.mp hc with rfl | rfl
    · exact ⟨by omega, by decide⟩
    · trivial
  obtain ⟨pm, hspec, _⟩ :=
    (pageTables_refine_partial_map eightPages_usable createAddressSpace_eightPages hadm).2 _ _ hrun
  exact ⟨pm, hspec⟩

end Vmm

end Avery
