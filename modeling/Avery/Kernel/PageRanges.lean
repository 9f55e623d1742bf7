import Avery.Kernel.PageMap

/-!
# Ranges of pages

A run of consecutive pages is mapped, or unmapped, one page after the other.  On
the partial map of an address space a range of pages that are all absent is
filled with consecutive frames, and a range is cleared.  Both loops reach the end
unless a request for a table fails.
-/

namespace Avery

namespace Vmm

open LawfulPageAllocator (Valid)

/-! ## Translations -/

section

variable {A : Type}

/-- The physical address that the page tables give a virtual address, if any. -/
def translation (m : Machine A) (pml4 virt : Nat) : Option Nat :=
  (leafEntry m pml4 virt).map fun entry => (entry &&& pteAddrMask) + virt % pageSize

theorem leafEntry_congr {m : Machine A} {pml4 v w : Nat} (h : pageOf v = pageOf w) :
    leafEntry m pml4 v = leafEntry m pml4 w := by
  obtain ⟨hpath, hindex⟩ := pageOf_eq_iff.mp h
  rw [leafEntry, leafEntry, hpath, hindex]

theorem pageOf_lt (virt : Nat) : pageOf virt < 2 ^ 36 := by
  rw [pageOf]
  omega

/-- The pages after the page of an aligned address. -/
theorem pageOf_add {virt i : Nat} (h : virt % 2 ^ 48 + i * pageSize < 2 ^ 48) :
    pageOf (virt + i * pageSize) = pageOf virt + i := by
  rw [pageOf, pageOf, pageSize] at *
  omega

end

/-! ## Partial maps -/

/-- A function that is defined on finitely many pages is a partial map. -/
theorem PageMap.exists_of_bounded (f : Nat → Option Nat) :
    ∀ n : Nat, ∃ pm : PageMap, ∀ p, pm.lookup p = if p < n then f p else none
  | 0 => ⟨∅, fun p => by simp⟩
  | n + 1 => by
      obtain ⟨pm, hpm⟩ := exists_of_bounded f n
      cases hf : f n with
      | none =>
          refine ⟨pm, fun p => ?_⟩
          rw [hpm]
          by_cases hp : p = n
          · simp [hp, hf]
          · exact if_congr (by omega) rfl rfl
      | some frame =>
          refine ⟨pm.insert n frame, fun p => ?_⟩
          by_cases hp : p = n
          · subst hp
            rw [Finmap.lookup_insert, if_pos (Nat.lt_succ_self p), hf]
          · rw [Finmap.lookup_insert_of_ne _ hp, hpm]
            exact if_congr (by omega) rfl rfl

variable {A : Type} [PageAllocator A]

/-- `virtToPhysical` returns the translation, and `0` where there is none. -/
theorem virtToPhysical_translation (m : Machine A) (pml4 virt : Nat) :
    virtToPhysical m pml4 virt = some ((translation m pml4 virt).getD 0, m) := by
  have hoffset : virt &&& 0xFFF = virt % pageSize := by
    rw [show (0xFFF : Nat) = 2 ^ 12 - 1 by decide, Words.and_mask, show (2 : Nat) ^ 12 = 4096 by decide,
      pageSize]
  unfold virtToPhysical translation leafEntry
  rw [getPte_lookup]
  cases ht : tableAt m pml4 (path virt) with
  | none => rfl
  | some t =>
      cases hp : isPresent (m.tables t (ptIndex virt)) with
      | false => simp [hp]
      | true =>
          have hle : m.tables t (ptIndex virt) &&& pteAddrMask ≤ pteAddrMask := Nat.and_le_right
          have hsum : add64 (m.tables t (ptIndex virt) &&& pteAddrMask) (virt % pageSize) =
              (m.tables t (ptIndex virt) &&& pteAddrMask) + virt % pageSize :=
            Words.add_eq (by unfold pteAddrMask pageSize at *; omega)
          simp [hp, hoffset, hsum]

/-! ## Whole pages -/

theorem pages_of_bytes (n : Nat) : (n * 4096 + 4096 - 1) / 4096 = n := by omega

/-- A size of whole pages is mapped page by page. -/
theorem mapRange_eq (m : Machine A) (pml4 virt phys flags : Nat) {n : Nat}
    (h : n * 4096 + 4096 < 2 ^ 64) :
    mapRange m pml4 virt phys (n * 4096) flags = mapRangeLoop m pml4 virt phys flags 0 n := by
  have hone : 1 ≤ n * 4096 + 4096 := by omega
  have hsum : add64 (n * 4096) pageSize = n * 4096 + 4096 := Words.add_eq h
  have hsub : sub64 (n * 4096 + 4096) 1 = n * 4096 + 4096 - 1 := Words.sub_eq h hone
  simp only [mapRange, hsum, hsub]
  rw [pageSize, pages_of_bytes]

variable [LawfulPageAllocator A]

variable {m : Machine A} {pml4 : Nat} {pm : PageMap}

/-- Well-formed page tables refine a partial map. -/
theorem WellFormed.refines (h : WellFormed m pml4) : ∃ pm, Refines m pml4 pm := by
  obtain ⟨pm, hpm⟩ := PageMap.exists_of_bounded
    (fun p => (leafEntry m pml4 (p * pageSize)).map fun e => e &&& pteAddrMask) (2 ^ 36)
  refine ⟨pm, h, fun v => ?_⟩
  have hpage : pageOf (pageOf v * pageSize) = pageOf v := by
    have hlt := pageOf_lt v
    unfold pageOf pageSize at *
    omega
  rw [hpm, if_pos (pageOf_lt v), leafEntry_congr hpage]

theorem Refines.translation (h : Refines m pml4 pm) (virt : Nat) :
    translation m pml4 virt = (pm.lookup (pageOf virt)).map fun frame => frame + virt % pageSize := by
  rw [← h.frames, Option.map_map]
  rfl

/-! ## Mapping a range -/

/-- Mapping the page at an offset of `i` pages inserts it. -/
theorem PageMap.mapPage_offset {virt phys i : Nat} (hvirt : virt % 4096 = 0)
    (hphys : phys % 4096 = 0) (hv : virt % 2 ^ 48 + i * 4096 < 2 ^ 48)
    (habsent : pageOf virt + i ∉ pm) :
    pm.mapPage (virt + i * 4096) (phys + i * 4096) =
      (true, pm.insert (pageOf virt + i) (phys + i * 4096)) := by
  have hpage : pageOf (virt + i * 4096) = pageOf virt + i := pageOf_add hv
  have hva : (virt + i * 4096) % 4096 = 0 := by omega
  have hpa : (phys + i * 4096) % 4096 = 0 := by omega
  rw [PageMap.mapPage, hpage]
  exact if_pos ⟨hva, hpa, habsent⟩

/-- The loop of `mapRange` over absent pages fills them. -/
theorem Refines.mapRangeLoop {virt phys flags n : Nat} (hvirt : virt % 4096 = 0)
    (hphys : phys % 4096 = 0) (hflags : flags &&& pteAddrMask = 0) (h64 : virt < 2 ^ 64) :
    ∀ {i : Nat} {m : Machine A} {pm : PageMap}, Refines m pml4 pm →
      virt % 2 ^ 48 + (i + n) * 4096 ≤ 2 ^ 48 → phys + (i + n) * 4096 ≤ 2 ^ 52 →
      (∀ j < n, pageOf virt + (i + j) ∉ pm) →
      mapRangeLoop m pml4 virt phys flags i n = none ∧ (∃ k < 3 * n, OutOfPagesAfter m.pages k) ∨
      ∃ m' pm', mapRangeLoop m pml4 virt phys flags i n = some (true, m') ∧ Refines m' pml4 pm' ∧
        (∃ k ≤ 3 * n, m'.pages = afterRequests m.pages k) ∧
        ∀ p, pm'.lookup p = if pageOf virt + i ≤ p ∧ p < pageOf virt + (i + n) then
          some (phys + (p - pageOf virt) * 4096) else pm.lookup p := by
  induction n with
  | zero =>
      intro i m pm h _ _ _
      refine Or.inr ⟨m, pm, rfl, h, ⟨0, Nat.le_refl _, rfl⟩, fun p => ?_⟩
      rw [if_neg (by omega)]
  | succ n ih =>
      intro i m pm h hv hp habsent
      have hnext : i + (n + 1) = i + 1 + n := by omega
      have hmul : mul64 i pageSize = i * 4096 := Words.mul_eq (by rw [pageSize]; omega)
      have hva : add64 virt (mul64 i pageSize) = virt + i * 4096 := by
        rw [hmul]
        exact Words.add_eq (by omega)
      have hpa : add64 phys (mul64 i pageSize) = phys + i * 4096 := by
        rw [hmul]
        exact Words.add_eq (by omega)
      have hspec := PageMap.mapPage_offset hvirt hphys (by omega : virt % 2 ^ 48 + i * 4096 < 2 ^ 48)
        (habsent 0 (Nat.zero_lt_succ n))
      have hframe : phys + i * 4096 < 2 ^ 52 := by omega
      rw [Vmm.mapRangeLoop, hva, hpa]
      rcases h.mapPage (virt + i * 4096) hframe hflags with
        ⟨hn, k, hk, hz⟩ | ⟨m₁, heq, h₁, k, hk, hpages⟩
      · exact Or.inl ⟨by rw [hn]; rfl, k, by omega, hz⟩
      rw [hspec] at heq h₁
      have hrest : ∀ j < n, pageOf virt + (i + 1 + j) ∉
          pm.insert (pageOf virt + i) (phys + i * 4096) := by
        intro j hj hmem
        rcases Finmap.mem_insert.mp hmem with hc | hc
        · omega
        · rw [show i + 1 + j = i + (j + 1) by omega] at hc
          exact habsent (j + 1) (Nat.succ_lt_succ hj) hc
      rw [heq]
      rcases ih h₁ (hnext ▸ hv) (hnext ▸ hp) hrest with
        ⟨hn, k', hk', hz⟩ | ⟨m', pm', heq', h', ⟨k', hk', hpages'⟩, hlookup⟩
      · refine Or.inl ⟨hn, k + k', by omega, ?_⟩
        rw [OutOfPagesAfter, ← afterRequests_add, ← hpages]
        exact hz
      · refine Or.inr ⟨m', pm', heq', h', ⟨k + k', by omega, ?_⟩, fun p => ?_⟩
        · rw [hpages', hpages, afterRequests_add]
        · rw [hlookup]
          by_cases hi : p = pageOf virt + i
          · subst hi
            rw [if_neg (by omega), if_pos (by omega), Finmap.lookup_insert, Nat.add_sub_cancel_left]
          · rw [Finmap.lookup_insert_of_ne _ hi]
            exact if_congr (by omega) rfl rfl

/-- `mapRange` over absent pages fills them, unless a request for a table
fails. -/
theorem Refines.mapRange {virt phys flags n : Nat} (h : Refines m pml4 pm)
    (hvirt : virt % 4096 = 0) (hphys : phys % 4096 = 0) (hflags : flags &&& pteAddrMask = 0)
    (h64 : virt < 2 ^ 64) (hv : virt % 2 ^ 48 + n * 4096 ≤ 2 ^ 48)
    (hp : phys + n * 4096 ≤ 2 ^ 52) (habsent : ∀ j < n, pageOf virt + j ∉ pm) :
    mapRange m pml4 virt phys (n * 4096) flags = none ∧
      (∃ k < 3 * n, OutOfPagesAfter m.pages k) ∨
    ∃ m' pm', mapRange m pml4 virt phys (n * 4096) flags = some (true, m') ∧
      Refines m' pml4 pm' ∧ (∃ k ≤ 3 * n, m'.pages = afterRequests m.pages k) ∧
      ∀ p, pm'.lookup p = if pageOf virt ≤ p ∧ p < pageOf virt + n then
        some (phys + (p - pageOf virt) * 4096) else pm.lookup p := by
  have hsmall : n * 4096 + 4096 < 2 ^ 64 := by omega
  rw [← Nat.zero_add n] at hv hp
  have hfresh : ∀ j < n, pageOf virt + (0 + j) ∉ pm := fun j hj => by
    rw [Nat.zero_add]
    exact habsent j hj
  have hloop := h.mapRangeLoop hvirt hphys hflags h64 hv hp hfresh
  simp only [Nat.zero_add, Nat.add_zero] at hloop
  rw [mapRange_eq _ _ _ _ _ hsmall]
  exact hloop

end Vmm

end Avery
