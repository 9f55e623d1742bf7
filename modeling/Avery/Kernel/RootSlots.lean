import Avery.Kernel.PageRanges
import Mathlib.Algebra.Order.BigOperators.Group.Finset

/-!
# Some entries of the root

A part of the kernel maps and unmaps pages below some entries of the root only, its
*slots*.  `restrict` is the state with no other entry in the root.  On it the calls do what
they do on the whole (`Restricts`), so it is enough that its tables are well-formed.

The other entries may lead to anything, also to large pages, whose frames `getNextTable`
takes for tables.  `Outside` are the tables that pages below them are looked up in.  Their
pages are translated as before as long as no request for a table returns one of these
frames (`Grown.translation_outside`).
-/

namespace Avery

namespace Vmm

variable {A : Type}

section

variable (slots : Fin 512 → Prop) [DecidablePred slots]

/-- The state with no entry of the root outside the slots. -/
def Machine.restrict (m : Machine A) (pml4 : Nat) : Machine A :=
  { m with
    tables := Function.update m.tables pml4 fun i => if slots i then m.tables pml4 i else 0 }

omit [DecidablePred slots] in
/-- A table that a page outside the slots is looked up in. -/
def Outside (m : Machine A) (pml4 t : Nat) : Prop :=
  ∃ i, ¬ slots i ∧ ∃ p, p.length ≤ 2 ∧ tableAt m pml4 (i :: p) = some t

end

section

variable {slots : Fin 512 → Prop} [DecidablePred slots] {m : Machine A} {pml4 : Nat}

theorem restrict_entry {t : Nat} {i : Fin 512} (h : t = pml4 → slots i) :
    (m.restrict slots pml4).tables t i = m.tables t i := by
  by_cases ht : t = pml4
  · subst ht
    simp only [Machine.restrict, Function.update_self, if_pos (h rfl)]
  · simp only [Machine.restrict, Function.update_of_ne ht]

theorem restrict_of_ne {t : Nat} (h : t ≠ pml4) :
    (m.restrict slots pml4).tables t = m.tables t :=
  Function.update_of_ne h _ _

theorem child_restrict {t : Nat} {i : Fin 512} (h : t = pml4 → slots i) :
    child (m.restrict slots pml4) t i = child m t i := by
  unfold child
  rw [restrict_entry h]
  rfl

theorem child_of_restrict {t : Nat} {i : Fin 512} {u : Nat}
    (h : child (m.restrict slots pml4) t i = some u) : child m t i = some u := by
  by_cases hslot : t = pml4 → slots i
  · rwa [child_restrict hslot] at h
  · obtain ⟨rfl, hi⟩ := Classical.not_imp.mp hslot
    have hentry : (m.restrict slots t).tables t i = 0 := by
      simp only [Machine.restrict, Function.update_self, if_neg hi]
    rw [child, hentry, isPresent_zero] at h
    cases h

theorem setEntry_restrict {t : Nat} {i : Fin 512} (h : t = pml4 → slots i) (e : Nat) :
    (m.restrict slots pml4).setEntry t i e = (m.setEntry t i e).restrict slots pml4 := by
  by_cases ht : t = pml4
  · subst ht
    simp only [Machine.restrict, Machine.setEntry, Function.update_self, Function.update_idem,
      Machine.mk.injEq, and_true, true_and]
    congr 1
    funext j
    by_cases hj : j = i
    · rw [hj, Function.update_self, Function.update_self, if_pos (h rfl)]
    · rw [Function.update_of_ne hj, Function.update_of_ne hj]
  · simp only [Machine.restrict, Machine.setEntry, Function.update_of_ne ht,
      Function.update_of_ne (Ne.symm ht), Function.update_comm (Ne.symm ht)]

theorem setEntry_root {t : Nat} {i : Fin 512} (hne : t ≠ pml4) (e : Nat) (j : Fin 512) :
    (m.setEntry t i e).tables pml4 j = m.tables pml4 j := by
  simp only [Machine.setEntry]
  rw [Function.update_of_ne hne.symm]

/-- Only the empty path leads anywhere when the root has no table below the slots. -/
theorem tableAt_of_absent (habsent : ∀ i, slots i → isPresent (m.tables pml4 i) = false)
    {p : List (Fin 512)} {t : Nat} (ht : tableAt (m.restrict slots pml4) pml4 p = some t) :
    p = [] ∧ t = pml4 := by
  cases p with
  | nil => exact ⟨rfl, (Option.some.inj ht).symm⟩
  | cons i p =>
    have hentry : isPresent ((m.restrict slots pml4).tables pml4 i) = false := by
      simp only [Machine.restrict, Function.update_self]
      by_cases hi : slots i
      · rw [if_pos hi]
        exact habsent i hi
      · rw [if_neg hi]
        rfl
    rw [tableAt, Trie.walk, child, hentry, if_neg Bool.false_ne_true] at ht
    cases ht

end

/-! ## Paths through the slots -/

section

variable {slots : Fin 512 → Prop} [DecidablePred slots] {m : Machine A} {pml4 : Nat}
variable (htree : Trie.Tree (child (m.restrict slots pml4)) pml4 3)

include htree

/-- Only the empty path leads to the root. -/
theorem ne_root_of_path {i : Fin 512} {p : List (Fin 512)} {t : Nat} (hp : p.length ≤ 2)
    (ht : tableAt (m.restrict slots pml4) pml4 (i :: p) = some t) : t ≠ pml4 := by
  intro heq
  have hnil := htree (i :: p) [] t (Nat.succ_le_succ hp) (Nat.zero_le 3) ht (heq ▸ rfl)
  cases hnil

theorem tableAt_restrict {i : Fin 512} (hi : slots i) {p : List (Fin 512)} (hp : p.length ≤ 2) :
    tableAt (m.restrict slots pml4) pml4 (i :: p) = tableAt m pml4 (i :: p) := by
  induction p using List.reverseRecOn with
  | nil =>
    simp only [tableAt, Trie.walk]
    rw [child_restrict fun _ => hi]
  | append_singleton p j ih =>
    rw [List.length_append, List.length_singleton] at hp
    have ih := ih (Nat.le_of_succ_le hp)
    rw [tableAt, tableAt, ← List.cons_append, Trie.walk_concat, Trie.walk_concat]
    rw [tableAt, tableAt] at ih
    rw [← ih]
    cases hw : Trie.walk (child (m.restrict slots pml4)) pml4 (i :: p) with
    | none => rfl
    | some t =>
      have hne := ne_root_of_path htree (Nat.le_of_succ_le hp) hw
      exact child_restrict fun heq => absurd heq hne

theorem leafEntry_restrict {v : Nat} (hv : slots (pml4Index v)) :
    leafEntry (m.restrict slots pml4) pml4 v = leafEntry m pml4 v := by
  have hpath := tableAt_restrict htree hv (p := [pdptIndex v, pdIndex v]) (Nat.le_refl 2)
  unfold leafEntry path
  rw [← hpath]
  cases ht : tableAt (m.restrict slots pml4) pml4 [pml4Index v, pdptIndex v, pdIndex v] with
  | none => rfl
  | some t =>
    simp only [Option.bind_some]
    rw [restrict_of_ne (ne_root_of_path htree (p := [pdptIndex v, pdIndex v]) (Nat.le_refl 2) ht)]

theorem translation_restrict {v : Nat} (hv : slots (pml4Index v)) :
    translation (m.restrict slots pml4) pml4 v = translation m pml4 v := by
  rw [translation, translation, leafEntry_restrict htree hv]

end

/-! ## Missing tables of a range -/

/-- The tables that `n` pages from an address on need and that are not there. -/
def newTables (m : Machine A) (pml4 virt n : Nat) : Finset (List (Fin 512)) :=
  (Finset.range n).biUnion fun j => missingTables m pml4 (virt + j * pageSize)

theorem newTables_add (m : Machine A) (pml4 virt a b : Nat) :
    newTables m pml4 virt (a + b) =
      newTables m pml4 virt a ∪ newTables m pml4 (virt + a * pageSize) b := by
  ext p
  simp only [newTables, Finset.mem_union, Finset.mem_biUnion, Finset.mem_range]
  constructor
  · rintro ⟨j, hj, hp⟩
    by_cases hlt : j < a
    · exact Or.inl ⟨j, hlt, hp⟩
    · refine Or.inr ⟨j - a, by omega, ?_⟩
      rwa [Nat.add_assoc, ← Nat.add_mul, Nat.add_sub_cancel' (Nat.not_lt.mp hlt)]
  · rintro (⟨j, hj, hp⟩ | ⟨j, hj, hp⟩)
    · exact ⟨j, by omega, hp⟩
    · refine ⟨a + j, by omega, ?_⟩
      rwa [Nat.add_mul, ← Nat.add_assoc]

theorem newTables_one (m : Machine A) (pml4 virt : Nat) :
    newTables m pml4 virt 1 = missingTables m pml4 virt := by
  simp [newTables]

theorem card_newTables_le (m : Machine A) (pml4 virt n : Nat) :
    (newTables m pml4 virt n).card ≤ n * 3 := by
  have hcard : (Finset.range n).card = n := Finset.card_range n
  calc (newTables m pml4 virt n).card
      ≤ (Finset.range n).card * 3 :=
        Finset.card_biUnion_le_card_mul _ _ 3 fun j _ => card_missingTables_le ..
    _ = n * 3 := by rw [hcard]

section

variable {slots : Fin 512 → Prop} [DecidablePred slots] {m : Machine A} {pml4 : Nat}

theorem missingTables_restrict (htree : Trie.Tree (child (m.restrict slots pml4)) pml4 3)
    {virt : Nat} (hv : slots (pml4Index virt)) :
    missingTables (m.restrict slots pml4) pml4 virt = missingTables m pml4 virt := by
  unfold missingTables
  refine Finset.filter_congr fun p hp => ?_
  simp only [tablePaths, path, Finset.mem_insert, Finset.mem_singleton] at hp
  rcases hp with rfl | rfl | rfl <;> rw [tableAt_restrict htree hv (by simp)]

theorem newTables_restrict (htree : Trie.Tree (child (m.restrict slots pml4)) pml4 3) {virt n : Nat}
    (hv : ∀ j < n, slots (pml4Index (virt + j * pageSize))) :
    newTables (m.restrict slots pml4) pml4 virt n = newTables m pml4 virt n :=
  Finset.biUnion_congr rfl fun j hj => missingTables_restrict htree (hv j (Finset.mem_range.mp hj))

end

/-! ## The calls -/

section

variable (slots : Fin 512 → Prop) [DecidablePred slots]

/-- The call has done on the whole what it has done on the slots, and no other entry of the
root has changed. -/
def Restricts {α : Type} (m : Machine A) (pml4 : Nat) (r r' : Option (α × Machine A)) : Prop :=
  r = none ∧ r' = none ∨
    ∃ a m', r = some (a, m') ∧ r' = some (a, m'.restrict slots pml4) ∧
      ∀ i, ¬ slots i → m'.tables pml4 i = m.tables pml4 i

end

variable [PageAllocator A]

section

variable {slots : Fin 512 → Prop} [DecidablePred slots] {m : Machine A} {pml4 : Nat}

/-- Creating a table in a slot. -/
theorem linkTable_restrict {t : Nat} {i : Fin 512} (hslot : t = pml4 → slots i)
    (hfresh : m.physicalToVirtual (PageAllocator.allocPage m.pages).1 ≠ pml4) :
    linkTable (m.restrict slots pml4) t i = (linkTable m t i).restrict slots pml4 ∧
      ∀ j, ¬ slots j → (linkTable m t i).tables pml4 j = m.tables pml4 j := by
  have hcomm : Function.update (m.restrict slots pml4).tables
      (m.physicalToVirtual (PageAllocator.allocPage m.pages).1) (fun _ => 0) =
      Function.update (Function.update m.tables
        (m.physicalToVirtual (PageAllocator.allocPage m.pages).1) fun _ => 0) pml4
        fun i => if slots i then m.tables pml4 i else 0 := by
    rw [Machine.restrict, Function.update_comm hfresh.symm]
  refine ⟨?_, fun j hj => ?_⟩
  · unfold linkTable
    rw [← setEntry_restrict hslot]
    simp only [Machine.restrict, Machine.physicalToVirtual, Machine.virtualToPhysicalHHDM]
      at hcomm hfresh ⊢
    rw [hcomm]
    simp only [Function.update_of_ne hfresh.symm]
  · unfold linkTable
    simp only [Machine.setEntry]
    by_cases ht : t = pml4
    · subst ht
      have hne : j ≠ i := fun heq => hj (heq ▸ hslot rfl)
      rw [Function.update_self, Function.update_of_ne hne, Function.update_of_ne hfresh.symm]
    · rw [Function.update_of_ne (Ne.symm ht), Function.update_of_ne hfresh.symm]

variable [LawfulPageAllocator A]

theorem WellFormed.restrict (h : WellFormed m pml4) : WellFormed (m.restrict slots pml4) pml4 where
  valid := h.valid
  tree := h.tree.of_sub fun _ _ _ => child_of_restrict
  owned p t hp ht := h.owned p t hp (Trie.walk_of_sub (fun _ _ _ => child_of_restrict) ht)

/-- The frame that a request returns is not the root. -/
theorem WellFormed.fresh_ne_root (h : WellFormed (m.restrict slots pml4) pml4)
    (hne : (PageAllocator.allocPage m.pages).1 ≠ 0) :
    m.physicalToVirtual (PageAllocator.allocPage m.pages).1 ≠ pml4 := fun heq =>
  h.fresh hne [] (Nat.zero_le 3) (heq ▸ rfl)

/-- One level of a walk that creates the tables that are missing. -/
theorem getNextTable_restricts {p : List (Fin 512)} {t : Nat} {i : Fin 512}
    (h : WellFormed (m.restrict slots pml4) pml4)
    (hp : tableAt (m.restrict slots pml4) pml4 p = some t) (hlen : p.length < 3)
    (hslot : t = pml4 → slots i) :
    getNextTable m t i true = none ∧ getNextTable (m.restrict slots pml4) t i true = none ∨
      ∃ u m', getNextTable m t i true = some (some u, m') ∧
        getNextTable (m.restrict slots pml4) t i true = some (some u, m'.restrict slots pml4) ∧
        WellFormed (m'.restrict slots pml4) pml4 ∧
        tableAt (m'.restrict slots pml4) pml4 (p ++ [i]) = some u ∧
        ∀ j, ¬ slots j → m'.tables pml4 j = m.tables pml4 j := by
  cases hchild : child m t i with
  | some u =>
    have hrestrict : child (m.restrict slots pml4) t i = some u := by
      rw [child_restrict hslot, hchild]
    refine Or.inr ⟨u, m, getNextTable_present true hchild, getNextTable_present true hrestrict, h,
      ?_, fun _ _ => rfl⟩
    rw [tableAt, Trie.walk_concat_of hp, hrestrict]
  | none =>
    have hmiss : isPresent (m.tables t i) = false := by
      cases hpresent : isPresent (m.tables t i) with
      | false => rfl
      | true => simp [child, hpresent] at hchild
    have hmiss' : isPresent ((m.restrict slots pml4).tables t i) = false := by
      rw [restrict_entry hslot, hmiss]
    have hsame : (m.restrict slots pml4).pages = m.pages := rfl
    rw [getNextTable_missing hmiss, getNextTable_missing hmiss', hsame]
    by_cases hz : (PageAllocator.allocPage m.pages).1 = 0
    · exact Or.inl ⟨if_pos hz, if_pos hz⟩
    · obtain ⟨hlink, hroot⟩ := linkTable_restrict hslot (h.fresh_ne_root hz)
      obtain ⟨hwf, htables, -⟩ := h.link hp hlen hmiss' hz
      rw [hlink] at hwf htables
      rw [if_neg hz, if_neg hz, hlink]
      refine Or.inr ⟨_, _, rfl, rfl, hwf, ?_, hroot⟩
      rw [htables (p ++ [i]) (by simp; omega), if_pos rfl]
      rfl

/-- A walk that creates the tables that are missing. -/
theorem getPte_restricts {virt : Nat} (h : WellFormed (m.restrict slots pml4) pml4)
    (hv : slots (pml4Index virt)) :
    getPte m pml4 virt true = none ∧ getPte (m.restrict slots pml4) pml4 virt true = none ∨
      ∃ t m', getPte m pml4 virt true = some (some (t, ptIndex virt), m') ∧
        getPte (m.restrict slots pml4) pml4 virt true =
          some (some (t, ptIndex virt), m'.restrict slots pml4) ∧
        WellFormed (m'.restrict slots pml4) pml4 ∧
        tableAt (m'.restrict slots pml4) pml4 (path virt) = some t ∧
        ∀ j, ¬ slots j → m'.tables pml4 j = m.tables pml4 j := by
  rcases getNextTable_restricts h (p := []) rfl (by simp) (fun _ => hv) with
    ⟨h₁, h₁'⟩ | ⟨pdpt, m₁, h₁, h₁', hwf₁, at₁, root₁⟩
  · exact Or.inl ⟨by simp [getPte, h₁], by simp [getPte, h₁']⟩
  have hne₁ : pdpt ≠ pml4 := ne_root_of_path hwf₁.tree (p := []) (by simp) at₁
  rcases getNextTable_restricts hwf₁ at₁ (i := pdptIndex virt) (by simp)
      (fun heq => absurd heq hne₁) with
    ⟨h₂, h₂'⟩ | ⟨pd, m₂, h₂, h₂', hwf₂, at₂, root₂⟩
  · exact Or.inl ⟨by simp [getPte, h₁, h₂], by simp [getPte, h₁', h₂']⟩
  have hne₂ : pd ≠ pml4 := ne_root_of_path hwf₂.tree (p := [pdptIndex virt]) (by simp) at₂
  rcases getNextTable_restricts hwf₂ at₂ (i := pdIndex virt) (by simp)
      (fun heq => absurd heq hne₂) with
    ⟨h₃, h₃'⟩ | ⟨pt, m₃, h₃, h₃', hwf₃, at₃, root₃⟩
  · exact Or.inl ⟨by simp [getPte, h₁, h₂, h₃], by simp [getPte, h₁', h₂', h₃']⟩
  exact Or.inr ⟨pt, m₃, by simp [getPte, h₁, h₂, h₃], by simp [getPte, h₁', h₂', h₃'], hwf₃, at₃,
    fun j hj => (root₃ j hj).trans ((root₂ j hj).trans (root₁ j hj))⟩

theorem mapPage_restricts {virt : Nat} (h : WellFormed (m.restrict slots pml4) pml4)
    (hv : slots (pml4Index virt)) (phys flags : Nat) :
    Restricts slots m pml4 (mapPage m pml4 virt phys flags)
      (mapPage (m.restrict slots pml4) pml4 virt phys flags) := by
  by_cases ha : virt % pageSize ≠ 0 ∨ phys % pageSize ≠ 0
  · exact Or.inr ⟨false, m, by rw [mapPage, if_pos ha]; rfl, by rw [mapPage, if_pos ha]; rfl,
      fun _ _ => rfl⟩
  rcases getPte_restricts h hv with ⟨hn, hn'⟩ | ⟨t, m₁, hg, hg', hwf₁, ht, hroot⟩
  · exact Or.inl ⟨by simp [mapPage, ha, hn], by simp [mapPage, ha, hn']⟩
  have hne : t ≠ pml4 := ne_root_of_path hwf₁.tree (p := [pdptIndex virt, pdIndex virt])
    (Nat.le_refl 2) ht
  have hentry : (m₁.restrict slots pml4).tables t (ptIndex virt) = m₁.tables t (ptIndex virt) :=
    restrict_entry fun heq => absurd heq hne
  refine Or.inr ?_
  cases hpresent : isPresent (m₁.tables t (ptIndex virt)) with
  | true =>
    exact ⟨false, m₁, by simp [mapPage, ha, hg, hpresent],
      by simp [mapPage, ha, hg', hentry, hpresent], hroot⟩
  | false =>
    refine ⟨true, _, by simp [mapPage, ha, hg, hpresent]; rfl, ?_, fun j hj => ?_⟩
    · rw [← setEntry_restrict fun heq => absurd heq hne]
      simp [mapPage, ha, hg', hentry, hpresent]
    · rw [setEntry_root hne]
      exact hroot j hj

theorem unmapPage_restricts {virt : Nat} (h : WellFormed (m.restrict slots pml4) pml4)
    (hv : slots (pml4Index virt)) :
    ∃ ok m', unmapPage m pml4 virt = some (ok, m') ∧
      unmapPage (m.restrict slots pml4) pml4 virt = some (ok, m'.restrict slots pml4) ∧
      ∀ i, ¬ slots i → m'.tables pml4 i = m.tables pml4 i := by
  by_cases ha : virt % pageSize ≠ 0
  · exact ⟨false, m, by rw [unmapPage, if_pos ha]; rfl, by rw [unmapPage, if_pos ha]; rfl,
      fun _ _ => rfl⟩
  have hpath : tableAt (m.restrict slots pml4) pml4 (path virt) = tableAt m pml4 (path virt) :=
    tableAt_restrict h.tree hv (Nat.le_refl 2)
  cases ht : tableAt m pml4 (path virt) with
  | none =>
    exact ⟨false, m, by simp [unmapPage, ha, getPte_lookup, ht],
      by simp [unmapPage, ha, getPte_lookup, hpath, ht], fun _ _ => rfl⟩
  | some t =>
    have hne : t ≠ pml4 := ne_root_of_path h.tree (p := [pdptIndex virt, pdIndex virt])
      (Nat.le_refl 2) (hpath.trans ht)
    have hentry : (m.restrict slots pml4).tables t (ptIndex virt) = m.tables t (ptIndex virt) :=
      restrict_entry fun heq => absurd heq hne
    cases hpresent : isPresent (m.tables t (ptIndex virt)) with
    | false =>
      exact ⟨false, m, by simp [unmapPage, ha, getPte_lookup, ht, hpresent],
        by simp [unmapPage, ha, getPte_lookup, hpath, ht, hentry, hpresent], fun _ _ => rfl⟩
    | true =>
      refine ⟨true, m.setEntry t (ptIndex virt) 0,
        by simp [unmapPage, ha, getPte_lookup, ht, hpresent], ?_, fun j _ => setEntry_root hne 0 j⟩
      rw [← setEntry_restrict fun heq => absurd heq hne]
      simp [unmapPage, ha, getPte_lookup, hpath, ht, hentry, hpresent]

end

/-! ## New tables -/

variable [LawfulPageAllocator A]

section

variable {m m' : Machine A} {pml4 : Nat} {ps qs : Finset (List (Fin 512))}

/-- What is missing afterwards. -/
theorem Grown.missingTables_eq (h : Grown m m' pml4 ps) (virt : Nat) :
    missingTables m' pml4 virt = missingTables m pml4 virt \ ps := by
  ext p
  simp only [missingTables, Finset.mem_sdiff, Finset.mem_filter, and_assoc]
  refine and_congr_right fun hp => ?_
  exact h.missing p (length_of_mem_tablePaths hp)

theorem Grown.newTables_eq (h : Grown m m' pml4 ps) (virt n : Nat) :
    newTables m' pml4 virt n = newTables m pml4 virt n \ ps := by
  ext p
  simp only [newTables, Finset.mem_sdiff, Finset.mem_biUnion, h.missingTables_eq]
  exact ⟨fun ⟨j, hj, hp, hps⟩ => ⟨⟨j, hj, hp⟩, hps⟩, fun ⟨⟨j, hj, hp⟩, hps⟩ => ⟨j, hj, hp, hps⟩⟩

/-- Tables for one range and then for the range behind it. -/
theorem Grown.newTables {m₁ m₂ : Machine A} {virt a b : Nat}
    (h₁ : Grown m m₁ pml4 (newTables m pml4 virt a))
    (h₂ : Grown m₁ m₂ pml4 (Vmm.newTables m₁ pml4 (virt + a * pageSize) b)) :
    Grown m m₂ pml4 (Vmm.newTables m pml4 virt (a + b)) := by
  rw [h₁.newTables_eq] at h₂
  rw [newTables_add, ← Finset.union_sdiff_self_eq_union]
  exact h₁.trans h₂ Finset.disjoint_sdiff

/-- An entry of a last-level table is written. -/
theorem Grown.setEntry {virt t : Nat} (h : Grown m m' pml4 ps)
    (ht : tableAt m' pml4 (path virt) = some t) (e : Nat) :
    Grown m (m'.setEntry t (ptIndex virt) e) pml4 ps := by
  obtain ⟨hwf, htables, -⟩ := h.wellFormed.setEntry ht e
  refine ⟨hwf, fun q u hq hu => ?_, fun q hq => ?_, fun q u hq hu => ?_, fun u hoff => ?_, h.offset,
    h.pages⟩
  · rw [htables q hq]
    exact h.kept q u hq hu
  · rw [htables q hq]
    exact h.missing q hq
  · rw [htables q hq] at hu
    exact h.added q u hq hu
  · have hpath : (path virt).length ≤ 3 := Nat.le_refl 3
    have hne : u ≠ t := fun heq => hoff (path virt) hpath (by rw [htables _ hpath, ht, heq])
    have hoff' : ∀ q, q.length ≤ 3 → tableAt m' pml4 q ≠ some u := fun q hq hu =>
      hoff q hq (by rw [htables q hq, hu])
    simp only [Machine.setEntry, Function.update_of_ne hne]
    exact h.frame u hoff'

theorem mapPage_grown {virt phys flags : Nat} {ok : Bool} (h : WellFormed m pml4)
    (hv : virt % pageSize = 0) (hp : phys % pageSize = 0)
    (heq : mapPage m pml4 virt phys flags = some (ok, m')) :
    Grown m m' pml4 (missingTables m pml4 virt) := by
  rcases mapPage_cases flags h hv hp with
    ⟨hn, -⟩ | ⟨t, m₁, hc, ht, ⟨-, heq'⟩ | ⟨-, heq'⟩⟩
  · rw [hn] at heq
    cases heq
  · rw [heq'] at heq
    cases heq
    exact hc.toGrown
  · rw [heq'] at heq
    cases heq
    exact hc.toGrown.setEntry ht _

theorem unmapPage_grown {virt : Nat} {ok : Bool} (h : WellFormed m pml4)
    (heq : unmapPage m pml4 virt = some (ok, m')) : Grown m m' pml4 ∅ := by
  by_cases ha : virt % pageSize ≠ 0
  · rw [unmapPage, if_pos ha] at heq
    cases heq
    exact .refl h
  cases ht : tableAt m pml4 (path virt) with
  | none =>
    simp [unmapPage, ha, getPte_lookup, ht] at heq
    exact heq.2 ▸ .refl h
  | some t =>
    cases hpresent : isPresent (m.tables t (ptIndex virt)) with
    | false =>
      simp [unmapPage, ha, getPte_lookup, ht, hpresent] at heq
      exact heq.2 ▸ .refl h
    | true =>
      simp [unmapPage, ha, getPte_lookup, ht, hpresent] at heq
      exact heq.2 ▸ (Grown.refl h).setEntry ht 0

/-- The loop of `mapRange` creates the tables that its pages need. -/
theorem mapRangeLoop_grown {virt phys flags : Nat} (hv : virt % 4096 = 0) (hp : phys % 4096 = 0)
    {n : Nat} : ∀ {i : Nat} {m : Machine A}, WellFormed m pml4 → virt + (i + n) * 4096 ≤ 2 ^ 64 →
      phys + (i + n) * 4096 ≤ 2 ^ 52 →
      mapRangeLoop m pml4 virt phys flags i n = some (true, m') →
      Grown m m' pml4 (newTables m pml4 (virt + i * pageSize) n) := by
  induction n with
  | zero =>
    intro i m h _ _ heq
    cases heq
    rw [newTables, Finset.range_zero, Finset.biUnion_empty]
    exact .refl h
  | succ n ih =>
    intro i m h hvirt hphys heq
    have hmul : mul64 i pageSize = i * 4096 := Words.mul_eq (by rw [pageSize]; omega)
    have hva : add64 virt (mul64 i pageSize) = virt + i * 4096 := by
      rw [hmul]
      exact Words.add_eq (by omega)
    have hpa : add64 phys (mul64 i pageSize) = phys + i * 4096 := by
      rw [hmul]
      exact Words.add_eq (by omega)
    rw [mapRangeLoop, hva, hpa] at heq
    obtain ⟨⟨ok, m₁⟩, hpage, heq⟩ := Option.bind_eq_some_iff.mp heq
    have hvirt₀ : (virt + i * 4096) % pageSize = 0 := by
      rw [pageSize, Nat.add_mul_mod_self_right, hv]
    have hphys₀ : (phys + i * 4096) % pageSize = 0 := by
      rw [pageSize, Nat.add_mul_mod_self_right, hp]
    have h₁ : Grown m m₁ pml4 (newTables m pml4 (virt + i * pageSize) 1) := by
      rw [newTables_one]
      exact mapPage_grown h hvirt₀ hphys₀ hpage
    cases ok with
    | false => cases heq
    | true =>
      have hnext : i + (n + 1) = i + 1 + n := by omega
      have h₂ := ih h₁.wellFormed (hnext ▸ hvirt) (hnext ▸ hphys) heq
      rw [Nat.add_mul, ← Nat.add_assoc] at h₂
      rw [Nat.add_comm n 1]
      exact h₁.newTables h₂

end

section

variable {slots : Fin 512 → Prop} [DecidablePred slots] {pml4 : Nat}

theorem mapRangeLoop_restricts {virt phys n : Nat} (flags : Nat) (hv : virt % 4096 = 0)
    (hp : phys % 4096 = 0) :
    ∀ {i : Nat} {m : Machine A}, WellFormed (m.restrict slots pml4) pml4 →
      virt + (i + n) * 4096 ≤ 2 ^ 64 → phys + (i + n) * 4096 ≤ 2 ^ 52 →
      (∀ j, i ≤ j → j < i + n → slots (pml4Index (virt + j * pageSize))) →
      Restricts slots m pml4 (mapRangeLoop m pml4 virt phys flags i n)
        (mapRangeLoop (m.restrict slots pml4) pml4 virt phys flags i n) := by
  induction n with
  | zero => exact fun {i m} _ _ _ _ => Or.inr ⟨true, m, rfl, rfl, fun _ _ => rfl⟩
  | succ n ih =>
    intro i m h hvirt hphys hslots
    have hmul : mul64 i pageSize = i * 4096 := Words.mul_eq (by rw [pageSize]; omega)
    have hva : add64 virt (mul64 i pageSize) = virt + i * 4096 := by
      rw [hmul]
      exact Words.add_eq (by omega)
    have hpa : add64 phys (mul64 i pageSize) = phys + i * 4096 := by
      rw [hmul]
      exact Words.add_eq (by omega)
    have hvirt₀ : (virt + i * 4096) % pageSize = 0 := by
      rw [pageSize, Nat.add_mul_mod_self_right, hv]
    have hphys₀ : (phys + i * 4096) % pageSize = 0 := by
      rw [pageSize, Nat.add_mul_mod_self_right, hp]
    have hslot : slots (pml4Index (virt + i * 4096)) :=
      hslots i (Nat.le_refl i) (Nat.lt_add_of_pos_right (Nat.succ_pos n))
    rw [mapRangeLoop, mapRangeLoop, hva, hpa]
    rcases mapPage_restricts h hslot (phys + i * 4096) flags with
      ⟨hn, hn'⟩ | ⟨ok, m₁, h₁, h₁', root₁⟩
    · exact Or.inl ⟨by rw [hn]; rfl, by rw [hn']; rfl⟩
    rw [h₁, h₁']
    cases ok with
    | false => exact Or.inr ⟨false, m₁, rfl, rfl, root₁⟩
    | true =>
      have hwf₁ := (mapPage_grown h hvirt₀ hphys₀ h₁').wellFormed
      have hnext : i + (n + 1) = i + 1 + n := by omega
      rcases ih hwf₁ (hnext ▸ hvirt) (hnext ▸ hphys)
          (fun j hj hlt => hslots j (Nat.le_of_succ_le hj) (hnext ▸ hlt)) with
        ⟨hn, hn'⟩ | ⟨ok, m₂, h₂, h₂', root₂⟩
      · exact Or.inl ⟨hn, hn'⟩
      · exact Or.inr ⟨ok, m₂, h₂, h₂', fun j hj => (root₂ j hj).trans (root₁ j hj)⟩

/-! ## Pages outside the slots -/

variable {m m' : Machine A}

variable (slots) in
/-- The tables below the slots are well-formed, and no other page is looked up in them. -/
structure Separate (m : Machine A) (pml4 : Nat) : Prop where
  inside : WellFormed (m.restrict slots pml4) pml4
  apart : ∀ p t, p.length ≤ 3 → tableAt (m.restrict slots pml4) pml4 p = some t →
    ¬ Outside slots m pml4 t

theorem wellFormed_of_absent {q : Nat} (hvalid : LawfulPageAllocator.Valid m.pages)
    (habsent : ∀ i, slots i → isPresent (m.tables pml4 i) = false)
    (hq : LawfulPageAllocator.Owned m.pages q) (hsmall : q < 2 ^ 52)
    (heq : pml4 = m.physicalToVirtual q) : WellFormed (m.restrict slots pml4) pml4 := by
  refine ⟨hvalid, fun p r t _ _ hp hr => ?_, fun p t _ ht => ?_⟩
  · rw [(tableAt_of_absent habsent hp).1, (tableAt_of_absent habsent hr).1]
  · exact ⟨q, hq, hsmall, (tableAt_of_absent habsent ht).2.trans heq⟩

/-- A root without tables below the slots, and not a table of another page. -/
theorem separate_of_absent {q : Nat} (hvalid : LawfulPageAllocator.Valid m.pages)
    (habsent : ∀ i, slots i → isPresent (m.tables pml4 i) = false)
    (hq : LawfulPageAllocator.Owned m.pages q) (hsmall : q < 2 ^ 52)
    (heq : pml4 = m.physicalToVirtual q) (hroot : ¬ Outside slots m pml4 pml4) :
    Separate slots m pml4 := by
  refine ⟨wellFormed_of_absent hvalid habsent hq hsmall heq, fun p t _ ht => ?_⟩
  rw [(tableAt_of_absent habsent ht).2]
  exact hroot

/-- Pages outside the slots are translated as before, unless a frame that was requested for a
new table is one that they are looked up in. -/
theorem Separate.translation_outside {ps : Finset (List (Fin 512))} (hs : Separate slots m pml4)
    (hgrown : Grown (m.restrict slots pml4) (m'.restrict slots pml4) pml4 ps)
    (hroot : ∀ i, ¬ slots i → m'.tables pml4 i = m.tables pml4 i)
    (hclear : ∀ k < ps.card, ¬ Outside slots m pml4 (m.physicalToVirtual (requested m.pages k)))
    {v : Nat} (hv : ¬ slots (pml4Index v)) : translation m' pml4 v = translation m pml4 v := by
  have hoffset : m'.hhdmOffset = m.hhdmOffset := hgrown.offset
  have hsame : ∀ t, Outside slots m pml4 t → m'.tables t = m.tables t := by
    intro t ht
    have hoff : ∀ q, q.length ≤ 3 → tableAt (m'.restrict slots pml4) pml4 q ≠ some t := by
      intro q hq hat
      rcases hgrown.added q t hq hat with hold | ⟨k, hk, rfl⟩
      · exact hs.apart q t hq hold ht
      · exact hclear k hk ht
    have hne : t ≠ pml4 := fun heq => hoff [] (Nat.zero_le 3) (heq ▸ rfl)
    have hframe := hgrown.frame t hoff
    rwa [restrict_of_ne hne, restrict_of_ne hne] at hframe
  have hchild : ∀ t i, m'.tables t i = m.tables t i → child m' t i = child m t i := by
    intro t i heq
    simp only [child, heq, Machine.physicalToVirtual, hoffset]
  have hpath : ∀ p : List (Fin 512), p.length ≤ 2 →
      tableAt m' pml4 (pml4Index v :: p) = tableAt m pml4 (pml4Index v :: p) := by
    intro p
    induction p using List.reverseRecOn with
    | nil =>
      intro _
      simp only [tableAt, Trie.walk, hchild pml4 (pml4Index v) (hroot _ hv)]
    | append_singleton p j ih =>
      intro hlen
      rw [List.length_append, List.length_singleton] at hlen
      have ih := ih (Nat.le_of_succ_le hlen)
      rw [tableAt, tableAt] at ih
      rw [tableAt, tableAt, ← List.cons_append, Trie.walk_concat, Trie.walk_concat, ih]
      cases hw : Trie.walk (child m) pml4 (pml4Index v :: p) with
      | none => rfl
      | some t =>
        have ht : Outside slots m pml4 t :=
          ⟨pml4Index v, hv, p, Nat.le_of_succ_le hlen, hw⟩
        exact hchild t j (congrFun (hsame t ht) j)
  have hleaf : leafEntry m' pml4 v = leafEntry m pml4 v := by
    unfold leafEntry path
    rw [hpath [pdptIndex v, pdIndex v] (Nat.le_refl 2)]
    cases hw : tableAt m pml4 [pml4Index v, pdptIndex v, pdIndex v] with
    | none => rfl
    | some t =>
      have ht : Outside slots m pml4 t :=
        ⟨pml4Index v, hv, [pdptIndex v, pdIndex v], Nat.le_refl 2, hw⟩
      simp only [Option.bind_some, hsame t ht]
  rw [translation, translation, hleaf]

end

end Vmm

end Avery
