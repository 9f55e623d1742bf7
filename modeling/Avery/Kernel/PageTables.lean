import Avery.Library.Trie
import Avery.Kernel.VirtualMemory

/-!
# The tree of page tables

The tables under a root are nodes, and the present entries of the three upper
levels are edges between them.  `WellFormed` says that they form a tree and that
every table lies in a frame the allocator has given out.  A frame that is
allocated next is then no table yet, which is what keeps the tree a tree.

`leafEntry` is the entry a virtual address selects.  Two facts about it carry
the refinement of the next module.  Creating a table changes no leaf entry
(`getNextTable_create`), and a write through the pointer `getPte` returns
changes the leaf entry of one page (`leafEntry_setEntry`).
-/

namespace Avery

/-- What the page tables rely on: the allocator owns the frames it has given
out, and it gives out a page-aligned frame below `2 ^ 52` that it does not own
yet. -/
class LawfulPageAllocator (A : Type) [PageAllocator A] where
  Valid : A → Prop
  Owned : A → Nat → Prop
  valid_alloc : ∀ a : A, Valid a → Valid (PageAllocator.allocPage a).2
  owned_alloc : ∀ (a : A) (q : Nat), Valid a → Owned a q → Owned (PageAllocator.allocPage a).2 q
  owned_new : ∀ a : A, Valid a → (PageAllocator.allocPage a).1 ≠ 0 →
    Owned (PageAllocator.allocPage a).2 (PageAllocator.allocPage a).1
  fresh : ∀ a : A, Valid a → (PageAllocator.allocPage a).1 ≠ 0 →
    ¬ Owned a (PageAllocator.allocPage a).1
  aligned : ∀ a : A, Valid a → (PageAllocator.allocPage a).1 % 4096 = 0
  small : ∀ a : A, Valid a → (PageAllocator.allocPage a).1 < 2 ^ 52

namespace Vmm

open LawfulPageAllocator (Valid Owned)

variable {A : Type}

/-! ## Entries -/

theorem and_addrMask {x : Nat} (h : x < 2 ^ 52) (ha : x % 4096 = 0) : x &&& pteAddrMask = x := by
  have hmask : pteAddrMask = 2 ^ 52 - 2 ^ 12 := by decide
  rw [hmask, Words.and_compl_mask (by decide) h]
  omega

theorem isPresent_or_present (x : Nat) : isPresent (x ||| ptePresent) = true := by
  have hbit : ((x ||| ptePresent) &&& ptePresent).testBit 0 = true := by
    simp [ptePresent]
  rw [isPresent, bne_iff_ne]
  intro h
  rw [h] at hbit
  simp at hbit

/-- The entry `mapPage` writes holds the frame it is given. -/
theorem leaf_and_addrMask {phys flags : Nat} (h : phys < 2 ^ 52) (ha : phys % 4096 = 0)
    (hf : flags &&& pteAddrMask = 0) :
    ((phys &&& pteAddrMask) ||| flags ||| ptePresent) &&& pteAddrMask = phys := by
  have hp : ptePresent &&& pteAddrMask = 0 := by decide
  rw [Nat.and_or_distrib_right, Nat.and_or_distrib_right, hf, hp, and_addrMask h ha,
    and_addrMask h ha, Nat.or_zero, Nat.or_zero]

/-- The entry that links a table holds the frame of the table. -/
theorem link_and_addrMask {phys : Nat} (h : phys < 2 ^ 52) (ha : phys % 4096 = 0) :
    (phys ||| ptePresent ||| pteWritable) &&& pteAddrMask = phys := by
  have hp : ptePresent &&& pteAddrMask = 0 := by decide
  have hw : pteWritable &&& pteAddrMask = 0 := by decide
  rw [Nat.and_or_distrib_right, Nat.and_or_distrib_right, hp, hw, and_addrMask h ha, Nat.or_zero,
    Nat.or_zero]

theorem isPresent_link (phys : Nat) : isPresent (phys ||| ptePresent ||| pteWritable) = true := by
  rw [Nat.or_assoc, Nat.or_comm ptePresent, ← Nat.or_assoc]
  exact isPresent_or_present _

theorem isPresent_zero : isPresent 0 = false := by decide

/-! ## Pages of virtual addresses -/

/-- The page of a virtual address: bits 12 to 47. -/
def pageOf (virt : Nat) : Nat := virt % 2 ^ 48 / 4096

/-- The indices that lead to the last table. -/
def path (virt : Nat) : List (Fin 512) := [pml4Index virt, pdptIndex virt, pdIndex virt]

@[simp] theorem length_path (virt : Nat) : (path virt).length = 3 := rfl

theorem tableIndex_val (virt shift : Nat) :
    (tableIndex virt shift).val = virt / 2 ^ shift % 512 := by
  show virt >>> shift &&& 0x1FF = _
  rw [show (0x1FF : Nat) = 2 ^ 9 - 1 by decide, Words.and_mask, Nat.shiftRight_eq_div_pow,
    show (2 : Nat) ^ 9 = 512 by decide]

/-- The four indices determine the page, and the page determines them. -/
theorem pageOf_eq_iff {v w : Nat} :
    pageOf v = pageOf w ↔ path v = path w ∧ ptIndex v = ptIndex w := by
  simp only [path, pml4Index, pdptIndex, pdIndex, ptIndex, List.cons.injEq, and_true, Fin.ext_iff,
    tableIndex_val, pageOf]
  constructor
  · intro h
    refine ⟨⟨?_, ?_, ?_⟩, ?_⟩ <;> omega
  · rintro ⟨⟨h₁, h₂, h₃⟩, h₄⟩
    omega

/-! ## The tree -/

/-- The edges: a present entry points at the table in the frame it holds. -/
def child (m : Machine A) (table : Nat) (index : Fin 512) : Option Nat :=
  if isPresent (m.tables table index) then
    some (m.physicalToVirtual (m.tables table index &&& pteAddrMask))
  else none

/-- The table reached from the root along a list of indices. -/
def tableAt (m : Machine A) (pml4 : Nat) (p : List (Fin 512)) : Option Nat :=
  Trie.walk (child m) pml4 p

/-- The present entry a virtual address selects. -/
def leafEntry (m : Machine A) (pml4 virt : Nat) : Option Nat :=
  (tableAt m pml4 (path virt)).bind fun table =>
    if isPresent (m.tables table (ptIndex virt)) then some (m.tables table (ptIndex virt)) else none

/-! ## Missing tables -/

/-- The path, if there is no table at it. -/
def missingAt (m : Machine A) (pml4 : Nat) (p : List (Fin 512)) : Finset (List (Fin 512)) :=
  if tableAt m pml4 p = none then {p} else ∅

/-- The paths of the three tables an address needs below the root. -/
def tablePaths (virt : Nat) : Finset (List (Fin 512)) :=
  {[pml4Index virt], [pml4Index virt, pdptIndex virt], path virt}

theorem length_of_mem_tablePaths {virt : Nat} {p : List (Fin 512)} (h : p ∈ tablePaths virt) :
    p.length ≤ 3 := by
  simp only [tablePaths, Finset.mem_insert, Finset.mem_singleton] at h
  rcases h with rfl | rfl | rfl <;> simp [path]

/-- The tables that `getPte` creates. -/
def missingTables (m : Machine A) (pml4 virt : Nat) : Finset (List (Fin 512)) :=
  (tablePaths virt).filter fun p => tableAt m pml4 p = none

theorem missingTables_eq (m : Machine A) (pml4 virt : Nat) :
    missingTables m pml4 virt = missingAt m pml4 [pml4Index virt] ∪
      (missingAt m pml4 [pml4Index virt, pdptIndex virt] ∪ missingAt m pml4 (path virt)) := by
  simp only [missingTables, tablePaths, missingAt, Finset.filter_insert, Finset.filter_singleton]
  split <;> split <;> split <;> rfl

theorem card_missingTables_le (m : Machine A) (pml4 virt : Nat) :
    (missingTables m pml4 virt).card ≤ 3 :=
  (Finset.card_filter_le _ _).trans Finset.card_le_three

theorem mem_missingAt {m : Machine A} {pml4 : Nat} {p q : List (Fin 512)} :
    q ∈ missingAt m pml4 p ↔ q = p ∧ tableAt m pml4 p = none := by
  unfold missingAt
  split
  next hn => simp [hn]
  next hs => simp [hs]

theorem disjoint_missingAt {m m' : Machine A} {pml4 : Nat} {p q : List (Fin 512)} (hne : p ≠ q) :
    Disjoint (missingAt m pml4 p) (missingAt m' pml4 q) :=
  Finset.disjoint_left.mpr fun _ h₁ h₂ =>
    hne ((mem_missingAt.mp h₁).1.symm.trans (mem_missingAt.mp h₂).1)

theorem card_missingTables (m : Machine A) (pml4 virt : Nat) :
    (missingTables m pml4 virt).card = (missingAt m pml4 [pml4Index virt]).card +
      ((missingAt m pml4 [pml4Index virt, pdptIndex virt]).card +
        (missingAt m pml4 (path virt)).card) := by
  have h₂₃ : Disjoint (missingAt m pml4 [pml4Index virt, pdptIndex virt])
      (missingAt m pml4 (path virt)) := disjoint_missingAt (by simp [path])
  have h₁ : Disjoint (missingAt m pml4 [pml4Index virt])
      (missingAt m pml4 [pml4Index virt, pdptIndex virt] ∪ missingAt m pml4 (path virt)) :=
    Finset.disjoint_union_right.mpr
      ⟨disjoint_missingAt (by simp), disjoint_missingAt (by simp [path])⟩
  rw [missingTables_eq, Finset.card_union_of_disjoint h₁, Finset.card_union_of_disjoint h₂₃]

theorem card_missingAt_of_none {m : Machine A} {pml4 : Nat} {p : List (Fin 512)}
    (h : tableAt m pml4 p = none) : (missingAt m pml4 p).card = 1 := by
  rw [missingAt, if_pos h, Finset.card_singleton]

/-! ## Pointers -/

/-- The direct map gives distinct frames distinct pointers. -/
theorem physicalToVirtual_inj {m : Machine A} {p q : Nat} (hp : p < 2 ^ 52) (hq : q < 2 ^ 52)
    (h : m.physicalToVirtual p = m.physicalToVirtual q) : p = q := by
  unfold Machine.physicalToVirtual add64 Words.add at h
  omega

theorem virtualToPhysical_physicalToVirtual {m : Machine A} {p : Nat} (hp : p < 2 ^ 64) :
    m.virtualToPhysicalHHDM (m.physicalToVirtual p) = p := by
  unfold Machine.virtualToPhysicalHHDM Machine.physicalToVirtual sub64 Words.sub add64 Words.add
  omega

variable [PageAllocator A]

/-! ## Requests -/

/-- The allocator after a number of requests for a frame. -/
def afterRequests (a : A) (k : Nat) : A := (fun a => (PageAllocator.allocPage a).2)^[k] a

theorem afterRequests_add (a : A) (j k : Nat) :
    afterRequests (afterRequests a j) k = afterRequests a (j + k) := by
  rw [afterRequests, afterRequests, afterRequests, ← Function.iterate_add_apply, Nat.add_comm]

/-- The frame that the request after `k` requests returns. -/
def requested (a : A) (k : Nat) : Nat := (PageAllocator.allocPage (afterRequests a k)).1

/-- The request that follows `k` requests finds no frame. -/
def OutOfPagesAfter (a : A) (k : Nat) : Prop :=
  (PageAllocator.allocPage (afterRequests a k)).1 = 0

/-! ## Linking a table -/

/-- The state after `getNextTable` has created a table below `table`. -/
def linkTable (m : Machine A) (table : Nat) (index : Fin 512) : Machine A :=
  let phys := (PageAllocator.allocPage m.pages).1
  let newlyCreated := m.physicalToVirtual phys
  let m' : Machine A :=
    { m with
      tables := Function.update m.tables newlyCreated (fun _ => 0)
      pages := (PageAllocator.allocPage m.pages).2 }
  m'.setEntry table index (m.virtualToPhysicalHHDM newlyCreated ||| ptePresent ||| pteWritable)

section LinkTable

variable {m : Machine A} {table : Nat} {index : Fin 512}

theorem linkTable_other {t : Nat} (h₁ : t ≠ table)
    (h₂ : t ≠ m.physicalToVirtual (PageAllocator.allocPage m.pages).1) :
    (linkTable m table index).tables t = m.tables t := by
  simp only [linkTable, Machine.setEntry, Function.update_of_ne h₁, Function.update_of_ne h₂]

theorem linkTable_fresh
    (hne : m.physicalToVirtual (PageAllocator.allocPage m.pages).1 ≠ table) :
    (linkTable m table index).tables (m.physicalToVirtual (PageAllocator.allocPage m.pages).1) =
      fun _ => 0 := by
  simp only [linkTable, Machine.setEntry, Function.update_of_ne hne, Function.update_self]

theorem linkTable_parent
    (hne : m.physicalToVirtual (PageAllocator.allocPage m.pages).1 ≠ table)
    (hsmall : (PageAllocator.allocPage m.pages).1 < 2 ^ 52) :
    (linkTable m table index).tables table = Function.update (m.tables table) index
      ((PageAllocator.allocPage m.pages).1 ||| ptePresent ||| pteWritable) := by
  simp only [linkTable, Machine.setEntry, Function.update_self, Function.update_of_ne hne.symm]
  rw [virtualToPhysical_physicalToVirtual (by omega)]

end LinkTable

/-! ## Lookups -/

theorem getNextTable_present {m : Machine A} {table : Nat} {index : Fin 512} {u : Nat}
    (create : Bool) (h : child m table index = some u) :
    getNextTable m table index create = some (some u, m) := by
  rw [child] at h
  split at h
  next hp =>
    cases h
    simp [getNextTable, hp]
  next => cases h

theorem getNextTable_lookup (m : Machine A) (table : Nat) (index : Fin 512) :
    getNextTable m table index false = some (child m table index, m) := by
  cases h : child m table index with
  | some u => exact getNextTable_present false h
  | none =>
      have hp : isPresent (m.tables table index) = false := by
        cases hp : isPresent (m.tables table index) with
        | false => rfl
        | true => simp [child, hp] at h
      simp [getNextTable, hp]

theorem getNextTable_missing {m : Machine A} {table : Nat} {index : Fin 512}
    (hmiss : isPresent (m.tables table index) = false) :
    getNextTable m table index true =
      if (PageAllocator.allocPage m.pages).1 = 0 then none
      else some (some (m.physicalToVirtual (PageAllocator.allocPage m.pages).1),
        linkTable m table index) := by
  by_cases hz : (PageAllocator.allocPage m.pages).1 = 0
  · simp [getNextTable, newTable, hmiss, hz, Pmm.outOfMemory]
  · simp only [getNextTable, newTable, hmiss, hz, Pmm.outOfMemory]
    rfl

theorem getPte_lookup (m : Machine A) (pml4 virt : Nat) :
    getPte m pml4 virt false =
      some ((tableAt m pml4 (path virt)).map fun t => (t, ptIndex virt), m) := by
  simp only [getPte, getNextTable_lookup, tableAt, path, Trie.walk]
  cases child m pml4 (pml4Index virt) with
  | none => rfl
  | some pdpt =>
      cases h₂ : child m pdpt (pdptIndex virt) with
      | none => simp [h₂]
      | some pd =>
          cases h₃ : child m pd (pdIndex virt) with
          | none => simp [h₂, h₃]
          | some pt => simp [h₂, h₃]

/-! ## Well-formed tables -/

variable [LawfulPageAllocator A]

structure WellFormed (m : Machine A) (pml4 : Nat) : Prop where
  valid : Valid m.pages
  tree : Trie.Tree (child m) pml4 3
  owned : ∀ p t, p.length ≤ 3 → tableAt m pml4 p = some t →
    ∃ q, Owned m.pages q ∧ q < 2 ^ 52 ∧ t = m.physicalToVirtual q

/-- The frame `newTable` gets is not a table yet. -/
theorem WellFormed.fresh {m : Machine A} {pml4 : Nat} (h : WellFormed m pml4)
    (hne : (PageAllocator.allocPage m.pages).1 ≠ 0) :
    ∀ p, p.length ≤ 3 →
      tableAt m pml4 p ≠ some (m.physicalToVirtual (PageAllocator.allocPage m.pages).1) := by
  intro p hp hw
  obtain ⟨q, howned, hsmall, heq⟩ := h.owned p _ hp hw
  have hq := physicalToVirtual_inj (LawfulPageAllocator.small _ h.valid) hsmall heq
  exact LawfulPageAllocator.fresh _ h.valid hne (hq ▸ howned)

/-- Creating a table for a missing entry hangs one fresh node into the tree. -/
theorem WellFormed.link {m : Machine A} {pml4 table : Nat} {p : List (Fin 512)} {index : Fin 512}
    (h : WellFormed m pml4) (hp : tableAt m pml4 p = some table) (hlen : p.length < 3)
    (hmiss : isPresent (m.tables table index) = false)
    (hne : (PageAllocator.allocPage m.pages).1 ≠ 0) :
    WellFormed (linkTable m table index) pml4 ∧
    (∀ q, q.length ≤ 3 → tableAt (linkTable m table index) pml4 q =
      if q = p ++ [index] then some (m.physicalToVirtual (PageAllocator.allocPage m.pages).1)
      else tableAt m pml4 q) ∧
    ∀ v, leafEntry (linkTable m table index) pml4 v = leafEntry m pml4 v := by
  have hfresh := h.fresh hne
  have hsmall := LawfulPageAllocator.small m.pages h.valid
  have haligned := LawfulPageAllocator.aligned m.pages h.valid
  have hnt : m.physicalToVirtual (PageAllocator.allocPage m.pages).1 ≠ table := fun heq =>
    hfresh p (Nat.le_of_lt hlen) (heq ▸ hp)
  have hparent : (linkTable m table index).tables table = _ := linkTable_parent hnt hsmall
  have hlink : Trie.Linkable (child m) pml4 3 p table index
      (m.physicalToVirtual (PageAllocator.allocPage m.pages).1) :=
    ⟨hp, hlen, by simp [child, hmiss], hfresh⟩
  have hwalk := Trie.walk_link (child (linkTable m table index)) h.tree hlink
    (fun i => by simp [child, linkTable_fresh hnt, isPresent_zero])
    (by
      simp only [child, hparent, Function.update_self, isPresent_link, if_true,
        link_and_addrMask hsmall haligned]
      rfl)
    (fun i hi => by
      simp only [child, hparent, Function.update_of_ne hi]
      rfl)
    (fun t h₁ h₂ => by
      funext i
      simp only [child, linkTable_other h₁ h₂]
      rfl)
  refine ⟨⟨LawfulPageAllocator.valid_alloc _ h.valid, h.tree.link hlink hwalk, ?_⟩, hwalk, fun v => ?_⟩
  · intro q t hq hw
    rw [tableAt, hwalk q hq] at hw
    split at hw
    next =>
      cases hw
      exact ⟨_, LawfulPageAllocator.owned_new _ h.valid hne, hsmall, rfl⟩
    next =>
      obtain ⟨f, howned, hf, heq⟩ := h.owned q t hq hw
      exact ⟨f, LawfulPageAllocator.owned_alloc _ f h.valid howned, hf, heq⟩
  · have hpath := hwalk (path v) (Nat.le_refl 3)
    unfold leafEntry tableAt
    rw [hpath]
    split
    next heq =>
      -- the page lies below the new table, where there was nothing
      have hold : Trie.walk (child m) pml4 (path v) = none := by
        rw [heq, Trie.walk_concat_of hp]
        exact hlink.missing
      rw [hold]
      simp [linkTable_fresh hnt, isPresent_zero]
    next =>
      cases hw : Trie.walk (child m) pml4 (path v) with
      | none => rfl
      | some s =>
          have hst : s ≠ table := fun heq => by
            have := h.tree (path v) p s (Nat.le_refl 3) (Nat.le_of_lt hlen) hw (heq ▸ hp)
            rw [← this] at hlen
            exact absurd hlen (by simp)
          have hsf : s ≠ m.physicalToVirtual (PageAllocator.allocPage m.pages).1 := fun heq =>
            hfresh (path v) (Nat.le_refl 3) (heq ▸ hw)
          simp only [Option.bind_some, linkTable_other hst hsf]

/-! ## Creating tables -/

/-- `m'` has the tables of `m` and new ones at the paths `ps`, which cost one request each.
What is in no table of `m'` has not been written. -/
structure Grown (m m' : Machine A) (pml4 : Nat) (ps : Finset (List (Fin 512))) : Prop where
  wellFormed : WellFormed m' pml4
  kept : ∀ q t, q.length ≤ 3 → tableAt m pml4 q = some t → tableAt m' pml4 q = some t
  missing : ∀ q, q.length ≤ 3 →
    (tableAt m' pml4 q = none ↔ tableAt m pml4 q = none ∧ q ∉ ps)
  added : ∀ q t, q.length ≤ 3 → tableAt m' pml4 q = some t →
    tableAt m pml4 q = some t ∨ ∃ k < ps.card, t = m.physicalToVirtual (requested m.pages k)
  frame : ∀ t, (∀ q, q.length ≤ 3 → tableAt m' pml4 q ≠ some t) → m'.tables t = m.tables t
  offset : m'.hhdmOffset = m.hhdmOffset
  pages : m'.pages = afterRequests m.pages ps.card

namespace Grown

variable {m m₁ m₂ : Machine A} {pml4 : Nat} {ps qs : Finset (List (Fin 512))}

theorem refl (h : WellFormed m pml4) : Grown m m pml4 ∅ :=
  ⟨h, fun _ _ _ ht => ht, fun q _ => by simp, fun _ _ _ ht => Or.inl ht, fun _ _ => rfl, rfl, rfl⟩

theorem trans (h₁ : Grown m m₁ pml4 ps) (h₂ : Grown m₁ m₂ pml4 qs) (hd : Disjoint ps qs) :
    Grown m m₂ pml4 (ps ∪ qs) := by
  have hcard : (ps ∪ qs).card = ps.card + qs.card := Finset.card_union_of_disjoint hd
  refine ⟨h₂.wellFormed, fun q t hq ht => h₂.kept q t hq (h₁.kept q t hq ht), fun q hq => ?_,
    fun q t hq ht => ?_, fun t hoff => ?_, h₂.offset.trans h₁.offset, ?_⟩
  · rw [h₂.missing q hq, h₁.missing q hq, Finset.notMem_union, and_assoc]
  · rcases h₂.added q t hq ht with ht | ⟨k, hk, heq⟩
    · rcases h₁.added q t hq ht with ht | ⟨k, hk, heq⟩
      · exact Or.inl ht
      · exact Or.inr ⟨k, by omega, heq⟩
    · rw [requested, h₁.pages, afterRequests_add, Machine.physicalToVirtual, h₁.offset] at heq
      exact Or.inr ⟨ps.card + k, by omega, heq⟩
  · have hoff₁ : ∀ q, q.length ≤ 3 → tableAt m₁ pml4 q ≠ some t := fun q hq ht =>
      hoff q hq (h₂.kept q t hq ht)
    exact (h₂.frame t hoff).trans (h₁.frame t hoff₁)
  · rw [h₂.pages, h₁.pages, afterRequests_add, hcard]

end Grown

/-- New tables at the paths `ps`, with no page mapped or unmapped. -/
structure Created (m m' : Machine A) (pml4 : Nat) (ps : Finset (List (Fin 512))) : Prop
    extends Grown m m' pml4 ps where
  leaf : ∀ v, leafEntry m' pml4 v = leafEntry m pml4 v
  served : ∀ k < ps.card, ¬ OutOfPagesAfter m.pages k

namespace Created

variable {m m₁ m₂ : Machine A} {pml4 : Nat} {ps qs : Finset (List (Fin 512))}

theorem refl (h : WellFormed m pml4) : Created m m pml4 ∅ :=
  ⟨.refl h, fun _ => rfl, fun _ hk => absurd hk (Nat.not_lt_zero _)⟩

theorem trans (h₁ : Created m m₁ pml4 ps) (h₂ : Created m₁ m₂ pml4 qs) (hd : Disjoint ps qs) :
    Created m m₂ pml4 (ps ∪ qs) := by
  have hcard : (ps ∪ qs).card = ps.card + qs.card := Finset.card_union_of_disjoint hd
  refine ⟨h₁.toGrown.trans h₂.toGrown hd, fun v => (h₂.leaf v).trans (h₁.leaf v), fun k hk => ?_⟩
  by_cases hlt : k < ps.card
  · exact h₁.served k hlt
  · have hserved := h₂.served (k - ps.card) (by omega)
    rw [OutOfPagesAfter, h₁.pages, afterRequests_add] at hserved
    rw [OutOfPagesAfter, show k = ps.card + (k - ps.card) by omega]
    exact hserved

/-- What `m₁` cannot be served, `m` cannot be served after the tables of `m₁`. -/
theorem out (h₁ : Created m m₁ pml4 ps) {k : Nat} (hk : OutOfPagesAfter m₁.pages k) :
    OutOfPagesAfter m.pages (ps.card + k) := by
  rw [OutOfPagesAfter, h₁.pages, afterRequests_add] at hk
  exact hk

end Created

/-- With `create`, `getNextTable` returns the table at the extended path, and
creates it if it is missing, unless the allocator is empty. -/
theorem getNextTable_create {m : Machine A} {pml4 table : Nat} {p : List (Fin 512)}
    (index : Fin 512) (h : WellFormed m pml4) (hp : tableAt m pml4 p = some table)
    (hlen : p.length < 3) :
    getNextTable m table index true = none ∧ tableAt m pml4 (p ++ [index]) = none ∧
      OutOfPagesAfter m.pages 0 ∨
    ∃ u m', getNextTable m table index true = some (some u, m') ∧
      Created m m' pml4 (missingAt m pml4 (p ++ [index])) ∧
      tableAt m' pml4 (p ++ [index]) = some u := by
  have hat : tableAt m pml4 (p ++ [index]) = child m table index := Trie.walk_concat_of hp
  cases hc : child m table index with
  | some u =>
      rw [hc] at hat
      refine Or.inr ⟨u, m, getNextTable_present true hc, ?_, hat⟩
      rw [missingAt, if_neg (by rw [hat]; exact Option.some_ne_none u)]
      exact .refl h
  | none =>
      rw [hc] at hat
      have hmiss : isPresent (m.tables table index) = false := by
        cases hp : isPresent (m.tables table index) with
        | false => rfl
        | true => simp [child, hp] at hc
      rw [getNextTable_missing hmiss]
      by_cases hz : (PageAllocator.allocPage m.pages).1 = 0
      · exact Or.inl ⟨if_pos hz, hat, hz⟩
      · rw [if_neg hz, missingAt, if_pos hat]
        obtain ⟨hwf, htables, hleaf⟩ := h.link hp hlen hmiss hz
        have hself := htables (p ++ [index]) (by simp; omega)
        rw [if_pos rfl] at hself
        have hgrown : Grown m (linkTable m table index) pml4 {p ++ [index]} := by
          refine ⟨hwf, fun q t hq ht => ?_, fun q hq => ?_, fun q t hq ht => ?_, fun t hoff => ?_,
            rfl, rfl⟩
          · rw [htables q hq, if_neg (fun heq => by rw [heq, hat] at ht; cases ht)]
            exact ht
          · rw [htables q hq, Finset.mem_singleton]
            split
            next heq => simp [heq]
            next hne => simp [hne]
          · rw [htables q hq] at ht
            split at ht
            next => exact Or.inr ⟨0, Nat.one_pos, (Option.some.inj ht).symm⟩
            next => exact Or.inl ht
          · -- the new table and its parent are tables
            refine linkTable_other (fun heq => ?_) fun heq => ?_
            · refine hoff p (Nat.le_of_lt hlen) ?_
              rw [htables p (Nat.le_of_lt hlen), if_neg (by simp), hp, heq]
            · exact hoff (p ++ [index]) (by simp; omega) (heq ▸ hself)
        refine Or.inr ⟨_, _, rfl, ⟨hgrown, hleaf, fun k hk => ?_⟩, hself⟩
        rw [Finset.card_singleton] at hk
        rw [show k = 0 by omega]
        exact hz

/-- A table at another path does not change which path is missing. -/
theorem Created.missingAt_eq {m m₁ : Machine A} {pml4 : Nat} {p q : List (Fin 512)}
    (h : Created m m₁ pml4 (missingAt m pml4 p)) (hne : q ≠ p) (hq : q.length ≤ 3) :
    missingAt m₁ pml4 q = missingAt m pml4 q := by
  refine if_congr ?_ rfl rfl
  rw [h.missing q hq]
  exact and_iff_left fun hmem => hne (mem_missingAt.mp hmem).1

/-- With `create`, `getPte` returns the slot of the address and creates the
tables that are missing, or one of its requests fails. -/
theorem getPte_create {m : Machine A} {pml4 : Nat} (virt : Nat) (h : WellFormed m pml4) :
    getPte m pml4 virt true = none ∧
      (∃ k < (missingTables m pml4 virt).card, OutOfPagesAfter m.pages k) ∨
    ∃ t m', getPte m pml4 virt true = some (some (t, ptIndex virt), m') ∧
      Created m m' pml4 (missingTables m pml4 virt) ∧ tableAt m' pml4 (path virt) = some t := by
  have hroot : tableAt m pml4 [] = some pml4 := rfl
  have hcard := card_missingTables m pml4 virt
  rcases getNextTable_create (pml4Index virt) h hroot (by simp) with
    ⟨hn, hat, hz⟩ | ⟨pdpt, m₁, h₁, c₁, at₁⟩
  · have hone : (missingAt m pml4 [pml4Index virt]).card = 1 := card_missingAt_of_none hat
    exact Or.inl ⟨by simp [getPte, hn], 0, by omega, hz⟩
  have c₁ : Created m m₁ pml4 (missingAt m pml4 [pml4Index virt]) := c₁
  have hmiss₂ : missingAt m₁ pml4 [pml4Index virt, pdptIndex virt] =
      missingAt m pml4 [pml4Index virt, pdptIndex virt] := c₁.missingAt_eq (by simp) (by simp)
  rcases getNextTable_create (pdptIndex virt) c₁.wellFormed at₁ (by simp) with
    ⟨hn, hat, hz⟩ | ⟨pd, m₂, h₂, c₂, at₂⟩
  · have hone : (missingAt m₁ pml4 [pml4Index virt, pdptIndex virt]).card = 1 :=
      card_missingAt_of_none hat
    rw [hmiss₂] at hone
    exact Or.inl ⟨by simp [getPte, h₁, hn], _, by omega, c₁.out hz⟩
  have c₂ : Created m₁ m₂ pml4 (missingAt m₁ pml4 [pml4Index virt, pdptIndex virt]) := c₂
  have hmiss₃ : missingAt m₂ pml4 (path virt) = missingAt m pml4 (path virt) := by
    rw [c₂.missingAt_eq (by simp [path]) (Nat.le_of_eq (length_path virt)),
      c₁.missingAt_eq (by simp [path]) (Nat.le_of_eq (length_path virt))]
  have c₁₂ := c₁.trans (hmiss₂ ▸ c₂) (disjoint_missingAt (by simp))
  rcases getNextTable_create (pdIndex virt) c₂.wellFormed at₂ (by simp) with
    ⟨hn, hat, hz⟩ | ⟨pt, m₃, h₃, c₃, at₃⟩
  · have hone : (missingAt m₂ pml4 (path virt)).card = 1 := card_missingAt_of_none hat
    have hsum : (missingAt m pml4 [pml4Index virt] ∪
        missingAt m pml4 [pml4Index virt, pdptIndex virt]).card = _ :=
      Finset.card_union_of_disjoint (disjoint_missingAt (by simp))
    rw [hmiss₃] at hone
    exact Or.inl ⟨by simp [getPte, h₁, h₂, hn], _, by omega, c₁₂.out hz⟩
  have c₃ : Created m₂ m₃ pml4 (missingAt m₂ pml4 (path virt)) := c₃
  refine Or.inr ⟨pt, m₃, by simp [getPte, h₁, h₂, h₃], ?_, at₃⟩
  rw [missingTables_eq, ← Finset.union_assoc]
  refine c₁₂.trans (hmiss₃ ▸ c₃) (Finset.disjoint_union_left.mpr
    ⟨disjoint_missingAt (by simp [path]), disjoint_missingAt (by simp [path])⟩)

/-! ## Writing an entry -/

/-- A write into a last-level table moves no table and changes the leaf entry of
one page. -/
theorem WellFormed.setEntry {m : Machine A} {pml4 virt t : Nat} (h : WellFormed m pml4)
    (ht : tableAt m pml4 (path virt) = some t) (e : Nat) :
    WellFormed (m.setEntry t (ptIndex virt) e) pml4 ∧
    (∀ p, p.length ≤ 3 → tableAt (m.setEntry t (ptIndex virt) e) pml4 p = tableAt m pml4 p) ∧
    ∀ w, leafEntry (m.setEntry t (ptIndex virt) e) pml4 w =
      if pageOf w = pageOf virt then (if isPresent e then some e else none)
      else leafEntry m pml4 w := by
  have hsame : ∀ p s, p.length < 3 → Trie.walk (child m) pml4 p = some s →
      child (m.setEntry t (ptIndex virt) e) s = child m s := by
    intro p s hp hs
    have hne : s ≠ t := fun heq => by
      have := h.tree p (path virt) s (Nat.le_of_lt hp) (Nat.le_refl 3) hs (heq ▸ ht)
      rw [this] at hp
      exact absurd hp (by simp)
    funext i
    simp only [child, Machine.setEntry, Function.update_of_ne hne]
    rfl
  have hwalk := Trie.walk_congr hsame
  refine ⟨⟨h.valid, h.tree.congr hsame, fun p s hp hs => ?_⟩, hwalk, fun w => ?_⟩
  · rw [tableAt, hwalk p hp] at hs
    exact h.owned p s hp hs
  · unfold leafEntry tableAt
    rw [hwalk (path w) (Nat.le_refl 3)]
    by_cases hpage : pageOf w = pageOf virt
    · obtain ⟨hpath, hidx⟩ := pageOf_eq_iff.mp hpage
      rw [if_pos hpage, hpath, hidx, show Trie.walk (child m) pml4 (path virt) = some t from ht]
      simp only [Option.bind_some, Machine.setEntry, Function.update_self]
    · rw [if_neg hpage]
      cases hw : Trie.walk (child m) pml4 (path w) with
      | none => rfl
      | some s =>
          simp only [Option.bind_some]
          have hentry : (m.setEntry t (ptIndex virt) e).tables s (ptIndex w) =
              m.tables s (ptIndex w) := by
            by_cases hst : s = t
            · subst hst
              have hpath := h.tree (path w) (path virt) s (Nat.le_refl 3) (Nat.le_refl 3) hw ht
              have hidx : ptIndex w ≠ ptIndex virt := fun hi =>
                hpage (pageOf_eq_iff.mpr ⟨hpath, hi⟩)
              simp only [Machine.setEntry, Function.update_self, Function.update_of_ne hidx]
            · simp only [Machine.setEntry, Function.update_of_ne hst]
          rw [hentry]

/-! ## Mapping a page -/

/-- `mapPage` on aligned addresses creates the missing tables.  Then it fails if
the page is mapped, and writes the entry if it is not. -/
theorem mapPage_cases {m : Machine A} {pml4 virt phys : Nat} (flags : Nat)
    (h : WellFormed m pml4) (hv : virt % pageSize = 0) (hp : phys % pageSize = 0) :
    mapPage m pml4 virt phys flags = none ∧
      (∃ k < (missingTables m pml4 virt).card, OutOfPagesAfter m.pages k) ∨
    ∃ t m', Created m m' pml4 (missingTables m pml4 virt) ∧ tableAt m' pml4 (path virt) = some t ∧
      (leafEntry m pml4 virt ≠ none ∧ mapPage m pml4 virt phys flags = some (false, m') ∨
      leafEntry m pml4 virt = none ∧ mapPage m pml4 virt phys flags = some (true,
        m'.setEntry t (ptIndex virt) ((phys &&& pteAddrMask) ||| flags ||| ptePresent))) := by
  rcases getPte_create virt h with ⟨hn, hout⟩ | ⟨t, m', hg, hc, ht⟩
  · exact Or.inl ⟨by simp [mapPage, hv, hp, hn], hout⟩
  refine Or.inr ⟨t, m', hc, ht, ?_⟩
  rw [← hc.leaf virt, leafEntry, ht]
  cases hpresent : isPresent (m'.tables t (ptIndex virt)) with
  | true => exact Or.inl ⟨by simp [hpresent], by simp [mapPage, hv, hp, hg, hpresent]⟩
  | false => exact Or.inr ⟨by simp [hpresent], by simp [mapPage, hv, hp, hg, hpresent]⟩

end Vmm

end Avery
