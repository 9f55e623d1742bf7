import Avery.Kernel.PageMap

/-!
# The walk of the hardware

The processor translates an address by a walk of its own.  It reads the same four
indices, and it stops early at an entry of the second or third level whose bit 7
is set: that entry maps a page of 1 GiB or 2 MiB.  The rights of a page are the
rights that all entries of its walk give.

`getNextTable` does not look at bit 7.  It takes the frame of such an entry for a
table, so the two walks agree exactly on the pages that lie in no large page
(`agrees_iff`).
-/

namespace Avery

namespace Vmm

variable {A : Type}

/-! ## Rights -/

def flagWritable : Nat := 1 <<< 1
def flagUser : Nat := 1 <<< 2
def flagNX : Nat := 1 <<< 63

structure Rights where
  user : Bool
  writable : Bool
  noExecute : Bool
deriving DecidableEq

/-- The rights that an entry gives, or that the flags of `mapPage` ask for: the
bits have the same places. -/
def Rights.ofBits (bits : Nat) : Rights :=
  ⟨bits &&& flagUser != 0, bits &&& flagWritable != 0, bits &&& flagNX != 0⟩

/-- User and write access need both, and one is enough to forbid execution. -/
def Rights.meet (a b : Rights) : Rights :=
  ⟨a.user && b.user, a.writable && b.writable, a.noExecute || b.noExecute⟩

/-! ## The walk -/

/-- `PS`, the page-size bit. -/
def ptePageSize : Nat := 1 <<< 7

def isLarge (entry : Nat) : Bool := entry &&& ptePageSize != 0

structure Translation where
  address : Nat
  rights : Rights
  /-- The page has `2 ^ shift` bytes. -/
  shift : Nat
deriving DecidableEq

/-- The page of `2 ^ shift` bytes that an entry maps, at the address. -/
def translated (entry virt shift : Nat) (rights : Rights) : Translation :=
  ⟨(entry &&& pteAddrMask) / 2 ^ shift * 2 ^ shift + virt % 2 ^ shift, rights, shift⟩

def presentEntry (m : Machine A) (table : Nat) (index : Fin 512) : Option Nat :=
  if isPresent (m.tables table index) then some (m.tables table index) else none

def tableOf (m : Machine A) (entry : Nat) : Nat := m.physicalToVirtual (entry &&& pteAddrMask)

/-- The entry at a level maps a page: always at the last level, and with bit 7 at
the two levels before it. -/
def mapsPage (shift entry : Nat) : Bool := shift == 12 || shift != 39 && isLarge entry

/-- The walk below a table.  A level is given by the place of its index in the
address, which is also the size of the pages it maps. -/
def descend (m : Machine A) (virt table : Nat) (rights : Rights) : List Nat → Option Translation
  | [] => none
  | shift :: shifts =>
      (presentEntry m table (tableIndex virt shift)).bind fun e =>
        if mapsPage shift e then some (translated e virt shift (rights.meet (.ofBits e)))
        else descend m virt (tableOf m e) (rights.meet (.ofBits e)) shifts

/-- The translation of an address, which uses its bits 0 to 47; `none` is a page
fault. -/
def hardwareWalk (m : Machine A) (pml4 virt : Nat) : Option Translation :=
  descend m virt pml4 ⟨true, true, false⟩ [39, 30, 21, 12]

/-- The address lies in a large page. -/
def Covered (m : Machine A) (pml4 virt : Nat) : Prop :=
  ∃ t, hardwareWalk m pml4 virt = some t ∧ t.shift ≠ 12

/-- The tables the hardware knows under a table. -/
def subtable (m : Machine A) (table : Nat) (index : Fin 512) : Option Nat :=
  (presentEntry m table index).bind fun e => if isLarge e then none else some (tableOf m e)

/-- The entry of a large page leaves the bits between the PAT bit and the frame
zero. -/
def AlignedTo (shift entry : Nat) : Prop := (entry &&& pteAddrMask) / 2 ^ 13 % 2 ^ (shift - 13) = 0

/-- A tree of tables as the architecture defines it: the tables form a tree, no
entry of the root has the reserved bit 7, and the frames of large pages are
aligned. -/
structure WellFormedTree (m : Machine A) (pml4 : Nat) : Prop where
  tree : Trie.Tree (subtable m) pml4 3
  root : ∀ i e, presentEntry m pml4 i = some e → isLarge e = false
  huge : ∀ i table j e, Trie.walk (subtable m) pml4 [i] = some table →
    presentEntry m table j = some e → isLarge e = true → AlignedTo 30 e
  large : ∀ i j table k e, Trie.walk (subtable m) pml4 [i, j] = some table →
    presentEntry m table k = some e → isLarge e = true → AlignedTo 21 e

/-! ## One level -/

section Level

variable {m : Machine A} {table e : Nat} {index : Fin 512}

theorem presentEntry_eq_some :
    presentEntry m table index = some e ↔
      isPresent (m.tables table index) = true ∧ m.tables table index = e := by
  unfold presentEntry
  split
  next hp => simp [hp]
  next hp => simp [hp]

theorem presentEntry_eq_none :
    presentEntry m table index = none ↔ isPresent (m.tables table index) = false := by
  unfold presentEntry
  split
  next hp => simp [hp]
  next hp => simp [hp]

theorem child_eq (m : Machine A) (table : Nat) (index : Fin 512) :
    child m table index = (presentEntry m table index).map (tableOf m) := by
  unfold child presentEntry
  split <;> rfl

variable {virt shift : Nat} {rights : Rights} {shifts : List Nat}

theorem descend_fault (h : presentEntry m table (tableIndex virt shift) = none) :
    descend m virt table rights (shift :: shifts) = none := by
  rw [descend, h]
  rfl

theorem descend_page (h : presentEntry m table (tableIndex virt shift) = some e)
    (hp : mapsPage shift e = true) :
    descend m virt table rights (shift :: shifts) =
      some (translated e virt shift (rights.meet (.ofBits e))) := by
  rw [descend, h, Option.bind_some, if_pos hp]

theorem descend_table (h : presentEntry m table (tableIndex virt shift) = some e)
    (hp : mapsPage shift e = false) :
    descend m virt table rights (shift :: shifts) =
      descend m virt (tableOf m e) (rights.meet (.ofBits e)) shifts := by
  rw [descend, h, Option.bind_some, hp]
  rfl

end Level

/-! ## The walk of the code -/

/-- The last entry the code meets below a table. -/
def lastEntry (m : Machine A) (virt table : Nat) : List Nat → Option Nat
  | [] => none
  | [shift] => presentEntry m table (tableIndex virt shift)
  | shift :: s :: shifts =>
      (presentEntry m table (tableIndex virt shift)).bind fun e =>
        lastEntry m virt (tableOf m e) (s :: shifts)

theorem lastEntry_cons (m : Machine A) (virt table shift : Nat) {shifts : List Nat}
    (h : shifts ≠ []) :
    lastEntry m virt table (shift :: shifts) =
      (presentEntry m table (tableIndex virt shift)).bind fun e =>
        lastEntry m virt (tableOf m e) shifts := by
  cases shifts with
  | nil => exact absurd rfl h
  | cons s shifts => rfl

theorem leafEntry_eq (m : Machine A) (pml4 virt : Nat) :
    leafEntry m pml4 virt = lastEntry m virt pml4 [39, 30, 21, 12] := by
  simp only [leafEntry, tableAt, path, Trie.walk, child_eq, lastEntry, pml4Index, pdptIndex, pdIndex]
  cases presentEntry m pml4 (tableIndex virt 39) with
  | none => rfl
  | some e₄ =>
      simp only [Option.map_some, Option.bind_some]
      cases presentEntry m (tableOf m e₄) (tableIndex virt 30) with
      | none => rfl
      | some e₃ =>
          simp only [Option.map_some, Option.bind_some]
          cases presentEntry m (tableOf m e₃) (tableIndex virt 21) with
          | none => rfl
          | some e₂ => rfl

/-- The address the code computes from the last entry is that of the hardware. -/
theorem translated_small (entry virt : Nat) (rights : Rights) :
    (translated entry virt 12 rights).address = add64 (entry &&& pteAddrMask) (virt &&& 0xFFF) := by
  have hle : entry &&& pteAddrMask ≤ pteAddrMask := Nat.and_le_right
  have hoffset : virt &&& 0xFFF = virt % 2 ^ 12 := by
    rw [show (0xFFF : Nat) = 2 ^ 12 - 1 by decide, Words.and_mask]
  have hframe : (entry &&& pteAddrMask) / 2 ^ 12 * 2 ^ 12 = entry &&& pteAddrMask := by
    refine Nat.div_mul_cancel (Nat.dvd_of_mod_eq_zero ?_)
    rw [Nat.and_mod_two_pow, show pteAddrMask % 2 ^ 12 = 0 by decide, Nat.and_zero]
  rw [translated, hframe, hoffset, add64, Words.add_eq (by unfold pteAddrMask at hle ⊢; omega)]

/-- The code's address for a last entry. -/
def leafAddress (virt entry : Nat) : Nat := add64 (entry &&& pteAddrMask) (virt &&& 0xFFF)

/-- Where the hardware meets no large page, the code goes on below the same
tables. -/
theorem descend_address {m : Machine A} {virt : Nat} :
    ∀ {shifts : List Nat} {table : Nat} {rights : Rights}, 12 ∉ shifts →
      (∀ t, descend m virt table rights (shifts ++ [12]) = some t → t.shift = 12) →
      (descend m virt table rights (shifts ++ [12])).map Translation.address =
        (lastEntry m virt table (shifts ++ [12])).map (leafAddress virt)
  | [], table, rights, _, _ => by
      rw [List.nil_append]
      cases h : presentEntry m table (tableIndex virt 12) with
      | none =>
          rw [descend_fault h, lastEntry, h]
          rfl
      | some e =>
          rw [descend_page h rfl, lastEntry, h, Option.map_some, translated_small]
          rfl
  | shift :: shifts, table, rights, hs, hsmall => by
      rw [List.cons_append] at hsmall ⊢
      rw [lastEntry_cons _ _ _ _ (by simp)]
      cases h : presentEntry m table (tableIndex virt shift) with
      | none =>
          rw [descend_fault h]
          rfl
      | some e =>
          cases hp : mapsPage shift e with
          | true => exact absurd (hsmall _ (descend_page h hp)) (List.ne_of_not_mem_cons hs).symm
          | false =>
              rw [descend_table h hp] at hsmall ⊢
              exact descend_address (List.not_mem_of_not_mem_cons hs) hsmall

/-- Outside large pages the code meets the entries the hardware meets. -/
theorem hardwareWalk_address {m : Machine A} {pml4 virt : Nat} (h : ¬ Covered m pml4 virt) :
    (hardwareWalk m pml4 virt).map Translation.address =
      (leafEntry m pml4 virt).map (leafAddress virt) := by
  have hsmall : ∀ t, hardwareWalk m pml4 virt = some t → t.shift = 12 := fun t ht =>
    Decidable.not_not.mp fun hs => h ⟨t, ht, hs⟩
  rw [leafEntry_eq]
  show (descend m virt pml4 _ ([39, 30, 21] ++ [12])).map _ =
    (lastEntry m virt pml4 ([39, 30, 21] ++ [12])).map _
  exact descend_address (by decide) hsmall

/-! ## Large pages -/

/-- A covered address selects present entries in the first two tables. -/
theorem Covered.entries {m : Machine A} {pml4 virt : Nat} (h : Covered m pml4 virt) :
    ∃ e₄ e₃, presentEntry m pml4 (pml4Index virt) = some e₄ ∧
      presentEntry m (tableOf m e₄) (pdptIndex virt) = some e₃ := by
  obtain ⟨t, ht, _⟩ := h
  rw [hardwareWalk] at ht
  cases h₄ : presentEntry m pml4 (tableIndex virt 39) with
  | none =>
      rw [descend_fault h₄] at ht
      cases ht
  | some e₄ =>
      rw [descend_table h₄ (by simp [mapsPage])] at ht
      cases h₃ : presentEntry m (tableOf m e₄) (tableIndex virt 30) with
      | none =>
          rw [descend_fault h₃] at ht
          cases ht
      | some e₃ => exact ⟨e₄, e₃, h₄, h₃⟩

/-- Addresses that select the same entries lie in pages of one size. -/
theorem descend_shift {m : Machine A} {v w : Nat} :
    ∀ {shifts : List Nat} {table : Nat} {rights : Rights},
      (∀ s ∈ shifts, tableIndex v s = tableIndex w s) →
      (descend m v table rights shifts).map Translation.shift =
        (descend m w table rights shifts).map Translation.shift
  | [], _, _, _ => rfl
  | shift :: shifts, table, rights, h => by
      have hindex := h shift (List.mem_cons_self ..)
      cases hv : presentEntry m table (tableIndex v shift) with
      | none => rw [descend_fault hv, descend_fault (hindex ▸ hv)]
      | some e =>
          cases hp : mapsPage shift e with
          | true =>
              rw [descend_page hv hp, descend_page (hindex ▸ hv) hp]
              rfl
          | false =>
              rw [descend_table hv hp, descend_table (hindex ▸ hv) hp]
              exact descend_shift fun s hs => h s (List.mem_cons_of_mem _ hs)

theorem covered_congr {m : Machine A} {pml4 v w : Nat} (h : pageOf v = pageOf w)
    (hv : Covered m pml4 v) : Covered m pml4 w := by
  obtain ⟨t, ht, hs⟩ := hv
  obtain ⟨hpath, hlast⟩ := pageOf_eq_iff.mp h
  simp only [path, List.cons.injEq, and_true] at hpath
  have hindex : ∀ s ∈ [39, 30, 21, 12], tableIndex v s = tableIndex w s := by
    simp only [List.mem_cons, List.not_mem_nil, or_false, forall_eq_or_imp, forall_eq]
    exact ⟨hpath.1, hpath.2.1, hpath.2.2, hlast⟩
  have hshift : (hardwareWalk m pml4 v).map Translation.shift =
      (hardwareWalk m pml4 w).map Translation.shift := descend_shift hindex
  rw [ht, Option.map_some] at hshift
  obtain ⟨u, hu, heq⟩ := Option.map_eq_some_iff.mp hshift.symm
  exact ⟨u, hu, heq ▸ hs⟩

variable [PageAllocator A]

theorem virtToPhysical_eq (m : Machine A) (pml4 virt : Nat) :
    virtToPhysical m pml4 virt =
      some (((leafEntry m pml4 virt).map (leafAddress virt)).getD 0, m) := by
  rw [virtToPhysical, getPte_lookup, leafEntry]
  cases tableAt m pml4 (path virt) with
  | none => rfl
  | some t =>
      cases hp : isPresent (m.tables t (ptIndex virt)) with
      | true => simp [hp, leafAddress]
      | false => simp [hp]

/-- The new link is present, where nothing was before. -/
theorem linkTable_ne {m : Machine A} {table : Nat} {index : Fin 512}
    (hmiss : isPresent (m.tables table index) = false) : linkTable m table index ≠ m := by
  intro heq
  have hentry : isPresent ((linkTable m table index).tables table index) = true := by
    simp only [linkTable, Machine.setEntry, Function.update_self]
    exact isPresent_link _
  rw [heq, hmiss] at hentry
  cases hentry

/-- On a page inside a large page, one of the two calls does not fail, or
`mapPage` writes to memory before it fails. -/
theorem Covered.acts {m : Machine A} {pml4 virt : Nat} (h : Covered m pml4 virt)
    (ha : virt % pageSize = 0) (hun : unmapPage m pml4 virt = some (false, m)) :
    mapPage m pml4 virt 0 0 ≠ some (false, m) := by
  obtain ⟨e₄, e₃, h₄, h₃⟩ := h.entries
  have hc₄ : child m pml4 (pml4Index virt) = some (tableOf m e₄) := by
    rw [child_eq, h₄]
    rfl
  have hc₃ : child m (tableOf m e₄) (pdptIndex virt) = some (tableOf m e₃) := by
    rw [child_eq, h₃]
    rfl
  have hget := getNextTable_present true hc₄
  have hget' := getNextTable_present true hc₃
  cases hc₂ : child m (tableOf m e₃) (pdIndex virt) with
  | some pt =>
      have hpte : getPte m pml4 virt true = some (some (pt, ptIndex virt), m) := by
        simp [getPte, hget, hget', getNextTable_present true hc₂]
      have hlookup : getPte m pml4 virt false = some (some (pt, ptIndex virt), m) := by
        rw [getPte_lookup]
        simp [tableAt, path, Trie.walk, hc₄, hc₃, hc₂]
      cases hp : isPresent (m.tables pt (ptIndex virt)) with
      | true => simp [unmapPage, ha, hlookup, hp] at hun
      | false => simp [mapPage, ha, hpte, hp]
  | none =>
      have hmiss : isPresent (m.tables (tableOf m e₃) (pdIndex virt)) = false := by
        rw [child_eq, Option.map_eq_none_iff] at hc₂
        exact presentEntry_eq_none.mp hc₂
      have hget'' := getNextTable_missing hmiss
      intro hmap
      by_cases hz : (PageAllocator.allocPage m.pages).1 = 0
      · simp [mapPage, ha, getPte, hget, hget', hget'', hz] at hmap
      · simp [mapPage, ha, getPte, hget, hget', hget'', hz] at hmap
        split at hmap
        · simp at hmap
          exact linkTable_ne hmiss hmap
        · simp at hmap

/-! ## Agreement -/

/-- What the hardware asks of the code at one address: the translation is the
same, with `0` for a fault, and in a large page `mapPage` and `unmapPage` fail
without a write. -/
structure AgreesAt (m : Machine A) (pml4 virt : Nat) : Prop where
  translation : virtToPhysical m pml4 virt =
    some (((hardwareWalk m pml4 virt).map Translation.address).getD 0, m)
  map : Covered m pml4 virt → ∀ phys flags, mapPage m pml4 virt phys flags = some (false, m)
  unmap : Covered m pml4 virt → unmapPage m pml4 virt = some (false, m)

/-- On every machine the code agrees with the hardware at every address of a page
if and only if the page lies in no large page. -/
theorem agrees_iff (m : Machine A) (pml4 virt : Nat) :
    (∀ v, pageOf v = pageOf virt → AgreesAt m pml4 v) ↔ ¬ Covered m pml4 virt := by
  constructor
  · intro hall hcov
    have hpage : pageOf (virt - virt % pageSize) = pageOf virt := by
      unfold pageOf pageSize
      omega
    have ha : (virt - virt % pageSize) % pageSize = 0 := by
      unfold pageSize
      omega
    have hcov' := covered_congr hpage.symm hcov
    have hagrees := hall _ hpage
    exact hcov'.acts ha (hagrees.unmap hcov') (hagrees.map hcov' 0 0)
  · intro hno v hv
    have hno' : ¬ Covered m pml4 v := fun hc => hno (covered_congr hv hc)
    refine ⟨?_, fun hc => absurd hc hno', fun hc => absurd hc hno'⟩
    rw [virtToPhysical_eq, hardwareWalk_address hno']

omit [PageAllocator A] in
/-- A root with one table, in which every page has 1 GiB. -/
theorem wellFormedTree_of_hugePages {m : Machine A} {pml4 t : Nat} {i : Fin 512}
    (hne : t ≠ pml4)
    (hroot : ∀ j e, presentEntry m pml4 j = some e →
      j = i ∧ isLarge e = false ∧ tableOf m e = t)
    (hpages : ∀ j e, presentEntry m t j = some e → isLarge e = true ∧ AlignedTo 30 e) :
    WellFormedTree m pml4 := by
  have hlink : ∀ j u, subtable m pml4 j = some u → j = i ∧ u = t := by
    intro j u hu
    obtain ⟨e, he, hu⟩ := Option.bind_eq_some_iff.mp hu
    obtain ⟨hj, hlarge, htable⟩ := hroot j e he
    rw [hlarge, if_neg Bool.false_ne_true, htable] at hu
    exact ⟨hj, (Option.some.inj hu).symm⟩
  have hend : ∀ j u, subtable m t j ≠ some u := by
    intro j u hu
    obtain ⟨e, he, hu⟩ := Option.bind_eq_some_iff.mp hu
    rw [if_pos (hpages j e he).1] at hu
    cases hu
  have hwalk : ∀ p u, Trie.walk (subtable m) pml4 p = some u →
      p = [] ∧ u = pml4 ∨ p = [i] ∧ u = t := by
    intro p u hu
    cases p with
    | nil => exact Or.inl ⟨rfl, (Option.some.inj hu).symm⟩
    | cons j p =>
        obtain ⟨v, hv, hu⟩ := Option.bind_eq_some_iff.mp hu
        obtain ⟨rfl, rfl⟩ := hlink j v hv
        cases p with
        | nil => exact Or.inr ⟨rfl, (Option.some.inj hu).symm⟩
        | cons k p =>
            obtain ⟨w, hw, _⟩ := Option.bind_eq_some_iff.mp hu
            exact absurd hw (hend k w)
  refine ⟨fun p q u _ _ hp hq => ?_, fun j e he => (hroot j e he).2.1,
    fun j table k e ht he _ => ?_, fun j k table l e ht _ _ => ?_⟩
  · rcases hwalk p u hp with ⟨rfl, rfl⟩ | ⟨rfl, rfl⟩
    · rcases hwalk q u hq with ⟨rfl, _⟩ | ⟨_, h⟩
      · rfl
      · exact absurd h.symm hne
    · rcases hwalk q u hq with ⟨_, h⟩ | ⟨rfl, _⟩
      · exact absurd h hne
      · rfl
  · rcases hwalk [j] table ht with ⟨h, _⟩ | ⟨_, rfl⟩
    · cases h
    · exact (hpages k e he).2
  · rcases hwalk [j, k] table ht with ⟨h, _⟩ | ⟨h, _⟩ <;> cases h

/-- Tables of a boot loader: the first gigabyte of addresses is one page, at the
second gigabyte of memory. -/
def bootTables : Machine Pmm.PhysicalMemory where
  hhdmOffset := 0xFFFF800000000000
  tables t i :=
    if t = 0xFFFF800000001000 ∧ i = 0 then 0x2000 ||| ptePresent ||| pteWritable
    else if t = 0xFFFF800000002000 ∧ i = 0 then
      0x40000000 ||| ptePresent ||| pteWritable ||| ptePageSize
    else 0
  pages := eightPages

theorem bootTables_wellFormed : WellFormedTree bootTables 0xFFFF800000001000 := by
  refine wellFormedTree_of_hugePages (t := 0xFFFF800000002000) (i := 0) (by decide)
    (fun i e he => ?_) fun j e he => ?_
  · obtain ⟨hp, he⟩ := presentEntry_eq_some.mp he
    by_cases hi : i = 0
    · simp only [bootTables, hi] at he
      subst he hi
      decide
    · simp [bootTables, hi, isPresent_zero] at hp
  · obtain ⟨hp, he⟩ := presentEntry_eq_some.mp he
    by_cases hj : j = 0
    · simp only [bootTables, hj] at he
      subst he hj
      unfold AlignedTo
      decide
    · simp [bootTables, hj, isPresent_zero] at hp

/-- The hardware reads address `0x1234` from the page.  The code takes the page for
a table without entries. -/
theorem bootTables_disagree :
    WellFormedTree bootTables (init bootTables 0x1000) ∧
    ¬ ∀ virt, AgreesAt bootTables (init bootTables 0x1000) virt := by
  have hroot : init bootTables 0x1000 = 0xFFFF800000001000 := by decide
  rw [hroot]
  refine ⟨bootTables_wellFormed, fun h => ?_⟩
  have hcode : (virtToPhysical bootTables 0xFFFF800000001000 0x1234).map Prod.fst = some 0 := by
    decide +kernel
  have hhardware : (hardwareWalk bootTables 0xFFFF800000001000 0x1234).map Translation.address =
      some 0x40001234 := by decide +kernel
  rw [(h 0x1234).translation, hhardware] at hcode
  exact absurd hcode (by decide)

end Vmm

end Avery
