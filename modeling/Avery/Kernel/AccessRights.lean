import Avery.Kernel.HardwareWalk

/-!
# The rights of mapped pages

A page has the rights that the four entries of its walk give together.  The first
three are links to tables, and `getNextTable` writes every link with the same
bits: present, writable, not user, not no-execute (`Link`).  So a page gets the
write access and the no-execute bit its last entry has, which are those that
`mapPage` was asked for, and it never gets user access.
-/

namespace Avery

namespace Vmm

open LawfulPageAllocator (Valid)

variable {A : Type}

/-! ## Bits of entries -/

theorem and_bit (x i : Nat) : (x &&& 1 <<< i != 0) = x.testBit i := by
  rw [Nat.shiftLeft_eq, Nat.one_mul, Nat.and_two_pow]
  cases x.testBit i <;> simp

theorem Rights.ofBits_eq (bits : Nat) :
    Rights.ofBits bits = ⟨bits.testBit 2, bits.testBit 1, bits.testBit 63⟩ := by
  simp only [Rights.ofBits, flagUser, flagWritable, flagNX, and_bit]

theorem isLarge_eq (e : Nat) : isLarge e = e.testBit 7 := and_bit e 7

/-- The bits of an entry that links a table. -/
structure Link (e : Nat) : Prop where
  rights : Rights.ofBits e = ⟨false, true, false⟩
  small : isLarge e = false

/-- An entry `getNextTable` writes. -/
theorem link_entry {phys : Nat} (h : phys < 2 ^ 52) (ha : phys % 4096 = 0) :
    Link (phys ||| ptePresent ||| pteWritable) := by
  have hlow : ∀ i < 12, phys.testBit i = false := fun i hi => by
    rw [← Nat.mod_add_div phys 4096, ha, Nat.zero_add, show (4096 : Nat) = 2 ^ 12 by decide,
      Nat.testBit_two_pow_mul]
    simp; omega
  have hhigh : phys.testBit 63 = false :=
    Nat.testBit_lt_two_pow (Nat.lt_of_lt_of_le h (Nat.pow_le_pow_right (by decide) (by decide)))
  have hone : ∀ i, (ptePresent ||| pteWritable).testBit i = decide (i < 2) := fun i => by
    rw [show ptePresent ||| pteWritable = 2 ^ 2 - 1 by decide, Nat.testBit_two_pow_sub_one]
  constructor
  · rw [Rights.ofBits_eq, Nat.or_assoc]
    simp [hlow, hhigh, hone]
  · rw [isLarge_eq, Nat.or_assoc]
    simp [hlow, hone]

/-- The entry that `mapPage` writes has the rights of its flags. -/
theorem leaf_rights (phys flags : Nat) :
    Rights.ofBits ((phys &&& pteAddrMask) ||| flags ||| ptePresent) = Rights.ofBits flags := by
  have hmask : ∀ i, (pteAddrMask ||| ptePresent).testBit i = false →
      ((phys &&& pteAddrMask) ||| flags ||| ptePresent).testBit i = flags.testBit i := fun i hi => by
    rw [Nat.testBit_or, Bool.or_eq_false_iff] at hi
    simp [hi.1, hi.2]
  rw [Rights.ofBits_eq, Rights.ofBits_eq, hmask 2 (by decide), hmask 1 (by decide),
    hmask 63 (by decide)]

/-! ## Links -/

/-- Every present entry of the three upper levels is a link. -/
def Links (m : Machine A) (pml4 : Nat) : Prop :=
  ∀ (p : List (Fin 512)) t i e, p.length < 3 → tableAt m pml4 p = some t →
    presentEntry m t i = some e → Link e

/-- Under links the hardware walks to the last level, and the last entry decides
the rights, apart from user access. -/
theorem Links.hardwareWalk {m : Machine A} {pml4 virt e : Nat} (h : Links m pml4)
    (hleaf : leafEntry m pml4 virt = some e) :
    hardwareWalk m pml4 virt = some (translated e virt 12
      ⟨false, (Rights.ofBits e).writable, (Rights.ofBits e).noExecute⟩) := by
  rw [leafEntry_eq, lastEntry_cons _ _ _ _ (by simp)] at hleaf
  obtain ⟨e₄, h₄, hleaf⟩ := Option.bind_eq_some_iff.mp hleaf
  rw [lastEntry_cons _ _ _ _ (by simp)] at hleaf
  obtain ⟨e₃, h₃, hleaf⟩ := Option.bind_eq_some_iff.mp hleaf
  rw [lastEntry_cons _ _ _ _ (by simp)] at hleaf
  obtain ⟨e₂, h₂, h₁⟩ := Option.bind_eq_some_iff.mp hleaf
  have at₁ : tableAt m pml4 [pml4Index virt] = some (tableOf m e₄) := by
    simp [tableAt, Trie.walk, child_eq, pml4Index, h₄]
  have at₂ : tableAt m pml4 [pml4Index virt, pdptIndex virt] = some (tableOf m e₃) := by
    simp [tableAt, Trie.walk, child_eq, pml4Index, pdptIndex, h₄, h₃]
  have l₄ := h [] _ _ _ (by simp) rfl h₄
  have l₃ := h _ _ _ _ (by simp) at₁ h₃
  have l₂ := h _ _ _ _ (by simp) at₂ h₂
  rw [Vmm.hardwareWalk, descend_table h₄ (by simp [mapsPage]),
    descend_table h₃ (by simp [mapsPage, l₃.small]), descend_table h₂ (by simp [mapsPage, l₂.small]),
    descend_page h₁ rfl, l₄.rights, l₃.rights, l₂.rights]
  simp [Rights.meet]

theorem Links.not_covered {m : Machine A} {pml4 virt : Nat} (h : Links m pml4) :
    ¬ Covered m pml4 virt := by
  intro hcov
  obtain ⟨e₄, e₃, h₄, h₃⟩ := hcov.entries
  obtain ⟨t, ht, hs⟩ := hcov
  have at₁ : tableAt m pml4 [pml4Index virt] = some (tableOf m e₄) := by
    simp [tableAt, Trie.walk, child_eq, h₄]
  have at₂ : tableAt m pml4 [pml4Index virt, pdptIndex virt] = some (tableOf m e₃) := by
    simp [tableAt, Trie.walk, child_eq, h₄, h₃]
  have l₃ := h _ _ _ _ (by simp) at₁ h₃
  rw [Vmm.hardwareWalk, descend_table h₄ (by simp [mapsPage]),
    descend_table h₃ (by simp [mapsPage, l₃.small])] at ht
  cases h₂ : presentEntry m (tableOf m e₃) (tableIndex virt 21) with
  | none =>
      rw [descend_fault h₂] at ht
      cases ht
  | some e₂ =>
      have l₂ := h _ _ _ _ (by simp) at₂ h₂
      rw [descend_table h₂ (by simp [mapsPage, l₂.small])] at ht
      cases h₁ : presentEntry m (tableOf m e₂) (tableIndex virt 12) with
      | none =>
          rw [descend_fault h₁] at ht
          cases ht
      | some e₁ =>
          rw [descend_page h₁ rfl] at ht
          exact hs (Option.some.inj ht ▸ rfl)

/-- The rights of every address, from its leaf entry. -/
theorem Links.rights {m : Machine A} {pml4 : Nat} (h : Links m pml4) (virt : Nat) :
    (Vmm.hardwareWalk m pml4 virt).map Translation.rights =
      (leafEntry m pml4 virt).map fun e => { Rights.ofBits e with user := false } := by
  cases hleaf : leafEntry m pml4 virt with
  | some e =>
      rw [h.hardwareWalk hleaf]
      rfl
  | none =>
      have haddress := hardwareWalk_address (h.not_covered : ¬ Covered m pml4 virt)
      rw [hleaf, Option.map_none, Option.map_eq_none_iff] at haddress
      rw [haddress]
      rfl

variable [PageAllocator A]

/-- The root of a new address space is empty. -/
theorem createAddressSpace_root {m m₀ : Machine A} {pml4 : Nat}
    (hcreate : createAddressSpace m = some (pml4, m₀)) : m₀.tables pml4 = fun _ => 0 := by
  rw [createAddressSpace, newTable] at hcreate
  by_cases hz : (PageAllocator.allocPage m.pages).1 = 0
  · simp [hz, Pmm.outOfMemory] at hcreate
  simp only [Pmm.outOfMemory, hz, if_false, Option.some.injEq, Prod.mk.injEq] at hcreate
  obtain ⟨rfl, rfl⟩ := hcreate
  exact Function.update_self ..

variable [LawfulPageAllocator A]

/-! ## Links are kept -/

/-- The new table is empty, and its link is one. -/
theorem Links.linkTable {m : Machine A} {pml4 table : Nat} {p : List (Fin 512)} {index : Fin 512}
    (hl : Links m pml4) (h : WellFormed m pml4) (hp : tableAt m pml4 p = some table)
    (hlen : p.length < 3) (hmiss : isPresent (m.tables table index) = false)
    (hne : (PageAllocator.allocPage m.pages).1 ≠ 0) : Links (linkTable m table index) pml4 := by
  have hfresh := h.fresh hne
  have hsmall := LawfulPageAllocator.small m.pages h.valid
  have haligned := LawfulPageAllocator.aligned m.pages h.valid
  have hnt : m.physicalToVirtual (PageAllocator.allocPage m.pages).1 ≠ table := fun heq =>
    hfresh p (Nat.le_of_lt hlen) (heq ▸ hp)
  obtain ⟨_, htables, _⟩ := h.link hp hlen hmiss hne
  intro q t i e hq ht he
  obtain ⟨hpresent, rfl⟩ := presentEntry_eq_some.mp he
  rw [htables q (Nat.le_of_lt hq)] at ht
  split at ht
  next =>
    cases ht
    rw [linkTable_fresh hnt, isPresent_zero] at hpresent
    cases hpresent
  next =>
    have hold : ∀ {i}, isPresent (m.tables t i) = true → Link (m.tables t i) := fun hp =>
      hl q t _ _ hq ht (presentEntry_eq_some.mpr ⟨hp, rfl⟩)
    have htf : t ≠ m.physicalToVirtual (PageAllocator.allocPage m.pages).1 := fun heq =>
      hfresh q (Nat.le_of_lt hq) (heq ▸ ht)
    by_cases htt : t = table
    · subst htt
      rw [linkTable_parent hnt hsmall] at hpresent ⊢
      by_cases hi : i = index
      · subst hi
        rw [Function.update_self]
        exact link_entry hsmall haligned
      · rw [Function.update_of_ne hi] at hpresent ⊢
        exact hold hpresent
    · rw [linkTable_other htt htf] at hpresent ⊢
      exact hold hpresent

theorem Links.getNextTable {m m' : Machine A} {pml4 table : Nat} {p : List (Fin 512)}
    {index : Fin 512} {r : Option Nat} (hl : Links m pml4) (h : WellFormed m pml4)
    (hp : tableAt m pml4 p = some table) (hlen : p.length < 3)
    (hg : getNextTable m table index true = some (r, m')) : Links m' pml4 := by
  cases hc : child m table index with
  | some u =>
      rw [getNextTable_present true hc] at hg
      cases hg
      exact hl
  | none =>
      rw [child_eq, Option.map_eq_none_iff, presentEntry_eq_none] at hc
      rw [getNextTable_missing hc] at hg
      split at hg
      next => cases hg
      next hne =>
        cases hg
        exact hl.linkTable h hp hlen hc hne

/-- `getPte` hangs links into the tree, and nothing else. -/
theorem Links.getPte {m m' : Machine A} {pml4 virt : Nat} {r : Option (Nat × Fin 512)}
    (hl : Links m pml4) (h : WellFormed m pml4) (hg : getPte m pml4 virt true = some (r, m')) :
    Links m' pml4 := by
  rcases getNextTable_create (pml4Index virt) h (p := []) rfl (by simp) with
    ⟨hn, _, _⟩ | ⟨pdpt, m₁, h₁, c₁, at₁⟩
  · simp [Vmm.getPte, hn] at hg
  have l₁ := hl.getNextTable h (p := []) rfl (by simp) h₁
  rcases getNextTable_create (pdptIndex virt) c₁.wellFormed at₁ (by simp) with
    ⟨hn, _, _⟩ | ⟨pd, m₂, h₂, c₂, at₂⟩
  · simp [Vmm.getPte, h₁, hn] at hg
  have l₂ := l₁.getNextTable c₁.wellFormed at₁ (by simp) h₂
  rcases getNextTable_create (pdIndex virt) c₂.wellFormed at₂ (by simp) with
    ⟨hn, _, _⟩ | ⟨pt, m₃, h₃, c₃, _⟩
  · simp [Vmm.getPte, h₁, h₂, hn] at hg
  have l₃ := l₂.getNextTable c₂.wellFormed at₂ (by simp) h₃
  simp [Vmm.getPte, h₁, h₂, h₃] at hg
  exact hg.2 ▸ l₃

/-- A write into a last-level table touches no link. -/
theorem Links.setEntry {m : Machine A} {pml4 virt t : Nat} (hl : Links m pml4)
    (h : WellFormed m pml4) (ht : tableAt m pml4 (path virt) = some t) (e : Nat) :
    Links (m.setEntry t (ptIndex virt) e) pml4 := by
  obtain ⟨_, htables, _⟩ := h.setEntry ht e
  intro p s i e' hp hs he
  rw [htables p (Nat.le_of_lt hp)] at hs
  have hne : s ≠ t := fun heq => by
    have hpath := h.tree p (path virt) s (Nat.le_of_lt hp) (Nat.le_refl 3) hs (heq ▸ ht)
    rw [hpath] at hp
    exact absurd hp (by simp)
  refine hl p s i e' hp hs ?_
  rw [← he, presentEntry, presentEntry]
  simp only [Machine.setEntry, Function.update_of_ne hne]

/-! ## Granted rights -/

/-- The flags of the call that installed each page, after one more call. -/
def Call.install (flagsOf : Nat → Option Nat) : Call → Nat → Option Nat
  | .mapPage virt phys flags =>
      if virt % pageSize = 0 ∧ phys % pageSize = 0 ∧ flagsOf (pageOf virt) = none then
        Function.update flagsOf (pageOf virt) (some flags)
      else flagsOf
  | .unmapPage virt =>
      if virt % pageSize = 0 then Function.update flagsOf (pageOf virt) none else flagsOf
  | .virtToPhysical _ => flagsOf

/-- The flags of the call that installed each page, in an address space that
starts empty. -/
def installed (calls : List Call) : Nat → Option Nat :=
  calls.foldl Call.install fun _ => none

/-- The page tables hold the pages of `flagsOf`, with the rights of its flags in
their last entries. -/
structure Granted (m : Machine A) (pml4 : Nat) (flagsOf : Nat → Option Nat) : Prop where
  wellFormed : WellFormed m pml4
  links : Links m pml4
  leaf : ∀ v, (leafEntry m pml4 v).map Rights.ofBits = (flagsOf (pageOf v)).map Rights.ofBits

section Granted

variable {m m' : Machine A} {pml4 : Nat} {flagsOf : Nat → Option Nat}

theorem Granted.leaf_none (h : Granted m pml4 flagsOf) (v : Nat) :
    leafEntry m pml4 v = none ↔ flagsOf (pageOf v) = none := by
  rw [← Option.map_eq_none_iff (f := Rights.ofBits), h.leaf, Option.map_eq_none_iff]

/-- A write through the slot of an address changes the flags of its page. -/
theorem Granted.setEntry (h : Granted m pml4 flagsOf) {virt t e : Nat} {flags : Option Nat}
    (ht : tableAt m pml4 (path virt) = some t)
    (he : (if isPresent e then some (Rights.ofBits e) else none) = flags.map Rights.ofBits) :
    Granted (m.setEntry t (ptIndex virt) e) pml4
      (Function.update flagsOf (pageOf virt) flags) := by
  obtain ⟨hwf, _, hleaf⟩ := h.wellFormed.setEntry ht e
  refine ⟨hwf, h.links.setEntry h.wellFormed ht e, fun v => ?_⟩
  rw [hleaf]
  by_cases hv : pageOf v = pageOf virt
  · rw [if_pos hv, hv, Function.update_self, ← he]
    split <;> rfl
  · rw [if_neg hv, Function.update_of_ne hv]
    exact h.leaf v

theorem Granted.mapPage (h : Granted m pml4 flagsOf) {virt phys flags : Nat} {ok : Bool}
    (hmap : mapPage m pml4 virt phys flags = some (ok, m')) :
    Granted m' pml4 (Call.install flagsOf (.mapPage virt phys flags)) := by
  by_cases ha : virt % pageSize ≠ 0 ∨ phys % pageSize ≠ 0
  · rw [Vmm.mapPage, if_pos ha] at hmap
    cases hmap
    rw [Call.install, if_neg fun hc => ha.elim (· hc.1) (· hc.2.1)]
    exact h
  rcases getPte_create virt h.wellFormed with ⟨hn, _⟩ | ⟨t, m₁, hg, hc, ht⟩
  · simp [Vmm.mapPage, ha, hn] at hmap
  have h₁ : Granted m₁ pml4 flagsOf :=
    ⟨hc.wellFormed, h.links.getPte h.wellFormed hg, fun v => by rw [hc.leaf]; exact h.leaf v⟩
  obtain ⟨hv, hp⟩ := not_or.mp ha
  have hfree := h₁.leaf_none virt
  rw [leafEntry, ht, Option.bind_some] at hfree
  cases hpresent : isPresent (m₁.tables t (ptIndex virt)) with
  | true =>
      rw [hpresent] at hfree
      simp [Vmm.mapPage, ha, hg, hpresent] at hmap
      obtain ⟨_, rfl⟩ := hmap
      rw [Call.install, if_neg fun hc => Option.some_ne_none _ (hfree.mpr hc.2.2)]
      exact h₁
  | false =>
      rw [hpresent] at hfree
      simp [Vmm.mapPage, ha, hg, hpresent] at hmap
      obtain ⟨_, rfl⟩ := hmap
      rw [Call.install, if_pos ⟨Decidable.not_not.mp hv, Decidable.not_not.mp hp, hfree.mp rfl⟩]
      refine h₁.setEntry ht ?_
      rw [isPresent_or_present, if_pos rfl, leaf_rights]
      rfl

theorem Granted.unmapPage (h : Granted m pml4 flagsOf) {virt : Nat} {ok : Bool}
    (hunmap : unmapPage m pml4 virt = some (ok, m')) :
    Granted m' pml4 (Call.install flagsOf (.unmapPage virt)) := by
  by_cases ha : virt % pageSize = 0
  swap
  · simp [Vmm.unmapPage, ha] at hunmap
    obtain ⟨_, rfl⟩ := hunmap
    rw [Call.install, if_neg ha]
    exact h
  have habsent : leafEntry m pml4 virt = none →
      Granted m pml4 (Call.install flagsOf (.unmapPage virt)) := fun hleaf => by
    rw [Call.install, if_pos ha, ← (h.leaf_none virt).mp hleaf, Function.update_eq_self]
    exact h
  rw [Vmm.unmapPage, getPte_lookup] at hunmap
  cases ht : tableAt m pml4 (path virt) with
  | none =>
      simp [ha, ht] at hunmap
      obtain ⟨_, rfl⟩ := hunmap
      exact habsent (by rw [leafEntry, ht]; rfl)
  | some t =>
      cases hpresent : isPresent (m.tables t (ptIndex virt)) with
      | false =>
          simp [ha, ht, hpresent] at hunmap
          obtain ⟨_, rfl⟩ := hunmap
          exact habsent (by rw [leafEntry, ht, Option.bind_some, hpresent]; rfl)
      | true =>
          simp [ha, ht, hpresent] at hunmap
          obtain ⟨_, rfl⟩ := hunmap
          rw [Call.install, if_pos ha]
          exact h.setEntry ht (by rw [isPresent_zero]; rfl)

/-- One call that returns. -/
theorem Granted.exec (h : Granted m pml4 flagsOf) {c : Call} {answer : Answer}
    (hexec : exec m pml4 c = some (answer, m')) : Granted m' pml4 (Call.install flagsOf c) := by
  cases c with
  | mapPage virt phys flags =>
      rw [Vmm.exec, Option.map_eq_some_iff] at hexec
      obtain ⟨r, hr, heq⟩ := hexec
      cases heq
      exact h.mapPage hr
  | unmapPage virt =>
      rw [Vmm.exec, Option.map_eq_some_iff] at hexec
      obtain ⟨r, hr, heq⟩ := hexec
      cases heq
      exact h.unmapPage hr
  | virtToPhysical virt =>
      rw [Vmm.exec, virtToPhysical_eq, Option.map_some, Option.some.injEq] at hexec
      cases hexec
      exact h

end Granted

/-- A run that returns. -/
theorem Granted.execAll {pml4 : Nat} :
    ∀ {calls : List Call} {m m' : Machine A} {flagsOf : Nat → Option Nat} {answers : List Answer},
      Granted m pml4 flagsOf → execAll m pml4 calls = some (answers, m') →
      Granted m' pml4 (calls.foldl Call.install flagsOf)
  | [], _, _, _, _, h, hrun => by
      cases hrun
      exact h
  | c :: cs, m, m', flagsOf, answers, h, hrun => by
      rw [Vmm.execAll] at hrun
      obtain ⟨⟨a, m₁⟩, hc, hrun⟩ := Option.bind_eq_some_iff.mp hrun
      obtain ⟨⟨as, m₂⟩, hcs, hrun⟩ := Option.bind_eq_some_iff.mp hrun
      cases hrun
      exact (h.exec hc).execAll hcs

theorem granted_createAddressSpace {m m₀ : Machine A} {pml4 : Nat} (hv : Valid m.pages)
    (hcreate : createAddressSpace m = some (pml4, m₀)) : Granted m₀ pml4 fun _ => none := by
  have h := refines_createAddressSpace hv hcreate
  have hroot : ∀ i, presentEntry m₀ pml4 i = none := fun i => by
    rw [presentEntry_eq_none, createAddressSpace_root hcreate, isPresent_zero]
  refine ⟨h.wellFormed, fun p t i e _ ht he => ?_, fun v => ?_⟩
  · cases p with
    | nil =>
        cases ht
        rw [hroot] at he
        cases he
    | cons j p =>
        rw [tableAt, Trie.walk, child_eq, hroot] at ht
        cases ht
  · have hframe := h.frames v
    rw [Finmap.lookup_empty, Option.map_eq_none_iff] at hframe
    rw [hframe]

/-- After every run of calls from a new address space, each page has the write
access and the no-execute bit it was asked to have, and no user access. -/
theorem rights_of_run {m m₀ m' : Machine A} {pml4 : Nat} (hv : Valid m.pages)
    (hcreate : createAddressSpace m = some (pml4, m₀)) {calls : List Call} {answers : List Answer}
    (hrun : execAll m₀ pml4 calls = some (answers, m')) (virt : Nat) :
    (hardwareWalk m' pml4 virt).map Translation.rights =
      (installed calls (pageOf virt)).map fun flags =>
        { Rights.ofBits flags with user := false } := by
  have h := (granted_createAddressSpace hv hcreate).execAll hrun
  have hleaf := congrArg (Option.map fun r : Rights => { r with user := false }) (h.leaf virt)
  rw [Option.map_map, Option.map_map] at hleaf
  rw [h.links.rights virt]
  exact hleaf

/-- After every run of calls from a new address space, all mapped pages have
exactly the rights they were asked to have if and only if no page was asked to
have user access. -/
theorem rights_take_effect_iff {m m₀ m' : Machine A} {pml4 : Nat} (hv : Valid m.pages)
    (hcreate : createAddressSpace m = some (pml4, m₀)) {calls : List Call} {answers : List Answer}
    (hrun : execAll m₀ pml4 calls = some (answers, m')) :
    (∀ virt, (hardwareWalk m' pml4 virt).map Translation.rights =
      (installed calls (pageOf virt)).map Rights.ofBits) ↔
    ∀ virt flags, installed calls (pageOf virt) = some flags → flags &&& flagUser = 0 := by
  have heq := rights_of_run hv hcreate hrun
  constructor
  · intro h virt flags hflags
    have hrights := (heq virt).symm.trans (h virt)
    rw [hflags, Option.map_some, Option.map_some, Option.some.injEq] at hrights
    simpa [Rights.ofBits] using congrArg Rights.user hrights.symm
  · intro h virt
    rw [heq virt]
    cases hflags : installed calls (pageOf virt) with
    | none => rfl
    | some flags =>
        have huser := h virt flags hflags
        simp [Rights.ofBits, huser]

/-- A writable page without execution, over eight pages of memory. -/
theorem rights_take_effect_eightPages :
    ∃ answers m', execAll eightPagesSpace.2 eightPagesSpace.1
        [.mapPage 0x400000 0x7000 (flagWritable ||| flagNX)] = some (answers, m') ∧
      ∀ virt, (hardwareWalk m' eightPagesSpace.1 virt).map Translation.rights =
        (installed [.mapPage 0x400000 0x7000 (flagWritable ||| flagNX)] (pageOf virt)).map
          Rights.ofBits := by
  have hreturns : (execAll eightPagesSpace.2 eightPagesSpace.1
      [.mapPage 0x400000 0x7000 (flagWritable ||| flagNX)]).isSome = true := by decide +kernel
  obtain ⟨⟨answers, m'⟩, hrun⟩ := Option.isSome_iff_exists.mp hreturns
  refine ⟨answers, m', hrun, (rights_take_effect_iff eightPages_usable createAddressSpace_eightPages
    hrun).mpr fun virt flags h => ?_⟩
  have hflags : flags = flagWritable ||| flagNX := by
    rw [installed, List.foldl_cons, List.foldl_nil, Call.install, if_pos ⟨rfl, rfl, rfl⟩,
      Function.update_apply] at h
    split at h
    next => exact (Option.some.inj h).symm
    next => cases h
  rw [hflags]
  decide

/-- A page asked to be open to the user, over eight pages of memory: the links
above it close it. -/
theorem user_access_denied :
    createAddressSpace ⟨0xFFFF800000000000, fun _ _ => 0, eightPages⟩ = some eightPagesSpace ∧
    ∃ answers m', execAll eightPagesSpace.2 eightPagesSpace.1
        [.mapPage 0x400000 0x7000 (flagUser ||| flagWritable)] = some (answers, m') ∧
      ¬ ∀ virt, (hardwareWalk m' eightPagesSpace.1 virt).map Translation.rights =
        (installed [.mapPage 0x400000 0x7000 (flagUser ||| flagWritable)] (pageOf virt)).map
          Rights.ofBits := by
  have hrights : (execAll eightPagesSpace.2 eightPagesSpace.1
      [.mapPage 0x400000 0x7000 (flagUser ||| flagWritable)]).map (fun r =>
        (hardwareWalk r.2 eightPagesSpace.1 0x400000).map Translation.rights) =
      some (some ⟨false, true, false⟩) := by decide +kernel
  obtain ⟨⟨answers, m'⟩, hrun, heq⟩ := Option.map_eq_some_iff.mp hrights
  refine ⟨(Option.some_get _).symm, answers, m', hrun, fun h => ?_⟩
  have hpage := h 0x400000
  rw [heq, installed, List.foldl_cons, List.foldl_nil, Call.install, if_pos ⟨rfl, rfl, rfl⟩,
    Function.update_self] at hpage
  exact absurd hpage (by decide)

end Vmm

end Avery
