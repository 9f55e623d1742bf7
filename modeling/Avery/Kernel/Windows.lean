import Avery.Kernel.HardwareWalk
import Avery.Kernel.Mmio
import Avery.Kernel.RootSlots

/-!
# The windows in the kernel's address space

The windows lie below 32 entries of the root, so the calls of `mmio.cpp` do what they do on
these slots (`run_restricts`).  Only the tables there have to be well-formed.  The rest of the
kernel's address space comes from the boot loader and has large pages, which
`virtToPhysical` does not know: it takes their frames for tables.

So a page of the rest is translated otherwise when a request for a table of a window
returns the frame of a large page (`largePage_moves`).  It is the only way in which the
windows go wrong (`windows_sound`).
-/

namespace Avery

namespace Mmio

open Vmm

/-! ## The slots of the windows -/

/-- The entries of the root for the `2 ^ 44` bytes of the windows. -/
def windowSlots (i : Fin 512) : Prop := 288 ≤ i.val ∧ i.val < 320

instance : DecidablePred windowSlots := fun _ => inferInstanceAs (Decidable (_ ∧ _))

theorem windowSlots_of_zone {v : Nat} (hlow : firstMMIOVirt ≤ v)
    (hhigh : v < firstMMIOVirt + 2 ^ 44) : windowSlots (pml4Index v) := by
  have hindex : (pml4Index v).val = v / 2 ^ 39 % 512 := tableIndex_val v 39
  unfold firstMMIOVirt at hlow hhigh
  unfold windowSlots
  rw [hindex]
  omega

variable {A : Type}

/-- The state with no other entries of the root. -/
def Windows.restrict (w : Windows A) : Windows A :=
  { w with space.machine := w.space.machine.restrict windowSlots w.space.kernelPml4 }

variable [PageAllocator A] [LawfulPageAllocator A]

/-! ## The loop of the destructor -/

section

variable {slots : Fin 512 → Prop} [DecidablePred slots] {pml4 virt n : Nat}

theorem unmapLoop_grown : ∀ {i : Nat} {m m' : Machine A}, WellFormed m pml4 →
    unmapLoop m pml4 virt i n = some m' → Grown m m' pml4 ∅ := by
  induction n with
  | zero =>
    intro i m m' h heq
    cases heq
    exact .refl h
  | succ n ih =>
    intro i m m' h heq
    obtain ⟨⟨ok, m₁⟩, hpage, heq⟩ := Option.bind_eq_some_iff.mp heq
    have h₁ := unmapPage_grown h hpage
    exact h₁.trans (ih h₁.wellFormed heq) (Finset.disjoint_empty_right ∅)

theorem unmapLoop_restricts : ∀ {i : Nat} {m : Machine A},
    WellFormed (m.restrict slots pml4) pml4 →
    (∀ j < n, slots (pml4Index (add64 virt (i + j * pageSize)))) →
    ∃ m', unmapLoop m pml4 virt i n = some m' ∧
      unmapLoop (m.restrict slots pml4) pml4 virt i n = some (m'.restrict slots pml4) ∧
      ∀ j, ¬ slots j → m'.tables pml4 j = m.tables pml4 j := by
  induction n with
  | zero => exact fun {i m} _ _ => ⟨m, rfl, rfl, fun _ _ => rfl⟩
  | succ n ih =>
    intro i m h hslots
    have hslot := hslots 0 (Nat.succ_pos n)
    rw [Nat.zero_mul, Nat.add_zero] at hslot
    obtain ⟨ok, m₁, h₁, h₁', root₁⟩ := unmapPage_restricts h hslot
    have hwf₁ := (unmapPage_grown h h₁').wellFormed
    obtain ⟨m₂, h₂, h₂', root₂⟩ := ih (i := i + pageSize) hwf₁ fun j hj => by
      have hnext := hslots (j + 1) (Nat.succ_lt_succ hj)
      rwa [Nat.succ_mul, Nat.add_comm (j * pageSize), ← Nat.add_assoc] at hnext
    refine ⟨m₂, ?_, ?_, fun j hj => (root₂ j hj).trans (root₁ j hj)⟩
    · rw [unmapLoop, h₁]
      exact h₂
    · rw [unmapLoop, h₁']
      exact h₂'

end

/-! ## The calls on the slots -/

/-- The pages that a call maps. -/
def Call.pages : Call → Nat
  | .construct physical size => pagesOf physical size
  | .destroy _ => 0

theorem totalPages_cons (c : Call) (cs : List Call) :
    totalPages (c :: cs) = c.pages + totalPages cs := by
  cases c with
  | construct physical size => rfl
  | destroy i => exact (Nat.zero_add _).symm

/-- The address of a page of the windows. -/
theorem windowSlots_page {n : Nat} (h : n < pageLimit) :
    windowSlots (pml4Index (firstMMIOVirt + n * 4096)) := by
  unfold pageLimit at h
  exact windowSlots_of_zone (Nat.le_add_right _ _) (by omega)

/-- The windows after a page range has been mapped for another one, or only a part of it. -/
def Windows.constructed (w : Windows A) (physical size : Nat) (r : Bool × Machine A) : Windows A :=
  { w with
    space := ⟨r.2, w.space.kernelPml4, add64 w.space.nextMMIOVirt (pagesOf physical size * 4096)⟩
    live := ⟨physical, size,
      if r.1 then ⟨add64 w.space.nextMMIOVirt (physical % 4096), w.space.nextMMIOVirt,
        pagesOf physical size * 4096⟩ else ⟨0, 0, 0⟩⟩ :: w.live }

/-- A run on the whole has done what it has done on the slots, and has created the tables
that its windows need, the first of them at `next`. -/
structure Restricted (w w' : Windows A) (n : Nat) : Prop where
  kernelPml4 : w'.space.kernelPml4 = w.space.kernelPml4
  root : ∀ i, ¬ windowSlots i →
    w'.space.machine.tables w.space.kernelPml4 i = w.space.machine.tables w.space.kernelPml4 i
  grown : Grown w.restrict.space.machine w'.restrict.space.machine w.space.kernelPml4
    (newTables w.restrict.space.machine w.space.kernelPml4 w.space.nextMMIOVirt n)

section

variable {f₀ : Nat → Option Nat} {w : Windows A} {used : Nat}

theorem Leased.wellFormed (h : Leased f₀ w.restrict used) :
    WellFormed (w.space.machine.restrict windowSlots w.space.kernelPml4) w.space.kernelPml4 := by
  obtain ⟨pm, hrefines, -⟩ := h.leases
  exact hrefines.wellFormed

omit [LawfulPageAllocator A] in
theorem exec_construct_eq (w : Windows A) {physical size : Nat} (hrange : physical + size ≤ 2 ^ 52) :
    exec w (.construct physical size) =
      (mapRangeLoop w.space.machine w.space.kernelPml4 w.space.nextMMIOVirt
        (physical / 4096 * 4096) windowFlags 0 (pagesOf physical size)).map
        (w.constructed physical size) := by
  have hframes := frames_inRange hrange
  have hsmall : pagesOf physical size * 4096 + 4096 < 2 ^ 64 := by omega
  rw [exec, construct_eq _ hrange, mapRange_eq _ _ _ _ _ hsmall]
  cases mapRangeLoop w.space.machine w.space.kernelPml4 w.space.nextMMIOVirt
    (physical / 4096 * 4096) windowFlags 0 (pagesOf physical size) with
  | none => rfl
  | some r => rfl

theorem Leased.construct_restricts (h : Leased f₀ w.restrict used) {physical size : Nat}
    (hrange : physical + size ≤ 2 ^ 52) (hlimit : used + pagesOf physical size ≤ pageLimit)
    (hempty : ∀ p, firstPage ≤ p → p < firstPage + pageLimit → f₀ p = none) :
    exec w (.construct physical size) = none ∧ exec w.restrict (.construct physical size) = none ∨
      ∃ w', exec w (.construct physical size) = some w' ∧
        exec w.restrict (.construct physical size) = some w'.restrict ∧
        Restricted w w' (pagesOf physical size) := by
  have hnext : w.space.nextMMIOVirt = firstMMIOVirt + used * 4096 := h.next
  have hframes := frames_inRange hrange
  obtain ⟨-, -, h64, haligned, -⟩ := window_fits hlimit
  rw [← hnext] at h64 haligned
  rw [← Nat.zero_add (pagesOf physical size)] at h64 hframes
  have hslots : ∀ j, 0 ≤ j → j < 0 + pagesOf physical size →
      windowSlots (pml4Index (w.space.nextMMIOVirt + j * pageSize)) := by
    intro j _ hj
    rw [hnext, pageSize, Nat.add_assoc, ← Nat.add_mul]
    exact windowSlots_page (by omega)
  have hphys : physical / 4096 * 4096 % 4096 = 0 := Nat.mul_mod_left _ _
  rw [exec_construct_eq w hrange, exec_construct_eq w.restrict hrange]
  rcases mapRangeLoop_restricts windowFlags haligned hphys h.wellFormed
      (Nat.le_of_lt h64) hframes hslots with ⟨hn, hn'⟩ | ⟨ok, m', heq, heq', hroot⟩
  · exact Or.inl ⟨by rw [hn]; rfl, by rw [Windows.restrict, hn']; rfl⟩
  have hloop : mapRangeLoop w.restrict.space.machine w.restrict.space.kernelPml4
      w.restrict.space.nextMMIOVirt (physical / 4096 * 4096) windowFlags 0 (pagesOf physical size) =
      some (ok, m'.restrict windowSlots w.space.kernelPml4) := heq'
  have hexec := exec_construct_eq w.restrict hrange
  rw [hloop] at hexec ⊢
  rw [heq]
  refine Or.inr ⟨w.constructed physical size (ok, m'), rfl, rfl, rfl, hroot, ?_⟩
  -- the page range has been mapped to its end
  have hok : ok = true := by
    rcases h.construct hrange hlimit hempty with ⟨hn, -⟩ | ⟨w', hw', hleased, -⟩
    · rw [hn] at hexec
      cases hexec
    · rw [hw'] at hexec
      obtain rfl := Option.some.inj hexec
      obtain ⟨u, hshaped⟩ := hleased.shaped _ List.mem_cons_self
      have hbase := hshaped.mappingBase
      cases ok with
      | true => rfl
      | false =>
        have hzero : (0 : Nat) = firstMMIOVirt + u * 4096 := hbase
        unfold firstMMIOVirt at hzero
        omega
  rw [hok] at heq'
  have hgrown := mapRangeLoop_grown haligned hphys h.wellFormed (Nat.le_of_lt h64) hframes heq'
  rwa [Nat.zero_mul, Nat.add_zero] at hgrown

omit [PageAllocator A] [LawfulPageAllocator A] in
theorem newTables_zero (m : Machine A) (pml4 virt : Nat) : newTables m pml4 virt 0 = ∅ := rfl

theorem Leased.destroy_restricts (h : Leased f₀ w.restrict used) (i : Nat) :
    ∃ w', exec w (.destroy i) = some w' ∧ exec w.restrict (.destroy i) = some w'.restrict ∧
      Restricted w w' 0 := by
  have hlive : w.restrict.live = w.live := rfl
  cases hwin : w.live[i]? with
  | none =>
    refine ⟨w, by rw [exec, hwin], by rw [exec, hlive, hwin], rfl, fun _ _ => rfl, ?_⟩
    rw [newTables_zero]
    exact .refl h.wellFormed
  | some win =>
    have hmem : win ∈ w.restrict.live := List.mem_of_getElem? hwin
    obtain ⟨u, hshaped⟩ := h.shaped win (List.mem_append_left _ hmem)
    have hlimit := hshaped.limit
    have hbase : win.interface.mappingBase ≠ 0 := by
      rw [hshaped.mappingBase, firstMMIOVirt]
      omega
    have hslots : ∀ j < pagesOf win.physical win.size,
        windowSlots (pml4Index (add64 win.interface.mappingBase (0 + j * pageSize))) := by
      intro j hj
      have hfits := (window_fits hlimit).2.2.1
      have hbound : firstMMIOVirt + u * 4096 + j * 4096 < 2 ^ 64 :=
        Nat.lt_of_le_of_lt (Nat.add_le_add_left (Nat.mul_le_mul_right _ (Nat.le_of_lt hj)) _) hfits
      have hadd : add64 (firstMMIOVirt + u * 4096) (j * 4096) = firstMMIOVirt + (u + j) * 4096 := by
        rw [Nat.add_mul, ← Nat.add_assoc]
        exact Words.add_eq hbound
      rw [Nat.zero_add, hshaped.mappingBase, pageSize, hadd]
      exact windowSlots_page (by omega)
    obtain ⟨m', heq, heq', hroot⟩ := unmapLoop_restricts h.wellFormed hslots
    have hgrown := unmapLoop_grown h.wellFormed heq'
    have hloop : unmapLoop w.restrict.space.machine w.restrict.space.kernelPml4
        win.interface.mappingBase 0 (pagesOf win.physical win.size) =
        some (m'.restrict windowSlots w.space.kernelPml4) := heq'
    refine ⟨{ space := { w.space with machine := m' }
              live := w.live.eraseIdx i
              destroyed := win :: w.destroyed }, ?_, ?_, rfl, hroot, hgrown⟩
    · simp only [exec, hwin, destruct_eq w.space hbase hshaped.mappedSize, heq]
      rfl
    · simp only [exec, hlive, hwin, destruct_eq w.restrict.space hbase hshaped.mappedSize, hloop]
      rfl

/-- A call does on the whole what it does on the slots. -/
theorem Leased.exec_restricts (h : Leased f₀ w.restrict used) {c : Call} (hc : c.InRange)
    (hlimit : used + c.pages ≤ pageLimit)
    (hempty : ∀ p, firstPage ≤ p → p < firstPage + pageLimit → f₀ p = none) :
    exec w c = none ∧ exec w.restrict c = none ∨
      ∃ w', exec w c = some w' ∧ exec w.restrict c = some w'.restrict ∧
        Restricted w w' c.pages ∧ Leased f₀ w'.restrict (used + c.pages) := by
  cases c with
  | construct physical size =>
    rcases h.construct_restricts hc hlimit hempty with hnone | ⟨w', heq, heq', hrestricted⟩
    · exact Or.inl hnone
    · rcases h.construct hc hlimit hempty with ⟨hn, -⟩ | ⟨w'', hw'', hleased, -⟩
      · rw [hn] at heq'
        cases heq'
      · obtain rfl := Option.some.inj (heq'.symm.trans hw'')
        exact Or.inr ⟨w', heq, heq', hrestricted, hleased⟩
  | destroy i =>
    obtain ⟨w', heq, heq', hrestricted⟩ := h.destroy_restricts i
    obtain ⟨w'', hw'', hleased, -⟩ := h.destroy (Nat.le_trans (Nat.le_add_right _ _) hlimit) hempty i
    obtain rfl := Option.some.inj (heq'.symm.trans hw'')
    exact Or.inr ⟨w', heq, heq', hrestricted, hleased⟩

omit f₀ w used in
theorem Restricted.trans {w w₁ w₂ : Windows A} {a b : Nat} (h₁ : Restricted w w₁ a)
    (h₂ : Restricted w₁ w₂ b)
    (hnext : w₁.space.nextMMIOVirt = w.space.nextMMIOVirt + a * pageSize) :
    Restricted w w₂ (a + b) := by
  have hgrown := h₂.grown
  have hroot := h₂.root
  rw [h₁.kernelPml4] at hgrown hroot
  rw [hnext] at hgrown
  exact ⟨h₂.kernelPml4.trans h₁.kernelPml4, fun i hi => (hroot i hi).trans (h₁.root i hi),
    h₁.grown.newTables hgrown⟩

/-- A run does on the whole what it does on the slots. -/
theorem Leased.run_restricts
    (hempty : ∀ p, firstPage ≤ p → p < firstPage + pageLimit → f₀ p = none) {calls : List Call} :
    ∀ {w : Windows A} {used : Nat}, Leased f₀ w.restrict used → (∀ c ∈ calls, c.InRange) →
      used + totalPages calls ≤ pageLimit →
      Mmio.run w calls = none ∧ Mmio.run w.restrict calls = none ∨
        ∃ w', Mmio.run w calls = some w' ∧ Mmio.run w.restrict calls = some w'.restrict ∧
          Restricted w w' (totalPages calls) := by
  induction calls with
  | nil =>
    intro w used h _ _
    refine Or.inr ⟨w, rfl, rfl, rfl, fun _ _ => rfl, ?_⟩
    rw [totalPages, newTables_zero]
    exact .refl h.wellFormed
  | cons c cs ih =>
    intro w used h hrange hlimit
    rw [totalPages_cons] at hlimit ⊢
    rcases h.exec_restricts (hrange c List.mem_cons_self) (by omega) hempty with
      ⟨hn, hn'⟩ | ⟨w₁, heq, heq', hfirst, h₁⟩
    · exact Or.inl ⟨by rw [Mmio.run, hn]; rfl, by rw [Mmio.run, hn']; rfl⟩
    have hnext : w₁.space.nextMMIOVirt = w.space.nextMMIOVirt + c.pages * pageSize := by
      have hbefore : w.space.nextMMIOVirt = _ := h.next
      have hafter : w₁.space.nextMMIOVirt = _ := h₁.next
      rw [hbefore, hafter, Nat.add_mul, Nat.add_assoc, pageSize]
    rw [Mmio.run, Mmio.run, heq, heq']
    rcases ih h₁ (fun c' hc' => hrange c' (List.mem_cons_of_mem _ hc')) (by omega) with
      hnone | ⟨w₂, hrun, hrun', hrest⟩
    · exact Or.inl hnone
    · exact Or.inr ⟨w₂, hrun, hrun', hfirst.trans hrest hnext⟩

end

/-- For every sequence of constructions and destructions on an address space in which nothing
is mapped in the `2 ^ 44` bytes from `nextMMIOVirt` on, where the kernel's heap begins: the
windows of live interfaces are pairwise disjoint, an interface translates to the physical
range it was constructed for and its whole window to the frames that hold the range, no page
of a destroyed interface is mapped, and every page outside the live windows translates as
before the sequence.  The frames that the requests for the windows' tables return must not be
read as tables for other pages; the frames of large pages are.  A sequence returns unless one
of its requests fails. -/
theorem windows_sound {m : Machine A} {pml4 : Nat} (hs : Separate windowSlots m pml4)
    (hfree : ∀ v, firstMMIOVirt ≤ v → v < firstMMIOVirt + 2 ^ 44 → translation m pml4 v = none)
    {calls : List Call} (hrange : ∀ c ∈ calls, c.InRange)
    (htotal : (calls.map Call.mappedSize).sum < 2 ^ 44)
    (hclear : ∀ k < (newTables m pml4 firstMMIOVirt (totalPages calls)).card,
      ¬ Outside windowSlots m pml4 (m.physicalToVirtual (requested m.pages k))) :
    (run (start m pml4) calls = none → ∃ k < 3 * totalPages calls, OutOfPagesAfter m.pages k) ∧
    ∀ w, run (start m pml4) calls = some w → w.Sound m pml4 := by
  have htree := hs.inside.tree
  have hfree' : ∀ v, firstMMIOVirt ≤ v → v < firstMMIOVirt + 2 ^ 44 →
      translation (m.restrict windowSlots pml4) pml4 v = none := by
    intro v hlow hhigh
    rw [translation_restrict htree (windowSlots_of_zone hlow hhigh)]
    exact hfree v hlow hhigh
  obtain ⟨hreturns, hsound⟩ := windows_of_wellFormed hs.inside hfree' hrange htotal
  have hlimit : 0 + totalPages calls ≤ pageLimit := by
    rw [totalPages_eq] at htotal
    rw [pageLimit]
    omega
  obtain ⟨pm₀, h₀⟩ := hs.inside.refines
  have hempty := zone_empty h₀ hfree'
  have hleased : Leased (fun p => pm₀.lookup p) (start m pml4).restrict 0 := leased_start h₀
  have hrestrict : (start m pml4).restrict = start (m.restrict windowSlots pml4) pml4 := rfl
  rcases hleased.run_restricts hempty hrange hlimit with ⟨hn, hn'⟩ | ⟨w, heq, heq', hw⟩
  · exact ⟨fun _ => hreturns hn', fun w' hw' => absurd (hn.symm.trans hw') (by simp)⟩
  refine ⟨fun hn => absurd (heq.symm.trans hn) (by simp), fun w' hw' => ?_⟩
  obtain rfl := Option.some.inj (heq.symm.trans hw')
  rw [hrestrict] at heq'
  have hinside := hsound _ heq'
  have hpml4 : w.space.kernelPml4 = pml4 := hw.kernelPml4
  have hnew : newTables (m.restrict windowSlots pml4) pml4 firstMMIOVirt (totalPages calls) =
      newTables m pml4 firstMMIOVirt (totalPages calls) :=
    newTables_restrict htree fun j hj => windowSlots_page (by omega)
  have hgrown : Grown (m.restrict windowSlots pml4)
      (w.space.machine.restrict windowSlots w.space.kernelPml4) pml4
      (newTables (m.restrict windowSlots pml4) pml4 firstMMIOVirt (totalPages calls)) := hw.grown
  rw [hpml4, hnew] at hgrown
  have hslot : ∀ v, windowSlots (pml4Index v) →
      translation w.space.machine pml4 v = translation w.restrict.space.machine pml4 v := by
    intro v hv
    rw [Windows.restrict, hpml4]
    exact (translation_restrict hgrown.wellFormed.tree hv).symm
  have hwindow : ∀ win ∈ w.live ++ w.destroyed, ∀ v ∈ win.addresses,
      translation w.space.machine pml4 v = translation w.restrict.space.machine pml4 v :=
    fun win hwin v hv => by
      obtain ⟨hlow, hhigh⟩ := hinside.zone win hwin v hv
      exact hslot v (windowSlots_of_zone hlow hhigh)
  have hlive : ∀ win ∈ w.live, win ∈ w.live ++ w.destroyed := fun win hwin =>
    List.mem_append_left _ hwin
  refine ⟨hinside.zone, hinside.apart, fun win hwin k hk => ?_, fun win hwin k hk => ?_,
    fun win hwin v hv => ?_, fun v hv => ?_⟩
  · obtain ⟨hmem, hphysical⟩ := hinside.mapped win hwin k hk
    rw [virtToPhysical_translation, ← hwindow win (hlive win hwin) _ hmem] at hphysical
    have hvalue := congrArg Prod.fst (Option.some.inj hphysical)
    rw [virtToPhysical_translation]
    exact ⟨hmem, congrArg (fun v => some (v, w.space.machine)) hvalue⟩
  · have hmem : win.interface.mappingBase + k ∈ win.addresses :=
      Set.mem_Ico.mpr ⟨Nat.le_add_right _ _, Nat.add_lt_add_left hk _⟩
    rw [hwindow win (hlive win hwin) _ hmem]
    exact hinside.frames win hwin k hk
  · rw [hwindow win (List.mem_append_right _ hwin) v hv]
    exact hinside.unmapped win hwin v hv
  · by_cases hv' : windowSlots (pml4Index v)
    · rw [hslot v hv', hinside.others v hv, translation_restrict htree hv']
    · exact hs.translation_outside hgrown hw.root hclear hv'

/-! ## A boot loader's tables -/

/-- The root of a boot loader's tables, at frame `0x100000`. -/
def loaderRoot : Nat := 0xFFFF800000100000

/-- The boot loader's tables, in memory that it does not hand out.  The direct map is a page of
1 GiB at `frame`; `data` is what else is in memory. -/
def loaderTables (frame : Nat) (data : Nat → Fin 512 → Nat) : Machine Pmm.PhysicalMemory where
  hhdmOffset := 0xFFFF800000000000
  tables t i :=
    if t = loaderRoot ∧ i.val = 256 then 0x101000 ||| ptePresent ||| pteWritable
    else if t = 0xFFFF800000101000 ∧ i.val = 0 then
      frame ||| ptePresent ||| pteWritable ||| ptePageSize
    else data t i
  pages := eightPages

/-- The page is at the second gigabyte of memory. -/
def directMap : Machine Pmm.PhysicalMemory := loaderTables 0x40000000 fun _ _ => 0

/-- The page is at the first gigabyte of memory.  Its first eight bytes read as a link to
frame `0x2000`, which is free, and the eight bytes there as a link to frame `0x5000`. -/
def lowDirectMap : Machine Pmm.PhysicalMemory :=
  loaderTables 0 fun t i =>
    if i.val = 0 then
      if t = 0xFFFF800000000000 then 0x2001 else if t = 0xFFFF800000002000 then 0x5001 else 0
    else 0

theorem loaderTables_root {frame : Nat} {data : Nat → Fin 512 → Nat} {i : Fin 512}
    (hi : i.val ≠ 256) : (loaderTables frame data).tables loaderRoot i = data loaderRoot i := by
  have hroot : loaderRoot ≠ 0xFFFF800000101000 := by decide
  simp only [loaderTables, hi, hroot, and_false, false_and, if_false]

/-- Only the direct map is mapped. -/
theorem loaderTables_translation {frame : Nat} {data : Nat → Fin 512 → Nat}
    (hdata : ∀ i, data loaderRoot i = 0) {v : Nat} (hv : (pml4Index v).val ≠ 256) :
    translation (loaderTables frame data) loaderRoot v = none := by
  have hchild : child (loaderTables frame data) loaderRoot (pml4Index v) = none := by
    rw [child, loaderTables_root hv, hdata, isPresent_zero, if_neg Bool.false_ne_true]
  unfold translation leafEntry path tableAt
  rw [Trie.walk, hchild]
  rfl

theorem directMap_outside {t : Nat} (h : Outside windowSlots directMap loaderRoot t) :
    t = 0xFFFF800000101000 ∨ t = 0xFFFF800040000000 := by
  have hchild : ∀ u i, child directMap u i = some t →
      t = 0xFFFF800000101000 ∨ t = 0xFFFF800040000000 := by
    intro u i hu
    unfold child at hu
    by_cases hroot : u = loaderRoot ∧ i.val = 256
    · simp only [directMap, loaderTables, if_pos hroot] at hu
      exact Or.inl (Option.some.inj hu).symm
    by_cases hpdpt : u = 0xFFFF800000101000 ∧ i.val = 0
    · simp only [directMap, loaderTables, if_neg hroot, if_pos hpdpt] at hu
      exact Or.inr (Option.some.inj hu).symm
    · simp only [directMap, loaderTables, if_neg hroot, if_neg hpdpt] at hu
      cases hu
  obtain ⟨i, -, p, -, ht⟩ := h
  obtain ⟨q, j, hq⟩ := (List.eq_nil_or_concat (i :: p)).resolve_left (List.cons_ne_nil i p)
  rw [hq, tableAt, List.concat_eq_append, Trie.walk_concat] at ht
  obtain ⟨u, -, hu⟩ := Option.bind_eq_some_iff.mp ht
  exact hchild u j hu

theorem directMap_separate : Separate windowSlots directMap loaderRoot := by
  refine separate_of_absent (q := 0x100000) eightPages_usable (fun i hi => ?_) ?_ (by decide) rfl
    fun hout => ?_
  · have hne : i.val ≠ 256 := fun heq => absurd (heq ▸ hi.1) (by decide)
    rw [directMap, loaderTables_root hne, isPresent_zero]
  · exact fun hmem => absurd (Pmm.mem_freeSet.mp hmem).1 (by decide +kernel)
  · rcases directMap_outside hout with h | h <;> exact absurd h (by decide)

/-- Three windows beside the direct map, the second of them destroyed. -/
theorem windows_sound_directMap :
    ∃ w, run (start directMap loaderRoot)
        [.construct 0xFEE00320 8, .construct 0xFEC00FF0 0x1020, .destroy 0,
          .construct 0xFD000000 0x1000] = some w ∧
      w.live.length = 2 ∧ w.destroyed.length = 1 ∧ w.Sound directMap loaderRoot := by
  have hfree : ∀ v, firstMMIOVirt ≤ v → v < firstMMIOVirt + 2 ^ 44 →
      translation directMap loaderRoot v = none := by
    intro v hlow hhigh
    have hslot := (windowSlots_of_zone hlow hhigh).1
    exact loaderTables_translation (fun _ => rfl) (by omega)
  have hrange : ∀ c ∈ [Call.construct 0xFEE00320 8, .construct 0xFEC00FF0 0x1020, .destroy 0,
      .construct 0xFD000000 0x1000], c.InRange := by
    simp [Call.InRange]
  have hrequested : ∀ k < 15,
      directMap.physicalToVirtual (requested directMap.pages k) ≠ 0xFFFF800000101000 ∧
        directMap.physicalToVirtual (requested directMap.pages k) ≠ 0xFFFF800040000000 := by
    decide +kernel
  have hclear : ∀ k < (newTables directMap loaderRoot firstMMIOVirt 5).card,
      ¬ Outside windowSlots directMap loaderRoot
        (directMap.physicalToVirtual (requested directMap.pages k)) := by
    intro k hk hout
    obtain ⟨hpdpt, hpage⟩ := hrequested k (Nat.lt_of_lt_of_le hk (card_newTables_le ..))
    rcases directMap_outside hout with h | h
    · exact hpdpt h
    · exact hpage h
  have hreturns : (run (start directMap loaderRoot)
      [.construct 0xFEE00320 8, .construct 0xFEC00FF0 0x1020, .destroy 0,
        .construct 0xFD000000 0x1000]).map (fun w => (w.live.length, w.destroyed.length)) =
      some (2, 1) := by
    decide +kernel
  obtain ⟨w, hw, hlength⟩ := Option.map_eq_some_iff.mp hreturns
  obtain ⟨hlive, hdestroyed⟩ := Prod.mk.inj hlength
  exact ⟨w, hw, hlive, hdestroyed,
    (windows_sound directMap_separate hfree hrange (by decide) hclear).2 w hw⟩

theorem lowDirectMap_wellFormed : WellFormedTree lowDirectMap loaderRoot := by
  refine wellFormedTree_of_hugePages (t := 0xFFFF800000101000) (i := 256) (by decide)
    (fun i e he => ?_) fun j e he => ?_
  · obtain ⟨hp, he⟩ := presentEntry_eq_some.mp he
    by_cases hi : i.val = 256
    · obtain rfl : i = 256 := Fin.ext hi
      subst he
      decide
    · rw [lowDirectMap, loaderTables_root hi] at hp
      simp [loaderRoot, isPresent_zero] at hp
  · obtain ⟨hp, he⟩ := presentEntry_eq_some.mp he
    by_cases hj : j.val = 0
    · obtain rfl : j = 0 := Fin.ext hj
      subst he
      unfold AlignedTo
      decide
    · have hne : j ≠ 0 := fun h => hj (congrArg Fin.val h)
      simp [lowDirectMap, loaderTables, hne, loaderRoot, isPresent_zero] at hp

/-- The window's first table is frame `0x2000`.  An address of the direct map moves with it from
frame `0x5000` to the window's second table. -/
theorem largePage_moves :
    WellFormedTree lowDirectMap loaderRoot ∧
    (∀ v, firstMMIOVirt ≤ v → v < 2 ^ 64 → translation lowDirectMap loaderRoot v = none) ∧
    translation lowDirectMap loaderRoot 0xFFFF800000000000 = some 0x5000 ∧
    ∃ w, run (start lowDirectMap loaderRoot) [.construct 0xFEE00320 8] = some w ∧
      (∀ win ∈ w.live, ∀ a ∈ win.addresses, pageOf 0xFFFF800000000000 ≠ pageOf a) ∧
      translation w.space.machine loaderRoot 0xFFFF800000000000 = some 0x3000 := by
  have hbefore : translation lowDirectMap loaderRoot 0xFFFF800000000000 = some 0x5000 := by
    decide +kernel
  have hreturns : (run (start lowDirectMap loaderRoot) [.construct 0xFEE00320 8]).map (fun w =>
      (w.live.map fun win => (win.interface.mappingBase, win.interface.mappedSize),
        translation w.space.machine loaderRoot 0xFFFF800000000000)) =
      some ([(firstMMIOVirt, 4096)], some 0x3000) := by
    decide +kernel
  refine ⟨lowDirectMap_wellFormed, fun v hlow hhigh => ?_, hbefore, ?_⟩
  · have hindex : (pml4Index v).val = v / 2 ^ 39 % 512 := tableIndex_val v 39
    unfold firstMMIOVirt at hlow
    exact loaderTables_translation (fun i => by simp [loaderRoot]) (by omega)
  · obtain ⟨w, hw, heq⟩ := Option.map_eq_some_iff.mp hreturns
    obtain ⟨hlive, hafter⟩ := Prod.mk.inj heq
    refine ⟨w, hw, fun win hwin a ha => ?_, hafter⟩
    have hwindow := List.mem_map_of_mem (f := fun win : Window =>
      (win.interface.mappingBase, win.interface.mappedSize)) hwin
    rw [hlive, List.mem_singleton, Prod.mk.injEq] at hwindow
    obtain ⟨hlow, hhigh⟩ := Set.mem_Ico.mp ha
    rw [hwindow.1] at hlow hhigh
    rw [hwindow.2] at hhigh
    unfold pageOf firstMMIOVirt at *
    omega

end Mmio

end Avery
