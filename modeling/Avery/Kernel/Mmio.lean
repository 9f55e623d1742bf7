import Avery.Kernel.PageRanges
import Avery.Library.Leases
import Mathlib.Order.CompletePartialOrder

/-!
# Memory-mapped registers

The windows of `mmio.cpp`.  An `Interface` maps the pages that hold a range of
physical addresses at the next free virtual addresses, and unmaps them when it is
destroyed; the virtual addresses are never handed out again.

The windows are leases on the pages of the address space: constructing an
interface takes a lease, and destroying it ends the lease.
-/

namespace Avery

namespace Mmio

open Vmm

/-- The first value of the static `nextMMIOVirt`. -/
def firstMMIOVirt : Nat := 0xFFFF900000000000

def flagPresent : Nat := 1 <<< 0
def flagWritable : Nat := 1 <<< 1
def flagCacheDisable : Nat := 1 <<< 4
def flagGlobal : Nat := 1 <<< 8

structure Interface where
  base : Nat
  mappingBase : Nat
  mappedSize : Nat

def Interface.address (interface : Interface) : Nat := interface.base

/-- The kernel's address space, with the static of `mmio.cpp`. -/
structure Space (A : Type) where
  machine : Machine A
  /-- `vmm::getKernelPml4()`. -/
  kernelPml4 : Nat
  nextMMIOVirt : Nat

variable {A : Type} [PageAllocator A]

/-- The constructor of `Interface`. -/
def construct (s : Space A) (physical size : Nat) : Option (Interface × Space A) := do
  let alignedPhys := alignDown physical pageSize
  let offset := sub64 physical alignedPhys
  let mappedSize := alignUp (add64 size offset) pageSize
  let mappingBase := s.nextMMIOVirt
  let nextMMIOVirt := add64 s.nextMMIOVirt mappedSize
  let flags := flagPresent ||| flagWritable ||| flagCacheDisable ||| flagGlobal
  let (ok, machine) ← mapRange s.machine s.kernelPml4 mappingBase alignedPhys mappedSize flags
  let s := { s with machine, nextMMIOVirt }
  if !ok then return (⟨0, 0, 0⟩, s)
  return (⟨add64 mappingBase offset, mappingBase, mappedSize⟩, s)

/-- The loop of the destructor, with the number of pages that are left. -/
def unmapLoop (m : Machine A) (pml4 mappingBase off : Nat) : Nat → Option (Machine A)
  | 0 => some m
  | n + 1 => do
      let (_, m) ← unmapPage m pml4 (add64 mappingBase off)
      unmapLoop m pml4 mappingBase (off + pageSize) n

/-- The destructor of `Interface`. -/
def destruct (s : Space A) (interface : Interface) : Option (Space A) := do
  if interface.mappingBase = 0 ∨ interface.mappedSize = 0 then return s
  let pages := (interface.mappedSize + (pageSize - 1)) / pageSize
  let machine ← unmapLoop s.machine s.kernelPml4 interface.mappingBase 0 pages
  return { s with machine }

/-! ## Runs -/

/-- An interface, with the arguments it was constructed with. -/
structure Window where
  physical : Nat
  size : Nat
  interface : Interface

/-- The virtual addresses that the window is mapped at. -/
def Window.addresses (win : Window) : Set Nat :=
  Set.Ico win.interface.mappingBase (win.interface.mappingBase + win.interface.mappedSize)

/-- The interfaces that are live, and those that were destroyed. -/
structure Windows (A : Type) where
  space : Space A
  live : List Window
  destroyed : List Window

inductive Call where
  | construct (physical size : Nat)
  /-- Destroy the live interface at an index. -/
  | destroy (i : Nat)

def exec (w : Windows A) : Call → Option (Windows A)
  | .construct physical size => do
      let (interface, space) ← construct w.space physical size
      return { w with space, live := ⟨physical, size, interface⟩ :: w.live }
  | .destroy i =>
      match w.live[i]? with
      | none => some w
      | some win => do
          let space ← destruct w.space win.interface
          return { space, live := w.live.eraseIdx i, destroyed := win :: w.destroyed }

def run (w : Windows A) : List Call → Option (Windows A)
  | [] => some w
  | c :: cs => do
      let w ← exec w c
      run w cs

/-- Before the first interface. -/
def start (machine : Machine A) (kernelPml4 : Nat) : Windows A :=
  { space := { machine, kernelPml4, nextMMIOVirt := firstMMIOVirt }, live := [], destroyed := [] }

/-- The pages that hold a range of physical addresses. -/
def pagesOf (physical size : Nat) : Nat := (physical % 4096 + size + 4095) / 4096

/-- The bytes that a call maps. -/
def Call.mappedSize : Call → Nat
  | .construct physical size => pagesOf physical size * 4096
  | .destroy _ => 0

/-- The physical addresses of a call are below `2 ^ 52`. -/
def Call.InRange : Call → Prop
  | .construct physical size => physical + size ≤ 2 ^ 52
  | .destroy _ => True

/-! ## Arithmetic of a window -/

theorem alignedPhys_eq {physical : Nat} (h : physical ≤ 2 ^ 52) :
    alignDown physical pageSize = physical / 4096 * 4096 :=
  alignDown_eq (k := 12) (by decide) (by omega)

theorem offset_eq {physical : Nat} (h : physical ≤ 2 ^ 52) :
    sub64 physical (physical / 4096 * 4096) = physical % 4096 := by
  have hsub : sub64 physical (physical / 4096 * 4096) = physical - physical / 4096 * 4096 :=
    Words.sub_eq (by omega) (by omega)
  omega

theorem mappedSize_eq {physical size : Nat} (h : physical + size ≤ 2 ^ 52) :
    alignUp (add64 size (physical % 4096)) pageSize = pagesOf physical size * 4096 := by
  have hsum : add64 size (physical % 4096) = size + physical % 4096 := Words.add_eq (by omega)
  have hup : alignUp (size + physical % 4096) pageSize =
      (size + physical % 4096 + 4095) / 4096 * 4096 := alignUp_eq (k := 12) (by decide) (by omega)
  rw [hsum, hup, pagesOf, Nat.add_comm size]

/-- The frames of a range end below `2 ^ 52` too. -/
theorem frames_inRange {physical size : Nat} (h : physical + size ≤ 2 ^ 52) :
    physical / 4096 * 4096 + pagesOf physical size * 4096 ≤ 2 ^ 52 := by
  rw [pagesOf]
  omega

/-- The flags of a window. -/
def windowFlags : Nat := flagPresent ||| flagWritable ||| flagCacheDisable ||| flagGlobal

/-- The constructor maps the pages that hold the range. -/
theorem construct_eq (s : Space A) {physical size : Nat} (hrange : physical + size ≤ 2 ^ 52) :
    Mmio.construct s physical size =
      (mapRange s.machine s.kernelPml4 s.nextMMIOVirt (physical / 4096 * 4096)
        (pagesOf physical size * 4096) windowFlags).map fun r =>
          (if r.1 then ⟨add64 s.nextMMIOVirt (physical % 4096), s.nextMMIOVirt,
              pagesOf physical size * 4096⟩ else ⟨0, 0, 0⟩,
            { s with
              machine := r.2, nextMMIOVirt := add64 s.nextMMIOVirt (pagesOf physical size * 4096) }) := by
  have hphysical : physical ≤ 2 ^ 52 := Nat.le_trans (Nat.le_add_right _ _) hrange
  simp only [Mmio.construct, alignedPhys_eq hphysical, offset_eq hphysical, mappedSize_eq hrange,
    windowFlags]
  cases mapRange s.machine s.kernelPml4 s.nextMMIOVirt (physical / 4096 * 4096)
    (pagesOf physical size * 4096)
    (flagPresent ||| flagWritable ||| flagCacheDisable ||| flagGlobal) with
  | none => rfl
  | some r =>
      obtain ⟨ok, machine⟩ := r
      cases ok <;> rfl

/-- The destructor of a mapped interface unmaps its pages. -/
theorem destruct_eq (s : Space A) {interface : Interface} {n : Nat}
    (hbase : interface.mappingBase ≠ 0) (hsize : interface.mappedSize = n * 4096) :
    destruct s interface =
      (unmapLoop s.machine s.kernelPml4 interface.mappingBase 0 n).map fun machine =>
        { s with machine } := by
  have hpages : (interface.mappedSize + (pageSize - 1)) / pageSize = n := by
    rw [hsize]
    exact pages_of_bytes n
  cases n with
  | zero => simp [destruct, hsize, unmapLoop]
  | succ n =>
      have hne : ¬ (interface.mappingBase = 0 ∨ interface.mappedSize = 0) := by omega
      simp only [destruct, if_neg hne, hpages]
      cases unmapLoop s.machine s.kernelPml4 interface.mappingBase 0 (n + 1) <;> rfl

/-! ## Windows are leases -/

/-- The first page of the windows. -/
def firstPage : Nat := pageOf firstMMIOVirt

/-- The pages of the virtual addresses that are handed out. -/
def pageLimit : Nat := 2 ^ 44 / 4096

/-- The lease of a window: its pages, and the frame of each. -/
def Window.lease (win : Window) : Leases.Lease Nat where
  first := pageOf win.interface.mappingBase
  count := pagesOf win.physical win.size
  value i := win.physical / 4096 * 4096 + i * 4096

/-- The interface of a window that starts `used` pages after the first. -/
structure Window.Shaped (win : Window) (used : Nat) : Prop where
  mappingBase : win.interface.mappingBase = firstMMIOVirt + used * 4096
  mappedSize : win.interface.mappedSize = pagesOf win.physical win.size * 4096
  base : win.interface.base = win.interface.mappingBase + win.physical % 4096
  inRange : win.physical + win.size ≤ 2 ^ 52
  limit : used + pagesOf win.physical win.size ≤ pageLimit

theorem zone_of_lt {used n j : Nat} (h : used + n ≤ pageLimit) (hj : j < n) :
    firstPage ≤ firstPage + used + j ∧ firstPage + used + j < firstPage + pageLimit := by
  omega

theorem pageOf_window {used k : Nat} (h : used * 4096 + k < 2 ^ 44) :
    pageOf (firstMMIOVirt + used * 4096 + k) = firstPage + used + k / 4096 := by
  unfold firstPage pageOf firstMMIOVirt
  omega

theorem pageOf_mappingBase {used : Nat} (h : used * 4096 ≤ 2 ^ 44) :
    pageOf (firstMMIOVirt + used * 4096) = firstPage + used := by
  unfold firstPage pageOf firstMMIOVirt
  omega

/-- The address of a window at an offset lies in the page of the lease that holds
the offset. -/
theorem Window.Shaped.pageOf_add {win : Window} {used k : Nat} (h : win.Shaped used)
    (hk : k < win.interface.mappedSize) :
    pageOf (win.interface.mappingBase + k) = win.lease.first + k / 4096 ∧
      k / 4096 < win.lease.count := by
  have hlimit := h.limit
  have hbase : used * 4096 + k < 2 ^ 44 := by
    rw [h.mappedSize] at hk
    unfold pageLimit at hlimit
    omega
  have hfirst : pageOf win.interface.mappingBase = firstPage + used := by
    rw [h.mappingBase]
    exact pageOf_mappingBase (Nat.le_trans (Nat.le_add_right _ k) (Nat.le_of_lt hbase))
  refine ⟨?_, ?_⟩
  · rw [Window.lease, hfirst, h.mappingBase]
    exact pageOf_window hbase
  · rw [h.mappedSize] at hk
    exact Nat.div_lt_of_lt_mul (by rwa [Nat.mul_comm] at hk)

/-- A page of the lease is the page of an address of the window. -/
theorem Window.Shaped.address_of_has {win : Window} {used p : Nat} (h : win.Shaped used)
    (hp : win.lease.Has p) : ∃ a ∈ win.addresses, pageOf a = p := by
  obtain ⟨hlow, hhigh⟩ := hp
  have hk : (p - win.lease.first) * 4096 < win.interface.mappedSize := by
    rw [h.mappedSize]
    have hcount : win.lease.count = pagesOf win.physical win.size := rfl
    omega
  refine ⟨win.interface.mappingBase + (p - win.lease.first) * 4096, ?_, ?_⟩
  · exact Set.mem_Ico.mpr ⟨Nat.le_add_right _ _, Nat.add_lt_add_left hk _⟩
  · rw [(h.pageOf_add hk).1]
    omega

/-- The page of an address of the window is a page of the lease. -/
theorem Window.Shaped.has_of_address {win : Window} {used a : Nat} (h : win.Shaped used)
    (ha : a ∈ win.addresses) : win.lease.Has (pageOf a) := by
  obtain ⟨hlow, hhigh⟩ := Set.mem_Ico.mp ha
  have hk : a - win.interface.mappingBase < win.interface.mappedSize := by omega
  have hpage := h.pageOf_add hk
  rw [Nat.add_sub_cancel' hlow] at hpage
  rw [hpage.1]
  exact ⟨Nat.le_add_right _ _, Nat.add_lt_add_left hpage.2 _⟩

/-! ## The invariant -/

variable [LawfulPageAllocator A]

/-- The live and the destroyed windows are the leases taken on the page tables,
over the translations `f₀` before the first window. -/
structure Leased (f₀ : Nat → Option Nat) (w : Windows A) (used : Nat) : Prop where
  next : w.space.nextMMIOVirt = firstMMIOVirt + used * 4096
  shaped : ∀ win ∈ w.live ++ w.destroyed, ∃ u, win.Shaped u
  leases : ∃ pm, Refines w.space.machine w.space.kernelPml4 pm ∧
    Leases.Holds f₀ firstPage
      ⟨firstPage + used, w.live.map Window.lease, w.destroyed.map Window.lease, fun p => pm.lookup p⟩

/-- The page tables before the first window. -/
theorem leased_start {m : Machine A} {pml4 : Nat} {pm : PageMap} (h : Refines m pml4 pm) :
    Leased (fun p => pm.lookup p) (start m pml4) 0 :=
  ⟨rfl, fun _ hwin => by simp [start] at hwin, pm, h, Leases.holds_start⟩

/-- The next address stays in the half of the address space it starts in. -/
theorem window_fits {used n : Nat} (h : used + n ≤ pageLimit) :
    used * 4096 ≤ 2 ^ 44 ∧ n * 4096 ≤ 2 ^ 44 ∧ firstMMIOVirt + used * 4096 + n * 4096 < 2 ^ 64 ∧
      (firstMMIOVirt + used * 4096) % 4096 = 0 ∧
      (firstMMIOVirt + used * 4096) % 2 ^ 48 + n * 4096 ≤ 2 ^ 48 := by
  unfold pageLimit at h
  unfold firstMMIOVirt
  omega

/-- Constructing an interface takes a lease, or a request for a table fails. -/
theorem Leased.construct {f₀ : Nat → Option Nat} {w : Windows A} {used physical size : Nat}
    (h : Leased f₀ w used) (hrange : physical + size ≤ 2 ^ 52)
    (hlimit : used + pagesOf physical size ≤ pageLimit)
    (hempty : ∀ p, firstPage ≤ p → p < firstPage + pageLimit → f₀ p = none) :
    exec w (.construct physical size) = none ∧
      (∃ k < 3 * pagesOf physical size, OutOfPagesAfter w.space.machine.pages k) ∨
    ∃ w', exec w (.construct physical size) = some w' ∧
      Leased f₀ w' (used + pagesOf physical size) ∧
      w'.space.kernelPml4 = w.space.kernelPml4 ∧
      ∃ k ≤ 3 * pagesOf physical size,
        w'.space.machine.pages = afterRequests w.space.machine.pages k := by
  obtain ⟨pm, hrefines, hholds⟩ := h.leases
  obtain ⟨hused, hn, h64, haligned, hmod⟩ := window_fits hlimit
  rw [← h.next] at h64 haligned hmod
  have hfirst : pageOf w.space.nextMMIOVirt = firstPage + used := by
    rw [h.next]
    exact pageOf_mappingBase hused
  have habsent : ∀ j < pagesOf physical size, pageOf w.space.nextMMIOVirt + j ∉ pm := by
    intro j hj
    have hlookup := hholds.beyond (p := firstPage + used + j) (Nat.le_add_right _ _)
    have hzone := zone_of_lt hlimit hj
    rw [hempty _ hzone.1 hzone.2] at hlookup
    rw [hfirst]
    exact Finmap.lookup_eq_none.mp hlookup
  have hadd : add64 w.space.nextMMIOVirt (pagesOf physical size * 4096) =
      firstMMIOVirt + (used + pagesOf physical size) * 4096 := by
    rw [Nat.add_mul, ← Nat.add_assoc, ← h.next]
    exact Words.add_eq h64
  have heqn := construct_eq w.space hrange
  rcases hrefines.mapRange haligned (Nat.mul_mod_left _ _) (by decide : windowFlags &&& pteAddrMask = 0)
    (Nat.lt_of_le_of_lt (Nat.le_add_right _ _) h64) hmod (frames_inRange hrange) habsent with
    ⟨hnone, hz⟩ | ⟨m', pm', hsome, h', hpages, hlookup⟩
  · rw [hnone] at heqn
    exact Or.inl ⟨by rw [exec, heqn]; rfl, hz⟩
  rw [hsome] at heqn
  have hbase : add64 w.space.nextMMIOVirt (physical % 4096) =
      w.space.nextMMIOVirt + physical % 4096 := Words.add_eq (by rw [h.next]; unfold firstMMIOVirt; omega)
  have hexec : exec w (.construct physical size) = some
      { space := ⟨m', w.space.kernelPml4,
          add64 w.space.nextMMIOVirt (pagesOf physical size * 4096)⟩
        live := ⟨physical, size, ⟨add64 w.space.nextMMIOVirt (physical % 4096), w.space.nextMMIOVirt,
          pagesOf physical size * 4096⟩⟩ :: w.live
        destroyed := w.destroyed } := by
    rw [exec, heqn]
    rfl
  refine Or.inr ⟨_, hexec, ⟨hadd, ?_, pm', h', ?_⟩, rfl, hpages⟩
  · intro win hwin
    cases hwin with
    | head => exact ⟨used, h.next, rfl, hbase, hrange, hlimit⟩
    | tail _ hwin => exact h.shaped win hwin
  · have htake := hholds.take (pagesOf physical size) fun i => physical / 4096 * 4096 + i * 4096
    have hmap : (fun p => pm'.lookup p) = fun p =>
        if firstPage + used ≤ p ∧ p < firstPage + used + pagesOf physical size then
          some (physical / 4096 * 4096 + (p - (firstPage + used)) * 4096) else pm.lookup p := by
      funext p
      rw [hlookup, hfirst]
    rw [hmap, List.map_cons, Window.lease, hfirst, ← Nat.add_assoc]
    exact htake

/-- Unmapping the page at an offset of `i` pages clears it. -/
theorem unmapPage_offset {m : Machine A} {pml4 : Nat} {pm : PageMap} {virt i : Nat}
    (h : Refines m pml4 pm) (hvirt : virt % 4096 = 0) (h64 : virt + i * 4096 < 2 ^ 64)
    (hv : virt % 2 ^ 48 + i * 4096 < 2 ^ 48) :
    ∃ ok m' pm', unmapPage m pml4 (add64 virt (i * 4096)) = some (ok, m') ∧ Refines m' pml4 pm' ∧
      m'.pages = m.pages ∧
      ∀ p, pm'.lookup p = if p = pageOf virt + i then none else pm.lookup p := by
  have hadd : add64 virt (i * 4096) = virt + i * 4096 := Words.add_eq h64
  have hpage : pageOf (virt + i * 4096) = pageOf virt + i := Vmm.pageOf_add hv
  have haligned : (virt + i * 4096) % pageSize = 0 := by
    rw [pageSize, Nat.add_mul_mod_self_right, hvirt]
  obtain ⟨m', heq, h', hpages⟩ := h.unmapPage (virt + i * 4096)
  rw [hadd]
  refine ⟨_, m', _, heq, h', hpages, fun p => ?_⟩
  by_cases hp : p = pageOf virt + i
  · rw [if_pos hp, hp, ← hpage, PageMap.unmapPage]
    by_cases hmem : pageOf (virt + i * 4096) ∈ pm
    · rw [if_pos ⟨haligned, hmem⟩, Finmap.lookup_erase]
    · rw [if_neg fun hc => hmem hc.2]
      exact Finmap.lookup_eq_none.mpr hmem
  · rw [if_neg hp]
    exact PageMap.lookup_unmapPage_other _ (by rwa [hpage])

/-- The loop of the destructor clears its pages. -/
theorem unmapLoop_spec {pml4 virt n : Nat} (hvirt : virt % 4096 = 0) :
    ∀ {i : Nat} {m : Machine A} {pm : PageMap}, Refines m pml4 pm →
      virt + (i + n) * 4096 < 2 ^ 64 → virt % 2 ^ 48 + (i + n) * 4096 ≤ 2 ^ 48 →
      ∃ m' pm', unmapLoop m pml4 virt (i * 4096) n = some m' ∧ Refines m' pml4 pm' ∧
        m'.pages = m.pages ∧
        ∀ p, pm'.lookup p = if pageOf virt + i ≤ p ∧ p < pageOf virt + (i + n) then none
          else pm.lookup p := by
  induction n with
  | zero =>
      intro i m pm h _ _
      refine ⟨m, pm, rfl, h, rfl, fun p => ?_⟩
      rw [if_neg (by omega)]
  | succ n ih =>
      intro i m pm h h64 hv
      have hnext : i + (n + 1) = i + 1 + n := by omega
      have hlt : i * 4096 < (i + (n + 1)) * 4096 := by omega
      have hi64 := Nat.lt_trans (Nat.add_lt_add_left hlt virt) h64
      have hi48 := Nat.lt_of_lt_of_le (Nat.add_lt_add_left hlt (virt % 2 ^ 48)) hv
      obtain ⟨ok, m₁, pm₁, heq, h₁, hpages, hlookup⟩ := unmapPage_offset h hvirt hi64 hi48
      obtain ⟨m', pm', heq', h', hpages', hlookup'⟩ := ih h₁ (hnext ▸ h64) (hnext ▸ hv)
      have hoff : i * 4096 + pageSize = (i + 1) * 4096 := by
        rw [pageSize, Nat.succ_mul]
      refine ⟨m', pm', ?_, h', hpages'.trans hpages, fun p => ?_⟩
      · rw [unmapLoop, heq, ← heq', ← hoff]
        rfl
      · rw [hlookup', hlookup]
        by_cases hp : p = pageOf virt + i
        · rw [if_pos hp, ite_self, if_pos (by omega)]
        · rw [if_neg hp]
          exact if_congr (by omega) rfl rfl

/-- Destroying an interface ends its lease. -/
theorem Leased.destroy {f₀ : Nat → Option Nat} {w : Windows A} {used : Nat}
    (h : Leased f₀ w used) (hused : used ≤ pageLimit)
    (hempty : ∀ p, firstPage ≤ p → p < firstPage + pageLimit → f₀ p = none) (i : Nat) :
    ∃ w', exec w (.destroy i) = some w' ∧ Leased f₀ w' used ∧
      w'.space.kernelPml4 = w.space.kernelPml4 ∧
      w'.space.machine.pages = w.space.machine.pages := by
  cases hwin : w.live[i]? with
  | none => exact ⟨w, by rw [exec, hwin], h, rfl, rfl⟩
  | some win =>
      obtain ⟨pm, hrefines, hholds⟩ := h.leases
      have hmem : win ∈ w.live := List.mem_of_getElem? hwin
      obtain ⟨u, hshaped⟩ := h.shaped win (List.mem_append_left _ hmem)
      obtain ⟨hu, hn, h64, haligned, hmod⟩ := window_fits hshaped.limit
      rw [← hshaped.mappingBase] at h64 haligned hmod
      have hlease : (w.live.map Window.lease)[i]? = some win.lease := by
        rw [List.getElem?_map, hwin]
        rfl
      have hzone : ∀ p, firstPage ≤ p → p < firstPage + used → f₀ p = none :=
        fun p hlow hhigh => hempty p hlow (Nat.lt_of_lt_of_le hhigh (Nat.add_le_add_left hused _))
      have hrelease := hholds.release hzone hlease
      rw [← Nat.zero_add (pagesOf win.physical win.size)] at h64 hmod
      obtain ⟨m', pm', heq, h', hpages, hlookup⟩ := unmapLoop_spec haligned hrefines h64 hmod
      rw [Nat.zero_add, Nat.add_zero] at hlookup
      have hbase : win.interface.mappingBase ≠ 0 := by
        rw [hshaped.mappingBase, firstMMIOVirt]
        omega
      have hexec : exec w (.destroy i) = some
          { space := { w.space with machine := m' }
            live := w.live.eraseIdx i
            destroyed := win :: w.destroyed } := by
        rw [Nat.zero_mul] at heq
        simp only [exec, hwin, destruct_eq w.space hbase hshaped.mappedSize, heq]
        rfl
      refine ⟨_, hexec, ⟨h.next, fun win' hwin' => ?_, pm', h', ?_⟩, rfl, hpages⟩
      · apply h.shaped
        rcases List.mem_append.mp hwin' with hlive | hdestroyed
        · exact List.mem_append_left _ (List.mem_of_mem_eraseIdx hlive)
        · cases hdestroyed with
          | head => exact List.mem_append_left _ hmem
          | tail _ hdestroyed => exact List.mem_append_right _ hdestroyed
      · have hmap : (fun p => pm'.lookup p) = fun p =>
            if win.lease.Has p then none else pm.lookup p := by
          funext p
          rw [hlookup]
          rfl
        rw [hmap, ← List.eraseIdx_map, List.map_cons]
        exact hrelease

/-! ## Runs -/

/-- The pages that a sequence of calls maps. -/
def totalPages : List Call → Nat
  | [] => 0
  | .construct physical size :: cs => pagesOf physical size + totalPages cs
  | .destroy _ :: cs => totalPages cs

/-- A run keeps the windows and the leases together, unless a request for a table
fails. -/
theorem Leased.run {f₀ : Nat → Option Nat}
    (hempty : ∀ p, firstPage ≤ p → p < firstPage + pageLimit → f₀ p = none) {calls : List Call} :
    ∀ {w : Windows A} {used : Nat}, Leased f₀ w used → (∀ c ∈ calls, c.InRange) →
      used + totalPages calls ≤ pageLimit →
      run w calls = none ∧ (∃ k < 3 * totalPages calls, OutOfPagesAfter w.space.machine.pages k) ∨
      ∃ w', run w calls = some w' ∧ Leased f₀ w' (used + totalPages calls) ∧
        w'.space.kernelPml4 = w.space.kernelPml4 := by
  induction calls with
  | nil => exact fun h _ _ => Or.inr ⟨_, rfl, h, rfl⟩
  | cons c cs ih =>
      intro w used h hrange hlimit
      have hcs : ∀ c' ∈ cs, c'.InRange := fun c' hc' => hrange c' (List.mem_cons_of_mem _ hc')
      cases c with
      | construct physical size =>
          have hc : physical + size ≤ 2 ^ 52 := hrange _ List.mem_cons_self
          rw [totalPages] at hlimit ⊢
          rcases h.construct hc (by omega) hempty with
            ⟨hnone, k, hk, hz⟩ | ⟨w₁, heq, h₁, hpml4, k, hk, hpages⟩
          · exact Or.inl ⟨by rw [Mmio.run, hnone]; rfl, k, by omega, hz⟩
          rcases ih h₁ hcs (by omega) with ⟨hnone, k', hk', hz⟩ | ⟨w', heq', h', hpml4'⟩
          · refine Or.inl ⟨by rw [Mmio.run, heq]; exact hnone, k + k', by omega, ?_⟩
            rw [OutOfPagesAfter, ← afterRequests_add, ← hpages]
            exact hz
          · refine Or.inr ⟨w', by rw [Mmio.run, heq]; exact heq', ?_, hpml4'.trans hpml4⟩
            rw [← Nat.add_assoc]
            exact h'
      | destroy i =>
          rw [totalPages] at hlimit ⊢
          obtain ⟨w₁, heq, h₁, hpml4, hpages⟩ := h.destroy (by omega) hempty i
          rw [Mmio.run, heq, ← hpages, ← hpml4]
          exact ih h₁ hcs hlimit

theorem totalPages_eq (calls : List Call) :
    (calls.map Call.mappedSize).sum = totalPages calls * 4096 := by
  induction calls with
  | nil => rfl
  | cons c cs ih =>
      rw [List.map_cons, List.sum_cons, ih]
      cases c with
      | construct physical size => rw [Call.mappedSize, totalPages, Nat.add_mul]
      | destroy i => rw [Call.mappedSize, totalPages, Nat.zero_add]

section

variable {m : Machine A} {pml4 : Nat} {pm pm₀ : PageMap} {w : Windows A} {used : Nat}

/-- Two windows whose leases are apart share no address. -/
theorem disjoint_addresses {a b : Window} {u v : Nat} (ha : a.Shaped u) (hb : b.Shaped v)
    (h : a.lease.Apart b.lease) : Disjoint a.addresses b.addresses := by
  rw [Set.disjoint_left]
  intro x hxa hxb
  exact h (pageOf x) (ha.has_of_address hxa) (hb.has_of_address hxb)

theorem Window.Shaped.zone {win : Window} {u a : Nat} (h : win.Shaped u)
    (ha : a ∈ win.addresses) : firstMMIOVirt ≤ a ∧ a < firstMMIOVirt + 2 ^ 44 := by
  obtain ⟨hlow, hhigh⟩ := Set.mem_Ico.mp ha
  have hlimit := h.limit
  rw [h.mappingBase] at hlow hhigh
  rw [h.mappedSize] at hhigh
  unfold pageLimit at hlimit
  omega

/-- An address of a live window translates to the byte of its frames at the same
offset. -/
theorem Window.Shaped.translation {win : Window} {u k : Nat} (h : win.Shaped u)
    (hrefines : Refines m pml4 pm)
    (hfilled : ∀ i < win.lease.count, pm.lookup (win.lease.first + i) = some (win.lease.value i))
    (hk : k < win.interface.mappedSize) :
    Vmm.translation m pml4 (win.interface.mappingBase + k) =
      some (win.physical / 4096 * 4096 + k) := by
  obtain ⟨hpage, hcount⟩ := h.pageOf_add hk
  have haligned : win.interface.mappingBase % 4096 = 0 := by
    rw [h.mappingBase]
    exact (window_fits h.limit).2.2.2.1
  have hoffset : (win.interface.mappingBase + k) % pageSize = k % 4096 := by
    rw [pageSize, Nat.add_mod, haligned, Nat.zero_add, Nat.mod_mod]
  rw [hrefines.translation, hpage, hfilled _ hcount, hoffset, Window.lease]
  have hk : k / 4096 * 4096 + k % 4096 = k := by omega
  simp only [Option.map_some, Nat.add_assoc, hk]

/-- The offset of the address of a window. -/
theorem Window.Shaped.address {win : Window} {u k : Nat} (h : win.Shaped u) (hk : k < win.size) :
    win.physical % 4096 + k < win.interface.mappedSize ∧
      add64 win.interface.address k = win.interface.mappingBase + (win.physical % 4096 + k) := by
  have hlt : win.physical % 4096 + k < win.interface.mappedSize := by
    rw [h.mappedSize, pagesOf]
    omega
  have hfits := (window_fits h.limit).2.2.1
  rw [← h.mappingBase, ← h.mappedSize] at hfits
  refine ⟨hlt, ?_⟩
  rw [Interface.address, h.base, ← Nat.add_assoc]
  exact Words.add_eq (by omega)

/-- An address that shares its page with no live window translates as it did
before the first window. -/
theorem Leased.translation_other (h : Leased (fun p => pm₀.lookup p) w used)
    (h₀ : Refines m pml4 pm₀) {v : Nat}
    (hv : ∀ win ∈ w.live, ∀ a ∈ win.addresses, pageOf v ≠ pageOf a) :
    Vmm.translation w.space.machine w.space.kernelPml4 v = Vmm.translation m pml4 v := by
  obtain ⟨pm, hrefines, hholds⟩ := h.leases
  have hother := hholds.other (pageOf v) fun l hl hhas => by
    obtain ⟨win, hwin, rfl⟩ := List.mem_map.mp hl
    obtain ⟨u, hshaped⟩ := h.shaped win (List.mem_append_left _ hwin)
    obtain ⟨a, ha, hpage⟩ := hshaped.address_of_has hhas
    exact hv win hwin a ha hpage.symm
  rw [hrefines.translation, h₀.translation]
  exact congrArg _ hother

/-- An address of a destroyed window has no translation. -/
theorem Leased.translation_destroyed (h : Leased (fun p => pm₀.lookup p) w used)
    (hused : used ≤ pageLimit)
    (hempty : ∀ p, firstPage ≤ p → p < firstPage + pageLimit → pm₀.lookup p = none)
    {win : Window} (hwin : win ∈ w.destroyed) {v : Nat} (hv : v ∈ win.addresses) :
    Vmm.translation w.space.machine w.space.kernelPml4 v = none := by
  obtain ⟨pm, hrefines, hholds⟩ := h.leases
  obtain ⟨u, hshaped⟩ := h.shaped win (List.mem_append_right _ hwin)
  have hhas := hshaped.has_of_address hv
  have hcleared := hholds.cleared (List.mem_map_of_mem hwin) hhas
  have hinside := hholds.inside _ (List.mem_append_right _ (List.mem_map_of_mem hwin))
  have hzone : pageOf v < firstPage + pageLimit :=
    Nat.lt_of_lt_of_le hhas.2 (Nat.le_trans hinside.2 (Nat.add_le_add_left hused _))
  have hnone : pm.lookup (pageOf v) = none :=
    hcleared.trans (hempty _ (Nat.le_trans hinside.1 hhas.1) hzone)
  rw [hrefines.translation, hnone]
  rfl

/-- No page of the windows is in the map before the first window. -/
theorem zone_empty (h : Refines m pml4 pm₀)
    (hfree : ∀ v, firstMMIOVirt ≤ v → v < firstMMIOVirt + 2 ^ 44 →
      Vmm.translation m pml4 v = none) :
    ∀ p, firstPage ≤ p → p < firstPage + pageLimit → pm₀.lookup p = none := by
  intro p hlow hhigh
  obtain ⟨i, rfl⟩ := Nat.exists_eq_add_of_le hlow
  have hi : i < pageLimit := Nat.lt_of_add_lt_add_left hhigh
  have hbytes : i * 4096 < 2 ^ 44 := by
    unfold pageLimit at hi
    omega
  have hnone := hfree (firstMMIOVirt + i * 4096) (Nat.le_add_right _ _)
    (Nat.add_lt_add_left hbytes _)
  rw [h.translation, pageOf_mappingBase (Nat.le_of_lt hbytes), Option.map_eq_none_iff] at hnone
  exact hnone

end

/-- What holds after a sequence of calls on the page tables of `m`. -/
structure Windows.Sound (m : Machine A) (pml4 : Nat) (w : Windows A) : Prop where
  /-- The windows lie in the `2 ^ 44` bytes from the first one on. -/
  zone : ∀ win ∈ w.live ++ w.destroyed, ∀ a ∈ win.addresses,
    firstMMIOVirt ≤ a ∧ a < firstMMIOVirt + 2 ^ 44
  /-- The windows of live interfaces are pairwise disjoint. -/
  apart : w.live.Pairwise fun a b => Disjoint a.addresses b.addresses
  /-- An interface translates to the physical range it was constructed for. -/
  mapped : ∀ win ∈ w.live, ∀ k < win.size,
    add64 win.interface.address k ∈ win.addresses ∧
    virtToPhysical w.space.machine pml4 (add64 win.interface.address k) =
      some (win.physical + k, w.space.machine)
  /-- A whole window translates to the frames that hold the range. -/
  frames : ∀ win ∈ w.live, ∀ k < win.interface.mappedSize,
    translation w.space.machine pml4 (win.interface.mappingBase + k) =
      some (win.physical / 4096 * 4096 + k)
  /-- No page of a destroyed interface is mapped. -/
  unmapped : ∀ win ∈ w.destroyed, ∀ v ∈ win.addresses, translation w.space.machine pml4 v = none
  /-- Every page outside the live windows translates as before. -/
  others : ∀ v, (∀ win ∈ w.live, ∀ a ∈ win.addresses, pageOf v ≠ pageOf a) →
    translation w.space.machine pml4 v = translation m pml4 v

/-- A sequence of calls on well-formed page tables, with nothing mapped in the `2 ^ 44`
bytes from `nextMMIOVirt` on, where the kernel's heap begins. -/
theorem windows_of_wellFormed {m : Machine A} {pml4 : Nat} (hwf : WellFormed m pml4)
    (hfree : ∀ v, firstMMIOVirt ≤ v → v < firstMMIOVirt + 2 ^ 44 → translation m pml4 v = none)
    {calls : List Call} (hrange : ∀ c ∈ calls, c.InRange)
    (htotal : (calls.map Call.mappedSize).sum < 2 ^ 44) :
    (run (start m pml4) calls = none → ∃ k < 3 * totalPages calls, OutOfPagesAfter m.pages k) ∧
    ∀ w, run (start m pml4) calls = some w → w.Sound m pml4 := by
  obtain ⟨pm₀, h₀⟩ := hwf.refines
  have hempty := zone_empty h₀ hfree
  have hlimit : 0 + totalPages calls ≤ pageLimit := by
    rw [totalPages_eq] at htotal
    rw [pageLimit]
    omega
  rcases (leased_start h₀).run hempty hrange hlimit with ⟨hnone, hz⟩ | ⟨w, heq, h, hpml4⟩
  · refine ⟨fun _ => hz, fun w hw => ?_⟩
    rw [hnone] at hw
    cases hw
  refine ⟨fun hnone => absurd (heq.symm.trans hnone) (Option.some_ne_none _), fun w' hw' => ?_⟩
  obtain rfl := Option.some.inj (heq.symm.trans hw')
  have hstart : w.space.kernelPml4 = pml4 := hpml4
  obtain ⟨pm, hrefines, hholds⟩ := h.leases
  have hwindow : ∀ win ∈ w.live, ∃ u, win.Shaped u := fun win hwin =>
    h.shaped win (List.mem_append_left _ hwin)
  have htranslation : ∀ win ∈ w.live, ∀ k < win.interface.mappedSize,
      translation w.space.machine pml4 (win.interface.mappingBase + k) =
        some (win.physical / 4096 * 4096 + k) := by
    intro win hwin k hk
    obtain ⟨u, hshaped⟩ := hwindow win hwin
    rw [← hstart]
    exact hshaped.translation hrefines (hholds.filled _ (List.mem_map_of_mem hwin)) hk
  refine ⟨fun win hwin a ha => ?_, ?_, fun win hwin k hk => ?_, htranslation,
    fun win hwin v hv => ?_, fun v hv => ?_⟩
  · obtain ⟨u, hshaped⟩ := h.shaped win hwin
    exact hshaped.zone ha
  · have hapart := List.pairwise_map.mp (List.pairwise_append.mp hholds.apart).1
    refine hapart.imp_of_mem fun {a b} ha hb hab => ?_
    obtain ⟨u, hu⟩ := hwindow a ha
    obtain ⟨v, hv⟩ := hwindow b hb
    exact disjoint_addresses hu hv hab
  · obtain ⟨u, hshaped⟩ := hwindow win hwin
    obtain ⟨hlt, haddress⟩ := hshaped.address hk
    have hphysical : win.physical / 4096 * 4096 + (win.physical % 4096 + k) = win.physical + k := by
      omega
    rw [haddress]
    refine ⟨Set.mem_Ico.mpr ⟨Nat.le_add_right _ _, Nat.add_lt_add_left hlt _⟩, ?_⟩
    rw [virtToPhysical_translation, htranslation win hwin _ hlt, hphysical]
    rfl
  · rw [← hstart]
    exact h.translation_destroyed hlimit hempty hwin hv
  · have hother := h.translation_other h₀ hv
    rwa [hstart] at hother

end Mmio

end Avery
