import Avery.Kernel.HeapShortage

/-!
# What the payloads hold

The trace records every store to a header, and the heap stores nothing else, but
for the copy in `realloc`.  So a byte that no recorded store covers keeps its
value (`Traced`).  Since no header is written inside a live payload, every call
keeps the bytes of the payloads that are live throughout (`Traced.keeps`), and
`realloc` moves those of one of them.
-/

namespace Avery.Heap

open Transition KernelSpace

section

variable {E : Type} {h h' h₁ h₂ : KernelHeap E} {bs : List Block} {p : Nat × Nat}

/-! ## Stores and the trace -/

/-- Nothing has been freed since `h`, and the bytes that have changed since were
covered by the header writes that the trace records. -/
def Traced (h h' : KernelHeap E) : Prop :=
  ∃ ws, h'.trace = ws ++ h.trace ∧ (∀ ptr, .freed ptr ∉ ws) ∧
    ∀ x, (∀ addr len, .headerWrite addr len ∈ ws → x < addr ∨ addr + len ≤ x) →
      h'.mem x = h.mem x

namespace Traced

theorem of_eq (hmem : h'.mem = h.mem) (htrace : h'.trace = h.trace) : Traced h h' :=
  ⟨[], htrace, fun _ => List.not_mem_nil, fun x _ => by rw [hmem]⟩

theorem refl (h : KernelHeap E) : Traced h h := of_eq rfl rfl

theorem trans (t₁ : Traced h h₁) (t₂ : Traced h₁ h₂) : Traced h h₂ := by
  obtain ⟨ws₁, htrace₁, hfreed₁, hbytes₁⟩ := t₁
  obtain ⟨ws₂, htrace₂, hfreed₂, hbytes₂⟩ := t₂
  refine ⟨ws₂ ++ ws₁, by rw [htrace₂, htrace₁, List.append_assoc], fun ptr hmem => ?_,
    fun x hx => ?_⟩
  · exact (List.mem_append.mp hmem).elim (hfreed₂ ptr) (hfreed₁ ptr)
  · rw [hbytes₂ x fun a l hw => hx a l (List.mem_append_left _ hw),
      hbytes₁ x fun a l hw => hx a l (List.mem_append_right _ hw)]

theorem store (h : KernelHeap E) (addr len v : Nat) : Traced h (store h addr len v) := by
  refine ⟨[.headerWrite addr len], rfl, fun ptr hmem => ?_, fun x hx => ?_⟩
  · cases List.mem_singleton.mp hmem
  · rcases hx addr len (List.mem_singleton_self _) with hlt | hge
    · exact ByteMemory.writeLE_of_lt hlt
    · exact ByteMemory.writeLE_of_ge hge

theorem allocated (h : KernelHeap E) (usedMemory freeMemory ptr k : Nat) :
    Traced h { h with usedMemory, freeMemory, trace := .allocated ptr k :: h.trace } := by
  refine ⟨[.allocated ptr k], rfl, fun ptr hmem => ?_, fun x _ => rfl⟩
  cases List.mem_singleton.mp hmem

theorem splitBlock (h : KernelHeap E) (a n : Nat) : Traced h (splitBlock h a n) := by
  by_cases hsmall : sub64 (size h a) n ≤ headerSize + 16
  · rw [splitBlock_small hsmall]
    exact .refl h
  have hfill : Traced h (fillSplit h a (a + headerSize + n) (sub64 (size h a) n)) :=
    (store _ _ _ _).trans <| (store _ _ _ _).trans <| (store _ _ _ _).trans <|
      (store _ _ _ _).trans (store _ _ _ _)
  rw [splitBlock_eq hsmall]
  refine hfill.trans (Traced.trans ?_ ((store _ _ _ _).trans (store _ _ _ _)))
  split
  · exact store _ _ _ _
  · exact .refl _

theorem mergeWithNext (h : KernelHeap E) (a : Nat) : Traced h (mergeWithNext h a) := by
  unfold Heap.mergeWithNext
  simp only
  split
  · exact .refl h
  · split
    · exact ((store _ _ _ _).trans (store _ _ _ _)).trans (store _ _ _ _)
    · exact (store _ _ _ _).trans (store _ _ _ _)

theorem mergeIf (h : KernelHeap E) (P : Prop) [Decidable P] (a : Nat) :
    Traced h (if P then Heap.mergeWithNext h a else h) := by
  split
  · exact .mergeWithNext h a
  · exact .refl h

theorem takeBlock (h : KernelHeap E) (a n : Nat) : Traced h (takeBlock h a n).2 :=
  ((splitBlock h a n).trans (store _ _ _ _)).trans (allocated _ _ _ _ _)

section

variable [KernelPages E]

theorem appendBlock {n : Nat} (happ : appendBlock h n = some h₁) : Traced h h₁ := by
  have hfill : Traced h (fillAppend h h.heapEnd n) :=
    (store _ _ _ _).trans <| (store _ _ _ _).trans <| (store _ _ _ _).trans <|
      (store _ _ _ _).trans (store _ _ _ _)
  rw [appendBlock_eq] at happ
  split at happ
  · cases happ
  split at happ
  · cases happ
    exact hfill.trans (.of_eq rfl rfl)
  · obtain ⟨last, _, rfl⟩ := Option.map_eq_some_iff.mp happ
    exact (hfill.trans ((store _ _ _ _).trans (store _ _ _ _))).trans (.mergeIf _ _ _)

theorem expandHeap {n : Nat} {ok : Bool} (hexp : expandHeap h n = some (ok, h₁)) :
    Traced h h₁ := by
  rw [expandHeap_eq] at hexp
  split at hexp
  next =>
    obtain ⟨_, rfl⟩ := Prod.mk.inj (Option.some.inj hexp)
    exact .refl h
  next =>
  obtain ⟨⟨mapped, env⟩, _, hexp⟩ := Option.bind_eq_some_iff.mp hexp
  cases mapped with
  | false =>
      obtain ⟨_, rfl⟩ := Prod.mk.inj (Option.some.inj hexp)
      exact .of_eq rfl rfl
  | true =>
      obtain ⟨k, happ, hexp⟩ := Option.map_eq_some_iff.mp hexp
      obtain ⟨_, rfl⟩ := Prod.mk.inj hexp
      have henv : Traced h { h with env } := .of_eq rfl rfl
      exact (henv.trans (.appendBlock happ)).trans (.of_eq rfl rfl)

theorem allocate {n ptr : Nat} (hn : NoWrap h n) (halloc : allocate h n = some (ptr, h₁)) :
    Traced h h₁ := by
  rcases allocate_cases hn halloc with
    ⟨_, rfl⟩ | ⟨a, _, _, htake⟩ | ⟨_, hexp, _, _⟩ | ⟨g, a, hexp, _, _, htake⟩
  · exact .refl h₁
  · rw [← (Prod.mk.inj htake).2]
    exact .takeBlock h a _
  · exact .expandHeap hexp
  · rw [← (Prod.mk.inj htake).2]
    exact (expandHeap hexp).trans (.takeBlock g a _)

end

theorem mergeRight (h : KernelHeap E) (a : Nat) : Traced h (mergeRight h a) := mergeIf h _ a

theorem mergeLeft (h : KernelHeap E) (a : Nat) : Traced h (mergeLeft h a) := mergeIf h _ _

/-- The stores of `free` come before the pointer is dropped. -/
theorem free {a : Nat} (hmagic : magic h a = heapMagic) (hused : isFree h a = false)
    (hfree : free h (a + headerSize) = some h₁) :
    ∃ g, Traced h g ∧ h₁ = { g with trace := .freed (a + headerSize) :: g.trace } := by
  rw [free_eq hmagic hused] at hfree
  have hflagged : Traced h (setFree h a true) := .store _ _ _ _
  simp only at hfree
  generalize setFree h a true = k at hfree hflagged
  have hcounted : Traced h
      { k with
        usedMemory := sub64 k.usedMemory (size k a)
        freeMemory := add64 k.freeMemory (size k a) } := hflagged.trans (.of_eq rfl rfl)
  generalize ({ k with
    usedMemory := sub64 k.usedMemory (size k a)
    freeMemory := add64 k.freeMemory (size k a) } : KernelHeap E) = m at hfree hcounted
  have hmerged := (hcounted.trans (.mergeRight m a)).trans (.mergeLeft _ a)
  generalize Heap.mergeLeft (Heap.mergeRight m a) a = g at hfree hmerged
  exact ⟨g, hmerged, (Option.some.inj hfree).symm⟩

end Traced

/-! ## Payloads keep their bytes -/

/-- The payload holds the same bytes in both states. -/
def SameBytes (h h' : KernelHeap E) (p : Nat × Nat) : Prop :=
  ∀ x, p.1 ≤ x → x < p.1 + p.2 → h'.mem x = h.mem x

theorem SameBytes.trans (h₀₁ : SameBytes h h₁ p) (h₁₂ : SameBytes h₁ h₂ p) : SameBytes h h₂ p :=
  fun x hlow hhigh => (h₁₂ x hlow hhigh).trans (h₀₁ x hlow hhigh)

/-- While nothing is freed, a live payload stays live, and safe header writes are
clear of it. -/
theorem live_of_safe {t : List Event} (hp : p ∈ live t) :
    ∀ ws : List Event, (∀ ptr, .freed ptr ∉ ws) → Safe (ws ++ t) →
      p ∈ live (ws ++ t) ∧ ∀ addr len, .headerWrite addr len ∈ ws → Clear addr len p
  | [], _, _ => ⟨hp, fun _ _ hw => absurd hw List.not_mem_nil⟩
  | e :: ws, hfreed, hsafe => by
      have hrest : ∀ ptr, .freed ptr ∉ ws := fun ptr hmem =>
        hfreed ptr (List.mem_cons_of_mem _ hmem)
      cases e with
      | headerWrite addr len =>
          obtain ⟨hlive, hclear⟩ := live_of_safe hp ws hrest hsafe.2
          refine ⟨hlive, fun a l hw => ?_⟩
          rcases List.mem_cons.mp hw with heq | hw
          · obtain ⟨rfl, rfl⟩ := Event.headerWrite.inj heq
            exact hsafe.1 p hlive
          · exact hclear a l hw
      | allocated ptr k =>
          obtain ⟨hlive, hclear⟩ := live_of_safe hp ws hrest hsafe
          refine ⟨List.mem_cons_of_mem _ hlive, fun a l hw => hclear a l ?_⟩
          exact (List.mem_cons.mp hw).resolve_left Event.noConfusion
      | freed ptr => exact absurd (List.mem_cons_self ..) (hfreed ptr)

/-- A live payload stays live and keeps its bytes. -/
theorem Traced.keeps (ht : Traced h h') (hsafe : Safe h'.trace) (hp : p ∈ live h.trace) :
    p ∈ live h'.trace ∧ SameBytes h h' p := by
  obtain ⟨ws, htrace, hfreed, hbytes⟩ := ht
  rw [htrace] at hsafe ⊢
  obtain ⟨hlive, hclear⟩ := live_of_safe hp ws hfreed hsafe
  refine ⟨hlive, fun x hlow hhigh => hbytes x fun addr len hw => ?_⟩
  have hwrite := hclear addr len hw
  unfold Clear at hwrite
  omega

/-! ## Reallocating -/

/-- Live payloads at one address are the same. -/
theorem HeapInv.live_inj (inv : HeapInv h bs) {r : Nat × Nat} (hp : p ∈ Heap.live h.trace)
    (hr : r ∈ Heap.live h.trace) (heq : p.1 = r.1) : p = r :=
  List.inj_on_of_nodup_map inv.live_nodup hp hr heq

/-- What `realloc` should do with the live payload `p`: null leaves it as it is, and
any other pointer has its bytes and replaces it.  Other live payloads stay as they
are. -/
structure Preserves (h : KernelHeap E) (p : Nat × Nat) (n q : Nat) (h' : KernelHeap E) : Prop where
  result : q = 0 ∧ p ∈ live h'.trace ∧ SameBytes h h' p ∨
    q ≠ 0 ∧ (∃ k, n ≤ k ∧ (q, k) ∈ live h'.trace ∧ size h' (q - headerSize) = k) ∧
      (∀ i < min p.2 n, h'.mem (q + i) = h.mem (p.1 + i)) ∧
      (q ≠ p.1 → p.1 ∉ (live h'.trace).map Prod.fst)
  others : ∀ r ∈ live h.trace, r ≠ p → r ∈ live h'.trace ∧ SameBytes h h' r

variable [KernelPages E]

/-- An allocation keeps the live payloads and their bytes. -/
theorem allocate_keeps {n q : Nat} (inv : HeapInv h bs) (hn : NoWrap h n)
    (halloc : allocate h n = some (q, h')) {r : Nat × Nat} (hr : r ∈ live h.trace) :
    r ∈ live h'.trace ∧ SameBytes h h' r := by
  obtain ⟨_, inv', _⟩ := allocate_spec inv hn halloc
  exact (Traced.allocate hn halloc).keeps inv'.safe hr

omit [KernelPages E] in
/-- Freeing a live payload keeps the others and the bytes of all. -/
theorem free_keeps (inv : HeapInv h bs) (hp : p ∈ live h.trace) (hfree : free h p.1 = some h') :
    (∃ bs', HeapInv h' bs') ∧ live h'.trace = (live h.trace).filter (fun a => a.1 ≠ p.1) ∧
      ∀ r ∈ live h.trace, SameBytes h h' r := by
  obtain ⟨g', bs', hfree', inv', _, hlive⟩ := free_spec inv (List.mem_map_of_mem hp)
  rw [hfree', Option.some.injEq] at hfree
  subst hfree
  refine ⟨⟨bs', inv'⟩, hlive, fun r hr => ?_⟩
  obtain ⟨b, hb, hused, rfl⟩ := inv.mem_live.mp hp
  have hd := inv.listed.describes b hb
  obtain ⟨g, ht, heq⟩ := Traced.free hd.magic_eq (hd.isFree_eq.trans hused) hfree'
  have hsafe : Safe (.freed (b.addr + headerSize) :: g.trace) := by
    have hsafe := inv'.safe
    rw [heq] at hsafe
    exact hsafe
  have hkept := (ht.keeps hsafe hr).2
  rw [heq]
  exact hkept

/-- A call of `realloc` that returns. -/
theorem realloc_preserves {n q : Nat} (inv : HeapInv h bs) (hn : NoWrap h n)
    (hp : p ∈ live h.trace) (hre : realloc h p.1 n = some (q, h')) : Preserves h p n q h' := by
  rcases realloc_cases inv (hn.allocates inv) (List.mem_map_of_mem hp) hre with
    ⟨hq, rfl, rfl, k, hk, hmem⟩ | ⟨rfl, halloc⟩ |
    ⟨g, cs, mem, s, k, halloc, hq, hk, hnew, _, hs, hsn, hcopied, inv', hfree⟩
  · -- the block is large enough
    have hsize := (inv.live_header hmem).2.1
    exact ⟨Or.inr ⟨hq, ⟨k, hk, hmem, hsize⟩, fun _ _ => rfl, fun hne => absurd rfl hne⟩,
      fun r hr _ => ⟨hr, fun _ _ _ => rfl⟩⟩
  · -- nothing larger could be allocated
    exact ⟨Or.inl ⟨rfl, allocate_keeps inv hn halloc hp⟩,
      fun r hr _ => allocate_keeps inv hn halloc hr⟩
  · -- the payload moves
    obtain rfl : s = p.2 := congrArg Prod.snd (inv.live_inj hs hp rfl)
    have hnew' : live ({ g with mem } : KernelHeap E).trace = (q, k) :: live h.trace := hnew
    have hqlive : (q, k) ∈ live ({ g with mem } : KernelHeap E).trace := hnew' ▸ List.mem_cons_self ..
    have hkept : ∀ r ∈ live h.trace, r ∈ live ({ g with mem } : KernelHeap E).trace :=
      fun r hr => hnew' ▸ List.mem_cons_of_mem _ hr
    obtain ⟨⟨bs', inv₂⟩, hlive, hbytes⟩ := free_keeps inv' (hkept p hp) hfree
    have hqp : q ≠ p.1 := fun heq => by
      have hnodup := inv'.live_nodup
      rw [hnew', List.map_cons, List.nodup_cons] at hnodup
      have hmem : p.1 ∈ (live h.trace).map Prod.fst := List.mem_map_of_mem hp
      rw [← heq] at hmem
      exact hnodup.1 hmem
    have hqafter : (q, k) ∈ live h'.trace := by
      rw [hlive]
      exact List.mem_filter.mpr ⟨hqlive, by simpa using hqp⟩
    refine ⟨Or.inr ⟨hq, ⟨k, hk, hqafter, (inv₂.live_header hqafter).2.1⟩, fun i hi => ?_,
      fun _ hmem => ?_⟩, fun r hr hne => ?_⟩
    · have hi : i < p.2 := Nat.lt_of_lt_of_le hi (Nat.min_le_left _ _)
      calc h'.mem (q + i) = mem (q + i) :=
            hbytes (q, k) hqlive (q + i) (Nat.le_add_right _ _) (by simp only; omega)
        _ = g.mem (p.1 + i) := hcopied.copied i hi
        _ = h.mem (p.1 + i) :=
            (allocate_keeps inv hn halloc hp).2 (p.1 + i) (Nat.le_add_right _ _) (by omega)
    · obtain ⟨r, hr, heq⟩ := List.mem_map.mp hmem
      rw [hlive] at hr
      simp [heq] at hr
    · have hrp : r.1 ≠ p.1 := fun heq => hne (inv.live_inj hr hp heq)
      have hafter : r ∈ live h'.trace := by
        rw [hlive]
        exact List.mem_filter.mpr ⟨hkept r hr, by simpa using hrp⟩
      have hdisjoint := inv'.live_disjoint
      rw [hnew', List.pairwise_cons] at hdisjoint
      have hclear := hdisjoint.1 r hr
      unfold Clear at hclear
      have hcopy : SameBytes g { g with mem } r := fun x hlow hhigh => hcopied.rest x (by omega)
      exact ⟨hafter, ((allocate_keeps inv hn halloc hr).2.trans hcopy).trans (hbytes r (hkept r hr))⟩

/-- `realloc` returns unless it needs an allocation that does not. -/
theorem realloc_none_iff {n : Nat} (inv : HeapInv h bs) (hn : NoWrap h n) (hpos : n ≠ 0)
    (hp : p ∈ live h.trace) : realloc h p.1 n = none ↔ p.2 < n ∧ allocate h n = none := by
  rw [inv.realloc_eq hp hpos]
  split
  next hfits =>
    exact iff_of_false (fun hnone => by cases hnone) fun hc => absurd hfits (Nat.not_le.mpr hc.1)
  next hsmall =>
  rw [and_iff_right (Nat.not_le.mp hsmall)]
  cases halloc : allocate h n with
  | none => exact iff_of_true rfl rfl
  | some r =>
      obtain ⟨q, g⟩ := r
      refine iff_of_false (fun hnone => ?_) fun hnone => by cases hnone
      obtain ⟨cs, inv', _, ⟨rfl, _⟩ | ⟨hq, k, hk, hnew⟩⟩ := allocate_spec inv hn halloc
      · cases hnone
      · obtain ⟨_, hsize, _⟩ := inv'.live_header (hnew ▸ List.mem_cons_of_mem _ hp)
        obtain ⟨_, inv''⟩ := inv'.copy_payload hp hnew (by omega)
        have hlive : p.1 ∈ (live g.trace).map Prod.fst :=
          List.mem_map_of_mem (hnew ▸ List.mem_cons_of_mem _ hp)
        obtain ⟨g', _, hfree, _⟩ := free_spec inv'' hlive
        simp only [Option.bind_some, if_neg hq, hsize, hfree, Option.map_some] at hnone
        cases hnone

end

/-! ## Every run -/

/-- For every state of a run, every live payload and every new size up to 64 MiB:
`realloc` returns and does what it should if and only if the payload is large
enough or the allocation of the new one does not stop the kernel. -/
theorem realloc_preserves_iff {mem : Nat → UInt8} {env : KernelSpace}
    {h₀ h : KernelHeap KernelSpace} {calls : List Call} (hwf : env.WellFormed)
    (hinit : init mem env = some h₀) (hrun : Run WideStep h₀ calls h) {p : Nat × Nat}
    (hp : p ∈ live h.trace) {n : Nat} (hpos : 1 ≤ n) (hn : n ≤ 64 * 1024 * 1024) :
    (∃ q h', realloc h p.1 n = some (q, h') ∧ Preserves h p n q h') ↔
      n ≤ p.2 ∨ ¬ StopsKernel h n := by
  obtain ⟨⟨bs, inv⟩, hwf'⟩ := wide_run hwf hinit hrun
  have hnone := realloc_none_iff inv (inv.noWrap hn) (Nat.ne_of_gt hpos) hp
  rw [allocate_none_iff inv hwf'] at hnone
  constructor
  · rintro ⟨q, h', hre, _⟩
    rw [hre] at hnone
    by_cases hfits : n ≤ p.2
    · exact Or.inl hfits
    · exact Or.inr fun hstops => nomatch hnone.mpr ⟨Nat.not_le.mp hfits, hstops⟩
  · intro hcond
    have hreturns : realloc h p.1 n ≠ none := fun hstopped => by
      obtain ⟨hlt, hstops⟩ := hnone.mp hstopped
      exact hcond.elim (fun hfits => absurd hfits (Nat.not_le.mpr hlt)) fun hno => hno hstops
    obtain ⟨⟨q, h'⟩, hre⟩ := Option.ne_none_iff_exists'.mp hreturns
    exact ⟨q, h', hre, realloc_preserves inv (inv.noWrap hn) hp hre⟩

/-- The allocation in the small heap grows from 100 to 200 bytes. -/
theorem realloc_preserves_iff_heap32 :
    ∃ p ∈ live heap32Allocated.2.trace, ∃ q h',
      realloc heap32Allocated.2 p.1 200 = some (q, h') ∧
        Preserves heap32Allocated.2 p 200 q h' := by
  have hinit : init (fun _ => 0) space32 = some heap32 := (Option.some_get _).symm
  have halloc : allocate heap32 100 = some (heap32Allocated.1, heap32Allocated.2) := by
    rw [Prod.mk.eta]
    exact (Option.some_get _).symm
  have hfirst : findFreeBlock heap32 (alignUp 100 16) ≠ some 0 := by decide +kernel
  obtain ⟨p, hp⟩ : ∃ p, p ∈ live heap32Allocated.2.trace :=
    ⟨(heap32Allocated.1, 112), by decide +kernel⟩
  have hfound : findFreeBlock heap32Allocated.2 (alignUp 200 16) ≠ some 0 := by decide +kernel
  have hrun : Run WideStep heap32 [.allocate 100] heap32Allocated.2 :=
    .single (.allocate (fun hc => hfirst hc.2.1) halloc)
  exact ⟨p, hp, (realloc_preserves_iff space32_unmapped.1 hinit hrun hp (by omega) (by omega)).mpr
    (Or.inr fun hstops => hfound hstops.2.1)⟩

/-- The growth that `realloc` needs stops in `newTable`. -/
theorem realloc_stops_kernel :
    ∃ (s : KernelSpace) (h₀ h : KernelHeap KernelSpace) (p : Nat × Nat),
      Vmm.createAddressSpace ⟨0xFFFF800000000000, fun _ _ => 0, pages600⟩ =
        some (s.kernelPml4, s.machine) ∧ s.WellFormed ∧ init (fun _ => 0) s = some h₀ ∧
      Run WideStep h₀ [.allocate 100, .other] h ∧ p ∈ live h.trace ∧
      ¬ ∃ q h', realloc h p.1 (2 ^ 21) = some (q, h') ∧ Preserves h p (2 ^ 21) q h' := by
  obtain ⟨s, h₀, hcreate, hwf, hfresh, hinit, inv, hend, hmapped, hle⟩ := init_leaves_pages
    (m := ⟨0xFFFF800000000000, fun _ _ => 0, pages600⟩) pages600_usable.1 pages600_usable.2
  -- one allocation
  have hfind : findFreeBlock h₀ (alignUp 100 16) = some kernelHeapStart :=
    (inv.findFreeBlock_eq _).trans (by decide)
  obtain ⟨k, h₁, bs, _, htake, inv₁, hlive, hsame⟩ := takeFound inv (by decide) hfind (by decide)
  have halloc : allocate h₀ 100 = some (kernelHeapStart + headerSize, h₁) := by
    rw [allocate_eq h₀ (by decide), hfind, Option.bind_some, if_pos (by decide), htake]
  have hgrows : ¬ GrowsByNothing h₀ 100 := fun hc => by
    have heq := hfind.symm.trans hc.2.1
    exact absurd (Option.some.inj heq) (by decide)
  have henv : h₁.env = h₀.env := by
    rw [← takeBlock_env h₀ kernelHeapStart (alignUp 100 16), htake]
  rw [← henv] at hmapped hle
  -- and the shortage
  obtain ⟨env, hstep, _, hnone⟩ := table_shortage inv₁ hfresh (hsame.trans hend) hmapped hle
  have hp : (kernelHeapStart + headerSize, k) ∈ live h₁.trace := hlive ▸ List.mem_cons_self ..
  have inv₂ := inv₁.setEnv env
  have hsmall : k < 2 ^ 21 := by
    obtain ⟨b, hb, _, heq⟩ := inv₁.mem_live.mp hp
    obtain ⟨hlow, hhigh⟩ := inv₁.tiled.mem_bounds b hb
    have hsize : k = b.size := congrArg Prod.snd heq
    have hend₁ := hsame.trans hend
    unfold Block.fin at hhigh
    omega
  refine ⟨s, h₀, _, _, hcreate, hwf, hinit,
    .cons (.allocate hgrows halloc) (.single hstep), hp, ?_⟩
  rintro ⟨q, h', hre, _⟩
  have hstopped := (realloc_none_iff inv₂ (inv₂.noWrap (by decide)) (by decide) hp).mpr ⟨hsmall, hnone⟩
  exact Option.some_ne_none _ (hre.symm.trans hstopped)

end Avery.Heap
