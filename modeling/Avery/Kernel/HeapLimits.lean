import Avery.Kernel.HeapGrowth

/-!
# The limit of the heap

`heapMax` bounds the heap through one check in `expandHeap`, after four sums that
are reduced to 64 bits each.  As long as none of them wraps, a request that does
not fit is refused, and no block and no page lies at or beyond `heapMax`.  When
one wraps, the check sees a small number: the last requests below `2 ^ 64` return
a block without a byte, or grow the heap in vain.
-/

namespace Avery.Heap

open Transition KernelSpace

variable {h h' : KernelHeap KernelSpace} {bs : List Block}

/-! ## The environment -/

section Env

variable {E : Type}

theorem splitBlock_env (h : KernelHeap E) (a n : Nat) : (splitBlock h a n).env = h.env := by
  unfold splitBlock
  simp only
  split
  · rfl
  · split <;> rfl

theorem mergeWithNext_env (h : KernelHeap E) (a : Nat) : (mergeWithNext h a).env = h.env := by
  unfold mergeWithNext
  simp only
  split
  · rfl
  · split <;> rfl

theorem takeBlock_env (h : KernelHeap E) (a n : Nat) : (takeBlock h a n).2.env = h.env :=
  splitBlock_env h a n

theorem mergeIf_env (p : Prop) [Decidable p] (h : KernelHeap E) (a : Nat) :
    (if p then mergeWithNext h a else h).env = h.env := by
  split
  · exact mergeWithNext_env h a
  · rfl

theorem free_env {h h' : KernelHeap E} {ptr : Nat} (hfree : free h ptr = some h') :
    h'.env = h.env := by
  unfold free at hfree
  split at hfree
  next => rw [← Option.some.inj hfree]
  next =>
  simp only at hfree
  split at hfree
  next => cases hfree
  next =>
  rw [← Option.some.inj hfree]
  simp only [mergeIf_env]
  rfl

theorem appendBlock_env [KernelPages E] {h h' : KernelHeap E} {n : Nat}
    (happ : appendBlock h n = some h') : h'.env = h.env := by
  rw [appendBlock_eq] at happ
  split at happ
  next => cases happ
  next =>
  split at happ
  next => rw [← Option.some.inj happ]; rfl
  next =>
  obtain ⟨last, _, rfl⟩ := Option.map_eq_some_iff.mp happ
  simp only [mergeIf_env]
  rfl

end Env

/-! ## Growing -/

/-- The list of a grown heap ends in a free block with the new bytes. -/
theorem exists_free_grow (bs : List Block) {new : Block} (hfree : new.free = true) :
    ∃ b ∈ grow bs new, b.free = true ∧ new.size ≤ b.size := by
  rcases List.eq_nil_or_concat' bs with rfl | ⟨bs, l, rfl⟩
  · exact ⟨new, List.mem_singleton_self new, hfree, Nat.le_refl _⟩
  · rw [grow_concat, grow]
    split
    next hl =>
      refine ⟨_, List.mem_append_right _ (List.mem_singleton_self _), hl, ?_⟩
      simp only
      omega
    next =>
      refine ⟨new, List.mem_append_right _ ?_, hfree, Nat.le_refl _⟩
      exact List.mem_cons_of_mem _ (List.mem_singleton_self new)

/-- After the heap has grown for a request, a block is found for it. -/
theorem grown_fits {n : Nat} {bs : List Block}
    (inv : HeapInv h' (grow bs (newBlock h (expandSize n)))) :
    findFreeBlock h' (alignUp n 16) ≠ some 0 := by
  intro hnone
  obtain ⟨b, hb, hfree, hsize⟩ :=
    exists_free_grow bs (rfl : (newBlock h (expandSize n)).free = true)
  have hfits : alignUp n 16 ≤ b.size := by
    unfold newBlock expandSize headerSize at hsize
    simp only at hsize
    split at hsize <;> omega
  rw [inv.findFreeBlock_eq, Option.some.injEq] at hnone
  cases hfind : (grow bs (newBlock h (expandSize n))).find? fun b => b.free ∧ alignUp n 16 ≤ b.size with
  | none =>
      have hno := List.find?_eq_none.mp hfind b hb
      simp [hfree, hfits] at hno
  | some c =>
      rw [hfind] at hnone
      exact inv.addr_ne_zero c (List.mem_of_find?_eq_some hfind) hnone

/-- Only pages between `heapEnd` and `heapMax` have been mapped: below the heap's entries of
the root, and anywhere when all tables were well-formed. -/
structure MappedInside (h : KernelHeap KernelSpace) (r : KernelSpace) : Prop where
  part : ∃ j, h.heapEnd + 4096 * j ≤ h.heapMax ∧ MappedTo h.env.heapPart r.heapPart h.heapEnd j
  whole : h.env.Whole → ∃ j, h.heapEnd + 4096 * j ≤ h.heapMax ∧ MappedTo h.env r h.heapEnd j

theorem HeapInv.mappedInside (inv : HeapInv h bs) (hwf : h.env.WellFormed) :
    MappedInside h h.env where
  part := ⟨0, inv.fits, mappedTo_zero _ hwf⟩
  whole := fun hwhole => ⟨0, inv.fits, mappedTo_zero _ hwhole⟩

theorem MappedInside.wellFormed {r : KernelSpace} (hr : MappedInside h r) : r.WellFormed := by
  obtain ⟨_, _, hpart⟩ := hr.part
  exact hpart.wellFormed

/-- The pages that `expandHeap` maps lie between `heapEnd` and `heapMax`. -/
theorem expandHeap_mapped {n : Nat} {ok : Bool} (inv : HeapInv h bs) (hwf : h.env.WellFormed)
    (hn : h.heapEnd + (n + 4095) / 4096 * 4096 < 2 ^ 64) (hexp : expandHeap h n = some (ok, h')) :
    MappedInside h h'.env := by
  rw [inv.expandHeap_eq hn] at hexp
  split at hexp
  next =>
    obtain ⟨rfl, rfl⟩ := Prod.mk.inj (Option.some.inj hexp)
    exact inv.mappedInside hwf
  next hfits =>
  obtain ⟨⟨mapped, r⟩, hloop, hexp⟩ := Option.bind_eq_some_iff.mp hexp
  have henv : h'.env = r := by
    cases mapped with
    | false =>
        obtain ⟨_, rfl⟩ := Prod.mk.inj (Option.some.inj hexp)
        rfl
    | true =>
        obtain ⟨h₁, happ, hexp⟩ := Option.map_eq_some_iff.mp hexp
        obtain ⟨_, rfl⟩ := Prod.mk.inj hexp
        exact appendBlock_env happ
  rw [henv]
  constructor
  · obtain ⟨j, hj, hr⟩ := loop_returns hwf inv.inHeap hloop
    exact ⟨j, by omega, hr⟩
  · intro hwhole
    obtain ⟨j, hj, hr⟩ := MappedTo.loop_returns hwhole inv.pages hloop
    exact ⟨j, by omega, hr⟩

/-- `expandHeap` returns unless a page table cannot be served. -/
theorem expandHeap_stops {n : Nat} (inv : HeapInv h bs) (hwf : h.env.WellFormed) (hpos : 0 < n)
    (hn : h.heapEnd + (n + 4095) / 4096 * 4096 < 2 ^ 64) (hexp : expandHeap h n = none) :
    h.env.freePages < h.env.demand h.heapEnd ((n + 4095) / 4096) := by
  have hexp' := hexp
  rw [inv.expandHeap_eq hn] at hexp'
  split at hexp'
  next => cases hexp'
  next hfits =>
  cases hloop : mapPagesLoop h.env h.heapEnd 0 ((n + 4095) / 4096) with
  | none => exact loop_none hwf inv.inHeap hloop
  | some r =>
      obtain ⟨ok, r⟩ := r
      cases ok with
      | false =>
          rw [hloop] at hexp'
          cases hexp'
      | true =>
          have hr := loop_done hwf inv.inHeap hloop
          obtain ⟨h', hdone⟩ := inv.expandHeap_done hpos hn hfits hloop hr
          rw [hdone] at hexp
          cases hexp

/-! ## One call -/

/-- What a call may add to the heap: every block lies between `heapStart` and
`heapMax`, and only pages between `heapEnd` and `heapMax` have been mapped.  Unless all
tables of the kernel were well-formed, this is said of the pages from `heapStart` on. -/
structure Inside (h h' : KernelHeap KernelSpace) : Prop where
  blocks : ∃ bs, Listed h' bs ∧ ∀ b ∈ bs, h'.heapStart ≤ b.addr ∧ b.fin ≤ h'.heapMax
  pages : ∀ v, h.heapStart ≤ v ∧ v < 2 ^ 64 ∨ h.env.Whole → h'.env.Mapped v →
    h.env.Mapped v ∨ ∃ a, h.heapEnd ≤ a ∧ a < h.heapMax ∧ Vmm.pageOf v = Vmm.pageOf a

theorem HeapInv.inside (inv : HeapInv h bs) {bs' : List Block} (inv' : HeapInv h' bs')
    (hwf : h.env.WellFormed) (hr : MappedInside h h'.env) : Inside h h' := by
  -- the addresses of the pages do not wrap
  have hin : ∀ {v j : Nat}, h.heapEnd + 4096 * j ≤ h.heapMax →
      (h.env.Mapped v ∨ ∃ i < j, Vmm.pageOf v = Vmm.pageOf (pageAt h.heapEnd i)) →
      h.env.Mapped v ∨ ∃ a, h.heapEnd ≤ a ∧ a < h.heapMax ∧ Vmm.pageOf v = Vmm.pageOf a := by
    intro v j hj hv
    refine hv.imp_right fun ⟨i, hi, hpage⟩ => ?_
    have hmax := inv.max
    unfold kernelHeapStart kernelHeapMaxSize at hmax
    have hat : pageAt h.heapEnd i = h.heapEnd + 4096 * i := Words.add_eq (by omega)
    rw [hat] at hpage
    exact ⟨_, Nat.le_add_right _ _, by omega, hpage⟩
  refine ⟨⟨bs', inv'.listed, fun b hb => ?_⟩, fun v hwhere hv => ?_⟩
  · rw [inv'.start]
    obtain ⟨hlow, hhigh⟩ := inv'.tiled.mem_bounds b hb
    exact ⟨hlow, Nat.le_trans hhigh inv'.fits⟩
  rcases hwhere with ⟨hle, hlt⟩ | hwhole
  · obtain ⟨j, hj, hpart⟩ := hr.part
    rw [inv.start] at hle
    exact hin hj ((hpart.mapped_iff hwf (slot_of_le hle hlt)).mp hv)
  · obtain ⟨j, hj, hall⟩ := hr.whole hwhole
    exact hin hj ((hall.mapped v).mp hv)

/-- `expandHeap` adds blocks and pages inside the limits only. -/
theorem expandHeap_inside {n : Nat} {ok : Bool} (inv : HeapInv h bs) (hwf : h.env.WellFormed)
    (hpos : 0 < n) (hn : h.heapEnd + (n + 4095) / 4096 * 4096 < 2 ^ 64)
    (hexp : expandHeap h n = some (ok, h')) : Inside h h' ∧ h'.env.WellFormed := by
  have hr := expandHeap_mapped inv hwf hn hexp
  rcases expandHeap_grows inv hpos hn hexp with ⟨_, env, rfl⟩ | ⟨_, inv', _⟩
  · exact ⟨inv.inside (inv.setEnv env) hwf hr, hr.wellFormed⟩
  · exact ⟨inv.inside inv' hwf hr, hr.wellFormed⟩

/-- A live payload lies inside the limits, and its header says its size. -/
theorem HeapInv.payload_inside (inv : HeapInv h bs) {ptr k : Nat} (hp : (ptr, k) ∈ Heap.live h.trace) :
    size h (ptr - headerSize) = k ∧ h.heapStart ≤ ptr ∧ ptr + k ≤ h.heapMax := by
  obtain ⟨b, hb, _, heq⟩ := inv.mem_live.mp hp
  obtain ⟨rfl, rfl⟩ := Prod.mk.inj heq
  have hd := inv.listed.describes b hb
  obtain ⟨hlow, hhigh⟩ := inv.tiled.mem_bounds b hb
  rw [Nat.add_sub_cancel, inv.start]
  exact ⟨hd.size_eq, Nat.le_trans hlow (Nat.le_add_right _ _), Nat.le_trans hhigh inv.fits⟩

/-- What `allocate` should return: null, with the heap as it was, or a pointer to
a payload of at least the size asked for, inside the limits. -/
def Served (h : KernelHeap KernelSpace) (n ptr : Nat) (h' : KernelHeap KernelSpace) : Prop :=
  ptr = 0 ∧ h' = { h with env := h'.env } ∨
  ptr ≠ 0 ∧ ∃ k, n ≤ k ∧ size h' (ptr - headerSize) = k ∧ (ptr, k) ∈ live h'.trace ∧
    h'.heapStart ≤ ptr ∧ ptr + k ≤ h'.heapMax

/-- A request whose sums do not wrap is served or refused, and what it adds lies
inside the limits. -/
theorem allocate_inside {n ptr : Nat} (inv : HeapInv h bs) (hwf : h.env.WellFormed)
    (hn : NoWrap h n) (halloc : allocate h n = some (ptr, h')) :
    Served h n ptr h' ∧ Inside h h' ∧ h'.env.WellFormed := by
  obtain ⟨h16, hle, hpos, _, hbound⟩ := hn.request
  -- what follows from a block that was found
  have htaken : ∀ {g : KernelHeap KernelSpace} {cs : List Block} {a : Nat}, HeapInv g cs →
      MappedInside h g.env → findFreeBlock g (alignUp n 16) = some a → a ≠ 0 →
      takeBlock g a (alignUp n 16) = (ptr, h') →
      Served h n ptr h' ∧ Inside h h' ∧ h'.env.WellFormed := by
    intro g cs a invg hr hfind ha htake
    obtain ⟨k, h'', bs', hk, htake', inv'', hlive, _⟩ := takeFound invg h16 hfind ha
    rw [htake', Prod.mk.injEq] at htake
    obtain ⟨rfl, rfl⟩ := htake
    have henv : h''.env = g.env := by
      rw [← takeBlock_env g a (alignUp n 16), htake']
    have hmem : (a + headerSize, k) ∈ live h''.trace := hlive ▸ List.mem_cons_self
    obtain ⟨hsize, hstart, hmax⟩ := inv''.payload_inside hmem
    rw [← henv] at hr
    have hne : a + headerSize ≠ 0 := by
      unfold headerSize
      omega
    exact ⟨Or.inr ⟨hne, k, Nat.le_trans hle hk, hsize, hmem, hstart, hmax⟩,
      inv.inside inv'' hwf hr, hr.wellFormed⟩
  have hzero := inv.mappedInside hwf
  rcases allocate_cases hn halloc with
    ⟨rfl, rfl⟩ | ⟨a, hfind, ha, htake⟩ | ⟨ok, hexp, rfl, hnone⟩ | ⟨g, a, hexp, hfind, ha, htake⟩
  · exact ⟨Or.inl ⟨rfl, rfl⟩, inv.inside inv hwf hzero, hwf⟩
  · exact htaken inv hzero hfind ha htake
  · obtain ⟨hinside, hwf'⟩ := expandHeap_inside inv hwf hpos hbound hexp
    rcases expandHeap_grows inv hpos hbound hexp with ⟨_, env, rfl⟩ | ⟨hok, inv', _⟩
    · exact ⟨Or.inl ⟨rfl, rfl⟩, hinside, hwf'⟩
    · exact absurd (hnone hok) (grown_fits inv')
  · have hr := expandHeap_mapped inv hwf hbound hexp
    rcases expandHeap_grows inv hpos hbound hexp with ⟨hno, _⟩ | ⟨_, inv', _⟩
    · cases hno
    · exact htaken inv' hr hfind ha htake

/-- A request whose sums do not wrap returns unless a page table cannot be
served. -/
theorem allocate_stops {n : Nat} (inv : HeapInv h bs) (hwf : h.env.WellFormed) (hn : NoWrap h n)
    (halloc : allocate h n = none) :
    h.env.freePages < h.env.demand h.heapEnd ((expandSize n + 4095) / 4096) := by
  obtain ⟨h16, _, hpos, hsum, hbound⟩ := hn.request
  have hadd : add64 (alignUp n 16) headerSize = alignUp n 16 + headerSize := Words.add_eq hsum
  apply expandHeap_stops inv hwf hpos hbound
  unfold allocate at halloc
  split at halloc
  next => cases halloc
  next =>
  simp only [hadd, inv.findFreeBlock_eq, Option.bind_eq_bind, Option.bind_some] at halloc
  rw [← expandSize] at halloc
  split at halloc
  next => cases halloc
  next =>
  cases hexp : expandHeap h (expandSize n) with
  | none => rfl
  | some r =>
      obtain ⟨ok, g⟩ := r
      rw [hexp, Option.bind_some] at halloc
      rcases expandHeap_grows inv hpos hbound hexp with ⟨rfl, _⟩ | ⟨rfl, inv', _⟩
      · cases halloc
      · simp only [Bool.not_true, Bool.false_eq_true, if_false, inv'.findFreeBlock_eq,
          Option.bind_some] at halloc
        split at halloc <;> cases halloc

/-! ## Runs -/

/-- A call that returns, with requests of any size whose sums do not wrap.  Other
code keeps the page tables well formed. -/
inductive SizedStep : KernelHeap KernelSpace → Call → KernelHeap KernelSpace → Prop
  | allocate {h h' : KernelHeap KernelSpace} {size ptr : Nat} :
      NoWrap h size → allocate h size = some (ptr, h') → SizedStep h (.allocate size) h'
  | free {h h' : KernelHeap KernelSpace} {ptr : Nat} :
      ptr ∈ (live h.trace).map Prod.fst → free h ptr = some h' → SizedStep h (.free ptr) h'
  | realloc {h h' : KernelHeap KernelSpace} {ptr newSize newPtr : Nat} :
      ptr ∈ (live h.trace).map Prod.fst → NoWrap h newSize →
      realloc h ptr newSize = some (newPtr, h') → SizedStep h (.realloc ptr newSize) h'
  | other {h : KernelHeap KernelSpace} {mem : Nat → UInt8} {env : KernelSpace} :
      (∀ x, h.heapStart ≤ x → x < h.heapEnd → (∀ p ∈ live h.trace, Clear x 1 p) →
        mem x = h.mem x) → env.WellFormed → SizedStep h .other { h with mem, env }

/-- What every state of a run keeps. -/
def Sized (h : KernelHeap KernelSpace) : Prop := (∃ bs, HeapInv h bs) ∧ h.env.WellFormed

theorem sized_init {mem : Nat → UInt8} {env : KernelSpace} (hwf : env.WellFormed)
    (hinit : init mem env = some h) : Sized h := by
  obtain ⟨⟨bs, inv, _⟩, _⟩ := reached_init hinit
  have hfits : kernelHeapStart + (kernelHeapInitialSize + 4095) / 4096 * 4096 < 2 ^ 64 := by
    decide
  exact ⟨⟨bs, inv⟩,
    (expandHeap_inside (heapInv_empty mem env) hwf (by decide) hfits (init_expanded hinit)).2⟩

theorem sized_step {c : Call} (hs : Sized h) (hstep : SizedStep h c h') : Sized h' := by
  obtain ⟨⟨bs, inv⟩, hwf⟩ := hs
  cases hstep with
  | allocate hn halloc =>
      obtain ⟨bs', inv', _⟩ := allocate_spec inv hn halloc
      exact ⟨⟨bs', inv'⟩, (allocate_inside inv hwf hn halloc).2.2⟩
  | free hlive hfree =>
      obtain ⟨h'', bs', hfree', inv', _⟩ := free_spec inv hlive
      rw [hfree', Option.some.injEq] at hfree
      subst hfree
      exact ⟨⟨bs', inv'⟩, free_env hfree' ▸ hwf⟩
  | realloc hlive hn hre =>
      obtain ⟨bs', inv', _⟩ := realloc_spec inv (hn.allocates inv) hlive hre
      refine ⟨⟨bs', inv'⟩, ?_⟩
      rcases realloc_cases inv (hn.allocates inv) hlive hre with
        ⟨_, _, rfl, _⟩ | ⟨_, halloc⟩ | ⟨g, _, mem, _, _, halloc, _, _, _, _, _, _, _, _, hfree⟩
      · exact hwf
      · exact (allocate_inside inv hwf hn halloc).2.2
      · have henv := free_env hfree
        simp only at henv
        rw [henv]
        exact (allocate_inside inv hwf hn halloc).2.2
  | other hmem hwf' =>
      refine ⟨⟨bs, inv.write _ _ fun x h₁ h₂ hclear => hmem x ?_ h₂ hclear⟩, hwf'⟩
      rw [inv.start]
      exact h₁

/-- In every state of a run whose requests do not wrap: a request that does not
wrap returns null with the heap as it was, or a pointer to a payload of at least
its size between `heapStart` and `heapMax`, and it returns unless a page table
cannot be served; and neither it nor a growth that does not wrap adds a block or
maps a page at or beyond `heapMax`. -/
theorem oversized_requests_refused {mem : Nat → UInt8} {env : KernelSpace}
    {h₀ h : KernelHeap KernelSpace} {calls : List Call} (hwf : env.WellFormed)
    (hinit : init mem env = some h₀) (hrun : Run SizedStep h₀ calls h) :
    (∀ n, NoWrap h n →
      (∀ ptr h', allocate h n = some (ptr, h') → Served h n ptr h' ∧ Inside h h') ∧
      (allocate h n = none →
        h.env.freePages < h.env.demand h.heapEnd ((expandSize n + 4095) / 4096))) ∧
    ∀ n, 0 < n → h.heapEnd + (n + 4095) / 4096 * 4096 < 2 ^ 64 →
      ∀ ok h', expandHeap h n = some (ok, h') → Inside h h' := by
  obtain ⟨⟨bs, inv⟩, hwf'⟩ :=
    hrun.invariant (fun _ _ _ hs hstep => sized_step hs hstep) (sized_init hwf hinit)
  refine ⟨fun n hn => ⟨fun ptr h' halloc => ?_, fun hnone => allocate_stops inv hwf' hn hnone⟩,
    fun n hpos hn ok h' hexp => (expandHeap_inside inv hwf' hpos hn hexp).1⟩
  obtain ⟨hserved, hinside, _⟩ := allocate_inside inv hwf' hn halloc
  exact ⟨hserved, hinside⟩

/-- After one allocation, another grows the small heap, and a request of `2 ^ 40` bytes is
refused. -/
theorem oversized_requests_refused_heap32 :
    (∃ ptr h', allocate heap32Half.2 40000 = some (ptr, h') ∧ heap32Half.2.heapEnd < h'.heapEnd ∧
      Served heap32Half.2 40000 ptr h' ∧ Inside heap32Half.2 h') ∧
    ∃ h', allocate heap32Half.2 (2 ^ 40) = some (0, h') ∧ Served heap32Half.2 (2 ^ 40) 0 h' := by
  have hinit : init (fun _ => 0) space32 = some heap32 := (Option.some_get _).symm
  have hfirst : heap32.heapEnd + growth 40000 < 2 ^ 64 := by decide +kernel
  have hsecond : heap32Half.2.heapEnd + growth 40000 < 2 ^ 64 := by decide +kernel
  have hthird : heap32Half.2.heapEnd + growth (2 ^ 40) < 2 ^ 64 := by decide +kernel
  have hrun : Run SizedStep heap32 [.allocate 40000] heap32Half.2 :=
    .single (.allocate hfirst heap32Half_eq)
  obtain ⟨hsound, -⟩ := oversized_requests_refused space32_unmapped.1 hinit hrun
  have hgrows : (allocate heap32Half.2 40000).map
      (fun r => decide (heap32Half.2.heapEnd < r.2.heapEnd)) = some true := by
    decide +kernel
  have hrefused : (allocate heap32Half.2 (2 ^ 40)).map Prod.fst = some 0 := by decide +kernel
  obtain ⟨⟨ptr, h'⟩, halloc, hlt⟩ := Option.map_eq_some_iff.mp hgrows
  obtain ⟨⟨null, g⟩, hlarge, rfl⟩ := Option.map_eq_some_iff.mp hrefused
  exact ⟨⟨ptr, h', halloc, of_decide_eq_true hlt, (hsound 40000 hsecond).1 ptr h' halloc⟩,
    g, hlarge, ((hsound (2 ^ 40) hthird).1 _ g hlarge).1⟩

/-- Rounding the largest request up gives 0, and the small heap grants it with an
empty payload. -/
theorem largest_request_granted :
    Run SizedStep heap32 [] heap32 ∧ ∃ ptr h', allocate heap32 (2 ^ 64 - 1) = some (ptr, h') ∧
      ptr ≠ 0 ∧ size h' (ptr - headerSize) = 0 := by
  have hresult : (allocate heap32 (2 ^ 64 - 1)).map
      (fun r => (r.1 != 0, size r.2 (r.1 - headerSize))) = some (true, 0) := by
    decide +kernel
  obtain ⟨⟨ptr, h'⟩, halloc, heq⟩ := Option.map_eq_some_iff.mp hresult
  obtain ⟨hne, hsize⟩ := Prod.mk.inj heq
  exact ⟨.nil, ptr, h', halloc, by simpa using hne, hsize⟩

end Avery.Heap
