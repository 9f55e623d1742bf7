import Mathlib.Algebra.Order.BigOperators.Group.List
import Avery.Kernel.HeapRuns

/-!
# The counters of the heap

`usedMemory` and `freeMemory` are adjusted where a block changes hands, by its
size at that moment, while a split turns 48 bytes of a free block into a header
and a merge turns a header back into payload.  So the two counters together miss
48 bytes for every successful `expandHeap` and nothing else (`Books.total`),
while the sizes in the list miss 48 bytes for every block.  The difference
between the two is what `freeMemory` is wrong by.
-/

namespace Avery.Heap

open Transition

variable {E : Type}

/-! ## What leaves the counters alone -/

/-- The counters, the bounds of the heap and the live allocations are the same. -/
structure SameBooks (h h' : KernelHeap E) : Prop where
  used : h'.usedMemory = h.usedMemory
  free : h'.freeMemory = h.freeMemory
  heapStart : h'.heapStart = h.heapStart
  heapEnd : h'.heapEnd = h.heapEnd
  live : Heap.live h'.trace = Heap.live h.trace

namespace SameBooks

variable {h h₁ h₂ : KernelHeap E}

theorem refl (h : KernelHeap E) : SameBooks h h := ⟨rfl, rfl, rfl, rfl, rfl⟩

theorem trans (s₁ : SameBooks h h₁) (s₂ : SameBooks h₁ h₂) : SameBooks h h₂ where
  used := s₂.used.trans s₁.used
  free := s₂.free.trans s₁.free
  heapStart := s₂.heapStart.trans s₁.heapStart
  heapEnd := s₂.heapEnd.trans s₁.heapEnd
  live := s₂.live.trans s₁.live

theorem store (h : KernelHeap E) (addr len value : Nat) :
    SameBooks h (Heap.store h addr len value) := ⟨rfl, rfl, rfl, rfl, rfl⟩

theorem splitBlock (h : KernelHeap E) (a n : Nat) : SameBooks h (Heap.splitBlock h a n) := by
  unfold Heap.splitBlock
  simp only
  split
  · exact .refl h
  · split <;> exact ⟨rfl, rfl, rfl, rfl, rfl⟩

theorem mergeWithNext (h : KernelHeap E) (a : Nat) : SameBooks h (Heap.mergeWithNext h a) := by
  unfold Heap.mergeWithNext
  simp only
  split
  · exact .refl h
  · split <;> exact ⟨rfl, rfl, rfl, rfl, rfl⟩

theorem mergeIf (h : KernelHeap E) (p : Prop) [Decidable p] (a : Nat) :
    SameBooks h (if p then Heap.mergeWithNext h a else h) := by
  split
  · exact .mergeWithNext h a
  · exact .refl h

theorem appendBlock [KernelPages E] {n : Nat} (happ : appendBlock h n = some h₁) :
    SameBooks h h₁ := by
  have hfill : SameBooks h (fillAppend h h.heapEnd n) := ⟨rfl, rfl, rfl, rfl, rfl⟩
  rw [appendBlock_eq] at happ
  split at happ
  · cases happ
  split at happ
  · cases happ
    exact hfill.trans ⟨rfl, rfl, rfl, rfl, rfl⟩
  · obtain ⟨last, _, rfl⟩ := Option.map_eq_some_iff.mp happ
    have hlink : SameBooks h
        (setPrev (setNext (fillAppend h h.heapEnd n) last h.heapEnd) h.heapEnd last) :=
      (hfill.trans (.store _ _ _ _)).trans (.store _ _ _ _)
    exact hlink.trans (.mergeIf _ _ _)

end SameBooks

/-! ## The law -/

/-- The sizes of a list of live allocations. -/
def liveBytes (ps : List (Nat × Nat)) : Nat := (ps.map Prod.snd).sum

/-- The law of the counters after `growths` successful expansions. -/
structure Books (h : KernelHeap E) (growths : Nat) : Prop where
  used : h.usedMemory = liveBytes (live h.trace)
  total : (h.usedMemory + h.freeMemory + headerSize * growths) % 2 ^ 64 =
    (h.heapEnd - h.heapStart) % 2 ^ 64
  freeLt : h.freeMemory < 2 ^ 64
  pages : 4096 * growths ≤ h.heapEnd - h.heapStart

theorem Books.same {h h' : KernelHeap E} {g : Nat} (b : Books h g) (s : SameBooks h h') :
    Books h' g where
  used := by rw [s.used, s.live, b.used]
  total := by rw [s.used, s.free, s.heapEnd, s.heapStart, b.total]
  freeLt := by rw [s.free]; exact b.freeLt
  pages := by rw [s.heapEnd, s.heapStart]; exact b.pages

/-! ## Sums over the list -/

def usedBytes (bs : List Block) : Nat := ((bs.filter fun b => !b.free).map Block.size).sum

def freeBytes (bs : List Block) : Nat := ((bs.filter fun b => b.free).map Block.size).sum

theorem Tiled.sum_sizes : ∀ {bs : List Block} {s e : Nat}, Tiled s bs e →
    s + usedBytes bs + freeBytes bs + headerSize * bs.length = e
  | [], _, _, h => by
      simp only [usedBytes, freeBytes, List.filter_nil, List.map_nil, List.sum_nil, List.length_nil]
      exact h
  | b :: bs, s, e, ⟨hs, ht⟩ => by
      have ih := ht.sum_sizes
      rw [Block.fin, hs] at ih
      rw [List.length_cons, Nat.mul_succ]
      cases hf : b.free with
      | false =>
          have hu : usedBytes (b :: bs) = b.size + usedBytes bs := by simp [usedBytes, hf]
          have hv : freeBytes (b :: bs) = freeBytes bs := by simp [freeBytes, hf]
          omega
      | true =>
          have hu : usedBytes (b :: bs) = usedBytes bs := by simp [usedBytes, hf]
          have hv : freeBytes (b :: bs) = b.size + freeBytes bs := by simp [freeBytes, hf]
          omega

theorem size_le_sum {bs : List Block} {p : Block → Bool} {b : Block} (hb : b ∈ bs)
    (hp : p b = true) : b.size ≤ ((bs.filter p).map Block.size).sum :=
  List.le_sum_of_mem (List.mem_map_of_mem (List.mem_filter.mpr ⟨hb, hp⟩))

variable {h h' : KernelHeap E} {bs : List Block}

theorem HeapInv.liveBytes_eq (inv : HeapInv h bs) :
    liveBytes (Heap.live h.trace) = usedBytes bs := by
  have hpay : (payloads bs).map Prod.snd = (bs.filter fun b => !b.free).map Block.size := by
    simp [payloads, Block.payload, Function.comp_def]
  rw [liveBytes, (inv.live.map Prod.snd).sum_eq, hpay, usedBytes]

/-- The sizes in the list and its headers make up the heap. -/
theorem HeapInv.sum_eq (inv : HeapInv h bs) :
    usedBytes bs + freeBytes bs + headerSize * bs.length = h.heapEnd - h.heapStart := by
  have hsum := inv.tiled.sum_sizes
  rw [inv.start]
  omega

theorem HeapInv.span_lt (inv : HeapInv h bs) : h.heapEnd - h.heapStart < 2 ^ 32 := by
  have hle := inv.end_le
  rw [inv.start]
  unfold kernelHeapMaxSize at hle
  omega

/-! ## The operations -/

theorem takeBlock_eq (h : KernelHeap E) (a n : Nat) :
    takeBlock h a n =
      let k := setFree (splitBlock h a n) a false
      (a + headerSize,
        { k with
          usedMemory := add64 k.usedMemory (size k a)
          freeMemory := sub64 k.freeMemory (size k a)
          trace := .allocated (a + headerSize) (size k a) :: k.trace }) := rfl

/-- Taking a block moves its size from one counter to the other. -/
theorem Books.takeBlock {g a n : Nat} (b : Books h g) (inv : HeapInv (takeBlock h a n).2 bs) :
    Books (takeBlock h a n).2 g := by
  have hsame : SameBooks h (setFree (splitBlock h a n) a false) :=
    (SameBooks.splitBlock h a n).trans (.store _ _ _ _)
  have hbound : liveBytes (live (Heap.takeBlock h a n).2.trace) < 2 ^ 64 := by
    have hsum := inv.sum_eq
    have hspan := inv.span_lt
    rw [inv.liveBytes_eq]
    omega
  have hold := b.same hsame
  have hused := hold.used
  have htotal := hold.total
  have hlt := hold.freeLt
  have hpages := hold.pages
  rw [takeBlock_eq] at hbound ⊢
  simp only at hbound ⊢
  generalize setFree (splitBlock h a n) a false = k at hbound hused htotal hlt hpages ⊢
  generalize Heap.size k a = s at hbound ⊢
  simp only [Heap.live, liveBytes, List.map_cons, List.sum_cons] at hbound
  have hadd : add64 k.usedMemory s = k.usedMemory + s := by
    refine Words.add_eq ?_
    rw [hused, liveBytes]
    omega
  refine ⟨?_, ?_, ?_, hpages⟩
  · simp only [Heap.live, liveBytes, List.map_cons, List.sum_cons]
    rw [hadd, hused, liveBytes, Nat.add_comm]
  · simp only
    rw [hadd, ← htotal]
    unfold sub64 Words.sub
    omega
  · exact Words.sub_lt 64 _ _

theorem liveBytes_filter {ps : List (Nat × Nat)} {p : Nat × Nat} (hp : p ∈ ps)
    (hnodup : (ps.map Prod.fst).Nodup) :
    liveBytes (ps.filter fun a => a.1 ≠ p.1) + p.2 = liveBytes ps := by
  induction ps with
  | nil => cases hp
  | cons q ps ih =>
      rw [List.map_cons, List.nodup_cons] at hnodup
      rcases List.mem_cons.mp hp with rfl | hp
      · have hrest : ps.filter (fun a => a.1 ≠ p.1) = ps := by
          refine List.filter_eq_self.mpr fun a ha => decide_eq_true fun heq => ?_
          exact hnodup.1 (heq ▸ List.mem_map_of_mem ha)
        rw [List.filter_cons_of_neg (by simp), hrest]
        simp [liveBytes, Nat.add_comm]
      · have hne : q.1 ≠ p.1 := fun heq => hnodup.1 (heq ▸ List.mem_map_of_mem hp)
        have ih := ih hp hnodup.2
        rw [List.filter_cons_of_pos (by simpa using hne)]
        simp only [liveBytes, List.map_cons, List.sum_cons] at ih ⊢
        omega

/-- Freeing a block moves its size back. -/
theorem Books.free {g ptr : Nat} (b : Books h g) (inv : HeapInv h bs)
    (hlive : ptr ∈ (live h.trace).map Prod.fst) (hfree : free h ptr = some h') : Books h' g := by
  obtain ⟨p, hp, rfl⟩ := List.mem_map.mp hlive
  obtain ⟨c, hc, hused, hpay⟩ := inv.mem_live.mp hp
  have hd := inv.listed.describes c hc
  have hp₁ : p.1 = c.addr + headerSize := by rw [hpay]; rfl
  have hp₂ : p.2 = c.size := by rw [hpay]; rfl
  rw [hp₁, free_eq hd.magic_eq (hd.isFree_eq.trans hused)] at hfree
  have hsize : size (setFree h c.addr true) c.addr = c.size := by
    have hlisted := (inv.listed.describes c hc).size_eq
    rw [← hlisted]
    exact ByteMemory.readLE_writeLE_disjoint (Or.inr (Nat.le_refl _))
  have hsum := liveBytes_filter hp inv.live_nodup
  have hsame : SameBooks h (setFree h c.addr true) := .store _ _ _ _
  have hold := b.same hsame
  rw [hp₁, hp₂] at hsum
  simp only [hsize] at hfree
  generalize setFree h c.addr true = k at hfree hsame hold
  have hmerged : SameBooks
      { k with
        usedMemory := sub64 k.usedMemory c.size
        freeMemory := add64 k.freeMemory c.size }
      (mergeLeft (mergeRight
        { k with
          usedMemory := sub64 k.usedMemory c.size
          freeMemory := add64 k.freeMemory c.size } c.addr) c.addr) :=
    SameBooks.trans (.mergeIf _ _ _) (.mergeIf _ _ _)
  generalize mergeLeft _ c.addr = m at hfree hmerged
  obtain rfl := Option.some.inj hfree
  have hk := hold.used
  rw [hsame.live] at hk
  have hspan := inv.span_lt
  have hused' : k.usedMemory < 2 ^ 64 := by
    have htotal := inv.sum_eq
    rw [hk, inv.liveBytes_eq]
    omega
  have hsub : sub64 k.usedMemory c.size = k.usedMemory - c.size :=
    Words.sub_eq hused' (by rw [hk]; omega)
  have htotal := hold.total
  have hpages := hold.pages
  refine ⟨?_, ?_, ?_, ?_⟩
  · simp only [Heap.live]
    rw [hmerged.used, hmerged.live]
    simp only
    rw [hsub, hsame.live, hk]
    omega
  · simp only
    rw [hmerged.used, hmerged.free, hmerged.heapEnd, hmerged.heapStart]
    simp only
    rw [hsub, ← htotal]
    unfold add64 Words.add
    omega
  · simp only
    rw [hmerged.free]
    exact Words.add_lt 64 _ _
  · simp only
    rw [hmerged.heapEnd, hmerged.heapStart]
    exact hpages

section

variable [KernelPages E]

/-- A successful expansion counts its pages less one header. -/
theorem Books.expandHeap {g n : Nat} (b : Books h g) (inv : HeapInv h bs) (hpos : 0 < n)
    (hn : h.heapEnd + (n + 4095) / 4096 * 4096 < 2 ^ 64) (hexp : expandHeap h n = some (true, h')) : Books h' (g + 1) := by
  have hend := inv.end_le
  have hmax := inv.max
  rw [inv.expandHeap_eq hn] at hexp
  unfold kernelHeapStart kernelHeapMaxSize at hend hmax
  generalize hm : (n + 4095) / 4096 * 4096 = m at hexp hn
  have hadd : add64 h.heapEnd m = h.heapEnd + m := Words.add_eq hn
  split at hexp
  · simp at hexp
  obtain ⟨⟨mapped, env⟩, _, hexp⟩ := Option.bind_eq_some_iff.mp hexp
  cases mapped with
  | false => simp at hexp
  | true =>
      simp only [Bool.not_true, Bool.false_eq_true, if_false] at hexp
      obtain ⟨k, happ, hexp⟩ := Option.map_eq_some_iff.mp hexp
      have henv : SameBooks h { h with env } := ⟨rfl, rfl, rfl, rfl, rfl⟩
      have hsame := henv.trans (.appendBlock happ)
      simp only [Prod.mk.injEq, true_and] at hexp
      subst hexp
      have hold := b.same hsame
      have htotal := hold.total
      have hpages := hold.pages
      have hstart := inv.start
      have hle := inv.tiled.le
      rw [hsame.heapEnd, hsame.heapStart] at htotal hpages
      have hsub : sub64 m headerSize = m - headerSize :=
        Words.sub_eq (by omega) (by unfold headerSize; omega)
      refine ⟨hold.used, ?_, Words.add_lt 64 _ _, ?_⟩
      · simp only
        rw [hsame.heapEnd, hsame.heapStart, hadd, hsub, Nat.mul_succ]
        unfold add64 Words.add headerSize at *
        omega
      · simp only
        rw [hsame.heapEnd, hsame.heapStart, hadd]
        omega

/-- The number of expansions after a step that may have been one. -/
def growthsAfter (h h' : KernelHeap E) (g : Nat) : Nat :=
  if h.heapEnd < h'.heapEnd then g + 1 else g

omit [KernelPages E] in
theorem Books.setEnv {g : Nat} (b : Books h g) (env : E) : Books { h with env } g :=
  b.same ⟨rfl, rfl, rfl, rfl, rfl⟩

theorem Books.allocate {g n ptr : Nat} (b : Books h g) (inv : HeapInv h bs)
    (hn : NoWrap h n) (halloc : allocate h n = some (ptr, h')) :
    Books h' (growthsAfter h h' g) := by
  obtain ⟨h16, _, hpos, _, hbound⟩ := hn.request
  -- a block that was found leaves the end of the heap where it is
  have htaken : ∀ {k : KernelHeap E} {cs : List Block} {a g : Nat}, HeapInv k cs → Books k g →
      findFreeBlock k (alignUp n 16) = some a → a ≠ 0 →
      Heap.takeBlock k a (alignUp n 16) = (ptr, h') → Books h' g ∧ h'.heapEnd = k.heapEnd := by
    intro k cs a g inv' b' hfind ha htake
    obtain ⟨_, h'', bs', _, htake', inv'', _, hend⟩ := takeFound inv' h16 hfind ha
    rw [htake', Prod.mk.injEq] at htake
    obtain ⟨rfl, rfl⟩ := htake
    have inv₂ : HeapInv (Heap.takeBlock k a (alignUp n 16)).2 bs' := htake' ▸ inv''
    have hb := b'.takeBlock inv₂
    rw [htake'] at hb
    exact ⟨hb, hend⟩
  unfold growthsAfter
  rcases allocate_cases hn halloc with
    ⟨rfl, rfl⟩ | ⟨a, hfind, ha, htake⟩ | ⟨ok, hexp, rfl, _⟩ | ⟨k, a, hexp, hfind, ha, htake⟩
  · rw [if_neg (Nat.lt_irrefl _)]
    exact b
  · obtain ⟨hb, hend⟩ := htaken inv b hfind ha htake
    rw [hend, if_neg (Nat.lt_irrefl _)]
    exact hb
  · rcases expandHeap_spec inv hpos hbound hexp with
      ⟨_, env, rfl⟩ | ⟨rfl, bs', inv', _, hlt⟩
    · rw [if_neg (Nat.lt_irrefl _)]
      exact b.setEnv env
    · rw [if_pos (by omega)]
      exact b.expandHeap inv hpos hbound hexp
  · rcases expandHeap_spec inv hpos hbound hexp with
      ⟨hno, _⟩ | ⟨_, bs', inv', _, hlt⟩
    · cases hno
    · obtain ⟨hb, hend⟩ := htaken inv' (b.expandHeap inv hpos hbound hexp) hfind ha htake
      rw [hend, if_pos (by omega)]
      exact hb

theorem Books.realloc {g n ptr q : Nat} (b : Books h g) (inv : HeapInv h bs)
    (hn : NoWrap h n) (hlive : ptr ∈ (live h.trace).map Prod.fst)
    (hre : realloc h ptr n = some (q, h')) : Books h' (growthsAfter h h' g) := by
  rcases realloc_cases inv (hn.allocates inv) hlive hre with
    ⟨_, _, rfl, _⟩ | ⟨_, halloc⟩ |
    ⟨k, _, mem, _, _, halloc, _, _, hnew, _, _, _, _, inv', hfree⟩
  · unfold growthsAfter
    rw [if_neg (Nat.lt_irrefl _)]
    exact b
  · exact b.allocate inv hn halloc
  · have hb : Books { k with mem } (growthsAfter h k g) :=
      (b.allocate inv hn halloc).same ⟨rfl, rfl, rfl, rfl, rfl⟩
    have hptr : ptr ∈ (live ({ k with mem } : KernelHeap E).trace).map Prod.fst := by
      rw [show live ({ k with mem } : KernelHeap E).trace = _ from hnew, List.map_cons]
      exact List.mem_cons_of_mem _ hlive
    obtain ⟨h'', _, hfree', _, hend, _⟩ := free_spec inv' hptr
    rw [hfree', Option.some.injEq] at hfree
    subst hfree
    have hend : h''.heapEnd = k.heapEnd := hend
    unfold growthsAfter at hb ⊢
    rw [hend]
    exact hb.free inv' hptr hfree'

/-! ## Runs -/

/-- A step of the heap's clients next to the number of expansions that have
succeeded so far. -/
def CountedStep (s : KernelHeap E × Nat) (c : Call) (t : KernelHeap E × Nat) : Prop :=
  Step s.1 c t.1 ∧ t.2 = growthsAfter s.1 t.1 s.2

theorem CountedStep.mk {h h' : KernelHeap E} {c : Call} {g g' : Nat} (hs : Step h c h')
    (hg : g' = growthsAfter h h' g) : CountedStep (h, g) c (h', g') := ⟨hs, hg⟩

/-- What every reachable state keeps. -/
def Accounted (s : KernelHeap E × Nat) : Prop := ∃ bs, HeapInv s.1 bs ∧ Books s.1 s.2

theorem accounted_step {s t : KernelHeap E × Nat} {c : Call} (ha : Accounted s)
    (hs : CountedStep s c t) : Accounted t := by
  obtain ⟨h, g⟩ := s
  obtain ⟨h', g'⟩ := t
  obtain ⟨hs, hg⟩ := hs
  obtain ⟨bs, inv, b⟩ := ha
  simp only at hs hg inv b
  subst hg
  cases hs with
  | allocate hsize halloc =>
      obtain ⟨bs', inv', _⟩ := allocate_spec inv (inv.noWrap hsize) halloc
      exact ⟨bs', inv', b.allocate inv (inv.noWrap hsize) halloc⟩
  | free hlive hfree =>
      obtain ⟨h'', bs', hfree', inv', hend, _⟩ := free_spec inv hlive
      rw [hfree', Option.some.injEq] at hfree
      subst hfree
      refine ⟨bs', inv', ?_⟩
      simp only [growthsAfter]
      rw [hend, if_neg (Nat.lt_irrefl _)]
      exact b.free inv hlive hfree'
  | realloc hlive hsize hre =>
      obtain ⟨bs', inv', _⟩ := realloc_spec inv ((inv.noWrap hsize).allocates inv) hlive hre
      exact ⟨bs', inv', b.realloc inv (inv.noWrap hsize) hlive hre⟩
  | other hmem =>
      refine ⟨bs, inv.write _ _ fun x h₁ h₂ hclear => hmem x ?_ h₂ hclear, ?_⟩
      · rw [inv.start]
        exact h₁
      · simp only [growthsAfter, Nat.lt_irrefl, if_false]
        exact b.same ⟨rfl, rfl, rfl, rfl, rfl⟩

theorem accounted_init {mem : Nat → UInt8} {env : E} (hinit : init mem env = some h) :
    Accounted (h, 1) := by
  obtain ⟨⟨bs, inv, _⟩, _⟩ := reached_init hinit
  refine ⟨bs, inv, ?_⟩
  have hempty : Books
      { mem
        head := 0
        heapStart := kernelHeapStart
        heapEnd := kernelHeapStart
        heapMax := kernelHeapStart + kernelHeapMaxSize
        usedMemory := 0
        freeMemory := 0
        env
        trace := [] } 0 :=
    ⟨rfl, by simp, by simp, by simp⟩
  have hfits : kernelHeapStart + (kernelHeapInitialSize + 4095) / 4096 * 4096 < 2 ^ 64 := by
    decide
  exact hempty.expandHeap (heapInv_empty mem env) (by decide) hfits (init_expanded hinit)

/-- The two ways to sum up the heap, compared.  The law holds modulo `2 ^ 64`, and
the sum of the counters is at most one reduction away from the exact one. -/
theorem free_eq_iff {used free g span freeBytes length : Nat}
    (htotal : (used + free + headerSize * g) % 2 ^ 64 = span % 2 ^ 64)
    (hsum : used + freeBytes + headerSize * length = span) (hspan : span < 2 ^ 32)
    (hfree : free < 2 ^ 64) (hg : 4096 * g ≤ span) : free = freeBytes ↔ length = g := by
  unfold headerSize at htotal hsum
  rw [Nat.mod_eq_of_lt (Nat.lt_trans hspan (by decide))] at htotal
  have hquot : (used + free + 48 * g) / 2 ^ 64 ≤ 1 := by omega
  have hdiv := Nat.div_add_mod (used + free + 48 * g) (2 ^ 64)
  rw [htotal] at hdiv
  generalize (used + free + 48 * g) / 2 ^ 64 = q at hquot hdiv
  clear htotal
  obtain rfl | rfl : q = 0 ∨ q = 1 := by omega
  · omega
  · constructor <;> intro h <;> omega

/-- In every reachable state `usedMemory` is the sum of the sizes of the blocks in
use, and `freeMemory` is that of the free blocks if and only if the list has as
many blocks as expansions have succeeded.  Then no counter is smaller than a size
that may be subtracted from it. -/
theorem counters_exact_iff {mem : Nat → UInt8} {env : E} {h₀ h : KernelHeap E}
    {calls : List Call} {growths : Nat} (hinit : init mem env = some h₀)
    (hrun : Run CountedStep (h₀, 1) calls (h, growths)) :
    ∃ bs, Listed h bs ∧ h.usedMemory = usedBytes bs ∧
      (∀ b ∈ bs, b.free = false → b.size ≤ h.usedMemory) ∧
      (h.freeMemory = freeBytes bs ↔ bs.length = growths) ∧
      (bs.length = growths → ∀ b ∈ bs, b.free = true → b.size ≤ h.freeMemory) := by
  obtain ⟨bs, inv, b⟩ : Accounted (h, growths) :=
    hrun.invariant (fun _ _ _ ha hs => accounted_step ha hs) (accounted_init hinit)
  simp only at inv b
  have hused : h.usedMemory = usedBytes bs := by rw [b.used, inv.liveBytes_eq]
  have hsum := inv.sum_eq
  have hspan := inv.span_lt
  have htotal := b.total
  have hpages := b.pages
  have hlt := b.freeLt
  rw [hused] at htotal
  have hiff := free_eq_iff htotal hsum hspan hlt hpages
  refine ⟨bs, inv.listed, hused, fun c hc hf => ?_, hiff, fun hlen c hc hf => ?_⟩
  · rw [hused]
    exact size_le_sum hc (by rw [hf]; rfl)
  · rw [hiff.mpr hlen]
    exact size_le_sum hc hf

end

/-! Two allocations in the small heap, and the release of both. -/

def heap32FirstFreed : KernelHeap KernelSpace :=
  (free heap32Second.2 heap32Allocated.1).get (by decide +kernel)

/-- The second release merges the block with both its neighbours. -/
def heap32Merged : KernelHeap KernelSpace :=
  (free heap32FirstFreed heap32Second.1).get (by decide +kernel)

theorem run_heap32Merged :
    Run CountedStep (heap32, 1)
      [.allocate 100, .allocate 200, .free heap32Allocated.1, .free heap32Second.1]
      (heap32Merged, 1) := by
  have halloc : allocate heap32 100 = some (heap32Allocated.1, heap32Allocated.2) := by
    rw [Prod.mk.eta]
    exact (Option.some_get _).symm
  have hsecond : allocate heap32Allocated.2 200 = some (heap32Second.1, heap32Second.2) := by
    rw [Prod.mk.eta]
    exact (Option.some_get _).symm
  have hfirst : free heap32Second.2 heap32Allocated.1 = some heap32FirstFreed :=
    (Option.some_get _).symm
  have hmerged : free heap32FirstFreed heap32Second.1 = some heap32Merged :=
    (Option.some_get _).symm
  have h₁ : CountedStep (heap32, 1) (.allocate 100) (heap32Allocated.2, 1) :=
    .mk (.allocate (by omega) halloc) (by decide +kernel)
  have h₂ : CountedStep (heap32Allocated.2, 1) (.allocate 200) (heap32Second.2, 1) :=
    .mk (.allocate (by omega) hsecond) (by decide +kernel)
  have h₃ : CountedStep (heap32Second.2, 1) (.free heap32Allocated.1) (heap32FirstFreed, 1) :=
    .mk (.free (by decide +kernel) hfirst) (by decide +kernel)
  have h₄ : CountedStep (heap32FirstFreed, 1) (.free heap32Second.1) (heap32Merged, 1) :=
    .mk (.free (by decide +kernel) hmerged) (by decide +kernel)
  exact .cons h₁ (.cons h₂ (.cons h₃ (.single h₄)))

/-- Both counters are exact after the last release. -/
theorem counters_exact_iff_heap32 :
    ∃ bs, Listed heap32Merged bs ∧ heap32Merged.usedMemory = usedBytes bs ∧
      heap32Merged.freeMemory = freeBytes bs := by
  have hinit : init (fun _ => 0) space32 = some heap32 := (Option.some_get _).symm
  obtain ⟨bs, hlisted, hused, _, hiff, _⟩ := counters_exact_iff hinit run_heap32Merged
  have hlength := hlisted.length_eq_one (by decide +kernel) (by decide +kernel) (by decide +kernel)
  exact ⟨bs, hlisted, hused, hiff.mpr hlength⟩

/-! One allocation in the small heap splits its only block. -/

/-- One block cannot be both in use and free. -/
theorem length_ne_one {bs : List Block} (hused : usedBytes bs ≠ 0) (hfree : freeBytes bs ≠ 0) :
    bs.length ≠ 1 := by
  intro hlen
  obtain ⟨b, rfl⟩ := List.length_eq_one_iff.mp hlen
  cases hf : b.free with
  | false => exact hfree (by simp [freeBytes, hf])
  | true => exact hused (by simp [usedBytes, hf])

/-- `freeMemory` counts the header of the split off block as free. -/
theorem split_leaves_freeMemory_wrong :
    init (fun _ => 0) space32 = some heap32 ∧
      Run CountedStep (heap32, 1) [.allocate 100] (heap32Allocated.2, 1) ∧
      ∃ bs, Listed heap32Allocated.2 bs ∧ heap32Allocated.2.freeMemory ≠ freeBytes bs := by
  have halloc : allocate heap32 100 = some (heap32Allocated.1, heap32Allocated.2) := by
    rw [Prod.mk.eta]
    exact (Option.some_get _).symm
  have hstep : Step heap32 (.allocate 100) heap32Allocated.2 := .allocate (by omega) halloc
  have hinit : init (fun _ => 0) space32 = some heap32 := (Option.some_get _).symm
  have hgrowths : 1 = growthsAfter heap32 heap32Allocated.2 1 := by decide +kernel
  have hcounted := CountedStep.mk hstep hgrowths
  obtain ⟨bs, inv, b⟩ := accounted_step (accounted_init hinit) hcounted
  simp only at inv b
  have hvalues : heap32Allocated.2.usedMemory = 112 ∧ heap32Allocated.2.freeMemory = 65376 ∧
      heap32Allocated.2.heapEnd - heap32Allocated.2.heapStart = 65536 := by decide +kernel
  have hused : usedBytes bs = 112 := by rw [← inv.liveBytes_eq, ← b.used, hvalues.1]
  have hsum := inv.sum_eq
  rw [hused, hvalues.2.2] at hsum
  unfold headerSize at hsum
  refine And.intro hinit (And.intro (.single hcounted) ⟨bs, inv.listed, fun heq => ?_⟩)
  rw [hvalues.2.1] at heq
  exact length_ne_one (by omega) (by omega) (show bs.length = 1 by omega)

end Avery.Heap
