import Avery.Kernel.HeapAccounting

/-!
# Allocating and freeing again

`allocate` cuts a free block or takes it whole, and `free` merges what `allocate`
has cut.  Nothing else is merged, since a free block has no free neighbours.  So
unless the heap has grown in between, the list and the counters are those from
before, and the next request finds what the last one found (`free_allocate`).
-/

namespace Avery.Heap

open Transition LinkedList

variable {E : Type} {h h' : KernelHeap E} {pre post bs : List Block} {b : Block}

/-! ## One block -/

/-- `free` up to its two merges. -/
theorem free_unmerged {s e : Nat} (hl : Listed h (pre ++ b :: post))
    (ht : Tiled s (pre ++ b :: post) e) (hused : b.free = false) :
    ∃ h₁, Listed h₁ (pre ++ { b with free := true } :: post) ∧
      h₁.usedMemory = sub64 h.usedMemory b.size ∧ h₁.freeMemory = add64 h.freeMemory b.size ∧
      free h (b.addr + headerSize) =
        some { mergeLeft (mergeRight h₁ b.addr) b.addr with
          trace := .freed (b.addr + headerSize) ::
            (mergeLeft (mergeRight h₁ b.addr) b.addr).trace } := by
  have hd := hl.describes b (List.mem_append_right _ (List.mem_cons_self ..))
  have hflagged := hl.setFree ht true
  have hsize : size (setFree h b.addr true) b.addr = b.size :=
    (hflagged.describes { b with free := true }
      (List.mem_append_right _ (List.mem_cons_self ..))).size_eq
  have hfree := free_eq hd.magic_eq (hd.isFree_eq.trans hused)
  simp only [hsize] at hfree
  exact ⟨_, hflagged.counters _ _, rfl, rfl, hfree⟩

/-- What the counters are after a block has been taken. -/
theorem takeBlock_counters {n k : Nat} (h : KernelHeap E) (a : Nat)
    (hsize : size (setFree (splitBlock h a n) a false) a = k) :
    (takeBlock h a n).2.usedMemory = add64 h.usedMemory k ∧
      (takeBlock h a n).2.freeMemory = sub64 h.freeMemory k := by
  have hsame : SameBooks h (setFree (splitBlock h a n) a false) :=
    (SameBooks.splitBlock h a n).trans (.store _ _ _ _)
  rw [takeBlock_eq]
  simp only [hsize, hsame.used, hsame.free, and_self]

theorem NotBothFree.right_used {a b : Block} (h : NotBothFree a b) (ha : a.free = true) :
    b.free = false :=
  Bool.eq_false_iff.mpr fun hb => h ⟨ha, hb⟩

theorem NotBothFree.left_used {a b : Block} (h : NotBothFree a b) (hb : b.free = true) :
    a.free = false :=
  Bool.eq_false_iff.mpr fun ha => h ⟨ha, hb⟩

/-- The list does not depend on the counters and the trace. -/
theorem Listed.books (hl : Listed h bs) (usedMemory freeMemory : Nat) (trace : List Event) :
    Listed { h with usedMemory, freeMemory, trace } bs :=
  hl.congr rfl fun _ _ => rfl

/-- The list after a block has been taken. -/
theorem listed_taken {len : Nat} (inv : HeapInv h (pre ++ b :: post)) (hlen : len ≤ b.size) :
    Listed (takeBlock h b.addr len).2 (pre ++ (cut b len ++ post)) :=
  (listed_takeBlock inv hlen).1.books _ _ _

/-- Freeing a block that was taken whole: its neighbours are in use. -/
theorem free_takeWhole {len : Nat} (inv : HeapInv h (pre ++ b :: post)) (hfree : b.free = true)
    (hlen : len ≤ b.size) (hsmall : b.size - len ≤ headerSize + 16)
    (hused : h.usedMemory < 2 ^ 64) (hfreeLt : h.freeMemory < 2 ^ 64) :
    ∃ h₂, free (takeBlock h b.addr len).2 (b.addr + headerSize) = some h₂ ∧
      Listed h₂ (pre ++ b :: post) ∧ h₂.usedMemory = h.usedMemory ∧
      h₂.freeMemory = h.freeMemory := by
  obtain ⟨hlisted, _⟩ := listed_takeBlock inv hlen
  have htaken := listed_taken inv hlen
  have htiled := inv.tiled.replace _ (tiled_cut hlen)
  obtain ⟨_, hleft, hright, _⟩ := coalesced_iff.mp inv.coalesced
  rw [cut, if_pos hsmall] at hlisted htaken htiled
  have hd := hlisted.describes { b with free := false }
    (List.mem_append_right _ (List.mem_cons_self ..))
  obtain ⟨htu, htf⟩ := takeBlock_counters h b.addr hd.size_eq
  obtain ⟨h₁, hl₁, hu₁, hf₁, heq⟩ := free_unmerged htaken htiled rfl
  have hb : ({ b with free := true } : Block) = b := by
    rw [← hfree]
  simp only [hb] at hl₁ hu₁ hf₁ heq htu htf
  rw [mergeRight_of_used hl₁ fun y hy => (hright y hy).right_used hfree,
    mergeLeft_of_used hl₁ fun x hx => (hleft x hx).left_used hfree] at heq
  refine ⟨_, heq, hl₁.books _ _ _, ?_, ?_⟩
  · show h₁.usedMemory = h.usedMemory
    rw [hu₁, htu, sub64, add64, Words.sub_add _ hused]
  · show h₁.freeMemory = h.freeMemory
    rw [hf₁, htf, sub64, add64, Words.add_sub _ hfreeLt]

/-- Freeing a block that was cut off another: the rest is merged back, and what
comes before is in use. -/
theorem free_takeCut {len : Nat} (inv : HeapInv h (pre ++ b :: post)) (hfree : b.free = true)
    (hlen : len ≤ b.size) (hlarge : ¬ b.size - len ≤ headerSize + 16)
    (hused : h.usedMemory < 2 ^ 64) (hfreeLt : h.freeMemory < 2 ^ 64) :
    ∃ h₂, free (takeBlock h b.addr len).2 (b.addr + headerSize) = some h₂ ∧
      Listed h₂ (pre ++ b :: post) ∧ h₂.usedMemory = h.usedMemory ∧
      h₂.freeMemory = h.freeMemory := by
  obtain ⟨hlisted, _⟩ := listed_takeBlock inv hlen
  have htaken := listed_taken inv hlen
  have htiled := inv.tiled.replace _ (tiled_cut hlen)
  obtain ⟨_, hleft, _, _⟩ := coalesced_iff.mp inv.coalesced
  rw [cut, if_neg hlarge] at hlisted htaken htiled
  have hd := hlisted.describes ⟨b.addr, len, false⟩ (List.mem_append_right _ (List.mem_cons_self ..))
  obtain ⟨htu, htf⟩ := takeBlock_counters h b.addr hd.size_eq
  obtain ⟨h₁, hl₁, hu₁, hf₁, heq⟩ := free_unmerged (b := ⟨b.addr, len, false⟩) htaken htiled rfl
  simp only at hl₁ hu₁ hf₁ heq htu htf
  have hright := mergeRight_of_free hl₁ (by simp [headerSize]) rfl
  simp only at hright
  have htiled' : Tiled kernelHeapStart (pre ++ ⟨b.addr, len, true⟩ ::
      ⟨b.addr + headerSize + len, b.size - len - headerSize, true⟩ :: post) h.heapEnd :=
    htiled.replace [⟨b.addr, len, true⟩] ⟨rfl, rfl⟩
  have hend : h.heapEnd < 2 ^ 64 := Nat.lt_of_le_of_lt inv.end_le (by decide)
  obtain ⟨hmerged, _⟩ := hl₁.merge htiled' (by decide) hend rfl
  have hb : (⟨b.addr, len + (headerSize + (b.size - len - headerSize)), true⟩ : Block) = b := by
    obtain ⟨addr, size, flag⟩ := b
    simp only at hfree hlarge hlen
    simp only [Block.mk.injEq, true_and]
    exact ⟨by omega, hfree.symm⟩
  simp only [hb] at hmerged
  rw [hright, mergeLeft_of_used hmerged fun x hx => (hleft x hx).left_used hfree] at heq
  have hsame := SameBooks.mergeWithNext h₁ b.addr
  generalize mergeWithNext h₁ b.addr = g at hmerged heq hsame
  refine ⟨_, heq, hmerged.books _ _ _, ?_, ?_⟩
  · show g.usedMemory = h.usedMemory
    rw [hsame.used, hu₁, htu, sub64, add64, Words.sub_add _ hused]
  · show g.freeMemory = h.freeMemory
    rw [hsame.free, hf₁, htf, sub64, add64, Words.add_sub _ hfreeLt]

/-- `free` undoes `takeBlock`. -/
theorem free_takeBlock {len : Nat} (inv : HeapInv h (pre ++ b :: post)) (hfree : b.free = true)
    (hlen : len ≤ b.size) (hused : h.usedMemory < 2 ^ 64) (hfreeLt : h.freeMemory < 2 ^ 64) :
    ∃ h₂, free (takeBlock h b.addr len).2 (b.addr + headerSize) = some h₂ ∧
      Listed h₂ (pre ++ b :: post) ∧ h₂.usedMemory = h.usedMemory ∧
      h₂.freeMemory = h.freeMemory := by
  by_cases hsmall : b.size - len ≤ headerSize + 16
  · exact free_takeWhole inv hfree hlen hsmall hused hfreeLt
  · exact free_takeCut inv hfree hlen hsmall hused hfreeLt

/-! ## First fit -/

/-- A weaker test succeeds at the same block or before it. -/
theorem Tiled.find?_before {P Q : Block → Bool} :
    ∀ {bs : List Block} {s e : Nat}, Tiled s bs e → (∀ x ∈ bs, P x = true → Q x = true) →
      bs.find? P = some b → ∃ c, bs.find? Q = some c ∧ c.addr ≤ b.addr
  | [], _, _, _, _, hb => by cases hb
  | x :: bs, s, e, ht, hPQ, hb => by
      cases hQ : Q x with
      | true =>
          refine ⟨x, List.find?_cons_of_pos hQ, ?_⟩
          have hle := (ht.mem_bounds b (List.mem_of_find?_eq_some hb)).1
          exact Nat.le_trans (Nat.le_of_eq ht.1) hle
      | false =>
          have hP : ¬ P x = true := fun hP => Bool.false_ne_true
            (hQ.symm.trans (hPQ x (List.mem_cons_self ..) hP))
          rw [List.find?_cons_of_neg hP] at hb
          rw [List.find?_cons_of_neg (by rw [hQ]; exact Bool.false_ne_true)]
          exact ht.2.find?_before (fun y hy => hPQ y (List.mem_cons_of_mem _ hy)) hb

/-- `findFreeBlock` in a state that lists the blocks. -/
theorem Listed.findFreeBlock_eq (hl : Listed h' bs) (inv : HeapInv h bs) (n : Nat) :
    findFreeBlock h' n =
      some (((bs.find? fun b => b.free ∧ n ≤ b.size).map Block.addr).getD 0) := by
  rw [findFreeBlock, hl.head]
  exact findFreeBlockLoop_eq hl.linked hl.describes inv.addr_ne_zero
    (Nat.lt_of_succ_lt_succ inv.length_lt)

/-- Equal lists have equal headers. -/
theorem Listed.header_eq (hl : Listed h bs) (hl' : Listed h' bs) :
    ∀ b ∈ bs, header h' b.addr = header h b.addr := fun b hb => by
  obtain ⟨hmagic, hsize, hfree⟩ := hl.describes b hb
  obtain ⟨hmagic', hsize', hfree'⟩ := hl'.describes b hb
  obtain ⟨pre, post, rfl⟩ := List.append_of_mem hb
  have hnext := hl'.next_eq.trans hl.next_eq.symm
  have hprev := hl'.prev_eq.trans hl.prev_eq.symm
  rw [← hmagic] at hmagic'
  rw [← hsize] at hsize'
  rw [← hfree] at hfree'
  rw [Heap.next_eq, Heap.next_eq] at hnext
  rw [Heap.prev_eq, Heap.prev_eq] at hprev
  generalize header h b.addr = x at *
  generalize header h' b.addr = y at *
  cases x
  cases y
  simp only at hmagic' hsize' hfree' hnext hprev
  rw [hmagic', hsize', hfree', hnext, hprev]

section

variable [KernelPages E]

/-- A request that finds a block. -/
theorem allocate_found {n a : Nat} (hn : n ≠ 0) (hfind : findFreeBlock h (alignUp n 16) = some a)
    (ha : a ≠ 0) : allocate h n = some (takeBlock h a (alignUp n 16)) := by
  unfold allocate
  rw [if_neg hn]
  simp only [hfind, Option.bind_eq_bind, Option.bind_some, if_pos ha]
  rfl

theorem accounted_run {mem : Nat → UInt8} {env : E} {h₀ : KernelHeap E} {calls : List Call}
    (hinit : init mem env = some h₀) (hrun : Run Step h₀ calls h) : ∃ g, Accounted (h, g) := by
  have hstart : ∃ g, Accounted (h₀, g) := ⟨1, accounted_init hinit⟩
  have hstep : ∀ (s : KernelHeap E) (c : Call) (t : KernelHeap E), (∃ g, Accounted (s, g)) →
      Step s c t → ∃ g, Accounted (t, g) := fun s c t ⟨g, ha⟩ hs =>
    ⟨_, accounted_step ha (.mk hs rfl)⟩
  exact hrun.invariant hstep hstart

/-- For every state of a run, every size up to 64 MiB and every allocation that
does not grow the heap: freeing the pointer at once gives back the block list,
header by header, and both counters.  The same request then returns the same
pointer, and a smaller request a pointer at or below it. -/
theorem free_allocate {mem : Nat → UInt8} {env : E} {h₀ h₁ : KernelHeap E} {calls : List Call}
    (hinit : init mem env = some h₀) (hrun : Run Step h₀ calls h) {n ptr : Nat}
    (hn : n ≤ 64 * 1024 * 1024) (halloc : allocate h n = some (ptr, h₁)) (hptr : ptr ≠ 0)
    (hend : h₁.heapEnd = h.heapEnd) :
    ∃ h₂ bs, free h₁ ptr = some h₂ ∧ Listed h bs ∧ Listed h₂ bs ∧
      (∀ b ∈ bs, header h₂ b.addr = header h b.addr) ∧ h₂.usedMemory = h.usedMemory ∧
      h₂.freeMemory = h.freeMemory ∧ (∃ h₃, allocate h₂ n = some (ptr, h₃)) ∧
      ∀ m ≤ n, ∃ q h₃, allocate h₂ m = some (q, h₃) ∧ q ≤ ptr ∧ (0 < m → q ≠ 0) := by
  obtain ⟨g, bs, inv, books⟩ := accounted_run hinit hrun
  simp only at inv books
  have hnw := inv.noWrap hn
  obtain ⟨h16, _, hpos, _, hbound⟩ := hnw.request
  rcases allocate_cases hnw halloc with
    ⟨rfl, _⟩ | ⟨a, hfind, ha, htake⟩ | ⟨_, _, rfl, _⟩ | ⟨k, a, hexp, hfind, ha, htake⟩
  · exact absurd rfl hptr
  · obtain ⟨b, hb, rfl, hfree, hsize⟩ := inv.found hfind ha
    obtain ⟨rfl, rfl⟩ := Prod.mk.inj htake
    have hne : n ≠ 0 := fun hz => by
      rw [hz] at halloc
      cases halloc
    have hused : h.usedMemory < 2 ^ 64 := by
      have hsum := inv.sum_eq
      have hspan := inv.span_lt
      rw [books.used, inv.liveBytes_eq]
      omega
    obtain ⟨pre, post, hbs⟩ := List.append_of_mem (List.mem_of_find?_eq_some hb)
    have inv' := inv
    rw [hbs] at inv'
    obtain ⟨h₂, hfreed, hl₂, hu, hf⟩ := free_takeBlock inv' hfree hsize hused books.freeLt
    rw [← hbs] at hl₂
    -- what smaller requests find afterwards
    have hserved : ∀ m, 0 < m → m ≤ n → ∃ c h₃, bs.find? (fun b => b.free ∧ alignUp m 16 ≤ b.size) =
        some c ∧ c.addr ≤ b.addr ∧ allocate h₂ m = some (c.addr + headerSize, h₃) := fun m hm hmn => by
      have hle : alignUp m 16 ≤ alignUp n 16 := by
        have hm16 : alignUp m 16 = (m + 15) / 16 * 16 := alignUp_eq (k := 4) (by decide) (by omega)
        have hn16 : alignUp n 16 = (n + 15) / 16 * 16 := alignUp_eq (k := 4) (by decide) (by omega)
        omega
      have hweaker : ∀ x ∈ bs, decide (x.free = true ∧ alignUp n 16 ≤ x.size) = true →
          decide (x.free = true ∧ alignUp m 16 ≤ x.size) = true := fun x _ hx => by
        rw [decide_eq_true_eq] at hx ⊢
        exact ⟨hx.1, Nat.le_trans hle hx.2⟩
      obtain ⟨c, hc, hbefore⟩ := inv.tiled.find?_before hweaker hb
      have hfind₂ := hl₂.findFreeBlock_eq inv (alignUp m 16)
      rw [hc] at hfind₂
      have hcz := inv.addr_ne_zero c (List.mem_of_find?_eq_some hc)
      exact ⟨c, _, hc, hbefore, allocate_found (Nat.ne_of_gt hm) hfind₂ hcz⟩
    refine ⟨h₂, bs, hfreed, inv.listed, hl₂, inv.listed.header_eq hl₂, hu, hf, ?_, ?_⟩
    · obtain ⟨c, h₃, hc, _, halloc₃⟩ := hserved n (Nat.pos_of_ne_zero hne) (Nat.le_refl n)
      rw [hb, Option.some.injEq] at hc
      subst hc
      exact ⟨h₃, halloc₃⟩
    · intro m hmn
      rcases Nat.eq_zero_or_pos m with rfl | hm
      · exact ⟨0, h₂, rfl, Nat.zero_le _, fun hlt => absurd hlt (Nat.lt_irrefl 0)⟩
      obtain ⟨c, h₃, _, hle, halloc₃⟩ := hserved m hm hmn
      have hcz : c.addr + headerSize ≠ 0 := by
        unfold headerSize
        omega
      exact ⟨_, h₃, halloc₃, Nat.add_le_add_right hle headerSize, fun _ => hcz⟩
  · exact absurd rfl hptr
  · -- the heap has grown
    rcases expandHeap_grows inv hpos hbound hexp with ⟨hno, _⟩ | ⟨_, inv', _, hgrown⟩
    · cases hno
    · obtain ⟨_, _, _, _, htake', _, _, hsame⟩ := takeFound inv' h16 hfind ha
      rw [htake'] at htake
      obtain ⟨_, rfl⟩ := Prod.mk.inj htake
      omega

end

/-- An allocation in the small heap, freed at once. -/
theorem free_allocate_heap32 :
    ∃ h₂ bs, free heap32Allocated.2 heap32Allocated.1 = some h₂ ∧ Listed heap32 bs ∧
      Listed h₂ bs ∧ h₂.usedMemory = heap32.usedMemory ∧ h₂.freeMemory = heap32.freeMemory := by
  have hinit : init (fun _ => 0) space32 = some heap32 := (Option.some_get _).symm
  have halloc : allocate heap32 100 = some (heap32Allocated.1, heap32Allocated.2) := by
    rw [Prod.mk.eta]
    exact (Option.some_get _).symm
  obtain ⟨h₂, bs, hfree, hl, hl₂, _, hused, hfreeMemory, _⟩ := free_allocate hinit .nil
    (by decide) halloc (by decide +kernel) (by decide +kernel)
  exact ⟨h₂, bs, hfree, hl, hl₂, hused, hfreeMemory⟩

end Avery.Heap
