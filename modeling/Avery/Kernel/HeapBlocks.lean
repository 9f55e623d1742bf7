import Avery.Library.LinkedList
import Avery.Kernel.HeapHeaders
import Mathlib.Data.List.Chain
import Mathlib.Data.List.Nodup

/-!
# The block list

A heap is a list of blocks that tile an interval: each block ends where the next
begins.  `Listed` says that the headers in memory describe such a list and link
it in both directions.  Splitting a block and merging two neighbours are local
changes of the list, and the headers `splitBlock` and `mergeWithNext` leave
behind describe the changed list.
-/

namespace Avery.Heap

open LinkedList

variable {E : Type}

structure Block where
  addr : Nat
  size : Nat
  free : Bool
deriving DecidableEq

/-- Where the block ends. -/
def Block.fin (b : Block) : Nat := b.addr + headerSize + b.size

/-- The pointer to the payload and its size. -/
def Block.payload (b : Block) : Nat × Nat := (b.addr + headerSize, b.size)

/-! ## Tilings -/

/-- The blocks fill the interval from `s` to `e` without gaps. -/
def Tiled : Nat → List Block → Nat → Prop
  | s, [], e => s = e
  | s, b :: bs, e => b.addr = s ∧ Tiled b.fin bs e

theorem tiled_append :
    ∀ {xs ys : List Block} {s e : Nat},
      Tiled s (xs ++ ys) e ↔ ∃ m, Tiled s xs m ∧ Tiled m ys e
  | [], _, _, _ => ⟨fun h => ⟨_, rfl, h⟩, fun ⟨_, hm, h⟩ => by cases hm; exact h⟩
  | b :: xs, ys, s, e => by
      rw [List.cons_append, Tiled, tiled_append]
      exact ⟨fun ⟨hs, m, h₁, h₂⟩ => ⟨m, ⟨hs, h₁⟩, h₂⟩, fun ⟨m, ⟨hs, h₁⟩, h₂⟩ => ⟨hs, m, h₁, h₂⟩⟩

theorem Tiled.le : ∀ {bs : List Block} {s e : Nat}, Tiled s bs e → s ≤ e
  | [], _, _, h => Nat.le_of_eq h
  | b :: bs, s, e, ⟨hs, h⟩ => by
      have hle := h.le
      unfold Block.fin at hle
      omega

theorem Tiled.mem_bounds :
    ∀ {bs : List Block} {s e : Nat}, Tiled s bs e → ∀ b ∈ bs, s ≤ b.addr ∧ b.fin ≤ e
  | [], _, _, _, _, hb => absurd hb List.not_mem_nil
  | c :: bs, s, e, ⟨hs, h⟩, b, hb => by
      rcases List.mem_cons.mp hb with rfl | hb
      · exact ⟨Nat.le_of_eq hs.symm, h.le⟩
      · obtain ⟨h₁, h₂⟩ := h.mem_bounds b hb
        refine ⟨?_, h₂⟩
        unfold Block.fin at h₁
        omega

theorem Tiled.pairwise :
    ∀ {bs : List Block} {s e : Nat}, Tiled s bs e → bs.Pairwise fun a b => a.fin ≤ b.addr
  | [], _, _, _ => List.Pairwise.nil
  | _ :: _, _, _, ⟨_, h⟩ => List.Pairwise.cons (fun b hb => (h.mem_bounds b hb).1) h.pairwise

/-- Where the other blocks lie, seen from one of them. -/
theorem Tiled.around {pre post : List Block} {b : Block} {s e : Nat}
    (h : Tiled s (pre ++ b :: post) e) :
    (∀ x ∈ pre, s ≤ x.addr ∧ x.fin ≤ b.addr) ∧ (∀ x ∈ post, b.fin ≤ x.addr ∧ x.fin ≤ e) ∧
      s ≤ b.addr ∧ b.fin ≤ e := by
  obtain ⟨m, hpre, rfl, hpost⟩ := tiled_append.mp h
  exact ⟨hpre.mem_bounds, hpost.mem_bounds, hpre.le, hpost.le⟩

theorem Tiled.nodup {bs : List Block} {s e : Nat} (h : Tiled s bs e) :
    (bs.map Block.addr).Nodup := by
  refine List.pairwise_map.mpr (h.pairwise.imp fun {a b} hab heq => ?_)
  unfold Block.fin headerSize at hab
  omega

theorem Tiled.apart_left {pre post : List Block} {b x : Block} {s e : Nat}
    (h : Tiled s (pre ++ b :: post) e) (hx : x ∈ pre) : Apart x.addr b.addr := by
  have hle := (h.around.1 x hx).2
  unfold Block.fin at hle
  exact Or.inl (by omega)

theorem Tiled.apart_right {pre post : List Block} {b x : Block} {s e : Nat}
    (h : Tiled s (pre ++ b :: post) e) (hx : x ∈ post) : Apart x.addr b.addr := by
  have hle := (h.around.2.1 x hx).1
  unfold Block.fin at hle
  exact Or.inr (by omega)

/-! ## Lists of blocks in memory -/

/-- The header of the block has its size and its flag. -/
def Describes (h : KernelHeap E) (b : Block) : Prop :=
  (header h b.addr).magic = heapMagic ∧ (header h b.addr).size = b.size ∧
    (header h b.addr).free = b.free

theorem Describes.congr {h h' : KernelHeap E} {b : Block}
    (heq : header h' b.addr = header h b.addr) (hd : Describes h b) : Describes h' b := by
  unfold Describes
  rw [heq]
  exact hd

theorem Describes.of_header {h : KernelHeap E} {b : Block} {x : Header} (heq : header h b.addr = x)
    (hmagic : x.magic = heapMagic) (hsize : x.size = b.size) (hfree : x.free = b.free) :
    Describes h b := by
  subst heq
  exact ⟨hmagic, hsize, hfree⟩

theorem Describes.of_withPrev {h h' : KernelHeap E} {b : Block} {v : Nat} (hd : Describes h b)
    (heq : header h' b.addr = (header h b.addr).withPrev v) : Describes h' b :=
  .of_header heq hd.1 hd.2.1 hd.2.2

theorem Describes.size_eq {h : KernelHeap E} {b : Block} (hd : Describes h b) :
    size h b.addr = b.size := hd.2.1

theorem Describes.isFree_eq {h : KernelHeap E} {b : Block} (hd : Describes h b) :
    isFree h b.addr = b.free := hd.2.2

theorem Describes.magic_eq {h : KernelHeap E} {b : Block} (hd : Describes h b) :
    magic h b.addr = heapMagic := hd.1

structure Listed (h : KernelHeap E) (bs : List Block) : Prop where
  head : h.head = first (bs.map Block.addr) 0
  linked : Segment (next h) (prev h) 0 (bs.map Block.addr) 0
  describes : ∀ b ∈ bs, Describes h b

section Listed

variable {h h' : KernelHeap E} {pre post : List Block} {b c : Block} {s e : Nat}

theorem Listed.next_eq (hl : Listed h (pre ++ b :: post)) :
    next h b.addr = first (post.map Block.addr) 0 := by
  have hlinked := hl.linked
  rw [List.map_append, List.map_cons, segment_append] at hlinked
  exact hlinked.2.2.1

theorem Listed.prev_eq (hl : Listed h (pre ++ b :: post)) :
    prev h b.addr = last 0 (pre.map Block.addr) := by
  have hlinked := hl.linked
  rw [List.map_append, List.map_cons, segment_append] at hlinked
  exact hlinked.2.1

/-- A list that ends after the head has one block. -/
theorem Listed.length_eq_one {bs : List Block} (hl : Listed h bs) (hhead : h.head ≠ 0)
    (hlast : next h h.head = 0) (hnull : magic h 0 ≠ heapMagic) : bs.length = 1 := by
  cases bs with
  | nil => exact absurd hl.head hhead
  | cons b bs =>
      have hb : h.head = b.addr := hl.head
      have hcons : Listed h ([] ++ b :: bs) := hl
      have hnext := hcons.next_eq
      rw [← hb, hlast] at hnext
      cases bs with
      | nil => rfl
      | cons c bs =>
          have hc : c.addr = 0 := hnext.symm
          have hmagic := (hl.describes c (by simp)).magic_eq
          rw [hc] at hmagic
          exact absurd hmagic hnull

/-- Two states with the same headers and the same head list the same blocks. -/
theorem Listed.congr {bs : List Block} (hl : Listed h bs) (hhead : h'.head = h.head)
    (heq : ∀ b ∈ bs, header h' b.addr = header h b.addr) : Listed h' bs := by
  refine ⟨hhead.trans hl.head, hl.linked.congr fun x hx => ?_, fun b hb =>
    (hl.describes b hb).congr (heq b hb)⟩
  obtain ⟨b, hb, rfl⟩ := List.mem_map.mp hx
  rw [Heap.next_eq, Heap.next_eq, Heap.prev_eq, Heap.prev_eq, heq b hb]
  exact ⟨rfl, rfl⟩

/-- The list does not depend on the counters. -/
theorem Listed.counters {bs : List Block} (hl : Listed h bs) (usedMemory freeMemory : Nat) :
    Listed { h with usedMemory, freeMemory } bs :=
  hl.congr rfl fun _ _ => rfl

/-- Setting the flag of one block. -/
theorem Listed.setFree (hl : Listed h (pre ++ b :: post)) (ht : Tiled s (pre ++ b :: post) e)
    (f : Bool) : Listed (setFree h b.addr f) (pre ++ { b with free := f } :: post) := by
  have hself := header_setFree (h := h) (a := b.addr) f
  have hpre : ∀ x ∈ pre, header (Heap.setFree h b.addr f) x.addr = header h x.addr := fun x hx =>
    header_setFree_of_apart (ht.apart_left hx).symm
  have hpost : ∀ x ∈ post, header (Heap.setFree h b.addr f) x.addr = header h x.addr := fun x hx =>
    header_setFree_of_apart (ht.apart_right hx).symm
  obtain ⟨hd₁, hd⟩ := List.forall_mem_append.mp hl.describes
  obtain ⟨hd₂, hd₃⟩ := List.forall_mem_cons.mp hd
  have haddr : (pre ++ { b with free := f } :: post).map Block.addr =
      (pre ++ b :: post).map Block.addr := by
    rw [List.map_append, List.map_append]
    rfl
  refine ⟨by rw [haddr]; exact hl.head, ?_, ?_⟩
  · rw [haddr]
    refine hl.linked.congr (List.forall_mem_map.mpr ?_)
    refine List.forall_mem_append.mpr ⟨fun x hx => ?_, List.forall_mem_cons.mpr ⟨?_, fun x hx => ?_⟩⟩
    · rw [Heap.next_eq, Heap.prev_eq, hpre x hx]
      exact ⟨rfl, rfl⟩
    · rw [Heap.next_eq, Heap.prev_eq, hself]
      exact ⟨rfl, rfl⟩
    · rw [Heap.next_eq, Heap.prev_eq, hpost x hx]
      exact ⟨rfl, rfl⟩
  · refine List.forall_mem_append.mpr ⟨fun x hx => (hd₁ x hx).congr (hpre x hx),
      List.forall_mem_cons.mpr ⟨?_, fun x hx => (hd₃ x hx).congr (hpost x hx)⟩⟩
    exact .of_header hself hd₂.1 hd₂.2.1 rfl

/-- The next block is the first of the rest, and a rest that is empty is a null
pointer. -/
theorem next_apart (hnext : next h b.addr = first (post.map Block.addr) 0) {P : Nat → Prop}
    (hP : ∀ x ∈ post, P x.addr) (hne : next h b.addr ≠ 0) : P (next h b.addr) := by
  cases post with
  | nil => exact absurd hnext hne
  | cons c post =>
      rw [hnext]
      exact hP c (List.mem_cons_self ..)

/-- After a change of the header before them, the rest of the blocks: only the
first of them points back at another address. -/
theorem headers_after {new : Nat} {bs : List Block} (ht : Tiled s bs e) (hs : 0 < s)
    (hfirst : first (bs.map Block.addr) 0 ≠ 0 →
      header h' (first (bs.map Block.addr) 0) = (header h (first (bs.map Block.addr) 0)).withPrev new)
    (hother : ∀ x ∈ bs, (first (bs.map Block.addr) 0 ≠ 0 →
      Apart x.addr (first (bs.map Block.addr) 0)) → header h' x.addr = header h x.addr) :
    ∀ x ∈ bs, header h' x.addr = if x.addr = first (bs.map Block.addr) 0 then
      (header h x.addr).withPrev new else header h x.addr := by
  cases bs with
  | nil => exact fun x hx => absurd hx List.not_mem_nil
  | cons c cs =>
      obtain ⟨rfl, htail⟩ := ht
      rw [List.map_cons, first_cons] at hfirst hother ⊢
      have hc : c.addr ≠ 0 := by omega
      refine List.forall_mem_cons.mpr ⟨by rw [if_pos rfl, hfirst hc], fun x hx => ?_⟩
      have hle := (htail.mem_bounds x hx).1
      unfold Block.fin at hle
      rw [if_neg (by unfold headerSize at hle; omega)]
      exact hother x (List.mem_cons_of_mem _ hx) fun _ => Or.inr (by omega)

/-- Splitting a block cuts it in two. -/
theorem Listed.split {len : Nat} (hl : Listed h (pre ++ b :: post))
    (ht : Tiled s (pre ++ b :: post) e) (hs : 0 < s) (he : e < 2 ^ 64)
    (hlarge : headerSize + 16 < b.size - len) :
    Listed (splitBlock h b.addr len) (pre ++ { b with size := len } ::
      ⟨b.addr + headerSize + len, b.size - len - headerSize, true⟩ :: post) := by
  obtain ⟨hpre, hpost, hsb, hfin⟩ := ht.around
  obtain ⟨hd₁, hd⟩ := List.forall_mem_append.mp hl.describes
  obtain ⟨hd₂, hd₃⟩ := List.forall_mem_cons.mp hd
  unfold Block.fin headerSize at hpre hpost hfin
  unfold headerSize at hlarge
  have hremaining : sub64 (size h b.addr) len = b.size - len := by
    rw [hd₂.size_eq]
    exact Words.sub_eq (by omega) (by omega)
  have hnewsize : sub64 (b.size - len) headerSize = b.size - len - headerSize :=
    Words.sub_eq (by omega) (by unfold headerSize; omega)
  have hab : Apart (b.addr + headerSize + len) b.addr := Or.inr (by omega)
  have hnext := hl.next_eq
  have hnextApart : next h b.addr ≠ 0 →
      Apart (next h b.addr) b.addr ∧ Apart (next h b.addr) (b.addr + headerSize + len) :=
    next_apart hnext (P := fun a => Apart a b.addr ∧ Apart a (b.addr + headerSize + len))
      fun x hx => ⟨ht.apart_right hx, Or.inr (by have := (hpost x hx).1; unfold headerSize; omega)⟩
  have hlarge' : ¬ sub64 (size h b.addr) len ≤ headerSize + 16 := by
    rw [hremaining]
    unfold headerSize
    omega
  obtain ⟨hnew, hold, hfirst, hrest⟩ := header_splitBlock hlarge' hab (by unfold headerSize; omega) hnextApart
  have hpreh : ∀ x ∈ pre, header (splitBlock h b.addr len) x.addr = header h x.addr := fun x hx =>
    hrest x.addr (ht.apart_left hx) (Or.inl (by have := (hpre x hx).2; unfold headerSize; omega))
      (next_apart hnext fun y hy => Or.inl (by
        have h₁ := (hpre x hx).2
        have h₂ := (hpost y hy).1
        unfold headerSize
        omega))
  rw [hnext] at hfirst hrest hnew
  obtain ⟨_, _, _, htpost⟩ := tiled_append.mp ht
  have hposth := headers_after htpost (by unfold Block.fin; omega) hfirst fun x hx hc =>
    hrest x.addr (ht.apart_right hx)
      (Or.inr (by have := (hpost x hx).1; unfold headerSize; omega)) hc
  have hedits : Edits _ h (splitBlock h b.addr len) := splitBlock_edits hab (by omega)
  refine ⟨?_, ?_, ?_⟩
  · rw [hedits.head, hl.head, List.map_append, List.map_append, first_append, first_append]
    rfl
  · have hlinked := hl.linked
    rw [List.map_append, List.map_cons] at hlinked
    rw [List.map_append, List.map_cons, List.map_cons]
    refine hlinked.insert (Tiled.nodup htpost) (List.forall_mem_map.mpr fun x hx => ?_) ?_ ?_
      (List.forall_mem_map.mpr fun x hx => ?_) (List.forall_mem_map.mpr fun x hx => ?_)
    · rw [Heap.next_eq, Heap.prev_eq, hpreh x hx]
      exact ⟨rfl, rfl⟩
    · rw [Heap.next_eq, Heap.prev_eq, hold]
      exact ⟨rfl, rfl⟩
    · rw [Heap.next_eq, Heap.prev_eq, hnew]
      exact ⟨rfl, rfl⟩
    · rw [Heap.next_eq, hposth x hx]
      split <;> rfl
    · rw [Heap.prev_eq, hposth x hx]
      split <;> rfl
  · refine List.forall_mem_append.mpr ⟨fun x hx => (hd₁ x hx).congr (hpreh x hx),
      List.forall_mem_cons.mpr ⟨?_, List.forall_mem_cons.mpr ⟨?_, fun x hx => ?_⟩⟩⟩
    · exact .of_header hold hd₂.1 rfl hd₂.2.2
    · exact .of_header hnew rfl (by rw [hremaining, hnewsize]) rfl
    · have heq := hposth x hx
      split at heq
      next => exact (hd₃ x hx).of_withPrev heq
      next => exact (hd₃ x hx).congr heq

/-- Merging a block with the free block after it. -/
theorem Listed.merge (hl : Listed h (pre ++ b :: c :: post))
    (ht : Tiled s (pre ++ b :: c :: post) e) (hs : 0 < s) (he : e < 2 ^ 64) (hc : c.free = true) :
    Listed (mergeWithNext h b.addr)
      (pre ++ { b with size := b.size + (headerSize + c.size) } :: post) ∧
    Edits (mergeScope h b.addr) h (mergeWithNext h b.addr) := by
  obtain ⟨hpre, hpost, hsb, hfin⟩ := ht.around
  obtain ⟨hd₁, hd⟩ := List.forall_mem_append.mp hl.describes
  obtain ⟨hd₂, hd'⟩ := List.forall_mem_cons.mp hd
  obtain ⟨hdc, hd₃⟩ := List.forall_mem_cons.mp hd'
  have hnext : next h b.addr = c.addr := hl.next_eq
  have ht' : Tiled s ((pre ++ [b]) ++ c :: post) e := by
    rw [List.append_assoc]
    exact ht
  have hl' : Listed h ((pre ++ [b]) ++ c :: post) := by
    rw [List.append_assoc]
    exact hl
  have hskip := hl'.next_eq
  obtain ⟨_, hpostc, hsc, hfinc⟩ := ht'.around
  have hbc := (hpost c (List.mem_cons_self ..)).1
  unfold Block.fin headerSize at hpre hpost hfin hpostc hfinc hbc
  have hnn : next h (next h b.addr) ≠ 0 → Apart (next h (next h b.addr)) b.addr := by
    rw [hnext]
    exact next_apart hskip (P := fun a => Apart a b.addr) fun x hx =>
      ht.apart_right (List.mem_cons_of_mem _ hx)
  obtain ⟨hedits, hself, hfirst, hrest⟩ := header_mergeWithNext (h := h) (a := b.addr)
    (by rw [hnext]; omega) (by rw [hnext, hdc.isFree_eq, hc])
    (by rw [hnext]; exact ht.apart_right (List.mem_cons_self ..)) (by omega) hnn
  have hsize : add64 (size h b.addr) (add64 headerSize (size h c.addr)) =
      b.size + (headerSize + c.size) := by
    rw [hd₂.size_eq, hdc.size_eq]
    have hgrow : add64 headerSize c.size = headerSize + c.size :=
      Words.add_eq (by unfold headerSize; omega)
    rw [hgrow]
    exact Words.add_eq (by unfold headerSize; omega)
  rw [header_absorbNext, hnext, hsize, hskip] at hself
  rw [hnext, hskip] at hfirst hrest
  have hpreh : ∀ x ∈ pre, header (mergeWithNext h b.addr) x.addr = header h x.addr := fun x hx =>
    hrest x.addr (ht.apart_left hx) (by
      rw [← hskip]
      refine next_apart hskip (P := fun a => Apart x.addr a) fun y hy => Or.inl ?_
      have h₁ := (hpre x hx).2
      have h₂ := (hpost y (List.mem_cons_of_mem _ hy)).1
      unfold headerSize
      omega)
  obtain ⟨_, _, _, htpost⟩ := tiled_append.mp ht'
  have hposth := headers_after htpost (by unfold Block.fin; omega) hfirst fun x hx =>
    hrest x.addr (ht.apart_right (List.mem_cons_of_mem _ hx))
  refine ⟨⟨?_, ?_, ?_⟩, hedits⟩
  · rw [hedits.head, hl.head, List.map_append, List.map_append, first_append, first_append]
    rfl
  · have hlinked := hl.linked
    rw [List.map_append, List.map_cons, List.map_cons] at hlinked
    rw [List.map_append, List.map_cons]
    refine hlinked.remove (Tiled.nodup htpost) (List.forall_mem_map.mpr fun x hx => ?_) ?_
      (List.forall_mem_map.mpr fun x hx => ?_) (List.forall_mem_map.mpr fun x hx => ?_)
    · rw [Heap.next_eq, Heap.prev_eq, hpreh x hx]
      exact ⟨rfl, rfl⟩
    · rw [Heap.next_eq, Heap.prev_eq, hself, hskip]
      exact ⟨rfl, rfl⟩
    · rw [Heap.next_eq, hposth x hx]
      split <;> rfl
    · rw [Heap.prev_eq, hposth x hx]
      split <;> rfl
  · refine List.forall_mem_append.mpr ⟨fun x hx => (hd₁ x hx).congr (hpreh x hx),
      List.forall_mem_cons.mpr ⟨?_, fun x hx => ?_⟩⟩
    · exact .of_header hself hd₂.1 rfl hd₂.2.2
    · have heq := hposth x hx
      split at heq
      next => exact (hd₃ x hx).of_withPrev heq
      next => exact (hd₃ x hx).congr heq

end Listed

/-! ## Walks -/

/-- `findFreeBlock` finds the first block that is free and large enough. -/
theorem findFreeBlockLoop_eq {h : KernelHeap E} {n : Nat} :
    ∀ {bs : List Block} {p : Nat} {fuel : Nat},
      Segment (next h) (prev h) p (bs.map Block.addr) 0 → (∀ b ∈ bs, Describes h b) →
      (∀ b ∈ bs, b.addr ≠ 0) → bs.length < fuel →
      findFreeBlockLoop h n (first (bs.map Block.addr) 0) fuel =
        some (((bs.find? fun b => b.free ∧ n ≤ b.size).map Block.addr).getD 0)
  | _, _, 0, _, _, _, hfuel => absurd hfuel (Nat.not_lt_zero _)
  | [], _, _ + 1, _, _, _, _ => rfl
  | b :: bs, p, fuel + 1, hs, hd, hne, hfuel => by
      obtain ⟨hdb, hdbs⟩ := List.forall_mem_cons.mp hd
      obtain ⟨hneb, hnebs⟩ := List.forall_mem_cons.mp hne
      have ih := findFreeBlockLoop_eq (n := n) hs.2.2 hdbs hnebs (Nat.lt_of_succ_lt_succ hfuel)
      rw [List.map_cons, first_cons, findFreeBlockLoop, if_neg hneb, hdb.size_eq, hdb.isFree_eq,
        hs.2.1, ih]
      by_cases hfit : b.free = true ∧ n ≤ b.size
      · rw [if_pos hfit, List.find?_cons_of_pos (by simpa using hfit)]
        rfl
      · rw [if_neg hfit, List.find?_cons_of_neg (by simpa using hfit)]

theorem lastBlockLoop_eq {h : KernelHeap E} :
    ∀ {bs : List Block} {b : Block} {p fuel : Nat},
      Segment (next h) (prev h) p ((bs ++ [b]).map Block.addr) 0 →
      (∀ c ∈ bs ++ [b], c.addr ≠ 0) → bs.length < fuel →
      lastBlockLoop h (first ((bs ++ [b]).map Block.addr) 0) fuel = some b.addr
  | _, _, _, 0, _, _, hfuel => absurd hfuel (Nat.not_lt_zero _)
  | [], b, _, _ + 1, hs, _, _ => if_pos hs.2.1
  | c :: bs, b, _, fuel + 1, hs, hne, hfuel => by
      obtain ⟨_, hne'⟩ := List.forall_mem_cons.mp hne
      have ih := lastBlockLoop_eq hs.2.2 hne' (Nat.lt_of_succ_lt_succ hfuel)
      have hnext : next h c.addr = first ((bs ++ [b]).map Block.addr) 0 := hs.2.1
      have hnz : first ((bs ++ [b]).map Block.addr) 0 ≠ 0 := by
        cases bs with
        | nil => exact hne' b (List.mem_singleton_self b)
        | cons d ds => exact hne' d (List.mem_cons_self ..)
      rw [List.cons_append, List.map_cons, first_cons, lastBlockLoop, hnext, if_neg hnz, ih]

/-- A tiling of a heap is shorter than the bound of the walks. -/
theorem Tiled.length_le :
    ∀ {bs : List Block} {s e : Nat}, Tiled s bs e → bs.length * headerSize ≤ e - s
  | [], _, _, _ => by rw [List.length_nil, Nat.zero_mul]; exact Nat.zero_le _
  | b :: bs, s, e, ⟨hs, h⟩ => by
      have ih := h.length_le
      have hle := h.le
      unfold Block.fin headerSize at ih hle
      rw [List.length_cons, headerSize]
      omega

end Avery.Heap
