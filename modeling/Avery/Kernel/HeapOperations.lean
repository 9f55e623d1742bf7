import Avery.Kernel.HeapInvariant

/-!
# The operations of the heap

Each of `expandHeap`, `allocate`, `free` and `realloc` keeps the invariant of the
heap and changes the live allocations as its caller expects.
-/

namespace Avery.Heap

open LinkedList

variable {E : Type} {h h' : KernelHeap E} {pre post bs : List Block} {b : Block}

/-! ## Taking a block -/

theorem forall_mem_replace {P : Block → Prop} (h : ∀ x ∈ pre ++ b :: post, P x)
    (cs : List Block) (hcs : ∀ x ∈ cs, P x) : ∀ x ∈ pre ++ (cs ++ post), P x := by
  obtain ⟨hpre, hrest⟩ := List.forall_mem_append.mp h
  exact List.forall_mem_append.mpr
    ⟨hpre, List.forall_mem_append.mpr ⟨hcs, (List.forall_mem_cons.mp hrest).2⟩⟩

/-- Pieces that tile a block may replace it. -/
theorem Tiled.replace {s e : Nat} (ht : Tiled s (pre ++ b :: post) e) (cs : List Block)
    (hcs : Tiled b.addr cs b.fin) : Tiled s (pre ++ (cs ++ post)) e := by
  obtain ⟨m, hpre, rfl, hpost⟩ := tiled_append.mp ht
  exact tiled_append.mpr ⟨_, hpre, tiled_append.mpr ⟨_, hcs, hpost⟩⟩

/-- The pieces a block is cut into when `len` bytes of it are taken. -/
def cut (b : Block) (len : Nat) : List Block :=
  if b.size - len ≤ headerSize + 16 then [{ b with free := false }]
  else [⟨b.addr, len, false⟩, ⟨b.addr + headerSize + len, b.size - len - headerSize, true⟩]

theorem tiled_cut {len : Nat} (hlen : len ≤ b.size) : Tiled b.addr (cut b len) b.fin := by
  unfold cut
  split
  next => exact ⟨rfl, rfl⟩
  next hlarge =>
    refine ⟨rfl, rfl, ?_⟩
    unfold headerSize at hlarge
    unfold Tiled Block.fin headerSize
    simp only
    omega

theorem payloads_cut {len : Nat} (hlen : len ≤ b.size) :
    ∃ n, len ≤ n ∧ payloads (cut b len) = [(b.addr + headerSize, n)] := by
  unfold cut
  split
  · exact ⟨b.size, hlen, rfl⟩
  · exact ⟨len, Nat.le_refl len, rfl⟩

theorem sizes_cut {len : Nat} (hb : b.size % 16 = 0) (hlen : len % 16 = 0) :
    ∀ x ∈ cut b len, x.size % 16 = 0 := by
  unfold cut
  split
  · exact List.forall_mem_singleton.mpr hb
  · refine List.forall_mem_cons.mpr ⟨hlen, List.forall_mem_singleton.mpr ?_⟩
    show (b.size - len - 48) % 16 = 0
    omega

theorem coalesced_cut {len : Nat} (hc : (pre ++ b :: post).IsChain NotBothFree)
    (hfree : b.free = true) : (pre ++ (cut b len ++ post)).IsChain NotBothFree := by
  unfold cut
  split
  · exact coalesced_replace hc rfl
  · have hrest : ([] ++ b :: post).IsChain NotBothFree := hc.right_of_append
    have hrest' : ([] ++ (⟨b.addr + headerSize + len, b.size - len - headerSize, true⟩ : Block) ::
        post).IsChain NotBothFree := coalesced_free hrest hfree
    refine coalesced_iff.mpr ⟨hc.left_of_append, fun x _ => notBothFree_right x rfl,
      fun x _ => notBothFree_left x rfl, hrest'⟩

/-- The list after `splitBlock` and the store to the flag. -/
theorem listed_takeBlock {len : Nat} (inv : HeapInv h (pre ++ b :: post)) (hlen : len ≤ b.size) :
    Listed (setFree (splitBlock h b.addr len) b.addr false) (pre ++ (cut b len ++ post)) ∧
    Edits (fun x => x = b.addr ∨ x = b.addr + headerSize + len ∧ headerSize + 16 < b.size - len ∨
        ∃ c ∈ post, x = c.addr) h
      (setFree (splitBlock h b.addr len) b.addr false) := by
  have hend := inv.end_le
  unfold kernelHeapStart kernelHeapMaxSize at hend
  obtain ⟨_, _, _, hfin⟩ := inv.tiled.around
  unfold Block.fin headerSize at hfin
  have hd := inv.listed.describes b (List.mem_append_right _ (List.mem_cons_self ..))
  have hremaining : sub64 (size h b.addr) len = b.size - len := by
    rw [hd.size_eq]
    exact Words.sub_eq (by omega) hlen
  unfold cut
  by_cases hsmall : b.size - len ≤ headerSize + 16
  · rw [splitBlock_small (by rw [hremaining]; exact hsmall), if_pos hsmall]
    exact ⟨inv.listed.setFree inv.tiled false, Edits.setFree (Or.inl rfl)⟩
  · rw [if_neg hsmall]
    have hlisted := inv.listed.split inv.tiled (by decide) (by omega) (Nat.not_le.mp hsmall)
    have htiled : Tiled kernelHeapStart (pre ++ { b with size := len } ::
        ⟨b.addr + headerSize + len, b.size - len - headerSize, true⟩ :: post) h.heapEnd := by
      have hcut := tiled_cut hlen
      rw [cut, if_neg hsmall] at hcut
      exact inv.tiled.replace [{ b with size := len }, _] ⟨rfl, hcut.2⟩
    refine ⟨hlisted.setFree htiled false, ((splitBlock_edits (Or.inr ?_) ?_).mono ?_).trans
      (Edits.setFree (Or.inl rfl))⟩
    · omega
    · omega
    · rintro x (hx | hx | ⟨hx, hne⟩)
      · exact Or.inl hx
      · exact Or.inr (Or.inl ⟨hx, Nat.not_le.mp hsmall⟩)
      · rw [inv.listed.next_eq] at hx
        cases post with
        | nil => exact absurd hx hne
        | cons c post => exact Or.inr (Or.inr ⟨c, List.mem_cons_self .., hx⟩)

/-- Taking `len` bytes of a free block. -/
theorem takeBlock_spec {len : Nat} (inv : HeapInv h (pre ++ b :: post)) (hfree : b.free = true)
    (hlen : len ≤ b.size) (h16 : len % 16 = 0) :
    ∃ n h', len ≤ n ∧ takeBlock h b.addr len = (b.addr + headerSize, h') ∧
      HeapInv h' (pre ++ (cut b len ++ post)) ∧ h'.heapEnd = h.heapEnd ∧
      live h'.trace = (b.addr + headerSize, n) :: live h.trace := by
  obtain ⟨hlisted, hedits⟩ := listed_takeBlock inv hlen
  obtain ⟨n, hn, hpay⟩ := payloads_cut (b := b) hlen
  have hmem : b ∈ pre ++ b :: post := List.mem_append_right _ (List.mem_cons_self ..)
  have hsize : size (setFree (splitBlock h b.addr len) b.addr false) b.addr = n := by
    obtain ⟨x, hx, _, hp⟩ := mem_payloads.mp (hpay ▸ List.mem_singleton_self _)
    have hxd := hlisted.describes x (List.mem_append_right _ (List.mem_append_left _ hx))
    have haddr : b.addr + headerSize = x.addr + headerSize := congrArg Prod.fst hp
    have hsize : n = x.size := congrArg Prod.snd hp
    rw [show b.addr = x.addr by omega] at hxd ⊢
    rw [hsize]
    exact hxd.size_eq
  have hold := inv.live
  rw [payloads_append, payloads_cons_free _ hfree] at hold
  refine ⟨n, _, hn, rfl, ?_, hedits.heapEnd, ?_⟩
  · refine inv.edited hedits ?_ hlisted (inv.tiled.replace _ (tiled_cut hlen))
      (forall_mem_replace inv.sizes _ (sizes_cut (inv.sizes b hmem) h16))
      (coalesced_cut inv.coalesced hfree) id ?_ _ _
    · rintro a (rfl | ⟨rfl, hlarge⟩ | ⟨x, hx, rfl⟩)
      · exact inv.header_clear hmem
      · exact inv.free_clear hmem hfree (by omega) (by unfold Block.fin; omega)
      · exact inv.header_clear (List.mem_append_right _ (List.mem_cons_of_mem _ hx))
    · rw [live, hsize, hedits.live_eq, payloads_append, payloads_append, hpay, List.singleton_append]
      exact (hold.cons _).trans List.perm_middle.symm
  · show live (.allocated _ (size _ _) :: _) = _
    rw [live, hsize, hedits.live_eq]

/-! ## Growing -/

/-- The list with a block appended, merged with a free last block. -/
def grow : List Block → Block → List Block
  | [], new => [new]
  | [l], new =>
      if l.free then [{ l with size := l.size + (headerSize + new.size) }] else [l, new]
  | b :: c :: bs, new => b :: grow (c :: bs) new

theorem grow_concat (l new : Block) :
    ∀ bs : List Block, grow (bs ++ [l]) new = bs ++ grow [l] new
  | [] => rfl
  | [_] => rfl
  | b :: c :: bs => congrArg (b :: ·) (grow_concat l new (c :: bs))

section Grow

variable {new : Block}

theorem Tiled.grow {s : Nat} (ht : Tiled s bs new.addr) : Tiled s (grow bs new) new.fin := by
  rcases List.eq_nil_or_concat' bs with rfl | ⟨bs, l, rfl⟩
  · cases ht
    exact ⟨rfl, rfl⟩
  · obtain ⟨m, hbs, hl, hend⟩ := tiled_append.mp ht
    have hend : l.fin = new.addr := hend
    rw [grow_concat, Heap.grow]
    refine tiled_append.mpr ⟨m, hbs, ?_⟩
    split
    · refine ⟨hl, ?_⟩
      unfold Tiled Block.fin
      unfold Block.fin at hend
      simp only
      omega
    · exact ⟨hl, hend.symm, rfl⟩

theorem sizes_grow (h : ∀ x ∈ bs, x.size % 16 = 0) (hnew : new.size % 16 = 0) :
    ∀ x ∈ grow bs new, x.size % 16 = 0 := by
  rcases List.eq_nil_or_concat' bs with rfl | ⟨bs, l, rfl⟩
  · exact List.forall_mem_singleton.mpr hnew
  · obtain ⟨hbs, hl⟩ := List.forall_mem_append.mp h
    have hl := hl l (List.mem_singleton_self l)
    rw [grow_concat, grow]
    refine List.forall_mem_append.mpr ⟨hbs, ?_⟩
    split
    · refine List.forall_mem_singleton.mpr ?_
      show (l.size + (48 + new.size)) % 16 = 0
      omega
    · exact List.forall_mem_cons.mpr ⟨hl, List.forall_mem_singleton.mpr hnew⟩

theorem coalesced_grow (hc : bs.IsChain NotBothFree) : (grow bs new).IsChain NotBothFree := by
  rcases List.eq_nil_or_concat' bs with rfl | ⟨bs, l, rfl⟩
  · exact List.isChain_singleton new
  · rw [grow_concat, grow]
    split
    next hfree => exact coalesced_free hc hfree
    next hused =>
      obtain ⟨hbs, hlast, _, _⟩ := coalesced_iff.mp hc
      exact coalesced_iff.mpr ⟨hbs, hlast,
        fun x _ => notBothFree_left x (Bool.eq_false_iff.mpr hused), List.isChain_singleton new⟩

theorem payloads_grow (hnew : new.free = true) : payloads (grow bs new) = payloads bs := by
  rcases List.eq_nil_or_concat' bs with rfl | ⟨bs, l, rfl⟩
  · exact payloads_cons_free [] hnew
  · rw [grow_concat, grow, payloads_append, payloads_append]
    split
    next hfree =>
      rw [payloads_cons_free (b := l) [] hfree]
      exact congrArg (payloads bs ++ ·) (payloads_cons_free [] hfree)
    next hused =>
      rw [payloads_cons_used _ (Bool.eq_false_iff.mpr hused), payloads_cons_free [] hnew,
        payloads_cons_used _ (Bool.eq_false_iff.mpr hused)]

end Grow

/-- The stores of `appendBlock` that fill the new header. -/
def fillAppend (h : KernelHeap E) (new size : Nat) : KernelHeap E :=
  let h := setMagic h new heapMagic
  let h := setSize h new (sub64 size headerSize)
  let h := setNext h new 0
  let h := setPrev h new 0
  setFree h new true

theorem fillAppend_edits {S : Nat → Prop} {new n : Nat} (hnew : S new) :
    Edits S h (fillAppend h new n) :=
  (Edits.setMagic hnew).trans <| (Edits.setSize hnew).trans <| (Edits.setNext hnew).trans <|
    (Edits.setPrev hnew).trans (Edits.setFree hnew)

theorem header_fillAppend {new n : Nat} :
    header (fillAppend h new n) new = ⟨heapMagic, sub64 n headerSize, true, 0, 0⟩ := by
  rw [fillAppend, header_setFree, header_setPrev (by decide), header_setNext (by decide),
    header_setSize (Words.sub_lt ..), header_setMagic heapMagic_lt]
  rfl

theorem header_fillAppend_of_apart {new n a : Nat} (ha : Apart new a) :
    header (fillAppend h new n) a = header h a := by
  rw [fillAppend, header_setFree_of_apart ha, header_setPrev_of_apart ha,
    header_setNext_of_apart ha, header_setSize_of_apart ha, header_setMagic_of_apart ha]

/-- The header at the end is after all the others. -/
theorem header_fillAppend_before {s end_ n : Nat} (ht : Tiled s bs end_) :
    ∀ x ∈ bs, header (fillAppend h end_ n) x.addr = header h x.addr := fun x hx =>
  header_fillAppend_of_apart (Or.inr (by
    have hfin := (ht.mem_bounds x hx).2
    unfold Block.fin at hfin
    omega))

/-- A filled header alone. -/
theorem listed_singleton (hb : header h b.addr = ⟨heapMagic, b.size, b.free, 0, 0⟩) :
    Listed { h with head := b.addr } [b] := by
  have hb' : header { h with head := b.addr } b.addr = ⟨heapMagic, b.size, b.free, 0, 0⟩ := hb
  refine ⟨rfl, ⟨?_, ?_, trivial⟩, List.forall_mem_singleton.mpr (.of_header hb' rfl rfl rfl)⟩
  · rw [Heap.prev_eq, hb']
  · rw [Heap.next_eq, hb']
    rfl

/-- The headers once a new block is linked after the last one. -/
theorem header_link {l new : Block} {s : Nat} (ht : Tiled s (bs ++ [l]) new.addr)
    (hlt : new.addr < 2 ^ 64) :
    let t := setPrev (setNext h l.addr new.addr) new.addr l.addr
    (∀ x ∈ bs, header t x.addr = header h x.addr) ∧
      header t l.addr = (header h l.addr).withNext new.addr ∧
      header t new.addr = (header h new.addr).withPrev l.addr := by
  obtain ⟨hbs, _, _, hfin⟩ := ht.around
  unfold Block.fin headerSize at hbs hfin
  have hln : Apart l.addr new.addr := Or.inl (by unfold headerSize; omega)
  refine ⟨fun x hx => ?_, ?_, ?_⟩
  · rw [header_setPrev_of_apart (Or.inr (by have := (hbs x hx).2; unfold headerSize; omega)),
      header_setNext_of_apart (ht.apart_left hx).symm]
  · rw [header_setPrev_of_apart hln.symm, header_setNext hlt]
  · rw [header_setPrev (by omega), header_setNext_of_apart hln]

/-- Linking a filled header after the last block. -/
theorem listed_link {l new : Block} {s : Nat} (hl : Listed h (bs ++ [l]))
    (ht : Tiled s (bs ++ [l]) new.addr) (hlt : new.addr < 2 ^ 64)
    (hnew : header h new.addr = ⟨heapMagic, new.size, new.free, 0, 0⟩) :
    Listed (setPrev (setNext h l.addr new.addr) new.addr l.addr) (bs ++ [l, new]) := by
  obtain ⟨hd₁, hd⟩ := List.forall_mem_append.mp hl.describes
  have hd₂ := hd l (List.mem_singleton_self l)
  obtain ⟨hother, hlast, hnew'⟩ := header_link (h := h) ht hlt
  rw [hnew] at hnew'
  refine ⟨?_, ?_, ?_⟩
  · show h.head = _
    rw [hl.head, List.map_append, List.map_append, first_append, first_append]
    rfl
  · have hlinked := hl.linked
    rw [List.map_append] at hlinked
    rw [List.map_append]
    refine Segment.insert List.nodup_nil (List.forall_mem_map.mpr fun x hx => ?_) ?_ ?_
      (fun x hx => absurd hx List.not_mem_nil) (fun x hx => absurd hx List.not_mem_nil) hlinked
    · rw [Heap.next_eq, Heap.prev_eq, hother x hx]
      exact ⟨rfl, rfl⟩
    · rw [Heap.next_eq, Heap.prev_eq, hlast]
      exact ⟨rfl, rfl⟩
    · rw [Heap.next_eq, Heap.prev_eq, hnew']
      exact ⟨rfl, rfl⟩
  · refine List.forall_mem_append.mpr ⟨fun x hx => (hd₁ x hx).congr (hother x hx),
      List.forall_mem_cons.mpr ⟨.of_header hlast hd₂.1 hd₂.2.1 hd₂.2.2,
        List.forall_mem_singleton.mpr (.of_header hnew' rfl rfl rfl)⟩⟩

section Append

variable [KernelPages E]

/-- `appendBlock` in terms of its parts. -/
theorem appendBlock_eq (h : KernelHeap E) (n : Nat) :
    appendBlock h n =
      if !KernelPages.isMapped h.env h.heapEnd then none
      else if h.head = 0 then some { fillAppend h h.heapEnd n with head := h.heapEnd }
      else (lastBlockLoop (fillAppend h h.heapEnd n) h.head maxBlocks).map fun last =>
        let h' := setPrev (setNext (fillAppend h h.heapEnd n) last h.heapEnd) h.heapEnd last
        if isFree h' last then mergeWithNext h' last else h' := by
  show (if !KernelPages.isMapped h.env h.heapEnd then none
    else if h.head = 0 then _ else (lastBlockLoop (fillAppend h h.heapEnd n) h.head maxBlocks).bind _) = _
  cases lastBlockLoop (fillAppend h h.heapEnd n) h.head maxBlocks <;> rfl

end Append

/-- Merging the new block into a free last block. -/
theorem listed_mergeLast {l new : Block} {S : Nat → Prop} (hl : Listed h (bs ++ [l, new]))
    (ht : Tiled kernelHeapStart (bs ++ [l, new]) new.fin) (hlt : new.fin < 2 ^ 64)
    (hfree : new.free = true) (hS : S l.addr) :
    Listed (if isFree h l.addr then mergeWithNext h l.addr else h) (bs ++ grow [l] new) ∧
    Edits S h (if isFree h l.addr then mergeWithNext h l.addr else h) := by
  have hd := hl.describes l (List.mem_append_right _ (List.mem_cons_self ..))
  rw [hd.isFree_eq, grow]
  split
  next hlf =>
    obtain ⟨hmerged, hedits⟩ := hl.merge ht (by decide) hlt hfree
    refine ⟨hmerged, hedits.mono fun x hx => ?_⟩
    rcases hx with heq | ⟨heq, hne⟩
    · rw [heq]
      exact hS
    · rw [heq] at hne
      have hlast : next h l.addr = new.addr := hl.next_eq
      have hl' : Listed h ((bs ++ [l]) ++ [new]) := by
        rw [List.append_assoc]
        exact hl
      have hnull : next h new.addr = 0 := hl'.next_eq
      rw [hlast, hnull] at hne
      exact absurd rfl hne
  next => exact ⟨hl, .refl h⟩

/-- Appending to a list that has a last block. -/
theorem listed_append {l new : Block} {n : Nat} (hl : Listed h (bs ++ [l]))
    (ht : Tiled kernelHeapStart (bs ++ [l]) new.addr) (hlt : new.fin < 2 ^ 64)
    (hfree : new.free = true) (hn : sub64 n headerSize = new.size) :
    let s := setPrev (setNext (fillAppend h new.addr n) l.addr new.addr) new.addr l.addr
    Listed (if isFree s l.addr then mergeWithNext s l.addr else s) (bs ++ grow [l] new) ∧
    Edits (fun x => x = new.addr ∨ ∃ b ∈ bs ++ [l], x = b.addr) h
      (if isFree s l.addr then mergeWithNext s l.addr else s) ∧
    magic (if isFree s l.addr then mergeWithNext s l.addr else s) new.addr = heapMagic := by
  have hnew : header (fillAppend h new.addr n) new.addr = ⟨heapMagic, new.size, new.free, 0, 0⟩ := by
    rw [header_fillAppend, hn, hfree]
  have hfill : Listed (fillAppend h new.addr n) (bs ++ [l]) :=
    hl.congr rfl (header_fillAppend_before ht)
  have hlisted := listed_link hfill ht (by unfold Block.fin at hlt; omega) hnew
  have hlmem : l ∈ bs ++ [l] := List.mem_append_right _ (List.mem_singleton_self l)
  have hedits : Edits (fun x => x = new.addr ∨ ∃ b ∈ bs ++ [l], x = b.addr) h
      (setPrev (setNext (fillAppend h new.addr n) l.addr new.addr) new.addr l.addr) :=
    (fillAppend_edits (Or.inl rfl)).trans <|
      (Edits.setNext (Or.inr ⟨l, hlmem, rfl⟩)).trans (Edits.setPrev (Or.inl rfl))
  have htiled : Tiled kernelHeapStart (bs ++ [l, new]) new.fin := by
    obtain ⟨m, hbs, hm, hend⟩ := tiled_append.mp ht
    exact tiled_append.mpr ⟨m, hbs, hm, hend.symm, rfl⟩
  obtain ⟨hmerged, hedits'⟩ := listed_mergeLast (S := (· = l.addr)) hlisted htiled hlt hfree rfl
  have hold : magic (setPrev (setNext (fillAppend h new.addr n) l.addr new.addr) new.addr l.addr)
      new.addr = heapMagic := by
    obtain ⟨_, _, hheader⟩ := header_link (h := fillAppend h new.addr n) ht
      (by unfold Block.fin at hlt; omega)
    rw [Heap.magic_eq, hheader, hnew]
    rfl
  have hfin : l.fin ≤ new.addr := (ht.mem_bounds l hlmem).2
  refine ⟨hmerged, hedits.trans (hedits'.mono fun x hx => Or.inr ⟨l, hlmem, hx⟩), ?_⟩
  rw [hedits'.magic_eq fun a ha => ?_, hold]
  rw [ha]
  unfold Block.fin at hfin
  exact Or.inl (by omega)

variable [KernelPages E]

omit [KernelPages E] in
/-- The walk to the last block, after the new header has been filled. -/
theorem walk_last {l : Block} (new : Block) (n : Nat) (hl : Listed h (bs ++ [l]))
    (ht : Tiled kernelHeapStart (bs ++ [l]) new.addr) (hlen : (bs ++ [l]).length < maxBlocks) :
    h.head ≠ 0 ∧ lastBlockLoop (fillAppend h new.addr n) h.head maxBlocks = some l.addr := by
  have hnz : ∀ x ∈ bs ++ [l], x.addr ≠ 0 := fun x hx => by
    have := (ht.mem_bounds x hx).1
    unfold kernelHeapStart at this
    omega
  have hlisted : Listed (fillAppend h new.addr n) (bs ++ [l]) :=
    hl.congr rfl (header_fillAppend_before ht)
  rw [hl.head]
  refine ⟨?_, ?_⟩
  · cases bs with
    | nil => exact hnz l (List.mem_singleton_self l)
    | cons c cs => exact hnz c (List.mem_cons_self ..)
  · rw [List.length_append] at hlen
    exact lastBlockLoop_eq hlisted.linked hnz (by omega)

/-- Appending a block grows the list. -/
theorem appendBlock_spec (new : Block) {n : Nat} (hl : Listed h bs)
    (ht : Tiled kernelHeapStart bs new.addr) (hend : h.heapEnd = new.addr)
    (hlen : bs.length < maxBlocks) (hlt : new.fin < 2 ^ 64) (hfree : new.free = true)
    (hn : sub64 n headerSize = new.size) (happ : appendBlock h n = some h') :
    Listed h' (grow bs new) ∧
    Edits (fun x => x = new.addr ∨ ∃ b ∈ bs, x = b.addr) { h with head := h'.head } h' ∧
    magic h' new.addr = heapMagic := by
  rw [appendBlock_eq, hend] at happ
  split at happ
  next => cases happ
  rcases List.eq_nil_or_concat' bs with rfl | ⟨bs, l, rfl⟩
  · have hhead : h.head = 0 := hl.head
    rw [if_pos hhead, Option.some.injEq] at happ
    subst happ
    have hnew : header (fillAppend h new.addr n) new.addr =
        ⟨heapMagic, new.size, new.free, 0, 0⟩ := by
      rw [header_fillAppend, hn, hfree]
    refine ⟨listed_singleton hnew, (fillAppend_edits (Or.inl rfl)).set_head new.addr, ?_⟩
    have hmagic : magic (fillAppend h new.addr n) new.addr = heapMagic := by
      rw [Heap.magic_eq, hnew]
    exact hmagic
  · obtain ⟨hhead, hwalk⟩ := walk_last new n hl ht hlen
    rw [if_neg hhead, hwalk, Option.map_some, Option.some.injEq] at happ
    obtain ⟨hlisted, hedits, hmagic⟩ := listed_append hl ht hlt hfree hn
    rw [grow_concat]
    subst happ
    exact ⟨hlisted, hedits.with_head, hmagic⟩

/-- `appendBlock` returns when the page at the end of the heap is mapped. -/
theorem appendBlock_returns {n : Nat} (hl : Listed h bs)
    (ht : Tiled kernelHeapStart bs h.heapEnd) (hlen : bs.length < maxBlocks)
    (hmapped : KernelPages.isMapped h.env h.heapEnd = true) :
    ∃ h', appendBlock h n = some h' := by
  rw [appendBlock_eq, hmapped, if_neg (by decide)]
  rcases List.eq_nil_or_concat' bs with rfl | ⟨bs, l, rfl⟩
  · have hhead : h.head = 0 := hl.head
    exact ⟨_, if_pos hhead⟩
  · obtain ⟨hhead, hwalk⟩ := walk_last ⟨h.heapEnd, 0, true⟩ n hl ht hlen
    simp only at hwalk
    rw [if_neg hhead, hwalk]
    exact ⟨_, rfl⟩

end Avery.Heap
