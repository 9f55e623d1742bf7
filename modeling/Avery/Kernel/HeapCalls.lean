import Avery.Kernel.HeapOperations

/-!
# The calls of the heap

`expandHeap`, `allocate`, `free` and `realloc` keep the invariant and change the
live allocations as their callers expect: an allocation adds one, a free removes
one, and a failed call leaves them as they are.
-/

namespace Avery.Heap

open LinkedList

variable {E : Type} {h h' : KernelHeap E} {pre post bs : List Block} {b : Block}

/-! ## Freeing -/

/-- The merge with the next block in `free`. -/
def mergeRight (h : KernelHeap E) (a : Nat) : KernelHeap E :=
  if next h a ≠ 0 ∧ isFree h (next h a) then mergeWithNext h a else h

/-- The merge with the previous block in `free`. -/
def mergeLeft (h : KernelHeap E) (a : Nat) : KernelHeap E :=
  if prev h a ≠ 0 ∧ isFree h (prev h a) then mergeWithNext h (prev h a) else h

theorem Tiled.merge {s e : Nat} {b c : Block} (ht : Tiled s (pre ++ b :: c :: post) e) :
    Tiled s (pre ++ { b with size := b.size + (headerSize + c.size) } :: post) e := by
  obtain ⟨m, hpre, hb, hc, hpost⟩ := tiled_append.mp ht
  have hfin : b.addr + headerSize + (b.size + (headerSize + c.size)) = c.fin := by
    unfold Block.fin at hc ⊢
    omega
  refine tiled_append.mpr ⟨m, hpre, hb, ?_⟩
  rw [Block.fin, hfin]
  exact hpost

theorem sizes_merge {b c : Block} (h : ∀ x ∈ pre ++ b :: c :: post, x.size % 16 = 0) :
    ∀ x ∈ pre ++ { b with size := b.size + (headerSize + c.size) } :: post, x.size % 16 = 0 := by
  obtain ⟨hpre, hrest⟩ := List.forall_mem_append.mp h
  obtain ⟨hb, hrest⟩ := List.forall_mem_cons.mp hrest
  obtain ⟨hc, hpost⟩ := List.forall_mem_cons.mp hrest
  refine List.forall_mem_append.mpr ⟨hpre, List.forall_mem_cons.mpr ⟨?_, hpost⟩⟩
  show (b.size + (48 + c.size)) % 16 = 0
  omega

theorem mergeRight_of_used (hl : Listed h (pre ++ b :: post))
    (hnext : ∀ y ∈ post.head?, y.free = false) : mergeRight h b.addr = h := by
  unfold mergeRight
  cases post with
  | nil =>
      have hnull : next h b.addr = 0 := hl.next_eq
      exact if_neg fun hc => hc.1 hnull
  | cons c post =>
      have hskip : next h b.addr = c.addr := hl.next_eq
      have hd := hl.describes c
        (List.mem_append_right _ (List.mem_cons_of_mem _ (List.mem_cons_self ..)))
      rw [hskip, hd.isFree_eq, hnext c rfl]
      exact if_neg fun hc => Bool.false_ne_true hc.2

theorem mergeLeft_of_used (hl : Listed h (pre ++ b :: post))
    (hprev : ∀ x ∈ pre.getLast?, x.free = false) : mergeLeft h b.addr = h := by
  have hback := hl.prev_eq
  unfold mergeLeft
  rcases List.eq_nil_or_concat' pre with rfl | ⟨pre, l, rfl⟩
  · have hback : prev h b.addr = 0 := hback
    exact if_neg fun hc => hc.1 hback
  · rw [List.map_append, last_append] at hback
    have hback : prev h b.addr = l.addr := hback
    have hd := hl.describes l
      (List.mem_append_left _ (List.mem_append_right _ (List.mem_singleton_self l)))
    rw [hback, hd.isFree_eq, hprev l List.getLast?_concat]
    exact if_neg fun hc => Bool.false_ne_true hc.2

theorem mergeRight_of_free {c : Block} (hl : Listed h (pre ++ b :: c :: post)) (hcz : c.addr ≠ 0)
    (hfree : c.free = true) : mergeRight h b.addr = mergeWithNext h b.addr := by
  have hskip : next h b.addr = c.addr := hl.next_eq
  have hd := hl.describes c
    (List.mem_append_right _ (List.mem_cons_of_mem _ (List.mem_cons_self ..)))
  unfold mergeRight
  rw [hskip, hd.isFree_eq]
  exact if_pos ⟨hcz, hfree⟩

/-- After the merge with the next block, the block that follows is in use. -/
theorem mergeRight_spec {e : Nat} (hl : Listed h (pre ++ b :: post))
    (ht : Tiled kernelHeapStart (pre ++ b :: post) e) (he : e < 2 ^ 64)
    (hsizes : ∀ x ∈ pre ++ b :: post, x.size % 16 = 0) (hchain : post.IsChain NotBothFree) :
    ∃ c rest, c.addr = b.addr ∧ c.free = b.free ∧
      Listed (mergeRight h b.addr) (pre ++ c :: rest) ∧
      Tiled kernelHeapStart (pre ++ c :: rest) e ∧
      (∀ x ∈ pre ++ c :: rest, x.size % 16 = 0) ∧ rest.IsChain NotBothFree ∧
      (∀ y ∈ rest.head?, y.free = false) ∧ (∀ x ∈ rest, x ∈ post) ∧
      payloads rest = payloads post ∧
      Edits (fun a => ∃ x ∈ b :: post, a = x.addr) h (mergeRight h b.addr) := by
  cases post with
  | nil =>
      rw [mergeRight_of_used hl fun y hy => (Option.not_mem_none y hy).elim]
      exact ⟨b, [], rfl, rfl, hl, ht, hsizes, hchain, fun y hy => (Option.not_mem_none y hy).elim,
        fun _ hx => hx, rfl, .refl h⟩
  | cons c post =>
      have hnext : next h b.addr = c.addr := hl.next_eq
      have hcz : c.addr ≠ 0 := by
        have hle := (ht.mem_bounds c
          (List.mem_append_right _ (List.mem_cons_of_mem _ (List.mem_cons_self ..)))).1
        unfold kernelHeapStart at hle
        omega
      cases hfree : c.free with
      | false =>
          have hhead : ∀ y ∈ (c :: post).head?, y.free = false := fun y hy => by
            cases hy
            exact hfree
          rw [mergeRight_of_used hl hhead]
          exact ⟨b, c :: post, rfl, rfl, hl, ht, hsizes, hchain, hhead, fun _ hx => hx, rfl,
            .refl h⟩
      | true =>
          rw [mergeRight_of_free hl hcz hfree]
          obtain ⟨hmerged, hedits⟩ := hl.merge ht (by decide) he hfree
          rw [List.isChain_cons] at hchain
          refine ⟨{ b with size := b.size + (headerSize + c.size) }, post, rfl, rfl, hmerged,
            ht.merge, sizes_merge hsizes, hchain.2, fun y hy => ?_,
            fun _ hx => List.mem_cons_of_mem c hx, ?_, ?_⟩
          · cases hyf : y.free with
            | false => rfl
            | true => exact absurd ⟨hfree, hyf⟩ (hchain.1 y hy)
          · exact (payloads_cons_free post hfree).symm
          · refine hedits.mono fun a ha => ?_
            rcases ha with heq | ⟨heq, hne⟩
            · exact ⟨b, List.mem_cons_self .., heq⟩
            · have hl' : Listed h ((pre ++ [b]) ++ c :: post) := by
                rw [List.append_assoc]
                exact hl
              have hskip := hl'.next_eq
              rw [heq, hnext] at hne
              rw [heq, hnext]
              refine next_apart hskip (P := fun a => ∃ x ∈ b :: c :: post, a = x.addr)
                (fun x hx => ⟨x, ?_, rfl⟩) hne
              exact List.mem_cons_of_mem _ (List.mem_cons_of_mem _ hx)

/-- After the merge with the previous block no two neighbours are free. -/
theorem mergeLeft_spec {e : Nat} (hl : Listed h (pre ++ b :: post))
    (ht : Tiled kernelHeapStart (pre ++ b :: post) e) (he : e < 2 ^ 64)
    (hsizes : ∀ x ∈ pre ++ b :: post, x.size % 16 = 0) (hpre : pre.IsChain NotBothFree)
    (hpost : post.IsChain NotBothFree) (hhead : ∀ y ∈ post.head?, y.free = false)
    (hfree : b.free = true) :
    ∃ bs, Listed (mergeLeft h b.addr) bs ∧ Tiled kernelHeapStart bs e ∧
      (∀ x ∈ bs, x.size % 16 = 0) ∧ bs.IsChain NotBothFree ∧
      payloads bs = payloads pre ++ payloads post ∧
      Edits (fun a => ∃ x ∈ pre ++ b :: post, a = x.addr) h (mergeLeft h b.addr) := by
  have hpayloads : payloads (pre ++ b :: post) = payloads pre ++ payloads post := by
    rw [payloads_append, payloads_cons_free post hfree]
  have hright : ∀ y ∈ post.head?, NotBothFree b y := fun y hy =>
    notBothFree_right b (hhead y hy)
  rcases List.eq_nil_or_concat' pre with rfl | ⟨pre, l, rfl⟩
  · rw [mergeLeft_of_used hl fun x hx => (Option.not_mem_none x hx).elim]
    refine ⟨_, hl, ht, hsizes, coalesced_iff.mpr ⟨hpre, fun x hx => ?_, hright, hpost⟩, hpayloads,
      .refl h⟩
    exact (Option.not_mem_none x hx).elim
  · have hlmem : l ∈ (pre ++ [l]) ++ b :: post :=
      List.mem_append_left _ (List.mem_append_right _ (List.mem_singleton_self l))
    cases hlf : l.free with
    | false =>
        have hlast : ∀ x ∈ (pre ++ [l]).getLast?, x.free = false := fun x hx => by
          rw [List.getLast?_concat, Option.mem_some_iff] at hx
          exact hx ▸ hlf
        rw [mergeLeft_of_used hl hlast]
        exact ⟨_, hl, ht, hsizes, coalesced_iff.mpr
          ⟨hpre, fun x hx => notBothFree_left b (hlast x hx), hright, hpost⟩, hpayloads, .refl h⟩
    | true =>
        have hprev := hl.prev_eq
        rw [List.map_append, last_append] at hprev
        have hprev : prev h b.addr = l.addr := hprev
        have hlz : l.addr ≠ 0 := by
          have hle := (ht.mem_bounds l hlmem).1
          unfold kernelHeapStart at hle
          omega
        unfold mergeLeft
        rw [hprev, (hl.describes l hlmem).isFree_eq, if_pos ⟨hlz, hlf⟩]
        have hl' : Listed h (pre ++ l :: b :: post) := by
          rw [List.append_assoc] at hl
          exact hl
        have ht' : Tiled kernelHeapStart (pre ++ l :: b :: post) e := by
          rw [List.append_assoc] at ht
          exact ht
        have hsizes' : ∀ x ∈ pre ++ l :: b :: post, x.size % 16 = 0 := by
          rw [List.append_assoc] at hsizes
          exact hsizes
        obtain ⟨hmerged, hedits⟩ := hl'.merge ht' (by decide) he hfree
        refine ⟨_, hmerged, ht'.merge, sizes_merge hsizes', ?_, ?_, ?_⟩
        · obtain ⟨h₁, h₂, _, _⟩ := coalesced_iff.mp hpre
          exact coalesced_iff.mpr ⟨h₁, fun x hx hc => h₂ x hx ⟨hc.1, hlf⟩,
            fun y hy => notBothFree_right _ (hhead y hy), hpost⟩
        · have hl₀ : payloads [l] = [] := payloads_cons_free [] hlf
          rw [payloads_append, payloads_append, hl₀, List.append_nil]
          exact congrArg (payloads pre ++ ·) (payloads_cons_free post hlf)
        · refine hedits.mono fun a ha => ?_
          rcases ha with heq | ⟨heq, hne⟩
          · exact ⟨l, hlmem, heq⟩
          · have hlb : next h l.addr = b.addr := hl'.next_eq
            rw [heq, hlb] at hne
            rw [heq, hlb]
            refine next_apart hl.next_eq (P := fun a => ∃ x ∈ (pre ++ [l]) ++ b :: post, a = x.addr)
              (fun x hx => ⟨x, ?_, rfl⟩) hne
            exact List.mem_append_right _ (List.mem_cons_of_mem _ hx)

/-- Both merges of `free`. -/
theorem mergeBoth_spec {e : Nat} (hl : Listed h (pre ++ b :: post))
    (ht : Tiled kernelHeapStart (pre ++ b :: post) e) (he : e < 2 ^ 64)
    (hsizes : ∀ x ∈ pre ++ b :: post, x.size % 16 = 0) (hpre : pre.IsChain NotBothFree)
    (hpost : post.IsChain NotBothFree) (hfree : b.free = true) :
    ∃ bs, Listed (mergeLeft (mergeRight h b.addr) b.addr) bs ∧ Tiled kernelHeapStart bs e ∧
      (∀ x ∈ bs, x.size % 16 = 0) ∧ bs.IsChain NotBothFree ∧
      payloads bs = payloads pre ++ payloads post ∧
      Edits (fun a => ∃ x ∈ pre ++ b :: post, a = x.addr) h
        (mergeLeft (mergeRight h b.addr) b.addr) := by
  obtain ⟨c, rest, hc, hcfree, hl₁, ht₁, hs₁, hrest, hhead, hsub, hpay, hedits₁⟩ :=
    mergeRight_spec hl ht he hsizes hpost
  obtain ⟨bs, hl₂, ht₂, hs₂, hchain, hpay₂, hedits₂⟩ :=
    mergeLeft_spec hl₁ ht₁ he hs₁ hpre hrest hhead (hcfree.trans hfree)
  rw [hc] at hl₂ hedits₂
  refine ⟨bs, hl₂, ht₂, hs₂, hchain, by rw [hpay₂, hpay], (hedits₁.mono ?_).trans (hedits₂.mono ?_)⟩
  · rintro a ⟨x, hx, rfl⟩
    exact ⟨x, List.mem_append_right _ hx, rfl⟩
  · rintro a ⟨x, hx, rfl⟩
    rcases List.mem_append.mp hx with hx | hx
    · exact ⟨x, List.mem_append_left _ hx, rfl⟩
    rcases List.mem_cons.mp hx with rfl | hx
    · exact ⟨b, List.mem_append_right _ (List.mem_cons_self ..), hc⟩
    · exact ⟨x, List.mem_append_right _ (List.mem_cons_of_mem _ (hsub x hx)), rfl⟩

/-- The steps of `free` on a block in use. -/
theorem free_eq {a : Nat} (hmagic : magic h a = heapMagic) (hused : isFree h a = false) :
    free h (a + headerSize) =
      let h' := setFree h a true
      let h' := mergeLeft (mergeRight
        { h' with
          usedMemory := sub64 h'.usedMemory (size h' a)
          freeMemory := add64 h'.freeMemory (size h' a) } a) a
      some { h' with trace := .freed (a + headerSize) :: h'.trace } := by
  have hz : a + headerSize ≠ 0 := by
    unfold headerSize
    omega
  have hgo : ¬ (magic h a ≠ heapMagic ∨ isFree h a = true) := by
    rw [hmagic, hused]
    exact fun hc => hc.elim (fun hne => hne rfl) Bool.false_ne_true
  unfold free
  rw [if_neg hz, Nat.add_sub_cancel]
  exact if_neg hgo

/-- Dropping the payload of one block. -/
theorem filter_payloads {e : Nat} (ht : Tiled kernelHeapStart (pre ++ b :: post) e) :
    (payloads pre ++ b.payload :: payloads post).filter (fun a => a.1 ≠ b.addr + headerSize) =
      payloads pre ++ payloads post := by
  have hkeep : ∀ cs : List Block, (∀ x ∈ cs, x.addr ≠ b.addr) →
      (payloads cs).filter (fun a => a.1 ≠ b.addr + headerSize) = payloads cs := fun cs hcs => by
    refine List.filter_eq_self.mpr fun p hp => ?_
    obtain ⟨x, hx, _, rfl⟩ := mem_payloads.mp hp
    have hne := hcs x hx
    exact decide_eq_true (by unfold Block.payload; simp only; omega)
  obtain ⟨hpre, hpost, _, _⟩ := ht.around
  unfold Block.fin headerSize at hpre hpost
  rw [List.filter_append, hkeep pre fun x hx => by have := (hpre x hx).2; omega,
    List.filter_cons_of_neg (by unfold Block.payload; simp),
    hkeep post fun x hx => by have := (hpost x hx).1; omega]

/-- `free` of a live pointer returns, and the pointer is no longer live. -/
theorem free_spec {ptr : Nat} (inv : HeapInv h bs) (hlive : ptr ∈ (live h.trace).map Prod.fst) :
    ∃ h' bs', free h ptr = some h' ∧ HeapInv h' bs' ∧ h'.heapEnd = h.heapEnd ∧
      live h'.trace = (live h.trace).filter fun a => a.1 ≠ ptr := by
  obtain ⟨p, hp, rfl⟩ := List.mem_map.mp hlive
  obtain ⟨b, hb, hused, rfl⟩ := inv.mem_live.mp hp
  have hend := inv.end_le
  have hd := inv.listed.describes b hb
  obtain ⟨pre, post, rfl⟩ := List.append_of_mem hb
  rw [show b.payload.1 = b.addr + headerSize from rfl, free_eq hd.magic_eq (hd.isFree_eq.trans hused)]
  have he : h.heapEnd < 2 ^ 64 := by
    unfold kernelHeapStart kernelHeapMaxSize at hend
    omega
  obtain ⟨hpre, _, _, hpost⟩ := coalesced_iff.mp inv.coalesced
  have htiled : Tiled kernelHeapStart (pre ++ { b with free := true } :: post) h.heapEnd :=
    inv.tiled.replace [{ b with free := true }] ⟨rfl, rfl⟩
  have hsizes : ∀ x ∈ pre ++ { b with free := true } :: post, x.size % 16 = 0 :=
    forall_mem_replace inv.sizes [{ b with free := true }]
      (List.forall_mem_singleton.mpr (inv.sizes b hb))
  -- the flag and the counters
  have hedits₁ : Edits (fun a => ∃ x ∈ pre ++ b :: post, a = x.addr) h (setFree h b.addr true) :=
    Edits.setFree ⟨b, hb, rfl⟩
  have hlisted₁ := inv.listed.setFree inv.tiled true
  generalize setFree h b.addr true = h₁ at hedits₁ hlisted₁ ⊢
  have hedits₂ := hedits₁.trans (Edits.counters h₁ (sub64 h₁.usedMemory (size h₁ b.addr))
    (add64 h₁.freeMemory (size h₁ b.addr)))
  have hlisted₂ := hlisted₁.counters (sub64 h₁.usedMemory (size h₁ b.addr))
    (add64 h₁.freeMemory (size h₁ b.addr))
  simp only at hedits₂ hlisted₂ ⊢
  generalize ({ h₁ with
    usedMemory := sub64 h₁.usedMemory (size h₁ b.addr)
    freeMemory := add64 h₁.freeMemory (size h₁ b.addr) } : KernelHeap E) = h₂
    at hedits₂ hlisted₂ ⊢
  -- the two merges
  obtain ⟨bs', hlisted, htiled', hsizes', hchain, hpay, hedits₃⟩ :=
    mergeBoth_spec hlisted₂ htiled he hsizes hpre hpost rfl
  simp only at hlisted hedits₃
  generalize mergeLeft (mergeRight h₂ b.addr) b.addr = h₃ at hlisted hedits₃ ⊢
  have hedits := hedits₂.trans (hedits₃.mono fun a ha => ?_)
  · have hlive' : live (.freed (b.addr + headerSize) :: h₃.trace) =
        (live h.trace).filter fun a => a.1 ≠ b.addr + headerSize := by
      rw [live, hedits.live_eq]
    refine ⟨{ h₃ with trace := .freed (b.addr + headerSize) :: h₃.trace }, bs', rfl, ?_,
      hedits.heapEnd, hlive'⟩
    refine inv.edited hedits ?_ hlisted htiled' hsizes' hchain id ?_ _ _
    · rintro a ⟨x, hx, rfl⟩
      exact inv.header_clear hx
    · have hold := inv.live
      rw [payloads_append, payloads_cons_used post hused] at hold
      have hkept := hold.filter fun a => a.1 ≠ b.addr + headerSize
      rw [filter_payloads inv.tiled] at hkept
      rw [hlive', hpay]
      exact hkept
  · obtain ⟨x, hx, rfl⟩ := ha
    rcases List.mem_append.mp hx with hx | hx
    · exact ⟨x, List.mem_append_left _ hx, rfl⟩
    rcases List.mem_cons.mp hx with rfl | hx
    · exact ⟨b, hb, rfl⟩
    · exact ⟨x, List.mem_append_right _ (List.mem_cons_of_mem _ hx), rfl⟩

/-! ## Growing -/

/-- The environment may change under the heap. -/
theorem HeapInv.setEnv (inv : HeapInv h bs) (env : E) : HeapInv { h with env } bs :=
  inv.write h.mem env fun _ _ _ _ => rfl

/-- The end of the heap moves past the new block. -/
theorem HeapInv.grow {new : Block} {freeMemory : Nat} (inv : HeapInv h bs)
    (haddr : new.addr = h.heapEnd) (hfree : new.free = true) (hsize : new.size % 16 = 0)
    (hfits : new.fin ≤ h.heapMax) (hpages : new.fin % 4096 = 0)
    (hlisted : Listed h' (Heap.grow bs new))
    (hedits : Edits (fun x => x = new.addr ∨ ∃ b ∈ bs, x = b.addr) { h with head := h'.head } h') :
    HeapInv { h' with heapEnd := new.fin, freeMemory } (Heap.grow bs new) where
  listed := hlisted.congr rfl fun _ _ => rfl
  tiled := by
    have htiled := inv.tiled
    rw [← haddr] at htiled
    exact htiled.grow
  sizes := sizes_grow inv.sizes hsize
  coalesced := coalesced_grow inv.coalesced
  start := hedits.heapStart.trans inv.start
  max := hedits.heapMax.trans inv.max
  fits := hfits.trans (Nat.le_of_eq hedits.heapMax.symm)
  pages := hpages
  live := by
    rw [payloads_grow hfree]
    exact (List.Perm.of_eq hedits.live_eq).trans inv.live
  safe := by
    refine hedits.safe inv.safe fun a ha => ?_
    rcases ha with rfl | ⟨b, hb, rfl⟩
    · exact inv.end_clear (Nat.le_of_eq haddr.symm)
    · exact inv.header_clear hb

section

variable [KernelPages E]

/-- `expandHeap` in terms of its parts. -/
theorem expandHeap_eq (h : KernelHeap E) (n : Nat) :
    expandHeap h n =
      if add64 h.heapEnd (alignUp n 4096) > h.heapMax then some (false, h)
      else (mapPagesLoop h.env h.heapEnd 0 (alignUp n 4096 / 4096)).bind fun r =>
        if !r.1 then some (false, { h with env := r.2 })
        else (appendBlock { h with env := r.2 } (alignUp n 4096)).map fun h' =>
          (true, { h' with
            heapEnd := add64 h'.heapEnd (alignUp n 4096)
            freeMemory := add64 h'.freeMemory (sub64 (alignUp n 4096) headerSize) }) := by
  unfold expandHeap
  refine if_congr Iff.rfl rfl ?_
  cases mapPagesLoop h.env h.heapEnd 0 (alignUp n 4096 / 4096) with
  | none => rfl
  | some r =>
      obtain ⟨ok, env⟩ := r
      cases ok with
      | false => rfl
      | true => cases happ : appendBlock { h with env } (alignUp n 4096) <;> simp [happ]

/-- `expandHeap` when neither rounding up nor the end of the heap wraps. -/
theorem HeapInv.expandHeap_eq {n : Nat} (inv : HeapInv h bs)
    (hn : h.heapEnd + (n + 4095) / 4096 * 4096 < 2 ^ 64) :
    expandHeap h n =
      if h.heapEnd + (n + 4095) / 4096 * 4096 > h.heapMax then some (false, h)
      else (mapPagesLoop h.env h.heapEnd 0 ((n + 4095) / 4096)).bind fun r =>
        if !r.1 then some (false, { h with env := r.2 })
        else (appendBlock { h with env := r.2 } ((n + 4095) / 4096 * 4096)).map fun h' =>
          (true, { h' with
            heapEnd := add64 h'.heapEnd ((n + 4095) / 4096 * 4096)
            freeMemory := add64 h'.freeMemory
              (sub64 ((n + 4095) / 4096 * 4096) headerSize) }) := by
  have hle := inv.tiled.le
  unfold kernelHeapStart at hle
  have halign : alignUp n 4096 = (n + 4095) / 4096 * 4096 :=
    alignUp_eq (k := 12) (by decide) (by omega)
  have hcount : (n + 4095) / 4096 * 4096 / 4096 = (n + 4095) / 4096 :=
    Nat.mul_div_cancel _ (by decide)
  have hadd : add64 h.heapEnd ((n + 4095) / 4096 * 4096) =
      h.heapEnd + (n + 4095) / 4096 * 4096 := Words.add_eq hn
  rw [Heap.expandHeap_eq, halign, hcount, hadd]

/-- The block that growing by `n` bytes appends. -/
def newBlock (h : KernelHeap E) (n : Nat) : Block :=
  ⟨h.heapEnd, (n + 4095) / 4096 * 4096 - headerSize, true⟩

/-- A successful `expandHeap` appends a block, and a failed one changes nothing
in the heap, as long as rounding up and the end of the heap do not wrap. -/
theorem expandHeap_grows {n : Nat} {ok : Bool} (inv : HeapInv h bs) (hpos : 0 < n)
    (hn : h.heapEnd + (n + 4095) / 4096 * 4096 < 2 ^ 64) (hexp : expandHeap h n = some (ok, h')) :
    (ok = false ∧ ∃ env, h' = { h with env }) ∨
    (ok = true ∧ HeapInv h' (grow bs (newBlock h n)) ∧ live h'.trace = live h.trace ∧
      h'.heapEnd = h.heapEnd + (n + 4095) / 4096 * 4096) := by
  have hend := inv.end_le
  have hmax := inv.max
  have hpages := inv.pages
  unfold kernelHeapStart kernelHeapMaxSize at hend hmax
  have hadd : add64 h.heapEnd ((n + 4095) / 4096 * 4096) =
      h.heapEnd + (n + 4095) / 4096 * 4096 := Words.add_eq hn
  rw [inv.expandHeap_eq hn] at hexp
  unfold newBlock
  generalize hm : (n + 4095) / 4096 * 4096 = m at hexp hn hadd
  split at hexp
  next =>
    simp only [Option.some.injEq, Prod.mk.injEq] at hexp
    obtain ⟨rfl, rfl⟩ := hexp
    exact Or.inl ⟨rfl, h.env, rfl⟩
  next hfits =>
  rw [Option.bind_eq_some_iff] at hexp
  obtain ⟨⟨mapped, env⟩, _, hexp⟩ := hexp
  cases mapped with
  | false =>
      simp only [Bool.not_false, if_true, Option.some.injEq, Prod.mk.injEq] at hexp
      obtain ⟨rfl, rfl⟩ := hexp
      exact Or.inl ⟨rfl, env, rfl⟩
  | true =>
      simp only [Bool.not_true, Bool.false_eq_true, if_false] at hexp
      obtain ⟨h₁, happ, hexp⟩ := Option.map_eq_some_iff.mp hexp
      simp only [Prod.mk.injEq] at hexp
      obtain ⟨rfl, rfl⟩ := hexp
      have hlen := inv.length_lt
      have hsub : sub64 m headerSize = m - headerSize :=
        Words.sub_eq (by omega) (by unfold headerSize; omega)
      have hfin : (⟨h.heapEnd, m - headerSize, true⟩ : Block).fin = h.heapEnd + m := by
        unfold Block.fin headerSize
        simp only
        omega
      have inv' := inv.setEnv env
      obtain ⟨hlisted, hedits, _⟩ := appendBlock_spec ⟨h.heapEnd, m - headerSize, true⟩
        inv'.listed inv.tiled rfl (by omega) (by rw [hfin]; omega) rfl hsub happ
      have hheapEnd : h₁.heapEnd = h.heapEnd := hedits.heapEnd
      rw [hheapEnd, hadd, ← hfin]
      refine Or.inr ⟨rfl, ?_, hedits.live_eq, rfl⟩
      refine inv'.grow rfl rfl ?_ ?_ ?_ hlisted hedits
      · unfold headerSize
        simp only
        omega
      · rw [hfin]
        exact Nat.not_lt.mp hfits
      · rw [hfin]
        omega

theorem expandHeap_spec {n : Nat} {ok : Bool} (inv : HeapInv h bs) (hpos : 0 < n)
    (hn : h.heapEnd + (n + 4095) / 4096 * 4096 < 2 ^ 64) (hexp : expandHeap h n = some (ok, h')) :
    (ok = false ∧ ∃ env, h' = { h with env }) ∨
    (ok = true ∧ ∃ bs', HeapInv h' bs' ∧ live h'.trace = live h.trace ∧
      h.heapEnd + n ≤ h'.heapEnd) := by
  rcases expandHeap_grows inv hpos hn hexp with hfalse | ⟨hok, inv', hlive, hend⟩
  · exact Or.inl hfalse
  · exact Or.inr ⟨hok, _, inv', hlive, by omega⟩

/-! ## Allocating -/

omit [KernelPages E] in
/-- A pointer that `findFreeBlock` returns is the first block that fits. -/
theorem HeapInv.found {n a : Nat} (inv : HeapInv h bs) (hfind : findFreeBlock h n = some a)
    (ha : a ≠ 0) :
    ∃ b, bs.find? (fun b => b.free ∧ n ≤ b.size) = some b ∧ b.addr = a ∧ b.free = true ∧
      n ≤ b.size := by
  rw [inv.findFreeBlock_eq, Option.some.injEq] at hfind
  cases hb : bs.find? fun b => b.free ∧ n ≤ b.size with
  | none =>
      rw [hb] at hfind
      exact absurd hfind.symm ha
  | some b =>
      rw [hb] at hfind
      have hfits := List.find?_some hb
      simp only [Bool.decide_and, Bool.decide_eq_true, Bool.and_eq_true, decide_eq_true_eq] at hfits
      exact ⟨b, rfl, hfind, hfits⟩

omit [KernelPages E] in
/-- Taking the block `findFreeBlock` has found. -/
theorem takeFound {n a : Nat} (inv : HeapInv h bs) (h16 : n % 16 = 0)
    (hfind : findFreeBlock h n = some a) (ha : a ≠ 0) :
    ∃ k h' bs', n ≤ k ∧ takeBlock h a n = (a + headerSize, h') ∧ HeapInv h' bs' ∧
      live h'.trace = (a + headerSize, k) :: live h.trace ∧ h'.heapEnd = h.heapEnd := by
  obtain ⟨b, hb, rfl, hfree, hsize⟩ := inv.found hfind ha
  obtain ⟨pre, post, rfl⟩ := List.append_of_mem (List.mem_of_find?_eq_some hb)
  obtain ⟨k, h', hk, htake, inv', hend, hlive⟩ := takeBlock_spec inv hfree hsize h16
  exact ⟨k, h', _, hk, htake, inv', hlive, hend⟩

/-- What a caller of `allocate` sees. -/
def Allocated (h : KernelHeap E) (n : Nat) (ptr : Nat) (h' : KernelHeap E) : Prop :=
  ptr = 0 ∧ live h'.trace = live h.trace ∨
    ptr ≠ 0 ∧ ∃ k, n ≤ k ∧ live h'.trace = (ptr, k) :: live h.trace

/-- What `allocate` asks `expandHeap` for. -/
def expandSize (n : Nat) : Nat :=
  if alignUp n 16 + headerSize < 4096 then 4096 else alignUp n 16 + headerSize

/-- The bytes that `allocate` would grow the heap by, in numbers that do not
wrap. -/
def growth (n : Nat) : Nat :=
  ((if (n + 15) / 16 * 16 + headerSize < 4096 then 4096 else (n + 15) / 16 * 16 + headerSize) +
    4095) / 4096 * 4096

/-- None of the sums that `allocate` forms for a request leaves the range of a
word. -/
def NoWrap (h : KernelHeap E) (n : Nat) : Prop := h.heapEnd + growth n < 2 ^ 64

omit [KernelPages E] in
theorem HeapInv.noWrap {n : Nat} (inv : HeapInv h bs) (hn : n ≤ kernelHeapMaxSize) :
    NoWrap h n := by
  have hend := inv.end_le
  unfold kernelHeapStart kernelHeapMaxSize at hend
  unfold kernelHeapMaxSize at hn
  unfold NoWrap growth headerSize
  split <;> omega

omit [KernelPages E] in
theorem NoWrap.request {n : Nat} (hn : NoWrap h n) :
    alignUp n 16 % 16 = 0 ∧ n ≤ alignUp n 16 ∧ 0 < expandSize n ∧
      alignUp n 16 + headerSize < 2 ^ 64 ∧
      h.heapEnd + (expandSize n + 4095) / 4096 * 4096 < 2 ^ 64 := by
  unfold NoWrap growth at hn
  unfold headerSize at *
  have halign : alignUp n 16 = (n + 15) / 16 * 16 :=
    alignUp_eq (k := 4) (by decide) (by split at hn <;> omega)
  rw [← halign] at hn
  have hpos : 0 < expandSize n := by
    unfold expandSize headerSize
    split <;> omega
  refine ⟨by omega, by omega, hpos, by split at hn <;> omega, hn⟩

/-- The ways `allocate` returns: at once on size 0, with a block found at once,
or after an attempt to grow. -/
theorem allocate_cases {n ptr : Nat} (hn : NoWrap h n)
    (halloc : allocate h n = some (ptr, h')) :
    (ptr = 0 ∧ h' = h) ∨
    (∃ a, findFreeBlock h (alignUp n 16) = some a ∧ a ≠ 0 ∧
      takeBlock h a (alignUp n 16) = (ptr, h')) ∨
    (∃ ok, expandHeap h (expandSize n) = some (ok, h') ∧ ptr = 0 ∧
      (ok = true → findFreeBlock h' (alignUp n 16) = some 0)) ∨
    ∃ g a, expandHeap h (expandSize n) = some (true, g) ∧
      findFreeBlock g (alignUp n 16) = some a ∧ a ≠ 0 ∧
      takeBlock g a (alignUp n 16) = (ptr, h') := by
  obtain ⟨-, -, -, hsum, -⟩ := hn.request
  unfold allocate at halloc
  split at halloc
  next =>
    simp only [Option.pure_def, Option.some.injEq, Prod.mk.injEq] at halloc
    obtain ⟨rfl, rfl⟩ := halloc
    exact Or.inl ⟨rfl, rfl⟩
  next =>
  simp only at halloc
  obtain ⟨a, hfind, halloc⟩ := Option.bind_eq_some_iff.mp halloc
  split at halloc
  next ha => exact Or.inr (Or.inl ⟨a, hfind, ha, Option.some.inj halloc⟩)
  next =>
  have hadd : add64 (alignUp n 16) headerSize = alignUp n 16 + headerSize := Words.add_eq hsum
  rw [hadd, ← expandSize] at halloc
  obtain ⟨⟨ok, g⟩, hexp, halloc⟩ := Option.bind_eq_some_iff.mp halloc
  cases ok with
  | false =>
      simp only [Bool.not_false, if_true, Option.pure_def, Option.some.injEq, Prod.mk.injEq] at halloc
      obtain ⟨rfl, rfl⟩ := halloc
      exact Or.inr (Or.inr (Or.inl ⟨false, hexp, rfl, fun hok => absurd hok Bool.noConfusion⟩))
  | true =>
      simp only [Bool.not_true, Bool.false_eq_true, if_false] at halloc
      obtain ⟨c, hfind', halloc⟩ := Option.bind_eq_some_iff.mp halloc
      split at halloc
      next hc =>
        simp only [Option.pure_def, Option.some.injEq, Prod.mk.injEq] at halloc
        obtain ⟨rfl, rfl⟩ := halloc
        exact Or.inr (Or.inr (Or.inl ⟨true, hexp, rfl, fun _ => hc ▸ hfind'⟩))
      next hc => exact Or.inr (Or.inr (Or.inr ⟨g, c, hexp, hfind', hc, Option.some.inj halloc⟩))

theorem allocate_spec {n ptr : Nat} (inv : HeapInv h bs) (hn : NoWrap h n)
    (halloc : allocate h n = some (ptr, h')) :
    ∃ bs', HeapInv h' bs' ∧ h.heapEnd ≤ h'.heapEnd ∧ Allocated h n ptr h' := by
  obtain ⟨h16, hle, hpos, -, hbound⟩ := hn.request
  -- what follows from a block that was found
  have htaken : ∀ {g : KernelHeap E} {cs : List Block} {a : Nat}, HeapInv g cs →
      h.heapEnd ≤ g.heapEnd → live g.trace = live h.trace →
      findFreeBlock g (alignUp n 16) = some a → a ≠ 0 →
      takeBlock g a (alignUp n 16) = (ptr, h') →
      ∃ bs', HeapInv h' bs' ∧ h.heapEnd ≤ h'.heapEnd ∧ Allocated h n ptr h' := by
    intro g cs a inv' hle hlive hfind ha htake
    obtain ⟨k, h'', bs', hk, htake', inv'', hlive', hend⟩ := takeFound inv' h16 hfind ha
    rw [htake', Prod.mk.injEq] at htake
    obtain ⟨rfl, rfl⟩ := htake
    refine ⟨bs', inv'', by rw [hend]; exact hle, Or.inr ⟨?_, k, by omega, by rw [hlive', hlive]⟩⟩
    unfold headerSize
    omega
  rcases allocate_cases hn halloc with
    ⟨rfl, rfl⟩ | ⟨a, hfind, ha, htake⟩ | ⟨ok, hexp, rfl, _⟩ | ⟨g, a, hexp, hfind, ha, htake⟩
  · exact ⟨bs, inv, Nat.le_refl _, Or.inl ⟨rfl, rfl⟩⟩
  · exact htaken inv (Nat.le_refl _) rfl hfind ha htake
  · rcases expandHeap_spec inv hpos hbound hexp with
      ⟨_, env, rfl⟩ | ⟨_, bs', inv', hlive, hlt⟩
    · exact ⟨bs, inv.setEnv env, Nat.le_refl _, Or.inl ⟨rfl, rfl⟩⟩
    · exact ⟨bs', inv', by omega, Or.inl ⟨rfl, hlive⟩⟩
  · rcases expandHeap_spec inv hpos hbound hexp with
      ⟨hno, _⟩ | ⟨_, bs', inv', hlive, hlt⟩
    · cases hno
    · exact htaken inv' (by omega) hlive hfind ha htake

/-! ## Reallocating -/

omit [KernelPages E] in
/-- Live pointers are distinct. -/
theorem HeapInv.live_nodup (inv : HeapInv h bs) : ((Heap.live h.trace).map Prod.fst).Nodup := by
  rw [(inv.live.map Prod.fst).nodup_iff, payloads, List.map_map]
  refine List.pairwise_map.mpr ((inv.tiled.pairwise.filter _).imp fun {a b} hab heq => ?_)
  have heq : a.addr + headerSize = b.addr + headerSize := heq
  unfold Block.fin headerSize at hab
  omega

omit [KernelPages E] in
/-- A live payload is no larger than the heap can be. -/
theorem HeapInv.payload_le (inv : HeapInv h bs) {p : Nat × Nat} (hp : p ∈ Heap.live h.trace) :
    p.2 ≤ kernelHeapMaxSize := by
  obtain ⟨b, hb, _, rfl⟩ := inv.mem_live.mp hp
  obtain ⟨hlow, hhigh⟩ := inv.tiled.mem_bounds b hb
  have hend := inv.end_le
  unfold Block.fin at hhigh
  unfold Block.payload
  simp only
  omega

/-- `copy` stores to its destination only. -/
theorem copyLoop_of_outside {dest src x : Nat} :
    ∀ {n i : Nat} {mem : Nat → UInt8}, x < dest + i ∨ dest + i + n ≤ x →
      copyLoop mem dest src i n x = mem x
  | 0, _, _, _ => rfl
  | n + 1, i, mem, hx => by
      rw [copyLoop, copyLoop_of_outside (by omega), Function.update_of_ne (by omega)]

/-- The loop stores byte `i` of the source at byte `i` of a destination that does
not overlap it. -/
theorem copyLoop_of_inside {dest src : Nat} :
    ∀ {n i : Nat} {mem : Nat → UInt8}, dest + (i + n) ≤ src ∨ src + (i + n) ≤ dest →
      ∀ j < n, copyLoop mem dest src i n (dest + (i + j)) = mem (src + (i + j))
  | 0, _, _, _, _, hj => absurd hj (Nat.not_lt_zero _)
  | n + 1, i, mem, hapart, 0, _ => by
      rw [copyLoop, copyLoop_of_outside (by omega)]
      exact Function.update_self ..
  | n + 1, i, mem, hapart, j + 1, hj => by
      have ih : copyLoop (Function.update mem (dest + i) (mem (src + i))) dest src (i + 1) n
          (dest + (i + 1 + j)) = Function.update mem (dest + i) (mem (src + i)) (src + (i + 1 + j)) :=
        copyLoop_of_inside (by omega) j (by omega)
      rw [show i + 1 + j = i + (j + 1) by omega] at ih
      rw [copyLoop, ih, Function.update_of_ne (by omega)]

/-- `mem'` is `mem` with `len` bytes copied from `src` to `dest`. -/
structure Copied (mem mem' : Nat → UInt8) (dest src len : Nat) : Prop where
  copied : ∀ i < len, mem' (dest + i) = mem (src + i)
  rest : ∀ x, x < dest ∨ dest + len ≤ x → mem' x = mem x

theorem copied_copy (mem : Nat → UInt8) {dest src len : Nat} (hlen : len < 2 ^ 31)
    (hapart : dest + len ≤ src ∨ src + len ≤ dest) :
    Copied mem (copy mem dest src (toInt len)) dest src len := by
  have hcount : (toInt len).toNat = len := by
    rw [toInt, Words.toSigned_eq (by omega) (by decide)]
    exact Int.toNat_natCast len
  unfold copy
  rw [hcount]
  refine ⟨fun i hi => ?_, fun x hx => copyLoop_of_outside (by omega)⟩
  have hbyte : copyLoop mem dest src 0 len (dest + (0 + i)) = mem (src + (0 + i)) :=
    copyLoop_of_inside (by omega) i hi
  rwa [Nat.zero_add] at hbyte

/-- What a caller of `realloc` sees. -/
def Reallocated (h : KernelHeap E) (ptr n q : Nat) (h' : KernelHeap E) : Prop :=
  q = 0 ∧ live h'.trace = live h.trace ∨
    q ≠ 0 ∧ ∃ k, n ≤ k ∧ (q, k) ∈ live h'.trace ∧
      (h' = h ∧ q = ptr ∨ live h'.trace = (q, k) :: (live h.trace).filter fun a => a.1 ≠ ptr)

omit [KernelPages E] in
/-- The header of a live payload. -/
theorem HeapInv.live_header (inv : HeapInv h bs) {p : Nat × Nat} (hp : p ∈ Heap.live h.trace) :
    magic h (p.1 - headerSize) = heapMagic ∧ size h (p.1 - headerSize) = p.2 ∧ p.1 ≠ 0 := by
  obtain ⟨b, hb, _, rfl⟩ := inv.mem_live.mp hp
  have hd := inv.listed.describes b hb
  have hsub : b.payload.1 - headerSize = b.addr := Nat.add_sub_cancel ..
  rw [hsub]
  refine ⟨hd.magic_eq, hd.size_eq, ?_⟩
  show b.addr + 48 ≠ 0
  omega

/-- `realloc` of a live pointer in terms of its parts. -/
theorem HeapInv.realloc_eq (inv : HeapInv h bs) {p : Nat × Nat} (hp : p ∈ Heap.live h.trace)
    {n : Nat} (hn : n ≠ 0) :
    realloc h p.1 n =
      if n ≤ p.2 then some (p.1, h)
      else (allocate h n).bind fun r =>
        if r.1 = 0 then some (0, r.2)
        else (free { r.2 with
            mem := copy r.2.mem r.1 p.1 (toInt (size r.2 (p.1 - headerSize))) } p.1).map
          fun h' => (r.1, h') := by
  obtain ⟨hmagic, hsize, hne⟩ := inv.live_header hp
  unfold realloc
  rw [if_neg hne]
  simp only [hsize, hmagic, hn, ne_eq, not_true_eq_false, or_self, if_false, ge_iff_le]
  refine if_congr Iff.rfl rfl (congrArg _ (funext fun r => ?_))
  refine if_congr Iff.rfl rfl ?_
  generalize ({ r.2 with mem := copy r.2.mem r.1 p.1 (toInt (size r.2 (p.1 - headerSize))) } :
    KernelHeap E) = g
  cases free g p.1 <;> rfl

omit [KernelPages E] in
/-- Copying a live payload to one that has been allocated for it. -/
theorem HeapInv.copy_payload {q k : Nat} {p : Nat × Nat} (inv : HeapInv h bs)
    (hp : p ∈ Heap.live h'.trace) (hlive : Heap.live h.trace = (q, k) :: Heap.live h'.trace)
    (hk : p.2 ≤ k) :
    Copied h.mem (copy h.mem q p.1 (toInt p.2)) q p.1 p.2 ∧
      HeapInv { h with mem := copy h.mem q p.1 (toInt p.2) } bs := by
  have hsmall := inv.payload_le (hlive ▸ List.mem_cons_of_mem _ hp)
  unfold kernelHeapMaxSize at hsmall
  have hapart : q + p.2 ≤ p.1 ∨ p.1 + p.2 ≤ q := by
    have hdisjoint := inv.live_disjoint
    rw [hlive, List.pairwise_cons] at hdisjoint
    have hclear := hdisjoint.1 p hp
    unfold Clear at hclear
    omega
  have hcopied := copied_copy h.mem (by omega) hapart
  refine ⟨hcopied, inv.write _ h.env fun x _ _ hx => ?_⟩
  have hclear := hx (q, k) (hlive ▸ List.mem_cons_self ..)
  unfold Clear at hclear
  exact hcopied.rest x (by omega)

/-- An allocation keeps the invariant, and its caller gets null or enough. -/
def Allocates (h : KernelHeap E) (n : Nat) : Prop :=
  ∀ {ptr h'}, allocate h n = some (ptr, h') →
    ∃ bs', HeapInv h' bs' ∧ h.heapEnd ≤ h'.heapEnd ∧ Allocated h n ptr h'

theorem NoWrap.allocates {n : Nat} (hn : NoWrap h n) (inv : HeapInv h bs) : Allocates h n :=
  allocate_spec inv hn

/-- The ways `realloc` of a live pointer returns: the block is large enough,
nothing larger could be allocated, or the payload was copied to a new block and
the old one freed. -/
theorem realloc_cases {n ptr q : Nat} (inv : HeapInv h bs) (hn : Allocates h n)
    (hlive : ptr ∈ (live h.trace).map Prod.fst) (hre : realloc h ptr n = some (q, h')) :
    (q ≠ 0 ∧ q = ptr ∧ h' = h ∧ ∃ k, n ≤ k ∧ (q, k) ∈ live h.trace) ∨
    (q = 0 ∧ allocate h n = some (0, h')) ∨
    ∃ g cs mem s k, allocate h n = some (q, g) ∧ q ≠ 0 ∧ n ≤ k ∧
      live g.trace = (q, k) :: live h.trace ∧ h.heapEnd ≤ g.heapEnd ∧
      (ptr, s) ∈ live h.trace ∧ s < n ∧ Copied g.mem mem q ptr s ∧
      HeapInv { g with mem } cs ∧ free { g with mem } ptr = some h' := by
  obtain ⟨p, hp, rfl⟩ := List.mem_map.mp hlive
  obtain ⟨_, _, hne⟩ := inv.live_header hp
  have hpos : n ≠ 0 := fun hz => by
    unfold realloc at hre
    rw [if_neg hne, hz] at hre
    simp at hre
  rw [inv.realloc_eq hp hpos] at hre
  split at hre
  next hfits =>
    obtain ⟨rfl, rfl⟩ := Prod.mk.inj (Option.some.inj hre)
    exact Or.inl ⟨hne, rfl, rfl, p.2, hfits, hp⟩
  next hfits =>
  obtain ⟨⟨q', g⟩, halloc, hre⟩ := Option.bind_eq_some_iff.mp hre
  obtain ⟨cs, inv', hle, hallocated⟩ := hn halloc
  simp only at hre
  rcases hallocated with ⟨rfl, _⟩ | ⟨hq, k, hk, hnew⟩
  · rw [if_pos rfl] at hre
    obtain ⟨rfl, rfl⟩ := Prod.mk.inj (Option.some.inj hre)
    exact Or.inr (Or.inl ⟨rfl, halloc⟩)
  rw [if_neg hq, (inv'.live_header (hnew ▸ List.mem_cons_of_mem _ hp)).2.1] at hre
  obtain ⟨hcopied, inv''⟩ := inv'.copy_payload hp hnew (by omega)
  obtain ⟨g', hfree, hre⟩ := Option.map_eq_some_iff.mp hre
  obtain ⟨rfl, rfl⟩ := Prod.mk.inj hre
  exact Or.inr (Or.inr ⟨g, cs, _, p.2, k, halloc, hq, hk, hnew, hle, hp, Nat.not_le.mp hfits, hcopied,
    inv'', hfree⟩)

theorem realloc_spec {n ptr q : Nat} (inv : HeapInv h bs) (hn : Allocates h n)
    (hlive : ptr ∈ (live h.trace).map Prod.fst) (hre : realloc h ptr n = some (q, h')) :
    ∃ bs', HeapInv h' bs' ∧ h.heapEnd ≤ h'.heapEnd ∧ Reallocated h ptr n q h' := by
  rcases realloc_cases inv hn hlive hre with
    ⟨hq, rfl, rfl, k, hk, hmem⟩ | ⟨rfl, halloc⟩ |
    ⟨g, cs, mem, _, k, _, hq, hk, hnew, hle, _, _, _, inv', hfree⟩
  · exact ⟨bs, inv, Nat.le_refl _, Or.inr ⟨hq, k, hk, hmem, Or.inl ⟨rfl, rfl⟩⟩⟩
  · obtain ⟨cs, inv', hle, ⟨_, hsame⟩ | ⟨hne, _⟩⟩ := hn halloc
    · exact ⟨cs, inv', hle, Or.inl ⟨rfl, hsame⟩⟩
    · exact absurd rfl hne
  · have hnew' : live ({ g with mem } : KernelHeap E).trace = (q, k) :: live h.trace := hnew
    have hnodup := inv'.live_nodup
    rw [hnew', List.map_cons, List.nodup_cons] at hnodup
    have hptr : ptr ∈ (live ({ g with mem } : KernelHeap E).trace).map Prod.fst := by
      rw [hnew', List.map_cons]
      exact List.mem_cons_of_mem _ hlive
    obtain ⟨g', cs', hfree', inv₃, hend, hlive'⟩ := free_spec inv' hptr
    rw [hfree', Option.some.injEq] at hfree
    subst hfree
    have hkeep : live g'.trace = (q, k) :: (live h.trace).filter fun a => a.1 ≠ ptr := by
      have hqp : q ≠ ptr := fun heq => hnodup.1 (heq ▸ hlive)
      rw [hlive', hnew', List.filter_cons_of_pos (by simpa using hqp)]
    exact ⟨cs', inv₃, by rw [hend]; exact hle,
      Or.inr ⟨hq, k, hk, hkeep ▸ List.mem_cons_self .., Or.inr hkeep⟩⟩

end

end Avery.Heap
