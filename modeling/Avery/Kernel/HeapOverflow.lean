import Avery.Kernel.HeapAccounting
import Avery.Kernel.HeapLimits

/-!
# Requests close to `2 ^ 64`

`allocate` adds to the size it is asked for three times, in words.  Rounding it up
to 16 may give 0, adding the header may give less than a page, and rounding the sum
up to pages may give 0.  In the last case the heap grows by no page, and the header
of the new block is written to `heapEnd` all the same.  Merged into a free last
block this leaves the heap as it was; after a block in use it links a block that
claims most of the address space (`GrowsByNothing`).

Every other request keeps the invariant, whatever its size (`wide_step`).
-/

namespace Avery.Heap

open Transition KernelSpace LinkedList ByteMemory

variable {h h' : KernelHeap KernelSpace} {bs : List Block}

/-! ## Growing by nothing -/

section

variable {E : Type}

/-- A walk that meets a block that fits within its fuel returns the first one. -/
theorem findFreeBlockLoop_first {h : KernelHeap E} {n : Nat} {b : Block} {rest : List Block}
    (hfit : b.free = true ∧ n ≤ b.size) :
    ∀ {bs : List Block} {p fuel : Nat},
      Segment (next h) (prev h) p ((bs ++ b :: rest).map Block.addr) 0 →
      (∀ c ∈ bs ++ b :: rest, Describes h c ∧ c.addr ≠ 0) →
      (∀ c ∈ bs, ¬ (c.free = true ∧ n ≤ c.size)) → bs.length < fuel →
      findFreeBlockLoop h n (first ((bs ++ b :: rest).map Block.addr) 0) fuel = some b.addr
  | _, _, 0, _, _, _, hfuel => absurd hfuel (Nat.not_lt_zero _)
  | [], _, fuel + 1, _, hd, _, _ => by
      obtain ⟨hdb, hne⟩ := hd b (List.mem_cons_self ..)
      rw [List.nil_append, List.map_cons, first_cons, findFreeBlockLoop, if_neg hne, hdb.size_eq,
        hdb.isFree_eq, if_pos hfit]
  | c :: bs, p, fuel + 1, hs, hd, hno, hfuel => by
      obtain ⟨hdc, hne⟩ := hd c (List.mem_cons_self ..)
      have hrest := findFreeBlockLoop_first hfit hs.2.2
        (fun d hd' => hd d (List.mem_cons_of_mem _ hd'))
        (fun d hd' => hno d (List.mem_cons_of_mem _ hd')) (Nat.lt_of_succ_lt_succ hfuel)
      have hnext : next h c.addr = first ((bs ++ b :: rest).map Block.addr) 0 := hs.2.1
      rw [List.cons_append, List.map_cons, first_cons, findFreeBlockLoop, if_neg hne, hdc.size_eq,
        hdc.isFree_eq, if_neg (hno c (List.mem_cons_self ..)), hnext, hrest]

/-- The same from the head of the list. -/
theorem findFreeBlock_first {h : KernelHeap E} {bs rest : List Block} {n : Nat} {b : Block}
    (hl : Listed h (bs ++ b :: rest)) (hfit : b.free = true ∧ n ≤ b.size)
    (hno : ∀ c ∈ bs, ¬ (c.free = true ∧ n ≤ c.size)) (hne : ∀ c ∈ bs ++ b :: rest, c.addr ≠ 0)
    (hlen : bs.length < maxBlocks) : findFreeBlock h n = some b.addr := by
  rw [findFreeBlock, hl.head]
  exact findFreeBlockLoop_first hfit hl.linked (fun c hc => ⟨hl.describes c hc, hne c hc⟩) hno hlen

/-- No block fits when the walk finds none. -/
theorem HeapInv.none_fits {h : KernelHeap E} {bs : List Block} {n : Nat} (inv : HeapInv h bs)
    (hnone : findFreeBlock h n = some 0) : ∀ b ∈ bs, ¬ (b.free = true ∧ n ≤ b.size) := by
  rw [inv.findFreeBlock_eq, Option.some.injEq] at hnone
  cases hfind : bs.find? fun b => b.free ∧ n ≤ b.size with
  | none =>
      intro b hb hfits
      exact List.find?_eq_none.mp hfind b hb (decide_eq_true hfits)
  | some c =>
      rw [hfind] at hnone
      exact absurd hnone (inv.addr_ne_zero c (List.mem_of_find?_eq_some hfind))

/-- The walk reads the memory and nothing else. -/
theorem findFreeBlockLoop_congr {h h' : KernelHeap E} {n : Nat} (hmem : h'.mem = h.mem) :
    ∀ {fuel current : Nat},
      findFreeBlockLoop h' n current fuel = findFreeBlockLoop h n current fuel
  | 0, _ => rfl
  | fuel + 1, current => by
      have ih : findFreeBlockLoop h' n (next h current) fuel =
          findFreeBlockLoop h n (next h current) fuel := findFreeBlockLoop_congr hmem
      have hnext : next h' current = next h current := by rw [next, next, hmem]
      have hsize : size h' current = size h current := by rw [size, size, hmem]
      have hfree : isFree h' current = isFree h current := by rw [isFree, isFree, hmem]
      rw [findFreeBlockLoop, findFreeBlockLoop, hnext, hsize, hfree, ih]

theorem findFreeBlock_congr {h h' : KernelHeap E} (hmem : h'.mem = h.mem)
    (hhead : h'.head = h.head) (n : Nat) : findFreeBlock h' n = findFreeBlock h n := by
  rw [findFreeBlock, findFreeBlock, hhead, findFreeBlockLoop_congr hmem]

/-- Merging a block with one whose size wraps to nothing leaves its size as it
was. -/
theorem header_mergeWrapped {h : KernelHeap E} {a b v : Nat} (hnext : next h a = b)
    (hb : header h b = ⟨heapMagic, v, true, 0, a⟩) (hv : add64 headerSize v = 0) (hne : b ≠ 0)
    (hab : Apart b a) (ha : a < 2 ^ 64) :
    Edits (· = a) h (mergeWithNext h a) ∧
      header (mergeWithNext h a) a = (header h a).withNext 0 ∧
      ∀ c, Apart c a → header (mergeWithNext h a) c = header h c := by
  have hnull : next h b = 0 := by rw [next_eq, hb]
  have hfree : isFree h b = true := by rw [isFree_eq, hb]
  have hsize : size h b = v := by rw [size_eq, hb]
  have hlt : size h a < 2 ^ 64 := readLE_lt h.mem _ 8
  have hkept : add64 (size h a) 0 = size h a :=
    (Words.add_eq (show size h a + 0 < 2 ^ 64 by omega)).trans (Nat.add_zero _)
  subst hnext
  obtain ⟨hedits, hself, _, hrest⟩ := header_mergeWithNext hne hfree hab ha fun hc => absurd hnull hc
  have hscope : ∀ x, mergeScope h a x → x = a := fun x hx =>
    hx.resolve_right fun hc => absurd (hc.1.trans hnull) hc.2
  refine ⟨hedits.mono hscope, ?_, fun c hc => hrest c hc fun hcz => absurd hnull hcz⟩
  rw [hself, header_absorbNext, hsize, hnull, hv, hkept, size_eq]
  rfl

/-- The last block is free. -/
def lastFree (bs : List Block) : Bool := bs.getLast?.any Block.free

theorem lastFree_concat (bs : List Block) (l : Block) : lastFree (bs ++ [l]) = l.free := by
  simp [lastFree]

/-- The walk to the last block in `expandHeap` ends at a free one. -/
def LastFree (h : KernelHeap E) : Prop :=
  h.head ≠ 0 ∧ ∃ last, lastBlockLoop h h.head maxBlocks = some last ∧ isFree h last = true

theorem HeapInv.lastFree_iff {h : KernelHeap E} {bs : List Block} (inv : HeapInv h bs) :
    LastFree h ↔ lastFree bs = true := by
  rw [LastFree, inv.listed.head]
  rcases List.eq_nil_or_concat' bs with rfl | ⟨bs, l, rfl⟩
  · exact iff_of_false (fun hc => hc.1 rfl) Bool.false_ne_true
  have hne := inv.addr_ne_zero
  have hlen := Nat.lt_of_succ_lt_succ inv.length_lt
  rw [List.length_append] at hlen
  have hwalk := lastBlockLoop_eq inv.listed.linked hne (Nat.lt_of_succ_lt hlen)
  have hd := inv.listed.describes l (List.mem_append_right _ (List.mem_singleton_self l))
  rw [lastFree_concat, ← hd.isFree_eq]
  constructor
  · rintro ⟨_, last, hlast, hfree⟩
    rw [hwalk, Option.some.injEq] at hlast
    exact hlast ▸ hfree
  · intro hfree
    refine ⟨?_, l.addr, hwalk, hfree⟩
    cases bs with
    | nil => exact hne l (List.mem_singleton_self l)
    | cons b bs => exact hne b (List.mem_cons_self ..)

section Append

variable {h h' : KernelHeap E} {bs : List Block} {new : Block}

/-- The header at the end of the heap, after `expandHeap` has filled it in with
size 0. -/
theorem header_fillNothing (hfree : new.free = true) (hsize : sub64 0 headerSize = new.size) :
    header (fillAppend h new.addr 0) new.addr = ⟨heapMagic, new.size, new.free, 0, 0⟩ := by
  rw [header_fillAppend, hsize, hfree]

variable [KernelPages E]

/-- Growing by nothing after a block in use, or at first, links the new header. -/
theorem listed_appendNothing (inv : HeapInv h bs) (haddr : h.heapEnd = new.addr)
    (hfree : new.free = true) (hsize : sub64 0 headerSize = new.size) (hused : lastFree bs = false)
    (happ : appendBlock h 0 = some h') : Listed h' (bs ++ [new]) := by
  have hlen := Nat.lt_of_succ_lt_succ inv.length_lt
  have hlt : h.heapEnd < 2 ^ 64 := Nat.lt_of_le_of_lt inv.end_le (by decide)
  have ht := inv.tiled
  rw [haddr] at hlt ht
  have hfill := header_fillNothing (h := h) hfree hsize
  rw [appendBlock_eq, haddr] at happ
  split at happ
  next => cases happ
  rcases List.eq_nil_or_concat' bs with rfl | ⟨bs, l, rfl⟩
  · have hhead : h.head = 0 := inv.listed.head
    rw [if_pos hhead, Option.some.injEq] at happ
    subst happ
    exact listed_singleton hfill
  obtain ⟨hhead, hwalk⟩ := walk_last new 0 inv.listed ht hlen
  rw [if_neg hhead, hwalk, Option.map_some, Option.some.injEq] at happ
  have hkept : Listed (fillAppend h new.addr 0) (bs ++ [l]) :=
    inv.listed.congr rfl (header_fillAppend_before ht)
  have hlinked := listed_link hkept ht hlt hfill
  have hdl := hlinked.describes l (List.mem_append_right _ (List.mem_cons_self ..))
  rw [lastFree_concat] at hused
  simp only at happ
  rw [hdl.isFree_eq, hused, if_neg Bool.false_ne_true] at happ
  subst happ
  rw [List.append_assoc]
  exact hlinked

/-- Growing by nothing after a free block leaves the list as it was: the merge adds
nothing to the last block and drops the new one. -/
theorem listed_mergeNothing (inv : HeapInv h bs) (haddr : h.heapEnd = new.addr)
    (hfree : new.free = true) (hsize : sub64 0 headerSize = new.size) (hlast : lastFree bs = true)
    (happ : appendBlock h 0 = some h') :
    Listed h' bs ∧ Edits (fun x => x = new.addr ∨ ∃ b ∈ bs, x = b.addr) h h' := by
  have hlen := Nat.lt_of_succ_lt_succ inv.length_lt
  have hlt : h.heapEnd < 2 ^ 64 := Nat.lt_of_le_of_lt inv.end_le (by decide)
  have hnz : new.addr ≠ 0 := by
    have hle := inv.tiled.le
    unfold kernelHeapStart at hle
    omega
  have ht := inv.tiled
  rw [haddr] at hlt ht
  have hfill := header_fillNothing (h := h) hfree hsize
  rw [appendBlock_eq, haddr] at happ
  split at happ
  next => cases happ
  rcases List.eq_nil_or_concat' bs with rfl | ⟨bs, l, rfl⟩
  · cases hlast
  obtain ⟨hhead, hwalk⟩ := walk_last new 0 inv.listed ht hlen
  rw [if_neg hhead, hwalk, Option.map_some, Option.some.injEq] at happ
  have hlmem : l ∈ bs ++ [l] := List.mem_append_right _ (List.mem_singleton_self l)
  have hother : ∀ x ∈ bs ++ [l], header (fillAppend h new.addr 0) x.addr = header h x.addr :=
    header_fillAppend_before ht
  have hkept : Listed (fillAppend h new.addr 0) (bs ++ [l]) := inv.listed.congr rfl hother
  have hlinked := listed_link hkept ht hlt hfill
  have hdl := hlinked.describes l (List.mem_append_right _ (List.mem_cons_self ..))
  rw [lastFree_concat] at hlast
  simp only at happ
  rw [hdl.isFree_eq, hlast, if_pos rfl] at happ
  have hbl : ∀ x ∈ bs, Apart x.addr l.addr := fun x hx => ht.apart_left hx
  obtain ⟨_, _, _, hfin⟩ := ht.around
  unfold Block.fin at hfin
  have hln : Apart l.addr new.addr := Or.inl (by omega)
  have hnext : next h l.addr = 0 := inv.listed.next_eq
  -- the headers once the new block is linked
  have hskip : next (setPrev (setNext (fillAppend h new.addr 0) l.addr new.addr) new.addr
      l.addr) l.addr = new.addr := hlinked.next_eq
  obtain ⟨hrest, hself, hnew⟩ := header_link (h := fillAppend h new.addr 0) ht hlt
  rw [hother l hlmem] at hself
  rw [hfill, hfree] at hnew
  have hedits : Edits (fun x => x = new.addr ∨ ∃ b ∈ bs ++ [l], x = b.addr) h
      (setPrev (setNext (fillAppend h new.addr 0) l.addr new.addr) new.addr l.addr) :=
    (fillAppend_edits (Or.inl rfl)).trans <|
      (Edits.setNext (Or.inr ⟨l, hlmem, rfl⟩)).trans (Edits.setPrev (Or.inl rfl))
  -- and after the merge
  obtain ⟨hedits', hmerged, hapart⟩ := header_mergeWrapped hskip hnew (by rw [← hsize]; decide)
    hnz hln.symm (by omega)
  subst happ
  refine ⟨inv.listed.congr hedits'.head (List.forall_mem_append.mpr
    ⟨fun x hx => ((hapart _ (hbl x hx)).trans (hrest x hx)).trans
        (hother x (List.mem_append_left _ hx)),
      List.forall_mem_singleton.mpr (by rw [hmerged, hself, ← hnext]; rfl)⟩), ?_⟩
  exact hedits.trans (hedits'.mono fun x hx => Or.inr ⟨l, hlmem, hx⟩)

end Append

end

/-! ## Growing for a request -/

/-- What `allocate` asks `expandHeap` for, in words. -/
def requested (n : Nat) : Nat :=
  if add64 (alignUp n 16) headerSize < 4096 then 4096 else add64 (alignUp n 16) headerSize

/-- The bytes that `expandHeap` adds for a request, in words. -/
def grown (n : Nat) : Nat := alignUp (requested n) 4096

/-- `allocate` in terms of its parts. -/
theorem allocate_eq (h : KernelHeap KernelSpace) {n : Nat} (hn : n ≠ 0) :
    allocate h n = (findFreeBlock h (alignUp n 16)).bind fun block =>
      if block ≠ 0 then some (takeBlock h block (alignUp n 16))
      else (expandHeap h (requested n)).bind fun r =>
        if !r.1 then some (0, r.2)
        else (findFreeBlock r.2 (alignUp n 16)).bind fun block =>
          if block = 0 then some (0, r.2) else some (takeBlock r.2 block (alignUp n 16)) := by
  unfold allocate
  rw [if_neg hn]
  rfl

/-- The parts of a growth that succeeds. -/
theorem expandHeap_true {n : Nat} (hexp : expandHeap h n = some (true, h')) :
    ∃ r h₁, mapPagesLoop h.env h.heapEnd 0 (alignUp n 4096 / 4096) = some (true, r) ∧
      appendBlock { h with env := r } (alignUp n 4096) = some h₁ ∧
      h' = { h₁ with
        heapEnd := add64 h₁.heapEnd (alignUp n 4096)
        freeMemory := add64 h₁.freeMemory (sub64 (alignUp n 4096) headerSize) } := by
  rw [expandHeap_eq] at hexp
  split at hexp
  next => cases hexp
  next =>
  obtain ⟨⟨ok, r⟩, hloop, hexp⟩ := Option.bind_eq_some_iff.mp hexp
  cases ok with
  | false => cases hexp
  | true =>
      obtain ⟨h₁, happ, hexp⟩ := Option.map_eq_some_iff.mp hexp
      exact ⟨r, h₁, hloop, happ, (Prod.mk.inj hexp).2.symm⟩

/-- A growth that succeeds has mapped all its pages. -/
theorem expandHeap_true_mapped {n : Nat} (inv : HeapInv h bs) (hwf : h.env.WellFormed)
    (hexp : expandHeap h n = some (true, h')) :
    MappedTo h.env.heapPart h'.env.heapPart h.heapEnd (alignUp n 4096 / 4096) := by
  obtain ⟨r, h₁, hloop, happ, hdone⟩ := expandHeap_true hexp
  have henv : h'.env = r := by
    rw [hdone]
    exact appendBlock_env happ
  rw [henv]
  exact loop_done hwf inv.inHeap hloop

theorem requested_ge (n : Nat) : 4096 ≤ requested n := by
  unfold requested
  split <;> omega

theorem requested_lt (n : Nat) : requested n < 2 ^ 64 := by
  unfold requested
  split
  · decide
  · exact Words.add_lt ..

theorem grown_eq (n : Nat) : grown n = (requested n + 4095) % 2 ^ 64 / 4096 * 4096 :=
  alignUp_eq_mod (k := 12) (by decide)

/-- A growth by nothing is the rounding of a request that wraps. -/
theorem grown_eq_zero {n : Nat} : grown n = 0 ↔ 2 ^ 64 ≤ requested n + 4095 := by
  have hge := requested_ge n
  have hlt := requested_lt n
  rw [grown_eq]
  omega

/-- A request that wraps like this is as large as the new block says it is. -/
theorem fits_of_grown_eq_zero {n : Nat} (hz : grown n = 0) : alignUp n 16 ≤ sub64 0 headerSize := by
  have hwrap := grown_eq_zero.mp hz
  have hsum : add64 (alignUp n 16) headerSize = requested n := by
    unfold requested at hwrap ⊢
    split at hwrap
    next => exact absurd hwrap (by decide)
    next hlarge => rw [if_neg hlarge]
  have halign : alignUp n 16 = (n + 15) % 2 ^ 64 / 16 * 16 := alignUp_eq_mod (k := 4) (by decide)
  unfold sub64 Words.sub
  unfold add64 Words.add at hsum
  unfold headerSize at hsum ⊢
  omega

/-- The block that a growth by nothing writes. -/
def emptyGrowth (h : KernelHeap KernelSpace) : Block := ⟨h.heapEnd, sub64 0 headerSize, true⟩

/-- After a block in use, a growth by nothing gives every request that got that far
a block at the end of the heap. -/
theorem findFreeBlock_nothing {n : Nat} (inv : HeapInv h bs) (hz : grown n = 0)
    (hused : lastFree bs = false) (hnone : findFreeBlock h (alignUp n 16) = some 0)
    (hexp : expandHeap h (requested n) = some (true, h')) :
    findFreeBlock h' (alignUp n 16) = some h.heapEnd ∧ h'.heapEnd = h.heapEnd := by
  obtain ⟨r, h₁, _, happ, hdone⟩ := expandHeap_true hexp
  have hround : alignUp (requested n) 4096 = 0 := hz
  rw [hround] at happ hdone
  have hlisted : Listed h₁ (bs ++ [emptyGrowth h]) :=
    listed_appendNothing (inv.setEnv r) rfl rfl rfl hused happ
  have hne : (emptyGrowth h).addr ≠ 0 := by
    have hle := inv.tiled.le
    unfold kernelHeapStart at hle
    exact Nat.ne_of_gt (Nat.lt_of_lt_of_le (by decide) hle)
  have hwalk := findFreeBlock_first hlisted ⟨rfl, fits_of_grown_eq_zero hz⟩ (inv.none_fits hnone)
    (List.forall_mem_append.mpr ⟨inv.addr_ne_zero, List.forall_mem_singleton.mpr hne⟩)
    (Nat.lt_of_succ_lt_succ inv.length_lt)
  have hmem : h'.mem = h₁.mem := by rw [hdone]
  have hhead : h'.head = h₁.head := by rw [hdone]
  have hend : h₁.heapEnd = h.heapEnd := (SameBooks.appendBlock happ).heapEnd
  refine ⟨(findFreeBlock_congr hmem hhead _).trans hwalk, ?_⟩
  rw [hdone]
  show add64 h₁.heapEnd 0 = h.heapEnd
  rw [hend]
  exact Words.add_eq (Nat.lt_of_le_of_lt inv.end_le (by decide))

/-- After a free block, a growth by nothing leaves the list as it was. -/
theorem expandHeap_nothing {n : Nat} (inv : HeapInv h bs) (hz : grown n = 0)
    (hlast : lastFree bs = true) (hexp : expandHeap h (requested n) = some (true, h')) :
    HeapInv h' bs ∧ live h'.trace = live h.trace ∧ h'.heapEnd = h.heapEnd := by
  obtain ⟨r, h₁, _, happ, hdone⟩ := expandHeap_true hexp
  have hround : alignUp (requested n) 4096 = 0 := hz
  rw [hround] at happ hdone
  have invr := inv.setEnv r
  have haddr : ({ h with env := r } : KernelHeap KernelSpace).heapEnd = (emptyGrowth h).addr := rfl
  obtain ⟨hlisted, hedits⟩ := listed_mergeNothing invr haddr rfl rfl hlast happ
  have hsum : add64 h₁.heapEnd 0 = h₁.heapEnd :=
    Words.add_eq (by
      rw [hedits.heapEnd]
      exact Nat.lt_of_le_of_lt inv.end_le (by decide))
  rw [hsum] at hdone
  have hsafe := hedits.safe invr.safe fun a ha => by
    rcases ha with rfl | ⟨b, hb, rfl⟩
    · exact invr.end_clear (Nat.le_of_eq haddr)
    · exact invr.header_clear hb
  have hlive : live h'.trace = live h.trace := by
    rw [hdone]
    exact hedits.live_eq
  have hend : h'.heapEnd = h.heapEnd := by
    rw [hdone]
    exact hedits.heapEnd
  have hmax : h'.heapMax = h.heapMax := by
    rw [hdone]
    exact hedits.heapMax
  have hstart : h'.heapStart = h.heapStart := by
    rw [hdone]
    exact hedits.heapStart
  refine ⟨⟨?_, ?_, inv.sizes, inv.coalesced, hstart.trans inv.start, hmax.trans inv.max, ?_, ?_,
    ?_, ?_⟩, hlive, hend⟩
  · have hcounted : ∀ freeMemory, Listed { h₁ with freeMemory } bs := fun _ =>
      hlisted.congr rfl fun _ _ => rfl
    rw [hdone]
    exact hcounted _
  · rw [hend]
    exact inv.tiled
  · rw [hend, hmax]
    exact inv.fits
  · rw [hend]
    exact inv.pages
  · rw [hlive]
    exact inv.live
  · rw [hdone]
    exact hsafe

/-- The size of a growth by something, without the words. -/
theorem grown_bounds {n : Nat} (inv : HeapInv h bs) (hwf : h.env.WellFormed) (hz : grown n ≠ 0)
    (hexp : expandHeap h (requested n) = some (true, h')) :
    alignUp (requested n) 4096 = (requested n + 4095) / 4096 * 4096 ∧
      h.heapEnd + (requested n + 4095) / 4096 * 4096 < 2 ^ 64 := by
  have hbound := (expandHeap_true_mapped inv hwf hexp).lt_bound hwf.valid
  have hend := inv.end_le
  unfold kernelHeapStart kernelHeapMaxSize at hend
  have hwrap : requested n + 4095 < 2 ^ 64 := Nat.not_le.mp (grown_eq_zero.not.mp hz)
  have hround : alignUp (requested n) 4096 = (requested n + 4095) / 4096 * 4096 := by
    have heq := grown_eq n
    rw [Nat.mod_eq_of_lt hwrap] at heq
    exact heq
  rw [hround] at hbound
  exact ⟨hround, by omega⟩

/-- A growth by something appends a block. -/
theorem expandHeap_grown {n : Nat} (inv : HeapInv h bs) (hwf : h.env.WellFormed)
    (hz : grown n ≠ 0) (hexp : expandHeap h (requested n) = some (true, h')) :
    HeapInv h' (grow bs (newBlock h (requested n))) ∧ live h'.trace = live h.trace ∧
      h.heapEnd ≤ h'.heapEnd := by
  have hge := requested_ge n
  obtain ⟨_, hbound⟩ := grown_bounds inv hwf hz hexp
  rcases expandHeap_grows inv (by omega) hbound hexp with ⟨hno, _⟩ | ⟨_, inv', hlive, hgrown⟩
  · cases hno
  · exact ⟨inv', hlive, by omega⟩

/-- It fills in a header at the end of the heap, and stores nothing behind it. -/
theorem expandHeap_grown_bytes {n : Nat} (inv : HeapInv h bs) (hwf : h.env.WellFormed)
    (hz : grown n ≠ 0) (hexp : expandHeap h (requested n) = some (true, h')) :
    magic h' h.heapEnd = heapMagic ∧
      ∀ x, h.heapEnd + headerSize ≤ x → h'.mem x = h.mem x := by
  obtain ⟨hround, hbound⟩ := grown_bounds inv hwf hz hexp
  have hge := requested_ge n
  obtain ⟨r, h₁, _, happ, hdone⟩ := expandHeap_true hexp
  have hend := inv.end_le
  unfold kernelHeapStart kernelHeapMaxSize at hend
  have hfin : (newBlock h (requested n)).fin = h.heapEnd + (requested n + 4095) / 4096 * 4096 := by
    unfold newBlock Block.fin headerSize
    simp only
    omega
  have hsub : sub64 (alignUp (requested n) 4096) headerSize = (newBlock h (requested n)).size := by
    rw [hround]
    exact Words.sub_eq (by omega) (by unfold headerSize; omega)
  have invr := inv.setEnv r
  obtain ⟨_, hedits, hmagic⟩ := appendBlock_spec (newBlock h (requested n)) invr.listed inv.tiled rfl
    (Nat.lt_of_succ_lt_succ inv.length_lt) (by rw [hfin]; exact hbound) rfl hsub happ
  have hmem : h'.mem = h₁.mem := by rw [hdone]
  refine ⟨by rw [magic, hmem]; exact hmagic, fun x hx => ?_⟩
  rw [hmem]
  refine hedits.bytes x fun c hc => ?_
  rcases hc with rfl | ⟨b, hb, rfl⟩
  · exact Or.inr hx
  · have hbefore := (inv.tiled.mem_bounds b hb).2
    unfold Block.fin at hbefore
    omega

/-- After a growth that succeeds the walk returns. -/
theorem findFreeBlock_grown {n : Nat} (inv : HeapInv h bs) (hwf : h.env.WellFormed)
    (hnone : findFreeBlock h (alignUp n 16) = some 0)
    (hexp : expandHeap h (requested n) = some (true, h')) :
    ∃ a, findFreeBlock h' (alignUp n 16) = some a := by
  by_cases hz : grown n = 0
  · cases hlast : lastFree bs with
    | false => exact ⟨_, (findFreeBlock_nothing inv hz hlast hnone hexp).1⟩
    | true => exact ⟨_, (expandHeap_nothing inv hz hlast hexp).1.findFreeBlock_eq _⟩
  · exact ⟨_, (expandHeap_grown inv hwf hz hexp).1.findFreeBlock_eq _⟩

/-! ## Runs with requests of any size -/

/-- The request finds no block, the growth it needs rounds up to nothing, and the
last block is in use. -/
def GrowsByNothing (h : KernelHeap KernelSpace) (n : Nat) : Prop :=
  n ≠ 0 ∧ findFreeBlock h (alignUp n 16) = some 0 ∧ grown n = 0 ∧ ¬ LastFree h

/-- Growing for a request keeps the invariant, also by nothing after a free block. -/
theorem expandHeap_kept {n : Nat} {ok : Bool} (inv : HeapInv h bs) (hwf : h.env.WellFormed)
    (hlast : grown n = 0 → lastFree bs = true)
    (hexp : expandHeap h (requested n) = some (ok, h')) :
    h'.env.WellFormed ∧
      ∃ bs', HeapInv h' bs' ∧ live h'.trace = live h.trace ∧ h.heapEnd ≤ h'.heapEnd := by
  cases ok with
  | false =>
      obtain ⟨hsame, hcase⟩ := expandHeap_false hwf inv.inHeap hexp
      have hwf' : h'.env.WellFormed := by
        rcases hcase with ⟨_, rfl⟩ | ⟨_, _, _, _, hr⟩
        · exact hwf
        · exact hr.wellFormed
      rw [hsame]
      exact ⟨hwf', bs, inv.setEnv _, rfl, Nat.le_refl _⟩
  | true =>
      refine ⟨(expandHeap_true_mapped inv hwf hexp).wellFormed, ?_⟩
      by_cases hz : grown n = 0
      · obtain ⟨inv', hlive, hend⟩ := expandHeap_nothing inv hz (hlast hz) hexp
        exact ⟨bs, inv', hlive, Nat.le_of_eq hend.symm⟩
      · exact ⟨_, expandHeap_grown inv hwf hz hexp⟩

/-- A request that does not grow the heap by nothing keeps the invariant, and a
pointer that it returns has room for the rounded size. -/
theorem allocate_kept {n ptr : Nat} (inv : HeapInv h bs) (hwf : h.env.WellFormed)
    (hno : ¬ GrowsByNothing h n) (halloc : allocate h n = some (ptr, h')) :
    h'.env.WellFormed ∧
      ∃ bs', HeapInv h' bs' ∧ h.heapEnd ≤ h'.heapEnd ∧ Allocated h (alignUp n 16) ptr h' := by
  by_cases hn : n = 0
  · unfold allocate at halloc
    rw [if_pos hn] at halloc
    obtain ⟨rfl, rfl⟩ := Prod.mk.inj (Option.some.inj halloc)
    exact ⟨hwf, bs, inv, Nat.le_refl _, Or.inl ⟨rfl, rfl⟩⟩
  have h16 : alignUp n 16 % 16 = 0 := by
    have halign : alignUp n 16 = (n + 15) % 2 ^ 64 / 16 * 16 := alignUp_eq_mod (k := 4) (by decide)
    omega
  -- what follows from a block that was found
  have htaken : ∀ {g : KernelHeap KernelSpace} {cs : List Block} {a : Nat}, HeapInv g cs →
      g.env.WellFormed → h.heapEnd ≤ g.heapEnd → live g.trace = live h.trace →
      findFreeBlock g (alignUp n 16) = some a → a ≠ 0 →
      takeBlock g a (alignUp n 16) = (ptr, h') →
      h'.env.WellFormed ∧
        ∃ bs', HeapInv h' bs' ∧ h.heapEnd ≤ h'.heapEnd ∧ Allocated h (alignUp n 16) ptr h' := by
    intro g cs a inv' hwf' hle hlive hfind ha htake
    obtain ⟨k, h'', bs', hk, htake', inv'', hlive', hend⟩ := takeFound inv' h16 hfind ha
    have henv := takeBlock_env g a (alignUp n 16)
    rw [htake'] at henv
    rw [htake', Prod.mk.injEq] at htake
    obtain ⟨rfl, rfl⟩ := htake
    refine ⟨henv ▸ hwf', bs', inv'', by rw [hend]; exact hle,
      Or.inr ⟨?_, k, hk, by rw [hlive', hlive]⟩⟩
    unfold headerSize
    omega
  rw [allocate_eq h hn] at halloc
  obtain ⟨a, hfind, halloc⟩ := Option.bind_eq_some_iff.mp halloc
  by_cases ha : a = 0
  · rw [if_neg (not_not.mpr ha)] at halloc
    obtain ⟨⟨ok, g⟩, hexp, halloc⟩ := Option.bind_eq_some_iff.mp halloc
    have hlast : grown n = 0 → lastFree bs = true := fun hz =>
      inv.lastFree_iff.mp (not_not.mp fun hused => hno ⟨hn, ha ▸ hfind, hz, hused⟩)
    obtain ⟨hwf', cs, inv', hlive, hle⟩ := expandHeap_kept inv hwf hlast hexp
    cases ok with
    | false =>
        obtain ⟨rfl, rfl⟩ := Prod.mk.inj (Option.some.inj halloc)
        exact ⟨hwf', cs, inv', hle, Or.inl ⟨rfl, hlive⟩⟩
    | true =>
        obtain ⟨c, hfind', halloc⟩ := Option.bind_eq_some_iff.mp halloc
        split at halloc
        next =>
          obtain ⟨rfl, rfl⟩ := Prod.mk.inj (Option.some.inj halloc)
          exact ⟨hwf', cs, inv', hle, Or.inl ⟨rfl, hlive⟩⟩
        next hc => exact htaken inv' hwf' hle hlive hfind' hc (Option.some.inj halloc)
  · rw [if_pos ha] at halloc
    exact htaken inv hwf (Nat.le_refl _) rfl hfind ha (Option.some.inj halloc)

/-- A call that returns, with requests of any size.  Left out are the requests that
grow the heap by nothing after a block in use, and sizes for `realloc` that round
up to 0: both overwrite what is not theirs. -/
inductive WideStep : KernelHeap KernelSpace → Call → KernelHeap KernelSpace → Prop
  | allocate {h h' : KernelHeap KernelSpace} {size ptr : Nat} :
      ¬ GrowsByNothing h size → allocate h size = some (ptr, h') →
      WideStep h (.allocate size) h'
  | free {h h' : KernelHeap KernelSpace} {ptr : Nat} :
      ptr ∈ (live h.trace).map Prod.fst → free h ptr = some h' → WideStep h (.free ptr) h'
  | realloc {h h' : KernelHeap KernelSpace} {ptr newSize newPtr : Nat} :
      ptr ∈ (live h.trace).map Prod.fst → newSize + 15 < 2 ^ 64 → ¬ GrowsByNothing h newSize →
      realloc h ptr newSize = some (newPtr, h') → WideStep h (.realloc ptr newSize) h'
  | other {h : KernelHeap KernelSpace} {mem : Nat → UInt8} {env : KernelSpace} :
      (∀ x, h.heapStart ≤ x → x < h.heapEnd → (∀ p ∈ live h.trace, Clear x 1 p) →
        mem x = h.mem x) → env.WellFormed → WideStep h .other { h with mem, env }

theorem wide_step {c : Call} (hs : Sized h) (hstep : WideStep h c h') : Sized h' := by
  obtain ⟨⟨bs, inv⟩, hwf⟩ := hs
  cases hstep with
  | allocate hno halloc =>
      obtain ⟨hwf', bs', inv', _⟩ := allocate_kept inv hwf hno halloc
      exact ⟨⟨bs', inv'⟩, hwf'⟩
  | free hlive hfree => exact sized_step ⟨⟨bs, inv⟩, hwf⟩ (.free hlive hfree)
  | @realloc _ ptr n q hlive hn hno hre =>
      have hle : n ≤ alignUp n 16 := by
        have halign : alignUp n 16 = (n + 15) / 16 * 16 :=
          alignUp_eq (k := 4) (by decide) (by omega)
        omega
      have hserves : Allocates h n := fun halloc => by
        obtain ⟨_, bs', inv', hend, hnull | ⟨hq, k, hk, hlive⟩⟩ := allocate_kept inv hwf hno halloc
        · exact ⟨bs', inv', hend, Or.inl hnull⟩
        · exact ⟨bs', inv', hend, Or.inr ⟨hq, k, Nat.le_trans hle hk, hlive⟩⟩
      obtain ⟨bs', inv', _⟩ := realloc_spec inv hserves hlive hre
      refine ⟨⟨bs', inv'⟩, ?_⟩
      rcases realloc_cases inv hserves hlive hre with
        ⟨_, _, rfl, _⟩ | ⟨_, halloc⟩ | ⟨g, _, mem, _, _, halloc, _, _, _, _, _, _, _, _, hfree⟩
      · exact hwf
      · exact (allocate_kept inv hwf hno halloc).1
      · have henv := free_env hfree
        simp only at henv
        rw [henv]
        exact (allocate_kept inv hwf hno halloc).1
  | other hmem hwf' => exact sized_step ⟨⟨bs, inv⟩, hwf⟩ (.other hmem hwf')

/-- The invariant holds in every state of a run with requests of any size. -/
theorem wide_run {mem : Nat → UInt8} {env : KernelSpace} {h₀ : KernelHeap KernelSpace}
    {calls : List Call} (hwf : env.WellFormed) (hinit : init mem env = some h₀)
    (hrun : Run WideStep h₀ calls h) : Sized h :=
  hrun.invariant (fun _ _ _ hs hstep => wide_step hs hstep) (sized_init hwf hinit)

end Avery.Heap
