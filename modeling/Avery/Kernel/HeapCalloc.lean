import Avery.Kernel.HeapPayloads

/-!
# Zeroed allocations

`calloc` multiplies in words and passes the product on to `allocate`.  Nothing
stores zeros and nothing looks for a product that has wrapped.  So the pointer has
what the name promises only when the block that `allocate` picks happens to be
large enough and to hold zeros (`Clean`), which depends on what was freed before.
The bytes from `heapEnd` on are those of the pages that the next growth maps.
-/

namespace Avery.Heap

open Transition KernelSpace LinkedList ByteMemory

/-- `memory::calloc`. -/
def calloc {E : Type} [KernelPages E] (h : KernelHeap E) (count size : Nat) :
    Option (Nat × KernelHeap E) :=
  allocate h (mul64 count size)

section

variable {E : Type} {h h' : KernelHeap E} {bs : List Block} {ptr a n : Nat}

/-- The pointer leads to a live payload of at least `n` bytes inside the heap, and
the first `n` are zero. -/
structure Zeroed (h : KernelHeap E) (ptr n : Nat) : Prop where
  room : ∃ k, n ≤ k ∧ (ptr, k) ∈ live h.trace ∧ ptr + k ≤ h.heapEnd
  zero : ∀ i < n, h.mem (ptr + i) = 0

/-- What `allocate` rounds the product to. -/
def rounded (n : Nat) : Nat := alignUp (n % 2 ^ 64) 16

/-- Neither the product nor its rounding wraps, and the bytes behind the header at
`a` are zero. -/
structure Clean (h : KernelHeap E) (n a : Nat) : Prop where
  fits : n ≤ rounded n
  zero : ∀ i < n, h.mem (a + headerSize + i) = 0

theorem rounded_eq (n : Nat) : rounded n = (n % 2 ^ 64 + 15) % 2 ^ 64 / 16 * 16 :=
  alignUp_eq_mod (k := 4) (by decide)

theorem rounded_mod (n : Nat) : rounded n % 16 = 0 := by
  rw [rounded_eq]
  omega

/-- A number of bytes that fits the heap is not wrapped. -/
theorem le_rounded (hn : n ≤ kernelHeapMaxSize) : n ≤ rounded n := by
  unfold kernelHeapMaxSize at hn
  rw [rounded_eq]
  omega

/-- A live payload of `n` bytes says that `n` fits. -/
theorem Zeroed.fits (hz : Zeroed h ptr n) (inv : HeapInv h bs) : n ≤ rounded n := by
  obtain ⟨k, hk, hmem, _⟩ := hz.room
  exact le_rounded (Nat.le_trans hk (inv.payload_le hmem))

/-! ## Taking a block -/

/-- Taking a block stores nothing in the payload. -/
theorem takeBlock_payload (inv : HeapInv h bs) (hfind : findFreeBlock h n = some a) (ha : a ≠ 0) :
    ∀ i < n, (takeBlock h a n).2.mem (a + headerSize + i) = h.mem (a + headerSize + i) := by
  obtain ⟨b, hb, rfl, _, hsize⟩ := inv.found hfind ha
  obtain ⟨pre, post, rfl⟩ := List.append_of_mem (List.mem_of_find?_eq_some hb)
  obtain ⟨_, hedits⟩ := listed_takeBlock inv hsize
  obtain ⟨_, hpost, _⟩ := inv.tiled.around
  intro i hi
  refine hedits.bytes (b.addr + headerSize + i) fun x hx => ?_
  rcases hx with rfl | ⟨rfl, _⟩ | ⟨c, hc, rfl⟩
  · omega
  · omega
  · have hbefore := (hpost c hc).1
    unfold Block.fin at hbefore
    omega

/-- The pointer to a block that was taken is zeroed exactly when the block was
clean. -/
theorem zeroed_takeBlock (inv : HeapInv h bs) (hfind : findFreeBlock h (rounded n) = some a)
    (ha : a ≠ 0) : Zeroed (takeBlock h a (rounded n)).2 (a + headerSize) n ↔ Clean h n a := by
  have hbytes := takeBlock_payload inv hfind ha
  obtain ⟨k, h', bs', hk, htake, inv', hlive, _⟩ := takeFound inv (rounded_mod n) hfind ha
  rw [htake] at hbytes ⊢
  have hmem : (a + headerSize, k) ∈ live h'.trace := hlive ▸ List.mem_cons_self ..
  constructor
  · intro hz
    have hfits := hz.fits inv'
    exact ⟨hfits, fun i hi => (hbytes i (Nat.lt_of_lt_of_le hi hfits)).symm.trans (hz.zero i hi)⟩
  · rintro ⟨hfits, hzero⟩
    obtain ⟨b, hb, _, heq⟩ := inv'.mem_live.mp hmem
    obtain ⟨haddr, rfl⟩ := Prod.mk.inj heq
    have hinside := (inv'.tiled.mem_bounds b hb).2
    unfold Block.fin at hinside
    have haddr : a + headerSize = b.addr + headerSize := haddr
    have hend : a + headerSize + b.size ≤ h'.heapEnd := by omega
    refine ⟨⟨b.size, Nat.le_trans hfits hk, hmem, hend⟩, fun i hi => ?_⟩
    exact (hbytes i (Nat.lt_of_lt_of_le hi hfits)).trans (hzero i hi)

/-! ## The list after a growth -/

/-- After a block in use, or at first, the new block is appended. -/
theorem grow_of_used (new : Block) (hused : lastFree bs = false) : grow bs new = bs ++ [new] := by
  rcases List.eq_nil_or_concat' bs with rfl | ⟨bs, l, rfl⟩
  · rfl
  · rw [lastFree_concat] at hused
    rw [grow_concat, grow, if_neg (Bool.eq_false_iff.mp hused), List.append_assoc]
    rfl

/-- The walk over blocks that do not fit ends at the one behind them. -/
theorem HeapInv.findFreeBlock_last {l : Block} (inv : HeapInv h (bs ++ [l]))
    (hno : ∀ b ∈ bs, ¬ (b.free = true ∧ n ≤ b.size)) (hfree : l.free = true) (hfits : n ≤ l.size) :
    findFreeBlock h n = some l.addr := by
  have hskip : bs.find? (fun b => b.free ∧ n ≤ b.size) = none :=
    List.find?_eq_none.mpr fun b hb => decide_eq_true_iff.not.mpr (hno b hb)
  have hlast : [l].find? (fun b => b.free ∧ n ≤ b.size) = some l :=
    List.find?_cons_of_pos (decide_eq_true ⟨hfree, hfits⟩)
  rw [inv.findFreeBlock_eq, List.find?_append, hskip, hlast]
  rfl

/-- No block is as large as a size whose sum with the header wraps. -/
theorem HeapInv.findFreeBlock_huge (inv : HeapInv h bs) (hn : 2 ^ 64 ≤ n + headerSize) :
    findFreeBlock h n = some 0 := by
  have hno : bs.find? (fun b => b.free ∧ n ≤ b.size) = none :=
    List.find?_eq_none.mpr fun b hb => decide_eq_true_iff.not.mpr fun hfits => by
      have hbound := (inv.tiled.mem_bounds b hb).2
      have hend := inv.end_le
      unfold kernelHeapStart kernelHeapMaxSize at hend
      unfold Block.fin at hbound
      unfold headerSize at *
      omega
  rw [inv.findFreeBlock_eq, hno]
  rfl

/-- The first byte of a header says that it is one. -/
theorem magic_byte (hmagic : magic h a = heapMagic) : h.mem a ≠ 0 := fun hzero => by
  have hlow : (h.mem a).toNat + 256 * readLE h.mem (a + 1) 7 = heapMagic := hmagic
  rw [hzero] at hlow
  unfold heapMagic at hlow
  simp only [UInt8.toNat_zero] at hlow
  omega

end

variable {h h' g : KernelHeap KernelSpace} {bs : List Block} {n : Nat}

/-! ## Growing for a request -/

/-- The size check lets the growth for the request pass, and the loop maps all its
pages. -/
def CanGrow (h : KernelHeap KernelSpace) (n : Nat) : Prop :=
  add64 h.heapEnd (grown n) ≤ h.heapMax ∧ ∀ k < grown n / 4096, ¬ FailsAt h.env h.heapEnd k

/-- A growth that returns says whether it could. -/
theorem expandHeap_canGrow {ok : Bool} (inv : HeapInv h bs) (hwf : h.env.WellFormed)
    (hexp : expandHeap h (requested n) = some (ok, h')) : ok = true ↔ CanGrow h n := by
  cases ok with
  | false =>
      refine iff_of_false Bool.false_ne_true fun hcan => ?_
      obtain ⟨_, ⟨hrefused, _⟩ | ⟨_, j, hj, hfails, _⟩⟩ := expandHeap_false hwf inv.inHeap hexp
      · exact Nat.not_le.mpr hrefused hcan.1
      · exact hcan.2 j hj hfails
  | true =>
      refine iff_of_true rfl ⟨?_, fun k hk hfails => ?_⟩
      · rw [expandHeap_eq] at hexp
        split at hexp
        next => cases hexp
        next hfits => exact Nat.not_lt.mp hfits
      · obtain ⟨_, _, hloop, _⟩ := expandHeap_true hexp
        obtain ⟨_, hfalse, _⟩ := loop_fails hwf inv.inHeap hfails hk
        have hsame := hloop.symm.trans hfalse
        cases hsame

/-- The sum with the header does not wrap when it rounds up to nothing. -/
theorem sum_of_grown_eq_zero (hz : grown (n % 2 ^ 64) = 0) : rounded n + headerSize < 2 ^ 64 := by
  by_contra hwraps
  have hwrap := grown_eq_zero.mp hz
  have hround := rounded_eq n
  have hsmall : add64 (rounded n) headerSize < 4096 := by
    unfold add64 Words.add
    unfold headerSize at hwraps ⊢
    omega
  have hleast : requested (n % 2 ^ 64) = 4096 := if_pos hsmall
  rw [hleast] at hwrap
  exact absurd hwrap (by decide)

/-- The block that is appended has room for the rounded size. -/
theorem rounded_le_newBlock (hsum : rounded n + headerSize < 2 ^ 64) :
    rounded n ≤ (newBlock h (requested (n % 2 ^ 64))).size := by
  have hadd : add64 (rounded n) headerSize = rounded n + headerSize := Words.add_eq hsum
  have hle : rounded n + headerSize ≤ requested (n % 2 ^ 64) := by
    rw [← hadd]
    unfold requested
    split
    next hsmall => exact Nat.le_of_lt hsmall
    next => exact Nat.le_refl _
  show rounded n ≤ (requested (n % 2 ^ 64) + 4095) / 4096 * 4096 - headerSize
  omega

/-- After a block in use, the request is served with the bytes behind the new
header. -/
theorem zeroed_grown (inv : HeapInv h bs) (hwf : h.env.WellFormed)
    (hused : lastFree bs = false) (hnone : findFreeBlock h (rounded n) = some 0)
    (hz : grown (n % 2 ^ 64) ≠ 0) (hsum : rounded n + headerSize < 2 ^ 64)
    (hexp : expandHeap h (requested (n % 2 ^ 64)) = some (true, g)) :
    findFreeBlock g (rounded n) = some h.heapEnd ∧ h.heapEnd ≠ 0 ∧
      (Zeroed (takeBlock g h.heapEnd (rounded n)).2 (h.heapEnd + headerSize) n ↔
        Clean h n h.heapEnd) := by
  obtain ⟨inv', _⟩ := expandHeap_grown inv hwf hz hexp
  obtain ⟨_, hbytes⟩ := expandHeap_grown_bytes inv hwf hz hexp
  rw [grow_of_used _ hused] at inv'
  have hfind : findFreeBlock g (rounded n) = some h.heapEnd :=
    inv'.findFreeBlock_last (inv.none_fits hnone) rfl (rounded_le_newBlock hsum)
  have hne : h.heapEnd ≠ 0 :=
    inv'.addr_ne_zero _ (List.mem_append_right _ (List.mem_singleton_self _))
  refine ⟨hfind, hne, (zeroed_takeBlock inv' hfind hne).trans ?_⟩
  constructor
  · rintro ⟨hfits, hzero⟩
    exact ⟨hfits, fun i hi => (hbytes _ (Nat.le_add_right _ i)).symm.trans (hzero i hi)⟩
  · rintro ⟨hfits, hzero⟩
    exact ⟨hfits, fun i hi => (hbytes _ (Nat.le_add_right _ i)).trans (hzero i hi)⟩

/-- After a free block, the request is served with the merged block, which has the
header that was appended inside its payload. -/
theorem not_zeroed_merged (inv : HeapInv h bs) (hwf : h.env.WellFormed)
    (hlast : lastFree bs = true) (hnone : findFreeBlock h (rounded n) = some 0)
    (hz : grown (n % 2 ^ 64) ≠ 0) (hsum : rounded n + headerSize < 2 ^ 64)
    (hexp : expandHeap h (requested (n % 2 ^ 64)) = some (true, g)) :
    ∃ a, findFreeBlock g (rounded n) = some a ∧ a ≠ 0 ∧
      ¬ Zeroed (takeBlock g a (rounded n)).2 (a + headerSize) n := by
  obtain ⟨inv', _⟩ := expandHeap_grown inv hwf hz hexp
  obtain ⟨hmagic, _⟩ := expandHeap_grown_bytes inv hwf hz hexp
  rcases List.eq_nil_or_concat' bs with rfl | ⟨bs, l, rfl⟩
  · cases hlast
  rw [lastFree_concat] at hlast
  obtain ⟨hfirst, hl⟩ := List.forall_mem_append.mp (inv.none_fits hnone)
  have hsmall : l.size < rounded n :=
    Nat.not_le.mp fun hle => hl l (List.mem_singleton_self l) ⟨hlast, hle⟩
  have hroom := rounded_le_newBlock (h := h) hsum
  rw [grow_concat, grow, if_pos hlast] at inv'
  have hfind : findFreeBlock g (rounded n) = some l.addr :=
    inv'.findFreeBlock_last hfirst hlast (by simp only; omega)
  have hne : l.addr ≠ 0 :=
    inv.addr_ne_zero l (List.mem_append_right _ (List.mem_singleton_self l))
  refine ⟨l.addr, hfind, hne, fun hzeroed => ?_⟩
  obtain ⟨hfits, hzero⟩ := (zeroed_takeBlock inv' hfind hne).mp hzeroed
  -- the old end of the heap lies behind the bytes of the last block
  have hinside : l.size < n := by
    have h16 := inv.sizes l (List.mem_append_right _ (List.mem_singleton_self l))
    have hround := rounded_eq n
    omega
  have hend : l.addr + headerSize + l.size = h.heapEnd := by
    obtain ⟨_, _, hl, hfin⟩ := tiled_append.mp inv.tiled
    exact hfin
  have hbyte := hzero l.size hinside
  rw [hend] at hbyte
  exact magic_byte hmagic hbyte

/-! ## The contract -/

theorem takeBlock_heapEnd (h : KernelHeap KernelSpace) (a n : Nat) :
    (takeBlock h a n).2.heapEnd = h.heapEnd := (SameBooks.splitBlock h a n).heapEnd

/-- The call returns, and gives null or `n` zero bytes. -/
def Promised (r : Option (Nat × KernelHeap KernelSpace)) (n : Nat) : Prop :=
  ∃ ptr h', r = some (ptr, h') ∧ (ptr = 0 ∨ Zeroed h' ptr n)

theorem promised_null (h : KernelHeap KernelSpace) (n : Nat) : Promised (some (0, h)) n :=
  ⟨0, h, rfl, Or.inl rfl⟩

theorem promised_takeBlock (h : KernelHeap KernelSpace) (a m n : Nat) :
    Promised (some (takeBlock h a m)) n ↔ Zeroed (takeBlock h a m).2 (a + headerSize) n := by
  have hptr : (takeBlock h a m).1 = a + headerSize := rfl
  constructor
  · rintro ⟨ptr, h', heq, hcase⟩
    rw [Option.some.inj heq] at hptr ⊢
    obtain rfl : ptr = a + headerSize := hptr
    refine hcase.resolve_left fun hnull => ?_
    unfold headerSize at hnull
    omega
  · exact fun hzeroed => ⟨_, _, by rw [← hptr, Prod.mk.eta], Or.inr hzeroed⟩

/-- When `calloc` gives what it promises for a product of `n` bytes: it does not
stop the kernel, a block that fits is clean, and where the heap has to grow, the
last block is in use and the memory behind it is clean.  Growing by nothing is
fine after a free block only. -/
structure CallocServes (h : KernelHeap KernelSpace) (n : Nat) : Prop where
  returns : ¬ StopsKernel h (n % 2 ^ 64)
  reuses : n % 2 ^ 64 ≠ 0 → ∀ a ≠ 0, findFreeBlock h (rounded n) = some a → Clean h n a
  grows : n % 2 ^ 64 ≠ 0 → findFreeBlock h (rounded n) = some 0 → CanGrow h (n % 2 ^ 64) →
    rounded n + headerSize < 2 ^ 64 →
    (grown (n % 2 ^ 64) = 0 → LastFree h) ∧
      (grown (n % 2 ^ 64) ≠ 0 → ¬ LastFree h ∧ Clean h n h.heapEnd)

/-- The part of the contract after a growth. -/
theorem promised_grown (inv : HeapInv h bs) (hwf : h.env.WellFormed)
    (hnone : findFreeBlock h (rounded n) = some 0)
    (hexp : expandHeap h (requested (n % 2 ^ 64)) = some (true, g)) :
    Promised ((findFreeBlock g (rounded n)).bind fun block =>
        if block = 0 then some (0, g) else some (takeBlock g block (rounded n))) n ↔
      (rounded n + headerSize < 2 ^ 64 →
        (grown (n % 2 ^ 64) = 0 → LastFree h) ∧
          (grown (n % 2 ^ 64) ≠ 0 → ¬ LastFree h ∧ Clean h n h.heapEnd)) := by
  rw [inv.lastFree_iff, Bool.not_eq_true]
  by_cases hz : grown (n % 2 ^ 64) = 0
  · -- nothing was mapped
    have hsum := sum_of_grown_eq_zero hz
    rw [forall_prop_of_true hsum, forall_prop_of_true hz,
      and_iff_left fun hno : grown (n % 2 ^ 64) ≠ 0 => absurd hz hno]
    cases hlast : lastFree bs with
    | true =>
        obtain ⟨inv', _⟩ := expandHeap_nothing inv hz hlast hexp
        have hsame : findFreeBlock g (rounded n) = some 0 := by
          rw [inv'.findFreeBlock_eq, ← inv.findFreeBlock_eq, hnone]
        rw [hsame, Option.bind_some, if_pos rfl]
        exact iff_of_true (promised_null g n) rfl
    | false =>
        obtain ⟨hfind, hend⟩ := findFreeBlock_nothing inv hz hlast hnone hexp
        have hfind : findFreeBlock g (rounded n) = some h.heapEnd := hfind
        have hne : h.heapEnd ≠ 0 := by
          have hle := inv.tiled.le
          unfold kernelHeapStart at hle
          omega
        rw [hfind, Option.bind_some, if_neg hne, promised_takeBlock]
        refine iff_of_false (fun hzeroed => ?_) Bool.false_ne_true
        obtain ⟨k, _, _, hinside⟩ := hzeroed.room
        rw [takeBlock_heapEnd, hend] at hinside
        unfold headerSize at hinside
        omega
  rw [and_iff_right fun hc : grown (n % 2 ^ 64) = 0 => absurd hc hz, forall_prop_of_true (p := grown (n % 2 ^ 64) ≠ 0) hz]
  by_cases hsum : rounded n + headerSize < 2 ^ 64
  · rw [forall_prop_of_true hsum]
    cases hlast : lastFree bs with
    | true =>
        obtain ⟨a, hfind, hne, hno⟩ := not_zeroed_merged inv hwf hlast hnone hz hsum hexp
        rw [hfind, Option.bind_some, if_neg hne, promised_takeBlock]
        exact iff_of_false hno fun hc => Bool.false_ne_true hc.1.symm
    | false =>
        obtain ⟨hfind, hne, hiff⟩ := zeroed_grown inv hwf hlast hnone hz hsum hexp
        rw [hfind, Option.bind_some, if_neg hne, promised_takeBlock, hiff, and_iff_right rfl]
  · -- the sum with the header wraps, and no block is that large
    obtain ⟨inv', _⟩ := expandHeap_grown inv hwf hz hexp
    rw [inv'.findFreeBlock_huge (Nat.not_lt.mp hsum), Option.bind_some, if_pos rfl]
    exact iff_of_true (promised_null g n) fun hc => absurd hc hsum

/-- The contract of one call. -/
theorem promised_allocate (inv : HeapInv h bs) (hwf : h.env.WellFormed) (n : Nat) :
    Promised (allocate h (n % 2 ^ 64)) n ↔ CallocServes h n := by
  have hstops := allocate_none_iff inv hwf (n % 2 ^ 64)
  by_cases hn : n % 2 ^ 64 = 0
  · have hnull : allocate h (n % 2 ^ 64) = some (0, h) := if_pos hn
    rw [hnull]
    exact iff_of_true (promised_null h n)
      ⟨fun hc => hc.1 hn, fun hc => absurd hn hc, fun hc => absurd hn hc⟩
  obtain ⟨a, hfind⟩ : ∃ a, findFreeBlock h (rounded n) = some a := ⟨_, inv.findFreeBlock_eq _⟩
  have halloc := allocate_eq h hn
  rw [show alignUp (n % 2 ^ 64) 16 = rounded n from rfl, hfind, Option.bind_some] at halloc
  by_cases ha : a = 0
  · subst ha
    have hreuses : n % 2 ^ 64 ≠ 0 → ∀ a ≠ 0, findFreeBlock h (rounded n) = some a → Clean h n a :=
      fun _ a hne hfind' => absurd (Option.some.inj (hfind.symm.trans hfind')).symm hne
    rw [if_neg (not_not.mpr rfl)] at halloc
    cases hexp : expandHeap h (requested (n % 2 ^ 64)) with
    | none =>
        rw [hexp] at halloc
        refine iff_of_false ?_ fun hs => hs.returns (hstops.mp halloc)
        rintro ⟨_, _, heq, _⟩
        rw [halloc] at heq
        cases heq
    | some r =>
        obtain ⟨ok, g⟩ := r
        have hcan := expandHeap_canGrow inv hwf hexp
        rw [hexp, Option.bind_some] at halloc
        cases ok with
        | false =>
            have hnull : allocate h (n % 2 ^ 64) = some (0, g) := halloc
            rw [hnull] at hstops ⊢
            exact iff_of_true (promised_null g n) ⟨fun hc => (nomatch hstops.mpr hc), hreuses,
              fun _ _ hc => absurd (hcan.mpr hc) Bool.false_ne_true⟩
        | true =>
            have hgrown := promised_grown inv hwf hfind hexp
            simp only [Bool.not_true, Bool.false_eq_true, if_false] at halloc
            rw [← halloc] at hgrown
            rw [hgrown]
            obtain ⟨c, hfind'⟩ : ∃ c, findFreeBlock g (rounded n) = some c :=
              findFreeBlock_grown inv hwf hfind hexp
            have hreturns : ¬ StopsKernel h (n % 2 ^ 64) := fun hc => by
              have hnone := hstops.mpr hc
              rw [halloc, hfind', Option.bind_some] at hnone
              split at hnone <;> cases hnone
            exact ⟨fun hg => ⟨hreturns, hreuses, fun _ _ _ => hg⟩,
              fun hs => hs.grows hn hfind (hcan.mp rfl)⟩
  · rw [if_pos ha] at halloc
    rw [halloc, promised_takeBlock, zeroed_takeBlock inv hfind ha]
    constructor
    · intro hclean
      refine ⟨fun hc => (nomatch halloc.symm.trans (hstops.mpr hc)), fun _ c hne hc => ?_,
        fun _ hc => ?_⟩
      · exact Option.some.inj (hfind.symm.trans hc) ▸ hclean
      · exact absurd (Option.some.inj (hfind.symm.trans hc)) ha
    · exact fun hs => hs.reuses hn a ha hfind

/-- What `calloc` promises: null, or `count * size` zero bytes, where the product
is not reduced. -/
def MeetsContract (h : KernelHeap KernelSpace) (count size : Nat) : Prop :=
  Promised (calloc h count size) (count * size)

/-- For every state of a run and all arguments: `calloc` meets its contract if and
only if the heap and the product satisfy `CallocServes`. -/
theorem calloc_contract_iff {mem : Nat → UInt8} {env : KernelSpace}
    {h₀ h : KernelHeap KernelSpace} {calls : List Call} (hwf : env.WellFormed)
    (hinit : init mem env = some h₀) (hrun : Run WideStep h₀ calls h) (count size : Nat) :
    MeetsContract h count size ↔ CallocServes h (count * size) := by
  obtain ⟨⟨bs, inv⟩, hwf'⟩ := wide_run hwf hinit hrun
  exact promised_allocate inv hwf' (count * size)

/-- The first block of the small heap over zeros is clean. -/
theorem calloc_contract_iff_heap32 : MeetsContract heap32 10 10 := by
  have hinit : init (fun _ => 0) space32 = some heap32 := (Option.some_get _).symm
  have hfind : findFreeBlock heap32 (rounded (10 * 10)) = some kernelHeapStart := by decide +kernel
  have hne : kernelHeapStart ≠ 0 := by decide
  have hclean : Clean heap32 (10 * 10) kernelHeapStart := ⟨by decide +kernel, by decide +kernel⟩
  refine (calloc_contract_iff space32_unmapped.1 hinit .nil 10 10).mpr
    ⟨fun hc => ?_, fun _ a _ ha => ?_, fun _ hc => ?_⟩
  · exact hne (Option.some.inj (hfind.symm.trans hc.2.1))
  · exact Option.some.inj (hfind.symm.trans ha) ▸ hclean
  · exact absurd (Option.some.inj (hfind.symm.trans hc)) hne

/-- The small heap after a byte has been written to an allocation. -/
def heap32Written : KernelHeap KernelSpace :=
  { heap32Allocated.2 with
    mem := Function.update heap32Allocated.2.mem heap32Allocated.1 1
    env := heap32Allocated.2.env }

/-- And after that allocation has been freed. -/
def heap32Recycled : KernelHeap KernelSpace :=
  (free heap32Written heap32Allocated.1).get (by decide +kernel)

theorem run_heap32Recycled :
    Run WideStep heap32 [.allocate 100, .other, .free heap32Allocated.1] heap32Recycled := by
  have halloc : allocate heap32 100 = some (heap32Allocated.1, heap32Allocated.2) := by
    rw [Prod.mk.eta]
    exact (Option.some_get _).symm
  have hfirst : findFreeBlock heap32 (alignUp 100 16) ≠ some 0 := by decide +kernel
  have hlive : (heap32Allocated.1, 112) ∈ live heap32Allocated.2.trace := by decide +kernel
  have hstep : WideStep heap32 (.allocate 100) heap32Allocated.2 :=
    .allocate (fun hc => hfirst hc.2.1) halloc
  have hinit : init (fun _ => 0) space32 = some heap32 := (Option.some_get _).symm
  have hwf := (wide_run space32_unmapped.1 hinit (.single hstep)).2
  have hwrite : WideStep heap32Allocated.2 .other heap32Written := by
    refine .other (fun x _ _ hclear => Function.update_of_ne (fun heq => ?_) _ _) hwf
    have hinside := hclear _ hlive
    unfold Clear at hinside
    omega
  have hfree : free heap32Written heap32Allocated.1 = some heap32Recycled :=
    (Option.some_get _).symm
  have hptr : heap32Allocated.1 ∈ (live heap32Written.trace).map Prod.fst := by decide +kernel
  exact .cons hstep (.cons hwrite (.single (.free hptr hfree)))

/-- The bytes of a freed allocation come back, and a product that has wrapped is
served with a small block. -/
theorem calloc_breaks_contract :
    Run WideStep heap32 [.allocate 100, .other, .free heap32Allocated.1] heap32Recycled ∧
      ¬ MeetsContract heap32Recycled 1 100 ∧ ¬ MeetsContract heap32 (2 ^ 62 + 1) 4 := by
  have hinit : init (fun _ => 0) space32 = some heap32 := (Option.some_get _).symm
  have hne : kernelHeapStart ≠ 0 := by decide
  refine ⟨run_heap32Recycled, fun hmeets => ?_, fun hmeets => ?_⟩
  · obtain ⟨⟨bs, inv⟩, hwf⟩ := wide_run space32_unmapped.1 hinit run_heap32Recycled
    have hfind : findFreeBlock heap32Recycled (rounded (1 * 100)) = some kernelHeapStart := by
      decide +kernel
    have hclean := ((promised_allocate inv hwf _).mp hmeets).reuses (by decide) _ hne hfind
    have hbyte : heap32Recycled.mem (kernelHeapStart + headerSize + 0) ≠ 0 := by decide +kernel
    exact hbyte (hclean.zero 0 (by decide))
  · obtain ⟨⟨bs, inv⟩, hwf⟩ := wide_run space32_unmapped.1 hinit .nil
    have hfind : findFreeBlock heap32 (rounded ((2 ^ 62 + 1) * 4)) = some kernelHeapStart := by
      decide +kernel
    have hclean := ((promised_allocate inv hwf _).mp hmeets).reuses (by decide) _ hne hfind
    have hlarge : ¬ (2 ^ 62 + 1) * 4 ≤ rounded ((2 ^ 62 + 1) * 4) := by decide +kernel
    exact hlarge hclean.fits

end Avery.Heap
