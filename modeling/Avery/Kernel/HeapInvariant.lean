import Avery.Kernel.HeapBlocks

/-!
# The invariant of the heap

`HeapInv h bs` says that `bs` is the block list of `h`.  The blocks tile the heap
and are listed in memory, no two neighbours are free, and the blocks in use are
exactly the live allocations of the trace.  Each operation keeps it and says
which list it leaves.

A header never overlaps a live payload, since both are parts of blocks of one
tiling.  This is what makes every header write safe.
-/

namespace Avery.Heap

open LinkedList ByteMemory

variable {E : Type}

/-! ## Coalesced lists -/

/-- Neighbours that `free` would have merged. -/
def NotBothFree (a b : Block) : Prop := ¬ (a.free = true ∧ b.free = true)

section Coalesced

variable {pre post : List Block} {b c : Block}

theorem coalesced_iff : (pre ++ b :: post).IsChain NotBothFree ↔
    pre.IsChain NotBothFree ∧ (∀ x ∈ pre.getLast?, NotBothFree x b) ∧
      (∀ y ∈ post.head?, NotBothFree b y) ∧ post.IsChain NotBothFree := by
  rw [List.isChain_append, List.isChain_cons]
  simp only [List.head?_cons, Option.mem_some_iff, forall_eq']
  exact ⟨fun ⟨h₁, ⟨h₂, h₃⟩, h₄⟩ => ⟨h₁, h₄, h₂, h₃⟩, fun ⟨h₁, h₄, h₂, h₃⟩ => ⟨h₁, ⟨h₂, h₃⟩, h₄⟩⟩

theorem notBothFree_left (x : Block) (hb : b.free = false) : NotBothFree b x := fun h => by
  rw [hb] at h
  exact Bool.false_ne_true h.1

theorem notBothFree_right (x : Block) (hb : b.free = false) : NotBothFree x b := fun h => by
  rw [hb] at h
  exact Bool.false_ne_true h.2

/-- A block in use may stand anywhere. -/
theorem coalesced_replace (h : (pre ++ b :: post).IsChain NotBothFree) (hc : c.free = false) :
    (pre ++ c :: post).IsChain NotBothFree := by
  obtain ⟨h₁, _, _, h₄⟩ := coalesced_iff.mp h
  exact coalesced_iff.mpr ⟨h₁, fun x _ => notBothFree_right x hc, fun x _ => notBothFree_left x hc, h₄⟩

/-- A free block may stand where a free block stood. -/
theorem coalesced_free (h : (pre ++ b :: post).IsChain NotBothFree) (hb : b.free = true) :
    (pre ++ c :: post).IsChain NotBothFree := by
  obtain ⟨h₁, h₂, h₃, h₄⟩ := coalesced_iff.mp h
  refine coalesced_iff.mpr ⟨h₁, fun x hx hc => h₂ x hx ⟨hc.1, hb⟩, fun y hy hc => h₃ y hy ⟨hb, hc.2⟩, h₄⟩

end Coalesced

/-! ## Payloads and header writes -/

/-- The payloads of the blocks in use. -/
def payloads (bs : List Block) : List (Nat × Nat) :=
  (bs.filter fun b => !b.free).map Block.payload

theorem payloads_append (xs ys : List Block) : payloads (xs ++ ys) = payloads xs ++ payloads ys := by
  rw [payloads, List.filter_append, List.map_append]
  rfl

theorem payloads_cons_free {b : Block} (bs : List Block) (hb : b.free = true) :
    payloads (b :: bs) = payloads bs := by
  rw [payloads, List.filter_cons_of_neg (by rw [hb]; decide)]
  rfl

theorem payloads_cons_used {b : Block} (bs : List Block) (hb : b.free = false) :
    payloads (b :: bs) = b.payload :: payloads bs := by
  rw [payloads, List.filter_cons_of_pos (by rw [hb]; decide)]
  rfl

theorem mem_payloads {bs : List Block} {p : Nat × Nat} :
    p ∈ payloads bs ↔ ∃ b ∈ bs, b.free = false ∧ p = b.payload := by
  rw [payloads, List.mem_map]
  constructor
  · rintro ⟨b, hb, rfl⟩
    obtain ⟨hb, hused⟩ := List.mem_filter.mp hb
    exact ⟨b, hb, by simpa using hused, rfl⟩
  · rintro ⟨b, hb, hused, rfl⟩
    exact ⟨b, List.mem_filter.mpr ⟨hb, by rw [hused]; rfl⟩, rfl⟩

/-- The `len` bytes from `addr` on are outside the payload. -/
def Clear (addr len : Nat) (p : Nat × Nat) : Prop := addr + len ≤ p.1 ∨ p.1 + p.2 ≤ addr

/-- No header write of the trace fell inside a payload live at that moment. -/
def Safe : List Event → Prop
  | [] => True
  | .headerWrite addr len :: older => (∀ p ∈ live older, Clear addr len p) ∧ Safe older
  | .allocated _ _ :: older => Safe older
  | .freed _ :: older => Safe older

/-- Writes to headers that are clear of every live payload are safe. -/
theorem Edits.safe {S : Nat → Prop} {h h' : KernelHeap E} (e : Edits S h h') (hsafe : Safe h.trace)
    (hS : ∀ a, S a → ∀ p ∈ live h.trace, Clear a headerSize p) : Safe h'.trace := by
  obtain ⟨ws, ht, hw⟩ := e.writes
  have key : ∀ ws : List Event, (∀ e ∈ ws, WritesHeader S e) →
      Safe (ws ++ h.trace) ∧ live (ws ++ h.trace) = live h.trace := by
    intro ws
    induction ws with
    | nil => exact fun _ => ⟨hsafe, rfl⟩
    | cons w ws ih =>
        intro hw
        obtain ⟨a, addr, len, ha, hle, hlen, rfl⟩ := hw w (List.mem_cons_self ..)
        obtain ⟨hs, hl⟩ := ih fun e he => hw e (List.mem_cons_of_mem _ he)
        refine ⟨⟨fun p hp => ?_, hs⟩, hl⟩
        rcases hS a ha p (hl ▸ hp) with hc | hc
        · exact Or.inl (by omega)
        · exact Or.inr (by omega)
  rw [ht]
  exact (key ws hw).1

/-! ## The invariant -/

structure HeapInv (h : KernelHeap E) (bs : List Block) : Prop where
  listed : Listed h bs
  tiled : Tiled kernelHeapStart bs h.heapEnd
  sizes : ∀ b ∈ bs, b.size % 16 = 0
  coalesced : bs.IsChain NotBothFree
  start : h.heapStart = kernelHeapStart
  max : h.heapMax = kernelHeapStart + kernelHeapMaxSize
  fits : h.heapEnd ≤ h.heapMax
  pages : h.heapEnd % 4096 = 0
  live : (live h.trace).Perm (payloads bs)
  safe : Safe h.trace

section

variable {h : KernelHeap E} {bs : List Block}

theorem HeapInv.end_le (inv : HeapInv h bs) : h.heapEnd ≤ kernelHeapStart + kernelHeapMaxSize := by
  rw [← inv.max]
  exact inv.fits

theorem HeapInv.mem_live (inv : HeapInv h bs) {p : Nat × Nat} :
    p ∈ Heap.live h.trace ↔ ∃ b ∈ bs, b.free = false ∧ p = b.payload := by
  rw [inv.live.mem_iff, mem_payloads]

theorem HeapInv.addr_ne_zero (inv : HeapInv h bs) : ∀ b ∈ bs, b.addr ≠ 0 := fun b hb => by
  have hle := (inv.tiled.mem_bounds b hb).1
  unfold kernelHeapStart at hle
  omega

theorem HeapInv.length_lt (inv : HeapInv h bs) : bs.length + 1 < maxBlocks + 1 := by
  have hlen := inv.tiled.length_le
  have hend := inv.end_le
  unfold headerSize at hlen
  unfold kernelHeapMaxSize at hend
  unfold maxBlocks kernelHeapMaxSize headerSize
  omega

/-- Two blocks of a tiling are the same, or one lies before the other. -/
theorem Tiled.compare {s e : Nat} (ht : Tiled s bs e) {a b : Block} (ha : a ∈ bs) (hb : b ∈ bs) :
    a = b ∨ a.fin ≤ b.addr ∨ b.fin ≤ a.addr := by
  have hsym : Std.Symm fun a b : Block => a = b ∨ a.fin ≤ b.addr ∨ b.fin ≤ a.addr :=
    ⟨fun _ _ h => h.imp Eq.symm Or.symm⟩
  have hall : bs.Pairwise fun a b : Block => a = b ∨ a.fin ≤ b.addr ∨ b.fin ≤ a.addr :=
    ht.pairwise.imp fun h => Or.inr (Or.inl h)
  exact hall.forall_of_forall
    (fun x _ => (Or.inl rfl : x = x ∨ x.fin ≤ x.addr ∨ x.fin ≤ x.addr)) ha hb

/-- The header of a block is clear of every live payload. -/
theorem HeapInv.header_clear (inv : HeapInv h bs) {c : Block} (hc : c ∈ bs) :
    ∀ p ∈ Heap.live h.trace, Clear c.addr headerSize p := by
  intro p hp
  obtain ⟨b, hb, _, rfl⟩ := inv.mem_live.mp hp
  unfold Clear Block.payload
  rcases inv.tiled.compare hc hb with rfl | hle | hle
  · exact Or.inl (Nat.le_refl _)
  · exact Or.inl (by unfold Block.fin at hle; omega)
  · exact Or.inr hle

/-- So is everything inside a free block. -/
theorem HeapInv.free_clear (inv : HeapInv h bs) {c : Block} (hc : c ∈ bs) (hfree : c.free = true)
    {addr len : Nat} (h₁ : c.addr ≤ addr) (h₂ : addr + len ≤ c.fin) :
    ∀ p ∈ Heap.live h.trace, Clear addr len p := by
  intro p hp
  obtain ⟨b, hb, hused, rfl⟩ := inv.mem_live.mp hp
  unfold Clear Block.payload
  rcases inv.tiled.compare hc hb with rfl | hle | hle
  · rw [hused] at hfree
    cases hfree
  · exact Or.inl (by omega)
  · exact Or.inr (by unfold Block.fin at hle; omega)

/-- And everything past the end of the heap. -/
theorem HeapInv.end_clear (inv : HeapInv h bs) {addr len : Nat} (h₁ : h.heapEnd ≤ addr) :
    ∀ p ∈ Heap.live h.trace, Clear addr len p := by
  intro p hp
  obtain ⟨b, hb, _, rfl⟩ := inv.mem_live.mp hp
  have hle := (inv.tiled.mem_bounds b hb).2
  unfold Block.fin at hle
  exact Or.inr (by unfold Block.payload; simp only; omega)

/-- Live payloads do not overlap. -/
theorem HeapInv.live_disjoint (inv : HeapInv h bs) :
    (Heap.live h.trace).Pairwise fun p q => Clear p.1 p.2 q := by
  have hsym : ∀ {p q : Nat × Nat}, Clear p.1 p.2 q → Clear q.1 q.2 p := fun h => Or.symm h
  refine (inv.live.pairwise_iff hsym).mpr ?_
  refine List.pairwise_map.mpr ((inv.tiled.pairwise.filter _).imp fun {a b} hab => ?_)
  unfold Clear Block.payload
  exact Or.inl (by unfold Block.fin at hab; simp only; omega)

/-- Memory outside the heap and in live payloads belongs to others, and so does
the environment. -/
theorem HeapInv.write (inv : HeapInv h bs) (mem : Nat → UInt8) (env : E)
    (hmem : ∀ x, kernelHeapStart ≤ x → x < h.heapEnd →
      (∀ p ∈ Heap.live h.trace, Clear x 1 p) → mem x = h.mem x) :
    HeapInv { h with mem, env } bs := by
  have hheader : ∀ b ∈ bs, header { h with mem, env } b.addr = header h b.addr := by
    intro b hb
    obtain ⟨h₁, h₂⟩ := inv.tiled.mem_bounds b hb
    unfold Block.fin headerSize at h₂
    have hbyte : ∀ x, b.addr ≤ x → x < b.addr + 48 → mem x = h.mem x := fun x hx₁ hx₂ => by
      refine hmem x (by omega) (by omega) fun p hp => ?_
      rcases inv.header_clear hb p hp with hc | hc
      · exact Or.inl (by unfold headerSize at hc; omega)
      · exact Or.inr (by omega)
    have hread : ∀ off n, off + n ≤ 48 →
        readLE mem (b.addr + off) n = readLE h.mem (b.addr + off) n := fun off n hoff =>
      readLE_congr fun x hx₁ hx₂ => hbyte x (by omega) (by omega)
    have hmagic := hread 0 8 (by omega)
    simp only [Nat.add_zero] at hmagic
    simp only [header, magic, size, isFree, next, prev, hmagic, hread 8 8 (by omega),
      hread 16 1 (by omega), hread 24 8 (by omega), hread 32 8 (by omega)]
  exact ⟨inv.listed.congr rfl hheader, inv.tiled, inv.sizes, inv.coalesced, inv.start, inv.max,
    inv.fits, inv.pages, inv.live, inv.safe⟩

/-- After header writes that are clear of the live payloads, and one allocation
or free, the invariant holds of a list that accounts for them. -/
theorem HeapInv.edited (inv : HeapInv h bs) {S : Nat → Prop} {h₁ : KernelHeap E}
    {bs' : List Block} {e : Event} (hedits : Edits S h h₁)
    (hS : ∀ a, S a → ∀ p ∈ Heap.live h.trace, Clear a headerSize p) (hlisted : Listed h₁ bs')
    (htiled : Tiled kernelHeapStart bs' h.heapEnd) (hsizes : ∀ b ∈ bs', b.size % 16 = 0)
    (hcoalesced : bs'.IsChain NotBothFree) (he : ∀ {t}, Safe t → Safe (e :: t))
    (hlive : (Heap.live (e :: h₁.trace)).Perm (payloads bs')) (usedMemory freeMemory : Nat) :
    HeapInv { h₁ with usedMemory, freeMemory, trace := e :: h₁.trace } bs' where
  listed := hlisted.congr rfl fun _ _ => rfl
  tiled := by
    rw [← hedits.heapEnd] at htiled
    exact htiled
  sizes := hsizes
  coalesced := hcoalesced
  start := hedits.heapStart.trans inv.start
  max := hedits.heapMax.trans inv.max
  fits := (Nat.le_of_eq hedits.heapEnd).trans (inv.fits.trans (Nat.le_of_eq hedits.heapMax.symm))
  pages := (congrArg (· % 4096) hedits.heapEnd).trans inv.pages
  live := hlive
  safe := he (hedits.safe inv.safe hS)

/-- `findFreeBlock` returns the first block that fits. -/
theorem HeapInv.findFreeBlock_eq (inv : HeapInv h bs) (n : Nat) :
    findFreeBlock h n =
      some (((bs.find? fun b => b.free ∧ n ≤ b.size).map Block.addr).getD 0) := by
  have hlen := inv.length_lt
  rw [findFreeBlock, inv.listed.head]
  exact findFreeBlockLoop_eq inv.listed.linked inv.listed.describes inv.addr_ne_zero (by omega)

end

end Avery.Heap
