import Avery.Kernel.Heap

/-!
# Headers in memory

What the stores of `heap.cpp` do to block headers.  `header` reads the five
fields of a header at once.  A store to one header changes that field of it, and
no header that is `Apart`.  `Edits` collects what a sequence of header stores
leaves alone: the globals, and every byte outside the headers it is about.
-/

namespace Avery.Heap

open ByteMemory

variable {E : Type}

/-- The fields of a `HeapBlock`. -/
structure Header where
  magic : Nat
  size : Nat
  free : Bool
  next : Nat
  prev : Nat

def header (h : KernelHeap E) (block : Nat) : Header :=
  ⟨magic h block, size h block, isFree h block, next h block, prev h block⟩

def Header.withMagic (x : Header) (v : Nat) : Header := ⟨v, x.size, x.free, x.next, x.prev⟩
def Header.withSize (x : Header) (v : Nat) : Header := ⟨x.magic, v, x.free, x.next, x.prev⟩
def Header.withFree (x : Header) (v : Bool) : Header := ⟨x.magic, x.size, v, x.next, x.prev⟩
def Header.withNext (x : Header) (v : Nat) : Header := ⟨x.magic, x.size, x.free, v, x.prev⟩
def Header.withPrev (x : Header) (v : Nat) : Header := ⟨x.magic, x.size, x.free, x.next, v⟩

theorem magic_eq (h : KernelHeap E) (a : Nat) : magic h a = (header h a).magic := rfl
theorem size_eq (h : KernelHeap E) (a : Nat) : size h a = (header h a).size := rfl
theorem isFree_eq (h : KernelHeap E) (a : Nat) : isFree h a = (header h a).free := rfl
theorem next_eq (h : KernelHeap E) (a : Nat) : next h a = (header h a).next := rfl
theorem prev_eq (h : KernelHeap E) (a : Nat) : prev h a = (header h a).prev := rfl

/-- Two headers that do not overlap. -/
def Apart (a b : Nat) : Prop := a + headerSize ≤ b ∨ b + headerSize ≤ a

theorem Apart.symm {a b : Nat} (h : Apart a b) : Apart b a := Or.symm h

/-! ## One store -/

section Store

variable {h : KernelHeap E} {a b v : Nat}

/-- A store inside one header leaves every other header alone. -/
theorem header_store_of_apart {addr len : Nat} (hab : Apart a b) (h₁ : a ≤ addr)
    (h₂ : addr + len ≤ a + headerSize) : header (store h addr len v) b = header h b := by
  unfold Apart headerSize at hab
  unfold headerSize at h₂
  have hread : ∀ off n, off + n ≤ 48 →
      readLE (writeLE h.mem addr len v) (b + off) n = readLE h.mem (b + off) n :=
    fun off n hoff => readLE_writeLE_disjoint (by omega)
  have hmagic := hread 0 8 (by omega)
  have hsize := hread 8 8 (by omega)
  have hfree := hread 16 1 (by omega)
  have hnext := hread 24 8 (by omega)
  have hprev := hread 32 8 (by omega)
  simp only [Nat.add_zero] at hmagic
  simp only [header, magic, size, isFree, next, prev, store, hmagic, hsize, hfree, hnext, hprev]

theorem header_setMagic (hv : v < 2 ^ 64) :
    header (setMagic h a v) a = (header h a).withMagic v := by
  have hsame : readLE (writeLE h.mem a 8 v) a 8 = v := readLE_writeLE_same (by omega)
  have hother : ∀ off n, 8 ≤ off →
      readLE (writeLE h.mem a 8 v) (a + off) n = readLE h.mem (a + off) n :=
    fun off n hoff => readLE_writeLE_disjoint (by omega)
  simp only [header, Header.withMagic, magic, size, isFree, next, prev, setMagic, store, hsame,
    hother 8 8 (by omega), hother 16 1 (by omega), hother 24 8 (by omega), hother 32 8 (by omega)]

theorem header_setSize (hv : v < 2 ^ 64) :
    header (setSize h a v) a = (header h a).withSize v := by
  have hsame : readLE (writeLE h.mem (a + 8) 8 v) (a + 8) 8 = v := readLE_writeLE_same (by omega)
  have hother : ∀ off n, off + n ≤ 8 ∨ 16 ≤ off →
      readLE (writeLE h.mem (a + 8) 8 v) (a + off) n = readLE h.mem (a + off) n :=
    fun off n hoff => readLE_writeLE_disjoint (by omega)
  have hmagic := hother 0 8 (by omega)
  simp only [Nat.add_zero] at hmagic
  simp only [header, Header.withSize, magic, size, isFree, next, prev, setSize, store, hsame, hmagic,
    hother 16 1 (by omega), hother 24 8 (by omega), hother 32 8 (by omega)]

theorem header_setFree (f : Bool) :
    header (setFree h a f) a = (header h a).withFree f := by
  have hsame : readLE (writeLE h.mem (a + 16) 1 f.toNat) (a + 16) 1 = f.toNat :=
    readLE_writeLE_same (by cases f <;> decide)
  have hother : ∀ off n, off + n ≤ 16 ∨ 17 ≤ off →
      readLE (writeLE h.mem (a + 16) 1 f.toNat) (a + off) n = readLE h.mem (a + off) n :=
    fun off n hoff => readLE_writeLE_disjoint (by omega)
  have hmagic := hother 0 8 (by omega)
  simp only [Nat.add_zero] at hmagic
  simp only [header, Header.withFree, magic, size, isFree, next, prev, setFree, store, hsame, hmagic,
    hother 8 8 (by omega), hother 24 8 (by omega), hother 32 8 (by omega)]
  cases f <;> rfl

theorem header_setNext (hv : v < 2 ^ 64) :
    header (setNext h a v) a = (header h a).withNext v := by
  have hsame : readLE (writeLE h.mem (a + 24) 8 v) (a + 24) 8 = v := readLE_writeLE_same (by omega)
  have hother : ∀ off n, off + n ≤ 24 ∨ 32 ≤ off →
      readLE (writeLE h.mem (a + 24) 8 v) (a + off) n = readLE h.mem (a + off) n :=
    fun off n hoff => readLE_writeLE_disjoint (by omega)
  have hmagic := hother 0 8 (by omega)
  simp only [Nat.add_zero] at hmagic
  simp only [header, Header.withNext, magic, size, isFree, next, prev, setNext, store, hsame, hmagic,
    hother 8 8 (by omega), hother 16 1 (by omega), hother 32 8 (by omega)]

theorem header_setPrev (hv : v < 2 ^ 64) :
    header (setPrev h a v) a = (header h a).withPrev v := by
  have hsame : readLE (writeLE h.mem (a + 32) 8 v) (a + 32) 8 = v := readLE_writeLE_same (by omega)
  have hother : ∀ off n, off + n ≤ 32 →
      readLE (writeLE h.mem (a + 32) 8 v) (a + off) n = readLE h.mem (a + off) n :=
    fun off n hoff => readLE_writeLE_disjoint (by omega)
  have hmagic := hother 0 8 (by omega)
  simp only [Nat.add_zero] at hmagic
  simp only [header, Header.withPrev, magic, size, isFree, next, prev, setPrev, store, hsame, hmagic,
    hother 8 8 (by omega), hother 16 1 (by omega), hother 24 8 (by omega)]

theorem header_setMagic_of_apart (hab : Apart a b) : header (setMagic h a v) b = header h b :=
  header_store_of_apart hab (by omega) (by unfold headerSize; omega)

theorem header_setSize_of_apart (hab : Apart a b) : header (setSize h a v) b = header h b :=
  header_store_of_apart hab (by omega) (by unfold headerSize; omega)

theorem header_setFree_of_apart {f : Bool} (hab : Apart a b) :
    header (setFree h a f) b = header h b :=
  header_store_of_apart hab (by omega) (by unfold headerSize; omega)

theorem header_setNext_of_apart (hab : Apart a b) : header (setNext h a v) b = header h b :=
  header_store_of_apart hab (by omega) (by unfold headerSize; omega)

theorem header_setPrev_of_apart (hab : Apart a b) : header (setPrev h a v) b = header h b :=
  header_store_of_apart hab (by omega) (by unfold headerSize; omega)

theorem next_lt (h : KernelHeap E) (a : Nat) : next h a < 2 ^ 64 := readLE_lt h.mem _ 8

end Store

/-! ## What header stores leave alone -/

/-- The write lies inside the header of a block in `S`. -/
def WritesHeader (S : Nat → Prop) (e : Event) : Prop :=
  ∃ a addr len, S a ∧ a ≤ addr ∧ addr + len ≤ a + headerSize ∧ e = .headerWrite addr len

/-- `h'` is `h` after stores to headers in `S` and to the counters. -/
structure Edits (S : Nat → Prop) (h h' : KernelHeap E) : Prop where
  rest : h' = { h with
    mem := h'.mem, trace := h'.trace, usedMemory := h'.usedMemory, freeMemory := h'.freeMemory }
  writes : ∃ ws, h'.trace = ws ++ h.trace ∧ ∀ e ∈ ws, WritesHeader S e
  bytes : ∀ x, (∀ a, S a → x < a ∨ a + headerSize ≤ x) → h'.mem x = h.mem x

namespace Edits

variable {S S' : Nat → Prop} {h h₁ h₂ : KernelHeap E}

theorem refl (h : KernelHeap E) : Edits S h h :=
  ⟨rfl, ⟨[], rfl, fun _ he => absurd he List.not_mem_nil⟩, fun _ _ => rfl⟩

theorem trans (e₁ : Edits S h h₁) (e₂ : Edits S h₁ h₂) : Edits S h h₂ := by
  obtain ⟨ws₁, ht₁, hw₁⟩ := e₁.writes
  obtain ⟨ws₂, ht₂, hw₂⟩ := e₂.writes
  refine ⟨?_, ⟨ws₂ ++ ws₁, by rw [ht₂, ht₁, List.append_assoc], fun e he => ?_⟩, fun x hx => ?_⟩
  · rw [e₂.rest, e₁.rest]
  · rcases List.mem_append.mp he with he | he
    · exact hw₂ e he
    · exact hw₁ e he
  · rw [e₂.bytes x hx, e₁.bytes x hx]

theorem mono (hS : ∀ a, S a → S' a) (e : Edits S h h₁) : Edits S' h h₁ := by
  obtain ⟨ws, ht, hw⟩ := e.writes
  refine ⟨e.rest, ⟨ws, ht, fun ev hev => ?_⟩, fun x hx => e.bytes x fun a ha => hx a (hS a ha)⟩
  obtain ⟨a, addr, len, ha, hle⟩ := hw ev hev
  exact ⟨a, addr, len, hS a ha, hle⟩

theorem counters (h : KernelHeap E) (usedMemory freeMemory : Nat) :
    Edits S h { h with usedMemory, freeMemory } :=
  ⟨rfl, ⟨[], rfl, fun _ he => absurd he List.not_mem_nil⟩, fun _ _ => rfl⟩

theorem store {a addr len v : Nat} (ha : S a) (h₁ : a ≤ addr)
    (h₂ : addr + len ≤ a + headerSize) : Edits S h (store h addr len v) := by
  refine ⟨rfl, ⟨[.headerWrite addr len], rfl, fun e he => ?_⟩, fun x hx => ?_⟩
  · exact ⟨a, addr, len, ha, h₁, h₂, List.mem_singleton.mp he⟩
  · rcases hx a ha with hlt | hge
    · exact writeLE_of_lt (by omega)
    · exact writeLE_of_ge (by omega)

variable {a v : Nat}

theorem setMagic (ha : S a) : Edits S h (setMagic h a v) :=
  store ha (by omega) (by unfold headerSize; omega)

theorem setSize (ha : S a) : Edits S h (setSize h a v) :=
  store ha (by omega) (by unfold headerSize; omega)

theorem setFree {f : Bool} (ha : S a) : Edits S h (setFree h a f) :=
  store ha (by omega) (by unfold headerSize; omega)

theorem setNext (ha : S a) : Edits S h (setNext h a v) :=
  store ha (by omega) (by unfold headerSize; omega)

theorem setPrev (ha : S a) : Edits S h (setPrev h a v) :=
  store ha (by omega) (by unfold headerSize; omega)

/-- Magic numbers outside the headers in `S` stay. -/
theorem magic_eq {b : Nat} (e : Edits S h h₁) (hS : ∀ a, S a → Apart a b) :
    magic h₁ b = magic h b :=
  readLE_congr fun x hlow hhigh => e.bytes x fun a ha => by
    have hapart := hS a ha
    unfold Apart headerSize at hapart
    unfold headerSize
    omega

/-! The globals are those of the state before. -/

theorem head (e : Edits S h h₁) : h₁.head = h.head := by rw [e.rest]
theorem heapStart (e : Edits S h h₁) : h₁.heapStart = h.heapStart := by rw [e.rest]
theorem heapEnd (e : Edits S h h₁) : h₁.heapEnd = h.heapEnd := by rw [e.rest]
theorem heapMax (e : Edits S h h₁) : h₁.heapMax = h.heapMax := by rw [e.rest]

theorem with_head (e : Edits S h h₁) : Edits S { h with head := h₁.head } h₁ := by
  rw [e.head]
  exact e

theorem set_head (e : Edits S h h₁) (head : Nat) :
    Edits S { h with head } { h₁ with head } :=
  ⟨congrArg (fun k : KernelHeap E => { k with head }) e.rest, e.writes, e.bytes⟩

/-- Header writes allocate and free nothing. -/
theorem live_eq (e : Edits S h h₁) : live h₁.trace = live h.trace := by
  obtain ⟨ws, ht, hw⟩ := e.writes
  rw [ht]
  clear ht
  induction ws with
  | nil => rfl
  | cons w ws ih =>
      obtain ⟨_, _, _, _, _, _, rfl⟩ := hw w (List.mem_cons_self ..)
      exact ih fun e he => hw e (List.mem_cons_of_mem _ he)

end Edits

/-! ## Splitting and merging -/

theorem heapMagic_lt : heapMagic < 2 ^ 64 := by decide

/-- The stores of `splitBlock` that fill the new header. -/
def fillSplit (h : KernelHeap E) (a new remaining : Nat) : KernelHeap E :=
  let h := setMagic h new heapMagic
  let h := setSize h new (sub64 remaining headerSize)
  let h := setFree h new true
  let h := setNext h new (next h a)
  setPrev h new a

section Split

variable {h : KernelHeap E} {a new remaining : Nat}

theorem fillSplit_edits {S : Nat → Prop} (hnew : S new) :
    Edits S h (fillSplit h a new remaining) :=
  (Edits.setMagic hnew).trans <| (Edits.setSize hnew).trans <| (Edits.setFree hnew).trans <|
    (Edits.setNext hnew).trans (Edits.setPrev hnew)

theorem header_fillSplit_of_apart {b : Nat} (hab : Apart new b) :
    header (fillSplit h a new remaining) b = header h b := by
  rw [fillSplit, header_setPrev_of_apart hab, header_setNext_of_apart hab,
    header_setFree_of_apart hab, header_setSize_of_apart hab, header_setMagic_of_apart hab]

theorem header_fillSplit (hab : Apart new a) (ha : a < 2 ^ 64) :
    header (fillSplit h a new remaining) new =
      ⟨heapMagic, sub64 remaining headerSize, true, next h a, a⟩ := by
  have hnext : next (setFree (setSize (setMagic h new heapMagic) new
      (sub64 remaining headerSize)) new true) a = next h a := by
    rw [next_eq, next_eq, header_setFree_of_apart hab, header_setSize_of_apart hab, header_setMagic_of_apart hab]
  rw [fillSplit, header_setPrev ha, hnext, header_setNext (next_lt h a), header_setFree,
    header_setSize (Words.sub_lt ..), header_setMagic heapMagic_lt]
  rfl

end Split

section

variable {h : KernelHeap E} {a len : Nat}

theorem splitBlock_small (hsmall : sub64 (size h a) len ≤ headerSize + 16) :
    splitBlock h a len = h :=
  if_pos hsmall

/-- The headers `splitBlock` writes. -/
def splitScope (h : KernelHeap E) (a len x : Nat) : Prop :=
  x = a ∨ x = a + headerSize + len ∨ (x = next h a ∧ x ≠ 0)

theorem splitBlock_eq (hlarge : ¬ sub64 (size h a) len ≤ headerSize + 16) :
    splitBlock h a len =
      let new := a + headerSize + len
      let h' := fillSplit h a new (sub64 (size h a) len)
      setSize (setNext (if next h' new ≠ 0 then setPrev h' (next h' new) new else h') a new) a
        len :=
  if_neg hlarge

theorem splitBlock_edits (hab : Apart (a + headerSize + len) a) (ha : a < 2 ^ 64) :
    Edits (splitScope h a len) h (splitBlock h a len) := by
  by_cases hsmall : sub64 (size h a) len ≤ headerSize + 16
  · rw [splitBlock_small hsmall]
    exact .refl h
  have hfill : Edits (splitScope h a len) h
      (fillSplit h a (a + headerSize + len) (sub64 (size h a) len)) :=
    fillSplit_edits (Or.inr (Or.inl rfl))
  have hnext : next (fillSplit h a (a + headerSize + len) (sub64 (size h a) len))
      (a + headerSize + len) = next h a := by
    rw [next_eq, header_fillSplit hab ha]
  rw [splitBlock_eq hsmall]
  simp only [hnext]
  refine hfill.trans (Edits.trans ?_ ((Edits.setNext (.inl rfl)).trans (Edits.setSize (.inl rfl))))
  split
  next hne => exact Edits.setPrev (Or.inr (Or.inr ⟨rfl, hne⟩))
  next => exact .refl _

/-- The headers after a split that creates a block. -/
theorem header_splitBlock (hlarge : ¬ sub64 (size h a) len ≤ headerSize + 16)
    (hab : Apart (a + headerSize + len) a) (hlt : a + headerSize + len < 2 ^ 64)
    (hnext : next h a ≠ 0 → Apart (next h a) a ∧ Apart (next h a) (a + headerSize + len)) :
    header (splitBlock h a len) (a + headerSize + len) =
      ⟨heapMagic, sub64 (sub64 (size h a) len) headerSize, true, next h a, a⟩ ∧
    header (splitBlock h a len) a =
      ((header h a).withNext (a + headerSize + len)).withSize len ∧
    (next h a ≠ 0 → header (splitBlock h a len) (next h a) =
      (header h (next h a)).withPrev (a + headerSize + len)) ∧
    ∀ x, Apart x a → Apart x (a + headerSize + len) → (next h a ≠ 0 → Apart x (next h a)) →
      header (splitBlock h a len) x = header h x := by
  have ha : a < 2 ^ 64 := by omega
  have hnew : header (fillSplit h a (a + headerSize + len) (sub64 (size h a) len)) _ = _ :=
    header_fillSplit hab ha
  have hold : ∀ {x}, Apart (a + headerSize + len) x →
      header (fillSplit h a (a + headerSize + len) (sub64 (size h a) len)) x = header h x :=
    header_fillSplit_of_apart
  have hn : next (fillSplit h a (a + headerSize + len) (sub64 (size h a) len))
      (a + headerSize + len) = next h a := by
    rw [next_eq, hnew]
  have hlen : len < 2 ^ 64 := by omega
  rw [splitBlock_eq hlarge]
  simp only [hn]
  by_cases hzero : next h a = 0
  · rw [if_neg (not_not.mpr hzero)]
    refine ⟨?_, ?_, fun hc => absurd hzero hc, fun x hxa hxn _ => ?_⟩
    · rw [header_setSize_of_apart hab.symm, header_setNext_of_apart hab.symm, hnew]
    · rw [header_setSize hlen, header_setNext hlt, hold hab]
    · rw [header_setSize_of_apart hxa.symm, header_setNext_of_apart hxa.symm, hold hxn.symm]
  · obtain ⟨hna, hnn⟩ := hnext hzero
    rw [if_pos hzero]
    refine ⟨?_, ?_, fun _ => ?_, fun x hxa hxn hxx => ?_⟩
    · rw [header_setSize_of_apart hab.symm, header_setNext_of_apart hab.symm,
        header_setPrev_of_apart hnn, hnew]
    · rw [header_setSize hlen, header_setNext hlt, header_setPrev_of_apart hna, hold hab]
    · rw [header_setSize_of_apart hna.symm, header_setNext_of_apart hna.symm, header_setPrev hlt,
        hold hnn.symm]
    · rw [header_setSize_of_apart hxa.symm, header_setNext_of_apart hxa.symm,
        header_setPrev_of_apart (hxx hzero).symm, hold hxn.symm]

/-- The headers `mergeWithNext` writes. -/
def mergeScope (h : KernelHeap E) (a x : Nat) : Prop :=
  x = a ∨ (x = next h (next h a) ∧ x ≠ 0)

/-- The stores of `mergeWithNext` to the header that grows. -/
def absorbNext (h : KernelHeap E) (a : Nat) : KernelHeap E :=
  setNext (setSize h a (add64 (size h a) (add64 headerSize (size h (next h a))))) a
    (next h (next h a))

theorem header_absorbNext : header (absorbNext h a) a =
    ((header h a).withSize (add64 (size h a) (add64 headerSize (size h (next h a))))).withNext
      (next h (next h a)) := by
  rw [absorbNext, header_setNext (next_lt h _), header_setSize (Words.add_lt ..)]

theorem header_absorbNext_of_apart {x : Nat} (hxa : Apart x a) :
    header (absorbNext h a) x = header h x := by
  rw [absorbNext, header_setNext_of_apart hxa.symm, header_setSize_of_apart hxa.symm]

theorem mergeWithNext_eq (hne : next h a ≠ 0) (hfree : isFree h (next h a) = true)
    (hna : Apart (next h a) a) :
    mergeWithNext h a =
      if next h (next h a) ≠ 0 then setPrev (absorbNext h a) (next h (next h a)) a
      else absorbNext h a := by
  have hskip : ∀ v, next (setSize h a v) (next h a) = next h (next h a) := fun v => by
    rw [next_eq, header_setSize_of_apart hna.symm, ← next_eq]
  have hback : next (absorbNext h a) a = next h (next h a) := by
    rw [next_eq, header_absorbNext]
    rfl
  have hgo : ¬ (next h a = 0 ∨ isFree h (next h a) = false) := by simp [hne, hfree]
  unfold absorbNext at hback ⊢
  simp only [mergeWithNext, if_neg hgo, hskip, hback]

/-- The headers after a merge. -/
theorem header_mergeWithNext (hne : next h a ≠ 0) (hfree : isFree h (next h a) = true)
    (hna : Apart (next h a) a) (ha : a < 2 ^ 64)
    (hnn : next h (next h a) ≠ 0 → Apart (next h (next h a)) a) :
    Edits (mergeScope h a) h (mergeWithNext h a) ∧
    header (mergeWithNext h a) a = header (absorbNext h a) a ∧
    (next h (next h a) ≠ 0 → header (mergeWithNext h a) (next h (next h a)) =
      (header h (next h (next h a))).withPrev a) ∧
    ∀ x, Apart x a → (next h (next h a) ≠ 0 → Apart x (next h (next h a))) →
      header (mergeWithNext h a) x = header h x := by
  have hedits : Edits (mergeScope h a) h (absorbNext h a) :=
    (Edits.setSize (.inl rfl)).trans (Edits.setNext (.inl rfl))
  rw [mergeWithNext_eq hne hfree hna]
  by_cases hzero : next h (next h a) = 0
  · rw [if_neg (not_not.mpr hzero)]
    exact ⟨hedits, rfl, fun hc => absurd hzero hc, fun x hxa _ => header_absorbNext_of_apart hxa⟩
  · have hab := hnn hzero
    rw [if_pos hzero]
    refine ⟨hedits.trans (Edits.setPrev (Or.inr ⟨rfl, hzero⟩)), ?_, fun _ => ?_, fun x hxa hxx => ?_⟩
    · rw [header_setPrev_of_apart hab]
    · rw [header_setPrev ha, header_absorbNext_of_apart hab]
    · rw [header_setPrev_of_apart (hxx hzero).symm, header_absorbNext_of_apart hxa]

end

end Avery.Heap
