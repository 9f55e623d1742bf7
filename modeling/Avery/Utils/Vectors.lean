import Avery.Library.Owners
import Avery.Library.Transition
import Avery.Kernel.Types

/-!
# Vectors

`Vector` of `types.h`: an array of `cap` slots of which the first `count` hold the
elements.  The slots behind them keep what was in them, so what `resize` exposes depends
on the history of the vector.

A new array holds default values: the elements are of a type whose default initialisation
gives it one value.  What is left of an element that was moved away is
arbitrary (`husk`).
-/

namespace Avery.Utils

open Blocks Transition

variable {α : Type}

structure Vector where
  data : Nat
  count : Nat
  cap : Nat

/-! ## The operations -/

namespace Vector

def new : Vector := ⟨0, 0, 0⟩

section

variable [Inhabited α]

/-- A new array is granted the address `a`. -/
def reserve (s : Store α) (v : Vector) (a newCapacity : Nat) : Except Fault (Vector × Store α) := do
  if newCapacity ≤ v.cap then return (v, s)
  let (newData, s) ← s.new ⟨a, fun _ => default⟩ newCapacity
  let s ← forUp (fun i s => do s.write newData i (← s.read v.data i)) 0 v.count s
  let s ← s.delete v.data
  return ({ v with data := newData, cap := newCapacity }, s)

def grow (s : Store α) (v : Vector) (a : Nat) : Except Fault (Vector × Store α) :=
  if v.cap = 0 then reserve s v a 4 else reserve s v a (mul64 v.cap 2)

def push (s : Store α) (v : Vector) (a : Nat) (value : α) : Except Fault (Vector × Store α) := do
  let (v, s) ← (if v.cap ≤ v.count then grow s v a else .ok (v, s))
  let s ← s.write v.data v.count value
  return ({ v with count := add64 v.count 1 }, s)

/-- The loop of the copies: all elements of `other` are pushed. -/
def pushAll (s : Store α) (v other : Vector) (a : Nat) : Except Fault (Vector × Store α) :=
  forUp (fun i vs => do push vs.2 vs.1 a (← vs.2.read other.data i)) 0 other.count (v, s)

def copyConstruct (s : Store α) (other : Vector) (a : Nat) : Except Fault (Vector × Store α) := do
  let (v, s) ← reserve s new a other.count
  pushAll s v other a

/-- The assignment of another vector. -/
def copyAssign (s : Store α) (v other : Vector) (a : Nat) : Except Fault (Vector × Store α) := do
  let (v, s) ← reserve s { v with count := 0 } a other.count
  pushAll s v other a

def resize (s : Store α) (v : Vector) (a newSize : Nat) : Except Fault (Vector × Store α) := do
  let (v, s) ← (if v.cap < newSize then reserve s v a newSize else .ok (v, s))
  return ({ v with count := newSize }, s)

end

def pop (v : Vector) : Vector := if v.count = 0 then v else { v with count := sub64 v.count 1 }

def clear (v : Vector) : Vector := { v with count := 0 }

/-- Moving an element leaves its husk. -/
def moveDown (husk : α → α) (data i : Nat) (s : Store α) : Except Fault (Store α) := do
  let value ← s.read data (i + 1)
  let s ← s.write data i value
  s.write data (i + 1) (husk value)

def remove (husk : α → α) (s : Store α) (v : Vector) (index : Nat) :
    Except Fault (Vector × Store α) := do
  if v.count ≤ index then return (v, s)
  let s ← forUp (moveDown husk v.data) index (v.count - 1 - index) s
  return ({ v with count := sub64 v.count 1 }, s)

/-- `operator[]`. -/
def get (s : Store α) (v : Vector) (index : Nat) : Except Fault (Option α) := do
  if v.count ≤ index then return none
  return some (← s.read v.data index)

end Vector

/-! ## What a vector stands for -/

structure VectorRep (s : Store α) (v : Vector) (xs : List α) : Prop where
  count : v.count = xs.length
  le : v.count ≤ v.cap
  cap : v.cap < 2 ^ 63
  block : v.data = 0 ∧ v.cap = 0 ∨
    v.data ≠ 0 ∧ ∃ b, s v.data = some b ∧ b.size = v.cap ∧ b.Holds 0 xs

/-- Vectors as owners of their arrays. -/
def vectorKind (α : Type) : Kind Vector α (List α) where
  ptr := Vector.data
  Rep := VectorRep
  live {s b x} h hnull := by
    obtain ⟨c, hc, -⟩ := (h.block.resolve_left fun hzero => hnull hzero.1).2
    rw [hc]
    exact Option.some_ne_none c
  congr {s s' b x} h hsame := by
    refine ⟨h.count, h.le, h.cap, h.block.imp_right fun hblock => ⟨hblock.1, ?_⟩⟩
    obtain ⟨c, hc, hrest⟩ := hblock.2
    exact ⟨c, (hsame hblock.1).trans hc, hrest⟩

variable {s : Store α} {v : Vector} {xs : List α}

theorem vectorRep_new (s : Store α) : VectorRep s Vector.new [] :=
  ⟨rfl, Nat.le_refl 0, by decide, .inl ⟨rfl, rfl⟩⟩

theorem VectorRep.live (h : VectorRep s v xs) (hnull : v.data ≠ 0) : ∃ b, s v.data = some b := by
  obtain ⟨b, hb, -⟩ := (h.block.resolve_left fun hzero => hnull hzero.1).2
  exact ⟨b, hb⟩

/-- A vector with a slot has an array. -/
theorem VectorRep.array (h : VectorRep s v xs) (hcap : v.cap ≠ 0) :
    v.data ≠ 0 ∧ ∃ b, s v.data = some b ∧ b.size = v.cap ∧ b.Holds 0 xs :=
  h.block.resolve_left fun hzero => hcap hzero.2

theorem VectorRep.get_eq (h : VectorRep s v xs) (index : Nat) : v.get s index = .ok xs[index]? := by
  unfold Vector.get
  by_cases hlt : v.count ≤ index
  · rw [if_pos hlt, List.getElem?_eq_none (by rw [← h.count]; exact hlt)]
    rfl
  · have hle := h.le
    obtain ⟨-, b, hb, hsize, hholds⟩ := h.array (by omega)
    have hindex : index < xs.length := by
      rw [← h.count]
      omega
    obtain ⟨-, hcell⟩ := hholds index xs[index] (List.getElem?_eq_getElem hindex)
    rw [Nat.zero_add] at hcell
    rw [if_neg hlt, Store.read_eq hb (by omega), ok_bind, hcell, List.getElem?_eq_getElem hindex]
    rfl

/-! ## Changing elements -/

/-- An element is written behind the others. -/
theorem write_ends (h : VectorRep s v xs) (hlt : v.count < v.cap) (value : α) :
    ∃ s', s.write v.data v.count value = .ok s' ∧
      VectorRep s' { v with count := add64 v.count 1 } (xs ++ [value]) ∧
      Frame s s' v.data v.data := by
  obtain ⟨hnull, b, hb, hsize, hholds⟩ := h.array (by omega)
  have hcap := h.cap
  have hcount : add64 v.count 1 = v.count + 1 := by
    unfold add64 Words.add
    omega
  have hback := hholds.write_back (by rw [← h.count]; omega) value
  rw [Nat.zero_add, ← h.count] at hback
  refine ⟨_, Store.write_eq hb (by omega) value, ?_, .put s v.data _⟩
  rw [hcount]
  refine ⟨?_, hlt, hcap, .inr ⟨hnull, _, Store.put_same .., hsize, hback⟩⟩
  rw [List.length_append, h.count]
  rfl

theorem pop_rep (h : VectorRep s v xs) : VectorRep s v.pop xs.dropLast := by
  have hle := h.le
  have hcap := h.cap
  have hcount := h.count
  unfold Vector.pop
  split
  · next hzero =>
    obtain rfl := List.length_eq_zero_iff.mp (show xs.length = 0 by omega)
    exact h
  · next hpos =>
    have hsub : sub64 v.count 1 = v.count - 1 := by
      rw [sub64, Words.sub_eq (by omega) (by omega)]
    refine ⟨?_, ?_, hcap, h.block.imp_right fun hblock => ⟨hblock.1, ?_⟩⟩
    · rw [List.length_dropLast, ← hcount, ← hsub]
    · simp only [hsub]
      omega
    · obtain ⟨b, hb, hsize, hholds⟩ := hblock.2
      exact ⟨b, hb, hsize, hholds.initial (List.dropLast_prefix xs)⟩

theorem pop_data (v : Vector) : v.pop.data = v.data := by
  unfold Vector.pop
  split <;> rfl

theorem clear_rep (h : VectorRep s v xs) : VectorRep s v.clear [] := by
  refine ⟨rfl, Nat.zero_le _, h.cap, h.block.imp_right fun hblock => ⟨hblock.1, ?_⟩⟩
  obtain ⟨b, hb, hsize, -⟩ := hblock.2
  exact ⟨b, hb, hsize, .nil b 0⟩

/-- One round of `remove`: the elements before `k` are in their places, and those behind it
were not moved yet. -/
theorem moveDown_ends {husk : α → α} {s : Store α} {p n index : Nat} {xs : List α} {b : Block α}
    {k : Nat} (hindex : index ≤ k) (hk : k + 1 < xs.length) (hb : s p = some b) (hsize : b.size = n)
    (hn : xs.length ≤ n)
    (hbefore : ∀ j < k, (xs.eraseIdx index)[j]? = some (b.cells j))
    (hbehind : ∀ j, k < j → j < xs.length → xs[j]? = some (b.cells j)) :
    ∃ b', Vector.moveDown husk p k s = .ok (s.put p b') ∧ b'.size = n ∧
      (∀ j < k + 1, (xs.eraseIdx index)[j]? = some (b'.cells j)) ∧
      ∀ j, k + 1 < j → j < xs.length → xs[j]? = some (b'.cells j) := by
  refine ⟨(b.set k (b.cells (k + 1))).set (k + 1) (husk (b.cells (k + 1))), ?_, hsize, ?_, ?_⟩
  · rw [Vector.moveDown, Store.read_eq hb (by omega), ok_bind, Store.write_eq hb (by omega), ok_bind,
      Store.write_eq (Store.put_same ..) (by rw [Block.size_set]; omega), Store.put_put]
  · intro j hj
    rw [Block.cells_set_of_ne (by omega)]
    rcases Nat.lt_or_eq_of_le (Nat.le_of_lt_succ hj) with hlt | rfl
    · rw [Block.cells_set_of_ne (by omega)]
      exact hbefore j hlt
    · rw [Block.cells_set, List.getElem?_eraseIdx, if_neg (by omega)]
      exact hbehind (j + 1) (Nat.lt_succ_self j) hk
  · intro j hj hlt
    rw [Block.cells_set_of_ne (by omega), Block.cells_set_of_ne (by omega)]
    exact hbehind j (by omega) hlt

/-- After the last round the elements are those without the removed one. -/
theorem removed_rep (h : VectorRep s v xs) {index : Nat} (hindex : index < xs.length) {b : Block α}
    (hnull : v.data ≠ 0) {s' : Store α} (hb : s' v.data = some b) (hsize : b.size = v.cap)
    (hcells : ∀ j < xs.length - 1, (xs.eraseIdx index)[j]? = some (b.cells j)) :
    VectorRep s' { v with count := v.count - 1 } (xs.eraseIdx index) := by
  have hcount := h.count
  have hle := h.le
  have hcap := h.cap
  have hlength : (xs.eraseIdx index).length = xs.length - 1 := List.length_eraseIdx_of_lt hindex
  refine ⟨?_, Nat.le_trans (Nat.sub_le ..) hle, hcap, .inr ⟨hnull, b, hb, hsize, ?_⟩⟩
  · rw [hlength, ← hcount]
  · intro j x hx
    have hj := (List.getElem?_eq_some_iff.mp hx).1
    rw [hlength] at hj
    have hcell := (hcells j hj).symm.trans hx
    rw [Nat.zero_add]
    exact ⟨by omega, Option.some.inj hcell⟩

theorem VectorRep.cell {b : Block α} (hholds : b.Holds 0 xs) {j : Nat} (hj : j < xs.length) :
    xs[j]? = some (b.cells j) := by
  have hx := List.getElem?_eq_getElem hj
  obtain ⟨-, heq⟩ := hholds j _ hx
  rw [hx, ← heq, Nat.zero_add]

/-- The array while `remove` moves the elements: those before `k` are in their places. -/
def MovedDown (xs : List α) (index n : Nat) (s : Store α) (p k : Nat) (t : Store α) : Prop :=
  ∃ b, t = s.put p b ∧ b.size = n ∧ (∀ j < k, (xs.eraseIdx index)[j]? = some (b.cells j)) ∧
    ∀ j, k < j → j < xs.length → xs[j]? = some (b.cells j)

theorem moveDown_loop (husk : α → α) {n p index : Nat} {b : Block α} (hindex : index < xs.length)
    (hb : s p = some b) (hsize : b.size = n) (hn : xs.length ≤ n) (hholds : b.Holds 0 xs) :
    Ends True (forUp (Vector.moveDown husk p) index (xs.length - 1 - index) s)
      (MovedDown xs index n s p (index + (xs.length - 1 - index))) := by
  have hstart : MovedDown xs index n s p index s := by
    refine ⟨b, (Store.put_self hb).symm, hsize, fun j hj => ?_, fun j _ hj => VectorRep.cell hholds hj⟩
    rw [List.getElem?_eraseIdx, if_pos hj]
    exact VectorRep.cell hholds (Nat.lt_trans hj hindex)
  refine Ends.forUp (MovedDown xs index n s p) hstart fun k t hk hlast ht => ?_
  obtain ⟨b', rfl, hsize', hbefore, hbehind⟩ := ht
  obtain ⟨b'', hmove, hsize'', hbefore', hbehind'⟩ :=
    moveDown_ends hk (by omega) (Store.put_same ..) hsize' hn hbefore hbehind
  rw [hmove, Store.put_put]
  exact ⟨b'', rfl, hsize'', hbefore', hbehind'⟩

theorem remove_ends (husk : α → α) (h : VectorRep s v xs) (index : Nat) :
    Ends True (v.remove husk s index) fun r =>
      VectorRep r.2 r.1 (xs.eraseIdx index) ∧ Frame s r.2 v.data r.1.data := by
  have hcount := h.count
  unfold Vector.remove
  by_cases hout : v.count ≤ index
  · rw [if_pos hout, List.eraseIdx_of_length_le (by rw [← hcount]; exact hout)]
    exact ⟨h, .refl ..⟩
  rw [if_neg hout]
  have hindex : index < xs.length := by omega
  have hle := h.le
  obtain ⟨hnull, b, hb, hsize, hholds⟩ := h.array (by omega)
  have hloop := moveDown_loop husk hindex hb hsize (by omega) hholds
  rw [← hcount] at hloop
  refine hloop.bind fun s' hs' => ?_
  obtain ⟨b', rfl, hsize', hbefore, -⟩ := hs'
  have hend : index + (v.count - 1 - index) = xs.length - 1 := by omega
  rw [hend] at hbefore
  have hsub : sub64 v.count 1 = v.count - 1 := by
    have hcap := h.cap
    rw [sub64, Words.sub_eq (by omega) (by omega)]
  rw [hsub]
  exact ⟨removed_rep h hindex hnull (Store.put_same ..) hsize' hbefore, .put ..⟩

/-- The vector of another owner is as before. -/
theorem VectorRep.kept {s s' : Store α} {v w : Vector} {ys : List α} {p' : Nat} (hw : VectorRep s w ys)
    (hframe : Frame s s' v.data p') (hne : w.data ≠ 0 → w.data ≠ v.data) : VectorRep s' w ys := by
  refine (vectorKind α).congr hw fun hnull => ?_
  exact hframe.same _ hnull (hne hnull) ((vectorKind α).live hw hnull)

/-! ## Growing -/

section

variable [Inhabited α] {a : Nat}

/-- There is room for a new array of `n` elements at the address `a`. -/
def Room (s : Store α) (a n : Nat) : Prop := (a ≠ 0 ∧ a < 2 ^ 64 ∧ s a = none) ∧ n < 2 ^ 63

/-- One element is copied. -/
theorem copySlots_step {s : Store α} {p n : Nat} {b : Block α} {xs : List α} (hp : s p = some b)
    (hholds : b.Holds 0 xs) (ha : p ≠ a) (hn : xs.length ≤ n) (k : Nat) (t : Store α) (_ : 0 ≤ k)
    (hk : k < 0 + xs.length)
    (h : ∃ b', t = s.put a b' ∧ b'.size = n ∧ b'.Holds 0 (xs.take k) ∧
      ∀ i, k ≤ i → b'.cells i = default) :
    Ends True (do t.write a k (← t.read p k)) fun t' =>
      ∃ b', t' = s.put a b' ∧ b'.size = n ∧ b'.Holds 0 (xs.take (k + 1)) ∧
        ∀ i, k + 1 ≤ i → b'.cells i = default := by
  obtain ⟨b', rfl, hsize, hcopied, hrest⟩ := h
  rw [Nat.zero_add] at hk
  have hx := List.getElem?_eq_getElem hk
  obtain ⟨hlt, hcell⟩ := hholds k xs[k] hx
  rw [Nat.zero_add] at hlt hcell
  have hsource : s.put a b' p = some b := (Store.put_of_ne ha ..).trans hp
  have htake : (xs.take k).length = k := List.length_take_of_le (Nat.le_of_lt hk)
  have hback := hcopied.write_back (by rw [htake, hsize]; omega) xs[k]
  rw [htake, Nat.zero_add, List.take_append_getElem hk] at hback
  rw [Store.read_eq hsource hlt, ok_bind, hcell, Store.write_eq (Store.put_same ..) (by omega),
    Store.put_put]
  exact ⟨_, rfl, hsize, hback, fun i hi => (Block.cells_set_of_ne (by omega) ..).trans (hrest i (by omega))⟩

/-- The elements are copied to a new array, and its other slots hold default values. -/
theorem copySlots_ends {s : Store α} {p n : Nat} {b : Block α} {xs : List α} (hp : s p = some b)
    (hholds : b.Holds 0 xs) (ha : p ≠ a) (hn : xs.length ≤ n) :
    Ends True (forUp (fun i s => do s.write a i (← s.read p i)) 0 xs.length
        (s.put a ⟨n, fun _ => default⟩)) fun s' =>
      ∃ b', s' = s.put a b' ∧ b'.size = n ∧ b'.Holds 0 xs ∧ ∀ i, xs.length ≤ i → b'.cells i = default := by
  have hstart : ∃ b', s.put a ⟨n, fun _ => default⟩ = s.put a b' ∧ b'.size = n ∧
      b'.Holds 0 (xs.take 0) ∧ ∀ i, 0 ≤ i → b'.cells i = default :=
    ⟨⟨n, fun _ => default⟩, rfl, rfl, Block.Holds.nil _ _, fun _ _ => rfl⟩
  have hloop := Ends.forUp (fun k t => ∃ b', t = s.put a b' ∧ b'.size = n ∧
    b'.Holds 0 (xs.take k) ∧ ∀ i, k ≤ i → b'.cells i = default) hstart
    (copySlots_step hp hholds ha hn)
  rw [Nat.zero_add, List.take_length] at hloop
  exact hloop

/-- What `reserve` returns: the same elements, and default values behind them if the array
is new. -/
structure Reserved (s : Store α) (v : Vector) (xs : List α) (n : Nat) (r : Vector × Store α) :
    Prop where
  rep : VectorRep r.2 r.1 xs
  frame : Frame s r.2 v.data r.1.data
  cap : r.1.cap = max v.cap n
  slots : v.cap < n → ∃ b, r.2 r.1.data = some b ∧ ∀ i, xs.length ≤ i → b.cells i = default

theorem reserve_ends (h : VectorRep s v xs) (a n : Nat) :
    Ends (v.cap < n → Room s a n) (v.reserve s a n) (Reserved s v xs n) := by
  unfold Vector.reserve
  by_cases hn : n ≤ v.cap
  · rw [if_pos hn]
    exact ⟨h, .refl .., (Nat.max_eq_left hn).symm, fun hlt => absurd hn (Nat.not_le_of_lt hlt)⟩
  rw [if_neg hn]
  have hcap : v.cap < n := Nat.lt_of_not_le hn
  refine (Store.new_ends (fun hroom => hroom hcap)).bind fun r hr => ?_
  obtain ⟨⟨hnull, hlt, hfree⟩, hsize, rfl⟩ := hr
  simp only at hnull hlt hfree ⊢
  have hle := h.le
  have hne : v.data ≠ a := by
    intro heq
    by_cases hzero : v.data = 0
    · exact hnull (heq ▸ hzero)
    · obtain ⟨b, hb⟩ := h.live hzero
      rw [heq, hfree] at hb
      cases hb
  have hcopied : Ends True (forUp (fun i s => do s.write a i (← s.read v.data i)) 0 v.count
      (s.put a ⟨n, fun _ => default⟩)) fun s' => ∃ b', s' = s.put a b' ∧ b'.size = n ∧
        b'.Holds 0 xs ∧ ∀ i, xs.length ≤ i → b'.cells i = default := by
    have hcount := h.count
    rw [hcount]
    rcases h.block with ⟨-, hzero⟩ | ⟨-, b, hb, -, hholds⟩
    · obtain rfl := List.length_eq_zero_iff.mp (show xs.length = 0 by omega)
      exact ⟨_, rfl, rfl, Block.Holds.nil _ _, fun _ _ => rfl⟩
    · exact copySlots_ends hb hholds hne (by omega)
  refine hcopied.always.bind fun s₁ hs₁ => ?_
  obtain ⟨b', rfl, hsize', hholds, hrest⟩ := hs₁
  obtain ⟨s₂, hdelete, hsame⟩ := Store.delete_any (s := s.put a b') (p := v.data) fun hzero => by
    obtain ⟨b, hb⟩ := h.live hzero
    exact ⟨b, (Store.put_of_ne hne ..).trans hb⟩
  have hnew : s₂ a = some b' := (hsame a hne.symm).trans (Store.put_same ..)
  rw [hdelete, ok_bind]
  refine ⟨⟨h.count, Nat.le_trans hle (Nat.le_of_lt hcap), hsize, .inr ⟨hnull, b', hnew, hsize', hholds⟩⟩,
    .replace hfree b' hsame, (Nat.max_eq_right (Nat.le_of_lt hcap)).symm, fun _ => ⟨b', hnew, hrest⟩⟩

theorem Reserved.grown {n : Nat} {r : Vector × Store α} (h : Reserved s v xs n r) (hn : v.cap < n) :
    v.cap < r.1.cap := by
  rw [h.cap]
  omega

theorem grow_ends (h : VectorRep s v xs) (a : Nat) :
    Ends (Room s a (max 4 (v.cap * 2))) (v.grow s a) fun r =>
      VectorRep r.2 r.1 xs ∧ Frame s r.2 v.data r.1.data ∧ v.cap < r.1.cap := by
  have hcap := h.cap
  unfold Vector.grow
  split
  · next hzero =>
    have hreserved := (reserve_ends h a 4).mono
      fun (hroom : Room s a (max 4 (v.cap * 2))) _ => ⟨hroom.1, by decide⟩
    exact hreserved.imp fun r hr => ⟨hr.rep, hr.frame, hr.grown (by omega)⟩
  · next hpos =>
    have hdouble : mul64 v.cap 2 = v.cap * 2 := by
      unfold mul64 Words.mul
      omega
    rw [hdouble]
    have hreserved := (reserve_ends h a (v.cap * 2)).mono
      fun (hroom : Room s a (max 4 (v.cap * 2))) _ => ⟨hroom.1, Nat.lt_of_le_of_lt (Nat.le_max_right 4 _) hroom.2⟩
    exact hreserved.imp fun r hr => ⟨hr.rep, hr.frame, hr.grown (by omega)⟩

theorem push_ends (h : VectorRep s v xs) (a : Nat) (value : α) :
    Ends (v.cap ≤ v.count → Room s a (max 4 (v.cap * 2))) (v.push s a value) fun r =>
      VectorRep r.2 r.1 (xs ++ [value]) ∧ Frame s r.2 v.data r.1.data ∧
        (v.count < v.cap → r.1.data = v.data ∧ r.1.cap = v.cap) := by
  unfold Vector.push
  have hgrown : Ends (v.cap ≤ v.count → Room s a (max 4 (v.cap * 2)))
      (if v.cap ≤ v.count then v.grow s a else .ok (v, s)) fun r =>
        VectorRep r.2 r.1 xs ∧ Frame s r.2 v.data r.1.data ∧ r.1.count < r.1.cap ∧
          (v.count < v.cap → r = (v, s)) := by
    have hle := h.le
    split
    · next hfull =>
      refine Ends.mono ?_ fun hroom => hroom hfull
      refine (grow_ends h a).imp fun r hr => ⟨hr.1, hr.2.1, ?_, fun hlt => absurd hfull (by omega)⟩
      rw [hr.1.count, ← h.count]
      exact Nat.lt_of_le_of_lt hle hr.2.2
    · next hroom => exact ⟨h, .refl .., Nat.lt_of_not_le hroom, fun _ => rfl⟩
  refine hgrown.bind fun r hr => ?_
  obtain ⟨v₁, s₁⟩ := r
  obtain ⟨hrep, hframe, hlt, hsame⟩ := hr
  obtain ⟨s₂, hwrite, hrep', hframe'⟩ := write_ends hrep hlt value
  simp only at hwrite hframe hframe' ⊢
  rw [hwrite, ok_bind]
  refine ⟨hrep', hframe.trans hframe', fun hroom => ?_⟩
  cases hsame hroom
  exact ⟨rfl, rfl⟩

/-- One element of another vector is pushed. -/
theorem pushOne_ends {w : Vector} {ys : List α} {a k : Nat} (h : VectorRep s v (xs ++ ys.take k))
    (hw : VectorRep s w ys) (hk : k < ys.length) (hroom : xs.length + ys.length ≤ v.cap) :
    Ends True (do v.push s a (← s.read w.data k)) fun r =>
      VectorRep r.2 r.1 (xs ++ ys.take (k + 1)) ∧ Frame s r.2 v.data v.data ∧
        r.1.data = v.data ∧ r.1.cap = v.cap := by
  have hcount := h.count
  rw [List.length_append, List.length_take_of_le (Nat.le_of_lt hk)] at hcount
  have hlength := hw.count
  have hle := hw.le
  obtain ⟨-, b, hb, hsize, hholds⟩ := hw.array (by omega)
  have hcell := VectorRep.cell hholds hk
  rw [List.getElem?_eq_getElem hk] at hcell
  rw [Store.read_eq hb (by omega), ok_bind, ← Option.some.inj hcell]
  have hpush := (push_ends h a ys[k]).mono fun _ : True => fun hfull => absurd hfull (by omega)
  refine hpush.imp fun r hr => ?_
  obtain ⟨hdata, hcap⟩ := hr.2.2 (by omega)
  have hrep := hr.1
  rw [List.append_assoc, List.take_append_getElem hk] at hrep
  exact ⟨hrep, hdata ▸ hr.2.1, hdata, hcap⟩

theorem pushAll_ends {w : Vector} {ys : List α} (h : VectorRep s v xs) (hw : VectorRep s w ys)
    (hroom : xs.length + ys.length ≤ v.cap) (hne : w.data ≠ 0 → w.data ≠ v.data) (a : Nat) :
    Ends True (v.pushAll s w a) fun r =>
      VectorRep r.2 r.1 (xs ++ ys) ∧ Frame s r.2 v.data r.1.data := by
  let inv : Nat → Vector × Store α → Prop := fun k r =>
    VectorRep r.2 r.1 (xs ++ ys.take k) ∧ Frame s r.2 v.data v.data ∧
      r.1.data = v.data ∧ r.1.cap = v.cap
  have hstart : inv 0 (v, s) := ⟨by simpa using h, .refl .., rfl, rfl⟩
  have hloop : Ends True (v.pushAll s w a) (inv (0 + w.count)) := by
    refine Ends.forUp inv hstart fun k r _ hk hr => ?_
    obtain ⟨hrep, hframe, hdata, hcap⟩ := hr
    rw [Nat.zero_add, hw.count] at hk
    refine (pushOne_ends hrep (hw.kept hframe hne) hk (by omega)).imp fun r' hr' => ?_
    obtain ⟨hrep', hframe', hdata', hcap'⟩ := hr'
    rw [hdata] at hframe'
    exact ⟨hrep', hframe.trans hframe', hdata'.trans hdata, hcap'.trans hcap⟩
  refine hloop.imp fun r hr => ?_
  obtain ⟨hrep, hframe, hdata, -⟩ := hr
  rw [Nat.zero_add, hw.count, List.take_length] at hrep
  exact ⟨hrep, hdata ▸ hframe⟩

/-! ## Copies and sizes -/

theorem copied_ends {w : Vector} {ys : List α} (h : VectorRep s v []) (hw : VectorRep s w ys)
    (hne : w.data ≠ 0 → w.data ≠ v.data) (a : Nat) :
    Ends (Room s a w.count) (do
        let (v, s) ← v.reserve s a w.count
        v.pushAll s w a) fun r => VectorRep r.2 r.1 ys ∧ Frame s r.2 v.data r.1.data := by
  have hreserved := (reserve_ends h a w.count).mono fun hroom : Room s a w.count => fun _ => hroom
  refine hreserved.bind fun r hr => ?_
  obtain ⟨v₁, s₁⟩ := r
  have hcap : ([] : List α).length + ys.length ≤ v₁.cap := by
    have hmax : v₁.cap = max v.cap w.count := hr.cap
    rw [List.length_nil, Nat.zero_add, ← hw.count, hmax]
    exact Nat.le_max_right ..
  have hother : w.data ≠ 0 → w.data ≠ v₁.data := by
    intro hnull heq
    rcases hr.frame.owner with hzero | hsame | hfree
    · exact hnull (heq.trans hzero)
    · exact hne hnull (heq.trans hsame)
    · have hlive : s w.data ≠ none := (vectorKind α).live hw hnull
      exact hlive (heq ▸ hfree)
  refine ((pushAll_ends hr.rep (hw.kept hr.frame hne) hcap hother a).imp fun r' hr' => ?_).always
  exact ⟨hr'.1, hr.frame.trans hr'.2⟩

/-- The slots that `resize` exposes hold default values, or it makes a new array. -/
def Unused (s : Store α) (v : Vector) (newSize : Nat) : Prop :=
  newSize ≤ v.count ∨ v.cap < newSize ∨
    ∀ i, v.count ≤ i → i < newSize → s.read v.data i = .ok default

/-- The slots up to the new size are those of the elements, or hold default values. -/
theorem resized_rep {n : Nat} (h : VectorRep s v xs) (hn : n ≤ v.cap)
    (hslots : ∀ b, s v.data = some b → ∀ i, xs.length ≤ i → i < n → b.cells i = default) :
    VectorRep s { v with count := n } (xs.take n ++ List.replicate (n - xs.length) default) := by
  refine ⟨?_, hn, h.cap, h.block.imp_right fun hblock => ⟨hblock.1, ?_⟩⟩
  · rw [List.length_append, List.length_take, List.length_replicate]
    simp only
    omega
  · obtain ⟨b, hb, hsize, hholds⟩ := hblock.2
    refine ⟨b, hb, hsize, fun j x hx => ?_⟩
    have hj := (List.getElem?_eq_some_iff.mp hx).1
    rw [List.length_append, List.length_take, List.length_replicate] at hj
    rw [Nat.zero_add]
    refine ⟨by omega, ?_⟩
    by_cases hlive : j < (xs.take n).length
    · rw [List.getElem?_append_left hlive] at hx
      rw [List.length_take] at hlive
      rw [List.getElem?_take_of_lt (by omega)] at hx
      have hcell := (hholds j x hx).2
      rwa [Nat.zero_add] at hcell
    · rw [List.getElem?_append_right (by omega), List.getElem?_replicate] at hx
      rw [List.length_take] at hlive
      split at hx
      · cases hx
        exact hslots b hb j (by omega) (by omega)
      · cases hx

theorem resize_ends (h : VectorRep s v xs) (a n : Nat) (hunused : Unused s v n) :
    Ends (v.cap < n → Room s a n) (v.resize s a n) fun r =>
      VectorRep r.2 r.1 (xs.take n ++ List.replicate (n - xs.length) default) ∧
        Frame s r.2 v.data r.1.data := by
  have hcount := h.count
  unfold Vector.resize
  by_cases hgrow : v.cap < n
  · rw [if_pos hgrow]
    refine (reserve_ends h a n).bind fun r hr => ?_
    obtain ⟨v₁, s₁⟩ := r
    have hcap : v₁.cap = max v.cap n := hr.cap
    obtain ⟨b, hb, hrest⟩ := hr.slots hgrow
    refine ⟨resized_rep hr.rep (hcap ▸ Nat.le_max_right ..) fun b' hb' i hi _ => ?_, hr.frame⟩
    cases hb.symm.trans hb'
    exact hrest i hi
  · rw [if_neg hgrow]
    refine ⟨resized_rep h (Nat.le_of_not_lt hgrow) fun b hb i hi hlt => ?_, .refl ..⟩
    rcases hunused with hle | hcap | hslots
    · omega
    · exact absurd hcap hgrow
    · have hread := hslots i (by omega) hlt
      have hblock : s v.data = some b := hb
      obtain ⟨-, b', hb', hsize, -⟩ := h.array (by omega)
      cases hb'.symm.trans hblock
      rw [Store.read_eq hblock (by omega)] at hread
      exact Except.ok.inj hread

end

/-! ## Runs -/

section

variable [Inhabited α]

/-- The operations on the vectors `i` and `j`. -/
inductive VecOp (α : Type) where
  | create (i : Nat)
  | copy (i j : Nat)
  | move (i j : Nat)
  | copyAssign (i j : Nat)
  | moveAssign (i j : Nat)
  | destroy (i : Nat)
  | push (i : Nat) (value : α)
  | pop (i : Nat)
  | remove (i index : Nat)
  | clear (i : Nat)
  | reserve (i newCapacity : Nat)
  | resize (i newSize : Nat)

/-- The vector `i` takes over the array of the vector `j`. -/
def takeOver (st : Objects Vector α) (i j : Nat) (w : Vector) (s : Store α) : Objects Vector α :=
  ⟨Function.update (Function.update st.objs j (some Vector.new)) i (some w), s⟩

/-- A new array is granted the address `a`.  An operation on a vector that does not exist,
or the construction of one that does, is none. -/
def VecOp.exec (husk : α → α) (st : Objects Vector α) (a : Nat) :
    VecOp α → Except Fault (Objects Vector α)
  | .create i => st.create i fun s => .ok (Vector.new, s)
  | .copy i j => st.use j fun w => st.create i fun s => Vector.copyConstruct s w a
  | .move i j => st.use j fun w =>
      .ok (if (st.objs i).isNone then takeOver st i j w st.store else st)
  | .copyAssign i j =>
      if i = j then .ok st
      else st.use j fun w => st.change i fun s v => Vector.copyAssign s v w a
  | .moveAssign i j =>
      if i = j then .ok st
      else st.use j fun w => st.use i fun v => do
        let s ← st.store.delete v.data
        return takeOver st i j w s
  | .destroy i => st.use i fun v => do
      let s ← st.store.delete v.data
      return ⟨Function.update st.objs i none, s⟩
  | .push i value => st.change i fun s v => v.push s a value
  | .pop i => st.change i fun s v => .ok (v.pop, s)
  | .remove i index => st.change i fun s v => v.remove husk s index
  | .clear i => st.change i fun s v => .ok (v.clear, s)
  | .reserve i newCapacity => st.change i fun s v => v.reserve s a newCapacity
  | .resize i newSize => st.change i fun s v => v.resize s a newSize

/-- The same on lists. -/
def VecOp.apply (abs : Values (List α)) : VecOp α → Values (List α)
  | .create i => abs.create i []
  | .copy i j => abs.use j fun ys => abs.create i ys
  | .move i j => abs.use j fun ys =>
      if (abs i).isNone then Function.update (Function.update abs j (some [])) i (some ys) else abs
  | .copyAssign i j => if i = j then abs else abs.use j fun ys => abs.change i fun _ => ys
  | .moveAssign i j =>
      if i = j then abs
      else abs.use j fun ys => abs.use i fun _ =>
        Function.update (Function.update abs j (some [])) i (some ys)
  | .destroy i => abs.use i fun _ => Function.update abs i none
  | .push i value => abs.change i fun xs => xs ++ [value]
  | .pop i => abs.change i List.dropLast
  | .remove i index => abs.change i fun xs => xs.eraseIdx index
  | .clear i => abs.change i fun _ => []
  | .reserve i _ => abs.change i id
  | .resize i newSize => abs.change i fun xs =>
      xs.take newSize ++ List.replicate (newSize - xs.length) default

/-- The size of the array that an operation may have to allocate. -/
def VecOp.needs (st : Objects Vector α) : VecOp α → Nat
  | .copy _ j => (st.objs j).elim 0 Vector.count
  | .copyAssign _ j => (st.objs j).elim 0 Vector.count
  | .push i _ => (st.objs i).elim 0 fun v => max 4 (v.cap * 2)
  | .reserve _ newCapacity => newCapacity
  | .resize _ newSize => newSize
  | _ => 0

/-- A `resize` exposes no slot that was used before. -/
def VecOp.Clean (st : Objects Vector α) : VecOp α → Prop
  | .resize i newSize => ∀ v, st.objs i = some v → Unused st.store v newSize
  | _ => True

variable {st : Objects Vector α} {abs : Values (List α)} {a : Nat}

omit [Inhabited α] in
theorem takeOver_owned (h : Owned (vectorKind α) st abs) {i j : Nat} {w : Vector} {ys : List α}
    {s' : Store α} {p : Nat} (hne : i ≠ j) (hj : st.objs j = some w) (hw : VectorRep st.store w ys)
    (hp : ∀ v, st.objs i = some v → v.data = p) (hnone : st.objs i = none → p = 0)
    (hsame : ∀ q, q ≠ p → s' q = st.store q) (hapart : w.data ≠ 0 → w.data ≠ p) :
    Owned (vectorKind α) (takeOver st i j w s')
      (Function.update (Function.update abs j (some [])) i (some ys)) :=
  h.move hne hp hnone hj rfl (.delete hsame)
    ((vectorKind α).congr hw fun hnull => hsame _ (hapart hnull)) (vectorRep_new s')

theorem move_ends (h : Owned (vectorKind α) st abs) (husk : α → α) (i j : Nat) :
    Ends True ((VecOp.move i j).exec husk st a) fun st' =>
      Owned (vectorKind α) st' ((VecOp.move i j).apply abs) := by
  refine h.use_ends j fun w ys hj _ hw => ?_
  cases hi : st.objs i with
  | some v =>
      obtain ⟨xs, hx, -⟩ := h.get hi
      rw [hx]
      exact h
  | none =>
      rw [h.get_none hi]
      have hne : i ≠ j := by
        rintro rfl
        rw [hi] at hj
        cases hj
      refine takeOver_owned h hne hj hw (fun v hv => ?_) (fun _ => rfl) (fun q _ => rfl) id
      rw [hi] at hv
      cases hv

theorem moveAssign_ends (h : Owned (vectorKind α) st abs) (husk : α → α) (i j : Nat) :
    Ends True ((VecOp.moveAssign i j).exec husk st a) fun st' =>
      Owned (vectorKind α) st' ((VecOp.moveAssign i j).apply abs) := by
  simp only [VecOp.exec, VecOp.apply]
  by_cases hne : i = j
  · rw [if_pos hne, if_pos hne]
    exact h
  rw [if_neg hne, if_neg hne]
  refine h.use_ends j fun w ys hj _ hw => h.use_ends i fun v xs hi _ hv => ?_
  obtain ⟨s', hdelete, hsame⟩ := Store.delete_any hv.live
  rw [hdelete, ok_bind]
  refine takeOver_owned h hne hj hw (p := v.data) (fun v' hv' => ?_) (fun hnone => ?_) hsame
    (h.apart (Ne.symm hne) hj hi)
  · rw [hi] at hv'
    cases hv'
    rfl
  · rw [hi] at hnone
    cases hnone

theorem destroy_ends (h : Owned (vectorKind α) st abs) (husk : α → α) (i : Nat) :
    Ends True ((VecOp.destroy i).exec husk st a) fun st' =>
      Owned (vectorKind α) st' ((VecOp.destroy i).apply abs) := by
  refine h.use_ends i fun v xs hi _ hv => ?_
  obtain ⟨s', hdelete, hsame⟩ := Store.delete_any hv.live
  rw [hdelete, ok_bind]
  exact h.destroy hi hsame

theorem copyConstruct_ends (h : Owned (vectorKind α) st abs) (husk : α → α) (i j : Nat) :
    Ends (Room st.store a ((VecOp.copy i j : VecOp α).needs st)) ((VecOp.copy i j).exec husk st a)
      fun st' => Owned (vectorKind α) st' ((VecOp.copy i j).apply abs) := by
  refine h.use_ends j fun w ys hj _ hw => h.create_ends i ?_
  have hcopy := copied_ends (vectorRep_new st.store) hw (fun hnull => hnull) a
  refine hcopy.mono fun hroom => ?_
  rw [VecOp.needs, hj] at hroom
  exact hroom

theorem copyAssign_ends (h : Owned (vectorKind α) st abs) (husk : α → α) (i j : Nat) :
    Ends (Room st.store a ((VecOp.copyAssign i j : VecOp α).needs st))
      ((VecOp.copyAssign i j).exec husk st a) fun st' =>
        Owned (vectorKind α) st' ((VecOp.copyAssign i j).apply abs) := by
  simp only [VecOp.exec, VecOp.apply]
  by_cases hne : i = j
  · rw [if_pos hne, if_pos hne]
    exact h
  rw [if_neg hne, if_neg hne]
  refine h.use_ends j fun w ys hj _ hw => h.change_ends i fun v xs hi _ hv => ?_
  have hcopy := copied_ends (clear_rep hv) hw (h.apart (Ne.symm hne) hj hi) a
  refine hcopy.mono fun hroom => ?_
  rw [VecOp.needs, hj] at hroom
  exact hroom

theorem VecOp.exec_ends (h : Owned (vectorKind α) st abs) (husk : α → α) (a : Nat) (op : VecOp α)
    (hclean : op.Clean st) :
    Ends (Room st.store a (op.needs st)) (op.exec husk st a) fun st' =>
      Owned (vectorKind α) st' (op.apply abs) := by
  cases op with
  | create i =>
      rw [VecOp.exec, VecOp.apply]
      refine h.create_ends i ?_
      exact ⟨vectorRep_new st.store, .refl st.store 0⟩
  | copy i j => exact copyConstruct_ends h husk i j
  | move i j => exact (move_ends h husk i j).always
  | copyAssign i j => exact copyAssign_ends h husk i j
  | moveAssign i j => exact (moveAssign_ends h husk i j).always
  | destroy i => exact (destroy_ends h husk i).always
  | push i value =>
      rw [VecOp.exec, VecOp.apply]
      refine h.change_ends i fun v xs hi _ hv => ?_
      refine ((push_ends hv a value).mono fun hroom _ => ?_).imp fun r hr => ⟨hr.1, hr.2.1⟩
      rw [VecOp.needs, hi] at hroom
      exact hroom
  | pop i =>
      rw [VecOp.exec, VecOp.apply]
      refine h.change_ends i fun v xs _ _ hv => ?_
      have hframe : Frame st.store st.store v.data v.pop.data := by
        rw [pop_data]
        exact .refl st.store v.data
      exact ⟨pop_rep hv, hframe⟩
  | remove i index =>
      rw [VecOp.exec, VecOp.apply]
      exact h.change_ends i fun v xs _ _ hv => (remove_ends husk hv index).always
  | clear i =>
      rw [VecOp.exec, VecOp.apply]
      refine h.change_ends i fun v xs _ _ hv => ?_
      exact ⟨clear_rep hv, .refl st.store v.data⟩
  | reserve i n =>
      rw [VecOp.exec, VecOp.apply]
      refine h.change_ends i fun v xs _ _ hv => ?_
      exact ((reserve_ends hv a n).mono fun hroom _ => hroom).imp fun r hr => ⟨hr.rep, hr.frame⟩
  | resize i n =>
      rw [VecOp.exec, VecOp.apply]
      refine h.change_ends i fun v xs hi _ hv => ?_
      exact (resize_ends hv a n (hclean v hi)).mono fun hroom _ => hroom

/-! ## What users of a vector see -/

/-- The vector has the size of the list, its elements stand at their places, and it has as
many slots as elements at least. -/
structure Shows (s : Store α) (v : Vector) (xs : List α) : Prop where
  size : v.count = xs.length
  le : v.count ≤ v.cap
  get : ∀ index, v.get s index = .ok xs[index]?

/-- Every vector shows its list. -/
def Agrees (st : Objects Vector α) (abs : Values (List α)) : Prop :=
  ∀ i, Option.Rel (Shows st.store) (st.objs i) (abs i)

omit [Inhabited α] in
theorem VectorRep.shows {s : Store α} {v : Vector} {xs : List α} (h : VectorRep s v xs) :
    Shows s v xs where
  size := h.count
  le := h.le
  get := h.get_eq

omit [Inhabited α] in
theorem agrees_of_owned (h : Owned (vectorKind α) st abs) : Agrees st abs := by
  intro i
  cases hi : st.objs i with
  | none =>
      rw [h.get_none hi]
      exact .none
  | some v =>
      obtain ⟨xs, hx, hv⟩ := h.get hi
      rw [hx]
      exact .some (VectorRep.shows hv)

/-- A slot that was used before is exposed. -/
theorem resize_shows {s s' : Store α} {v v' : Vector} {xs : List α} {n : Nat} (h : VectorRep s v xs)
    (hres : v.resize s a n = .ok (v', s'))
    (hshows : Shows s' v' (xs.take n ++ List.replicate (n - xs.length) default)) : Unused s v n := by
  have hcount := h.count
  by_cases hgrow : v.cap < n
  · exact .inr (.inl hgrow)
  refine .inr (.inr fun i hi hlt => ?_)
  unfold Vector.resize at hres
  rw [if_neg hgrow] at hres
  cases hres
  obtain ⟨-, b, hb, hsize, -⟩ := h.array (by omega)
  have hget := hshows.get i
  simp only [Vector.get] at hget
  have hcell : (xs.take n ++ List.replicate (n - xs.length) default)[i]? = some default := by
    rw [List.getElem?_append_right (by rw [List.length_take]; omega), List.getElem?_replicate,
      if_pos (by rw [List.length_take]; omega)]
  rw [if_neg (Nat.not_le_of_lt hlt), hcell, Store.read_eq hb (by omega), ok_bind] at hget
  rw [Store.read_eq hb (by omega)]
  exact congrArg Except.ok (Option.some.inj (Except.ok.inj hget))

/-- One operation, with whatever address memory grants. -/
def VecStep (husk : α → α) (st : Objects Vector α) (op : VecOp α) (st' : Objects Vector α) : Prop :=
  ∃ a, op.exec husk st a = .ok st'

/-- One operation that exposes no used slot. -/
def CleanStep (husk : α → α) (st : Objects Vector α) (op : VecOp α) (st' : Objects Vector α) : Prop :=
  op.Clean st ∧ VecStep husk st op st'

theorem owned_run {husk : α → α} {ops : List (VecOp α)} {st' : Objects Vector α}
    (h : Owned (vectorKind α) st abs) (hrun : Run (CleanStep husk) st ops st') :
    Owned (vectorKind α) st' (ops.foldl VecOp.apply abs) := by
  induction hrun generalizing abs with
  | nil => exact h
  | cons hstep _ ih =>
      obtain ⟨hclean, a, hexec⟩ := hstep
      exact ih ((VecOp.exec_ends h husk a _ hclean).of_ok hexec)

/-- An operation after which the vectors agree was clean. -/
theorem clean_of_agrees (h : Owned (vectorKind α) st abs) {husk : α → α} {op : VecOp α}
    {st' : Objects Vector α} (hexec : op.exec husk st a = .ok st') (hagrees : Agrees st' (op.apply abs)) :
    op.Clean st := by
  cases op with
  | resize i n =>
      intro v hi
      obtain ⟨xs, hx, hv⟩ := h.get hi
      simp only [VecOp.exec, VecOp.apply, Objects.change, Objects.use, Values.change, Values.use,
        hi, hx] at hexec hagrees
      cases hres : v.resize st.store a n with
      | error e =>
          rw [hres] at hexec
          cases hexec
      | ok r =>
          rw [hres] at hexec
          cases hexec
          have hrel := hagrees i
          simp only [Function.update_self] at hrel
          cases hrel with
          | some hshows => exact resize_shows hv hres hshows
  | create | copy | move | copyAssign | moveAssign | destroy | push | pop | remove | clear
  | reserve => trivial

/-- In every run from no vectors whose steps expose no used slot, every vector shows its
list.  The next operation keeps this iff it exposes no used slot either, and then it makes
no access outside an array and returns unless memory runs out. -/
theorem vectors_agree_iff (husk : α → α) (s : Store α) {ops : List (VecOp α)} {st : Objects Vector α}
    (hrun : Run (CleanStep husk) (Objects.empty s) ops st) :
    Agrees st (ops.foldl VecOp.apply fun _ => none) ∧
    (∀ op a, op.Clean st →
      Ends (Room st.store a (op.needs st)) (op.exec husk st a) fun st' =>
        Agrees st' ((ops ++ [op]).foldl VecOp.apply fun _ => none)) ∧
    ∀ op st', VecStep husk st op st' →
      (Agrees st' ((ops ++ [op]).foldl VecOp.apply fun _ => none) ↔ op.Clean st) := by
  have h := owned_run (Owned.empty (vectorKind α) s) hrun
  have hstep : ∀ op a, op.Clean st → Ends (Room st.store a (op.needs st)) (op.exec husk st a)
      fun st' => Agrees st' ((ops ++ [op]).foldl VecOp.apply fun _ => none) := by
    intro op a hclean
    rw [List.foldl_append]
    exact (VecOp.exec_ends h husk a op hclean).imp fun st' => agrees_of_owned
  refine ⟨agrees_of_owned h, hstep, fun op st' hop => ?_⟩
  obtain ⟨a, hexec⟩ := hop
  constructor
  · intro hagrees
    rw [List.foldl_append] at hagrees
    exact clean_of_agrees h hexec hagrees
  · intro hclean
    exact (hstep op a hclean).of_ok hexec

/-- Two elements, a `resize` inside the capacity, and a copy from which the first is removed. -/
theorem vectors_agree_iff_one : ∃ st : Objects Vector Nat,
    Run (CleanStep id) (Objects.empty (Store.empty : Store Nat))
      [VecOp.create 0, .push 0 7, .push 0 8, .resize 0 3, .copy 1 0, .remove 1 0, .pop 0] st ∧
    Agrees st ([VecOp.create 0, .push 0 7, .push 0 8, .resize 0 3, .copy 1 0, .remove 1 0,
      .pop 0].foldl VecOp.apply fun _ => none) := by
  have hrun : ∃ st, Run (CleanStep id) (Objects.empty (Store.empty : Store Nat))
      [VecOp.create 0, .push 0 7, .push 0 8, .resize 0 3, .copy 1 0, .remove 1 0, .pop 0] st := by
    refine ⟨_, .cons ⟨trivial, 16, rfl⟩ (.cons ⟨trivial, 16, rfl⟩ (.cons ⟨trivial, 16, rfl⟩
      (.cons ⟨fun v hv => ?_, 16, rfl⟩ (.cons ⟨trivial, 17, rfl⟩ (.cons ⟨trivial, 16, rfl⟩
        (.cons ⟨trivial, 16, rfl⟩ .nil))))))⟩
    cases hv
    -- the third slot of the array of four has not been used
    refine Or.inr (Or.inr fun i hlow hhigh => ?_)
    have hle : 2 ≤ i := hlow
    obtain rfl : i = 2 := by omega
    rfl
  obtain ⟨st, hrun⟩ := hrun
  exact ⟨st, hrun, (vectors_agree_iff id Store.empty hrun).1⟩

/-- `push(7)`, `pop()` and `resize(1)` show the 7 and not a default value. -/
theorem resize_shows_popped : ¬ ∀ (ops : List (VecOp Nat)) (st : Objects Vector Nat),
    Run (VecStep id) (Objects.empty Store.empty) ops st →
      Agrees st (ops.foldl VecOp.apply fun _ => none) := by
  intro h
  have hrun : Run (VecStep id) (Objects.empty (Store.empty : Store Nat))
      [VecOp.create 0, .push 0 7, .pop 0, .resize 0 1] _ :=
    .cons ⟨16, rfl⟩ (.cons ⟨16, rfl⟩ (.cons ⟨16, rfl⟩ (.cons ⟨16, rfl⟩ .nil)))
  have hrel := h _ _ hrun 0
  cases hrel with
  | some hshows =>
      have hget := hshows.get 0
      cases hget

end

end Avery.Utils
