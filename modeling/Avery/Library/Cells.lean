import Avery.Library.Blocks

/-!
# Copying cells

The loops that write the cells of one block: a copy from elsewhere, and the two ways of
shifting cells inside the block, upwards from the last cell and downwards from the first.
`Rewritten` says that a store differs from an earlier one in this block only.
-/

namespace Blocks

variable {α : Type}

namespace Block

variable {b b' : Block α} {i i' : Nat} {xs ys : List α}

theorem Holds.lt (h : b.Holds i xs) {j : Nat} (hj : j < xs.length) : i + j < b.size :=
  (h j xs[j] (List.getElem?_eq_getElem hj)).1

theorem holds_append :
    b.Holds i (xs ++ ys) ↔ b.Holds i xs ∧ b.Holds (i + xs.length) ys := by
  induction xs generalizing i with
  | nil =>
      refine ⟨fun h => ⟨.nil b i, h⟩, fun h => h.2⟩
  | cons x xs ih =>
      rw [List.cons_append, holds_cons, holds_cons, ih, List.length_cons, Nat.add_assoc i 1,
        Nat.add_comm 1, ← and_assoc]

theorem Holds.left (h : b.Holds i (xs ++ ys)) : b.Holds i xs := (holds_append.mp h).1

theorem Holds.right (h : b.Holds i (xs ++ ys)) : b.Holds (i + xs.length) ys := (holds_append.mp h).2

theorem Holds.drop (h : b.Holds i xs) (k : Nat) : b.Holds (i + k) (xs.drop k) := by
  intro j x hx
  rw [List.getElem?_drop] at hx
  rw [Nat.add_assoc]
  exact h (k + j) x hx

theorem holds_singleton {x : α} : b.Holds i [x] ↔ i < b.size ∧ b.cells i = x := by
  rw [holds_cons, and_iff_left (.nil b (i + 1))]

/-- The cells stand in another block, or elsewhere in the same. -/
theorem Holds.moved (h : b.Holds i xs) (hsize : i' + xs.length ≤ b'.size)
    (hcells : ∀ j < xs.length, b'.cells (i' + j) = b.cells (i + j)) : b'.Holds i' xs := by
  intro j x hx
  have hj := (List.getElem?_eq_some_iff.mp hx).1
  exact ⟨by omega, (hcells j hj).trans (h j x hx).2⟩

/-- A cell outside is written. -/
theorem Holds.set {k : Nat} (h : b.Holds i xs) (hk : k < i ∨ i + xs.length ≤ k) (v : α) :
    (b.set k v).Holds i xs := by
  intro j x hx
  have hj := (List.getElem?_eq_some_iff.mp hx).1
  obtain ⟨hlt, hcell⟩ := h j x hx
  exact ⟨hlt, (cells_set_of_ne (by omega) ..).trans hcell⟩

end Block

/-! ## A block that is written again and again -/

/-- The store is `s` but for the block at `p`, which has `n` cells and the property. -/
def Rewritten (s : Store α) (p n : Nat) (P : Block α → Prop) (t : Store α) : Prop :=
  ∃ b, t = s.put p b ∧ b.size = n ∧ P b

variable {s : Store α} {p n : Nat} {P Q : Block α → Prop} {t : Store α} {b : Block α}

theorem Rewritten.start (hb : s p = some b) (hP : P b) : Rewritten s p b.size P s :=
  ⟨b, (Store.put_self hb).symm, rfl, hP⟩

theorem Rewritten.imp (h : Rewritten s p n P t) (himp : ∀ b, b.size = n → P b → Q b) :
    Rewritten s p n Q t := by
  obtain ⟨b, rfl, hsize, hP⟩ := h
  exact ⟨b, rfl, hsize, himp b hsize hP⟩

/-- A value is read somewhere, and written to the cell `i`. -/
theorem Rewritten.copy {f : Store α → Except Fault α} {i : Nat} (h : Rewritten s p n P t) (hi : i < n)
    (hf : ∀ b, b.size = n → P b → ∃ v, f (s.put p b) = .ok v ∧ Q (b.set i v)) :
    Ends True (do t.write p i (← f t)) (Rewritten s p n Q) := by
  obtain ⟨b, rfl, hsize, hP⟩ := h
  obtain ⟨v, hv, hQ⟩ := hf b hsize hP
  rw [hv, ok_bind, Store.write_eq (Store.put_same ..) (hsize ▸ hi), Store.put_put]
  exact ⟨_, rfl, hsize, hQ⟩

theorem Rewritten.write {i : Nat} (h : Rewritten s p n P t) (hi : i < n) (v : α)
    (hQ : ∀ b, b.size = n → P b → Q (b.set i v)) :
    Ends True (t.write p i v) (Rewritten s p n Q) :=
  h.copy (f := fun _ => .ok v) hi fun b hsize hP => ⟨v, rfl, hQ b hsize hP⟩

/-- What was written before the store is looked at again. -/
theorem Rewritten.trans {b : Block α} (h : Rewritten (s.put p b) p n P t) : Rewritten s p n P t := by
  obtain ⟨c, rfl, hc⟩ := h
  exact ⟨c, Store.put_put .., hc⟩

/-! ## The loops -/

/-- `n` values of a source are written from the cell `off` on. -/
def copyCells (src : Store α → Nat → Except Fault α) (p off n : Nat) (s : Store α) :
    Except Fault (Store α) :=
  forUp (fun i s => do s.write p (off + i) (← src s i)) 0 n s

/-- The cells from `d` on come to the front. -/
def shiftDown (p d n : Nat) (s : Store α) : Except Fault (Store α) :=
  forUp (fun i s => do s.write p i (← s.read p (i + d))) 0 n s

/-- The first `n` cells come `d` further behind. -/
def shiftUp (p d n : Nat) (s : Store α) : Except Fault (Store α) :=
  forDown (fun i s => do s.write p (i + d - 1) (← s.read p (i - 1))) n s

theorem copyCells_ends {src : Store α → Nat → Except Fault α} {off k : Nat} {f : Nat → α}
    (hb : s p = some b) (hsize : off + k ≤ b.size)
    (hsrc : ∀ c i, i < k → src (s.put p c) i = .ok (f i)) :
    Ends True (copyCells src p off k s) (Rewritten s p b.size fun c =>
      (∀ i < k, c.cells (off + i) = f i) ∧ ∀ j, j < off ∨ off + k ≤ j → c.cells j = b.cells j) := by
  let inv : Nat → Block α → Prop := fun m c =>
    (∀ i < m, c.cells (off + i) = f i) ∧ ∀ j, j < off ∨ off + m ≤ j → c.cells j = b.cells j
  have hstart : Rewritten s p b.size (inv 0) s :=
    .start hb ⟨fun i hi => absurd hi (Nat.not_lt_zero i), fun j _ => rfl⟩
  have hloop : Ends True (copyCells src p off k s) (Rewritten s p b.size (inv (0 + k))) :=
    Ends.forUp (fun m => Rewritten s p b.size (inv m)) hstart fun m t _ hm ht => by
      rw [Nat.zero_add] at hm
      refine Rewritten.copy (f := fun s => src s m) (Q := inv (m + 1)) ht ?_ fun c _ hinv =>
        ⟨f m, hsrc c m hm, fun i hi => ?_, fun j hj => ?_⟩
      · omega
      · rcases Nat.lt_or_eq_of_le (Nat.le_of_lt_succ hi) with hlt | rfl
        · exact (Block.cells_set_of_ne (by omega) ..).trans (hinv.1 i hlt)
        · exact Block.cells_set ..
      · exact (Block.cells_set_of_ne (by omega) ..).trans (hinv.2 j (by omega))
  rw [Nat.zero_add] at hloop
  exact hloop

theorem shiftDown_ends {d k : Nat} (hb : s p = some b) (hsize : k + d ≤ b.size) :
    Ends True (shiftDown p d k s) (Rewritten s p b.size fun c =>
      (∀ i < k, c.cells i = b.cells (i + d)) ∧ ∀ j, k ≤ j → c.cells j = b.cells j) := by
  let inv : Nat → Block α → Prop := fun m c =>
    (∀ i < m, c.cells i = b.cells (i + d)) ∧ ∀ j, m ≤ j → c.cells j = b.cells j
  have hstart : Rewritten s p b.size (inv 0) s :=
    .start hb ⟨fun i hi => absurd hi (Nat.not_lt_zero i), fun j _ => rfl⟩
  have hloop : Ends True (shiftDown p d k s) (Rewritten s p b.size (inv (0 + k))) :=
    Ends.forUp (fun m => Rewritten s p b.size (inv m)) hstart fun m t _ hm ht => by
      rw [Nat.zero_add] at hm
      refine Rewritten.copy (f := fun s => s.read p (m + d)) (Q := inv (m + 1)) ht ?_
        fun c hc hinv =>
        ⟨b.cells (m + d), ?_, fun i hi => ?_, fun j hj => ?_⟩
      · omega
      · rw [Store.read_eq (Store.put_same ..) (by omega), hinv.2 (m + d) (Nat.le_add_right ..)]
      · rcases Nat.lt_or_eq_of_le (Nat.le_of_lt_succ hi) with hlt | rfl
        · exact (Block.cells_set_of_ne (by omega) ..).trans (hinv.1 i hlt)
        · exact Block.cells_set ..
      · exact (Block.cells_set_of_ne (by omega) ..).trans (hinv.2 j (by omega))
  rw [Nat.zero_add] at hloop
  exact hloop

theorem shiftUp_ends {d k : Nat} (hb : s p = some b) (hd : 0 < d) (hsize : k + d ≤ b.size) :
    Ends True (shiftUp p d k s) (Rewritten s p b.size fun c =>
      (∀ i < k, c.cells (i + d) = b.cells i) ∧ ∀ j, k + d ≤ j → c.cells j = b.cells j) := by
  -- those from `m` on are in their places, and the others were not moved yet
  let inv : Nat → Block α → Prop := fun m c =>
    (∀ i, m ≤ i → i < k → c.cells (i + d) = b.cells i) ∧
      ∀ j, j < m + d ∨ k + d ≤ j → c.cells j = b.cells j
  have hstart : Rewritten s p b.size (inv k) s :=
    .start hb ⟨fun i hi hlt => absurd hlt (Nat.not_lt_of_le hi), fun j _ => rfl⟩
  have hloop : Ends True (shiftUp p d k s) (Rewritten s p b.size (inv 0)) :=
    Ends.forDown (fun m => Rewritten s p b.size (inv m)) hstart fun m t hm ht => by
      refine Rewritten.copy (f := fun s => s.read p (m + 1 - 1)) (Q := inv m) ht ?_
        fun c hc hinv =>
        ⟨b.cells m, ?_, fun i hi hlt => ?_, fun j hj => ?_⟩
      · omega
      · rw [Nat.add_sub_cancel, Store.read_eq (Store.put_same ..) (by omega), hinv.2 m (by omega)]
      · rcases Nat.lt_or_eq_of_le hi with hlt' | rfl
        · exact (Block.cells_set_of_ne (by omega) ..).trans (hinv.1 i hlt' hlt)
        · rw [show m + 1 + d - 1 = m + d by omega]
          exact Block.cells_set ..
      · exact (Block.cells_set_of_ne (by omega) ..).trans (hinv.2 j (by omega))
  refine hloop.imp fun t ht => ht.imp fun c _ hc => ⟨fun i hi => hc.1 i (Nat.zero_le i) hi, ?_⟩
  exact fun j hj => hc.2 j (.inr hj)

end Blocks
