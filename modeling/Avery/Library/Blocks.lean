import Mathlib.Algebra.Group.Nat.Defs
import Mathlib.Logic.Function.Basic

/-!
# Blocks of memory

A block is an array of cells with a size, and a store maps the addresses of the live
blocks to them.  Every access checks that its block is live and that its index is below
the size.  `new` makes a block at an address that is not in use, and fails when it is
handed no such address (`Grant`).

A computation on blocks ends well (`Ends`) if it makes no wrong access and what it
returns has a property.  It may run out of memory unless memory was available.  The
rules for `Ends` follow the code: `Ends.bind` for a sequence, `Ends.forUp` and
`Ends.forDown` for a loop with an invariant.
-/

namespace Blocks

inductive Fault where
  /-- A block that is not live, or an index outside it. -/
  | access
  /-- There was no room for a new block. -/
  | memory
deriving DecidableEq

/-- The cells from `size` on do not exist. -/
structure Block (α : Type) where
  size : Nat
  cells : Nat → α

variable {α σ τ : Type}

@[simp] theorem ok_bind (a : σ) (f : σ → Except Fault τ) : (Except.ok a >>= f) = f a := rfl

namespace Block

def read (b : Block α) (i : Nat) : Except Fault α :=
  if i < b.size then .ok (b.cells i) else .error .access

def set (b : Block α) (i : Nat) (v : α) : Block α := { b with cells := Function.update b.cells i v }

def write (b : Block α) (i : Nat) (v : α) : Except Fault (Block α) :=
  if i < b.size then .ok (b.set i v) else .error .access

theorem read_of_lt {b : Block α} {i : Nat} (h : i < b.size) : b.read i = .ok (b.cells i) := if_pos h

theorem write_of_lt {b : Block α} {i : Nat} (h : i < b.size) (v : α) :
    b.write i v = .ok (b.set i v) := if_pos h

@[simp] theorem size_set (b : Block α) (i : Nat) (v : α) : (b.set i v).size = b.size := rfl

@[simp] theorem cells_set (b : Block α) (i : Nat) (v : α) : (b.set i v).cells i = v :=
  Function.update_self ..

theorem cells_set_of_ne {i j : Nat} (h : j ≠ i) (b : Block α) (v : α) :
    (b.set i v).cells j = b.cells j := Function.update_of_ne h ..

end Block

namespace Block

/-- The values stand in the block from `i` on. -/
def Holds (b : Block α) (i : Nat) (xs : List α) : Prop :=
  ∀ j v, xs[j]? = some v → i + j < b.size ∧ b.cells (i + j) = v

variable {b : Block α} {i : Nat} {xs : List α}

theorem Holds.nil (b : Block α) (i : Nat) : b.Holds i [] := fun j v h => by simp at h

theorem holds_cons {x : α} :
    b.Holds i (x :: xs) ↔ (i < b.size ∧ b.cells i = x) ∧ b.Holds (i + 1) xs := by
  constructor
  · intro h
    refine ⟨h 0 x rfl, fun j v hv => ?_⟩
    rw [Nat.add_right_comm]
    exact h (j + 1) v hv
  · rintro ⟨hfirst, hrest⟩ j v hv
    cases j with
    | zero =>
        cases hv
        exact hfirst
    | succ j =>
        rw [← Nat.add_assoc, Nat.add_right_comm]
        exact hrest j v hv

theorem Holds.initial {ys : List α} (h : b.Holds i xs) (hys : ys <+: xs) : b.Holds i ys := by
  obtain ⟨zs, rfl⟩ := hys
  intro j v hv
  refine h j v ?_
  rw [List.getElem?_append_left (List.getElem?_eq_some_iff.mp hv).1, hv]

/-- A value is written in front of the others. -/
theorem Holds.write_front (h : b.Holds (i + 1) xs) (hi : i < b.size) (v : α) :
    (b.set i v).Holds i (v :: xs) := by
  refine holds_cons.mpr ⟨⟨hi, cells_set ..⟩, fun j w hw => ?_⟩
  obtain ⟨hlt, hcell⟩ := h j w hw
  exact ⟨hlt, (cells_set_of_ne (by omega) ..).trans hcell⟩

/-- A value is written behind the others. -/
theorem Holds.write_back (h : b.Holds i xs) (hi : i + xs.length < b.size) (v : α) :
    (b.set (i + xs.length) v).Holds i (xs ++ [v]) := by
  intro j w hw
  rcases Nat.lt_trichotomy j xs.length with hlt | rfl | hgt
  · rw [List.getElem?_append_left hlt] at hw
    obtain ⟨hsize, hcell⟩ := h j w hw
    exact ⟨hsize, (cells_set_of_ne (by omega) ..).trans hcell⟩
  · rw [List.getElem?_append_right (Nat.le_refl _), Nat.sub_self] at hw
    cases hw
    exact ⟨hi, cells_set ..⟩
  · rw [List.getElem?_append_right (Nat.le_of_lt hgt)] at hw
    obtain ⟨m, hm⟩ : ∃ m, j - xs.length = m + 1 := ⟨j - xs.length - 1, by omega⟩
    simp [hm] at hw

end Block

/-! ## Loops -/

/-- `body` at `i`, `i + 1` and so on, `n` times. -/
def forUp (body : Nat → σ → Except Fault σ) (i : Nat) : Nat → σ → Except Fault σ
  | 0, s => .ok s
  | n + 1, s => do forUp body (i + 1) n (← body i s)

/-- `body` at `n`, `n - 1` and so on down to 1. -/
def forDown (body : Nat → σ → Except Fault σ) : Nat → σ → Except Fault σ
  | 0, s => .ok s
  | n + 1, s => do forDown body n (← body (n + 1) s)

/-! ## Ending well -/

/-- No wrong access is made, memory runs out only if it was not available, and the
result has the property. -/
def Ends (available : Prop) (r : Except Fault σ) (post : σ → Prop) : Prop :=
  match r with
  | .ok a => post a
  | .error .memory => ¬ available
  | .error .access => False

namespace Ends

variable {available : Prop} {post : σ → Prop} {post' : τ → Prop}

theorem ok {a : σ} (h : post a) : Ends available (.ok a) post := h

theorem bind {r : Except Fault σ} {f : σ → Except Fault τ} (h : Ends available r post)
    (hf : ∀ a, post a → Ends available (f a) post') : Ends available (r >>= f) post' := by
  cases r with
  | ok a => exact hf a h
  | error e =>
      cases e with
      | access => exact h
      | memory => exact h

theorem imp {r : Except Fault σ} {post' : σ → Prop} (h : Ends available r post)
    (himp : ∀ a, post a → post' a) : Ends available r post' := by
  cases r with
  | ok a => exact himp a h
  | error e =>
      cases e with
      | access => exact h
      | memory => exact h

theorem mono {available' : Prop} {r : Except Fault σ} (h : Ends available r post)
    (himp : available' → available) : Ends available' r post := by
  cases r with
  | ok a => exact h
  | error e =>
      cases e with
      | access => exact h
      | memory => exact mt himp h

/-- A computation that does not ask for memory. -/
theorem always {r : Except Fault σ} (h : Ends True r post) : Ends available r post := by
  cases r with
  | ok a => exact h
  | error e =>
      cases e with
      | access => exact h
      | memory => exact absurd trivial h

theorem of_ok {r : Except Fault σ} {a : σ} (h : Ends available r post) (hr : r = .ok a) : post a := by
  subst hr
  exact h

/-- The loop keeps what one round keeps. -/
theorem forUp (inv : Nat → σ → Prop) {body : Nat → σ → Except Fault σ} {i n : Nat} {s : σ}
    (hs : inv i s)
    (hbody : ∀ k t, i ≤ k → k < i + n → inv k t → Ends available (body k t) (inv (k + 1))) :
    Ends available (Blocks.forUp body i n s) (inv (i + n)) := by
  induction n generalizing i s with
  | zero => exact hs
  | succ n ih =>
      rw [Blocks.forUp]
      refine (hbody i s (Nat.le_refl _) (by omega) hs).bind fun t ht => ?_
      rw [show i + (n + 1) = i + 1 + n by omega]
      exact ih ht fun k u hk hlt => hbody k u (by omega) (by omega)

theorem forDown (inv : Nat → σ → Prop) {body : Nat → σ → Except Fault σ} {n : Nat} {s : σ}
    (hs : inv n s)
    (hbody : ∀ k t, k < n → inv (k + 1) t → Ends available (body (k + 1) t) (inv k)) :
    Ends available (Blocks.forDown body n s) (inv 0) := by
  induction n generalizing s with
  | zero => exact hs
  | succ n ih =>
      rw [Blocks.forDown]
      refine (hbody n s (Nat.lt_succ_self n) hs).bind fun t ht => ?_
      exact ih ht fun k u hk => hbody k u (by omega)

end Ends

/-! ## Stores -/

/-- The live blocks by their addresses. -/
def Store (α : Type) : Type := Nat → Option (Block α)

/-- What an allocator hands out for a new block: an address, and what its cells hold. -/
structure Grant (α : Type) where
  address : Nat
  cells : Nat → α

/-- The address is one of a machine with 64-bit addresses, and it is not in use. -/
def Grant.Fresh (g : Grant α) (s : Store α) : Prop :=
  g.address ≠ 0 ∧ g.address < 2 ^ 64 ∧ s g.address = none

namespace Store

def empty : Store α := fun _ => none

def put (s : Store α) (p : Nat) (b : Block α) : Store α := Function.update s p (some b)

/-- An array has fewer than `2 ^ 63` cells. -/
def new (s : Store α) (g : Grant α) (size : Nat) : Except Fault (Nat × Store α) :=
  if g.address ≠ 0 ∧ g.address < 2 ^ 64 ∧ (s g.address).isNone ∧ size < 2 ^ 63 then
    .ok (g.address, s.put g.address ⟨size, g.cells⟩)
  else .error .memory

/-- Deleting the null pointer does nothing. -/
def delete (s : Store α) (p : Nat) : Except Fault (Store α) :=
  if p = 0 then .ok s
  else
    match s p with
    | none => .error .access
    | some _ => .ok (Function.update s p none)

def read (s : Store α) (p i : Nat) : Except Fault α :=
  match s p with
  | none => .error .access
  | some b => b.read i

def write (s : Store α) (p i : Nat) (v : α) : Except Fault (Store α) :=
  match s p with
  | none => .error .access
  | some b => do return s.put p (← b.write i v)

variable {s : Store α} {p q i : Nat} {b : Block α}

@[simp] theorem put_same (s : Store α) (p : Nat) (b : Block α) : s.put p b p = some b :=
  Function.update_self ..

theorem put_of_ne (h : q ≠ p) (s : Store α) (b : Block α) : s.put p b q = s q :=
  Function.update_of_ne h ..

@[simp] theorem put_put (s : Store α) (p : Nat) (b b' : Block α) :
    (s.put p b).put p b' = s.put p b' :=
  Function.update_idem ..

theorem put_self (h : s p = some b) : s.put p b = s := by
  rw [put, ← h]
  exact Function.update_eq_self ..

theorem read_eq (h : s p = some b) (hi : i < b.size) : s.read p i = .ok (b.cells i) := by
  unfold read
  rw [h]
  exact Block.read_of_lt hi

theorem write_eq (h : s p = some b) (hi : i < b.size) (v : α) :
    s.write p i v = .ok (s.put p (b.set i v)) := by
  unfold write
  rw [h]
  simp only [Block.write_of_lt hi]
  rfl

theorem delete_eq (h : s p = some b) (hp : p ≠ 0) :
    s.delete p = .ok (Function.update s p none) := by
  rw [delete, if_neg hp, h]

/-- Deleting a live block or nothing. -/
theorem delete_any (h : p ≠ 0 → ∃ b, s p = some b) :
    ∃ s', s.delete p = .ok s' ∧ ∀ q ≠ p, s' q = s q := by
  by_cases hp : p = 0
  · exact ⟨s, if_pos hp, fun q _ => rfl⟩
  · obtain ⟨b, hb⟩ := h hp
    exact ⟨_, delete_eq hb hp, fun q hq => Function.update_of_ne hq ..⟩

/-- A new block, and everything else as before. -/
theorem new_ends {g : Grant α} {size : Nat} {available : Prop}
    (h : available → g.Fresh s ∧ size < 2 ^ 63) :
    Ends available (s.new g size) fun r =>
      g.Fresh s ∧ size < 2 ^ 63 ∧ r = (g.address, s.put g.address ⟨size, g.cells⟩) := by
  unfold new
  split
  · next hroom =>
    obtain ⟨hnull, hlt, hnone, hsize⟩ := hroom
    exact ⟨⟨hnull, hlt, Option.isNone_iff_eq_none.mp hnone⟩, hsize, rfl⟩
  · next hfull =>
    intro havailable
    obtain ⟨⟨hnull, hlt, hnone⟩, hsize⟩ := h havailable
    exact hfull ⟨hnull, hlt, Option.isNone_iff_eq_none.mpr hnone, hsize⟩

end Store

end Blocks
