import Mathlib.Data.List.Basic

/-!
# Doubly linked lists

`Segment next prev p xs n` says that the addresses `xs` form a doubly linked
piece of a list: `next` leads through them to `n`, and `prev` leads back through
them to `p`.  Pieces are cut and joined by `segment_append`, and a piece depends
on the links of its own addresses only.
-/

namespace LinkedList

variable {next prev next' prev' : Nat → Nat}

/-- The first address of a piece that is followed by `n`. -/
def first : List Nat → Nat → Nat
  | [], n => n
  | x :: _, _ => x

/-- The last address of a piece that is preceded by `p`. -/
def last : Nat → List Nat → Nat
  | p, [] => p
  | _, x :: xs => last x xs

def Segment (next prev : Nat → Nat) : Nat → List Nat → Nat → Prop
  | _, [], _ => True
  | p, x :: xs, n => prev x = p ∧ next x = first xs n ∧ Segment next prev x xs n

@[simp] theorem first_nil (n : Nat) : first [] n = n := rfl
@[simp] theorem first_cons (x : Nat) (xs : List Nat) (n : Nat) : first (x :: xs) n = x := rfl
@[simp] theorem last_nil (p : Nat) : last p [] = p := rfl
@[simp] theorem last_cons (p x : Nat) (xs : List Nat) : last p (x :: xs) = last x xs := rfl

theorem first_append : ∀ (xs ys : List Nat) (n : Nat), first (xs ++ ys) n = first xs (first ys n)
  | [], _, _ => rfl
  | _ :: _, _, _ => rfl

theorem last_append : ∀ (p : Nat) (xs ys : List Nat), last p (xs ++ ys) = last (last p xs) ys
  | _, [], _ => rfl
  | _, x :: xs, ys => last_append x xs ys

/-- A piece is two pieces that meet. -/
theorem segment_append :
    ∀ {p n : Nat} {xs ys : List Nat}, Segment next prev p (xs ++ ys) n ↔
      Segment next prev p xs (first ys n) ∧ Segment next prev (last p xs) ys n
  | _, _, [], _ => ⟨fun h => ⟨trivial, h⟩, fun h => h.2⟩
  | _, _, x :: xs, _ => by
      rw [List.cons_append, Segment, Segment, segment_append, first_append, last_cons, and_assoc,
        and_assoc]

theorem Segment.congr {n : Nat} :
    ∀ {xs : List Nat} {p : Nat}, (∀ x ∈ xs, next' x = next x ∧ prev' x = prev x) →
      Segment next prev p xs n → Segment next' prev' p xs n
  | [], _, _, _ => trivial
  | x :: _, _, h, hs => by
      obtain ⟨hnext, hprev⟩ := h x (List.mem_cons_self ..)
      refine ⟨hprev.trans hs.1, hnext.trans hs.2.1, ?_⟩
      exact hs.2.2.congr fun y hy => h y (List.mem_cons_of_mem _ hy)

/-- The piece after a changed predecessor: only its first address has to point
back at the new one. -/
theorem Segment.relink {p q n : Nat} {xs : List Nat} (hnodup : xs.Nodup)
    (hnext : ∀ x ∈ xs, next' x = next x)
    (hprev : ∀ x ∈ xs, prev' x = if x = first xs n then q else prev x)
    (hs : Segment next prev p xs n) : Segment next' prev' q xs n := by
  cases xs with
  | nil => trivial
  | cons x xs =>
      have hx := List.mem_cons_self (a := x) (l := xs)
      refine ⟨by rw [hprev x hx, first_cons, if_pos rfl], (hnext x hx).trans hs.2.1, ?_⟩
      refine hs.2.2.congr fun y hy => ?_
      have hy' := List.mem_cons_of_mem x hy
      have hne : y ≠ x := fun heq => (List.nodup_cons.mp hnodup).1 (heq ▸ hy)
      exact ⟨hnext y hy', by rw [hprev y hy', first_cons, if_neg hne]⟩

/-- Inserting an address after `b`. -/
theorem Segment.insert {p n b new : Nat} {pre post : List Nat} (hnodup : post.Nodup)
    (hpre : ∀ x ∈ pre, next' x = next x ∧ prev' x = prev x)
    (hb : next' b = new ∧ prev' b = prev b)
    (hnew : next' new = first post n ∧ prev' new = b)
    (hnext : ∀ x ∈ post, next' x = next x)
    (hprev : ∀ x ∈ post, prev' x = if x = first post n then new else prev x)
    (hs : Segment next prev p (pre ++ b :: post) n) :
    Segment next' prev' p (pre ++ b :: new :: post) n := by
  rw [segment_append] at hs ⊢
  obtain ⟨hleft, hback, _, hright⟩ := hs
  exact ⟨hleft.congr hpre, hb.2.trans hback, hb.1, hnew.2, hnew.1,
    hright.relink hnodup hnext hprev⟩

/-- Removing the address `c` after `b`. -/
theorem Segment.remove {p n b c : Nat} {pre post : List Nat} (hnodup : post.Nodup)
    (hpre : ∀ x ∈ pre, next' x = next x ∧ prev' x = prev x)
    (hb : next' b = next c ∧ prev' b = prev b)
    (hnext : ∀ x ∈ post, next' x = next x)
    (hprev : ∀ x ∈ post, prev' x = if x = first post n then b else prev x)
    (hs : Segment next prev p (pre ++ b :: c :: post) n) :
    Segment next' prev' p (pre ++ b :: post) n := by
  rw [segment_append] at hs ⊢
  obtain ⟨hleft, hback, _, _, hskip, hright⟩ := hs
  exact ⟨hleft.congr hpre, hb.2.trans hback, hb.1.trans hskip, hright.relink hnodup hnext hprev⟩

end LinkedList
