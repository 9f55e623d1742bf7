import Mathlib.Data.List.Pairwise
import Mathlib.Data.List.Perm.Basic
import Mathlib.Data.List.Basic

/-!
# Leases on a line of cells

A bump allocator hands out ranges of consecutive cells of a partial map, never
the same cell twice.  A lease fills its cells when it is taken, and clears them
when it ends.  `Holds` says what the map contains then: the cells of a live lease
hold the values of the lease, and every other cell holds what it held before the
first lease.
-/

namespace Leases

variable {β : Type*}

/-- `count` cells from `first` on, with the value of each. -/
structure Lease (β : Type*) where
  first : Nat
  count : Nat
  value : Nat → β

/-- A cell of the lease. -/
def Lease.Has (l : Lease β) (p : Nat) : Prop := l.first ≤ p ∧ p < l.first + l.count

instance (l : Lease β) (p : Nat) : Decidable (l.Has p) :=
  inferInstanceAs (Decidable (l.first ≤ p ∧ p < l.first + l.count))

/-- No cell is in both. -/
def Lease.Apart (l k : Lease β) : Prop := ∀ p, l.Has p → ¬ k.Has p

theorem Lease.Apart.symm {l k : Lease β} (h : l.Apart k) : k.Apart l :=
  fun p hk hl => h p hl hk

structure State (β : Type*) where
  next : Nat
  live : List (Lease β)
  ended : List (Lease β)
  map : Nat → Option β

/-- The next `count` cells, filled. -/
def take (s : State β) (count : Nat) (value : Nat → β) : State β :=
  let l : Lease β := ⟨s.next, count, value⟩
  { next := s.next + count
    live := l :: s.live
    ended := s.ended
    map := fun p => if l.Has p then some (l.value (p - l.first)) else s.map p }

/-- End the lease at an index of `live`, and clear its cells. -/
def release (s : State β) (i : Nat) (l : Lease β) : State β :=
  { s with
    live := s.live.eraseIdx i
    ended := l :: s.ended
    map := fun p => if l.Has p then none else s.map p }

/-- Every lease lies between the first cell and the next, leases do not overlap,
and the map is `m₀` outside the live leases. -/
structure Holds (m₀ : Nat → Option β) (first : Nat) (s : State β) : Prop where
  start : first ≤ s.next
  inside : ∀ l ∈ s.live ++ s.ended, first ≤ l.first ∧ l.first + l.count ≤ s.next
  apart : (s.live ++ s.ended).Pairwise Lease.Apart
  filled : ∀ l ∈ s.live, ∀ i < l.count, s.map (l.first + i) = some (l.value i)
  other : ∀ p, (∀ l ∈ s.live, ¬ l.Has p) → s.map p = m₀ p

variable {m₀ : Nat → Option β} {first : Nat} {s : State β}

/-- Before the first lease. -/
theorem holds_start : Holds m₀ first ⟨first, [], [], m₀⟩ :=
  ⟨Nat.le_refl _, by simp, by simp, by simp, fun _ _ => rfl⟩

/-- The cells from `next` on hold what they held at the start. -/
theorem Holds.beyond (h : Holds m₀ first s) {p : Nat} (hp : s.next ≤ p) : s.map p = m₀ p := by
  apply h.other
  intro l hl hhas
  have hin := (h.inside l (List.mem_append_left _ hl)).2
  exact absurd (Nat.lt_of_lt_of_le hhas.2 hin) (Nat.not_lt.mpr hp)

/-- The cells of an ended lease hold what they held at the start. -/
theorem Holds.cleared (h : Holds m₀ first s) {l : Lease β} (hl : l ∈ s.ended) {p : Nat}
    (hp : l.Has p) : s.map p = m₀ p := by
  apply h.other
  intro k hk hhas
  exact (List.pairwise_append.mp h.apart).2.2 k hk l hl p hhas hp

theorem Holds.take (h : Holds m₀ first s) (count : Nat) (value : Nat → β) :
    Holds m₀ first (take s count value) := by
  have hold : ∀ l ∈ s.live ++ s.ended, ∀ p, l.Has p → p < s.next :=
    fun l hl p hp => Nat.lt_of_lt_of_le hp.2 (h.inside l hl).2
  refine ⟨Nat.le_trans h.start (Nat.le_add_right _ _), ?_, ?_, ?_, ?_⟩
  · intro l hl
    cases hl with
    | head => exact ⟨h.start, Nat.le_refl _⟩
    | tail _ hl =>
        have hin := h.inside l hl
        exact ⟨hin.1, Nat.le_trans hin.2 (Nat.le_add_right _ _)⟩
  · apply List.Pairwise.cons _ h.apart
    intro l hl p hnew hp
    exact absurd (hold l hl p hp) (Nat.not_lt.mpr hnew.1)
  · intro l hl i hi
    cases hl with
    | head => simp [Leases.take, Lease.Has, hi]
    | tail _ hl =>
        have hlt := hold l (List.mem_append_left _ hl) (l.first + i) ⟨by omega, by omega⟩
        simp only [Leases.take]
        rw [if_neg fun hc => absurd hlt (Nat.not_lt.mpr hc.1)]
        exact h.filled l hl i hi
  · intro p hp
    have hnew := hp _ List.mem_cons_self
    simp only [Leases.take]
    rw [if_neg hnew]
    exact h.other p fun l hl => hp l (List.mem_cons_of_mem _ hl)

theorem Holds.release (h : Holds m₀ first s) (hempty : ∀ p, first ≤ p → p < s.next → m₀ p = none)
    {i : Nat} {l : Lease β} (hl : s.live[i]? = some l) : Holds m₀ first (release s i l) := by
  obtain ⟨hi, rfl⟩ := List.getElem?_eq_some_iff.mp hl
  have hperm : List.Perm (s.live[i] :: s.live.eraseIdx i) s.live :=
    List.getElem_cons_eraseIdx_perm hi
  have hall : List.Perm (s.live.eraseIdx i ++ s.live[i] :: s.ended) (s.live ++ s.ended) :=
    List.perm_middle.trans (hperm.append_right s.ended)
  have hapart := (hall.pairwise_iff fun hab => Lease.Apart.symm hab).mpr h.apart
  have hothers : ∀ k ∈ s.live.eraseIdx i, k.Apart s.live[i] := fun k hk =>
    (List.pairwise_append.mp hapart).2.2 k hk _ List.mem_cons_self
  refine ⟨h.start, fun k hk => h.inside k (hall.mem_iff.mp hk), hapart, ?_, ?_⟩
  · intro k hk j hj
    have hhas : k.Has (k.first + j) := ⟨by omega, by omega⟩
    simp only [Leases.release]
    rw [if_neg (hothers k hk _ hhas)]
    exact h.filled k (List.mem_of_mem_eraseIdx hk) j hj
  · intro p hp
    simp only [Leases.release]
    by_cases hc : s.live[i].Has p
    · have hin := h.inside _ (List.mem_append_left _ (List.getElem_mem hi))
      rw [if_pos hc, hempty p (Nat.le_trans hin.1 hc.1) (Nat.lt_of_lt_of_le hc.2 hin.2)]
    · rw [if_neg hc]
      apply h.other
      intro k hk
      cases hperm.mem_iff.mpr hk with
      | head => exact hc
      | tail _ hk => exact hp k hk

end Leases
