import Mathlib.Data.List.Induction
import Mathlib.Data.Option.Basic

/-!
# Walks in a store of nodes

A store of nodes is given by its edges, a partial function from a node and an
index to a node.  `walk` follows a list of indices.  A store is a *tree* to
depth `d` when no node is reached by two different paths of length at most `d`.

Two edits keep a tree.  Edges of a node at depth exactly `d` may change freely
(`Tree.congr`), since no walk of length `d` leaves such a node.  A missing edge
may be pointed at a fresh node without edges (`Tree.link`), and then exactly one
new path appears (`walk_link`).
-/

namespace Trie

variable {ν ι : Type*}

/-- The node reached from `t` along a list of indices. -/
def walk (next : ν → ι → Option ν) (t : ν) : List ι → Option ν
  | [] => some t
  | i :: is => (next t i).bind fun u => walk next u is

@[simp] theorem walk_nil (next : ν → ι → Option ν) (t : ν) : walk next t [] = some t := rfl

theorem walk_append (next : ν → ι → Option ν) :
    ∀ (p q : List ι) (t : ν), walk next t (p ++ q) = (walk next t p).bind fun u => walk next u q
  | [], _, _ => rfl
  | i :: p, q, t => by
      rw [List.cons_append, walk, walk]
      cases next t i with
      | none => rfl
      | some u => exact walk_append next p q u

/-- What lies on the way to a node exists. -/
theorem walk_ne_none_of_append {next : ν → ι → Option ν} {p q : List ι} {t : ν}
    (h : walk next t (p ++ q) ≠ none) : walk next t p ≠ none := fun hn =>
  h (by rw [walk_append, hn]; rfl)

theorem walk_concat (next : ν → ι → Option ν) (p : List ι) (i : ι) (t : ν) :
    walk next t (p ++ [i]) = (walk next t p).bind fun u => next u i := by
  rw [walk_append]
  congr 1
  funext u
  rw [walk]
  cases next u i <;> rfl

theorem walk_concat_of {next : ν → ι → Option ν} {p : List ι} {i : ι} {t u : ν}
    (h : walk next t p = some u) : walk next t (p ++ [i]) = next u i := by
  rw [walk_concat, h]
  rfl

/-- No node is reached by two paths of length at most `d`. -/
def Tree (next : ν → ι → Option ν) (root : ν) (d : Nat) : Prop :=
  ∀ p q t, p.length ≤ d → q.length ≤ d → walk next root p = some t → walk next root q = some t →
    p = q

/-- Walks of length at most `d` use only the edges of nodes above depth `d`. -/
theorem walk_congr {next next' : ν → ι → Option ν} {root : ν} {d : Nat}
    (h : ∀ p t, p.length < d → walk next root p = some t → next' t = next t) :
    ∀ p : List ι, p.length ≤ d → walk next' root p = walk next root p := by
  intro p
  induction p using List.reverseRecOn with
  | nil => exact fun _ => rfl
  | append_singleton p i ih =>
      intro hlen
      rw [List.length_append, List.length_singleton] at hlen
      rw [walk_concat, walk_concat, ih (by omega)]
      cases hp : walk next root p with
      | none => rfl
      | some t =>
          show next' t i = next t i
          rw [h p t (by omega) hp]

theorem Tree.congr {next next' : ν → ι → Option ν} {root : ν} {d : Nat} (ht : Tree next root d)
    (h : ∀ p t, p.length < d → walk next root p = some t → next' t = next t) :
    Tree next' root d := by
  intro p q t hp hq h₁ h₂
  rw [walk_congr h p hp] at h₁
  rw [walk_congr h q hq] at h₂
  exact ht p q t hp hq h₁ h₂

/-- A walk over some of the edges. -/
theorem walk_of_sub {next next' : ν → ι → Option ν}
    (hsub : ∀ t i u, next' t i = some u → next t i = some u) {p : List ι} {t u : ν}
    (h : walk next' t p = some u) : walk next t p = some u := by
  induction p generalizing t with
  | nil => exact h
  | cons i p ih =>
      obtain ⟨v, hv, hwalk⟩ := Option.bind_eq_some_iff.mp h
      rw [walk, hsub t i v hv]
      exact ih hwalk

/-- Some of the edges of a tree form a tree. -/
theorem Tree.of_sub {next next' : ν → ι → Option ν} {root : ν} {d : Nat} (ht : Tree next root d)
    (hsub : ∀ t i u, next' t i = some u → next t i = some u) : Tree next' root d :=
  fun p q t hp hq h₁ h₂ => ht p q t hp hq (walk_of_sub hsub h₁) (walk_of_sub hsub h₂)

/-- What it takes to hang the fresh node `fresh` under edge `i₀` of the node at
the end of `p₀`. -/
structure Linkable (next : ν → ι → Option ν) (root : ν) (d : Nat) (p₀ : List ι) (t₀ : ν) (i₀ : ι)
    (fresh : ν) : Prop where
  parent : walk next root p₀ = some t₀
  depth : p₀.length < d
  missing : next t₀ i₀ = none
  unreached : ∀ p, p.length ≤ d → walk next root p ≠ some fresh

section Link

variable {next next' : ν → ι → Option ν} {root : ν} {d : Nat} {p₀ : List ι} {t₀ : ν} {i₀ : ι}
  {fresh : ν}

/-- After the link the new path is the parent's, extended by the edge, and all
other paths are as they were. -/
theorem walk_link [DecidableEq (List ι)] (next' : ν → ι → Option ν) (ht : Tree next root d)
    (hl : Linkable next root d p₀ t₀ i₀ fresh)
    (hfresh : ∀ i, next' fresh i = none) (hnew : next' t₀ i₀ = some fresh)
    (hedge : ∀ i, i ≠ i₀ → next' t₀ i = next t₀ i)
    (hnode : ∀ t, t ≠ t₀ → t ≠ fresh → next' t = next t) :
    ∀ p : List ι, p.length ≤ d →
      walk next' root p = if p = p₀ ++ [i₀] then some fresh else walk next root p := by
  intro p
  induction p using List.reverseRecOn with
  | nil =>
      intro _
      rw [if_neg (by simp)]
      rfl
  | append_singleton p i ih =>
      intro hlen
      rw [List.length_append, List.length_singleton] at hlen
      rw [walk_concat, walk_concat, ih (by omega)]
      by_cases hp : p = p₀ ++ [i₀]
      · -- below the fresh node there is nothing, and there was nothing before
        subst hp
        have hne : p₀ ++ [i₀] ++ [i] ≠ p₀ ++ [i₀] := by simp
        rw [if_pos rfl, if_neg hne, walk_concat_of hl.parent, hl.missing]
        exact hfresh i
      · rw [if_neg hp]
        cases hw : walk next root p with
        | none =>
            have hne : p ++ [i] ≠ p₀ ++ [i₀] := fun heq => by
              have hpp : p = p₀ := (List.append_inj' heq rfl).1
              rw [hpp, hl.parent] at hw
              cases hw
            rw [if_neg hne]
            rfl
        | some t =>
            show next' t i = _
            by_cases htt : t = t₀
            · subst htt
              have hpp : p = p₀ := ht p p₀ t (by omega) (Nat.le_of_lt hl.depth) hw hl.parent
              subst hpp
              by_cases hi : i = i₀
              · subst hi
                rw [if_pos rfl, hnew]
              · rw [if_neg (by simpa using hi), hedge i hi]
                rfl
            · have htf : t ≠ fresh := fun heq => hl.unreached p (by omega) (heq ▸ hw)
              have hne : p ++ [i] ≠ p₀ ++ [i₀] := fun heq => by
                have hpp : p = p₀ := (List.append_inj' heq rfl).1
                rw [hpp, hl.parent] at hw
                exact htt (Option.some.inj hw).symm
              rw [if_neg hne, hnode t htt htf]
              rfl

/-- Linking a fresh node keeps a tree. -/
theorem Tree.link [DecidableEq (List ι)] (ht : Tree next root d)
    (hl : Linkable next root d p₀ t₀ i₀ fresh)
    (hwalk : ∀ p : List ι, p.length ≤ d →
      walk next' root p = if p = p₀ ++ [i₀] then some fresh else walk next root p) :
    Tree next' root d := by
  intro p q t hp hq h₁ h₂
  rw [hwalk p hp] at h₁
  rw [hwalk q hq] at h₂
  split at h₁
  next hpe =>
    split at h₂
    next hqe => rw [hpe, hqe]
    next =>
      cases h₁
      exact absurd h₂ (hl.unreached q hq)
  next =>
    split at h₂
    next =>
      cases h₂
      exact absurd h₁ (hl.unreached p hp)
    next => exact ht p q t hp hq h₁ h₂

end Link

/-- A node without edges is a tree. -/
theorem tree_of_no_edges {next : ν → ι → Option ν} {root : ν} (d : Nat)
    (h : ∀ i, next root i = none) : Tree next root d := by
  have hnil : ∀ (p : List ι) (t : ν), walk next root p = some t → p = [] := by
    intro p t hp
    cases p with
    | nil => rfl
    | cons i p => rw [walk, h i] at hp; cases hp
  intro p q t _ _ h₁ h₂
  rw [hnil p t h₁, hnil q t h₂]

end Trie
