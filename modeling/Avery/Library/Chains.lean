import Mathlib.Data.Finset.Card
import Mathlib.Data.Fintype.EquivFin
import Mathlib.Data.List.Perm.Subperm

/-!
# Chains of a successor function

A walk follows a function from value to value.  When a step can end the walk, the
walks from a value that stay among finitely many values are those that meet no
value twice (`walk_ends_iff`).  Taking away the link of a value a walk has left
takes away nothing it has still to reach (`reaches_iff_erased`).

`Chain next valid stop a xs` says that the walk from `a` visits the values `xs`,
all of them valid, and then meets a value at which it stops.  The list of a chain
is determined by where it begins, has no duplicates, and depends on the links of
its own members only.  Chains are cut (`Chain.cut`) and extended at the end
(`Chain.extend`).
-/

namespace Chains

variable {α : Type*}

/-! ## Walks -/

/-- Where `n` steps from a value lead, if none of them ends the walk. -/
def walk (next : α → Option α) : Nat → α → Option α
  | 0, a => some a
  | n + 1, a => (walk next n a).bind next

variable {next : α → Option α}

theorem walk_add (n m : Nat) (a : α) :
    walk next (n + m) a = (walk next n a).bind (walk next m) := by
  induction m with
  | zero => cases walk next n a <;> rfl
  | succ m ih =>
      rw [← Nat.add_assoc, walk, ih]
      cases walk next n a <;> rfl

theorem walk_succ_left (n : Nat) (a : α) :
    walk next (n + 1) a = (next a).bind (walk next n) := by
  rw [Nat.add_comm, walk_add]
  rfl

/-- A walk that comes back to a value goes on for ever. -/
theorem walk_periodic {a b : α} {m k : Nat} (hm : walk next m a = some b)
    (hk : walk next (m + k) a = some b) (n : Nat) : walk next (m + n * k) a = some b := by
  induction n with
  | zero => simpa using hm
  | succ n ih =>
      rw [walk_add, hm] at hk
      rw [Nat.succ_mul, ← Nat.add_assoc, walk_add, ih]
      exact hk

theorem walk_none_mono {a : α} {m n : Nat} (hmn : m ≤ n) (h : walk next m a = none) :
    walk next n a = none := by
  obtain ⟨k, rfl⟩ := Nat.exists_eq_add_of_le hmn
  rw [walk_add, h]
  rfl

/-- A walk among finitely many values ends if and only if it meets no value
twice. -/
theorem walk_ends_iff [DecidableEq α] {values : Finset α}
    (hvalues : ∀ a b, next a = some b → b ∈ values) (a : α) :
    (∃ n, walk next n a = none) ↔
      ∀ m n b, walk next m a = some b → walk next n a = some b → m = n := by
  constructor
  · rintro ⟨stop, hstop⟩
    have hlt : ∀ m n b, walk next m a = some b → walk next n a = some b → ¬ m < n := by
      intro m n b hm hn hlt
      obtain ⟨k, rfl⟩ := Nat.exists_eq_add_of_le (Nat.le_of_lt hlt)
      have hagain := walk_periodic hm hn stop
      rw [walk_none_mono (Nat.le_trans (Nat.le_mul_of_pos_right stop (by omega))
        (Nat.le_add_left _ _)) hstop] at hagain
      cases hagain
    intro m n b hm hn
    exact Nat.le_antisymm (Nat.not_lt.mp (hlt n m b hn hm)) (Nat.not_lt.mp (hlt m n b hm hn))
  · intro honce
    by_contra hnone
    have hsome : ∀ n, ∃ b, walk next n a = some b := fun n =>
      Option.ne_none_iff_exists'.mp fun h => hnone ⟨n, h⟩
    choose visit hvisit using hsome
    have hmem : ∀ n, visit (n + 1) ∈ values := by
      intro n
      have hstep := hvisit (n + 1)
      rw [walk, hvisit n] at hstep
      exact hvalues _ _ hstep
    have hinj : Function.Injective fun n => (⟨visit (n + 1), hmem n⟩ : values) := by
      intro m n heq
      have hvalue : visit (m + 1) = visit (n + 1) := congrArg Subtype.val heq
      exact Nat.succ.inj (honce _ _ _ (hvisit (m + 1)) (hvalue ▸ hvisit (n + 1)))
    exact not_injective_infinite_finite _ hinj

/-! ## What a walk reaches -/

def Reaches (next : α → Option α) (a b : α) : Prop := ∃ n, walk next n a = some b

theorem Reaches.refl (next : α → Option α) (a : α) : Reaches next a a := ⟨0, rfl⟩

theorem Reaches.step {a b c : α} (h : Reaches next a b) (hnext : next b = some c) :
    Reaches next a c := by
  obtain ⟨n, hn⟩ := h
  exact ⟨n + 1, by rw [walk, hn]; exact hnext⟩

/-- What is reached, by the number of steps. -/
theorem Reaches.induct {a b : α} {P : α → Prop} (h : Reaches next a b) (hfirst : P a)
    (hstep : ∀ x y, Reaches next a x → P x → next x = some y → P y) : P b := by
  obtain ⟨n, hn⟩ := h
  induction n generalizing b with
  | zero =>
      cases hn
      exact hfirst
  | succ n ih =>
      obtain ⟨x, hx, hnext⟩ := Option.bind_eq_some_iff.mp hn
      exact hstep x b ⟨n, hx⟩ (ih hx) hnext

/-- A walk may take away the link of each value as it leaves it: what it reaches is
the value and what it reaches from the next one without that link. -/
theorem reaches_iff_erased {next' : α → Option α} {a : α} (hnone : next' a = none)
    (hsame : ∀ x, Reaches next a x → x ≠ a → next' x = next x) {d : α} :
    Reaches next a d ↔ d = a ∨ ∃ b, next a = some b ∧ Reaches next' b d := by
  constructor
  · intro h
    refine h.induct (P := fun d => d = a ∨ ∃ b, next a = some b ∧ Reaches next' b d) (Or.inl rfl)
      fun x y hreach hx hnext => Or.inr ?_
    by_cases heq : x = a
    · exact ⟨y, heq ▸ hnext, .refl next' y⟩
    · obtain ⟨b, hb, hreach'⟩ := hx.resolve_left heq
      exact ⟨b, hb, hreach'.step ((hsame x hreach heq).trans hnext)⟩
  · rintro (rfl | ⟨b, hb, hreach⟩)
    · exact .refl next d
    · refine hreach.induct (P := Reaches next a) (Reaches.step (.refl next a) hb) fun x y _ hx hnext => hx.step ?_
      have hne : x ≠ a := fun heq => by
        rw [heq, hnone] at hnext
        cases hnext
      rw [← hsame x hx hne, hnext]

def Chain (next : α → α) (valid stop : α → Prop) : α → List α → Prop
  | a, [] => stop a
  | a, x :: xs => x = a ∧ valid a ∧ Chain next valid stop (next a) xs

/-- The first `n` values of a chain. -/
def follow (next : α → α) (valid : α → Prop) [DecidablePred valid] : Nat → α → List α
  | 0, _ => []
  | n + 1, a => if valid a then a :: follow next valid n (next a) else []

section

variable {next next' : α → α} {valid stop : α → Prop}

theorem Chain.valid_of_mem {x : α} :
    ∀ {a : α} {xs : List α}, Chain next valid stop a xs → x ∈ xs → valid x
  | _, [], _, hx => absurd hx (List.not_mem_nil)
  | _, y :: ys, ⟨hy, hvalid, hrest⟩, hx => by
      cases hx with
      | head => exact hy ▸ hvalid
      | tail _ hx => exact hrest.valid_of_mem hx

/-- Which values are valid matters for the members only. -/
theorem Chain.of_mem {valid' : α → Prop} :
    ∀ {a : α} {xs : List α}, Chain next valid stop a xs → (∀ x ∈ xs, valid' x) →
      Chain next valid' stop a xs
  | _, [], hstop, _ => hstop
  | _, x :: _, ⟨hx, _, hrest⟩, hall =>
      ⟨hx, hx ▸ hall x (List.mem_cons_self ..),
        hrest.of_mem fun y hy => hall y (List.mem_cons_of_mem _ hy)⟩

theorem Chain.unique (hexcl : ∀ x, valid x → ¬ stop x) :
    ∀ {a : α} {xs ys : List α}, Chain next valid stop a xs → Chain next valid stop a ys → xs = ys
  | _, [], [], _, _ => rfl
  | _, [], _ :: _, hstop, ⟨_, hvalid, _⟩ => absurd hstop (hexcl _ hvalid)
  | _, _ :: _, [], ⟨_, hvalid, _⟩, hstop => absurd hstop (hexcl _ hvalid)
  | _, x :: xs, y :: ys, ⟨hx, _, hxs⟩, ⟨hy, _, hys⟩ => by
      rw [hx, hy, hxs.unique hexcl hys]

/-- The members from one of them on are the chain of that member. -/
theorem Chain.suffix {y : α} {ys : List α} :
    ∀ {a : α} {xs : List α}, Chain next valid stop a (xs ++ y :: ys) →
      Chain next valid stop y (y :: ys)
  | _, [], ⟨hy, hvalid, hrest⟩ => ⟨rfl, hy ▸ hvalid, hy ▸ hrest⟩
  | _, _ :: _, ⟨_, _, hrest⟩ => hrest.suffix

theorem Chain.nodup (hexcl : ∀ x, valid x → ¬ stop x) :
    ∀ {a : α} {xs : List α}, Chain next valid stop a xs → xs.Nodup
  | _, [], _ => List.nodup_nil
  | a, x :: xs, h => by
      obtain ⟨hx, hvalid, hrest⟩ := h
      refine List.nodup_cons.mpr ⟨fun hmem => ?_, hrest.nodup hexcl⟩
      -- a second `x` would begin a chain shorter than the one of the first
      obtain ⟨ys, zs, rfl⟩ := List.append_of_mem hmem
      have hagain : Chain next valid stop x (x :: zs) := hrest.suffix
      have hfirst : Chain next valid stop x (x :: (ys ++ x :: zs)) := ⟨rfl, hx ▸ hvalid, hx ▸ hrest⟩
      have hlength := congrArg List.length (hfirst.unique hexcl hagain)
      simp at hlength
      omega

theorem Chain.congr :
    ∀ {a : α} {xs : List α}, (∀ x ∈ xs, next' x = next x) → Chain next valid stop a xs →
      Chain next' valid stop a xs
  | _, [], _, hstop => hstop
  | a, x :: xs, hsame, ⟨hx, hvalid, hrest⟩ => by
      refine ⟨hx, hvalid, ?_⟩
      rw [← hx, hsame x (List.mem_cons_self ..), hx]
      exact hrest.congr fun y hy => hsame y (List.mem_cons_of_mem _ hy)

/-- The link of the last member leads to where the chain stops. -/
theorem Chain.stop_last {y : α} :
    ∀ {a : α} {xs : List α}, Chain next valid stop a (xs ++ [y]) → stop (next y)
  | _, [], ⟨hy, _, hstop⟩ => hy ▸ hstop
  | _, _ :: _, ⟨_, _, hrest⟩ => hrest.stop_last

/-- The link of a member that is not the last leads to the next one. -/
theorem Chain.link {y z : α} {zs : List α} :
    ∀ {a : α} {xs : List α}, Chain next valid stop a (xs ++ y :: z :: zs) → next y = z
  | _, [], ⟨hy, _, hz, _⟩ => hy ▸ hz.symm
  | _, _ :: _, ⟨_, _, hrest⟩ => hrest.link

/-- Ending a chain at one of its members. -/
theorem Chain.cut {y : α} {ys : List α} (hstop : stop (next' y)) :
    ∀ {a : α} {xs : List α}, (∀ x ∈ xs, next' x = next x) →
      Chain next valid stop a (xs ++ y :: ys) → Chain next' valid stop a (xs ++ [y])
  | _, [], _, ⟨hy, hvalid, _⟩ => ⟨hy, hvalid, hy ▸ hstop⟩
  | _, x :: xs, hsame, ⟨hx, hvalid, hrest⟩ => by
      refine ⟨hx, hvalid, ?_⟩
      rw [← hx, hsame x (List.mem_cons_self ..), hx]
      exact hrest.cut hstop fun z hz => hsame z (List.mem_cons_of_mem _ hz)

/-- Linking one more value behind the last member. -/
theorem Chain.extend {y z : α} (hlink : next' y = z) (hz : valid z) (hstop : stop (next' z)) :
    ∀ {a : α} {xs : List α}, (∀ x ∈ xs, next' x = next x) →
      Chain next valid stop a (xs ++ [y]) → Chain next' valid stop a (xs ++ [y, z])
  | _, [], _, ⟨hy, hvalid, _⟩ => ⟨hy, hvalid, hy ▸ hlink.symm, hy ▸ hlink ▸ hz, hy ▸ hlink ▸ hstop⟩
  | _, x :: xs, hsame, ⟨hx, hvalid, hrest⟩ => by
      refine ⟨hx, hvalid, ?_⟩
      rw [← hx, hsame x (List.mem_cons_self ..), hx]
      exact hrest.extend hlink hz hstop fun w hw => hsame w (List.mem_cons_of_mem _ hw)

theorem Chain.length_le [DecidableEq α] (hexcl : ∀ x, valid x → ¬ stop x) {values : Finset α}
    (hvalues : ∀ x, valid x → x ∈ values) {a : α} {xs : List α}
    (h : Chain next valid stop a xs) : xs.length ≤ values.card := by
  rw [← List.toFinset_card_of_nodup (h.nodup hexcl)]
  refine Finset.card_le_card fun x hx => ?_
  exact hvalues x (h.valid_of_mem (List.mem_toFinset.mp hx))

theorem Chain.follow_eq [DecidablePred valid] (hexcl : ∀ x, valid x → ¬ stop x) :
    ∀ {a : α} {xs : List α} {n : Nat}, Chain next valid stop a xs → xs.length ≤ n →
      follow next valid n a = xs
  | _, [], 0, _, _ => rfl
  | a, [], n + 1, hstop, _ => if_neg fun hvalid => hexcl a hvalid hstop
  | _, x :: xs, n + 1, ⟨hx, hvalid, hrest⟩, hn => by
      rw [follow, if_pos hvalid, hrest.follow_eq hexcl (Nat.le_of_succ_le_succ hn), hx]

end

/-- Numbers that link to their successors. -/
theorem chain_range' {next : Nat → Nat} {valid stop : Nat → Prop} {n a : Nat}
    (hvalid : ∀ i < n + 1, valid (a + i)) (hnext : ∀ i < n, next (a + i) = a + i + 1)
    (hstop : stop (next (a + n))) : Chain next valid stop a (List.range' a (n + 1)) := by
  induction n generalizing a with
  | zero => exact ⟨rfl, hvalid 0 (Nat.succ_pos 0), hstop⟩
  | succ n ih =>
      rw [List.range'_succ]
      refine ⟨rfl, hvalid 0 (Nat.succ_pos _), ?_⟩
      rw [show next a = a + 1 from hnext 0 (Nat.succ_pos n)]
      refine ih (fun i hi => ?_) (fun i hi => ?_) ?_
      · rw [Nat.add_assoc, Nat.add_comm 1]
        exact hvalid (i + 1) (Nat.succ_lt_succ hi)
      · rw [Nat.add_assoc, Nat.add_comm 1]
        exact hnext (i + 1) (Nat.succ_lt_succ hi)
      · rw [Nat.add_assoc, Nat.add_comm 1]
        exact hstop

end Chains
