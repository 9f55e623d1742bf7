import Avery.Library.Blocks
import Avery.Library.LinkedList
import Avery.Library.Transition
import Avery.Kernel.Types
import Mathlib.Data.List.Perm.Subperm

/-!
# Linked lists

`LinkedList` of `types.h`: nodes with links in both directions, the addresses of the
first and the last node, and a count.  A node is a block of one cell; an access to a node
that was deleted is a fault.

`Represents` ties a list to the values it stands for.  Every operation keeps it
(`exec_ends`), and walking through the nodes from either end gives these values
(`Represents.forward`, `Represents.backward`).
-/

namespace Avery.Utils

open Blocks LinkedList Transition

variable {α : Type}

structure Node (α : Type) where
  value : α
  next : Nat
  prev : Nat

structure LinkedList where
  head : Nat
  tail : Nat
  count : Nat

/-- The list and the blocks of memory. -/
structure ListState (α : Type) where
  list : LinkedList
  store : Store (Node α)

/-! ## The operations -/

def LinkedList.new : LinkedList := ⟨0, 0, 0⟩

def LinkedList.empty (l : LinkedList) : Bool := l.count = 0

/-- A node is changed in its place. -/
def setNode (s : Store (Node α)) (p : Nat) (f : Node α → Node α) :
    Except Fault (Store (Node α)) := do
  let node ← s.read p 0
  s.write p 0 (f node)

/-- `new Node(value)`. -/
def newNode (s : Store (Node α)) (g : Grant (Node α)) (value : α) :
    Except Fault (Nat × Store (Node α)) := do
  let (p, s) ← s.new g 1
  let s ← s.write p 0 ⟨value, 0, 0⟩
  return (p, s)

def pushBack (st : ListState α) (g : Grant (Node α)) (value : α) : Except Fault (ListState α) := do
  let l := st.list
  let (node, s) ← newNode st.store g value
  if l.empty then return ⟨⟨node, node, add64 l.count 1⟩, s⟩
  let s ← setNode s node fun n => { n with prev := l.tail }
  let s ← setNode s l.tail fun n => { n with next := node }
  return ⟨{ l with tail := node, count := add64 l.count 1 }, s⟩

def pushFront (st : ListState α) (g : Grant (Node α)) (value : α) : Except Fault (ListState α) := do
  let l := st.list
  let (node, s) ← newNode st.store g value
  if l.empty then return ⟨⟨node, node, add64 l.count 1⟩, s⟩
  let s ← setNode s node fun n => { n with next := l.head }
  let s ← setNode s l.head fun n => { n with prev := node }
  return ⟨{ l with head := node, count := add64 l.count 1 }, s⟩

def popBack (st : ListState α) : Except Fault (ListState α) := do
  let l := st.list
  if l.empty then return st
  let oldNode := l.tail
  if l.head = l.tail then
    let s ← st.store.delete oldNode
    return ⟨⟨0, 0, sub64 l.count 1⟩, s⟩
  let node ← st.store.read l.tail 0
  let s ← setNode st.store node.prev fun n => { n with next := 0 }
  let s ← s.delete oldNode
  return ⟨{ l with tail := node.prev, count := sub64 l.count 1 }, s⟩

def popFront (st : ListState α) : Except Fault (ListState α) := do
  let l := st.list
  if l.empty then return st
  let oldNode := l.head
  if l.head = l.tail then
    let s ← st.store.delete oldNode
    return ⟨⟨0, 0, sub64 l.count 1⟩, s⟩
  let node ← st.store.read l.head 0
  let s ← setNode st.store node.next fun n => { n with prev := 0 }
  let s ← s.delete oldNode
  return ⟨{ l with head := node.next, count := sub64 l.count 1 }, s⟩

/-- The loop of `clear`.  It deletes a node in every round, so it has fewer rounds than
there are addresses. -/
def clearLoop : Nat → Store (Node α) → Nat → Except Fault (Store (Node α))
  | 0, _, _ => .error .access
  | n + 1, s, current =>
      if current = 0 then .ok s
      else do
        let node ← s.read current 0
        let s ← s.delete current
        clearLoop n s node.next

def clear (st : ListState α) : Except Fault (ListState α) := do
  let s ← clearLoop (2 ^ 64) st.store st.list.head
  return ⟨⟨0, 0, 0⟩, s⟩

def front (st : ListState α) : Except Fault α := do
  let node ← st.store.read st.list.head 0
  return node.value

inductive ListOp (α : Type) where
  | pushBack (value : α)
  | pushFront (value : α)
  | popBack
  | popFront
  | clear

/-- One operation; only a push uses the grant. -/
def exec (st : ListState α) (g : Grant (Node α)) : ListOp α → Except Fault (ListState α)
  | .pushBack value => Utils.pushBack st g value
  | .pushFront value => Utils.pushFront st g value
  | .popBack => Utils.popBack st
  | .popFront => Utils.popFront st
  | .clear => Utils.clear st

/-- What the operations are for. -/
def ListOp.apply (xs : List α) : ListOp α → List α
  | .pushBack value => xs ++ [value]
  | .pushFront value => value :: xs
  | .popBack => xs.dropLast
  | .popFront => xs.tail
  | .clear => []

/-! ## Nodes -/

/-- The node at an address. -/
def NodeAt (s : Store (Node α)) (p : Nat) (node : Node α) : Prop :=
  ∃ b, s p = some b ∧ 0 < b.size ∧ b.cells 0 = node

variable {s : Store (Node α)} {p q : Nat} {node : Node α}

theorem NodeAt.read (h : NodeAt s p node) : s.read p 0 = .ok node := by
  obtain ⟨b, hb, hsize, rfl⟩ := h
  exact Store.read_eq hb hsize

/-- A node is changed, and everything else is as before. -/
theorem NodeAt.setNode (h : NodeAt s p node) (f : Node α → Node α) :
    ∃ s', Utils.setNode s p f = .ok s' ∧ NodeAt s' p (f node) ∧ ∀ q ≠ p, s' q = s q := by
  have hread := h.read
  obtain ⟨b, hb, hsize, rfl⟩ := h
  refine ⟨s.put p (b.set 0 (f (b.cells 0))), ?_, ?_, fun q hq => Store.put_of_ne hq ..⟩
  · rw [Utils.setNode, hread, ok_bind, Store.write_eq hb hsize]
  · exact ⟨_, Store.put_same .., hsize, Block.cells_set ..⟩

theorem NodeAt.congr {s' : Store (Node α)} (h : NodeAt s p node) (heq : s' p = s p) :
    NodeAt s' p node := by
  obtain ⟨b, hb, hrest⟩ := h
  exact ⟨b, heq.trans hb, hrest⟩

theorem newNode_ends (s : Store (Node α)) (g : Grant (Node α)) (value : α) :
    Ends (g.Fresh s) (newNode s g value) fun r =>
      g.Fresh s ∧ r.1 = g.address ∧ NodeAt r.2 g.address ⟨value, 0, 0⟩ ∧
        ∀ q ≠ g.address, r.2 q = s q := by
  unfold newNode
  refine (Store.new_ends fun h => ⟨h, by decide⟩).bind fun r hr => ?_
  obtain ⟨hfresh, -, rfl⟩ := hr
  simp only
  rw [Store.write_eq (Store.put_same ..) Nat.one_pos, ok_bind]
  refine Ends.ok ⟨hfresh, rfl, ?_, fun q hq => ?_⟩
  · exact ⟨_, Store.put_same .., Nat.one_pos, Block.cells_set ..⟩
  · exact (congrFun (Store.put_put ..) q).trans (Store.put_of_ne hq ..)

/-! ## Representation -/

def nextOf (s : Store (Node α)) (p : Nat) : Nat := (s p).elim 0 fun b => (b.cells 0).next
def prevOf (s : Store (Node α)) (p : Nat) : Nat := (s p).elim 0 fun b => (b.cells 0).prev
def valueOf (s : Store (Node α)) (p : Nat) : Option α := (s p).map fun b => (b.cells 0).value

theorem NodeAt.next (h : NodeAt s p node) : nextOf s p = node.next := by
  obtain ⟨b, hb, -, rfl⟩ := h
  rw [nextOf, hb]
  rfl

theorem NodeAt.prev (h : NodeAt s p node) : prevOf s p = node.prev := by
  obtain ⟨b, hb, -, rfl⟩ := h
  rw [prevOf, hb]
  rfl

theorem NodeAt.value (h : NodeAt s p node) : valueOf s p = some node.value := by
  obtain ⟨b, hb, -, rfl⟩ := h
  rw [valueOf, hb]
  rfl

/-- The nodes at the addresses `as` are linked to a list of the values `xs`. -/
structure Represents (st : ListState α) (as : List Nat) (xs : List α) : Prop where
  live : ∀ a ∈ as, ∃ node, NodeAt st.store a node
  values : as.map (valueOf st.store) = xs.map some
  links : Segment (nextOf st.store) (prevOf st.store) 0 as 0
  nodup : as.Nodup
  fits : ∀ a ∈ as, a ≠ 0 ∧ a < 2 ^ 64
  head : st.list.head = first as 0
  tail : st.list.tail = last 0 as
  count : st.list.count = as.length

variable {st : ListState α} {as : List Nat} {xs : List α}

theorem represents_new (s : Store (Node α)) : Represents ⟨LinkedList.new, s⟩ [] [] where
  live _ h := absurd h List.not_mem_nil
  values := rfl
  links := trivial
  nodup := List.nodup_nil
  fits _ h := absurd h List.not_mem_nil
  head := rfl
  tail := rfl
  count := rfl

/-- There are fewer nodes than addresses. -/
theorem length_lt (hnodup : as.Nodup) (hfits : ∀ a ∈ as, a ≠ 0 ∧ a < 2 ^ 64) :
    as.length < 2 ^ 64 := by
  have hsub : as ⊆ List.range' 1 (2 ^ 64 - 1) := by
    intro a ha
    obtain ⟨hpos, hlt⟩ := hfits a ha
    rw [List.mem_range'_1]
    omega
  have hle := (List.subperm_of_subset hnodup hsub).length_le
  rw [List.length_range'] at hle
  omega

theorem Represents.length_eq (h : Represents st as xs) : as.length = xs.length := by
  have hlength := congrArg List.length h.values
  rwa [List.length_map, List.length_map] at hlength

theorem Represents.empty_iff (h : Represents st as xs) : st.list.empty = true ↔ as = [] := by
  rw [LinkedList.empty, decide_eq_true_iff, h.count, List.length_eq_zero_iff]

/-- A list with a node more. -/
theorem Represents.add_count (h : Represents st as xs) {a : Nat} (ha : a ∉ as) (hnull : a ≠ 0)
    (hlt : a < 2 ^ 64) : add64 st.list.count 1 = as.length + 1 := by
  have hlength : (a :: as).length < _ := length_lt (List.nodup_cons.mpr ⟨ha, h.nodup⟩) (by
    intro b hb
    rcases List.mem_cons.mp hb with rfl | hb
    · exact ⟨hnull, hlt⟩
    · exact h.fits b hb)
  rw [List.length_cons] at hlength
  rw [h.count, add64, Words.add, Nat.mod_eq_of_lt hlength]

/-! ## Each operation -/

theorem nextOf_congr {s s' : Store (Node α)} {a : Nat} (h : s' a = s a) : nextOf s' a = nextOf s a := by
  rw [nextOf, h, nextOf]

theorem prevOf_congr {s s' : Store (Node α)} {a : Nat} (h : s' a = s a) : prevOf s' a = prevOf s a := by
  rw [prevOf, h, prevOf]

theorem valueOf_congr {s s' : Store (Node α)} {a : Nat} (h : s' a = s a) :
    valueOf s' a = valueOf s a := by
  rw [valueOf, h, valueOf]

/-- A new address is not one of the list. -/
theorem Represents.fresh (h : Represents st as xs) {g : Grant (Node α)} (hg : g.Fresh st.store) :
    g.address ∉ as := by
  intro hmem
  obtain ⟨node, b, hb, -⟩ := h.live _ hmem
  rw [hg.2.2] at hb
  cases hb

/-- The first node. -/
theorem Represents.single {s : Store (Node α)} {a : Nat} {value : α} (hnode : NodeAt s a ⟨value, 0, 0⟩)
    (hnull : a ≠ 0) (hlt : a < 2 ^ 64) : Represents ⟨⟨a, a, 1⟩, s⟩ [a] [value] where
  live b hb := by
    rw [List.mem_singleton.mp hb]
    exact ⟨_, hnode⟩
  values := congrArg (fun v => [v]) hnode.value
  links := ⟨hnode.prev, hnode.next, trivial⟩
  nodup := List.pairwise_singleton ..
  fits b hb := by
    rw [List.mem_singleton.mp hb]
    exact ⟨hnull, hlt⟩
  head := rfl
  tail := rfl
  count := rfl

/-- The values behind addresses whose nodes kept them. -/
theorem Represents.values_of {s' : Store (Node α)} (h : Represents st as xs)
    (hsame : ∀ a ∈ as, valueOf s' a = valueOf st.store a) : as.map (valueOf s') = xs.map some := by
  rw [← h.values]
  exact List.map_congr_left hsame

theorem mem_snoc {a t : Nat} {pre : List Nat} : a ∈ pre ++ [t] ↔ a ∈ pre ∨ a = t := by
  rw [List.mem_append, List.mem_singleton]

theorem not_mem_pre {t : Nat} {pre : List Nat} (h : (pre ++ [t]).Nodup) : t ∉ pre := by
  intro hmem
  exact (List.nodup_append.mp h).2.2 t hmem t (List.mem_singleton_self t) rfl

/-- A node behind the others. -/
theorem Represents.snoc {pre : List Nat} {t a : Nat} {nt : Node α} {value : α}
    {s' : Store (Node α)} (h : Represents st (pre ++ [t]) xs) (ha : a ∉ pre ++ [t])
    (hnull : a ≠ 0) (hlt : a < 2 ^ 64) (hnt : NodeAt st.store t nt)
    (hnew : NodeAt s' a ⟨value, 0, t⟩) (hlast : NodeAt s' t { nt with next := a })
    (hsame : ∀ q, q ≠ a → q ≠ t → s' q = st.store q) :
    Represents ⟨{ st.list with tail := a, count := (pre ++ [t]).length + 1 }, s'⟩
      (pre ++ [t] ++ [a]) (xs ++ [value]) := by
  have ht := not_mem_pre h.nodup
  have hpre : ∀ b ∈ pre, s' b = st.store b := by
    intro b hb
    refine hsame b ?_ ?_
    · rintro rfl
      exact ha (mem_snoc.mpr (.inl hb))
    · rintro rfl
      exact ht hb
  have hfirst : ∀ n, first (pre ++ [t] ++ [a]) n = first (pre ++ [t]) n := by
    intro n
    rw [List.append_assoc, first_append, first_append pre [t]]
    rfl
  constructor
  · intro b hb
    rcases mem_snoc.mp hb with hb | rfl
    · rcases mem_snoc.mp hb with hb | rfl
      · obtain ⟨node, hnode⟩ := h.live b (mem_snoc.mpr (.inl hb))
        exact ⟨node, hnode.congr (hpre b hb)⟩
      · exact ⟨_, hlast⟩
    · exact ⟨_, hnew⟩
  · have hkept : (pre ++ [t]).map (valueOf s') = xs.map some := by
      refine h.values_of fun b hb => ?_
      rcases mem_snoc.mp hb with hb | rfl
      · exact valueOf_congr (hpre b hb)
      · rw [hlast.value, hnt.value]
    rw [List.map_append, hkept, List.map_append]
    exact congrArg (fun v => xs.map some ++ [v]) hnew.value
  · have hlinks := h.links
    rw [segment_append] at hlinks
    rw [List.append_assoc, segment_append]
    refine ⟨hlinks.1.congr fun b hb => ⟨nextOf_congr (hpre b hb), prevOf_congr (hpre b hb)⟩, ?_⟩
    refine ⟨?_, hlast.next, hnew.prev, hnew.next, trivial⟩
    exact hlast.prev.trans (hnt.prev.symm.trans hlinks.2.1)
  · rw [List.nodup_append]
    refine ⟨h.nodup, List.pairwise_singleton .., ?_⟩
    rintro b hb c hc rfl
    rw [List.mem_singleton.mp hc] at hb
    exact ha hb
  · intro b hb
    rcases mem_snoc.mp hb with hb | rfl
    · exact h.fits b hb
    · exact ⟨hnull, hlt⟩
  · exact h.head.trans (hfirst 0).symm
  · rw [last_append]
    rfl
  · change (pre ++ [t]).length + [a].length = _
    rw [← List.length_append]

theorem pushBack_ends (h : Represents st as xs) (g : Grant (Node α)) (value : α) :
    Ends (g.Fresh st.store) (pushBack st g value) fun st' =>
      ∃ as', Represents st' as' (xs ++ [value]) := by
  unfold pushBack
  refine (newNode_ends st.store g value).bind fun r hr => ?_
  obtain ⟨node, s₁⟩ := r
  obtain ⟨hfresh, rfl, hnode, hsame⟩ := hr
  have hnew := h.fresh hfresh
  obtain ⟨hnull, hlt, -⟩ := hfresh
  simp only at hnode hsame ⊢
  rw [h.add_count hnew hnull hlt]
  by_cases hempty : st.list.empty = true
  · rw [if_pos hempty]
    obtain rfl := h.empty_iff.mp hempty
    obtain rfl := List.length_eq_zero_iff.mp h.length_eq.symm
    exact ⟨_, .single hnode hnull hlt⟩
  · rw [if_neg hempty]
    obtain ⟨pre, t, rfl⟩ := (List.eq_nil_or_concat' as).resolve_left (mt h.empty_iff.mpr hempty)
    have htail : st.list.tail = t := by
      rw [h.tail, last_append]
      rfl
    have hne : t ≠ g.address := fun heq => hnew (mem_snoc.mpr (.inr heq.symm))
    obtain ⟨nt, hnt⟩ := h.live t (mem_snoc.mpr (.inr rfl))
    obtain ⟨s₂, hset₂, hnode₂, hsame₂⟩ := hnode.setNode fun n => { n with prev := st.list.tail }
    obtain ⟨s₃, hset₃, hnode₃, hsame₃⟩ :=
      ((hnt.congr (hsame t hne)).congr (hsame₂ t hne)).setNode fun n => { n with next := g.address }
    rw [hset₂, ok_bind, htail, hset₃, ok_bind]
    rw [htail] at hnode₂
    refine ⟨_, h.snoc hnew hnull hlt hnt (hnode₂.congr (hsame₃ _ hne.symm)) hnode₃ ?_⟩
    intro q hq hqt
    rw [hsame₃ q hqt, hsame₂ q hq, hsame q hq]

/-- A node in front of the others. -/
theorem Represents.cons {post : List Nat} {b a : Nat} {nb : Node α} {value : α}
    {s' : Store (Node α)} (h : Represents st (b :: post) xs) (ha : a ∉ b :: post)
    (hnull : a ≠ 0) (hlt : a < 2 ^ 64) (hnb : NodeAt st.store b nb)
    (hnew : NodeAt s' a ⟨value, b, 0⟩) (hfirst : NodeAt s' b { nb with prev := a })
    (hsame : ∀ q, q ≠ a → q ≠ b → s' q = st.store q) :
    Represents ⟨{ st.list with head := a, count := (b :: post).length + 1 }, s'⟩
      (a :: b :: post) (value :: xs) := by
  have hpost : ∀ c ∈ post, s' c = st.store c := by
    intro c hc
    refine hsame c ?_ ?_
    · rintro rfl
      exact ha (List.mem_cons_of_mem b hc)
    · rintro rfl
      exact (List.nodup_cons.mp h.nodup).1 hc
  constructor
  · intro c hc
    rcases List.mem_cons.mp hc with rfl | hc
    · exact ⟨_, hnew⟩
    · rcases List.mem_cons.mp hc with rfl | hc
      · exact ⟨_, hfirst⟩
      · obtain ⟨node, hnode⟩ := h.live c (List.mem_cons_of_mem b hc)
        exact ⟨node, hnode.congr (hpost c hc)⟩
  · have hkept : (b :: post).map (valueOf s') = xs.map some := by
      refine h.values_of fun c hc => ?_
      rcases List.mem_cons.mp hc with rfl | hc
      · rw [hfirst.value, hnb.value]
      · exact valueOf_congr (hpost c hc)
    rw [List.map_cons, hkept, List.map_cons]
    exact congrArg (· :: xs.map some) hnew.value
  · refine ⟨hnew.prev, hnew.next, h.links.relink h.nodup ?_ ?_⟩
    · intro c hc
      rcases List.mem_cons.mp hc with rfl | hc
      · exact hfirst.next.trans hnb.next.symm
      · exact nextOf_congr (hpost c hc)
    · intro c hc
      rcases List.mem_cons.mp hc with rfl | hc
      · exact hfirst.prev.trans (if_pos rfl).symm
      · have hne : c ≠ b := fun heq => (List.nodup_cons.mp h.nodup).1 (heq ▸ hc)
        exact (prevOf_congr (hpost c hc)).trans (if_neg hne).symm
  · exact List.nodup_cons.mpr ⟨ha, h.nodup⟩
  · intro c hc
    rcases List.mem_cons.mp hc with rfl | hc
    · exact ⟨hnull, hlt⟩
    · exact h.fits c hc
  · rfl
  · exact h.tail
  · rfl

theorem pushFront_ends (h : Represents st as xs) (g : Grant (Node α)) (value : α) :
    Ends (g.Fresh st.store) (pushFront st g value) fun st' =>
      ∃ as', Represents st' as' (value :: xs) := by
  unfold pushFront
  refine (newNode_ends st.store g value).bind fun r hr => ?_
  obtain ⟨node, s₁⟩ := r
  obtain ⟨hfresh, rfl, hnode, hsame⟩ := hr
  have hnew := h.fresh hfresh
  obtain ⟨hnull, hlt, -⟩ := hfresh
  simp only at hnode hsame ⊢
  rw [h.add_count hnew hnull hlt]
  cases as with
  | nil =>
      rw [if_pos (h.empty_iff.mpr rfl)]
      obtain rfl := List.length_eq_zero_iff.mp h.length_eq.symm
      exact ⟨_, .single hnode hnull hlt⟩
  | cons b post =>
      rw [if_neg (mt h.empty_iff.mp (List.cons_ne_nil b post))]
      have hhead : st.list.head = b := h.head
      have hne : b ≠ g.address := fun heq => hnew (heq ▸ List.mem_cons_self)
      obtain ⟨nb, hnb⟩ := h.live b List.mem_cons_self
      obtain ⟨s₂, hset₂, hnode₂, hsame₂⟩ := hnode.setNode fun n => { n with next := st.list.head }
      obtain ⟨s₃, hset₃, hnode₃, hsame₃⟩ :=
        ((hnb.congr (hsame b hne)).congr (hsame₂ b hne)).setNode fun n => { n with prev := g.address }
      rw [hset₂, ok_bind, hhead, hset₃, ok_bind]
      rw [hhead] at hnode₂
      refine ⟨_, h.cons hnew hnull hlt hnb (hnode₂.congr (hsame₃ _ hne.symm)) hnode₃ ?_⟩
      intro q hq hqb
      rw [hsame₃ q hqb, hsame₂ q hq, hsame q hq]

/-- The count of a list with a node less. -/
theorem Represents.sub_count (h : Represents st as xs) (hne : as ≠ []) :
    sub64 st.list.count 1 = as.length - 1 := by
  have hlt := length_lt h.nodup h.fits
  have hpos : as.length ≠ 0 := mt List.length_eq_zero_iff.mp hne
  rw [h.count, sub64, Words.sub_eq hlt (by omega)]

/-- A list without its last node. -/
theorem Represents.unsnoc {pre : List Nat} {u t : Nat} {nu : Node α} {s' : Store (Node α)}
    (h : Represents st (pre ++ [u] ++ [t]) xs) (hnu : NodeAt st.store u nu)
    (hlast : NodeAt s' u { nu with next := 0 })
    (hsame : ∀ q, q ≠ u → q ≠ t → s' q = st.store q) :
    Represents ⟨{ st.list with tail := u, count := (pre ++ [u]).length }, s'⟩
      (pre ++ [u]) xs.dropLast := by
  have hnodup := (List.nodup_append.mp h.nodup).1
  have ht := not_mem_pre h.nodup
  have hu := not_mem_pre hnodup
  have hpre : ∀ b ∈ pre, s' b = st.store b := by
    intro b hb
    refine hsame b ?_ ?_
    · rintro rfl
      exact hu hb
    · rintro rfl
      exact ht (mem_snoc.mpr (.inl hb))
  constructor
  · intro b hb
    rcases mem_snoc.mp hb with hb | rfl
    · obtain ⟨node, hnode⟩ := h.live b (mem_snoc.mpr (.inl (mem_snoc.mpr (.inl hb))))
      exact ⟨node, hnode.congr (hpre b hb)⟩
    · exact ⟨_, hlast⟩
  · have hvalues := congrArg List.dropLast h.values
    rw [List.map_append, List.map_singleton, List.dropLast_concat, ← List.map_dropLast] at hvalues
    rw [← hvalues]
    refine List.map_congr_left fun b hb => ?_
    rcases mem_snoc.mp hb with hb | rfl
    · exact valueOf_congr (hpre b hb)
    · rw [hlast.value, hnu.value]
  · have hlinks := h.links
    rw [List.append_assoc, segment_append] at hlinks
    rw [segment_append]
    refine ⟨hlinks.1.congr fun b hb => ⟨nextOf_congr (hpre b hb), prevOf_congr (hpre b hb)⟩, ?_⟩
    exact ⟨hlast.prev.trans (hnu.prev.symm.trans hlinks.2.1), hlast.next, trivial⟩
  · exact hnodup
  · intro b hb
    exact h.fits b (mem_snoc.mpr (.inl hb))
  · rw [first_append]
    refine h.head.trans ?_
    rw [List.append_assoc, first_append]
    rfl
  · rw [last_append]
    rfl
  · rfl

/-- A list without its only node. -/
theorem Represents.unsingle {t : Nat} (h : Represents st [t] xs) (s' : Store (Node α)) :
    Represents ⟨⟨0, 0, 0⟩, s'⟩ [] [] ∧ xs.tail = [] ∧ xs.dropLast = [] := by
  obtain ⟨x, rfl⟩ := List.length_eq_one_iff.mp h.length_eq.symm
  exact ⟨represents_new s', rfl, rfl⟩

/-- Deleting a node leaves the others alone. -/
theorem NodeAt.delete (h : NodeAt s p node) (hnull : p ≠ 0) :
    ∃ s', s.delete p = .ok s' ∧ ∀ q ≠ p, s' q = s q := by
  obtain ⟨b, hb, -⟩ := h
  exact ⟨_, Store.delete_eq hb hnull, fun q hq => Function.update_of_ne hq ..⟩

theorem first_mem (h : as ≠ []) (n : Nat) : first as n ∈ as := by
  cases as with
  | nil => exact absurd rfl h
  | cons a as => exact List.mem_cons_self

/-- A list without its first node. -/
theorem Represents.uncons {t b : Nat} {post : List Nat} {nb : Node α} {s' : Store (Node α)}
    (h : Represents st (t :: b :: post) xs) (hnb : NodeAt st.store b nb)
    (hfirst : NodeAt s' b { nb with prev := 0 })
    (hsame : ∀ q, q ≠ b → q ≠ t → s' q = st.store q) :
    Represents ⟨{ st.list with head := b, count := (b :: post).length }, s'⟩ (b :: post) xs.tail := by
  obtain ⟨ht, hnodup⟩ := List.nodup_cons.mp h.nodup
  have hpost : ∀ c ∈ post, s' c = st.store c := by
    intro c hc
    refine hsame c ?_ ?_
    · rintro rfl
      exact (List.nodup_cons.mp hnodup).1 hc
    · rintro rfl
      exact ht (List.mem_cons_of_mem b hc)
  constructor
  · intro c hc
    rcases List.mem_cons.mp hc with rfl | hc
    · exact ⟨_, hfirst⟩
    · obtain ⟨node, hnode⟩ := h.live c (List.mem_cons_of_mem t (List.mem_cons_of_mem b hc))
      exact ⟨node, hnode.congr (hpost c hc)⟩
  · have hvalues := congrArg List.tail h.values
    rw [List.map_cons, List.tail_cons, ← List.map_tail] at hvalues
    rw [← hvalues]
    refine List.map_congr_left fun c hc => ?_
    rcases List.mem_cons.mp hc with rfl | hc
    · rw [hfirst.value, hnb.value]
    · exact valueOf_congr (hpost c hc)
  · refine h.links.2.2.relink hnodup ?_ ?_
    · intro c hc
      rcases List.mem_cons.mp hc with rfl | hc
      · exact hfirst.next.trans hnb.next.symm
      · exact nextOf_congr (hpost c hc)
    · intro c hc
      rcases List.mem_cons.mp hc with rfl | hc
      · exact hfirst.prev.trans (if_pos rfl).symm
      · have hne : c ≠ b := fun heq => (List.nodup_cons.mp hnodup).1 (heq ▸ hc)
        exact (prevOf_congr (hpost c hc)).trans (if_neg hne).symm
  · exact hnodup
  · intro c hc
    exact h.fits c (List.mem_cons_of_mem t hc)
  · rfl
  · exact h.tail
  · rfl

theorem last_mem (p b : Nat) (post : List Nat) : last p (b :: post) ∈ b :: post := by
  induction post generalizing p b with
  | nil => exact List.mem_cons_self
  | cons c post ih => exact List.mem_cons_of_mem b (ih b c)

theorem popFront_ends (h : Represents st as xs) :
    Ends True (popFront st) fun st' => ∃ as', Represents st' as' xs.tail := by
  unfold popFront
  cases as with
  | nil =>
      rw [if_pos (h.empty_iff.mpr rfl)]
      obtain rfl := List.length_eq_zero_iff.mp h.length_eq.symm
      exact ⟨_, h⟩
  | cons t post =>
      have hempty := List.cons_ne_nil t post
      rw [if_neg (mt h.empty_iff.mp hempty), h.sub_count hempty]
      have hhead : st.list.head = t := h.head
      have hnull : t ≠ 0 := (h.fits t List.mem_cons_self).1
      obtain ⟨nt, hnt⟩ := h.live t List.mem_cons_self
      cases post with
      | nil =>
          obtain ⟨s', hdelete, -⟩ := hnt.delete hnull
          obtain ⟨hnil, hxs, -⟩ := h.unsingle s'
          rw [if_pos (h.head.trans h.tail.symm), hhead, hdelete, ok_bind, hxs]
          exact ⟨_, hnil⟩
      | cons b post =>
          have hnot := (List.nodup_cons.mp h.nodup).1
          have hne : ¬ st.list.head = st.list.tail := by
            rw [hhead, h.tail]
            intro heq
            exact hnot (heq ▸ last_mem t b post)
          have hnext : nt.next = b := hnt.next.symm.trans h.links.2.1
          obtain ⟨nb, hnb⟩ := h.live b (List.mem_cons_of_mem t List.mem_cons_self)
          have hbt : b ≠ t := fun heq => hnot (heq ▸ List.mem_cons_self)
          obtain ⟨s₁, hset, hnode, hsame⟩ := hnb.setNode fun n => { n with prev := 0 }
          obtain ⟨s₂, hdelete, hsame₂⟩ := (hnt.congr (hsame t hbt.symm)).delete hnull
          rw [if_neg hne, hhead, hnt.read, ok_bind, hnext, hset, ok_bind, hdelete, ok_bind]
          refine ⟨_, h.uncons hnb (hnode.congr (hsame₂ b hbt)) fun q hqb hqt => ?_⟩
          rw [hsame₂ q hqt, hsame q hqb]

/-- The nodes from `p` on are deleted one after the other. -/
theorem clearLoop_ends {s : Store (Node α)} {p n : Nat} (hlive : ∀ a ∈ as, ∃ node, NodeAt s a node)
    (hlinks : Segment (nextOf s) (prevOf s) p as 0) (hnodup : as.Nodup)
    (hfits : ∀ a ∈ as, a ≠ 0 ∧ a < 2 ^ 64) (hn : as.length < n) :
    Ends True (clearLoop n s (first as 0)) fun _ => True := by
  induction n generalizing as s p with
  | zero => exact absurd hn (Nat.not_lt_zero _)
  | succ n ih =>
      rw [clearLoop]
      cases as with
      | nil =>
          rw [first_nil, if_pos rfl]
          exact trivial
      | cons a as =>
          have hnull := (hfits a List.mem_cons_self).1
          obtain ⟨ha, hnodup⟩ := List.nodup_cons.mp hnodup
          obtain ⟨node, hnode⟩ := hlive a List.mem_cons_self
          obtain ⟨s', hdelete, hsame⟩ := hnode.delete hnull
          have hother : ∀ b ∈ as, s' b = s b := fun b hb => hsame b fun heq => ha (heq ▸ hb)
          have hnext : node.next = first as 0 := hnode.next.symm.trans hlinks.2.1
          rw [first_cons, if_neg hnull, hnode.read, ok_bind, hdelete, ok_bind, hnext]
          refine ih (p := a) ?_ ?_ hnodup ?_ (Nat.lt_of_succ_lt_succ hn)
          · intro b hb
            obtain ⟨nb, hnb⟩ := hlive b (List.mem_cons_of_mem a hb)
            exact ⟨nb, hnb.congr (hother b hb)⟩
          · exact hlinks.2.2.congr fun b hb => ⟨nextOf_congr (hother b hb), prevOf_congr (hother b hb)⟩
          · exact fun b hb => hfits b (List.mem_cons_of_mem a hb)

theorem clear_ends (h : Represents st as xs) :
    Ends True (clear st) fun st' => Represents st' [] [] := by
  unfold clear
  rw [h.head]
  refine (clearLoop_ends h.live h.links h.nodup h.fits (length_lt h.nodup h.fits)).bind fun s _ => ?_
  exact represents_new s

theorem popBack_ends (h : Represents st as xs) :
    Ends True (popBack st) fun st' => ∃ as', Represents st' as' xs.dropLast := by
  unfold popBack
  by_cases hempty : st.list.empty = true
  · rw [if_pos hempty]
    obtain rfl := h.empty_iff.mp hempty
    obtain rfl := List.length_eq_zero_iff.mp h.length_eq.symm
    exact ⟨_, h⟩
  · rw [if_neg hempty, h.sub_count (mt h.empty_iff.mpr hempty)]
    obtain ⟨pre, t, rfl⟩ := (List.eq_nil_or_concat' as).resolve_left (mt h.empty_iff.mpr hempty)
    have htail : st.list.tail = t := by
      rw [h.tail, last_append]
      rfl
    have hnull : t ≠ 0 := (h.fits t (mem_snoc.mpr (.inr rfl))).1
    obtain ⟨nt, hnt⟩ := h.live t (mem_snoc.mpr (.inr rfl))
    rcases List.eq_nil_or_concat' pre with rfl | ⟨pre, u, rfl⟩
    · have hhead : st.list.head = st.list.tail := h.head.trans h.tail.symm
      obtain ⟨s', hdelete, -⟩ := hnt.delete hnull
      obtain ⟨hnil, -, hxs⟩ := h.unsingle s'
      rw [if_pos hhead, htail, hdelete, ok_bind, hxs]
      exact ⟨_, hnil⟩
    · have hnot := not_mem_pre h.nodup
      have hne : ¬ st.list.head = st.list.tail := by
        rw [htail, h.head, first_append]
        intro heq
        exact hnot (heq ▸ first_mem (by simp) _)
      have hprev : nt.prev = u := by
        have hlinks := h.links
        rw [segment_append, last_append] at hlinks
        exact hnt.prev.symm.trans hlinks.2.1
      obtain ⟨nu, hnu⟩ := h.live u (mem_snoc.mpr (.inl (mem_snoc.mpr (.inr rfl))))
      have hut : u ≠ t := fun heq => hnot (heq ▸ mem_snoc.mpr (.inr rfl))
      obtain ⟨s₁, hset, hnode, hsame⟩ := hnu.setNode fun n => { n with next := 0 }
      obtain ⟨s₂, hdelete, hsame₂⟩ := (hnt.congr (hsame t hut.symm)).delete hnull
      rw [if_neg hne, htail, hnt.read, ok_bind, hprev, hset, ok_bind, hdelete, ok_bind,
        List.length_append, List.length_singleton, Nat.add_sub_cancel]
      refine ⟨_, h.unsnoc hnu (hnode.congr (hsame₂ u hut)) fun q hqu hqt => ?_⟩
      rw [hsame₂ q hqt, hsame q hqu]

theorem exec_ends (h : Represents st as xs) (g : Grant (Node α)) (op : ListOp α) :
    Ends (g.Fresh st.store) (exec st g op) fun st' => ∃ as', Represents st' as' (op.apply xs) := by
  cases op with
  | pushBack value => exact pushBack_ends h g value
  | pushFront value => exact pushFront_ends h g value
  | popBack => exact (popBack_ends h).always
  | popFront => exact (popFront_ends h).always
  | clear => exact ((clear_ends h).imp fun st' hst' => ⟨[], hst'⟩).always

/-! ## Walking through the nodes -/

/-- Following the links from `p` on gives these values and ends at the null pointer. -/
inductive Follows (s : Store (Node α)) (link : Node α → Nat) : Nat → List α → Prop where
  | nil : Follows s link 0 []
  | cons {p : Nat} {node : Node α} {xs : List α} : p ≠ 0 → s.read p 0 = .ok node →
      Follows s link (link node) xs → Follows s link p (node.value :: xs)

/-- The addresses that links lead to from the ends of the list. -/
inductive Reachable (st : ListState α) : Nat → Prop where
  | head : Reachable st st.list.head
  | tail : Reachable st st.list.tail
  | next {p : Nat} {node : Node α} : Reachable st p → p ≠ 0 → st.store.read p 0 = .ok node →
      Reachable st node.next
  | prev {p : Nat} {node : Node α} : Reachable st p → p ≠ 0 → st.store.read p 0 = .ok node →
      Reachable st node.prev

/-- What a list of these values is to its users. -/
structure Faithful (st : ListState α) (xs : List α) : Prop where
  forward : Follows st.store Node.next st.list.head xs
  backward : Follows st.store Node.prev st.list.tail xs.reverse
  front : xs ≠ [] → ∃ node, st.store.read st.list.head 0 = .ok node ∧ node.prev = 0
  back : xs ≠ [] → ∃ node, st.store.read st.list.tail 0 = .ok node ∧ node.next = 0
  count : st.list.count = xs.length
  live : ∀ p, Reachable st p → p = 0 ∨ ∃ node, st.store.read p 0 = .ok node

theorem follows_next {s : Store (Node α)} (hlive : ∀ a ∈ as, ∃ node, NodeAt s a node)
    (hfits : ∀ a ∈ as, a ≠ 0 ∧ a < 2 ^ 64) (hvalues : as.map (valueOf s) = xs.map some) {p : Nat}
    (hlinks : Segment (nextOf s) (prevOf s) p as 0) : Follows s Node.next (first as 0) xs := by
  induction as generalizing p xs with
  | nil =>
      obtain rfl : xs = [] := by simpa using hvalues.symm
      exact .nil
  | cons a as ih =>
      obtain ⟨node, hnode⟩ := hlive a List.mem_cons_self
      cases xs with
      | nil => cases hvalues
      | cons x xs =>
          obtain ⟨hx, htail⟩ := List.cons.inj hvalues
          obtain rfl : node.value = x := Option.some.inj (hnode.value.symm.trans hx)
          refine .cons (hfits a List.mem_cons_self).1 hnode.read ?_
          rw [← hnode.next, hlinks.2.1]
          exact ih (fun b hb => hlive b (List.mem_cons_of_mem a hb))
            (fun b hb => hfits b (List.mem_cons_of_mem a hb)) htail hlinks.2.2

/-- Backwards from the end of a piece, and then from what is in front of it. -/
theorem follows_prev {s : Store (Node α)} (hlive : ∀ a ∈ as, ∃ node, NodeAt s a node)
    (hfits : ∀ a ∈ as, a ≠ 0 ∧ a < 2 ^ 64) (hvalues : as.map (valueOf s) = xs.map some) {p : Nat}
    (hlinks : Segment (nextOf s) (prevOf s) p as 0) {ys : List α} (hfront : Follows s Node.prev p ys) :
    Follows s Node.prev (last p as) (xs.reverse ++ ys) := by
  induction as generalizing p xs ys with
  | nil =>
      obtain rfl : xs = [] := by simpa using hvalues.symm
      exact hfront
  | cons a as ih =>
      obtain ⟨node, hnode⟩ := hlive a List.mem_cons_self
      cases xs with
      | nil => cases hvalues
      | cons x xs =>
          obtain ⟨hx, htail⟩ := List.cons.inj hvalues
          obtain rfl : node.value = x := Option.some.inj (hnode.value.symm.trans hx)
          rw [List.reverse_cons, List.append_assoc, last_cons]
          refine ih (fun b hb => hlive b (List.mem_cons_of_mem a hb))
            (fun b hb => hfits b (List.mem_cons_of_mem a hb)) htail hlinks.2.2 ?_
          refine .cons (hfits a List.mem_cons_self).1 hnode.read ?_
          rw [← hnode.prev, hlinks.1]
          exact hfront

/-- Links of a piece lead into it or to its neighbours. -/
theorem segment_links {next prev : Nat → Nat} {p n a : Nat} (h : Segment next prev p as n) (ha : a ∈ as) :
    (next a ∈ as ∨ next a = n) ∧ (prev a ∈ as ∨ prev a = p) := by
  induction as generalizing p with
  | nil => cases ha
  | cons b as ih =>
      have hfirst : first as n ∈ b :: as ∨ first as n = n := by
        cases as with
        | nil => exact .inr rfl
        | cons c as => exact .inl (List.mem_cons_of_mem b List.mem_cons_self)
      rcases List.mem_cons.mp ha with rfl | ha
      · rw [h.1, h.2.1]
        exact ⟨hfirst, .inr rfl⟩
      · obtain ⟨hnext, hprev⟩ := ih h.2.2 ha
        refine ⟨hnext.imp_left (List.mem_cons_of_mem b), .inl ?_⟩
        rcases hprev with hprev | hprev
        · exact List.mem_cons_of_mem b hprev
        · exact hprev ▸ List.mem_cons_self

/-- Links lead to nodes of the list or to the null pointer. -/
theorem Represents.reachable (h : Represents st as xs) {p : Nat} (hp : Reachable st p) :
    p = 0 ∨ p ∈ as := by
  have hlink : ∀ {p : Nat} {node : Node α}, (p = 0 ∨ p ∈ as) → p ≠ 0 →
      st.store.read p 0 = .ok node →
      (node.next ∈ as ∨ node.next = 0) ∧ (node.prev ∈ as ∨ node.prev = 0) := by
    intro p node hp hnull hread
    have hmem := hp.resolve_left hnull
    obtain ⟨node', hnode⟩ := h.live p hmem
    cases hnode.read.symm.trans hread
    rw [← hnode.next, ← hnode.prev]
    exact segment_links h.links hmem
  induction hp with
  | head =>
      rw [h.head]
      cases as with
      | nil => exact .inl rfl
      | cons a as => exact .inr List.mem_cons_self
  | tail =>
      rw [h.tail]
      cases as with
      | nil => exact .inl rfl
      | cons a as => exact .inr (last_mem 0 a as)
  | next _ hnull hread ih => exact (hlink ih hnull hread).1.symm
  | prev _ hnull hread ih => exact (hlink ih hnull hread).2.symm

theorem Represents.faithful (h : Represents st as xs) : Faithful st xs where
  forward := by
    rw [h.head]
    exact follows_next h.live h.fits h.values h.links
  backward := by
    rw [h.tail, ← List.append_nil xs.reverse]
    exact follows_prev h.live h.fits h.values h.links .nil
  front hne := by
    cases as with
    | nil => exact absurd (List.length_eq_zero_iff.mp h.length_eq.symm) hne
    | cons a as =>
        obtain ⟨node, hnode⟩ := h.live a List.mem_cons_self
        rw [h.head]
        exact ⟨node, hnode.read, hnode.prev.symm.trans h.links.1⟩
  back hne := by
    rcases List.eq_nil_or_concat' as with rfl | ⟨pre, t, rfl⟩
    · exact absurd (List.length_eq_zero_iff.mp h.length_eq.symm) hne
    · obtain ⟨node, hnode⟩ := h.live t (mem_snoc.mpr (.inr rfl))
      have hlinks := h.links
      rw [segment_append] at hlinks
      rw [h.tail, last_append]
      exact ⟨node, hnode.read, hnode.next.symm.trans hlinks.2.2.1⟩
  count := h.count.trans h.length_eq
  live p hp := by
    refine (h.reachable hp).imp_right fun hmem => ?_
    obtain ⟨node, hnode⟩ := h.live p hmem
    exact ⟨node, hnode.read⟩

/-! ## Runs -/

/-- One operation, with whatever address memory grants. -/
def ListStep (st : ListState α) (op : ListOp α) (st' : ListState α) : Prop :=
  ∃ g, exec st g op = .ok st'

theorem Represents.run {ops : List (ListOp α)} {st' : ListState α} (h : Represents st as xs)
    (hrun : Run ListStep st ops st') : ∃ as', Represents st' as' (ops.foldl ListOp.apply xs) := by
  induction hrun generalizing as xs with
  | nil => exact ⟨as, h⟩
  | cons hstep _ ih =>
      obtain ⟨g, hexec⟩ := hstep
      obtain ⟨as', h'⟩ := (exec_ends h g _).of_ok hexec
      exact ih h'

/-! ## Queues -/

def queuePush (st : ListState α) (g : Grant (Node α)) (value : α) : Except Fault (ListState α) :=
  pushBack st g value

def queuePop (st : ListState α) : Except Fault (Option α × ListState α) := do
  if st.list.empty then return (none, st)
  let value ← front st
  let st ← popFront st
  return (some value, st)

inductive QueueEvent (α : Type) where
  | pushed (value : α)
  | popped (result : Option α)

inductive QueueStep : ListState α → QueueEvent α → ListState α → Prop where
  | push {st st' : ListState α} {g : Grant (Node α)} {value : α} :
      queuePush st g value = .ok st' → QueueStep st (.pushed value) st'
  | pop {st st' : ListState α} {result : Option α} :
      queuePop st = .ok (result, st') → QueueStep st (.popped result) st'

/-- The values that went in, oldest first. -/
def pushedValues : List (QueueEvent α) → List α
  | [] => []
  | .pushed value :: events => value :: pushedValues events
  | .popped _ :: events => pushedValues events

/-- The values that came out, oldest first. -/
def poppedValues : List (QueueEvent α) → List α
  | [] => []
  | .pushed _ :: events => poppedValues events
  | .popped result :: events => result.toList ++ poppedValues events

theorem queuePop_ends (h : Represents st as xs) :
    Ends True (queuePop st) fun r => r.1 = xs.head? ∧ ∃ as', Represents r.2 as' xs.tail := by
  unfold queuePop
  cases as with
  | nil =>
      rw [if_pos (h.empty_iff.mpr rfl)]
      obtain rfl := List.length_eq_zero_iff.mp h.length_eq.symm
      exact ⟨rfl, [], h⟩
  | cons a as =>
      rw [if_neg (mt h.empty_iff.mp (List.cons_ne_nil a as))]
      obtain ⟨node, hnode⟩ := h.live a List.mem_cons_self
      have hfront : front st = .ok node.value := by
        rw [front, show st.list.head = a from h.head, hnode.read]
        rfl
      have hvalue : xs.head? = some node.value := by
        have hhead := congrArg List.head? h.values
        rw [List.map_cons, List.head?_cons, hnode.value, List.head?_map] at hhead
        cases xs with
        | nil => cases hhead
        | cons x xs => exact (Option.some.inj hhead).symm
      rw [hfront, ok_bind, hvalue]
      exact (popFront_ends h).bind fun st' hst' => ⟨rfl, hst'⟩

/-- What has come out, and then what the queue holds, is what went in. -/
theorem Represents.queueRun {events : List (QueueEvent α)} {st' : ListState α}
    (h : Represents st as xs) (hrun : Run QueueStep st events st') :
    ∃ as' ys, Represents st' as' ys ∧ xs ++ pushedValues events = poppedValues events ++ ys := by
  induction hrun generalizing as xs with
  | nil => exact ⟨as, xs, h, List.append_nil xs⟩
  | cons hstep _ ih =>
      cases hstep with
      | push hpush =>
          obtain ⟨as', h'⟩ := (pushBack_ends h _ _).of_ok hpush
          obtain ⟨as'', ys, h'', hvalues⟩ := ih h'
          rw [List.append_assoc] at hvalues
          exact ⟨as'', ys, h'', hvalues⟩
      | pop hpop =>
          obtain ⟨hresult, as', h'⟩ := (queuePop_ends h).of_ok hpop
          obtain ⟨as'', ys, h'', hvalues⟩ := ih h'
          refine ⟨as'', ys, h'', ?_⟩
          simp only at hresult
          change xs ++ pushedValues _ = (_ ++ poppedValues _) ++ ys
          rw [hresult, List.append_assoc, ← hvalues, ← List.append_assoc]
          congr 1
          cases xs <;> rfl

/-- In every run of a list, walking through it from either end gives the values it should
hold, and the next operation makes no wrong access and returns unless memory runs out.
In every run of a queue, values have come out in the order in which they went in, and the
next pop returns nothing iff all of them have come out. -/
theorem lists_faithful (s : Store (Node α)) :
    (∀ ops st, Run ListStep ⟨LinkedList.new, s⟩ ops st →
      Faithful st (ops.foldl ListOp.apply []) ∧
      ∀ op g, Ends (g.Fresh st.store) (exec st g op) fun st' =>
        Faithful st' (op.apply (ops.foldl ListOp.apply []))) ∧
    ∀ events st, Run QueueStep ⟨LinkedList.new, s⟩ events st →
      poppedValues events <+: pushedValues events ∧
      Ends True (queuePop st) fun r =>
        r.1 = none ↔ poppedValues events = pushedValues events := by
  constructor
  · intro ops st hrun
    obtain ⟨as, h⟩ := (represents_new s).run hrun
    refine ⟨h.faithful, fun op g => ?_⟩
    refine (exec_ends h g op).imp fun st' hst' => ?_
    obtain ⟨as', h'⟩ := hst'
    exact h'.faithful
  · intro events st hrun
    obtain ⟨as, xs, h, hvalues⟩ := (represents_new s).queueRun hrun
    rw [List.nil_append] at hvalues
    refine ⟨⟨xs, hvalues.symm⟩, (queuePop_ends h).imp fun r hr => ?_⟩
    rw [hr.1, hvalues, List.head?_eq_none_iff, List.self_eq_append_right]

/-- Two values in one list, granted memory at 16 and 32. -/
theorem lists_faithful_two :
    ∃ st : ListState Nat, Faithful st [2, 1] := by
  have hrun : Run ListStep ⟨LinkedList.new, (Store.empty : Store (Node Nat))⟩
      [.pushBack 1, .pushFront 2] _ :=
    .cons ⟨⟨16, fun _ => ⟨0, 0, 0⟩⟩, rfl⟩ (.cons ⟨⟨32, fun _ => ⟨0, 0, 0⟩⟩, rfl⟩ .nil)
  exact ⟨_, ((lists_faithful Store.empty).1 _ _ hrun).1⟩

end Avery.Utils
