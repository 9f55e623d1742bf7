import Avery.Library.Blocks
import Mathlib.Data.Option.Defs

/-!
# Objects that own a block

Several objects live in one store, and each owns the block at its pointer, or none when
its pointer is null.  `Owned` says that every object stands for its value and that no
block has two owners.  An operation on one object keeps it if it leaves all other blocks
alone and takes its new block, if any, from the free addresses (`Frame`, `Owned.update`).
-/

namespace Blocks

variable {α β γ : Type}

/-- The objects by their names, and the blocks of memory. -/
structure Objects (β α : Type) where
  objs : Nat → Option β
  store : Store α

/-- An owner of the block at `p` changes this block only, and then owns the one at `p'`. -/
structure Frame (s s' : Store α) (p p' : Nat) : Prop where
  same : ∀ q, q ≠ 0 → q ≠ p → s q ≠ none → s' q = s q
  owner : p' = 0 ∨ p' = p ∨ s p' = none

theorem Frame.refl (s : Store α) (p : Nat) : Frame s s p p where
  same _ _ _ _ := rfl
  owner := .inr (.inl rfl)

theorem Frame.trans {s s' s'' : Store α} {p p' p'' : Nat} (h : Frame s s' p p')
    (h' : Frame s' s'' p' p'') : Frame s s'' p p'' where
  same q hnull hq hlive := by
    have hne : q ≠ p' := by
      rintro rfl
      rcases h.owner with heq | heq | heq
      · exact hnull heq
      · exact hq heq
      · exact hlive heq
    have hsame := h.same q hnull hq hlive
    rw [h'.same q hnull hne (hsame ▸ hlive), hsame]
  owner := by
    by_cases hnull : p'' = 0
    · exact .inl hnull
    by_cases heq : p'' = p
    · exact .inr (.inl heq)
    refine .inr (.inr ?_)
    by_contra hlive
    rcases h'.owner with hzero | rfl | hnone
    · exact hnull hzero
    · rcases h.owner with hzero | hsame | hnone
      · exact hnull hzero
      · exact heq hsame
      · exact hlive hnone
    · exact hlive (h.same p'' hnull heq hlive ▸ hnone)

/-- Its own block is changed in place. -/
theorem Frame.put (s : Store α) (p : Nat) (b : Block α) : Frame s (s.put p b) p p where
  same _ _ hq _ := Store.put_of_ne hq ..
  owner := .inr (.inl rfl)

/-- A new block in the place of the old one. -/
theorem Frame.replace {s : Store α} {p a : Nat} (hfree : s a = none) (b : Block α) {s' : Store α}
    (hdelete : ∀ q, q ≠ p → s' q = s.put a b q) : Frame s s' p a where
  same q _ hq hlive := by
    have hne : q ≠ a := fun heq => hlive (heq ▸ hfree)
    rw [hdelete q hq, Store.put_of_ne hne]
  owner := .inr (.inr hfree)

/-- The old block is deleted. -/
theorem Frame.delete {s s' : Store α} {p : Nat} (h : ∀ q, q ≠ p → s' q = s q) : Frame s s' p 0 where
  same q _ hq _ := h q hq
  owner := .inl rfl

/-- A kind of object: where its block is, and which values it stands for. -/
structure Kind (β α γ : Type) where
  ptr : β → Nat
  Rep : Store α → β → γ → Prop
  live : ∀ {s b x}, Rep s b x → ptr b ≠ 0 → s (ptr b) ≠ none
  congr : ∀ {s s' b x}, Rep s b x → (ptr b ≠ 0 → s' (ptr b) = s (ptr b)) → Rep s' b x

/-- Every object stands for its value, and no block has two owners. -/
structure Owned (k : Kind β α γ) (st : Objects β α) (abs : Nat → Option γ) : Prop where
  rep : ∀ i, Option.Rel (k.Rep st.store) (st.objs i) (abs i)
  apart : ∀ {i j b c}, i ≠ j → st.objs i = some b → st.objs j = some c → k.ptr b ≠ 0 →
    k.ptr b ≠ k.ptr c

namespace Owned

variable {k : Kind β α γ} {st : Objects β α} {abs : Nat → Option γ}

theorem get {i : Nat} {b : β} (h : Owned k st abs) (hi : st.objs i = some b) :
    ∃ x, abs i = some x ∧ k.Rep st.store b x := by
  have hrel := h.rep i
  rw [hi] at hrel
  cases hx : abs i with
  | none =>
      rw [hx] at hrel
      cases hrel
  | some x =>
      rw [hx] at hrel
      cases hrel with
      | some hrep => exact ⟨x, rfl, hrep⟩

theorem get_none {i : Nat} (h : Owned k st abs) (hi : st.objs i = none) : abs i = none := by
  have hrel := h.rep i
  rw [hi] at hrel
  cases hx : abs i with
  | none => rfl
  | some x =>
      rw [hx] at hrel
      cases hrel

/-- The object `i` is replaced, in a store that keeps the blocks of the others. -/
theorem put (h : Owned k st abs) {i : Nat} {b' : β} {x' : γ} {s' : Store α} (hrep : k.Rep s' b' x')
    (hother : ∀ j c, j ≠ i → st.objs j = some c → k.ptr c ≠ 0 →
      s' (k.ptr c) = st.store (k.ptr c) ∧ k.ptr c ≠ k.ptr b') :
    Owned k ⟨Function.update st.objs i (some b'), s'⟩ (Function.update abs i (some x')) where
  rep j := by
    rcases eq_or_ne j i with rfl | hj
    · simp only [Function.update_self]
      exact .some hrep
    · simp only [Function.update_of_ne hj]
      cases hc : st.objs j with
      | none =>
          rw [h.get_none hc]
          exact .none
      | some c =>
          obtain ⟨y, hy, hold⟩ := h.get hc
          rw [hy]
          exact .some (k.congr hold fun hnull => (hother j c hj hc hnull).1)
  apart {j l b c} hne hj hl hnull := by
    simp only at hj hl
    rcases eq_or_ne j i with rfl | hji
    · rw [Function.update_self] at hj
      rw [Function.update_of_ne hne.symm] at hl
      cases hj
      intro heq
      exact (hother l c hne.symm hl (heq ▸ hnull)).2 heq.symm
    · rw [Function.update_of_ne hji] at hj
      rcases eq_or_ne l i with rfl | hli
      · rw [Function.update_self] at hl
        cases hl
        exact (hother j b hji hj hnull).2
      · rw [Function.update_of_ne hli] at hl
        exact h.apart hne hj hl hnull

/-- The object `i` is no more. -/
theorem drop (h : Owned k st abs) (i : Nat) :
    Owned k ⟨Function.update st.objs i none, st.store⟩ (Function.update abs i none) where
  rep j := by
    rcases eq_or_ne j i with rfl | hj
    · simp only [Function.update_self]
      exact .none
    · simp only [Function.update_of_ne hj]
      exact h.rep j
  apart {j l b c} hne hj hl hnull := by
    simp only at hj hl
    have hji : j ≠ i := by
      rintro rfl
      rw [Function.update_self] at hj
      cases hj
    have hli : l ≠ i := by
      rintro rfl
      rw [Function.update_self] at hl
      cases hl
    rw [Function.update_of_ne hji] at hj
    rw [Function.update_of_ne hli] at hl
    exact h.apart hne hj hl hnull

/-- An operation on one object. -/
theorem update (h : Owned k st abs) {i : Nat} {b b' : β} {x' : γ} {s' : Store α}
    (hi : st.objs i = some b) (hframe : Frame st.store s' (k.ptr b) (k.ptr b'))
    (hrep : k.Rep s' b' x') :
    Owned k ⟨Function.update st.objs i (some b'), s'⟩ (Function.update abs i (some x')) := by
  refine h.put hrep fun j c hj hc hnull => ?_
  obtain ⟨y, -, hold⟩ := h.get hc
  have hlive := k.live hold hnull
  have hne : k.ptr c ≠ k.ptr b := h.apart hj hc hi hnull
  refine ⟨hframe.same _ hnull hne hlive, fun heq => ?_⟩
  rcases hframe.owner with hzero | hsame | hnone
  · exact hnull (heq.trans hzero)
  · exact hne (heq.trans hsame)
  · exact hlive (heq ▸ hnone)

/-- A new object. -/
theorem create (h : Owned k st abs) (i : Nat) {b' : β} {x' : γ} {s' : Store α}
    (hframe : Frame st.store s' 0 (k.ptr b')) (hrep : k.Rep s' b' x') :
    Owned k ⟨Function.update st.objs i (some b'), s'⟩ (Function.update abs i (some x')) := by
  refine h.put hrep fun j c hj hc hnull => ?_
  obtain ⟨y, -, hold⟩ := h.get hc
  have hlive := k.live hold hnull
  refine ⟨hframe.same _ hnull hnull hlive, fun heq => ?_⟩
  rcases hframe.owner with hzero | hzero | hnone
  · exact hnull (heq.trans hzero)
  · exact hnull (heq.trans hzero)
  · exact hlive (heq ▸ hnone)

/-- The object `i` takes over the block of the object `j`, which gets a new one or none.
The old block of `i` may change, or become that of `j`. -/
theorem move (h : Owned k st abs) {i j p : Nat} {c b' c' : β} {x' y' : γ} {s' : Store α}
    (hne : i ≠ j) (hp : ∀ b, st.objs i = some b → k.ptr b = p) (hnone : st.objs i = none → p = 0)
    (hj : st.objs j = some c) (hptr : k.ptr b' = k.ptr c)
    (hframe : Frame st.store s' p (k.ptr c'))
    (hi' : k.Rep s' b' x') (hj' : k.Rep s' c' y') :
    Owned k ⟨Function.update (Function.update st.objs j (some c')) i (some b'), s'⟩
      (Function.update (Function.update abs j (some y')) i (some x')) := by
  have hlive : ∀ {l d}, st.objs l = some d → k.ptr d ≠ 0 → st.store (k.ptr d) ≠ none := by
    intro l d hl hnull
    obtain ⟨y, -, hold⟩ := h.get hl
    exact k.live hold hnull
  have hold : ∀ {l d}, l ≠ i → st.objs l = some d → k.ptr d ≠ 0 → k.ptr d ≠ p := by
    intro l d hli hl hnull
    cases hi : st.objs i with
    | none => exact (hnone hi).symm ▸ hnull
    | some b => exact hp b hi ▸ h.apart hli hl hi hnull
  have hsame : ∀ {l d}, l ≠ i → st.objs l = some d → k.ptr d ≠ 0 →
      s' (k.ptr d) = st.store (k.ptr d) := by
    intro l d hli hl hnull
    exact hframe.same _ hnull (hold hli hl hnull) (hlive hl hnull)
  have hother : ∀ {l d}, l ≠ i → st.objs l = some d → k.ptr d ≠ 0 → k.ptr d ≠ k.ptr c' := by
    intro l d hli hl hnull heq
    rcases hframe.owner with hzero | hsame | hfree
    · exact hnull (heq.trans hzero)
    · exact hold hli hl hnull (heq.trans hsame)
    · exact hlive hl hnull (heq ▸ hfree)
  have hdropped := (h.drop i).put (i := j) hj' fun l d hlj hl hnull => by
    have hli : l ≠ i := by
      rintro rfl
      simp only [Function.update_self] at hl
      cases hl
    simp only [Function.update_of_ne hli] at hl
    exact ⟨hsame hli hl hnull, hother hli hl hnull⟩
  have hmoved := hdropped.put (i := i) hi' fun l d hli hl hnull => by
    refine ⟨rfl, ?_⟩
    rw [hptr]
    rcases eq_or_ne l j with rfl | hlj
    · simp only [Function.update_self] at hl
      cases hl
      intro heq
      exact hother (Ne.symm hne) hj (heq ▸ hnull) heq.symm
    · simp only [Function.update_of_ne hlj, Function.update_of_ne hli] at hl
      exact h.apart hlj hl hj hnull
  have hobjs : Function.update (Function.update (Function.update st.objs i none) j (some c')) i
      (some b') = Function.update (Function.update st.objs j (some c')) i (some b') := by
    rw [Function.update_comm hne, Function.update_idem]
  have habs : Function.update (Function.update (Function.update abs i none) j (some y')) i
      (some x') = Function.update (Function.update abs j (some y')) i (some x') := by
    rw [Function.update_comm hne, Function.update_idem]
  rwa [hobjs, habs] at hmoved

/-- The object `i` is destroyed, and its block with it. -/
theorem destroy (h : Owned k st abs) {i : Nat} {b : β} (hi : st.objs i = some b) {s' : Store α}
    (hsame : ∀ q, q ≠ k.ptr b → s' q = st.store q) :
    Owned k ⟨Function.update st.objs i none, s'⟩ (Function.update abs i none) where
  rep j := by
    rcases eq_or_ne j i with rfl | hj
    · simp only [Function.update_self]
      exact .none
    · simp only [Function.update_of_ne hj]
      cases hc : st.objs j with
      | none =>
          rw [h.get_none hc]
          exact .none
      | some c =>
          obtain ⟨y, hy, hold⟩ := h.get hc
          rw [hy]
          exact .some (k.congr hold fun hnull => hsame _ (h.apart hj hc hi hnull))
  apart := (h.drop i).apart

end Owned

/-! ## Operations on one of the objects -/

namespace Objects

/-- No object, and the store as it is. -/
def empty (s : Store α) : Objects β α := ⟨fun _ => none, s⟩

/-- What `f` does with the object `i`, if there is one. -/
def use (st : Objects β α) (i : Nat) (f : β → Except Fault (Objects β α)) :
    Except Fault (Objects β α) :=
  match st.objs i with
  | none => .ok st
  | some b => f b

/-- A new object `i`, if there is none. -/
def create (st : Objects β α) (i : Nat) (f : Store α → Except Fault (β × Store α)) :
    Except Fault (Objects β α) :=
  match st.objs i with
  | some _ => .ok st
  | none => do
      let (b, s) ← f st.store
      return ⟨Function.update st.objs i (some b), s⟩

def change (st : Objects β α) (i : Nat) (f : Store α → β → Except Fault (β × Store α)) :
    Except Fault (Objects β α) :=
  st.use i fun b => do
    let (b, s) ← f st.store b
    return ⟨Function.update st.objs i (some b), s⟩

end Objects

/-- The values of the objects. -/
abbrev Values (γ : Type) : Type := Nat → Option γ

namespace Values

def use (abs : Values γ) (i : Nat) (f : γ → Values γ) : Values γ :=
  match abs i with
  | none => abs
  | some x => f x

def create (abs : Values γ) (i : Nat) (x : γ) : Values γ :=
  match abs i with
  | some _ => abs
  | none => Function.update abs i (some x)

def change (abs : Values γ) (i : Nat) (f : γ → γ) : Values γ :=
  abs.use i fun x => Function.update abs i (some (f x))

end Values

namespace Owned

variable {k : Kind β α γ} {st : Objects β α} {abs : Values γ} {available : Prop}

theorem empty (k : Kind β α γ) (s : Store α) : Owned k (Objects.empty s) fun _ => none where
  rep _ := .none
  apart _ hi := by cases hi

theorem use_ends (h : Owned k st abs) (i : Nat) {f : β → Except Fault (Objects β α)}
    {g : γ → Values γ}
    (hf : ∀ b x, st.objs i = some b → abs i = some x → k.Rep st.store b x →
      Ends available (f b) fun st' => Owned k st' (g x)) :
    Ends available (st.use i f) fun st' => Owned k st' (abs.use i g) := by
  unfold Objects.use Values.use
  cases hi : st.objs i with
  | none =>
      rw [h.get_none hi]
      exact h
  | some b =>
      obtain ⟨x, hx, hrep⟩ := h.get hi
      rw [hx]
      exact hf b x hi hx hrep

theorem create_ends (h : Owned k st abs) (i : Nat) {f : Store α → Except Fault (β × Store α)} {x : γ}
    (hf : Ends available (f st.store) fun r => k.Rep r.2 r.1 x ∧ Frame st.store r.2 0 (k.ptr r.1)) :
    Ends available (st.create i f) fun st' => Owned k st' (abs.create i x) := by
  unfold Objects.create Values.create
  cases hi : st.objs i with
  | some b =>
      obtain ⟨y, hy, -⟩ := h.get hi
      rw [hy]
      exact h
  | none =>
      rw [h.get_none hi]
      exact hf.bind fun r hr => h.create i hr.2 hr.1

theorem change_ends (h : Owned k st abs) (i : Nat) {f : Store α → β → Except Fault (β × Store α)}
    {g : γ → γ}
    (hf : ∀ b x, st.objs i = some b → abs i = some x → k.Rep st.store b x →
      Ends available (f st.store b) fun r =>
        k.Rep r.2 r.1 (g x) ∧ Frame st.store r.2 (k.ptr b) (k.ptr r.1)) :
    Ends available (st.change i f) fun st' => Owned k st' (abs.change i g) :=
  h.use_ends i fun b x hi hx hrep => (hf b x hi hx hrep).bind fun _ hr =>
    Ends.ok (h.update hi hr.2 hr.1)

end Owned

end Blocks
