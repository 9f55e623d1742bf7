import Avery.Fs.Removal

/-!
# What a change leaves reachable

The directories below the root before and after a change of the volume, and the entries that
are still there.  A directory passes for empty when it lists dot names only, and a long name
may be a dot name.  The entries that are sure to stay are those that are named properly all
the way from the root (`Keeps`).
-/

namespace Avery.Fat32

namespace Disk

variable {d d' d'' : Disk} {held held' : Nat × Nat → Option Nat} {D : Nat → Prop}

/-! ## Reachable directories -/

/-- The directories that children with a property lead to. -/
inductive Through (d : Disk) (P : Nat → Listed → Prop) : Nat → Prop
  | root : Through d P d.root
  | child {x : Nat} {p : Listed} : Through d P x → d.Child x p → P x p → Through d P p.firstCluster

/-- In the root, or without a dot name. -/
def Proper (d : Disk) (x : Nat) (p : Listed) : Prop := x = d.root ∨ isDotEntry p.name = false

theorem Through.reachable {P : Nat → Listed → Prop} {c : Nat} (h : d.Through P c) :
    d.Reachable c := by
  induction h with
  | root => exact .root
  | child _ hp _ ih => exact .child ih hp

theorem Reachable.through {c : Nat} (h : d.Reachable c) : d.Through (fun _ _ => True) c := by
  induction h with
  | root => exact .root
  | child _ hp ih => exact .child ih hp trivial

namespace SameTree

theorem through (h : SameTree d d' D) (hd : d.WellFormedOn held D) {P : Nat → Listed → Prop}
    {c : Nat} (hc : d.Through P c) : d'.Through P c := by
  induction hc with
  | root => exact h.shape.root ▸ .root
  | child hx hp hname ih =>
      exact .child ih ⟨(h.entry (hd.reachable hx.reachable)).mpr hp.entry, hp.directory, hp.first⟩
        hname

theorem reachable_iff (h : SameTree d d' D) (hd : d.WellFormedOn held D) {c : Nat} :
    d'.Reachable c ↔ d.Reachable c := by
  refine ⟨fun hc => ?_, fun hc => (h.through hd hc.through).reachable⟩
  induction hc with
  | root => exact h.shape.root ▸ .root
  | child _ hp ih => exact .child ih (h.child (hd.reachable ih) hp)

end SameTree

namespace Rewrite

variable {x : Nat} {s s' : Slot} {old new : List Listed}

/-- An entry at the place of the slot is the old one. -/
theorem mem_old (h : Rewrite d x s s' old new d') (hd : d.WellFormedOn held D) (hx : D x) {y : Nat}
    (hy : D y) {p : Listed} (hp : p ∈ d.listing y) (hplace : p.place = s.place) :
    y = x ∧ p ∈ old := by
  have hcluster : p.slot.cluster = s.cluster := congrArg Prod.fst hplace
  have hyx : y = x := Owner.directory.inj (hd.apart (.directory hy) (.directory hx)
    (mem_chain_of_listed hp) (hcluster ▸ h.inside))
  subst hyx
  refine ⟨rfl, ?_⟩
  obtain ⟨before, after, hslots, _, hkind, hlfn, hindex⟩ := listing_mem hp
  obtain ⟨before', long, after', _, hslots', _, rfl, _⟩ := h.slots
  obtain ⟨rfl, hps, _⟩ := split_unique (hd.nodup hy) hslots hslots' hplace
  rw [entryAt, if_pos (hps ▸ hkind), List.mem_singleton]
  obtain ⟨slot, lfn, index⟩ := p
  simp only at hps hlfn hindex
  rw [hps, hlfn, hindex, Nat.zero_add]

/-- A directory is still led to when a child that goes leaves another one for its clusters. -/
theorem through (h : Rewrite d x s s' old new d') (hd : d.WellFormedOn held D) (hx : D x)
    {P : Nat → Listed → Prop}
    (hold : ∀ p ∈ old, d.Child x p → P x p → ∃ p' ∈ new, p'.IsDirectory ∧
      p'.firstCluster = p.firstCluster ∧ (x = d.root ∨ ¬ p'.slot.IsDot) ∧ P x p') {c : Nat}
    (hc : d.Through P c) : d'.Through P c := by
  induction hc with
  | root => exact h.shape.root ▸ .root
  | @child y p hy hp hname ih =>
      have hy' := hd.reachable hy.reachable
      by_cases hplace : p.place = s.place
      · obtain ⟨rfl, hmem⟩ := h.mem_old hd hx hy' hp.entry.listed hplace
        obtain ⟨p', hp', hdir, hfirst, hreal, hname'⟩ := hold p hmem hp hname
        have hentry : d'.Entry y p' := (h.entry_iff hd hx hx).mpr (.inr ⟨rfl, hp', hreal⟩)
        exact hfirst ▸ .child ih ⟨hentry, hdir, hfirst.symm ▸ hp.first⟩ hname'
      · have hentry : d'.Entry y p := (h.entry_iff hd hx hy').mpr (.inl ⟨hp.entry, hplace⟩)
        exact .child ih ⟨hentry, hp.directory, hp.first⟩ hname

theorem reachable (h : Rewrite d x s s' old new d') (hd : d.WellFormedOn held D) (hx : D x)
    (hold : ∀ p ∈ old, d.Child x p → ∃ p' ∈ new, p'.IsDirectory ∧
      p'.firstCluster = p.firstCluster ∧ (x = d.root ∨ ¬ p'.slot.IsDot)) {c : Nat}
    (hc : d.Reachable c) : d'.Reachable c := by
  refine (h.through hd hx (fun p hp hchild _ => ?_) hc.through).reachable
  obtain ⟨p', hp', hdir, hfirst, hreal⟩ := hold p hp hchild
  exact ⟨p', hp', hdir, hfirst, hreal, trivial⟩

/-- Without an entry, the directories are led to that do not lie behind it. -/
theorem through_removed {p : Listed} (h : Rewrite d x p.slot s' [p] [] d')
    (hd : d.WellFormedOn held D) (hx : D x) {P : Nat → Listed → Prop}
    (hempty : d.Child x p → ∀ q, d.Entry p.firstCluster q → ¬ P p.firstCluster q) {c : Nat}
    (hc : d.Through P c) (hne : d.Child x p → c ≠ p.firstCluster) : d'.Through P c := by
  induction hc with
  | root => exact h.shape.root ▸ .root
  | @child y q hy hq hname ih =>
      have hy' := hd.reachable hy.reachable
      have hplace : q.place ≠ p.slot.place := by
        intro heq
        obtain ⟨rfl, hmem⟩ := h.mem_old hd hx hy' hq.entry.listed heq
        cases List.mem_singleton.mp hmem
        exact hne hq rfl
      have hentry : d'.Entry y q := (h.entry_iff hd hx hy').mpr (.inl ⟨hq.entry, hplace⟩)
      refine .child (ih fun hp heq => ?_) ⟨hentry, hq.directory, hq.first⟩ hname
      exact hempty hp q (heq ▸ hq.entry) (heq ▸ hname)

end Rewrite

/-! ## Entries that stay -/

/-- The entries with a proper path stay where they are, except the one at a place. -/
def Keeps (d d' : Disk) (place : Option (Nat × Nat)) : Prop :=
  ∀ x p, d.Through d.Proper x → d.Entry x p → d.Proper x p → some p.place ≠ place →
    d'.Through d'.Proper x ∧ d'.Entry x p

theorem Keeps.refl (d : Disk) (place : Option (Nat × Nat)) : Keeps d d place :=
  fun _ _ hx hp _ _ => ⟨hx, hp⟩

theorem proper_congr (h : d'.root = d.root) : d'.Proper = d.Proper := by
  unfold Proper
  rw [h]

theorem Keeps.trans {place : Option (Nat × Nat)} (hroot : d'.root = d.root) (h : Keeps d d' place)
    (h' : Keeps d' d'' place) : Keeps d d'' place := fun x p hx hp hname hplace => by
  obtain ⟨hx', hp'⟩ := h x p hx hp hname hplace
  exact h' x p hx' hp' ((proper_congr hroot).symm ▸ hname) hplace

theorem SameTree.keeps (h : SameTree d d' D) (hd : d.WellFormedOn held D)
    (place : Option (Nat × Nat)) : Keeps d d' place := fun x p hx hp _ _ => by
  refine ⟨?_, (h.entry (hd.reachable hx.reachable)).mpr hp⟩
  rw [proper_congr h.shape.root]
  exact h.through hd hx

theorem Rewrite.keeps {x : Nat} {s s' : Slot} {old new : List Listed}
    (h : Rewrite d x s s' old new d') (hd : d.WellFormedOn held D) (hx : D x)
    (hold : ∀ p ∈ old, d.Child x p → d.Proper x p → ∃ p' ∈ new, p'.IsDirectory ∧
      p'.firstCluster = p.firstCluster ∧ (x = d.root ∨ ¬ p'.slot.IsDot) ∧ d.Proper x p') :
    Keeps d d' (some s.place) := fun y p hy hp _ hplace => by
  refine ⟨?_, (h.entry_iff hd hx (hd.reachable hy.reachable)).mpr
    (.inl ⟨hp, fun heq => hplace (heq ▸ rfl)⟩)⟩
  rw [proper_congr h.shape.root]
  exact h.through hd hx hold hy

/-- A slot without an entry is no entry's place. -/
theorem Rewrite.keeps_all {x : Nat} {s s' : Slot} {new : List Listed}
    (h : Rewrite d x s s' [] new d') (hd : d.WellFormedOn held D) (hx : D x)
    (place : Option (Nat × Nat)) : Keeps d d' place := fun y p hy hp hname _ => by
  refine h.keeps hd hx (fun _ hq => nomatch hq) y p hy hp hname fun heq => ?_
  obtain ⟨_, hmem⟩ := h.mem_old hd hx (hd.reachable hy.reachable) hp.listed (Option.some.inj heq)
  cases hmem

/-! ## Lost clusters -/

/-- No cluster is lost when the links stay and every owner's clusters have an owner still. -/
theorem Lost.of_owned {D' : Nat → Prop} {c : Nat} (h : d'.Lost held' D' c)
    (hshape : SameShape d d') (hfat : d'.fat c = d.fat c)
    (howned : ∀ o, d.Owned held D o c → ∃ o', d'.Owned held' D' o' c) : d.Lost held D c where
  valid := hshape.valid.mp h.valid
  used := hfat ▸ h.used
  good := hfat ▸ h.good
  unowned o hown := by
    obtain ⟨o', hown'⟩ := howned o hown
    exact h.unowned o' hown'

end Disk

end Avery.Fat32
