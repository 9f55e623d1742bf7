import Avery.Fs.SlotEdits
import Avery.Fs.Disk

/-!
# Directories as a tree

On a well-formed volume (`WellFormedOn`) the directories form a tree: every directory but the
root is a child of one entry, and its first two slots name itself and its parent.  Every
directory and every file owns the clusters of its chain, and no cluster has two owners.

A directory changes in one slot at a time (`Rewrite`).
-/

namespace Avery.Fat32

/-- A slot with one of the names `.` and `..`. -/
def Slot.IsDot (s : Slot) : Prop := s.name = fillDotName false ∨ s.name = fillDotName true

namespace Listed

def IsDirectory (p : Listed) : Prop := p.slot.attributes &&& attributeDirectory ≠ 0

def firstCluster (p : Listed) : Nat := p.slot.firstCluster

def place (p : Listed) : Nat × Nat := p.slot.place

end Listed

namespace Disk

variable (d : Disk)

/-- The slots of the directory that begins at `c`. -/
def slotsIn (c : Nat) : List Slot := d.dirSlots (d.chain c)

variable {d}

/-! ## Slots and their places -/

theorem mem_slotsOf {c : Nat} {s : Slot} (h : s ∈ d.slotsOf c) :
    ∃ i < d.slots, s = clusterSlot c (d.data c) i :=
  mem_clusterSlots h

theorem mem_dirSlots {xs : List Nat} {s : Slot} (h : s ∈ d.dirSlots xs) :
    s.cluster ∈ xs ∧ ∃ i < d.slots, s = clusterSlot s.cluster (d.data s.cluster) i := by
  obtain ⟨c, hc, hs⟩ := List.mem_flatMap.mp h
  obtain ⟨i, hi, rfl⟩ := mem_slotsOf hs
  exact ⟨hc, i, hi, rfl⟩

/-- No two slots are at the same place. -/
theorem nodup_places {xs : List Nat} (hxs : xs.Nodup) : ((d.dirSlots xs).map Slot.place).Nodup := by
  unfold dirSlots
  rw [List.map_flatMap, List.nodup_flatMap]
  refine ⟨fun c _ => ?_, ?_⟩
  · unfold slotsOf clusterSlots
    rw [List.map_map]
    refine (List.nodup_range' ..).map fun i j hij => ?_
    have hoffset : entrySize * i = entrySize * j := congrArg Prod.snd hij
    exact Nat.eq_of_mul_eq_mul_left (by decide) hoffset
  · refine List.Pairwise.imp ?_ hxs
    intro c c' hne p hp hp'
    obtain ⟨s, hs, rfl⟩ := List.mem_map.mp hp
    obtain ⟨s', hs', hplace⟩ := List.mem_map.mp hp'
    obtain ⟨i, _, rfl⟩ := mem_slotsOf hs
    obtain ⟨j, _, rfl⟩ := mem_slotsOf hs'
    exact hne (congrArg Prod.fst hplace).symm

/-- A slot splits the slots of a directory in one way. -/
theorem split_unique {xs : List Nat} (hxs : xs.Nodup) {s s' : Slot} {A B A' B' : List Slot}
    (h : d.dirSlots xs = A ++ s :: B) (h' : d.dirSlots xs = A' ++ s' :: B')
    (hplace : s.place = s'.place) : A = A' ∧ s = s' ∧ B = B' := by
  have hnodup := nodup_places (d := d) hxs
  have hs : s ∈ d.dirSlots xs := by rw [h]; simp
  have hs' : s' ∈ d.dirSlots xs := by rw [h']; simp
  cases List.inj_on_of_nodup_map hnodup hs hs' hplace
  have hlist := List.Nodup.of_map _ hnodup
  have hna : s ∉ A ∧ s ∉ B := by
    rw [h, List.nodup_append, List.nodup_cons] at hlist
    exact ⟨fun hmem => hlist.2.2 s hmem s (by simp) rfl, hlist.2.1.1⟩
  exact (List.append_cons_inj_of_notMem hna.1 hna.2).mp (h.symm.trans h')

/-- Nothing but the links and the data differs. -/
structure SameShape (d d' : Disk) : Prop where
  clusters : d'.clusters = d.clusters
  slots : d'.slots = d.slots
  root : d'.root = d.root

namespace SameShape

variable {d' d'' : Disk}

theorem refl (d : Disk) : SameShape d d := ⟨rfl, rfl, rfl⟩

theorem trans (h : SameShape d d') (h' : SameShape d' d'') : SameShape d d'' :=
  ⟨h'.clusters.trans h.clusters, h'.slots.trans h.slots, h'.root.trans h.root⟩

theorem unmarked (h : SameShape d d') (hd : d.Unmarked) : d'.Unmarked := by
  unfold Unmarked at hd ⊢
  rwa [h.clusters]

theorem valid (h : SameShape d d') {c : Nat} : d'.Valid c ↔ d.Valid c := by
  unfold Valid
  rw [h.clusters]

/-- The links of its members decide where a chain leads. -/
theorem chain_eq (h : SameShape d d') (hd : d.Unmarked) {c : Nat} {xs : List Nat}
    (hchain : d.Chain c xs) (hfat : ∀ x ∈ xs, d'.fat x = d.fat x) :
    d'.Chain c xs ∧ d'.chain c = d.chain c := by
  have hchain' := hchain.congr h.clusters hfat
  exact ⟨hchain', (hchain'.chain_eq (h.unmarked hd)).trans (hchain.chain_eq hd).symm⟩

theorem dirSlots_eq (h : SameShape d d') {xs : List Nat}
    (hdata : ∀ x ∈ xs, d'.data x = d.data x) : d'.dirSlots xs = d.dirSlots xs := by
  unfold dirSlots
  refine List.flatMap_congr fun x hx => ?_
  unfold slotsOf
  rw [h.slots, hdata x hx]

theorem slotsIn_eq (h : SameShape d d') (hd : d.Unmarked) {c : Nat}
    (hchain : d.Chain c (d.chain c))
    (hsame : ∀ x ∈ d.chain c, d'.fat x = d.fat x ∧ d'.data x = d.data x) :
    d'.slotsIn c = d.slotsIn c := by
  unfold slotsIn
  rw [(h.chain_eq hd hchain fun x hx => (hsame x hx).1).2]
  exact h.dirSlots_eq fun x hx => (hsame x hx).2

end SameShape

theorem sameShape_setData (d : Disk) (c : Nat) (data : Nat → UInt8) :
    SameShape d (d.setData c data) :=
  ⟨rfl, rfl, rfl⟩

/-! ## Entries, children and owners -/

variable (d)

/-- `p` is an entry of the directory `x`, and not one of its dot entries. -/
structure Entry (x : Nat) (p : Listed) : Prop where
  listed : p ∈ d.listing x
  real : x = d.root ∨ ¬ p.slot.IsDot

/-- The entry `p` of the directory `x` is a directory that has clusters. -/
structure Child (x : Nat) (p : Listed) : Prop where
  entry : d.Entry x p
  directory : p.IsDirectory
  first : 2 ≤ p.firstCluster

/-- The directories below the root. -/
inductive Reachable : Nat → Prop
  | root : Reachable d.root
  | child {x : Nat} {p : Listed} : Reachable x → d.Child x p → Reachable p.firstCluster

/-- The first two slots of the directory `c` name the directory itself and its parent `x`. -/
def DotSlots (x c : Nat) : Prop :=
  ∃ s t rest, d.slotsIn c = s :: t :: rest ∧
    s.kind = .entry ∧ s.name = fillDotName false ∧ s.attributes &&& attributeDirectory ≠ 0 ∧
    s.firstCluster = c ∧
    t.kind = .entry ∧ t.name = fillDotName true ∧ t.attributes &&& attributeDirectory ≠ 0 ∧
    (t.firstCluster = x ∨ x = d.root ∧ t.firstCluster = 0)

/-- Behind an end mark there are end marks only. -/
def Tail (slots : List Slot) : Prop :=
  slots.Pairwise fun s t => s.kind = .endMark → t.kind = .endMark

/-- What owns clusters: a directory, or the file whose entry is at a place. -/
inductive Owner where
  | directory (c : Nat)
  | file (place : Nat × Nat)

/-- The first cluster of a file: what its open handle remembers, or else what its entry
says. -/
def head (held : Nat × Nat → Option Nat) (p : Listed) : Nat :=
  (held p.place).getD p.firstCluster

/-- The owner's clusters are those of the chain from `c` on. -/
inductive Owns (held : Nat × Nat → Option Nat) (D : Nat → Prop) : Owner → Nat → Prop
  | directory {c : Nat} : D c → Owns held D (.directory c) c
  | file {x : Nat} {p : Listed} : D x → d.Entry x p → ¬ p.IsDirectory → 2 ≤ head held p →
      Owns held D (.file p.place) (head held p)

/-- The volume is well formed, with `D` a set of directories that contains the root and the
children of its members.  `held` tells the first clusters that open handles remember. -/
structure WellFormedOn (held : Nat × Nat → Option Nat) (D : Nat → Prop) : Prop where
  unmarked : d.Unmarked
  root : D d.root
  closed : ∀ {x p}, D x → d.Child x p → D p.firstCluster ∧ p.firstCluster ≠ d.root
  single : ∀ {x y p q}, D x → D y → d.Child x p → d.Child y q →
    p.firstCluster = q.firstCluster → p.place = q.place
  dots : ∀ {x p}, D x → d.Child x p → d.DotSlots x p.firstCluster
  plain : ∀ {x p}, D x → x ≠ d.root → p ∈ d.listing x → p.slot.IsDot → p.lfn = []
  tail : ∀ {x}, D x → Tail (d.slotsIn x)
  chain : ∀ {o h}, d.Owns held D o h → d.Valid h ∧ d.Chain h (d.chain h)
  apart : ∀ {o o' h h' c}, d.Owns held D o h → d.Owns held D o' h' →
    c ∈ d.chain h → c ∈ d.chain h' → o = o'

/-- The volume is well formed. -/
def WellFormed (held : Nat × Nat → Option Nat) : Prop := d.WellFormedOn held d.Reachable

variable {d}

/-- Some chain of an owner contains the cluster. -/
def Owned (d : Disk) (held : Nat × Nat → Option Nat) (D : Nat → Prop) (o : Owner) (c : Nat) : Prop :=
  ∃ h, d.Owns held D o h ∧ c ∈ d.chain h

theorem Owns.mono {held : Nat × Nat → Option Nat} {D D' : Nat → Prop} {o : Owner} {h : Nat}
    (hsub : ∀ c, D' c → D c) (hown : d.Owns held D' o h) : d.Owns held D o h := by
  cases hown with
  | directory hc => exact .directory (hsub _ hc)
  | file hx hp hfile hhead => exact .file (hsub _ hx) hp hfile hhead

/-- Some of the directories can be left out, if the others are closed. -/
theorem WellFormedOn.mono {held : Nat × Nat → Option Nat} {D D' : Nat → Prop}
    (h : d.WellFormedOn held D) (hsub : ∀ c, D' c → D c) (hroot : D' d.root)
    (hclosed : ∀ {x p}, D' x → d.Child x p → D' p.firstCluster) : d.WellFormedOn held D' where
  unmarked := h.unmarked
  root := hroot
  closed hx hp := ⟨hclosed hx hp, (h.closed (hsub _ hx) hp).2⟩
  single hx hy := h.single (hsub _ hx) (hsub _ hy)
  dots hx := h.dots (hsub _ hx)
  plain hx := h.plain (hsub _ hx)
  tail hx := h.tail (hsub _ hx)
  chain hown := h.chain (hown.mono hsub)
  apart hown hown' := h.apart (hown.mono hsub) (hown'.mono hsub)

theorem WellFormedOn.reachable {held : Nat × Nat → Option Nat} {D : Nat → Prop}
    (h : d.WellFormedOn held D) {c : Nat} (hc : d.Reachable c) : D c := by
  induction hc with
  | root => exact h.root
  | child _ hp ih => exact (h.closed ih hp).1

theorem WellFormedOn.wellFormed {held : Nat × Nat → Option Nat} {D : Nat → Prop}
    (h : d.WellFormedOn held D) : d.WellFormed held :=
  h.mono (fun _ => h.reachable) .root fun hx hp => .child hx hp

/-! ## Changes that leave the entries -/

section

variable {d' : Disk} {held held' : Nat × Nat → Option Nat} {D : Nat → Prop}

/-- The directories list the same entries; they may have got free slots at the end. -/
structure SameTree (d d' : Disk) (D : Nat → Prop) : Prop where
  shape : SameShape d d'
  slots : ∀ {x}, D x → ∃ free, (∀ s ∈ free, s.kind = .endMark) ∧
    d'.slotsIn x = d.slotsIn x ++ free

namespace SameTree

theorem refl (d : Disk) (D : Nat → Prop) : SameTree d d D :=
  ⟨.refl d, fun _ => ⟨[], by simp, by simp⟩⟩

theorem trans {d'' : Disk} (h : SameTree d d' D) (h' : SameTree d' d'' D) : SameTree d d'' D := by
  refine ⟨h.shape.trans h'.shape, fun hx => ?_⟩
  obtain ⟨free, hfree, hslots⟩ := h.slots hx
  obtain ⟨free', hfree', hslots'⟩ := h'.slots hx
  refine ⟨free ++ free', fun s hs => ?_, by rw [hslots', hslots, List.append_assoc]⟩
  exact (List.mem_append.mp hs).elim (hfree s) (hfree' s)

theorem listing (h : SameTree d d' D) {x : Nat} (hx : D x) : d'.listing x = d.listing x := by
  obtain ⟨free, hfree, hslots⟩ := h.slots hx
  have happend : Fat32.listing [] 0 (d.slotsIn x ++ free) = Fat32.listing [] 0 (d.slotsIn x) :=
    listing_append_end hfree
  rw [← hslots] at happend
  exact happend

theorem entry (h : SameTree d d' D) {x : Nat} (hx : D x) {p : Listed} :
    d'.Entry x p ↔ d.Entry x p := by
  constructor
  · rintro ⟨h₁, h₂⟩
    exact ⟨h.listing hx ▸ h₁, h.shape.root ▸ h₂⟩
  · rintro ⟨h₁, h₂⟩
    exact ⟨h.listing hx ▸ h₁, h.shape.root ▸ h₂⟩

theorem child (h : SameTree d d' D) {x : Nat} (hx : D x) {p : Listed} (hp : d'.Child x p) :
    d.Child x p :=
  ⟨(h.entry hx).mp hp.entry, hp.directory, hp.first⟩

theorem owns (h : SameTree d d' D) {o : Owner} {c : Nat} (hown : d'.Owns held D o c) :
    d.Owns held D o c := by
  cases hown with
  | directory hc => exact .directory hc
  | file hx hp hfile hhead => exact .file hx ((h.entry hx).mp hp) hfile hhead

/-- What is left to show for a volume with the same entries: its chains. -/
theorem wellFormedOn (h : SameTree d d' D) (hd : d.WellFormedOn held D)
    (hchain : ∀ {o c}, d.Owns held' D o c → d.Valid c ∧ d'.Chain c (d'.chain c))
    (hapart : ∀ {o o' c c' e}, d.Owns held' D o c → d.Owns held' D o' c' → e ∈ d'.chain c →
      e ∈ d'.chain c' → o = o') : d'.WellFormedOn held' D where
  unmarked := h.shape.unmarked hd.unmarked
  root := h.shape.root ▸ hd.root
  closed hx hp := by
    rw [h.shape.root]
    exact hd.closed hx (h.child hx hp)
  single hx hy hp hq := hd.single hx hy (h.child hx hp) (h.child hy hq)
  dots {x p} hx hp := by
    obtain ⟨s, t, rest, hslots, hst⟩ := hd.dots hx (h.child hx hp)
    obtain ⟨free, _, hslots'⟩ := h.slots (hd.closed hx (h.child hx hp)).1
    rw [← h.shape.root] at hst
    exact ⟨s, t, rest ++ free, by rw [hslots', hslots, List.cons_append, List.cons_append], hst⟩
  plain hx hne hp := by
    rw [h.listing hx] at hp
    rw [h.shape.root] at hne
    exact hd.plain hx hne hp
  tail hx := by
    obtain ⟨free, hfree, hslots⟩ := h.slots hx
    rw [hslots]
    exact List.pairwise_append.mpr ⟨hd.tail hx,
      List.pairwise_of_forall_mem_list fun _ _ _ ht _ => hfree _ ht,
      fun _ _ t ht _ => hfree t ht⟩
  chain hown := by
    obtain ⟨hvalid, hc⟩ := hchain (h.owns hown)
    exact ⟨h.shape.valid.mpr hvalid, hc⟩
  apart hown hown' := hapart (h.owns hown) (h.owns hown')

end SameTree

/-- The clusters of the owners other than `o` are as before. -/
structure Spares (d d' : Disk) (held : Nat × Nat → Option Nat) (D : Nat → Prop) (o : Option Owner) :
    Prop where
  shape : SameShape d d'
  kept : ∀ {o' c}, some o' ≠ o → d.Owned held D o' c → d'.fat c = d.fat c ∧ d'.data c = d.data c

theorem WellFormedOn.fat_ne_free (hd : d.WellFormedOn held D) {o : Owner} {c : Nat}
    (h : d.Owned held D o c) : d.fat c ≠ freeCluster := by
  obtain ⟨f, hown, hc⟩ := h
  exact (hd.chain hown).2.fat_ne_free hc

theorem WellFormedOn.not_owned (hd : d.WellFormedOn held D) {o : Owner} {c : Nat}
    (hfree : d.fat c = freeCluster) : ¬ d.Owned held D o c := fun h =>
  hd.fat_ne_free h hfree

namespace Spares

variable {o : Option Owner}

theorem chain (h : Spares d d' held D o) (hd : d.WellFormedOn held D) {o' : Owner} {c : Nat}
    (hne : some o' ≠ o) (hown : d.Owns held D o' c) :
    d'.Chain c (d'.chain c) ∧ d'.chain c = d.chain c := by
  obtain ⟨hchain, heq⟩ := h.shape.chain_eq hd.unmarked (hd.chain hown).2
    fun x hx => (h.kept hne ⟨c, hown, hx⟩).1
  exact ⟨heq ▸ hchain, heq⟩

theorem sameTree (h : Spares d d' held D o) (hd : d.WellFormedOn held D)
    (ho : ∀ c, o ≠ some (.directory c)) : SameTree d d' D where
  shape := h.shape
  slots {x} hx := by
    refine ⟨[], by simp, ?_⟩
    rw [List.append_nil]
    exact h.shape.slotsIn_eq hd.unmarked (hd.chain (.directory hx)).2
      fun e he => h.kept (Ne.symm (ho x)) ⟨x, .directory hx, he⟩

/-- Clusters without an owner may change. -/
theorem wellFormedOn (h : Spares d d' held D none) (hd : d.WellFormedOn held D) :
    d'.WellFormedOn held D := by
  refine (h.sameTree hd fun c => by simp).wellFormedOn hd (fun hown => ?_)
    fun hown hown' he he' => ?_
  · exact ⟨(hd.chain hown).1, (h.chain hd (by simp) hown).1⟩
  · rw [(h.chain hd (by simp) hown).2] at he
    rw [(h.chain hd (by simp) hown').2] at he'
    exact hd.apart hown hown' he he'

end Spares

/-- A file's head depends on its handle only. -/
theorem Owns.of_held {place : Nat × Nat} (hheld : ∀ q, q ≠ place → held' q = held q) {o : Owner}
    {c : Nat} (ho : o ≠ .file place) (hown : d.Owns held' D o c) : d.Owns held D o c := by
  cases hown with
  | directory hc => exact .directory hc
  | @file x p hx hp hfile hhead =>
      have hplace : p.place ≠ place := fun heq => ho (heq ▸ rfl)
      have hsame : head held' p = head held p := by
        unfold head
        rw [hheld _ hplace]
      rw [hsame] at hhead ⊢
      exact .file hx hp hfile hhead

/-- A file may get another chain, of clusters of its own or without an owner. -/
theorem Spares.file {place : Nat × Nat} (h : Spares d d' held D (some (.file place)))
    (hd : d.WellFormedOn held D) (hheld : ∀ q, q ≠ place → held' q = held q)
    (hnew : ∀ {c}, d.Owns held' D (.file place) c → d.Valid c ∧ ∃ xs, d'.Chain c xs ∧
      ∀ e ∈ xs, ∀ o, o ≠ .file place → ¬ d.Owned held D o e) : d'.WellFormedOn held' D := by
  have htree := h.sameTree hd fun c => by simp
  have hunmarked := h.shape.unmarked hd.unmarked
  have hother : ∀ {o c}, o ≠ .file place → d.Owns held' D o c →
      d.Owns held D o c ∧ d'.Chain c (d'.chain c) ∧ d'.chain c = d.chain c := by
    intro o c ho hown
    have hown' := hown.of_held hheld ho
    exact ⟨hown', h.chain hd (fun heq => ho (Option.some.inj heq)) hown'⟩
  -- a cluster of the new chain has no other owner
  have hapart : ∀ {o c c' e}, o ≠ .file place → d.Owns held' D o c →
      d.Owns held' D (.file place) c' → e ∈ d'.chain c → e ∉ d'.chain c' := by
    intro o c c' e ho hown hown' he he'
    obtain ⟨hownd, _, heq⟩ := hother ho hown
    obtain ⟨_, xs, hchain, hfresh⟩ := hnew hown'
    rw [hchain.chain_eq hunmarked] at he'
    exact hfresh e he' o ho ⟨c, hownd, heq ▸ he⟩
  refine htree.wellFormedOn hd (fun {o c} hown => ?_) fun {o o' c c' e} hown hown' he he' => ?_
  · by_cases ho : o = .file place
    · subst ho
      obtain ⟨hvalid, xs, hchain, _⟩ := hnew hown
      exact ⟨hvalid, (hchain.chain_eq hunmarked).symm ▸ hchain⟩
    · obtain ⟨hownd, hchain, _⟩ := hother ho hown
      exact ⟨(hd.chain hownd).1, hchain⟩
  · by_cases ho : o = .file place
    · subst ho
      by_contra hne
      exact hapart (Ne.symm hne) hown' hown he' he
    · by_cases ho' : o' = .file place
      · subst ho'
        exact absurd he' (hapart ho hown hown' he)
      · obtain ⟨hownd, _, heq⟩ := hother ho hown
        obtain ⟨hownd', _, heq'⟩ := hother ho' hown'
        exact hd.apart hownd hownd' (heq ▸ he) (heq' ▸ he')

section

variable {x last c : Nat} {ys : List Nat}

/-- A free cluster is in the chain of no owner. -/
theorem WellFormedOn.ne_of_chain (hd : d.WellFormedOn held D) (hfree : d.fat c = 0)
    {o : Owner} {e f : Nat} (hf : d.Owns held D o f) (he : e ∈ d.chain f) : e ≠ c := by
  rintro rfl
  exact hd.not_owned hfree ⟨f, hf, he⟩

/-- The chains of the other owners are as before. -/
theorem WellFormedOn.grow_chain_of_ne (hd : d.WellFormedOn held D) (hx : D x)
    (hchain : d.chain x = ys ++ [last]) (hfree : d.fat c = 0) {o : Owner} {f : Nat}
    (ho : o ≠ .directory x) (hf : d.Owns held D o f) :
    ((d.alloc c).setFat last c).Chain f (d.chain f) ∧
      ((d.alloc c).setFat last c).chain f = d.chain f := by
  have hshape : SameShape d ((d.alloc c).setFat last c) := ⟨rfl, rfl, rfl⟩
  refine hshape.chain_eq hd.unmarked (hd.chain hf).2 fun e he => ?_
  have hne : e ≠ last := by
    rintro rfl
    exact ho (hd.apart hf (.directory hx) he (by simp [hchain]))
  rw [fat_setFat_of_ne hne, fat_alloc_of_ne (hd.ne_of_chain hfree hf he)]

/-- The chain of the directory ends in the new cluster. -/
theorem WellFormedOn.grow_chain (hd : d.WellFormedOn held D) (hx : D x)
    (hchain : d.chain x = ys ++ [last]) (hc : d.Valid c) (hfree : d.fat c = 0) :
    ((d.alloc c).setFat last c).Chain x (ys ++ [last, c]) ∧
      ((d.alloc c).setFat last c).chain x = ys ++ [last, c] := by
  have hshape : SameShape d ((d.alloc c).setFat last c) := ⟨rfl, rfl, rfl⟩
  have hold := (hd.chain (.directory hx)).2
  have hnew : ((d.alloc c).setFat last c).Chain x (ys ++ [last, c]) :=
    Chain.grow hd.unmarked (hchain ▸ hold) hc hfree
  exact ⟨hnew, hnew.chain_eq (hshape.unmarked hd.unmarked)⟩

/-- The new cluster adds nothing but end marks to the directory. -/
theorem WellFormedOn.grow_sameTree (hd : d.WellFormedOn held D) (hx : D x)
    (hchain : d.chain x = ys ++ [last]) (hc : d.Valid c) (hfree : d.fat c = 0) :
    SameTree d ((d.alloc c).setFat last c) D := by
  have hshape : SameShape d ((d.alloc c).setFat last c) := ⟨rfl, rfl, rfl⟩
  have hdata : ∀ {e}, e ≠ c → ((d.alloc c).setFat last c).data e = d.data e := fun he =>
    data_alloc_of_ne he
  have hzeros : ∀ s ∈ ((d.alloc c).setFat last c).slotsOf c, s.kind = .endMark := by
    intro s hs
    obtain ⟨i, hi, rfl⟩ := mem_slotsOf hs
    rw [Slot.kind_endMark, data_setFat, data_alloc_same]
    exact ByteMemory.window_of_lt (n := entrySize) (i := 0) (by decide)
  refine ⟨hshape, fun {y} hy => ?_⟩
  by_cases hyx : y = x
  · subst hyx
    refine ⟨_, hzeros, ?_⟩
    have hslots : ((d.alloc c).setFat last c).dirSlots (ys ++ [last]) =
        d.dirSlots (ys ++ [last]) := by
      refine hshape.dirSlots_eq fun e he => hdata ?_
      exact hd.ne_of_chain hfree (.directory hy) (hchain ▸ he)
    rw [slotsIn, (hd.grow_chain hx hchain hc hfree).2, slotsIn, hchain, ← hslots, dirSlots,
      dirSlots, show ys ++ [last, c] = ys ++ [last] ++ [c] by simp, List.flatMap_append]
    simp
  · refine ⟨[], by simp, ?_⟩
    have hne : Owner.directory y ≠ .directory x := fun h => hyx (Owner.directory.inj h)
    rw [slotsIn, (hd.grow_chain_of_ne hx hchain hfree hne (.directory hy)).2, List.append_nil,
      slotsIn]
    exact hshape.dirSlots_eq fun e he => hdata (hd.ne_of_chain hfree (.directory hy) he)

/-- The new cluster belongs to the directory alone. -/
theorem WellFormedOn.grow_mem (hd : d.WellFormedOn held D) (hx : D x)
    (hchain : d.chain x = ys ++ [last]) (hc : d.Valid c) (hfree : d.fat c = 0) {o : Owner}
    {e f : Nat} (hf : d.Owns held D o f) (he : e ∈ ((d.alloc c).setFat last c).chain f) :
    e ∈ d.chain f ∨ e = c ∧ o = .directory x := by
  by_cases ho : o = .directory x
  · subst ho
    cases hf
    rw [(hd.grow_chain hx hchain hc hfree).2] at he
    rw [hchain]
    simp only [List.mem_append, List.mem_cons, List.not_mem_nil, or_false] at he ⊢
    rcases he with he | he | he
    · exact .inl (.inl he)
    · exact .inl (.inr he)
    · exact .inr ⟨he, trivial⟩
  · exact .inl ((hd.grow_chain_of_ne hx hchain hfree ho hf).2 ▸ he)

/-- A directory may get one more cluster of zeros. -/
theorem WellFormedOn.grow (hd : d.WellFormedOn held D) (hx : D x)
    (hchain : d.chain x = ys ++ [last]) (hc : d.Valid c) (hfree : d.fat c = 0) :
    SameTree d ((d.alloc c).setFat last c) D ∧
      ((d.alloc c).setFat last c).WellFormedOn held D ∧
      ((d.alloc c).setFat last c).chain x = ys ++ [last, c] := by
  obtain ⟨hnew, hnewchain⟩ := hd.grow_chain hx hchain hc hfree
  have htree := hd.grow_sameTree hx hchain hc hfree
  refine ⟨htree, htree.wellFormedOn hd (fun {o f} hf => ?_) fun {o o' f f' e} hf hf' he he' => ?_,
    hnewchain⟩
  · refine ⟨(hd.chain hf).1, ?_⟩
    by_cases ho : o = .directory x
    · subst ho
      cases hf
      rw [hnewchain]
      exact hnew
    · obtain ⟨hchain', heq⟩ := hd.grow_chain_of_ne hx hchain hfree ho hf
      exact heq ▸ hchain'
  · rcases hd.grow_mem hx hchain hc hfree hf he with hin | ⟨hec, ho⟩
    · rcases hd.grow_mem hx hchain hc hfree hf' he' with hin' | ⟨hec, ho'⟩
      · exact hd.apart hf hf' hin hin'
      · exact absurd hec (hd.ne_of_chain hfree hf hin)
    · rcases hd.grow_mem hx hchain hc hfree hf' he' with hin' | ⟨_, ho'⟩
      · exact absurd hec (hd.ne_of_chain hfree hf' hin')
      · rw [ho, ho']

end

/-! ## Rewriting a slot -/

/-- In the directory `x` the slot `s` has become `s'`, and the entries `old` have become
`new`. -/
structure Rewrite (d : Disk) (x : Nat) (s s' : Slot) (old new : List Listed) (d' : Disk) : Prop where
  inside : s.cluster ∈ d.chain x
  stored : ∃ data, d' = d.setData s.cluster data
  slots : ∃ before long after, Edit s s' before long after ∧
    d.slotsIn x = before ++ long ++ s :: after ∧
    d'.slotsIn x = before ++ long.map Slot.erased ++ s' :: after ∧
    old = entryAt (before ++ long) s ∧ new = entryAt (before ++ long.map Slot.erased) s'

theorem mem_entryAt {before : List Slot} {s : Slot} {p : Listed} (h : p ∈ entryAt before s) :
    p.slot = s ∧ s.kind = .entry := by
  unfold entryAt at h
  split at h
  · next hkind =>
    cases List.mem_singleton.mp h
    exact ⟨rfl, hkind⟩
  · cases h

/-- No two entries of a directory are at the same place. -/
theorem nodup_listing {x : Nat} (hx : (d.chain x).Nodup) :
    ((d.listing x).map Listed.place).Nodup := by
  have hsub := (listing_sublist [] 0 (d.slotsIn x)).map Slot.place
  rw [List.map_map] at hsub
  exact (nodup_places hx).sublist hsub

/-- The entry of a directory at a place. -/
theorem listed_unique {x : Nat} (hx : (d.chain x).Nodup) {p q : Listed} (hp : p ∈ d.listing x)
    (hq : q ∈ d.listing x) (h : p.place = q.place) : p = q :=
  List.inj_on_of_nodup_map (nodup_listing hx) hp hq h

theorem mem_chain_of_listed {x : Nat} {p : Listed} (hp : p ∈ d.listing x) :
    p.slot.cluster ∈ d.chain x := by
  obtain ⟨before, after, hslots, _⟩ := listing_mem hp
  have hmem : p.slot ∈ d.dirSlots (d.chain x) := by
    change d.dirSlots (d.chain x) = _ at hslots
    rw [hslots]
    simp
  exact (mem_dirSlots hmem).1

theorem WellFormedOn.nodup (hd : d.WellFormedOn held D) {x : Nat} (hx : D x) :
    (d.chain x).Nodup :=
  (hd.chain (.directory hx)).2.nodup hd.unmarked

/-- An entry is in one directory only. -/
theorem WellFormedOn.listed_unique (hd : d.WellFormedOn held D) {x y : Nat} (hx : D x) (hy : D y)
    {p q : Listed} (hp : p ∈ d.listing x) (hq : q ∈ d.listing y) (h : p.place = q.place) :
    x = y ∧ p = q := by
  have hcluster : p.slot.cluster = q.slot.cluster := congrArg Prod.fst h
  have hxy : Owner.directory x = .directory y := hd.apart (.directory hx) (.directory hy)
    (mem_chain_of_listed hp) (hcluster ▸ mem_chain_of_listed hq)
  cases hxy
  exact ⟨rfl, Disk.listed_unique (hd.nodup hx) hp hq h⟩

namespace Rewrite

variable {x : Nat} {s s' : Slot} {old new : List Listed}

theorem shape (h : Rewrite d x s s' old new d') : SameShape d d' := by
  obtain ⟨data, rfl⟩ := h.stored
  exact ⟨rfl, rfl, rfl⟩

theorem fat_eq (h : Rewrite d x s s' old new d') : d'.fat = d.fat := by
  obtain ⟨data, rfl⟩ := h.stored
  rfl

theorem data_of_ne (h : Rewrite d x s s' old new d') {c : Nat} (hc : c ≠ s.cluster) :
    d'.data c = d.data c := by
  obtain ⟨data, rfl⟩ := h.stored
  exact data_setData_of_ne hc

theorem chain_eq (h : Rewrite d x s s' old new d') : d'.chain = d.chain := by
  obtain ⟨data, rfl⟩ := h.stored
  rfl

theorem chain_iff (h : Rewrite d x s s' old new d') {c : Nat} {xs : List Nat} :
    d'.Chain c xs ↔ d.Chain c xs := by
  obtain ⟨data, rfl⟩ := h.stored
  rfl

theorem old_place (h : Rewrite d x s s' old new d') {p : Listed} (hp : p ∈ old) :
    p.slot = s ∧ s.kind = .entry := by
  obtain ⟨_, _, _, _, _, _, rfl, _⟩ := h.slots
  exact mem_entryAt hp

theorem new_place (h : Rewrite d x s s' old new d') {p : Listed} (hp : p ∈ new) :
    p.slot = s' ∧ p.place = s.place ∧ s'.kind = .entry := by
  obtain ⟨_, _, _, hedit, _, _, _, rfl⟩ := h.slots
  obtain ⟨hslot, hkind⟩ := mem_entryAt hp
  refine ⟨hslot, ?_, hkind⟩
  rw [Listed.place, hslot]
  exact hedit.place

theorem listing (h : Rewrite d x s s' old new d') :
    ∃ pre post, d.listing x = pre ++ old ++ post ∧ d'.listing x = pre ++ new ++ post := by
  obtain ⟨before, long, after, hedit, hslots, hslots', rfl, rfl⟩ := h.slots
  obtain ⟨pre, post, hold, hnew⟩ := hedit.listing
  refine ⟨pre, post, ?_, ?_⟩
  · rw [← hold, ← hslots]
    rfl
  · rw [← hnew, ← hslots']
    rfl

theorem slotsIn_of_ne (h : Rewrite d x s s' old new d') (hd : d.WellFormedOn held D) (hx : D x)
    {y : Nat} (hy : D y) (hne : y ≠ x) : d'.slotsIn y = d.slotsIn y := by
  unfold slotsIn
  rw [h.chain_eq]
  refine h.shape.dirSlots_eq fun c hc => h.data_of_ne ?_
  rintro rfl
  exact hne (Owner.directory.inj (hd.apart (.directory hy) (.directory hx) hc h.inside))

/-- Which entries there are afterwards. -/
theorem mem_listing (h : Rewrite d x s s' old new d') (hd : d.WellFormedOn held D) (hx : D x)
    {y : Nat} (hy : D y) {p : Listed} :
    p ∈ d'.listing y ↔ p ∈ d.listing y ∧ p.place ≠ s.place ∨ y = x ∧ p ∈ new := by
  by_cases hne : y = x
  · subst hne
    obtain ⟨pre, post, hold, hnew⟩ := h.listing
    have hnodup := nodup_listing (hd.nodup hy)
    -- the entry at the place is the old one
    have hplace : ∀ q ∈ d.listing y, q.place = s.place → q ∈ old := by
      intro q hq heq
      obtain ⟨before, after, hslots, hun, hkind, hlfn, hindex⟩ := listing_mem hq
      obtain ⟨before', long, after', _, hslots', _, rfl, _⟩ := h.slots
      obtain ⟨rfl, hqs, _⟩ := split_unique (hd.nodup hy) hslots hslots' heq
      rw [entryAt, if_pos (hqs ▸ hkind), List.mem_singleton]
      obtain ⟨slot, lfn, index⟩ := q
      simp only at hqs hlfn hindex
      rw [hqs, hlfn, hindex, Nat.zero_add]
    have hout : ∀ q, q ∈ pre ∨ q ∈ post → q.place ≠ s.place := by
      intro q hq heq
      have hmem : q ∈ d.listing y := by
        rw [hold]
        rcases hq with hq | hq <;> simp [hq]
      have hqold := hplace q hmem heq
      rw [hold, List.map_append, List.map_append, List.nodup_append, List.nodup_append] at hnodup
      have hin : q.place ∈ old.map Listed.place := List.mem_map_of_mem hqold
      rcases hq with hq | hq
      · exact hnodup.1.2.2 _ (List.mem_map_of_mem hq) _ hin rfl
      · exact hnodup.2.2 _ (List.mem_append_right _ hin) _ (List.mem_map_of_mem hq) rfl
    rw [hnew, hold]
    simp only [List.mem_append, true_and]
    constructor
    · rintro ((hp | hp) | hp)
      · exact .inl ⟨.inl (.inl hp), hout p (.inl hp)⟩
      · exact .inr hp
      · exact .inl ⟨.inr hp, hout p (.inr hp)⟩
    · rintro (⟨(hp | hp) | hp, hne⟩ | hp)
      · exact .inl (.inl hp)
      · exact absurd (congrArg Slot.place (h.old_place hp).1) hne
      · exact .inr hp
      · exact .inl (.inr hp)
  · have hsame : d'.listing y = d.listing y := by
      change Fat32.listing [] 0 (d'.slotsIn y) = Fat32.listing [] 0 (d.slotsIn y)
      rw [h.slotsIn_of_ne hd hx hy hne]
    rw [hsame]
    refine ⟨fun hp => .inl ⟨hp, fun heq => ?_⟩, ?_⟩
    · have hcluster : p.slot.cluster = s.cluster := congrArg Prod.fst heq
      exact hne (Owner.directory.inj (hd.apart (.directory hy) (.directory hx)
        (mem_chain_of_listed hp) (hcluster ▸ h.inside)))
    · rintro (⟨hp, _⟩ | ⟨heq, _⟩)
      · exact hp
      · exact absurd heq hne

theorem entry_iff (h : Rewrite d x s s' old new d') (hd : d.WellFormedOn held D) (hx : D x)
    {y : Nat} (hy : D y) {p : Listed} :
    d'.Entry y p ↔ d.Entry y p ∧ p.place ≠ s.place ∨
      y = x ∧ p ∈ new ∧ (x = d.root ∨ ¬ p.slot.IsDot) := by
  constructor
  · rintro ⟨hp, hreal⟩
    rw [h.shape.root] at hreal
    rcases (h.mem_listing hd hx hy).mp hp with ⟨hp, hne⟩ | ⟨rfl, hp⟩
    · exact .inl ⟨⟨hp, hreal⟩, hne⟩
    · exact .inr ⟨rfl, hp, hreal⟩
  · rintro (⟨⟨hp, hreal⟩, hne⟩ | ⟨rfl, hp, hreal⟩)
    · exact ⟨(h.mem_listing hd hx hy).mpr (.inl ⟨hp, hne⟩), h.shape.root.symm ▸ hreal⟩
    · exact ⟨(h.mem_listing hd hx hy).mpr (.inr ⟨rfl, hp⟩), h.shape.root.symm ▸ hreal⟩

/-- The dot entries of a directory stay, if it is not one of them that is rewritten. -/
theorem dotSlots (h : Rewrite d x s s' old new d') (hd : d.WellFormedOn held D) (hx : D x)
    (hdot : x = d.root ∨ ¬ s.IsDot ∨ s.kind ≠ .entry) {y c : Nat} (hc : D c) (hroot : c ≠ d.root)
    (hslots : d.DotSlots y c) : d'.DotSlots y c := by
  unfold DotSlots at hslots ⊢
  rw [h.shape.root]
  obtain ⟨a, b, rest, hab, ha, haname, hadir, hafirst, hb, hbname, hbdir, hbfirst⟩ := hslots
  by_cases hcx : c = x
  · subst hcx
    have hne : ∀ r : Slot, r.kind = .entry → r.IsDot → s ≠ r := by
      rintro r hkind hr rfl
      rcases hdot with hdot | hdot | hdot
      · exact hroot hdot
      · exact hdot hr
      · exact hdot hkind
    obtain ⟨before, long, after, hedit, hslots, hslots', _, _⟩ := h.slots
    obtain ⟨rest', hrest'⟩ := hedit.keeps_first (hslots.symm.trans hab) ha hb
      (hne a ha (.inl haname)) (hne b hb (.inr hbname))
    exact ⟨a, b, rest', hslots'.trans hrest', ha, haname, hadir, hafirst, hb, hbname, hbdir, hbfirst⟩
  · rw [h.slotsIn_of_ne hd hx hc hcx]
    exact ⟨a, b, rest, hab, ha, haname, hadir, hafirst, hb, hbname, hbdir, hbfirst⟩

end Rewrite

/-- A rewritten slot keeps the volume well formed when the new entry is a child that was not
there or a file with a chain of its own. -/
theorem WellFormedOn.rewrite {x : Nat} {s s' : Slot} {old new : List Listed}
    (hd : d.WellFormedOn held D) (hx : D x) (h : Rewrite d x s s' old new d')
    (hdot : x = d.root ∨ ¬ s.IsDot ∨ s.kind ≠ .entry)
    (hplain : ∀ p ∈ new, x ≠ d.root → ¬ p.slot.IsDot)
    (hchild : ∀ p ∈ new, p.IsDirectory → 2 ≤ p.firstCluster →
      D p.firstCluster ∧ p.firstCluster ≠ d.root ∧ d.DotSlots x p.firstCluster ∧
        ∀ {y q}, D y → d.Child y q → q.firstCluster = p.firstCluster → q.place = s.place)
    (hfile : ∀ p ∈ new, ¬ p.IsDirectory → 2 ≤ head held p → d.Valid (head held p) ∧
      ∃ xs, d.Chain (head held p) xs ∧
        ∀ e ∈ xs, ∀ o, o ≠ .file s.place → ¬ d.Owned held D o e) :
    d'.WellFormedOn held D := by
  have hchildren : ∀ {y p}, D y → d'.Child y p →
      d.Child y p ∨ y = x ∧ p ∈ new ∧ p.IsDirectory ∧ 2 ≤ p.firstCluster := by
    intro y p hy hp
    rcases (h.entry_iff hd hx hy).mp hp.entry with ⟨hentry, _⟩ | ⟨rfl, hnew, _⟩
    · exact .inl ⟨hentry, hp.directory, hp.first⟩
    · exact .inr ⟨rfl, hnew, hp.directory, hp.first⟩
  -- an owner is one from before, or the file of the rewritten slot
  have howners : ∀ {o c}, d'.Owns held D o c → d.Owns held D o c ∧ o ≠ .file s.place ∨
      o = .file s.place ∧ d.Valid c ∧ ∃ xs, d.Chain c xs ∧
        ∀ e ∈ xs, ∀ o, o ≠ .file s.place → ¬ d.Owned held D o e := by
    intro o c hown
    cases hown with
    | directory hc => exact .inl ⟨.directory hc, by simp⟩
    | file hy hp hnot hhead =>
        rcases (h.entry_iff hd hx hy).mp hp with ⟨hentry, hne⟩ | ⟨rfl, hnew, _⟩
        · exact .inl ⟨.file hy hentry hnot hhead, fun heq => hne (Owner.file.inj heq)⟩
        · obtain ⟨hvalid, hchain⟩ := hfile _ hnew hnot hhead
          exact .inr ⟨congrArg Owner.file (h.new_place hnew).2.1, hvalid, hchain⟩
  exact {
    unmarked := h.shape.unmarked hd.unmarked
    root := h.shape.root ▸ hd.root
    closed := fun {y p} hy hp => by
      rw [h.shape.root]
      rcases hchildren hy hp with hp | ⟨_, hnew, hdir, hfirst⟩
      · exact hd.closed hy hp
      · exact ⟨(hchild p hnew hdir hfirst).1, (hchild p hnew hdir hfirst).2.1⟩
    single := fun {y z p q} hy hz hp hq heq => by
      rcases hchildren hy hp with hp | ⟨_, hpnew, hpdir, hpfirst⟩
      · rcases hchildren hz hq with hq | ⟨_, hqnew, hqdir, hqfirst⟩
        · exact hd.single hy hz hp hq heq
        · rw [(h.new_place hqnew).2.1]
          exact (hchild q hqnew hqdir hqfirst).2.2.2 hy hp heq
      · rw [(h.new_place hpnew).2.1]
        rcases hchildren hz hq with hq | ⟨_, hqnew, _, _⟩
        · exact ((hchild p hpnew hpdir hpfirst).2.2.2 hz hq heq.symm).symm
        · exact (h.new_place hqnew).2.1.symm
    dots := fun {y p} hy hp => by
      rcases hchildren hy hp with hp | ⟨rfl, hnew, hdir, hfirst⟩
      · obtain ⟨hin, hroot⟩ := hd.closed hy hp
        exact h.dotSlots hd hx hdot hin hroot (hd.dots hy hp)
      · obtain ⟨hin, hroot, hdots, _⟩ := hchild p hnew hdir hfirst
        exact h.dotSlots hd hx hdot hin hroot hdots
    plain := fun {y p} hy hne hp hpdot => by
      rw [h.shape.root] at hne
      rcases (h.mem_listing hd hx hy).mp hp with ⟨hp, _⟩ | ⟨rfl, hnew⟩
      · exact hd.plain hy hne hp hpdot
      · exact absurd hpdot (hplain p hnew hne)
    tail := fun {y} hy => by
      by_cases hyx : y = x
      · subst hyx
        obtain ⟨before, long, after, hedit, hslots, hslots', _, _⟩ := h.slots
        rw [hslots']
        exact hedit.pairwise (hslots ▸ hd.tail hy)
      · rw [h.slotsIn_of_ne hd hx hy hyx]
        exact hd.tail hy
    chain := fun {o c} hown => by
      rw [h.chain_eq, h.chain_iff, h.shape.valid]
      rcases howners hown with ⟨hown, _⟩ | ⟨_, hvalid, xs, hchain, _⟩
      · exact hd.chain hown
      · exact ⟨hvalid, (hchain.chain_eq hd.unmarked).symm ▸ hchain⟩
    apart := fun {o o' c c' e} hown hown' he he' => by
      rw [h.chain_eq] at he he'
      rcases howners hown with ⟨hown, hne⟩ | ⟨rfl, _, xs, hchain, hfresh⟩
      · rcases howners hown' with ⟨hown', _⟩ | ⟨rfl, _, xs, hchain, hfresh⟩
        · exact hd.apart hown hown' he he'
        · rw [hchain.chain_eq hd.unmarked] at he'
          exact absurd ⟨c, hown, he⟩ (hfresh e he' o hne)
      · rcases howners hown' with ⟨hown', hne'⟩ | ⟨rfl, _⟩
        · rw [hchain.chain_eq hd.unmarked] at he
          exact absurd ⟨c', hown', he'⟩ (hfresh e he o' hne')
        · rfl }

end

end Disk

end Avery.Fat32
