import Avery.Fs.FileChanges

/-!
# What an operation leaves alone

An operation works on the file at one place, or on none.  All other files that a path can
find stay visible, with their clusters and what these hold, and no other file turns up
(`Frame`).  Frames compose, and every change of a volume has one.
-/

namespace Avery.Fat32

namespace Disk

variable {d d' d'' : Disk} {held held' held'' : Nat × Nat → Option Nat} {strict : Prop}
  {place : Option (Nat × Nat)} {D : Nat → Prop} {x : Nat} {p : Listed}

/-- A path can find the file `p` in the directory `x`. -/
structure Visible (d : Disk) (x : Nat) (p : Listed) : Prop where
  through : d.Through d.Proper x
  entry : d.Entry x p
  proper : d.Proper x p
  file : ¬ p.IsDirectory

theorem Visible.toFile (h : d.Visible x p) : d.File x p :=
  ⟨h.through.reachable, h.entry, h.file⟩

theorem Keeps.visible (h : Keeps d d' place) (hroot : d'.root = d.root) (hp : d.Visible x p)
    (hne : some p.place ≠ place) : d'.Visible x p := by
  obtain ⟨hthrough, hentry⟩ := h x p hp.through hp.entry hp.proper hne
  refine ⟨hthrough, hentry, ?_, hp.file⟩
  rw [proper_congr hroot]
  exact hp.proper

/-- Only the file at the place has changed, has come or has gone. -/
structure Frame (place : Option (Nat × Nat)) (held : Nat × Nat → Option Nat) (d : Disk)
    (held' : Nat × Nat → Option Nat) (d' : Disk) : Prop where
  shape : SameShape d d'
  heads : ∀ {q}, some q ≠ place → held' q = held q
  visible : ∀ {x p}, some p.place ≠ place → (d'.Visible x p ↔ d.Visible x p)
  kept : ∀ {x p}, d.Visible x p → some p.place ≠ place → ∀ c ∈ d.chain (head held p),
    d'.fat c = d.fat c ∧ d'.data c = d.data c

/-- The chain of a file. -/
theorem File.leads (hd : d.WellFormed held) (hp : d.File x p) :
    d.Leads (head held p) (d.chain (head held p)) := by
  rcases Nat.lt_or_ge (head held p) 2 with hlow | htwo
  · exact .inl ⟨hlow, chain_of_lt hlow⟩
  · exact .inr (hd.chain (.file hp.reachable hp.entry hp.file htwo))

namespace Frame

theorem refl (place : Option (Nat × Nat)) (held : Nat × Nat → Option Nat) (d : Disk) :
    Frame place held d held d :=
  ⟨.refl d, fun _ => rfl, fun _ => Iff.rfl, fun _ _ _ _ => ⟨rfl, rfl⟩⟩

theorem weaken (h : Frame none held d held' d') (place : Option (Nat × Nat)) :
    Frame place held d held' d' :=
  ⟨h.shape, fun _ => h.heads (Option.some_ne_none _), fun _ => h.visible (Option.some_ne_none _),
    fun hp _ => h.kept hp (Option.some_ne_none _)⟩

theorem head_eq (h : Frame place held d held' d') (hne : some p.place ≠ place) :
    head held' p = head held p := by
  unfold head
  rw [h.heads hne]

theorem chain_eq (h : Frame place held d held' d') (hd : d.WellFormed held) (hp : d.Visible x p)
    (hne : some p.place ≠ place) : d'.chain (head held p) = d.chain (head held p) := by
  rcases hp.toFile.leads hd with ⟨hlow, -⟩ | ⟨-, hchain⟩
  · rw [chain_of_lt hlow, chain_of_lt hlow]
  · exact (h.shape.chain_eq hd.unmarked hchain fun c hc => (h.kept hp hne c hc).1).2

theorem content_eq (h : Frame place held d held' d') (hp : d.Visible x p)
    (hne : some p.place ≠ place) :
    d'.content (d.chain (head held p)) = d.content (d.chain (head held p)) :=
  content_congr h.shape fun c hc => (h.kept hp hne c hc).2

theorem trans (h : Frame place held d held' d') (hd : d.WellFormed held)
    (h' : Frame place held' d' held'' d'') : Frame place held d held'' d'' where
  shape := h.shape.trans h'.shape
  heads hne := (h'.heads hne).trans (h.heads hne)
  visible hne := (h'.visible hne).trans (h.visible hne)
  kept {y p} hp hne c hc := by
    have hc' : c ∈ d'.chain (head held' p) := by
      rw [h.head_eq hne, h.chain_eq hd hp hne]
      exact hc
    obtain ⟨hfat, hdata⟩ := h.kept hp hne c hc
    obtain ⟨hfat', hdata'⟩ := h'.kept ((h.visible hne).mpr hp) hne c hc'
    exact ⟨hfat'.trans hfat, hdata'.trans hdata⟩

end Frame

/-! ## Changes without an entry -/

theorem SameTree.visible_iff (h : SameTree d d' D) (hd : d.WellFormedOn held D) :
    d'.Visible x p ↔ d.Visible x p := by
  have hroot := h.shape.root
  have hthrough : ∀ {y}, d'.Through d'.Proper y → d.Through d.Proper y := by
    intro y hy
    rw [proper_congr hroot] at hy
    induction hy with
    | root => exact hroot ▸ .root
    | child _ hq hname ih => exact .child ih (h.child (hd.reachable ih.reachable) hq) hname
  constructor
  · rintro ⟨hx, hp, hname, hfile⟩
    have hx' := hthrough hx
    rw [proper_congr hroot] at hname
    exact ⟨hx', (h.entry (hd.reachable hx'.reachable)).mp hp, hname, hfile⟩
  · exact fun hp => (h.keeps hd none).visible hroot hp (Option.some_ne_none _)

/-- A member of a visible file's chain is owned by the file. -/
theorem Visible.owned (hp : d.Visible x p) {c : Nat} (hc : c ∈ d.chain (head held p)) :
    d.Owned held d.Reachable (.file p.place) c := by
  refine ⟨head held p, .file hp.through.reachable hp.entry hp.file ?_, hc⟩
  by_contra hlow
  rw [chain_of_lt (Nat.not_le.mp hlow)] at hc
  cases hc

theorem Spares.frame {o : Option Owner} (h : Spares d d' held D o) (htree : SameTree d d' D)
    (hd : d.WellFormedOn held D) (ho : ∀ q, o ≠ some (.file q)) : Frame none held d held d' where
  shape := htree.shape
  heads _ := rfl
  visible _ := htree.visible_iff hd
  kept hp _ c hc := by
    obtain ⟨f, hf, hmem⟩ := hp.owned hc
    exact h.kept (Ne.symm (ho _)) ⟨f, hf.mono fun _ => hd.reachable, hmem⟩

theorem Quiet.frame {o : Option Owner} (h : Quiet strict held D o d d')
    (hd : d.WellFormedOn held D) (ho : ∀ q, o ≠ some (.file q)) : Frame none held d held d' :=
  h.spares.frame h.tree hd ho

/-! ## Changes of an entry -/

/-- Behind a rewritten slot there is no directory that was not there, except for empty ones. -/
theorem Rewrite.through_old {s s' : Slot} {old new : List Listed} (h : Rewrite d x s s' old new d')
    (hd : d.WellFormedOn held D) (hx : D x)
    (hnew : ∀ p ∈ new, p.IsDirectory → ∀ q, ¬ d'.Entry p.firstCluster q) {y : Nat}
    (hy : d'.Through d'.Proper y) : d.Through d.Proper y ∨ ∀ q, ¬ d'.Entry y q := by
  have hroot := h.shape.root
  rw [proper_congr hroot] at hy
  induction hy with
  | root => exact .inl (hroot ▸ .root)
  | @child y q _ hq hname ih =>
      have hy := ih.resolve_right fun hempty => hempty q hq.entry
      rcases (h.entry_iff hd hx (hd.reachable hy.reachable)).mp hq.entry with
        ⟨hentry, -⟩ | ⟨-, hmem, -⟩
      · exact .inl (.child hy ⟨hentry, hq.directory, hq.first⟩ hname)
      · exact .inr (hnew q hmem hq.directory)

theorem Rewrite.frame {s s' : Slot} {old new : List Listed} (h : Rewrite d x s s' old new d')
    (hd : d.WellFormedOn held D) (hx : D x)
    (hkeeps : ∀ {y q}, d.Visible y q → some q.place ≠ some s.place → d'.Visible y q)
    (hnew : ∀ p ∈ new, p.IsDirectory → ∀ q, ¬ d'.Entry p.firstCluster q) :
    Frame (some s.place) held d held d' where
  shape := h.shape
  heads _ := rfl
  visible {y p} hne := by
    refine ⟨fun hp => ?_, fun hp => hkeeps hp hne⟩
    have hy := (h.through_old hd hx hnew hp.through).resolve_right fun hempty =>
      hempty p hp.entry
    rcases (h.entry_iff hd hx (hd.reachable hy.reachable)).mp hp.entry with
      ⟨hentry, -⟩ | ⟨-, hmem, -⟩
    · refine ⟨hy, hentry, ?_, hp.file⟩
      rw [← proper_congr h.shape.root]
      exact hp.proper
    · exact absurd (congrArg some (h.new_place hmem).2.1) hne
  kept {y p} hp _ c hc := by
    refine ⟨congrFun h.fat_eq c, h.data_of_ne ?_⟩
    rintro rfl
    -- the slot lies in a directory
    obtain ⟨f, hf, hmem⟩ := hp.owned hc
    cases hd.apart (.directory hx) (hf.mono fun _ => hd.reachable) h.inside hmem

/-! ## Changes of a file's clusters -/

/-- The file with the clusters `xs` now has the clusters `xs'`, of those it had and of free
ones.  The other clusters in use are as before, and when `strict` holds no cluster gets
lost. -/
structure Reshaped (strict : Prop) (d : Disk) (xs : List Nat) (d' : Disk) (xs' : List Nat) :
    Prop where
  shape : SameShape d d'
  kept : ∀ c ∉ xs, d.fat c ≠ 0 → d'.fat c = d.fat c ∧ d'.data c = d.data c
  fresh : ∀ c ∈ xs', c ∉ xs → d.fat c = 0
  lost : strict → ∀ c ∉ xs', d'.fat c = 0 ∨ c ∉ xs ∧ d'.fat c = d.fat c

theorem Reworked.reshaped {xs xs' : List Nat} (h : Reworked strict d xs d' xs') :
    Reshaped strict d xs d' xs' where
  shape := h.shape
  kept c hc hused := h.kept c (fun hmem => hused (h.fresh c hmem hc).2) hused
  fresh c hc hnot := (h.fresh c hc hnot).2
  lost hs c hc := .inr ⟨fun hmem => hc (h.initial.subset hmem), h.exact hs c hc⟩

theorem reshaped_freeAll (strict : Prop) (d : Disk) (xs : List Nat) :
    Reshaped strict d xs (d.freeAll xs) [] where
  shape := ⟨rfl, rfl, rfl⟩
  kept c hc _ := by simp [freeAll, hc]
  fresh c hc _ := nomatch hc
  lost _ c _ := by
    by_cases hc : c ∈ xs
    · exact .inl (by simp [freeAll, hc])
    · exact .inr ⟨hc, by simp [freeAll, hc]⟩

/-- The chain is ended at a cluster, and what is behind it is freed. -/
theorem Reshaped.cut {xs ys zs : List Nat} {last : Nat}
    (h : Reshaped strict d xs d' (ys ++ last :: zs)) :
    Reshaped strict d xs ((d'.freeAll zs).setFat last 0x0FFFFFFF) (ys ++ [last]) := by
  have hzero : ∀ {c}, c ≠ last → c ∈ zs → ((d'.freeAll zs).setFat last 0x0FFFFFFF).fat c = 0 := by
    intro c hne hmem
    rw [fat_setFat_of_ne hne]
    simp [freeAll, hmem]
  have hsame : ∀ {c}, c ≠ last → c ∉ zs →
      ((d'.freeAll zs).setFat last 0x0FFFFFFF).fat c = d'.fat c := by
    intro c hne hmem
    rw [fat_setFat_of_ne hne]
    simp [freeAll, hmem]
  refine ⟨h.shape.trans ⟨rfl, rfl, rfl⟩, fun c hc hused => ?_, fun c hc hnot => ?_,
    fun hs c hc => ?_⟩
  · have hout : c ∉ ys ++ last :: zs := fun hin => hused (h.fresh c hin hc)
    simp only [List.mem_append, List.mem_cons, not_or] at hout
    obtain ⟨hfat, hdata⟩ := h.kept c hc hused
    exact ⟨(hsame hout.2.1 hout.2.2).trans hfat, hdata⟩
  · refine h.fresh c ?_ hnot
    simp only [List.mem_append, List.mem_cons, List.not_mem_nil, or_false] at hc ⊢
    exact hc.imp id .inl
  · simp only [List.mem_append, List.mem_cons, List.not_mem_nil, or_false, not_or] at hc
    by_cases hmem : c ∈ zs
    · exact .inl (hzero hc.2 hmem)
    · have hout : c ∉ ys ++ last :: zs := by
        simp only [List.mem_append, List.mem_cons, not_or]
        exact ⟨hc.1, hc.2, hmem⟩
      rw [hsame hc.2 hmem]
      exact h.lost hs c hout

variable {f f' : Nat} {xs xs' : List Nat}

theorem Reshaped.change (h : Reshaped strict d xs d' xs') (hd : d.WellFormed held)
    (hp : d.File x p) (hheld : held p.place = some f) (hleads : d.Leads f xs)
    (hleads' : d'.Leads f' xs') :
    Change strict none held d (Function.update held p.place (some f')) d' :=
  hd.file_change hp hheld hleads h.shape h.kept h.fresh hleads' h.lost

theorem Reshaped.frame (h : Reshaped strict d xs d' xs') (hd : d.WellFormed held)
    (hp : d.File x p) (hheld : held p.place = some f) (hleads : d.Leads f xs)
    (f' : Nat) :
    Frame (some p.place) held d (Function.update held p.place (some f')) d' := by
  have hout : ∀ {o c}, o ≠ .file p.place → d.Owned held d.Reachable o c → c ∉ xs := by
    rintro o c ho ⟨g, hg, hc⟩ hmem
    obtain ⟨g', hg', hc'⟩ := hp.owned hd.unmarked hheld hleads hmem
    exact ho (hd.apart hg hg' hc hc')
  have hspares : Spares d d' held d.Reachable (some (.file p.place)) := by
    refine ⟨h.shape, fun {o c} ho hown => ?_⟩
    exact h.kept c (hout (fun heq => ho (congrArg some heq)) hown) (hd.fat_ne_free hown)
  have htree := hspares.sameTree hd fun c => by simp
  refine ⟨h.shape, fun hne => Function.update_of_ne (fun heq => hne (congrArg some heq)) ..,
    fun _ => htree.visible_iff hd, fun {y q} hq hne c hc => hspares.kept (fun heq => hne ?_)
      (hq.owned hc)⟩
  rw [Owner.file.inj (Option.some.inj heq)]

/-! ## Opening and closing -/

theorem frame_update (held : Nat × Nat → Option Nat) (d : Disk) (q : Nat × Nat) (v : Option Nat) :
    Frame (some q) held d (Function.update held q v) d :=
  ⟨.refl d, fun hne => Function.update_of_ne (fun heq => hne (congrArg some heq)) .., fun _ => Iff.rfl,
    fun _ _ _ _ => ⟨rfl, rfl⟩⟩

end Disk

end Avery.Fat32
