import Avery.Fs.Reachability

/-!
# Changes of a well-formed volume

What the operations on paths have in common: the volume stays well formed, entries stay where
they are, and no cluster gets lost (`Change`).
-/

namespace Avery.Fat32

namespace Disk

/-- Handles are open on files that have an entry. -/
def Hosts (d : Disk) (held : Nat × Nat → Option Nat) : Prop :=
  ∀ {q f}, held q = some f →
    ∃ x p, d.Through d.Proper x ∧ d.Entry x p ∧ d.Proper x p ∧ p.place = q

/-- A change after which the volume is well formed.  Entries stay, except for the one at a place,
and when `strict` holds no cluster gets lost. -/
structure Change (strict : Prop) (place : Option (Nat × Nat)) (held : Nat × Nat → Option Nat)
    (d : Disk) (held' : Nat × Nat → Option Nat) (d' : Disk) : Prop where
  root : d'.root = d.root
  wellFormed : d'.WellFormed held'
  keeps : Keeps d d' place
  lost : strict → ∀ {c}, d'.Lost held' d'.Reachable c → d.Lost held d.Reachable c

variable {d d' d'' : Disk} {held held' held'' : Nat × Nat → Option Nat} {strict : Prop}
  {place : Option (Nat × Nat)}

namespace Change

theorem imp {strict' : Prop} (hs : strict' → strict) (h : Change strict place held d held' d') :
    Change strict' place held d held' d' :=
  ⟨h.root, h.wellFormed, h.keeps, fun h' => h.lost (hs h')⟩

end Change

theorem Quiet.change {o : Option Owner} (hd : d.WellFormed held)
    (h : Quiet strict held d.Reachable o d d') : Change strict none held d held d' where
  root := h.tree.shape.root
  wellFormed := h.wellFormed.wellFormed
  keeps := h.tree.keeps hd none
  lost hs {c} hc := h.lost hs (hc.of_owned (.refl d') rfl fun o hown => by
    obtain ⟨f, hf, hmem⟩ := hown
    exact ⟨o, f, hf.mono fun _ => (h.tree.reachable_iff hd).mpr, hmem⟩)

/-- A new entry leaves the owners. -/
theorem Rewrite.owned {x : Nat} {s s' : Slot} {new : List Listed} {D : Nat → Prop}
    (h : Rewrite d x s s' [] new d') (hd : d.WellFormedOn held D) (hx : D x) {o : Owner} {c : Nat}
    (hc : d.Owned held d.Reachable o c) : d'.Owned held d'.Reachable o c := by
  have hreach : ∀ {y}, d.Reachable y → d'.Reachable y :=
    h.reachable hd hx fun _ hp => nomatch hp
  obtain ⟨f, hf, hmem⟩ := hc
  refine ⟨f, ?_, h.chain_eq ▸ hmem⟩
  cases hf with
  | directory hy => exact .directory (hreach hy)
  | file hy hp hfile hhead =>
      have hy' := hd.reachable hy
      refine .file (hreach hy) ((h.entry_iff hd hx hy').mpr (.inl ⟨hp, fun heq => ?_⟩)) hfile hhead
      obtain ⟨_, hmem⟩ := h.mem_old hd hx hy' hp.listed heq
      cases hmem

end Disk

section

variable {fs fs' : FAT32FileSystem} {held : Nat × Nat → Option Nat} {strict : Prop}

theorem Uncreated.change {x : Nat} (hd : (view fs).WellFormed held)
    (h : Uncreated fs held (view fs).Reachable x fs') (hs : strict → fs.Reliable) :
    Disk.Change strict none held (view fs) held (view fs') :=
  (h.quiet.change hd).imp hs

theorem Created.not_dot {x : Nat} {name short : Str} {attributes : UInt8}
    {entry : DirectoryEntryInfo} {d : Disk} {s s' : Slot}
    (h : Created fs held (view fs).Reachable x short attributes entry fs' d s s')
    (hshort : makeShortName name = some short) : ¬ s'.IsDot := by
  obtain ⟨h₁, h₂⟩ := makeShortName_not_dot hshort
  rintro (hdot | hdot)
  · exact h₁ (h.stored.1.symm.trans hdot)
  · exact h₂ (h.stored.1.symm.trans hdot)

/-- A new directory can be reached, unless its slot counts as deleted. -/
theorem Created.reachable {x : Nat} {name short : Str} {attributes : UInt8}
    {entry : DirectoryEntryInfo} {d : Disk} {s s' : Slot} (hd : (view fs).WellFormed held)
    (h : Created fs held (view fs).Reachable x short attributes entry fs' d s s')
    (hx : (view fs).Reachable x) (hshort : makeShortName name = some short)
    (hdir : attributes &&& attributeDirectory ≠ 0) (hdeleted : short.getD 0 0 ≠ entryDeleted) :
    (view fs').Reachable entry.firstCluster := by
  obtain ⟨_, hattr, hfirst, _⟩ := h.stored
  obtain ⟨hvalid, _, _, _, _, hwf, _⟩ := h.directory hdir
  have hd' : d.WellFormed held := h.quiet.wellFormed.wellFormed
  have hx' : d.Reachable x := (h.quiet.tree.reachable_iff hd).mpr hx
  generalize hp : (⟨s', lfnAfter [] (takenSlots ((view fs).slotsIn x)),
    (takenSlots ((view fs).slotsIn x)).length⟩ : Listed) = p
  have hmem : p ∈ newEntries short s' (takenSlots ((view fs).slotsIn x)) := by
    rw [newEntries, if_neg hdeleted, hp]
    exact List.mem_cons_self ..
  have hslot : p.slot = s' := (h.rewrite.new_place hmem).1
  have hx'' : (view fs').Reachable x := h.rewrite.reachable hd' hx' (fun _ hp => nomatch hp) hx'
  have hentry : (view fs').Entry x p :=
    (h.rewrite.entry_iff hwf (.inl hx) (.inl hx)).mpr
      (.inr ⟨rfl, hmem, .inr (hslot ▸ h.not_dot hshort)⟩)
  have hfirst' : p.firstCluster = entry.firstCluster := by
    rw [Listed.firstCluster, hslot, hfirst]
  have hchild : (view fs').Child x p := by
    refine ⟨hentry, ?_, ?_⟩
    · rw [Listed.IsDirectory, hslot, hattr]
      exact hdir
    · rw [hfirst']
      exact hvalid.1
  have hreach := Disk.Reachable.child hx'' hchild
  rwa [hfirst'] at hreach

/-- The volume after an entry was made. -/
theorem Created.change {x : Nat} {name short : Str} {attributes : UInt8}
    {entry : DirectoryEntryInfo} {d : Disk} {s s' : Slot} (hd : (view fs).WellFormed held)
    (h : Created fs held (view fs).Reachable x short attributes entry fs' d s s')
    (hx : (view fs).Reachable x) (hheld : (view fs).Hosts held)
    (hshort : makeShortName name = some short)
    (hs : strict → fs.Reliable ∧
      (attributes &&& attributeDirectory ≠ 0 → short.getD 0 0 ≠ entryDeleted)) :
    Disk.Change strict none held (view fs) held (view fs') := by
  obtain ⟨_, hattr, hfirst, _⟩ := h.stored
  have htree := h.quiet.tree
  have hd' : d.WellFormed held := h.quiet.wellFormed.wellFormed
  have hx' : d.Reachable x := (htree.reachable_iff hd).mpr hx
  have hnotdot := h.not_dot hshort
  have hplain : ∀ p ∈ newEntries short s' (takenSlots ((view fs).slotsIn x)), x ≠ d.root →
      ¬ p.slot.IsDot := by
    intro p hp _
    rw [(h.rewrite.new_place hp).1]
    exact hnotdot
  -- no handle is open at a place without an entry
  have hfree : held s.place = none := by
    cases hq : held s.place with
    | none => rfl
    | some f =>
        obtain ⟨y, p, hy, hp, _, hplace⟩ := hheld hq
        obtain ⟨_, hmem⟩ := h.rewrite.mem_old h.quiet.wellFormed hx hy.reachable
          ((htree.entry hy.reachable).mpr hp).listed hplace
        cases hmem
  have hkeeps : Disk.Keeps (view fs) (view fs') none :=
    (htree.keeps hd none).trans htree.shape.root (h.rewrite.keeps_all hd' hx' none)
  have hroot : (view fs').root = (view fs).root :=
    h.rewrite.shape.root.trans htree.shape.root
  have howned : ∀ {o e}, d.Owned held (view fs).Reachable o e →
      (view fs').Owned held (view fs').Reachable o e := by
    rintro o e ⟨f, hf, he⟩
    exact h.rewrite.owned hd' hx' ⟨f, hf.mono fun _ => (htree.reachable_iff hd).mpr, he⟩
  by_cases hdir : attributes &&& attributeDirectory = 0
  · have hzero := h.file hdir
    refine ⟨hroot, (h.quiet.wellFormed.rewrite hx h.rewrite (.inr (.inr h.free)) hplain
      (fun p hp hpdir => ?_) fun p hp _ hhead => ?_).wellFormed, hkeeps, fun hstrict c hc => ?_⟩
    · rw [Listed.IsDirectory, (h.rewrite.new_place hp).1, hattr] at hpdir
      exact absurd hdir hpdir
    · rw [Disk.head, (h.rewrite.new_place hp).2.1, hfree, Option.getD_none, Listed.firstCluster,
        (h.rewrite.new_place hp).1, hfirst, hzero] at hhead
      exact absurd hhead (by decide)
    · refine h.quiet.lost ⟨(hs hstrict).1, hzero⟩
        (hc.of_owned h.rewrite.shape (congrFun h.rewrite.fat_eq c) fun o hown => ⟨o, howned hown⟩)
  · obtain ⟨hvalid, hfresh, hdots, hchain, hno, hwf, hlost⟩ := h.directory hdir
    have hother : ∀ {y q}, d.Reachable y ∨ y = entry.firstCluster → d.Child y q →
        q.firstCluster ≠ entry.firstCluster := by
      rintro y q (hy | rfl) hq heq
      · refine hfresh _ ⟨_, .directory ((htree.reachable_iff hd).mp (.child hy hq)), ?_⟩
        rw [heq, hchain]
        exact List.mem_cons_self ..
      · exact hno q hq.entry
    have hnotroot : entry.firstCluster ≠ d.root := by
      intro heq
      refine hfresh _ ⟨_, .directory h.quiet.wellFormed.root, ?_⟩
      rw [← heq, hchain]
      exact List.mem_cons_self ..
    have hwf' := hwf.rewrite (.inl hx) h.rewrite (.inr (.inr h.free)) hplain
      (fun p hp _ _ => by
        have hfirst' : p.firstCluster = entry.firstCluster := by
          rw [Listed.firstCluster, (h.rewrite.new_place hp).1, hfirst]
        rw [hfirst']
        exact ⟨.inr rfl, hnotroot, hdots, fun hy hq heq =>
          absurd heq (hother (hy.imp (htree.reachable_iff hd).mpr id) hq)⟩)
      (fun p hp hfile => by
        rw [Listed.IsDirectory, (h.rewrite.new_place hp).1, hattr] at hfile
        exact absurd hdir hfile)
    refine ⟨hroot, hwf'.wellFormed, hkeeps, fun hstrict c hc => ?_⟩
    obtain ⟨hr, hnotdeleted⟩ := hs hstrict
    -- the new directory can be reached, so its cluster is not lost
    have hreach := h.reachable hd hx hshort hdir (hnotdeleted hdir)
    have hne : c ≠ entry.firstCluster := by
      rintro rfl
      refine hc.unowned _ ⟨_, .directory hreach, ?_⟩
      rw [h.rewrite.chain_eq, hchain]
      exact List.mem_cons_self ..
    exact hlost hr (hc.of_owned h.rewrite.shape (congrFun h.rewrite.fat_eq c)
      fun o hown => ⟨o, howned hown⟩) hne

/-- The volume after an entry was removed. -/
theorem Removed.change {x : Nat} {p : Listed} {result : Except VFSError Unit} {d : Disk} {s' : Slot}
    {ys : List Nat} (hd : (view fs).WellFormed held) (hx : (view fs).Reachable x)
    (hp : (view fs).Entry x p) (hheld : held p.place = none)
    (h : Removed fs x p result fs' d s' ys)
    (hs : strict → result = .ok () ∧
      ((view fs).Child x p → ∀ q, ¬ (view fs).Entry p.firstCluster q)) :
    Disk.Change strict (some p.place) held (view fs) held (view fs') := by
  obtain ⟨hd₁, hspares, hwf⟩ := h.rewrite.removed hd hx hp hheld fun c hc => h.initial.subset hc
  have htree := hspares.sameTree hd₁.wellFormed fun c => by simp
  rw [← h.freed] at hspares hwf htree
  have hroot : d.root = (view fs).root := h.rewrite.shape.root
  refine ⟨htree.shape.root.trans hroot, hwf, .trans hroot (fun y q hy hq hname hplace => ?_)
    (htree.keeps hd₁.wellFormed _), fun hstrict c hc => ?_⟩
  · -- an empty directory lists dot names only
    have hdots : (view fs).Child x p → ∀ q, (view fs).Entry p.firstCluster q →
        ¬ (view fs).Proper p.firstCluster q := by
      intro hchild q hq hproper
      rcases hproper with hroot | hname
      · exact (hd.closed hx hchild).2 hroot
      · rw [(h.empty hchild.directory).2 q hq.listed] at hname
        cases hname
    refine ⟨?_, (h.rewrite.entry_iff hd hx hy.reachable).mpr
      (.inl ⟨hq, fun heq => hplace (congrArg some heq)⟩)⟩
    rw [Disk.proper_congr hroot]
    exact h.rewrite.through_removed hd hx hdots hy fun hchild heq =>
      hdots hchild q (heq ▸ hq) (heq ▸ hname)
  · obtain ⟨hok, hempty⟩ := hs hstrict
    have hys := h.all hok
    have hnot : c ∉ ys := by
      intro hmem
      refine hc.used ?_
      rw [h.freed]
      simp [Disk.freeAll, hmem, freeCluster]
    have hfat : (view fs').fat c = (view fs).fat c := by
      rw [h.freed, ← congrFun h.rewrite.fat_eq c]
      simp [Disk.freeAll, hnot]
    have hreach : ∀ {y}, (view fs).Reachable y → ((view fs).Child x p → y ≠ p.firstCluster) →
        d.Reachable y := fun hy hne =>
      (h.rewrite.through_removed hd hx (fun hchild q hq _ => hempty hchild q hq) hy.through
        hne).reachable
    have hsame : ∀ {o}, d.Owned held d.Reachable o c →
        (view fs').Owned held (view fs').Reachable o c := by
      intro o hown
      obtain ⟨f, hf, hmem⟩ := (hspares.owned_iff hd₁.wellFormed).mpr hown
      exact ⟨f, hf.mono fun _ => (htree.reachable_iff hd₁.wellFormed).mpr, hmem⟩
    refine hc.of_owned (h.rewrite.shape.trans htree.shape) hfat fun o hown => ⟨o, hsame ?_⟩
    obtain ⟨f, hf, hmem⟩ := hown
    refine ⟨f, ?_, h.rewrite.chain_eq ▸ hmem⟩
    cases hf with
    | directory hy =>
        refine .directory (hreach hy fun _ heq => hnot ?_)
        rw [hys, ← heq]
        exact hmem
    | @file y q hy hq hfile hhead =>
        have hplace : q.place ≠ p.slot.place := by
          intro heq
          obtain ⟨rfl, hold⟩ := h.rewrite.mem_old hd hx hy hq.listed heq
          cases List.mem_singleton.mp hold
          refine hnot ?_
          rw [Disk.head, hheld, Option.getD_none] at hmem
          rw [hys]
          exact hmem
        refine .file (hreach hy fun hchild heq => hempty hchild q (heq ▸ hq)) ?_ hfile hhead
        exact (h.rewrite.entry_iff hd hx hy).mpr (.inl ⟨hq, hplace⟩)

end

end Avery.Fat32
