import Avery.Fs.HandleFrames
import Avery.Fs.NewNames

/-!
# What operations on paths leave alone

A path leads through directories that are named properly, and a file that it leads to is
visible (`WellFormed.resolve_visible`).  `createFile`, `createDirectory` and `remove` leave all
visible files alone but the one that comes or goes (`Uncreated.frame`, `Created.frame`,
`Removed.frame`).
-/

namespace Avery.Fat32

namespace Disk

variable {d d' : Disk} {held : Nat × Nat → Option Nat} {D : Nat → Prop} {x y c : Nat} {p q : Listed}
  {part path : Str} {e : DirectoryEntryInfo}

/-! ## Where paths lead -/

/-- A dot name leads to the directory itself or to its parent. -/
theorem DotSlots.find_dot (h : d.DotSlots x c) (hfind : d.find c part = some p)
    (hdot : isDotEntry p.name = true) :
    p.firstCluster = c ∨ p.firstCluster = x ∨ p.firstCluster = 0 := by
  obtain ⟨s, t, rest, hlist, hsname, htname, -, -, hsfirst, htfirst⟩ := listing_dots h
  have hsn : (⟨s, [], 0⟩ : Listed).name = [dot] := by
    rw [Listed.name, if_pos rfl, hsname, decode_fillDotName]
    rfl
  have htn : (⟨t, [], 1⟩ : Listed).name = [dot, dot] := by
    rw [Listed.name, if_pos rfl, htname, decode_fillDotName]
    rfl
  have hpart : isDotEntry part = true := isDotEntry_congr (find_mem hfind).2 ▸ hdot
  unfold find at hfind
  rw [hlist, List.find?_cons, List.find?_cons, hsn, htn] at hfind
  rcases isDotEntry_iff.mp hpart with rfl | rfl
  · have hself : namesEqual [dot] [dot] = true := by decide
    rw [hself] at hfind
    cases hfind
    exact .inl hsfirst
  · have hself : namesEqual [dot, dot] [dot, dot] = true := by decide
    have hother : namesEqual [dot] [dot, dot] = false := by decide
    rw [hother, hself] at hfind
    cases hfind
    exact .inr (htfirst.imp id And.right)

/-- The directory that a name leads to, in a directory that is led to. -/
theorem WellFormed.find_through (hd : d.WellFormed held) (hx : d.Through d.Proper x)
    (hfind : d.find x part = some p) (hdir : p.IsDirectory) :
    d.Through d.Proper p.firstCluster ∨ p.firstCluster < 2 := by
  rcases hd.find_cases hx.reachable hfind with ⟨hentry, hproper⟩ | ⟨hroot, -, hdot, -, -⟩
  · by_cases hfirst : 2 ≤ p.firstCluster
    · exact .inl (.child hx ⟨hentry, hdir, hfirst⟩ hproper)
    · exact .inr (Nat.not_le.mp hfirst)
  · cases hx with
    | root => exact absurd rfl hroot
    | @child y q hy hq hproper =>
        rcases (hd.dots hy.reachable hq).find_dot hfind hdot with heq | heq | heq
        · rw [heq]
          exact .inl (.child hy hq hproper)
        · rw [heq]
          exact .inl hy
        · rw [heq]
          exact .inr Nat.zero_lt_two

theorem WellFormed.locate_through (hd : d.WellFormed held) {parts : List Str}
    (hx : d.Through d.Proper x) (hlocate : d.locate x parts = some (y, p)) :
    d.Through d.Proper y ∧ ∃ part, d.find y part = some p := by
  induction parts generalizing x with
  | nil => cases hlocate
  | cons part parts ih =>
      rw [locate] at hlocate
      cases hfind : d.find x part with
      | none =>
          rw [hfind] at hlocate
          cases hlocate
      | some q =>
          simp only [hfind] at hlocate
          split at hlocate
          · cases hlocate
            exact ⟨hx, part, hfind⟩
          split at hlocate
          · next hdir =>
            rcases hd.find_through hx hfind hdir with hnext | hlow
            · exact ih hnext hlocate
            · rw [locate_of_lt hlow] at hlocate
              cases hlocate
          · cases hlocate

/-- A path that leads to no directory leads to a visible file. -/
theorem WellFormed.resolve_visible (hd : d.WellFormed held) (he : d.resolve path = some e)
    (hfile : e.isDirectory = false) : ∃ x p, d.Visible x p ∧ e = p.info x := by
  rcases resolve_cases he with rfl | ⟨x, p, hlocate, rfl⟩
  · have hdir : (rootEntry d.root).isDirectory = true := by
      change decide (attributeDirectory &&& attributeDirectory ≠ 0) = true
      decide
    rw [hdir] at hfile
    cases hfile
  · have hnot : ¬ p.IsDirectory := fun hdir => by
      rw [(p.isDirectory_iff x).mpr hdir] at hfile
      cases hfile
    obtain ⟨hx, part, hfind⟩ := hd.locate_through .root hlocate
    rcases hd.find_cases hx.reachable hfind with ⟨hentry, hproper⟩ | ⟨-, -, -, hdir, -⟩
    · exact ⟨x, p, ⟨hx, hentry, hproper, hnot⟩, rfl⟩
    · exact absurd hdir hnot

/-- A place tells the visible file. -/
theorem WellFormed.visible_unique (hd : d.WellFormed held) (hp : d.Visible x p) (hq : d.Visible y q)
    (hplace : p.place = q.place) : x = y ∧ p = q :=
  hd.listed_unique hp.through.reachable hq.through.reachable hp.entry.listed hq.entry.listed hplace

/-! ## Entries that come and go -/

namespace Rewrite

variable {s s' : Slot} {old new : List Listed}

/-- Where the slot was rewritten, a visible file is a new one. -/
theorem visible_new (h : Rewrite d x s s' old new d') (hd : d.WellFormedOn held D) (hx : D x)
    (hnew : ∀ p ∈ new, p.IsDirectory → ∀ q, ¬ d'.Entry p.firstCluster q) (hq : d'.Visible y q)
    (hplace : q.place = s.place) : y = x ∧ q ∈ new := by
  have hy := (h.through_old hd hx hnew hq.through).resolve_right fun hempty => hempty q hq.entry
  rcases (h.entry_iff hd hx (hd.reachable hy.reachable)).mp hq.entry with ⟨-, hne⟩ | ⟨hyx, hmem, -⟩
  · exact absurd hplace hne
  · exact ⟨hyx, hmem⟩

theorem place_eq (h : Rewrite d x s s' old new d') : s'.place = s.place := by
  obtain ⟨_, _, _, hedit, -⟩ := h.slots
  exact hedit.place

end Rewrite

end Disk

section

variable {fs fs' : FAT32FileSystem} {held : Nat × Nat → Option Nat} {x : Nat} {short : Str}
  {attributes : UInt8} {entry : DirectoryEntryInfo} {d : Disk} {s s' : Slot}

theorem Uncreated.frame (h : Uncreated fs held (view fs).Reachable x fs')
    (hd : (view fs).WellFormed held) : Disk.Frame none held (view fs) held (view fs') := by
  refine h.quiet.frame hd fun q heq => ?_
  cases heq

namespace Created

/-- A new directory is empty but for its dot entries. -/
theorem empty (h : Created fs held (view fs).Reachable x short attributes entry fs' d s s')
    (hx : (view fs).Reachable x) {p : Listed}
    (hp : p ∈ newEntries short s' (takenSlots ((view fs).slotsIn x))) (hdir : p.IsDirectory)
    (q : Listed) : ¬ (view fs').Entry p.firstCluster q := by
  obtain ⟨-, hattr, hfirst, -⟩ := h.stored
  have hslot := (h.rewrite.new_place hp).1
  rw [Listed.IsDirectory, hslot, hattr] at hdir
  rw [Listed.firstCluster, hslot, hfirst]
  obtain ⟨-, hfresh, -, hchain, hno, hwf, -⟩ := h.directory hdir
  intro hq
  rcases (h.rewrite.entry_iff hwf (.inl hx) (.inr rfl)).mp hq with ⟨hold, -⟩ | ⟨heq, -⟩
  · exact hno q hold
  · refine hfresh _ ⟨_, .directory hx, ?_⟩
    rw [← heq, hchain]
    exact List.mem_cons_self ..

/-- Nothing was to be seen at the place of the new slot. -/
theorem unused (h : Created fs held (view fs).Reachable x short attributes entry fs' d s s')
    (hx : (view fs).Reachable x) {y : Nat} {q : Listed} (hq : (view fs).Visible y q) :
    q.place ≠ s'.place := by
  intro heq
  have hy := hq.through.reachable
  obtain ⟨-, hmem⟩ := h.rewrite.mem_old h.quiet.wellFormed hx hy
    ((h.quiet.tree.entry hy).mpr hq.entry).listed (heq.trans h.rewrite.place_eq)
  cases hmem

theorem frame (h : Created fs held (view fs).Reachable x short attributes entry fs' d s s')
    (hd : (view fs).WellFormed held) (hx : (view fs).Reachable x) :
    Disk.Frame (some s'.place) held (view fs) held (view fs') := by
  have hquiet : Disk.Frame none held (view fs) held d := by
    refine h.quiet.frame hd fun q heq => ?_
    cases heq
  rw [h.rewrite.place_eq]
  refine (hquiet.weaken _).trans hd (h.rewrite.frame h.quiet.wellFormed hx (fun hq _ => ?_)
    fun p hp hdir q => h.empty hx hp hdir q)
  have hd' : d.WellFormed held := h.quiet.wellFormed.wellFormed
  have hx' : d.Reachable x := (h.quiet.tree.reachable_iff hd).mpr hx
  exact (h.rewrite.keeps_all hd' hx' none).visible h.rewrite.shape.root hq (Option.some_ne_none _)

/-- What can be seen at the place of the new slot is the new file. -/
theorem visible_eq (h : Created fs held (view fs).Reachable x short attributes entry fs' d s s')
    (hx : (view fs).Reachable x) {y : Nat} {q : Listed} (hq : (view fs').Visible y q)
    (hplace : q.place = s'.place) :
    y = x ∧ q = newListed (takenSlots ((view fs).slotsIn x)) s' := by
  obtain ⟨hyx, hmem⟩ := h.rewrite.visible_new h.quiet.wellFormed hx
    (fun p hp hdir q => h.empty hx hp hdir q) hq (hplace.trans h.rewrite.place_eq)
  exact ⟨hyx, (mem_newEntries.mp hmem).1⟩

end Created

theorem Removed.frame {p : Listed} {result : Except VFSError Unit} {ys : List Nat}
    (h : Removed fs x p result fs' d s' ys) (hd : (view fs).WellFormed held)
    (hx : (view fs).Reachable x) (hp : (view fs).Entry x p) (hheld : held p.place = none) :
    Disk.Frame (some p.place) held (view fs) held (view fs') ∧ (view fs').WellFormed held ∧
      ∀ {y q}, (view fs').Visible y q → q.place ≠ p.place := by
  have hchange : Disk.Change False (some p.place) held (view fs) held (view fs') :=
    h.change hd hx hp hheld False.elim
  obtain ⟨hd₁, hspares, -⟩ := h.rewrite.removed hd hx hp hheld fun c hc => h.initial.subset hc
  have htree := hspares.sameTree hd₁.wellFormed fun c => by simp
  rw [← h.freed] at hspares htree
  have hfreed : Disk.Frame none held d held (view fs') :=
    hspares.frame htree hd₁.wellFormed fun q heq => by cases heq
  have hnew : ∀ q ∈ ([] : List Listed), q.IsDirectory → ∀ r, ¬ d.Entry q.firstCluster r :=
    fun q hq => nomatch hq
  have hframe : Disk.Frame (some p.place) held (view fs) held d :=
    h.rewrite.frame hd hx (fun hq hne => (hfreed.visible (Option.some_ne_none _)).mp
      (hchange.keeps.visible hchange.root hq hne)) hnew
  refine ⟨hframe.trans hd (hfreed.weaken _), hchange.wellFormed, fun hq heq => ?_⟩
  have hq' := (hfreed.visible (Option.some_ne_none _)).mp hq
  obtain ⟨-, hmem⟩ := h.rewrite.visible_new hd hx hnew hq' heq
  cases hmem

end

end Avery.Fat32
