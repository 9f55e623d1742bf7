import Avery.Fs.Frames
import Avery.Fs.PathScanners
import Avery.Fs.RootFiles
import Avery.Fs.ShortNames

/-!
# Names of new entries

`createFile` and `createDirectory` write a slot that is listed under a name of its own: the name
that was asked for as far as eleven bytes can hold it, or a long name that was left in front of
the slot (`shownName`).  When that name is the one asked for, the path leads to the new entry
and every other path leads where it did before, and else it is not so
(`createEntry_visible_iff`).
-/

namespace Avery.Fat32

open ByteMemory

/-! ## Paths and their parents -/

theorem splitPath_of_basename {path short : Str} (h : makeShortName (basenameOf path) = some short) :
    splitPath path ≠ [] := by
  intro hnil
  obtain ⟨_, _, _, _, hslash, -⟩ := makeShortName_eq_some h
  obtain ⟨c, rest, hname, -⟩ := makeShortName_first h
  obtain ⟨n, rfl⟩ := eq_slashes_of_splitPath hnil
  cases n with
  | zero => cases hname
  | succ n =>
      cases n with
      | zero => exact hslash (by decide)
      | succ n =>
          rw [basenameOf_slashes] at hname
          cases hname

namespace Disk

variable {d d' : Disk} {held : Nat × Nat → Option Nat} {D : Nat → Prop} {x : Nat} {n : Listed}
  {s s' : Slot}

/-- The last component of a path is looked up in the directory of the others. -/
theorem resolve_parent {path : Str} {parent : DirectoryEntryInfo} (hne : splitPath path ≠ [])
    (hparent : d.resolve (parentOf path) = some parent) (hdir : parent.isDirectory = true) :
    d.resolve path = (d.find parent.firstCluster (basenameOf path)).map
      (Listed.info · parent.firstCluster) := by
  rw [resolve_of_splitPath hne, ← splitPath_recompose hne]
  unfold resolve at hparent
  split at hparent
  · next hroot =>
    cases hparent
    have hnil : splitPath (parentOf path) = [] := by
      rcases hroot with h | h
      · rw [h]
        rfl
      · rw [h]
        rfl
    rw [hnil, List.nil_append, locate_singleton, Option.map_map]
    rfl
  · obtain ⟨⟨y, q⟩, hlocate, rfl⟩ := Option.map_eq_some_iff.mp hparent
    rw [locate_append hlocate ((q.isDirectory_iff y).mp hdir) (List.cons_ne_nil _ _),
      locate_singleton, Option.map_map]
    rfl

/-- Names that find an entry still find it. -/
def FindsMore (d d' : Disk) : Prop :=
  ∀ {y part q}, d.Reachable y → d.find y part = some q → d'.find y part = some q

theorem FindsMore.locate (h : FindsMore d d') (hd : d.WellFormed held) {y z : Nat} {q : Listed}
    {parts : List Str} (hy : d.Reachable y) (hlocate : d.locate y parts = some (z, q)) :
    d'.locate y parts = some (z, q) := by
  induction parts generalizing y with
  | nil => cases hlocate
  | cons part parts ih =>
      rw [Disk.locate] at hlocate ⊢
      cases hfind : d.find y part with
      | none =>
          rw [hfind] at hlocate
          cases hlocate
      | some p =>
          rw [h hy hfind]
          simp only [hfind] at hlocate ⊢
          split at hlocate
          · next hlast =>
            rw [if_pos hlast]
            exact hlocate
          · next hmore =>
            split at hlocate
            · next hdir =>
              rw [if_neg hmore, if_pos hdir]
              rcases hd.find_directory hy hfind hdir with hnext | hlow
              · exact ih hnext hlocate
              · rw [locate_of_lt hlow] at hlocate
                cases hlocate
            · cases hlocate

theorem FindsMore.resolve (h : FindsMore d d') (hd : d.WellFormed held) (hroot : d'.root = d.root)
    {path : Str} {e : DirectoryEntryInfo} (he : d.resolve path = some e) :
    d'.resolve path = some e := by
  unfold Disk.resolve at he ⊢
  rw [hroot]
  split at he
  · next hpath =>
    rw [if_pos hpath]
    exact he
  · next hpath =>
    obtain ⟨⟨y, q⟩, hlocate, rfl⟩ := Option.map_eq_some_iff.mp he
    rw [if_neg hpath, h.locate hd .root hlocate]
    rfl

/-! ## An entry more -/

theorem SameTree.find (h : SameTree d d' D) {y : Nat} (hy : D y) (part : Str) :
    d'.find y part = d.find y part := by
  unfold Disk.find
  rw [h.listing hy]

theorem Rewrite.find_of_ne {old new : List Listed} (h : Rewrite d x s s' old new d')
    (hd : d.WellFormedOn held D) (hx : D x) {y : Nat} (hy : D y) (hne : y ≠ x) (part : Str) :
    d'.find y part = d.find y part := by
  have hlisting : d'.listing y = d.listing y := by
    change Fat32.listing [] 0 (d'.slotsIn y) = Fat32.listing [] 0 (d.slotsIn y)
    rw [h.slotsIn_of_ne hd hx hy hne]
  unfold Disk.find
  rw [hlisting]

/-- What a name finds when the directory lists one more entry. -/
theorem Rewrite.find_new {new : List Listed} (h : Rewrite d x s s' [] new d')
    (hnew : ∀ p ∈ new, p = n) (part : Str) :
    (d'.find x part = d.find x part ∨ namesEqual n.name part = true) ∧
      (d.find x part = none → ∀ q, d'.find x part = some q ↔
        q = n ∧ n ∈ new ∧ namesEqual n.name part = true) := by
  obtain ⟨pre, post, hold, hlist⟩ := h.listing
  rw [List.append_nil] at hold
  unfold Disk.find
  rw [hold, hlist, List.append_assoc, List.find?_append, List.find?_append, List.find?_append]
  cases hpre : pre.find? fun p => namesEqual p.name part with
  | some q => exact ⟨.inl rfl, fun hnone => (nomatch hnone)⟩
  | none =>
      simp only [Option.none_or]
      cases hfound : new.find? fun p => namesEqual p.name part with
      | none =>
          refine ⟨.inl rfl, fun hnone q => ?_⟩
          rw [Option.none_or, hnone]
          refine ⟨fun h => (nomatch h), fun ⟨_, hmem, hname⟩ => ?_⟩
          exact absurd hname (List.find?_eq_none.mp hfound n hmem)
      | some p =>
          have hmem := List.mem_of_find?_eq_some hfound
          have hname : namesEqual p.name part = true :=
            List.find?_some (p := fun p : Listed => namesEqual p.name part) hfound
          have hp := hnew p hmem
          subst hp
          refine ⟨.inr hname, fun _ q => ?_⟩
          rw [Option.some_or, Option.some.injEq]
          exact ⟨fun heq => ⟨heq.symm, hmem, hname⟩, fun h => h.1.symm⟩

/-- The name under which a new slot is listed. -/
def shownName (d : Disk) (x : Nat) (short : Str) : Str :=
  if lfnAfter [] (takenSlots (d.slotsIn x)) = [] then decodeShortName short
  else lfnAfter [] (takenSlots (d.slotsIn x))

/-- A new slot is listed in the directory under the name that was asked for. -/
def Shows (d : Disk) (x : Nat) (short name : Str) : Prop :=
  short.getD 0 0 ≠ entryDeleted ∧ namesEqual (d.shownName x short) name = true

end Disk

/-! ## createFile and createDirectory -/

section

variable {fs fs' : FAT32FileSystem} {held : Nat × Nat → Option Nat} {fuel : Nat} {path short : Str}
  {attributes : UInt8} {entry : DirectoryEntryInfo} {d : Disk} {x : Nat} {s s' : Slot}

/-- The entry of a new slot. -/
def newListed (before : List Slot) (s : Slot) : Listed := ⟨s, lfnAfter [] before, before.length⟩

theorem mem_newEntries {before : List Slot} {p : Listed} :
    p ∈ newEntries short s before ↔ p = newListed before s ∧ short.getD 0 0 ≠ entryDeleted := by
  unfold newEntries
  split
  · next hdeleted => exact ⟨fun h => (nomatch h), fun h => absurd hdeleted h.2⟩
  · next hlive =>
    rw [List.mem_singleton]
    exact ⟨fun h => ⟨h, hlive⟩, And.left⟩

namespace Created

theorem name_eq (h : Created fs held (view fs).Reachable x short attributes entry fs' d s s') :
    (newListed (takenSlots ((view fs).slotsIn x)) s').name = (view fs).shownName x short := by
  rw [Listed.name, newListed, Disk.shownName, h.stored.1]

/-- What the name that was asked for finds. -/
theorem find_name (h : Created fs held (view fs).Reachable x short attributes entry fs' d s s')
    (hx : (view fs).Reachable x) {name : Str} (hnone : (view fs).find x name = none) {q : Listed} :
    (view fs').find x name = some q ↔
      q = newListed (takenSlots ((view fs).slotsIn x)) s' ∧ (view fs).Shows x short name := by
  have hfound := (h.rewrite.find_new (fun p hp => (mem_newEntries.mp hp).1) name).2
    ((h.quiet.tree.find hx name).trans hnone) q
  rw [hfound, mem_newEntries, h.name_eq]
  exact and_congr_right fun _ => and_congr_left fun _ => and_iff_right rfl

/-- A new entry that is listed under the name that was asked for hides no other. -/
theorem findsMore (h : Created fs held (view fs).Reachable x short attributes entry fs' d s s')
    (hx : (view fs).Reachable x) {name : Str} (hnone : (view fs).find x name = none)
    (hshows : (view fs).Shows x short name) : (view fs).FindsMore (view fs') := by
  intro y part q hy hfind
  have hsame := h.quiet.tree.find hy part
  by_cases hne : y = x
  · subst hne
    rcases (h.rewrite.find_new (fun p hp => (mem_newEntries.mp hp).1) part).1 with heq | hname
    · rw [heq, hsame, hfind]
    · -- a name that is the new one finds nothing
      rw [h.name_eq] at hname
      have hparts : part.map toLower = name.map toLower :=
        (namesEqual_iff.mp hname).symm.trans (namesEqual_iff.mp hshows.2)
      have hcongr : (view fs).find y part = (view fs).find y name := by
        unfold Disk.find
        congr 1
        funext p
        rw [Bool.eq_iff_iff, namesEqual_iff, namesEqual_iff, hparts]
      rw [hcongr, hnone] at hfind
      cases hfind
  · rw [h.rewrite.find_of_ne h.quiet.wellFormed hx hy hne, hsame, hfind]

end Created

/-- When an entry is made, the path leads to it and all other paths lead where they did, exactly
when the new slot is listed under the name that was asked for. -/
theorem createEntry_visible_iff (hm : Mounted fs) (hr : fs.Reliable)
    (hd : (view fs).WellFormed held) (hfuel : fs.totalClusters < fuel)
    (hplain : Slot.Plain attributes) (hnul : 0 ∉ basenameOf path)
    (hrun : createEntry fs fuel path attributes = some (.ok (), fs')) :
    ∃ parent short, (view fs).resolve (parentOf path) = some parent ∧
      makeShortName (basenameOf path) = some short ∧
      (((∃ e, (view fs').resolve path = some e ∧ e.attributes = attributes ∧ e.size = 0 ∧
          (attributes &&& attributeDirectory = 0 → e.firstCluster = 0)) ∧
        ∀ other e, (view fs).resolve other = some e → (view fs').resolve other = some e) ↔
      (view fs).Shows parent.firstCluster short (basenameOf path)) := by
  have hname : ∀ short, makeShortName (basenameOf path) = some short → short.getD 0 0 ≠ 0 := by
    intro short hshort hzero
    obtain ⟨c, rest, heq, -, hfirst⟩ := makeShortName_first hshort
    rw [hzero, eq_comm, toUpper_eq_zero] at hfirst
    exact hnul (heq ▸ hfirst ▸ List.mem_cons_self ..)
  obtain ⟨result, fs₁, hrun₁, -, hok⟩ := createEntry_created hm hd hfuel hplain hname
  rw [hrun] at hrun₁
  cases hrun₁
  obtain ⟨hfresh, parent, hparent, hdir, hx, short, entry, d, s, s', hshort, -, hcreated⟩ := hok rfl
  have hne := splitPath_of_basename hshort
  have hnone : (view fs).find parent.firstCluster (basenameOf path) = none := by
    have hresolve := hfresh hr
    rw [Disk.resolve_parent hne hparent hdir, Option.map_eq_none_iff] at hresolve
    exact hresolve
  have hroot : (view fs').root = (view fs).root :=
    hcreated.rewrite.shape.root.trans hcreated.quiet.tree.shape.root
  refine ⟨parent, short, hparent, hshort, ?_, fun hshows => ?_⟩
  · rintro ⟨⟨e, he, -⟩, hall⟩
    rw [Disk.resolve_parent hne (hall _ _ hparent) hdir] at he
    obtain ⟨q, hq, -⟩ := Option.map_eq_some_iff.mp he
    exact ((hcreated.find_name hx hnone).mp hq).2
  · have hmore : (view fs).FindsMore (view fs') := hcreated.findsMore hx hnone hshows
    have hall : ∀ other e, (view fs).resolve other = some e → (view fs').resolve other = some e :=
      fun other e he => hmore.resolve hd hroot he
    obtain ⟨-, hattr, hfirst, hsize⟩ := hcreated.stored
    refine ⟨⟨(newListed (takenSlots ((view fs).slotsIn parent.firstCluster)) s').info
      parent.firstCluster, ?_, ?_, ?_, fun hfile => ?_⟩, hall⟩
    · rw [Disk.resolve_parent hne (hall _ _ hparent) hdir,
        (hcreated.find_name hx hnone).mpr ⟨rfl, hshows⟩]
      rfl
    · exact hattr
    · exact hsize
    · exact hfirst.trans (hcreated.file hfile)

theorem plain_attributeArchive : Slot.Plain attributeArchive := ⟨by decide, by decide⟩

theorem plain_attributeDirectory : Slot.Plain attributeDirectory := ⟨by decide, by decide⟩

/-- A second file in the root of the small volume. -/
theorem createEntry_visible_iff_fileVolume : ∃ fs',
    createEntry fileVolume 10 [47, 66] attributeArchive = some (.ok (), fs') ∧
    ∃ parent short, (view fileVolume).resolve (parentOf [47, 66]) = some parent ∧
      makeShortName (basenameOf [47, 66]) = some short ∧
      (((∃ e, (view fs').resolve [47, 66] = some e ∧ e.attributes = attributeArchive ∧ e.size = 0 ∧
          (attributeArchive &&& attributeDirectory = 0 → e.firstCluster = 0)) ∧
        ∀ other e, (view fileVolume).resolve other = some e → (view fs').resolve other = some e) ↔
      (view fileVolume).Shows parent.firstCluster short (basenameOf [47, 66])) := by
  have hok : (createEntry fileVolume 10 [47, 66] attributeArchive).map (fun r => r.1.isOk) =
      some true := by decide +kernel
  obtain ⟨⟨result, fs'⟩, hrun, hresult⟩ := Option.map_eq_some_iff.mp hok
  cases result with
  | error e => cases hresult
  | ok =>
      exact ⟨fs', hrun, createEntry_visible_iff mounted_fileVolume (fun _ => rfl) opened_fileVolume
        (by decide +kernel) plain_attributeArchive (by decide) hrun⟩

end

end Avery.Fat32
