import Avery.Fs.VolumeCalls

/-!
# Calls on paths of a volume with many open files

`createFile`, `createDirectory`, `remove` and `open` do what a store of files allows, whatever is
open on the volume (`createEntry_refined`, `remove_refined`, `openFile_refined`).
-/

namespace Avery.Fat32

open ByteMemory FAT32FileHandle

/-! ## The file that was made -/

namespace Disk

/-- A name finds what it found, or a new entry. -/
theorem Rewrite.find_some {d d' : Disk} {x : Nat} {s s' : Slot} {new : List Listed}
    (h : Rewrite d x s s' [] new d') {part : Str} {q : Listed} (hq : d'.find x part = some q) :
    q ∈ new ∨ d.find x part = some q := by
  obtain ⟨pre, post, hold, hlist⟩ := h.listing
  rw [List.append_nil] at hold
  unfold find at hq ⊢
  rw [hlist, List.append_assoc, List.find?_append, List.find?_append] at hq
  rw [hold, List.find?_append]
  cases hpre : pre.find? fun p => namesEqual p.name part with
  | some r =>
      rw [hpre] at hq
      exact .inr hq
  | none =>
      rw [hpre, Option.none_or] at hq
      cases hfound : new.find? fun p => namesEqual p.name part with
      | some r =>
          rw [hfound, Option.some_or, Option.some.injEq] at hq
          exact .inl (hq ▸ List.mem_of_find?_eq_some hfound)
      | none =>
          rw [hfound, Option.none_or] at hq
          exact .inr hq

end Disk

section

variable {fs fs' : FAT32FileSystem} {held : Nat × Nat → Option Nat} {fuel x : Nat}
  {short path : Str} {attributes : UInt8} {entry e : DirectoryEntryInfo} {d : Disk} {t t' : Slot}

/-- Names that led to nothing lead at most to a file that was made. -/
theorem Created.locate_new
    (h : Created fs held (view fs).Reachable x short attributes entry fs' d t t')
    (hd : (view fs).WellFormed held) (hx : (view fs).Reachable x)
    (hfile : attributes &&& attributeDirectory = 0) {y z : Nat} {q : Listed} {parts : List Str}
    (hy : (view fs).Reachable y) (hnone : (view fs).locate y parts = none)
    (hlocate : (view fs').locate y parts = some (z, q)) :
    z = x ∧ q = newListed (takenSlots ((view fs).slotsIn x)) t' := by
  have hfound : ∀ {y part p}, (view fs).Reachable y → (view fs').find y part = some p →
      y = x ∧ p = newListed (takenSlots ((view fs).slotsIn x)) t' ∨
        (view fs).find y part = some p := by
    intro y part p hy hp
    have hsame := h.quiet.tree.find hy part
    by_cases hne : y = x
    · subst hne
      rcases h.rewrite.find_some hp with hmem | hold
      · exact .inl ⟨rfl, (mem_newEntries.mp hmem).1⟩
      · exact .inr (hsame.symm.trans hold)
    · rw [h.rewrite.find_of_ne h.quiet.wellFormed hx hy hne, hsame] at hp
      exact .inr hp
  induction parts generalizing y with
  | nil => cases hlocate
  | cons part parts ih =>
      rw [Disk.locate] at hnone hlocate
      cases hfind : (view fs').find y part with
      | none =>
          rw [hfind] at hlocate
          cases hlocate
      | some p =>
          simp only [hfind] at hlocate
          rcases hfound hy hfind with ⟨rfl, rfl⟩ | hold
          · have hnot : ¬ (newListed (takenSlots ((view fs).slotsIn y)) t').IsDirectory := by
              change ¬ t'.attributes &&& attributeDirectory ≠ 0
              rw [h.stored.2.1, hfile]
              exact fun hne => hne rfl
            rw [if_neg hnot] at hlocate
            split at hlocate
            · cases hlocate
              exact ⟨rfl, rfl⟩
            · cases hlocate
          · simp only [hold] at hnone
            split at hlocate
            · next hlast =>
              rw [if_pos hlast] at hnone
              cases hnone
            · next hmore =>
              rw [if_neg hmore] at hnone
              split at hlocate
              · next hdir =>
                rw [if_pos hdir] at hnone
                rcases hd.find_directory hy hold hdir with hnext | hlow
                · exact ih hnext hnone hlocate
                · rw [Disk.locate_of_lt hlow] at hlocate
                  cases hlocate
              · cases hlocate

theorem Created.resolve_new
    (h : Created fs held (view fs).Reachable x short attributes entry fs' d t t')
    (hd : (view fs).WellFormed held) (hx : (view fs).Reachable x)
    (hfile : attributes &&& attributeDirectory = 0) (hnone : (view fs).resolve path = none)
    (he : (view fs').resolve path = some e) :
    e = (newListed (takenSlots ((view fs).slotsIn x)) t').info x := by
  have hroot : (view fs').root = (view fs).root :=
    h.rewrite.shape.root.trans h.quiet.tree.shape.root
  unfold Disk.resolve at hnone he
  rw [hroot] at he
  split at he
  · next hpath =>
    rw [if_pos hpath] at hnone
    cases hnone
  · next hpath =>
    rw [if_neg hpath, Option.map_eq_none_iff] at hnone
    obtain ⟨⟨z, q⟩, hlocate, rfl⟩ := Option.map_eq_some_iff.mp he
    obtain ⟨rfl, rfl⟩ := h.locate_new hd hx hfile .root hnone hlocate
    rfl

/-- On a device that never fails a path is looked up on the disk. -/
theorem findEntry_reliable (hm : Mounted fs) (hr : fs.Reliable) (hd : (view fs).WellFormed held)
    (hfuel : fs.totalClusters < fuel) (path : Str) :
    findEntry fs fuel path = some ((view fs).resolve path, fs) := by
  obtain ⟨result, n, hcall, hanswer⟩ := findEntry_answers hm hd hfuel path
  rw [hcall, hr.served_eq]
  rcases hanswer with rfl | ⟨-, hnot⟩
  · rfl
  · exact absurd hr hnot

end

/-! ## Calls on paths -/

section

variable {v : Volume} {held : Nat × Nat → Option Nat} {s : Files} {fuel id x : Nat} {path : Str}
  {fs' : FAT32FileSystem} {e : DirectoryEntryInfo}

theorem SoundBut.hosts (hs : Sound v held s) : (view v.fs).Hosts held := by
  intro q f hq
  by_contra hno
  have hnone := (hs.absent (Option.some_ne_none q) fun x p hp heq =>
    hno ⟨x, p, hp.through, hp.entry, hp.proper, heq⟩).2
  rw [hq] at hnone
  cases hnone

theorem setFile_eq {q : Nat × Nat} (h : s.files q = none) : s.setFile q none = s := by
  unfold FileStore.Store.setFile
  rw [← h, Function.update_eq_self]

theorem shut_of_none {q : Nat × Nat} (hc : s.Coherent) (hnone : s.files q = none) : s.Shut q := by
  intro id a ha heq
  obtain ⟨bytes, hbytes⟩ := hc.grounded ha
  rw [heq, hnone] at hbytes
  cases hbytes

/-- The store has one file more, or none that can be seen. -/
theorem created_sound (hs : Sound v held s) (hc : s.Coherent) {name short : Str}
    {attributes : UInt8} {entry : DirectoryEntryInfo} {d : Disk} {t t' : Slot}
    (hx : (view v.fs).Reachable x)
    (h : Created v.fs held (view v.fs).Reachable x short attributes entry fs' d t t')
    (hshort : makeShortName name = some short) :
    s.files t'.place = none ∧
      ((∀ y q, (view fs').Visible y q → q.place ≠ t'.place) ∧ Sound { v with fs := fs' } held s ∨
        (view fs').Visible x (newListed (takenSlots ((view v.fs).slotsIn x)) t') ∧
          Sound { v with fs := fs' } held (s.setFile t'.place (some []))) := by
  obtain ⟨hfile, hheld⟩ := hs.absent (Option.some_ne_none t'.place) fun y q hq => h.unused hx hq
  have hchange : Disk.Change False none held (view v.fs) held (view fs') :=
    h.change hs.wellFormed hx hs.hosts hshort False.elim
  have hbut := hs.framed (h.frame hs.wellFormed hx) hchange.wellFormed h.same
  have hshut := shut_of_none hc hfile
  refine ⟨hfile, ?_⟩
  by_cases hvisible : ∃ y q, (view fs').Visible y q ∧ q.place = t'.place
  · obtain ⟨y, q, hq, hplace⟩ := hvisible
    obtain ⟨rfl, rfl⟩ := h.visible_eq hx hq hplace
    have hsize : (newListed (takenSlots ((view v.fs).slotsIn y)) t').slot.fileSize = 0 :=
      h.stored.2.2.2
    have hholds : (view fs').Holds (newListed (takenSlots ((view v.fs).slotsIn y)) t') := by
      unfold Disk.Holds
      rw [hsize]
      exact Nat.zero_le _
    change SoundBut (some (newListed (takenSlots ((view v.fs).slotsIn y)) t').place) _ _ _ at hbut
    have hsound := hbut.shutAt hq hheld hholds hshut
    unfold storedBytes at hsound
    rw [hsize] at hsound
    exact .inr ⟨hq, hsound⟩
  · have hno : ∀ y q, (view fs').Visible y q → q.place ≠ t'.place := fun y q hq heq =>
      hvisible ⟨y, q, hq, heq⟩
    have hsound := hbut.goneAt hno hheld hshut
    rw [setFile_eq hfile] at hsound
    exact .inl ⟨hno, hsound⟩

theorem name_first (hnul : 0 ∉ basenameOf path) :
    ∀ short, makeShortName (basenameOf path) = some short → short.getD 0 0 ≠ 0 := by
  intro short hshort hzero
  obtain ⟨c, rest, heq, -, hfirst⟩ := makeShortName_first hshort
  rw [hzero, eq_comm, toUpper_eq_zero] at hfirst
  exact hnul (heq ▸ hfirst ▸ List.mem_cons_self ..)

theorem createEntry_refined (hs : Sound v held s) (hc : s.Coherent)
    (hfuel : v.fs.totalClusters < fuel) {attributes : UInt8} (hplain : Slot.Plain attributes)
    (hnul : 0 ∉ basenameOf path) :
    ∃ result fs' s', createEntry v.fs fuel path attributes = some (result, fs') ∧
      FileStore.Step (2 ^ 32) s (.create ((view v.fs).leadsTo path)) (.done result.isOk) s' ∧
      Sound { v with fs := fs' } held s' ∧ SameVolume v.fs fs' ∧
      (Counted v.fs → Counted fs') := by
  obtain ⟨result, fs', hrun, hfailed, hok⟩ := createEntry_created hs.mounted hs.wellFormed hfuel
    hplain (name_first hnul)
  cases result with
  | error err =>
      obtain ⟨x, h⟩ := hfailed fun heq => nomatch heq
      have hchange : Disk.Change False none held (view v.fs) held (view fs') :=
        h.change hs.wellFormed False.elim
      have hsound := hs.framed (h.frame hs.wellFormed) hchange.wellFormed h.same
      exact ⟨_, fs', s, hrun, .notCreated, hsound, h.same, h.counted hs.reliable⟩
  | ok =>
      obtain ⟨hfresh, parent, -, -, hx, short, entry, d, t, t', hshort, -, h⟩ := hok rfl
      have htarget := Disk.leadsTo_nothing (hfresh hs.reliable)
      obtain ⟨hfile, ⟨-, hsound⟩ | ⟨-, hsound⟩⟩ := created_sound hs hc hx h hshort
      · exact ⟨_, fs', s, hrun, htarget ▸ .made, hsound, h.same, h.counted hs.reliable⟩
      · exact ⟨_, fs', _, hrun, htarget ▸ .created hfile, hsound, h.same, h.counted hs.reliable⟩

/-- Nothing is open at the place of a directory. -/
theorem held_directory (hs : Sound v held s) (he : (view v.fs).resolve path = some e)
    (hdir : e.isDirectory = true) : s.files e.place = none ∧ held e.place = none := by
  refine hs.absent (Option.some_ne_none _) fun y q hq hplace => ?_
  rcases Disk.resolve_cases he with rfl | ⟨x, p, hlocate, rfl⟩
  · have hvalid : (view v.fs).Valid q.slot.cluster :=
      (hs.wellFormed.chain (.directory hq.through.reachable)).2.valid
        (Disk.mem_chain_of_listed hq.entry.listed)
    have hzero : q.slot.cluster = 0 := congrArg Prod.fst hplace
    rw [hzero] at hvalid
    exact absurd hvalid.1 (by decide)
  · obtain ⟨hx, part, -, hfind⟩ := hs.wellFormed.locate_mem .root hlocate
    obtain ⟨-, rfl⟩ := hs.wellFormed.listed_unique hq.through.reachable hx hq.entry.listed
      (Disk.find_mem hfind).1 hplace
    exact hq.file ((q.isDirectory_iff x).mp hdir)

theorem remove_refined (hs : Sound v held s) (hfuel : v.fs.totalClusters < fuel)
    (hshut : ∀ e, (view v.fs).resolve path = some e → s.Shut e.place) :
    ∃ result fs' s', remove v.fs fuel path = some (result, fs') ∧
      FileStore.Step (2 ^ 32) s (.remove ((view v.fs).leadsTo path)) (.done result.isOk) s' ∧
      Sound { v with fs := fs' } held s' ∧ SameVolume v.fs fs' ∧
      (Counted v.fs → Counted fs') := by
  have hd := hs.wellFormed
  have hfree : ∀ e, (view v.fs).resolve path = some e → held e.place = none := by
    intro e he
    cases hdir : e.isDirectory with
    | true => exact (held_directory hs he hdir).2
    | false =>
        obtain ⟨x, p, hp, rfl⟩ := hd.resolve_visible he hdir
        exact (hs.shut hp (Option.some_ne_none _) (hshut _ he)).1
  obtain ⟨result, fs', hrun, hsame, hcounted, hdone⟩ := remove_removed hs.mounted hd hfuel hfree
  refine ⟨result, fs', ?_⟩
  rcases hdone with ⟨hfailed, hview⟩ | ⟨x, p, d, t', ys, hx, hlocate, hp, hheld, h⟩
  · have hframe : Disk.Frame none held (view v.fs) held (view fs') := by
      rw [hview]
      exact .refl none held (view v.fs)
    refine ⟨s, hrun, ?_, hs.framed hframe (hview ▸ hd) hsame, hsame, hcounted hs.reliable⟩
    cases result with
    | error err => exact .notRemoved
    | ok => exact absurd rfl hfailed
  · have hok := h.reliable hs.reliable
    subst hok
    obtain ⟨hframe, hwf, hgone⟩ := h.frame hd hx hp hheld
    have hresolve : (view v.fs).resolve path = some (p.info x) := by
      have hne : splitPath path ≠ [] := by
        intro hnil
        rw [hnil] at hlocate
        cases hlocate
      rw [Disk.resolve_of_splitPath hne, hlocate]
      rfl
    have hclosed : s.Shut p.place := hshut _ hresolve
    have hsound := (hs.framed hframe hwf hsame).goneAt (fun y q hq => hgone hq) hheld hclosed
    cases hdir : (p.info x).isDirectory with
    | true =>
        have hnone : s.files p.place = none := (held_directory hs hresolve hdir).1
        rw [setFile_eq hnone] at hsound
        exact ⟨s, hrun, Disk.leadsTo_directory hresolve hdir ▸ .emptied, hsound, hsame,
          hcounted hs.reliable⟩
    | false =>
        exact ⟨_, hrun, Disk.leadsTo_file hresolve hdir ▸ .removed hclosed, hsound, hsame,
          hcounted hs.reliable⟩

/-! ## Opening -/

theorem openEntry_refined (hs : Sound v held s) (hfuel : v.fs.totalClusters < fuel) {p : Listed}
    (hp : (view v.fs).Visible x p) (hshut : s.Shut p.place) (hid : v.handles id = none)
    (mode : Nat) :
    ∃ h fs' held' bytes, openEntry v.fs fuel (p.info x) mode = some (.ok h, fs') ∧
      s.files p.place = some bytes ∧ s.handles id = none ∧
      Sound ⟨fs', Function.update v.handles id (some h)⟩ held'
        ((s.setFile p.place (some ((modeFlags mode).kept bytes))).setHandle id
          (some ((modeFlags mode).handle p.place ((modeFlags mode).kept bytes)))) ∧
      SameVolume v.fs fs' ∧ (Counted v.fs → Counted fs') := by
  obtain ⟨hheld, hholds, hbytes⟩ := hs.shut hp (Option.some_ne_none _) hshut
  obtain ⟨h, fs', held', p', hrun, hatt, hplace, hframe, hsame, hcounted, hkept, hhandle⟩ :=
    openEntry_attached hs.mounted hs.reliable hfuel hs.wellFormed hp hheld hholds mode
  have hnone := hs.handle_none hid
  have hbut := hs.framed hframe hatt.single.wellFormed hsame
  rw [← hplace] at hbut
  have hat : ∀ {i a}, s.handles i = some a → (a.place = p'.place ↔ i = id) := by
    intro i a hi
    refine ⟨fun heq => absurd (heq.trans hplace) (hshut i a hi), fun heq => ?_⟩
    subst heq
    rw [hnone] at hi
    cases hi
  have hsound := hbut.openedAt hatt hat
  rw [hhandle, hplace] at hsound
  change Sound ⟨fs', _⟩ held' ((s.setFile p.place (some (Attached.bytes fs' h))).setHandle id _)
    at hsound
  rw [hkept] at hsound
  exact ⟨h, fs', held', _, hrun, hbytes, hnone, hsound, hsame, hcounted⟩

/-- The bytes of a new file stay empty. -/
theorem openEntry_new {p : Listed} {q : Nat × Nat} (hs : Sound v held (s.setFile q (some [])))
    (hfuel : v.fs.totalClusters < fuel) (hp : (view v.fs).Visible x p) (hplace : p.place = q)
    (hshut : s.Shut q) (hid : v.handles id = none) (mode : Nat) :
    ∃ h fs' held', openEntry v.fs fuel (p.info x) mode = some (.ok h, fs') ∧
      Sound ⟨fs', Function.update v.handles id (some h)⟩ held'
        ((s.setFile q (some [])).setHandle id
          (some ((modeFlags mode).handle q ([] : List UInt8)))) ∧
      SameVolume v.fs fs' ∧ (Counted v.fs → Counted fs') := by
  subst hplace
  obtain ⟨h, fs', held', bytes, hopen, hbytes, -, hsound, hsame, hcounted⟩ :=
    openEntry_refined hs hfuel hp hshut hid mode
  rw [FileStore.Store.files_setFile_self, Option.some.injEq] at hbytes
  subst hbytes
  rw [FileStore.Store.setFile_setFile, FileStore.Mode.kept_nil] at hsound
  exact ⟨h, fs', held', hopen, hsound, hsame, hcounted⟩

theorem entryToOpen_found {fs : FAT32FileSystem} {mode : Nat}
    (h : findEntry fs fuel path = some (some e, fs')) :
    entryToOpen fs fuel path mode = some (.ok e, fs') := by
  simp [entryToOpen, h]

theorem openFile_error {fs : FAT32FileSystem} {mode : Nat} {err : VFSError}
    (h : entryToOpen fs fuel path mode = some (.error err, fs')) :
    openFile fs fuel path mode = some (.error err, fs') := by
  simp [openFile, h]

theorem openFile_directory {fs : FAT32FileSystem} {mode : Nat}
    (h : entryToOpen fs fuel path mode = some (.ok e, fs')) (hdir : e.isDirectory = true) :
    openFile fs fuel path mode = some (.error .isDirectory, fs') := by
  simp [openFile, h, hdir]

theorem openFile_file {fs : FAT32FileSystem} {mode : Nat}
    (h : entryToOpen fs fuel path mode = some (.ok e, fs')) (hfile : e.isDirectory = false) :
    openFile fs fuel path mode = openEntry fs' fuel e mode := by
  simp only [openFile, h, Option.bind_eq_bind, Option.bind_some, hfile]
  rfl

theorem entryToOpen_none {fs : FAT32FileSystem} {mode : Nat}
    (h : findEntry fs fuel path = some (none, fs')) (hmode : hasMode mode modeCreate = false) :
    entryToOpen fs fuel path mode = some (.error .notFound, fs') := by
  simp [entryToOpen, h, hmode]

section

variable {fs fs₁ fs₂ : FAT32FileSystem} {mode : Nat}

/-- `open` makes the file that is not there. -/
theorem entryToOpen_created {found : Option DirectoryEntryInfo}
    (h : findEntry fs fuel path = some (none, fs')) (hmode : hasMode mode modeCreate = true)
    (hcreate : createFile fs' fuel path = some (.ok (), fs₁))
    (hfind : findEntry fs₁ fuel path = some (found, fs₂)) :
    entryToOpen fs fuel path mode = some (found.elim (.error .ioError) .ok, fs₂) := by
  cases found <;> simp [entryToOpen, h, hmode, hcreate, hfind]

theorem entryToOpen_uncreated {err : VFSError}
    (h : findEntry fs fuel path = some (none, fs')) (hmode : hasMode mode modeCreate = true)
    (hcreate : createFile fs' fuel path = some (.error err, fs₁)) :
    entryToOpen fs fuel path mode = some (.error err, fs₁) := by
  simp [entryToOpen, h, hmode, hcreate]

end

/-- A file that cannot be opened has no handle. -/
theorem notOpened_run {mode : Nat} {err : VFSError}
    (h : openFile v.fs fuel path mode = some (.error err, fs')) :
    (VolumeCall.openFile id path mode).run fuel v = some (.done false, { v with fs := fs' }) := by
  simp [VolumeCall.run, h]

theorem notOpened_refined (hs : Sound v held s) {mode : Nat} {err : VFSError}
    {target : FileStore.Target (Nat × Nat)}
    (h : openFile v.fs fuel path mode = some (.error err, v.fs)) (hnot : ∀ q, target ≠ .file q) :
    ∃ answer v' held' s', (VolumeCall.openFile id path mode).run fuel v = some (answer, v') ∧
      Refined v s (.openFile id target (modeFlags mode)) answer v' held' s' :=
  ⟨_, _, held, s, notOpened_run h, hs, .notOpened hnot, .refl v.fs, fun hcount => hcount⟩

theorem opened_run {mode : Nat} {h : FAT32FileHandle}
    (hopen : openFile v.fs fuel path mode = some (.ok h, fs')) :
    (VolumeCall.openFile id path mode).run fuel v =
      some (.done true, ⟨fs', Function.update v.handles id (some h)⟩) := by
  simp [VolumeCall.run, hopen]

/-- A file that was just made is opened. -/
theorem openFile_created (hs : Sound v held s) (hc : s.Coherent)
    (hfuel : v.fs.totalClusters < fuel) (hnul : 0 ∉ basenameOf path)
    (hid : v.handles id = none) {mode : Nat} (hmode : hasMode mode modeCreate = true)
    (hnone : (view v.fs).resolve path = none) :
    ∃ answer v' held' s', (VolumeCall.openFile id path mode).run fuel v = some (answer, v') ∧
      Refined v s (.openFile id .nothing (modeFlags mode)) answer v' held' s' := by
  have hd := hs.wellFormed
  have hfind : findEntry v.fs fuel path = some (none, v.fs) := by
    rw [findEntry_reliable hs.mounted hs.reliable hd hfuel, hnone]
  obtain ⟨result, fs₁, hrun, hfailed, hok⟩ := createEntry_created hs.mounted hd hfuel
    plain_attributeArchive (name_first hnul)
  cases result with
  | error err =>
      obtain ⟨x, h⟩ := hfailed fun heq => nomatch heq
      have hchange : Disk.Change False none held (view v.fs) held (view fs₁) :=
        h.change hd False.elim
      have hopen := openFile_error (entryToOpen_uncreated hfind hmode hrun)
      exact ⟨_, _, held, s, notOpened_run hopen, hs.framed (h.frame hd) hchange.wellFormed h.same,
        .notOpened fun q heq => (nomatch heq), h.same, h.counted hs.reliable⟩
  | ok =>
      obtain ⟨-, parent, -, -, hx, short, entry, d, t, t', hshort, -, h⟩ := hok rfl
      have hr₁ := h.same.reliable hs.reliable
      have hfuel₁ : fs₁.totalClusters < fuel := h.same.totalClusters ▸ hfuel
      obtain ⟨hfile, hsounds⟩ := created_sound hs hc hx h hshort
      have hwf₁ : (view fs₁).WellFormed held := by
        rcases hsounds with ⟨-, hsound⟩ | ⟨-, hsound⟩
        · exact hsound.wellFormed
        · exact hsound.wellFormed
      have hfind₁ := findEntry_reliable (h.same.mounted hs.mounted) hr₁ hwf₁ hfuel₁ path
      have hentry := entryToOpen_created hfind hmode hrun hfind₁
      cases hresolve : (view fs₁).resolve path with
      | none =>
          rw [hresolve] at hentry
          have hopen := openFile_error hentry
          rcases hsounds with ⟨-, hsound⟩ | ⟨-, hsound⟩
          · exact ⟨_, _, held, s, notOpened_run hopen, hsound,
              .notOpened fun q heq => (nomatch heq), h.same, h.counted hs.reliable⟩
          · exact ⟨_, _, held, _, notOpened_run hopen, hsound, .createdOnly hmode hfile, h.same,
              h.counted hs.reliable⟩
      | some e =>
          -- the path leads to the new slot
          obtain rfl := h.resolve_new hd hx (by decide) hnone hresolve
          have hnot : ((newListed (takenSlots ((view v.fs).slotsIn parent.firstCluster)) t').info
              parent.firstCluster).isDirectory = false := by
            change decide (t'.attributes &&& attributeDirectory ≠ 0) = false
            rw [h.stored.2.1]
            decide
          rw [hresolve] at hentry
          obtain ⟨y, q, hq, hinfo⟩ := hwf₁.resolve_visible hresolve hnot
          have hplace : q.place = t'.place := (congrArg DirectoryEntryInfo.place hinfo).symm
          obtain ⟨rfl, rfl⟩ := h.visible_eq hx hq hplace
          rcases hsounds with ⟨hno, -⟩ | ⟨-, hsound⟩
          · exact absurd hplace (hno _ _ hq)
          have hshut : s.Shut t'.place := shut_of_none hc hfile
          obtain ⟨g, fs', held', hopen, hsound', hsame, hcounted⟩ :=
            openEntry_new hsound hfuel₁ hq hplace hshut hid mode
          exact ⟨_, _, held', _, opened_run ((openFile_file hentry hnot).trans hopen), hsound',
            .openedNew hmode hfile (hs.handle_none hid), h.same.trans hsame,
            fun hcount => hcounted (h.counted hs.reliable hcount)⟩

theorem openFile_refined (hs : Sound v held s) (hc : s.Coherent)
    (hfuel : v.fs.totalClusters < fuel) {mode : Nat}
    (hnul : hasMode mode modeCreate = true → 0 ∉ basenameOf path)
    (hshut : ∀ e, (view v.fs).resolve path = some e → s.Shut e.place)
    (hid : v.handles id = none) :
    ∃ answer v' held' s', (VolumeCall.openFile id path mode).run fuel v = some (answer, v') ∧
      Refined v s (.openFile id ((view v.fs).leadsTo path) (modeFlags mode)) answer v' held'
        s' := by
  have hd := hs.wellFormed
  have hfind := findEntry_reliable hs.mounted hs.reliable hd hfuel path
  cases hresolve : (view v.fs).resolve path with
  | some e =>
      rw [hresolve] at hfind
      have hentry : entryToOpen v.fs fuel path mode = _ := entryToOpen_found hfind
      cases hdir : e.isDirectory with
      | true =>
          have hopen := openFile_directory hentry hdir
          rw [Disk.leadsTo_directory hresolve hdir]
          exact notOpened_refined hs hopen fun q heq => (nomatch heq)
      | false =>
          obtain ⟨x, p, hp, rfl⟩ := hd.resolve_visible hresolve hdir
          obtain ⟨g, fs', held', bytes, hopen, hbytes, hsid, hsound, hsame, hcounted⟩ :=
            openEntry_refined hs hfuel hp (hshut _ hresolve) hid mode
          rw [Disk.leadsTo_file hresolve hdir]
          exact ⟨_, _, held', _, opened_run ((openFile_file hentry hdir).trans hopen), hsound,
            .opened hbytes (hshut _ hresolve) hsid, hsame, hcounted⟩
  | none =>
      rw [Disk.leadsTo_nothing hresolve]
      by_cases hmode : hasMode mode modeCreate = true
      · exact openFile_created hs hc hfuel (hnul hmode) hid hmode hresolve
      · rw [hresolve] at hfind
        have hopen := openFile_error (entryToOpen_none hfind (Bool.not_eq_true _ ▸ hmode))
        exact notOpened_refined hs hopen fun q heq => (nomatch heq)

end

end Avery.Fat32
