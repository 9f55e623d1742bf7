import Avery.Fs.Volumes

/-!
# Calls on a volume with many open files

Every call on a volume returns, does what a store of files allows, and leaves the volume sound
(`Refined`).  A handle works on its own file only.  `close` leaves its bytes on the disk, and
`open` finds them there.
-/

namespace Avery.Fat32

open ByteMemory FAT32FileHandle

/-- A call has done what the store allows. -/
structure Refined (v : Volume) (s : Files) (call : FileStore.Call (Nat × Nat) Nat UInt8)
    (answer : FileStore.Answer UInt8) (v' : Volume) (held' : Nat × Nat → Option Nat) (s' : Files) :
    Prop where
  sound : SoundBut none v' held' s'
  step : FileStore.Step (2 ^ 32) s call answer s'
  same : SameVolume v.fs v'.fs
  counted : Counted v.fs → Counted v'.fs

variable {v : Volume} {held : Nat × Nat → Option Nat} {s : Files} {fuel id : Nat}

/-! ## The methods of a handle -/

theorem handle_of_id (hs : Sound v held s) (hid : (v.handles id).isSome = true) :
    ∃ h x p, v.handles id = some h ∧ Attached v.fs held h x p ∧
      s.handles id = some (handleAt h p.place) ∧
      s.files p.place = some (Attached.bytes v.fs h) := by
  rw [hs.ids id] at hid
  obtain ⟨a, ha⟩ := Option.isSome_iff_exists.mp hid
  obtain ⟨h, x, p, hh, hatt, rfl, hbytes⟩ := hs.opened_at ha
  exact ⟨h, x, p, hh, hatt, ha, hbytes⟩

theorem onFile_refined (hs : Sound v held s) (hc : s.Coherent) (hfuel : v.fs.totalClusters < fuel)
    (hid : (v.handles id).isSome = true) (call : HandleCall) :
    ∃ answer v' held' s', (VolumeCall.onFile id call).run fuel v = some (answer, v') ∧
      Refined v s (.onFile id call.onBytes) answer v' held' s' := by
  obtain ⟨h, x, p, hh, hatt, ha, hbytes⟩ := handle_of_id hs hid
  obtain ⟨answer, h', fs', held', p', hrun, hatt', hstep, hcall⟩ := hatt.call hfuel call
  have hbut := hs.framed hstep.frame hstep.single.wellFormed hstep.same
  rw [← hstep.place] at hbut
  have hat : ∀ {i a}, s.handles i = some a → (a.place = p'.place ↔ i = id) := by
    intro i a hi
    rw [hstep.place]
    refine ⟨fun heq => hc.apart hi ha heq, fun heq => ?_⟩
    subst heq
    rw [ha] at hi
    cases hi
    rfl
  have hsound := hbut.openedAt hatt' hat
  -- the handle is as open as it was
  have hview := FileStore.view_of_step (a := handleAt h p.place) hcall
  have hread := congrArg ByteFile.File.readable hview
  have hwrite := congrArg ByteFile.File.writable hview
  have hhandle : handleAt h' p'.place = { handleAt h p.place with offset := h'.offset } := by
    rw [hstep.place]
    unfold handleAt
    rw [FileStore.Handle.mk.injEq]
    exact ⟨rfl, rfl, hread, hwrite⟩
  refine ⟨.file answer, _, held', _, ?_, hsound, ?_, hstep.same, hstep.counted⟩
  · simp [VolumeCall.run, hh, hrun]
  · rw [hhandle, hstep.place]
    exact .onFile ha hbytes hcall

theorem flush_clean {fs fs' : FAT32FileSystem} {h h' : FAT32FileHandle} (hopen : h.closed = false)
    (hflush : h.flush fs = (true, h', fs')) : h'.dirty = false := by
  unfold FAT32FileHandle.flush at hflush
  rw [hopen, if_neg Bool.false_ne_true] at hflush
  split at hflush
  · next hclean =>
    cases hflush
    simpa using hclean
  · split at hflush
    · cases hflush
      rfl
    · split at hflush
      · cases hflush
        rfl
      · cases hflush

theorem close_refined (hs : Sound v held s) (hc : s.Coherent) (hfuel : v.fs.totalClusters < fuel)
    (hid : (v.handles id).isSome = true) :
    ∃ answer v' held' s', (VolumeCall.close id).run fuel v = some (answer, v') ∧
      Refined v s (.close id) answer v' held' s' := by
  obtain ⟨h, x, p, hh, hatt, ha, hbytes⟩ := handle_of_id hs hid
  obtain ⟨answer, h', fs', held', p', hrun, hatt', hstep, hcall⟩ := hatt.call hfuel .flush
  obtain ⟨hflush, himage⟩ : h.flush v.fs = (true, h', fs') ∧
      Attached.bytes fs' h' = Attached.bytes v.fs h := by
    unfold Attached.bytes
    generalize image (view fs') h' _ = f' at hcall
    cases hcall
    simp only [HandleCall.run, Option.some.injEq, Prod.mk.injEq, ByteFile.Answer.done.injEq] at hrun
    obtain ⟨hok, rfl, rfl⟩ := hrun
    exact ⟨Prod.ext hok rfl, rfl⟩
  have hclose : h.close v.fs = (true, { h' with closed := true }, fs') := by
    unfold FAT32FileHandle.close
    rw [hatt.usable.opened, if_neg Bool.false_ne_true, hflush]
  -- the slot says what the handle knew
  obtain ⟨hsize, hfirst⟩ := hatt'.usable.agrees (flush_clean hatt.usable.opened hflush)
  rw [Disk.slotOf_place hatt'.visible.entry.listed] at hsize hfirst
  have hwf := hatt'.single.wellFormed
  have hdetach : Disk.Change False none held' (view fs') (Function.update held' p'.place none)
      (view fs') := hwf.detach hatt'.visible.toFile hatt'.single.held
    (hfirst.imp (fun h => h) And.left) False.elim
  have hupdate : Disk.Frame (some p.place) held' (view fs') (Function.update held' p'.place none)
      (view fs') := by
    rw [← hstep.place]
    exact Disk.frame_update held' (view fs') p'.place none
  have hframe := hstep.frame.trans hs.wellFormed hupdate
  have hbut := (hs.framed hframe hdetach.wellFormed hstep.same).close ha rfl
  change SoundBut (some p.place) _ _ _ at hbut
  rw [← hstep.place] at hbut
  have hlength : (Attached.bytes fs' h').length = h'.fatNode.nodeSize := ByteFile.length_firsts _ _
  have hholds : (view fs').Holds p' := by
    unfold Disk.Holds
    rw [hsize]
    rcases hfirst with heq | ⟨-, hzero⟩
    · rw [show p'.firstCluster = h'.fatNode.nodeFirstCluster from heq]
      exact Nat.le_trans (Nat.mod_le _ _) hatt'.usable.covered
    · rw [hzero]
      exact Nat.zero_le _
  have hstored : storedBytes (view fs') p' =
      (Attached.bytes v.fs h).take ((Attached.bytes v.fs h).length % 2 ^ 32) := by
    rw [← himage, hlength, storedBytes, hsize]
    change _ = List.take _ (ByteFile.firsts _ _)
    rw [ByteFile.take_firsts, Nat.min_eq_left (Nat.mod_le _ _)]
    rcases hfirst with heq | ⟨-, hzero⟩
    · rw [show p'.firstCluster = h'.fatNode.nodeFirstCluster from heq]
    · rw [hzero]
      rfl
  have hshut : (s.setHandle id none).Shut p'.place := by
    intro i b hi heq
    by_cases hii : i = id
    · subst hii
      rw [FileStore.Store.handles_setHandle_self] at hi
      cases hi
    · rw [FileStore.Store.handles_setHandle_of_ne hii] at hi
      exact hii (hc.apart hi ha (heq.trans hstep.place))
  have hsound := hbut.shutAt hatt'.visible (Function.update_self ..) hholds hshut
  refine ⟨.done true, _, _, _, ?_, hsound, ?_, hstep.same, hstep.counted⟩
  · rw [VolumeCall.run, hh, Option.map_some, hclose]
  · rw [hstored, hstep.place]
    exact .closed ha hbytes

/-! ## Opening a file that is there -/

theorem flush_emptied {fs fs' : FAT32FileSystem} {e : DirectoryEntryInfo} {mode : Nat}
    {h' : FAT32FileHandle}
    (h : FAT32FileHandle.flush { handleFor e mode with
        fatNode := ((handleFor e mode).fatNode.setFirstCluster 0).setSize 0
        offset := 0
        dirty := true } fs = (true, h', fs')) :
    updateDirectoryEntry fs { e with firstCluster := 0, size := 0 } = (true, fs') ∧
      h' = handleFor { e with firstCluster := 0, size := 0 } mode := by
  cases hupdate : updateDirectoryEntry fs { e with firstCluster := 0, size := 0 } with
  | mk ok fs₁ =>
      simp only [handleFor, FAT32VNode.setFirstCluster, FAT32VNode.setSize, Option.map_some,
        FAT32FileHandle.flush, Nat.zero_mod, hupdate] at h
      cases ok with
      | false => simp at h
      | true =>
          simp only [Bool.false_eq_true, if_false, Bool.not_true, Prod.mk.injEq, true_and] at h
          obtain ⟨rfl, rfl⟩ := h
          exact ⟨rfl, by simp [handleFor]⟩

/-- `open` cuts a file to nothing as `truncate` does. -/
theorem truncateEntry_eq {fs fs' : FAT32FileSystem} {e : DirectoryEntryInfo} {mode : Nat}
    {h' : FAT32FileHandle}
    (h : (handleFor e mode).truncateToZero fs fuel = some (true, h', fs')) :
    truncateEntry fs fuel e = some (some { e with firstCluster := 0, size := 0 }, fs') ∧
      h' = handleFor { e with firstCluster := 0, size := 0 } mode := by
  have hnode : (handleFor e mode).fatNode.nodeFirstCluster = e.firstCluster := rfl
  unfold FAT32FileHandle.truncateToZero at h
  unfold truncateEntry
  rw [hnode] at h
  by_cases hfirst : 2 ≤ e.firstCluster
  · simp only [if_pos hfirst, Option.bind_eq_bind] at h ⊢
    cases hfree : freeClusterChain fs fuel e.firstCluster with
    | none =>
        rw [hfree] at h
        cases h
    | some r =>
        obtain ⟨freed, fs₁⟩ := r
        rw [hfree] at h
        cases freed with
        | false => simp at h
        | true =>
            obtain ⟨hupdate, rfl⟩ := flush_emptied (Option.some.inj h)
            simp [hupdate]
  · simp only [if_neg hfirst, Option.bind_eq_bind] at h ⊢
    obtain ⟨hupdate, rfl⟩ := flush_emptied (Option.some.inj h)
    simp [hupdate]

/-- The end of `open`, when the entry of a file has been found. -/
def openEntry (fs : FAT32FileSystem) (fuel : Nat) (entry : DirectoryEntryInfo) (mode : Nat) :
    Option (Except VFSError FAT32FileHandle × FAT32FileSystem) :=
  if hasMode mode modeTruncate then do
    let (truncated, fs) ← truncateEntry fs fuel entry
    match truncated with
    | none => return (.error .ioError, fs)
    | some entry => return (.ok (handleFor entry mode), fs)
  else some (.ok (handleFor entry mode), fs)

/-- A file without a handle gets one. -/
theorem openEntry_attached {fs : FAT32FileSystem} {x : Nat} {p : Listed} (hm : Mounted fs)
    (hr : fs.Reliable) (hfuel : fs.totalClusters < fuel) (hd : (view fs).WellFormed held)
    (hp : (view fs).Visible x p) (hheld : held p.place = none) (hholds : (view fs).Holds p)
    (mode : Nat) :
    ∃ h fs' held' p', openEntry fs fuel (p.info x) mode = some (.ok h, fs') ∧
      Attached fs' held' h x p' ∧ p'.place = p.place ∧
      Disk.Frame (some p.place) held (view fs) held' (view fs') ∧ SameVolume fs fs' ∧
      (Counted fs → Counted fs') ∧
      Attached.bytes fs' h = (modeFlags mode).kept (storedBytes (view fs) p) ∧
      handleAt h p'.place =
        (modeFlags mode).handle p.place ((modeFlags mode).kept (storedBytes (view fs) p)) := by
  have hattach : Disk.Change False none held (view fs)
      (Function.update held p.place (some p.firstCluster)) (view fs) := hd.attach hp.toFile hheld
  have hsingle := handleFor_single hattach.wellFormed hp.toFile (Function.update_self ..) mode
  have hu : Usable fs (handleFor (p.info x) mode) ((view fs).chain p.firstCluster) p.place := by
    refine ⟨hsingle.hosted hm hr, hholds, fun _ => ?_, rfl⟩
    rw [Disk.slotOf_place hp.entry.listed]
    exact ⟨(Nat.mod_eq_of_lt (readLE_lt p.slot.raw 28 4)).symm, .inl rfl⟩
  have hupdate := Disk.frame_update held (view fs) p.place (some p.firstCluster)
  unfold openEntry FileStore.Mode.kept
  by_cases hmode : hasMode mode modeTruncate = true
  · obtain ⟨h', fs', held', p', hcall, hstep⟩ :=
      hsingle.stepped_truncateToZero hp hm hr hfuel rfl
    obtain ⟨h₁, fs₁, hcall₁, htruncated⟩ := hu.hosted.truncateToZero hfuel rfl
    rw [hcall, Option.some.injEq, Prod.mk.injEq, Prod.mk.injEq] at hcall₁
    obtain ⟨-, rfl, rfl⟩ := hcall₁
    obtain ⟨hentry, rfl⟩ := truncateEntry_eq hcall
    have husable := hu.truncated htruncated
    have hchain := husable.hosted.leads.chain_eq husable.hosted.mounted.unmarked
    have hflag : (modeFlags mode).truncate = true := hmode
    rw [if_pos hmode, if_pos hflag, hentry]
    refine ⟨_, fs', held', p', rfl, ⟨hstep.single, hstep.visible, ?_⟩, hstep.place,
      hupdate.trans hd hstep.frame, hstep.same, hstep.counted, rfl, ?_⟩
    · rw [hchain, hstep.place]
      exact husable
    · rw [hstep.place]
      rfl
  · have hflag : ¬ (modeFlags mode).truncate = true := hmode
    rw [if_neg hmode, if_neg hflag]
    refine ⟨_, fs, _, p, rfl, ⟨hsingle, hp, hu⟩, rfl, hupdate, .refl fs, fun hc => hc, rfl, ?_⟩
    unfold handleAt FileStore.Mode.handle
    rw [storedBytes, ByteFile.length_firsts]
    rfl

end Avery.Fat32
