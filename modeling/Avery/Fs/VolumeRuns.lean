import Avery.Fs.VolumePaths

/-!
# Runs on a volume with many open files

Sequences of calls on paths and on handles, in any order, do what a store of files allows
(`volume_refines`), as long as a file has one handle at a time and is not removed while it is
open.  So a handle is answered as if its file was the only one (`handle_alone`).
-/

namespace Avery.Fat32

open FAT32FileHandle

/-! ## How callers use a volume -/

/-- No handle is on the entry at a place. -/
def Volume.Shut (v : Volume) (q : Nat × Nat) : Prop :=
  ∀ id h e, v.handles id = some h → h.fatNode.entryInfo = some e → e.place ≠ q

/-- A file has one handle at a time and stays while it has one.  What may be made gets a name
without NUL. -/
def VolumeCall.Admitted (v : Volume) : VolumeCall → Prop
  | .createFile path => 0 ∉ basenameOf path
  | .createDirectory path => 0 ∉ basenameOf path
  | .remove path => ∀ e, (view v.fs).resolve path = some e → v.Shut e.place
  | .openFile id path mode => v.handles id = none ∧
      (hasMode mode modeCreate = true → 0 ∉ basenameOf path) ∧
      ∀ e, (view v.fs).resolve path = some e → v.Shut e.place
  | .close id => (v.handles id).isSome
  | .onFile id _ => (v.handles id).isSome

/-- Every call of a sequence is admitted where it is made. -/
def EachAdmitted (fuel : Nat) : List VolumeCall → Volume → Prop
  | [], _ => True
  | call :: calls, v => call.Admitted v ∧
      ∀ answer v', call.run fuel v = some (answer, v') → EachAdmitted fuel calls v'

/-- Calls one after another, each with its answer. -/
def runVolume (fuel : Nat) : List VolumeCall → Volume →
    Option (List (FileStore.Call (Nat × Nat) Nat UInt8 × FileStore.Answer UInt8) × Volume)
  | [], v => some ([], v)
  | call :: calls, v => do
      let (answer, v') ← call.run fuel v
      let (answers, v'') ← runVolume fuel calls v'
      return ((call.onStore (view v.fs), answer) :: answers, v'')

/-- The call on the bytes of a file that a call makes on a handle. -/
def VolumeCall.own (id : Nat) : VolumeCall → Option (ByteFile.Call UInt8)
  | .onFile id' call => if id' = id then some call.onBytes else none
  | _ => none

section

variable {v : Volume} {held : Nat × Nat → Option Nat} {s : Files} {fuel id : Nat}
  {calls : List VolumeCall}

theorem SoundBut.shut_store (hs : Sound v held s) {q : Nat × Nat} (h : v.Shut q) : s.Shut q := by
  intro i a ha heq
  obtain ⟨g, x, p, hg, hatt, rfl, -⟩ := hs.opened_at ha
  obtain ⟨e, he, hplace, -⟩ := hatt.single.info
  exact h i g e hg he (hplace.trans heq)

/-- Every call returns and does what the store allows. -/
theorem call_refined (hs : Sound v held s) (hc : s.Coherent) (hfuel : v.fs.totalClusters < fuel)
    {call : VolumeCall} (ha : call.Admitted v) :
    ∃ answer v' held' s', call.run fuel v = some (answer, v') ∧
      Refined v s (call.onStore (view v.fs)) answer v' held' s' := by
  cases call with
  | createFile path =>
      obtain ⟨result, fs', s', hrun, hstep, hsound, hsame, hcounted⟩ :=
        createEntry_refined hs hc hfuel plain_attributeArchive ha
      refine ⟨_, { v with fs := fs' }, held, s', ?_, hsound, hstep, hsame, hcounted⟩
      simp [VolumeCall.run, createFile, hrun]
  | createDirectory path =>
      obtain ⟨result, fs', s', hrun, hstep, hsound, hsame, hcounted⟩ :=
        createEntry_refined hs hc hfuel plain_attributeDirectory ha
      refine ⟨_, { v with fs := fs' }, held, s', ?_, hsound, hstep, hsame, hcounted⟩
      simp [VolumeCall.run, createDirectory, hrun]
  | remove path =>
      obtain ⟨result, fs', s', hrun, hstep, hsound, hsame, hcounted⟩ :=
        remove_refined hs hfuel fun e he => hs.shut_store (ha e he)
      refine ⟨_, { v with fs := fs' }, held, s', ?_, hsound, hstep, hsame, hcounted⟩
      simp [VolumeCall.run, hrun]
  | openFile id path mode =>
      obtain ⟨hid, hnul, hshut⟩ := ha
      exact openFile_refined hs hc hfuel hnul (fun e he => hs.shut_store (hshut e he)) hid
  | close id => exact close_refined hs hc hfuel ha
  | onFile id call => exact onFile_refined hs hc hfuel ha call

theorem runVolume_refined (hs : Sound v held s) (hc : s.Coherent)
    (hfuel : v.fs.totalClusters < fuel) (ha : EachAdmitted fuel calls v) :
    ∃ trace v' held' s', runVolume fuel calls v = some (trace, v') ∧
      FileStore.Run (2 ^ 32) s trace s' ∧ Sound v' held' s' ∧ SameVolume v.fs v'.fs ∧
      (Counted v.fs → Counted v'.fs) := by
  induction calls generalizing v held s with
  | nil => exact ⟨[], v, held, s, rfl, .nil, hs, .refl v.fs, fun h => h⟩
  | cons call calls ih =>
      obtain ⟨hcall, hrest⟩ := ha
      obtain ⟨answer, v₁, held₁, s₁, hrun, h⟩ := call_refined hs hc hfuel hcall
      obtain ⟨trace, v', held', s', hruns, htrace, hsound, hsame, hcounted⟩ :=
        ih h.sound (h.step.coherent hc) (h.same.totalClusters ▸ hfuel) (hrest answer v₁ hrun)
      refine ⟨_, v', held', s', ?_, .cons h.step htrace, hsound, h.same.trans hsame,
        fun hcount => hcounted (h.counted hcount)⟩
      simp [runVolume, hrun, hruns]

/-- The calls of a trace are those that were made. -/
theorem mem_trace {trace : List (FileStore.Call (Nat × Nat) Nat UInt8 × FileStore.Answer UInt8)}
    {v' : Volume} (h : runVolume fuel calls v = some (trace, v')) :
    ∀ p ∈ trace, ∃ d, ∃ call ∈ calls, p.1 = call.onStore d := by
  induction calls generalizing v trace with
  | nil =>
      cases h
      intro p hp
      cases hp
  | cons call calls ih =>
      simp only [runVolume, Option.bind_eq_bind, Option.bind_eq_some_iff] at h
      obtain ⟨⟨answer, v₁⟩, -, ⟨answers, v₂⟩, hrest, hlast⟩ := h
      cases hlast
      intro p hp
      rcases List.mem_cons.mp hp with rfl | hp
      · exact ⟨_, call, List.mem_cons_self .., rfl⟩
      · obtain ⟨d, c, hc, heq⟩ := ih hrest p hp
        exact ⟨d, c, List.mem_cons_of_mem _ hc, heq⟩

/-- A call on a handle has an answer of the file. -/
theorem own_onStore {call : VolumeCall} {answer : FileStore.Answer UInt8} {v' : Volume}
    (h : call.run fuel v = some (answer, v')) (id : Nat) (d : Disk) :
    (FileStore.own id (call.onStore d, answer)).map Prod.fst = call.own id := by
  cases call with
  | createFile path => rfl
  | createDirectory path => rfl
  | remove path => rfl
  | openFile id' path mode => rfl
  | close id' => rfl
  | onFile id' call =>
      simp only [VolumeCall.run, Option.bind_eq_bind, Option.bind_eq_some_iff] at h
      obtain ⟨g, -, ⟨reply, g', fs'⟩, -, hlast⟩ := h
      cases hlast
      unfold FileStore.own VolumeCall.own
      simp only [VolumeCall.onStore]
      split
      · rfl
      · rfl

/-- A trace has all calls of a handle. -/
theorem own_trace {trace : List (FileStore.Call (Nat × Nat) Nat UInt8 × FileStore.Answer UInt8)}
    {v' : Volume} (h : runVolume fuel calls v = some (trace, v')) (id : Nat) :
    (trace.filterMap (FileStore.own id)).map Prod.fst = calls.filterMap (VolumeCall.own id) := by
  induction calls generalizing v trace with
  | nil =>
      cases h
      rfl
  | cons call calls ih =>
      simp only [runVolume, Option.bind_eq_bind, Option.bind_eq_some_iff] at h
      obtain ⟨⟨answer, v₁⟩, hrun, ⟨answers, v₂⟩, hrest, hlast⟩ := h
      cases hlast
      have hcall := own_onStore hrun id (view v.fs)
      have hcalls := ih hrest
      cases hown : FileStore.own id (call.onStore (view v.fs), answer) with
      | none =>
          rw [hown, Option.map_none] at hcall
          rw [List.filterMap_cons_none hown, List.filterMap_cons_none hcall.symm]
          exact hcalls
      | some own =>
          rw [hown, Option.map_some] at hcall
          rw [List.filterMap_cons_some hown, List.filterMap_cons_some hcall.symm, List.map_cons,
            hcalls]

theorem onStore_eq_close {d : Disk} {call : VolumeCall} (h : call.onStore d = .close id) :
    call = .close id := by
  cases call with
  | close id' =>
      cases h
      rfl
  | createFile path => cases h
  | createDirectory path => cases h
  | remove path => cases h
  | openFile id' path mode => cases h
  | onFile id' call => cases h

end

/-! ## From the mount on -/

open Classical in
/-- The files that paths can lead to, none of them open. -/
noncomputable def storeOf (d : Disk) : Files where
  files q :=
    if ∃ x p, d.Visible x p ∧ p.place = q then some (storedBytes d ⟨d.slotOf q, [], 0⟩) else none
  handles _ := none

theorem coherent_storeOf (d : Disk) : (storeOf d).Coherent where
  grounded h := nomatch h
  apart h := nomatch h

section

variable {fs : FAT32FileSystem} {fuel : Nat}

theorem sound_storeOf (hm : Mounted fs) (hr : fs.Reliable) (hd : (view fs).WellFormed fun _ => none)
    (hholds : ∀ {x p}, (view fs).Visible x p → (view fs).Holds p) :
    Sound ⟨fs, fun _ => none⟩ (fun _ => none) (storeOf (view fs)) where
  mounted := hm
  reliable := hr
  wellFormed := hd
  ids _ := rfl
  opened h := nomatch h
  shut {x p} hp _ _ := by
    refine ⟨rfl, hholds hp, (if_pos ⟨x, p, hp, rfl⟩).trans ?_⟩
    rw [Disk.slotOf_place hp.entry.listed]
    rfl
  absent hno h := ⟨if_neg fun ⟨x, p, hp, heq⟩ => h x p hp heq, rfl⟩

/-- The file of the small volume is empty. -/
theorem holds_fileVolume {x : Nat} {p : Listed} (hp : (view fileVolume).Visible x p) :
    (view fileVolume).Holds p := by
  have hroot : ∀ {y}, (view fileVolume).Through (view fileVolume).Proper y → y = 2 := by
    intro y hy
    induction hy with
    | root => exact root_fileVolume
    | child _ hchild _ ih =>
        subst ih
        have hmem := hchild.entry.listed
        rw [listing_fileVolume.1, List.mem_singleton] at hmem
        subst hmem
        exact absurd hchild.directory file_fileVolume.file
  have hmem := hp.entry.listed
  rw [hroot hp.through, listing_fileVolume.1, List.mem_singleton] at hmem
  subst hmem
  have hempty : fileEntry.slot.fileSize = 0 := by decide +kernel
  unfold Disk.Holds
  rw [hempty]
  exact Nat.zero_le _

/-- It can be opened. -/
theorem admitted_fileVolume {rest : List VolumeCall}
    (h : ∀ v, (v.handles 0).isSome = true → EachAdmitted 10 rest v) :
    EachAdmitted 10 (.openFile 0 [47, 65] 3 :: rest) ⟨fileVolume, fun _ => none⟩ := by
  refine ⟨⟨rfl, fun _ => by decide, fun e _ id h' e' hh => nomatch hh⟩, fun answer v hrun => h v ?_⟩
  have hsome : ((VolumeCall.openFile 0 [47, 65] 3).run 10 ⟨fileVolume, fun _ => none⟩).map
      (fun r => (r.2.handles 0).isSome) = some true := by decide +kernel
  rw [hrun] at hsome
  exact Option.some.inj hsome

/-- Another file is made, and the open one is written to. -/
theorem admitted_write (v : Volume) (h : (v.handles 0).isSome = true) :
    EachAdmitted 10 [.createFile [47, 66], .onFile 0 (.write (fun _ => 65) 3)] v := by
  have hname : 0 ∉ basenameOf [47, 66] := by decide
  refine ⟨hname, fun answer v' hrun => ⟨?_, fun _ _ _ => trivial⟩⟩
  obtain ⟨r, -, hlast⟩ := Option.map_eq_some_iff.mp hrun
  cases hlast
  exact h

/-- A mounted volume is a store of files.  Every sequence of calls on paths and handles
returns, with answers that the store may give, and leaves the volume with the files of
the store. -/
theorem volume_refines (hm : Mounted fs) (hr : fs.Reliable) (hfuel : fs.totalClusters < fuel)
    (hd : (view fs).WellFormed fun _ => none)
    (hholds : ∀ {x p}, (view fs).Visible x p → (view fs).Holds p) (calls : List VolumeCall)
    (ha : EachAdmitted fuel calls ⟨fs, fun _ => none⟩) :
    ∃ trace v' held' s', runVolume fuel calls ⟨fs, fun _ => none⟩ = some (trace, v') ∧
      FileStore.Run (2 ^ 32) (storeOf (view fs)) trace s' ∧ Sound v' held' s' ∧
      (Counted fs → Counted v'.fs) := by
  obtain ⟨trace, v', held', s', hrun, htrace, hsound, -, hcounted⟩ :=
    runVolume_refined (sound_storeOf hm hr hd hholds) (coherent_storeOf _) hfuel ha
  exact ⟨trace, v', held', s', hrun, htrace, hsound, hcounted⟩

theorem volume_refines_fileVolume : ∃ trace v' held' s',
    runVolume 10 [.openFile 0 [47, 65] 3, .createFile [47, 66], .onFile 0 (.write (fun _ => 65) 3)]
      ⟨fileVolume, fun _ => none⟩ = some (trace, v') ∧
    FileStore.Run (2 ^ 32) (storeOf (view fileVolume)) trace s' ∧ Sound v' held' s' ∧
    (Counted fileVolume → Counted v'.fs) :=
  volume_refines mounted_fileVolume (fun _ => rfl) (by decide +kernel)
    (wellFormed_fileVolume (by decide +kernel)) holds_fileVolume _
    (admitted_fileVolume admitted_write)

/-- A handle that stays open is answered as a list of bytes, whatever is called on paths and on
other handles meanwhile. -/
theorem handle_alone (hm : Mounted fs) (hr : fs.Reliable) (hfuel : fs.totalClusters < fuel)
    (hd : (view fs).WellFormed fun _ => none)
    (hholds : ∀ {x p}, (view fs).Visible x p → (view fs).Holds p) {before after : List VolumeCall}
    {trace : List (FileStore.Call (Nat × Nat) Nat UInt8 × FileStore.Answer UInt8)} {v : Volume}
    (ha : EachAdmitted fuel before ⟨fs, fun _ => none⟩)
    (hrun : runVolume fuel before ⟨fs, fun _ => none⟩ = some (trace, v))
    (ha' : EachAdmitted fuel after v) {id : Nat} {h : FAT32FileHandle}
    (hh : v.handles id = some h) (hclose : .close id ∉ after) :
    ∃ trace' v' h', runVolume fuel after v = some (trace', v') ∧ v'.handles id = some h' ∧
      (trace'.filterMap (FileStore.own id)).map Prod.fst = after.filterMap (VolumeCall.own id) ∧
      ByteFile.Run (image (view v.fs) h ((view v.fs).chain h.fatNode.nodeFirstCluster))
        (trace'.filterMap (FileStore.own id))
        (image (view v'.fs) h' ((view v'.fs).chain h'.fatNode.nodeFirstCluster)) := by
  obtain ⟨_, _, held, s, hrun₁, htrace, hsound, hsame, -⟩ :=
    runVolume_refined (sound_storeOf hm hr hd hholds) (coherent_storeOf _) hfuel ha
  rw [hrun, Option.some.injEq, Prod.mk.injEq] at hrun₁
  obtain ⟨rfl, rfl⟩ := hrun₁
  have hc := htrace.coherent (coherent_storeOf _)
  obtain ⟨trace', v', held', s', hrun', htrace', hsound', -, -⟩ :=
    runVolume_refined hsound hc (hsame.totalClusters ▸ hfuel) ha'
  -- the store sees what the handle does
  obtain ⟨g, x, p, hg, -, hstored, hbytes⟩ := handle_of_id hsound (by rw [hh]; rfl)
  rw [hh, Option.some.injEq] at hg
  subst hg
  have hsees : s.Sees id p.place
      (image (view v.fs) h ((view v.fs).chain h.fatNode.nodeFirstCluster)) :=
    ⟨_, _, hstored, rfl, hbytes, rfl⟩
  obtain ⟨f', hown, a', bytes', ha', hplace', hbytes', rfl⟩ :=
    htrace'.alone hc hsees fun c hmem heq => by
      obtain ⟨d, call, hcall, hcalls⟩ := mem_trace hrun' c hmem
      exact hclose (onStore_eq_close (hcalls.symm.trans heq) ▸ hcall)
  obtain ⟨h', x', p', hh', -, rfl, himage⟩ := hsound'.opened_at ha'
  change p'.place = p.place at hplace'
  rw [← hplace', himage, Option.some.injEq] at hbytes'
  subst hbytes'
  exact ⟨trace', v', h', hrun', hh', own_trace hrun' id, hown⟩

/-- The file of the small volume is written to while another one is made. -/
theorem handle_alone_fileVolume : ∃ trace v h trace' v' h',
    runVolume 10 [.openFile 0 [47, 65] 3] ⟨fileVolume, fun _ => none⟩ = some (trace, v) ∧
    v.handles 0 = some h ∧
    runVolume 10 [.createFile [47, 66], .onFile 0 (.write (fun _ => 65) 3)] v = some (trace', v') ∧
    v'.handles 0 = some h' ∧
    (trace'.filterMap (FileStore.own 0)).map Prod.fst =
      [.write (ByteFile.firsts (fun _ => 65) 3)] ∧
    ByteFile.Run (image (view v.fs) h ((view v.fs).chain h.fatNode.nodeFirstCluster))
      (trace'.filterMap (FileStore.own 0))
      (image (view v'.fs) h' ((view v'.fs).chain h'.fatNode.nodeFirstCluster)) := by
  have hsome : (runVolume 10 [.openFile 0 [47, 65] 3] ⟨fileVolume, fun _ => none⟩).map
      (fun r => (r.2.handles 0).isSome) = some true := by decide +kernel
  obtain ⟨⟨trace, v⟩, hrun, hopen⟩ := Option.map_eq_some_iff.mp hsome
  obtain ⟨h, hh⟩ := Option.isSome_iff_exists.mp hopen
  have hopened : EachAdmitted 10 [.openFile 0 [47, 65] 3] ⟨fileVolume, fun _ => none⟩ :=
    admitted_fileVolume fun _ _ => trivial
  obtain ⟨trace', v', h', hrest⟩ := handle_alone mounted_fileVolume (fun _ => rfl)
    (by decide +kernel) (wellFormed_fileVolume (by decide +kernel)) holds_fileVolume hopened hrun
    (admitted_write v hopen) hh (by simp)
  exact ⟨trace, v, h, trace', v', h', hrun, hh, hrest⟩

end

end Avery.Fat32
