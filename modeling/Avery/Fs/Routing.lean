import Avery.Fs.Mounts

/-!
# Which file system a path is handed to

The mount that serves a path is the longest of those that match it
(`servingMount`).  The loop of `fileSystemForPath` and the loops that the
operations repeat all find it (`longestMatch_eq`).  In a table that was built by
mounting and unmounting the paths are distinct (`TableInv`), so no other matching
mount is as long.
-/

namespace Avery.Vfs

open Fat32 (slash)
open Transition

/-! ## Matching -/

theorem isValidMountPath_iff {path : Str} :
    isValidMountPath path = true ↔ ∃ rest, path = slash :: rest := by
  cases path with
  | nil => simp [isValidMountPath]
  | cons c rest => simp [isValidMountPath]

/-- A path matches a mount path when it goes on with nothing or with a slash. -/
theorem pathStartsWithMount_iff {path mountPath : Str} (hroot : mountPath ≠ [slash]) :
    pathStartsWithMount path mountPath = true ↔
      ∃ rest, path = mountPath ++ rest ∧ (rest = [] ∨ rest.head? = some slash) := by
  simp only [pathStartsWithMount, if_neg hroot, startsWith]
  by_cases hpre : mountPath <+: path
  · obtain ⟨rest, rfl⟩ := hpre
    cases rest with
    | nil => simp
    | cons c rest => simp
  · have hno : ¬ ∃ rest, path = mountPath ++ rest ∧ (rest = [] ∨ rest.head? = some slash) := by
      rintro ⟨rest, rfl, -⟩
      exact hpre (List.prefix_append _ _)
    simp [hpre, hno]

theorem prefix_of_match {path mountPath : Str} (h : pathStartsWithMount path mountPath = true) :
    mountPath <+: path := by
  by_cases hroot : mountPath = [slash]
  · subst hroot
    simpa [pathStartsWithMount, startsWith] using h
  · obtain ⟨rest, rfl, -⟩ := (pathStartsWithMount_iff hroot).mp h
    exact List.prefix_append _ _

/-! ## The mount that serves a path -/

/-- The first of the longest matching mounts. -/
def servingMount (mounts : List MountPoint) (path : Str) : Option MountPoint :=
  (mounts.filter fun m => pathStartsWithMount path m.path).argmax fun m => m.path.length

theorem servingMount_mem {mounts : List MountPoint} {path : Str} {m : MountPoint}
    (h : servingMount mounts path = some m) :
    m ∈ mounts ∧ pathStartsWithMount path m.path = true :=
  List.mem_filter.mp (List.argmax_mem h)

theorem servingMount_longest {mounts : List MountPoint} {path : Str} {m m' : MountPoint}
    (h : servingMount mounts path = some m) (hmem : m' ∈ mounts)
    (hmatch : pathStartsWithMount path m'.path = true) : m'.path.length ≤ m.path.length :=
  List.le_of_mem_argmax (f := fun m : MountPoint => m.path.length)
    (List.mem_filter.mpr ⟨hmem, hmatch⟩) h

theorem servingMount_eq_none {mounts : List MountPoint} {path : Str} :
    servingMount mounts path = none ↔ ¬ ∃ m ∈ mounts, pathStartsWithMount path m.path = true := by
  simp [servingMount, List.argmax_eq_none, List.filter_eq_nil_iff]

/-- What the loop over the table keeps, when no mount path in it is empty. -/
theorem longestMatch_eq {α : Type} (get : MountPoint → α) (default : α) {path : Str}
    {mounts : List MountPoint} (hvalid : ∀ m ∈ mounts, m.path ≠ []) :
    longestMatch get default path mounts =
      match servingMount mounts path with
      | none => (default, 0)
      | some m => (get m, m.path.length) := by
  induction mounts using List.reverseRecOn with
  | nil => rfl
  | append_singleton mounts m ih =>
    have ih := ih fun m' hm' => hvalid m' (List.mem_append_left _ hm')
    have hpos : 0 < m.path.length :=
      List.length_pos_of_ne_nil (hvalid m (List.mem_append_right _ List.mem_cons_self))
    have hstep : longestMatch get default path (mounts ++ [m]) =
        if mountMatchLength path m.path > (longestMatch get default path mounts).2 then
          (get m, mountMatchLength path m.path)
        else longestMatch get default path mounts := by
      simp [longestMatch, List.foldl_append]
    rw [hstep, ih]
    by_cases hmatch : pathStartsWithMount path m.path = true
    · have hserving : servingMount (mounts ++ [m]) path =
          match servingMount mounts path with
          | none => some m
          | some best => if best.path.length < m.path.length then some m else some best := by
        simp only [servingMount, List.filter_append, List.filter_cons, hmatch, if_true,
          List.filter_nil, List.argmax_concat]
        cases (mounts.filter fun m => pathStartsWithMount path m.path).argmax
          fun m => m.path.length <;> rfl
      have hlength : mountMatchLength path m.path = m.path.length := by
        simp [mountMatchLength, hmatch]
      rw [hserving, hlength]
      cases servingMount mounts path with
      | none => simp [hpos]
      | some best =>
        by_cases hlt : best.path.length < m.path.length
        · simp [hlt]
        · simp [hlt]
    · have hserving : servingMount (mounts ++ [m]) path = servingMount mounts path := by
        simp [servingMount, List.filter_append, hmatch]
      have hlength : mountMatchLength path m.path = 0 := by simp [mountMatchLength, hmatch]
      rw [hserving, hlength, if_neg (Nat.not_lt_zero _)]

/-- The loop of `rename` is the loop for one path, run for both. -/
theorem mountPathsForRename_eq (mounts : List MountPoint) (oldPath newPath : Str) :
    mountPathsForRename mounts oldPath newPath =
      (longestMatch MountPoint.path [slash] oldPath mounts,
        longestMatch MountPoint.path [slash] newPath mounts) := by
  induction mounts using List.reverseRecOn with
  | nil => rfl
  | append_singleton mounts m ih =>
    simp only [mountPathsForRename, longestMatch, List.foldl_append, List.foldl_cons,
      List.foldl_nil] at ih ⊢
    rw [ih]

/-! ## Tables that are built by mounting and unmounting -/

structure TableInv (mounts : List MountPoint) : Prop where
  valid : ∀ m ∈ mounts, isValidMountPath m.path = true
  fs_ne : ∀ m ∈ mounts, m.fs ≠ 0
  nodup : (mounts.map MountPoint.path).Nodup

namespace TableInv

variable {mounts : List MountPoint}

theorem path_ne (h : TableInv mounts) {m : MountPoint} (hm : m ∈ mounts) : m.path ≠ [] := by
  obtain ⟨rest, hrest⟩ := isValidMountPath_iff.mp (h.valid m hm)
  rw [hrest]
  exact List.cons_ne_nil _ _

theorem eq_of_path (h : TableInv mounts) {m m' : MountPoint} (hm : m ∈ mounts) (hm' : m' ∈ mounts)
    (hpath : m.path = m'.path) : m = m' :=
  List.inj_on_of_nodup_map h.nodup hm hm' hpath

theorem append (h : TableInv mounts) {path : Str} {fs : Nat} (hfs : fs ≠ 0)
    (hvalid : isValidMountPath path = true) (hnew : ∀ m ∈ mounts, m.path ≠ path) :
    TableInv (mounts ++ [⟨path, fs⟩]) where
  valid := by
    intro m hm
    rcases List.mem_append.mp hm with hm | hm
    · exact h.valid m hm
    · rw [List.mem_singleton.mp hm]
      exact hvalid
  fs_ne := by
    intro m hm
    rcases List.mem_append.mp hm with hm | hm
    · exact h.fs_ne m hm
    · rw [List.mem_singleton.mp hm]
      exact hfs
  nodup := by
    rw [List.map_append, List.nodup_append]
    refine ⟨h.nodup, List.nodup_singleton _, ?_⟩
    intro a ha b hb
    obtain ⟨m, hm, rfl⟩ := List.mem_map.mp ha
    rw [List.mem_singleton.mp hb]
    exact hnew m hm

theorem sublist (h : TableInv mounts) {mounts' : List MountPoint} (hsub : mounts'.Sublist mounts) :
    TableInv mounts' where
  valid m hm := h.valid m (hsub.subset hm)
  fs_ne m hm := h.fs_ne m (hsub.subset hm)
  nodup := h.nodup.sublist (hsub.map _)

end TableInv

/-- Calls that change the mount table, and everything else that happens between
them. -/
inductive Call where
  | mount (path : Str) (fs device : Nat)
  | unmount (path : Str)
  | other

variable {σ : Type}

/-- What calls do.  `touches` says what may happen to the world between two of them. -/
inductive Step [Mountable σ] (touches : σ → σ → Prop) : Vfs σ → Call → Vfs σ → Prop
  | mount {v v' : Vfs σ} {path : Str} {fs device : Nat} {ok : Bool} :
      v.mount path fs device = some (ok, v') → Step touches v (.mount path fs device) v'
  | unmount {v v' : Vfs σ} {path : Str} {ok : Bool} :
      v.unmount path = (ok, v') → Step touches v (.unmount path) v'
  | other {v : Vfs σ} {world : σ} :
      touches v.world world → Step touches v .other { v with world }

/-- The two ways in which mounting can go. -/
theorem mount_cases [Mountable σ] {v v' : Vfs σ} {path : Str} {fs device : Nat} {ok : Bool}
    (h : v.mount path fs device = some (ok, v')) :
    fs ≠ 0 ∧ isValidMountPath path = true ∧
      ((ok = false ∧ v'.mounts = v.mounts ∧
          (v'.world = v.world ∨ Mountable.mount v.world fs device = (false, v'.world))) ∨
        (ok = true ∧ v'.mounts = v.mounts ++ [⟨path, fs⟩] ∧ (∀ m ∈ v.mounts, m.path ≠ path) ∧
          Mountable.mount v.world fs device = (true, v'.world))) := by
  simp only [mount] at h
  split at h
  · cases h
  · next hassert =>
    simp only [not_or, Bool.not_eq_true, Bool.not_eq_false'] at hassert
    refine ⟨hassert.1, by simpa using hassert.2.2, ?_⟩
    split at h
    · cases h
      exact .inl ⟨rfl, rfl, .inl rfl⟩
    · next hnew =>
      have hnew : ∀ m ∈ v.mounts, m.path ≠ path := by simpa using hnew
      rcases hmount : Mountable.mount v.world fs device with ⟨ok', world⟩
      rw [hmount] at h
      cases ok' with
      | false =>
        cases h
        exact .inl ⟨rfl, rfl, .inr rfl⟩
      | true =>
        cases h
        exact .inr ⟨rfl, rfl, hnew, rfl⟩

/-- The two ways in which unmounting can go, when no entry of the table is null. -/
theorem unmount_cases [Mountable σ] {v v' : Vfs σ} {path : Str} {ok : Bool}
    (hfs : ∀ m ∈ v.mounts, m.fs ≠ 0) (h : v.unmount path = (ok, v')) :
    (ok = false ∧ v'.mounts = v.mounts ∧
        (v'.world = v.world ∨
          ∃ m ∈ v.mounts, Mountable.unmount v.world m.fs = (false, v'.world))) ∨
      (ok = true ∧ ∃ before m after, v.mounts = before ++ m :: after ∧ m.path = path ∧
        (∀ m' ∈ before, m'.path ≠ path) ∧ v'.mounts = before ++ after ∧
        Mountable.unmount v.world m.fs = (true, v'.world)) := by
  simp only [unmount] at h
  split at h
  · cases h
    exact .inl ⟨rfl, rfl, .inl rfl⟩
  · next m hfind =>
    obtain ⟨hpath, before, after, hmounts, hbefore⟩ := List.find?_eq_some_iff_append.mp hfind
    have hpath : m.path = path := by simpa using hpath
    have hbefore : ∀ m' ∈ before, m'.path ≠ path := by simpa using hbefore
    have hmem : m ∈ v.mounts := List.mem_of_find?_eq_some hfind
    have herase : v.mounts.eraseP (·.path = path) = before ++ after := by
      rw [hmounts, List.eraseP_append_right _ (by simpa using hbefore)]
      simp [hpath]
    rw [if_neg (hfs m hmem)] at h
    rcases hunmount : Mountable.unmount v.world m.fs with ⟨ok', world⟩
    rw [hunmount] at h
    cases ok' with
    | false =>
      cases h
      exact .inl ⟨rfl, rfl, .inr ⟨m, hmem, hunmount⟩⟩
    | true =>
      cases h
      exact .inr ⟨rfl, before, m, after, hmounts, hpath, hbefore, herase, hunmount⟩

theorem Step.tableInv [Mountable σ] {touches : σ → σ → Prop} {v v' : Vfs σ} {call : Call}
    (h : Step touches v call v') (hinv : TableInv v.mounts) : TableInv v'.mounts := by
  cases h with
  | mount h =>
    obtain ⟨hfs, hvalid, ⟨-, hmounts, -⟩ | ⟨-, hmounts, hnew, -⟩⟩ := mount_cases h
    · rwa [hmounts]
    · rw [hmounts]
      exact hinv.append hfs hvalid hnew
  | unmount h =>
    rcases unmount_cases hinv.fs_ne h with
      ⟨-, hmounts, -⟩ | ⟨-, before, m, after, hbefore, -, -, hmounts, -⟩
    · rwa [hmounts]
    · rw [hmounts]
      refine hinv.sublist ?_
      rw [hbefore]
      exact (List.Sublist.refl before).append (List.sublist_cons_self m after)
  | other => exact hinv

theorem TableInv.nil : TableInv [] := ⟨nofun, nofun, List.nodup_nil⟩

theorem tableInv_run [Mountable σ] {touches : σ → σ → Prop} {world : σ} {calls : List Call}
    {v : Vfs σ} (hrun : Run (Step touches) ⟨[], world⟩ calls v) : TableInv v.mounts :=
  hrun.invariant (fun _ _ _ hinv hstep => hstep.tableInv hinv) .nil

/-! ## Routes -/

theorem fileSystemForPath_eq {mounts : List MountPoint} (hinv : TableInv mounts) (path : Str) :
    fileSystemForPath mounts path =
      match servingMount mounts path with
      | none => 0
      | some m => m.fs := by
  rw [fileSystemForPath, longestMatch_eq _ _ fun m hm => hinv.path_ne hm]
  cases servingMount mounts path <;> rfl

theorem fileSystemForPath_eq_zero {mounts : List MountPoint} (hinv : TableInv mounts)
    {path : Str} :
    fileSystemForPath mounts path = 0 ↔
      ¬ ∃ m ∈ mounts, pathStartsWithMount path m.path = true := by
  rw [fileSystemForPath_eq hinv, ← servingMount_eq_none]
  cases hserving : servingMount mounts path with
  | none => simp
  | some m => simpa using hinv.fs_ne m (servingMount_mem hserving).1

/-- A path, the mount that serves it, and the rest of the path. -/
structure Route (mounts : List MountPoint) (path : Str) (m : MountPoint) (relative : Str) :
    Prop where
  mem : m ∈ mounts
  matched : pathStartsWithMount path m.path = true
  longest : ∀ m' ∈ mounts, pathStartsWithMount path m'.path = true → m' ≠ m →
    m'.path.length < m.path.length
  fileSystem : fileSystemForPath mounts path = m.fs
  computed : relative = relativePathForMount path m.path
  absolute : ∃ rest, relative = slash :: rest
  whole : if m.path = [slash] then relative = path
    else if path = m.path then relative = [slash] else m.path ++ relative = path

theorem relativePathForMount_root (path : Str) : relativePathForMount path [slash] = path := by
  simp [relativePathForMount]

theorem relativePathForMount_self {mountPath : Str} (hroot : mountPath ≠ [slash]) :
    relativePathForMount mountPath mountPath = [slash] := by
  have hmatch : pathStartsWithMount mountPath mountPath = true :=
    (pathStartsWithMount_iff hroot).mpr ⟨[], by simp⟩
  simp [relativePathForMount, hroot, hmatch]

theorem relativePathForMount_append {mountPath rest : Str} (hroot : mountPath ≠ [slash])
    (hrest : rest.head? = some slash) : relativePathForMount (mountPath ++ rest) mountPath = rest := by
  have hmatch : pathStartsWithMount (mountPath ++ rest) mountPath = true :=
    (pathStartsWithMount_iff hroot).mpr ⟨rest, rfl, .inr hrest⟩
  cases rest with
  | nil => cases hrest
  | cons c rest => simp [relativePathForMount, hroot, hmatch]

/-- The rest of a matched path begins with a slash, and completes the mount path. -/
theorem relativePathForMount_of_match {path mountPath : Str}
    (h : pathStartsWithMount path mountPath = true) :
    (∃ rest, relativePathForMount path mountPath = slash :: rest) ∧
      if mountPath = [slash] then relativePathForMount path mountPath = path
      else if path = mountPath then relativePathForMount path mountPath = [slash]
      else mountPath ++ relativePathForMount path mountPath = path := by
  by_cases hroot : mountPath = [slash]
  · subst hroot
    obtain ⟨rest, rfl⟩ := prefix_of_match h
    rw [relativePathForMount_root, if_pos rfl]
    exact ⟨⟨rest, rfl⟩, rfl⟩
  · rw [if_neg hroot]
    obtain ⟨rest, rfl, rfl | hrest⟩ := (pathStartsWithMount_iff hroot).mp h
    · rw [List.append_nil, relativePathForMount_self hroot, if_pos rfl]
      exact ⟨⟨[], rfl⟩, rfl⟩
    · have hne : rest ≠ [] := by
        rintro rfl
        cases hrest
      rw [relativePathForMount_append hroot hrest, if_neg (by simpa using hne)]
      refine ⟨?_, rfl⟩
      cases rest with
      | nil => cases hrest
      | cons c rest =>
        cases hrest
        exact ⟨rest, rfl⟩

/-- The operations compute the rest of the path from the mount that
`fileSystemForPath` has chosen. -/
theorem route_of_match {mounts : List MountPoint} (hinv : TableInv mounts) {path : Str}
    (hmatch : ∃ m ∈ mounts, pathStartsWithMount path m.path = true) :
    ∃ m, Route mounts path m (relativePathForMount path (mountPathForPath mounts path)) := by
  cases hserving : servingMount mounts path with
  | none => exact absurd hmatch (servingMount_eq_none.mp hserving)
  | some m =>
    obtain ⟨hmem, hmatched⟩ := servingMount_mem hserving
    have hpath : mountPathForPath mounts path = m.path := by
      rw [mountPathForPath, longestMatch_eq _ _ fun m hm => hinv.path_ne hm, hserving]
    have hlongest : ∀ m' ∈ mounts, pathStartsWithMount path m'.path = true → m' ≠ m →
        m'.path.length < m.path.length := by
      intro m' hmem' hmatched' hne
      refine lt_of_le_of_ne (servingMount_longest hserving hmem' hmatched') fun hlength => hne ?_
      -- two prefixes of one length are the same mount path, and the paths are distinct
      have hpre : m'.path <+: m.path :=
        List.prefix_of_prefix_length_le (prefix_of_match hmatched') (prefix_of_match hmatched)
          (Nat.le_of_eq hlength)
      exact hinv.eq_of_path hmem' hmem (hpre.eq_of_length hlength)
    have hrelative := relativePathForMount_of_match hmatched
    rw [hpath]
    refine ⟨m, hmem, hmatched, hlongest, ?_, rfl, hrelative.1, hrelative.2⟩
    rw [fileSystemForPath_eq hinv, hserving]

theorem Route.unique {mounts : List MountPoint} {path relative relative' : Str} {m m' : MountPoint}
    (h : Route mounts path m relative) (h' : Route mounts path m' relative') : m = m' := by
  by_contra hne
  exact Nat.lt_asymm (h.longest m' h'.mem h'.matched fun h => hne h.symm)
    (h'.longest m h.mem h.matched hne)

/-! ## What the file systems are handed -/

variable [FileSystem σ]

/-- The operations on one path hand `relative` to the file system at `fs`. -/
structure Hands (v : Vfs σ) (path : Str) (fs : Nat) (relative : Str) : Prop where
  openFile : ∀ mode, v.openFile path mode =
    let (result, world) := FileSystem.openFile v.world fs relative mode
    some (handleOf result, { v with world })
  openDirectory : v.openDirectory path =
    let (result, world) := FileSystem.openDirectory v.world fs relative
    some (handleOf result, { v with world })
  stat : ∀ outStat, v.stat path outStat =
    let ((ok, outStat, error), world) := FileSystem.stat v.world fs relative outStat
    some ((ok && error.ok, outStat), { v with world })
  createFile : v.createFile path =
    let ((ok, error), world) := FileSystem.createFile v.world fs relative
    (ok && error.ok, { v with world })
  createDirectory : v.createDirectory path =
    let ((ok, error), world) := FileSystem.createDirectory v.world fs relative
    (ok && error.ok, { v with world })
  remove : v.remove path =
    let ((ok, error), world) := FileSystem.remove v.world fs relative
    (ok && error.ok, { v with world })

theorem hands_of_fileSystem {v : Vfs σ} {path : Str} {fs : Nat}
    (h : fileSystemForPath v.mounts path = fs) (hfs : fs ≠ 0) :
    Hands v path fs (v.relativePath path) := by
  subst h
  constructor <;>
    simp [Vfs.openFile, Vfs.openDirectory, Vfs.stat, Vfs.createFile, Vfs.createDirectory,
      Vfs.remove, asserted, guarded, hfs]

/-- Every operation on a path that some mount matches goes to the file system of the
longest matching mount, with what is left of the path after that mount. -/
theorem operations_follow_route {touches : σ → σ → Prop} {world : σ} {calls : List Call}
    {v : Vfs σ} (hrun : Run (Step touches) ⟨[], world⟩ calls v) {path : Str}
    (hmatch : ∃ m ∈ v.mounts, pathStartsWithMount path m.path = true) :
    ∃ m relative, Route v.mounts path m relative ∧ Hands v path m.fs relative ∧
      ∀ newPath, (∃ n ∈ v.mounts, pathStartsWithMount newPath n.path = true) →
        ∃ n newRelative, Route v.mounts newPath n newRelative ∧
          v.rename path newPath =
            if m.fs = n.fs then
              let ((ok, error), world) := FileSystem.rename v.world m.fs relative newRelative
              (ok && error.ok, { v with world })
            else (false, v) := by
  have hinv := tableInv_run hrun
  obtain ⟨m, hroute⟩ := route_of_match hinv hmatch
  have hfs := hinv.fs_ne m hroute.mem
  refine ⟨m, _, hroute, hands_of_fileSystem hroute.fileSystem hfs, fun newPath hnew => ?_⟩
  obtain ⟨n, hnewRoute⟩ := route_of_match hinv hnew
  have hnewFs := hinv.fs_ne n hnewRoute.mem
  refine ⟨n, _, hnewRoute, ?_⟩
  simp only [Vfs.rename, hroute.fileSystem, hnewRoute.fileSystem, hfs, hnewFs,
    mountPathsForRename_eq, or_self, if_false, ne_eq, ite_not]
  rfl

/-! ## Paths that no mount matches -/

omit [FileSystem σ] in
/-- An operation that asserts a file system panics exactly on the paths that no mount
matches. -/
theorem asserted_eq_none {v : Vfs σ} (hinv : TableInv v.mounts) {α : Type} {path : Str}
    {call : σ → Nat → Str → α × σ} :
    v.asserted path call = none ↔ ¬ ∃ m ∈ v.mounts, pathStartsWithMount path m.path = true := by
  rw [← fileSystemForPath_eq_zero hinv]
  simp [asserted]

omit [FileSystem σ] in
theorem guarded_of_unmatched {v : Vfs σ} (hinv : TableInv v.mounts) {path : Str}
    (h : ¬ ∃ m ∈ v.mounts, pathStartsWithMount path m.path = true)
    {call : σ → Nat → Str → (Bool × Code) × σ} : v.guarded path call = (false, v) := by
  simp [guarded, (fileSystemForPath_eq_zero hinv).mpr h]

/-- The operation does not panic, and its result is a refusal when no file system serves
the path. -/
def Answers {α : Type} (v : Vfs σ) (path : Str) (result : Option (α × Vfs σ))
    (refused : α → Prop) : Prop :=
  ∃ answer v', result = some (answer, v') ∧
    (fileSystemForPath v.mounts path = 0 → refused answer)

omit [FileSystem σ] in
theorem answers_asserted {v : Vfs σ} (hinv : TableInv v.mounts) {α β : Type} {path : Str}
    (call : σ → Nat → Str → α × σ) (f : α → β) (refused : β → Prop) :
    Answers v path ((v.asserted path call).map (Prod.map f id)) refused ↔
      ∃ m ∈ v.mounts, pathStartsWithMount path m.path = true := by
  cases hcall : v.asserted path call with
  | none =>
    simp only [Answers, Option.map_none, reduceCtorEq, false_and, exists_false, false_iff]
    exact (asserted_eq_none hinv).mp hcall
  | some answer =>
    have hmatch : ∃ m ∈ v.mounts, pathStartsWithMount path m.path = true := by
      by_contra hno
      rw [(asserted_eq_none hinv).mpr hno] at hcall
      cases hcall
    refine ⟨fun _ => hmatch, fun _ => ⟨f answer.1, answer.2, rfl, fun hzero => ?_⟩⟩
    exact absurd hmatch ((fileSystemForPath_eq_zero hinv).mp hzero)

/-- The operations that assert a file system answer exactly on the paths that some mount
matches.  The others answer on every path. -/
theorem answers_iff_matched {touches : σ → σ → Prop} {world : σ} {calls : List Call} {v : Vfs σ}
    (hrun : Run (Step touches) ⟨[], world⟩ calls v) (path : Str) :
    let Matched := ∃ m ∈ v.mounts, pathStartsWithMount path m.path = true
    (∀ mode, Answers v path (v.openFile path mode) (· = 0) ↔ Matched) ∧
      (Answers v path (v.openDirectory path) (· = 0) ↔ Matched) ∧
      (∀ outStat, Answers v path (v.stat path outStat) (·.1 = false) ↔ Matched) ∧
      (Answers v path (v.pathExists path) (· = false) ↔ Matched) ∧
      (Answers v path (v.isFile path) (· = false) ↔ Matched) ∧
      (Answers v path (v.isDirectory path) (· = false) ↔ Matched) ∧
      (¬ Matched →
        v.createFile path = (false, v) ∧ v.createDirectory path = (false, v) ∧
        v.remove path = (false, v) ∧
        ∀ other, v.rename path other = (false, v) ∧ v.rename other path = (false, v)) := by
  have hinv := tableInv_run hrun
  intro Matched
  have hstat : ∀ {β : Type} (f : Bool × VFSStat → β) (refused : β → Prop),
      Answers v path ((v.stat path {}).map (Prod.map f id)) refused ↔ Matched := by
    intro β f refused
    rw [Vfs.stat, Option.map_map]
    exact answers_asserted hinv _ (fun r : Bool × VFSStat × Code => f (r.1 && r.2.2.ok, r.2.1)) refused
  refine ⟨fun mode => answers_asserted hinv _ _ _, answers_asserted hinv _ _ _,
    fun outStat => answers_asserted hinv _ _ _, hstat _ _, hstat _ _, hstat _ _, fun hno => ?_⟩
  have hzero := (fileSystemForPath_eq_zero hinv).mpr hno
  refine ⟨guarded_of_unmatched hinv hno, guarded_of_unmatched hinv hno,
    guarded_of_unmatched hinv hno, fun other => ?_⟩
  simp [Vfs.rename, hzero]

/-! ## Objects that write down what they are handed -/

/-- File systems that accept every call. -/
structure Recorder where
  handed : List (Nat × Str)

def Recorder.record (world : Recorder) (fs : Nat) (path : Str) : Recorder :=
  ⟨world.handed ++ [(fs, path)]⟩

instance : FileSystem Recorder where
  mount world _ _ := (true, world)
  unmount world _ := (true, world)
  openFile world fs path _ := ((1, .none), world.record fs path)
  openDirectory world fs path := ((1, .none), world.record fs path)
  stat world fs path outStat := ((true, outStat, .none), world.record fs path)
  createFile world fs path := ((true, .none), world.record fs path)
  createDirectory world fs path := ((true, .none), world.record fs path)
  remove world fs path := ((true, .none), world.record fs path)
  rename world fs oldPath newPath := ((true, .none), (world.record fs oldPath).record fs newPath)

/-- File system 1 at `/` and file system 2 at `/a`. -/
def nested : Vfs Recorder := ⟨[⟨[slash], 1⟩, ⟨[slash, 97], 2⟩], ⟨[]⟩⟩

theorem nested_run :
    Run (Step fun _ _ => True) (⟨[], ⟨[]⟩⟩ : Vfs Recorder)
      [.mount [slash] 1 3, .mount [slash, 97] 2 3] nested :=
  .cons (t := ⟨[⟨[slash], 1⟩], ⟨[]⟩⟩) (.mount rfl) (.single (.mount rfl))

/-- The path `/a/b`. -/
theorem operations_follow_route_nested :
    ∃ m relative, Route nested.mounts [slash, 97, slash, 98] m relative ∧
      Hands nested [slash, 97, slash, 98] m.fs relative ∧
      ∀ newPath, (∃ n ∈ nested.mounts, pathStartsWithMount newPath n.path = true) →
        ∃ n newRelative, Route nested.mounts newPath n newRelative ∧
          nested.rename [slash, 97, slash, 98] newPath =
            if m.fs = n.fs then
              let ((ok, error), world) := FileSystem.rename nested.world m.fs relative newRelative
              (ok && error.ok, { nested with world })
            else (false, nested) :=
  operations_follow_route nested_run ⟨⟨[slash], 1⟩, by decide, by decide⟩

example : (nested.openFile [slash, 97, slash, 98] 1).map (·.2.world.handed) =
    some [(2, [slash, 98])] := rfl

theorem answers_iff_matched_nested :
    (Answers nested [98] (nested.openDirectory [98]) (· = 0) ↔
      ∃ m ∈ nested.mounts, pathStartsWithMount [98] m.path = true) :=
  (answers_iff_matched nested_run [98]).2.1

/-- `ls b`: a path that does not begin with a slash panics. -/
theorem openDirectory_relative_panics :
    ¬ ∀ (calls : List Call) (v : Vfs Recorder) (path : Str),
      Run (Step fun _ _ => True) ⟨[], ⟨[]⟩⟩ calls v →
        Answers v path (v.openDirectory path) (· = 0) := by
  intro h
  obtain ⟨answer, v', hsome, -⟩ := h _ nested [98] nested_run
  have hnone : nested.openDirectory [98] = none := rfl
  rw [hnone] at hsome
  cases hsome

end Avery.Vfs
