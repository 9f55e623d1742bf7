import Mathlib.Logic.Function.Basic
import Avery.Fs.Geometry
import Avery.Fs.Routing

/-!
# The mount table and the file systems in it

An object has a flag of its own that says whether it is mounted.  Objects whose
`mount` and `unmount` keep that flag (`LawfulMountable`) are in the table exactly
while the flag is set, as long as they are mounted through the table only
(`Consistent`).  `FAT32FileSystem` objects are such objects (`Volumes`).
-/

namespace Avery

/-! ## Objects that know whether they are mounted -/

class LawfulMountable (σ : Type) [Mountable σ] where
  isMounted : σ → Nat → Bool
  mount_true {w w' : σ} {fs device : Nat} : Mountable.mount w fs device = (true, w') →
    isMounted w fs = false ∧ ∀ other, isMounted w' other = if other = fs then true
      else isMounted w other
  mount_false {w w' : σ} {fs device : Nat} : Mountable.mount w fs device = (false, w') →
    ∀ other, isMounted w' other = isMounted w other
  unmount_true {w w' : σ} {fs : Nat} : Mountable.unmount w fs = (true, w') →
    ∀ other, isMounted w' other = if other = fs then false else isMounted w other
  unmount_false {w w' : σ} {fs : Nat} : Mountable.unmount w fs = (false, w') →
    ∀ other, isMounted w' other = isMounted w other

/-- The `FAT32FileSystem` objects and the devices.  An object that is mounted has a
device and a volume. -/
structure Volumes where
  devices : Nat → BlockDevice
  objects : Nat → Option (Nat × FAT32FileSystem)

namespace Volumes

/-- `FAT32FileSystem::isMounted`. -/
def isMounted (w : Volumes) (fs : Nat) : Bool := (w.objects fs).isSome

/-- `FAT32FileSystem::mount`. -/
def mount (w : Volumes) (fs device : Nat) : Bool × Volumes :=
  if w.isMounted fs ∨ device = 0 then (false, w)
  else
    match Fat32.mount (w.devices device) with
    | none =>
        -- the boot sector has been asked for
        (false,
          { w with devices := Function.update w.devices device (w.devices device).served })
    | some volume =>
        (true,
          { devices := Function.update w.devices device volume.backingDevice
            objects := Function.update w.objects fs (some (device, volume)) })

/-- `FAT32FileSystem::unmount`. -/
def unmount (w : Volumes) (fs : Nat) : Bool × Volumes :=
  match w.objects fs with
  | none => (false, w)
  | some (device, volume) =>
      let volume := (Fat32.syncFSInfo { volume with backingDevice := w.devices device }).2
      (true,
        { devices := Function.update w.devices device volume.backingDevice
          objects := Function.update w.objects fs none })

instance : Mountable Volumes := ⟨mount, unmount⟩

theorem isMounted_update {w w' : Volumes} {fs : Nat} {object : Option (Nat × FAT32FileSystem)}
    (h : w'.objects = Function.update w.objects fs object) (other : Nat) :
    w'.isMounted other = if other = fs then object.isSome else w.isMounted other := by
  rw [isMounted, h, Function.update_apply]
  split <;> rfl

theorem mount_cases {w w' : Volumes} {fs device : Nat} {ok : Bool}
    (h : w.mount fs device = (ok, w')) :
    (ok = false ∧ w'.objects = w.objects) ∨
      (ok = true ∧ w.isMounted fs = false ∧
        ∃ volume, w'.objects = Function.update w.objects fs (some (device, volume))) := by
  simp only [mount] at h
  split at h
  · cases h
    exact .inl ⟨rfl, rfl⟩
  · next hfree =>
    have hfree : w.isMounted fs = false := by
      simp only [not_or, Bool.not_eq_true] at hfree
      exact hfree.1
    split at h
    · cases h
      exact .inl ⟨rfl, rfl⟩
    · next volume _ =>
      cases h
      exact .inr ⟨rfl, hfree, volume, rfl⟩

theorem unmount_cases {w w' : Volumes} {fs : Nat} {ok : Bool} (h : w.unmount fs = (ok, w')) :
    (ok = false ∧ w'.objects = w.objects) ∨
      (ok = true ∧ w'.objects = Function.update w.objects fs none) := by
  simp only [unmount] at h
  split at h
  · cases h
    exact .inl ⟨rfl, rfl⟩
  · cases h
    exact .inr ⟨rfl, rfl⟩

instance : LawfulMountable Volumes where
  isMounted := isMounted
  mount_true h := by
    obtain ⟨hok, -⟩ | ⟨-, hfree, volume, hobjects⟩ := mount_cases h
    · cases hok
    · exact ⟨hfree, isMounted_update hobjects⟩
  mount_false h := by
    obtain ⟨-, hobjects⟩ | ⟨hok, -⟩ := mount_cases h
    · intro other
      rw [isMounted, isMounted, hobjects]
    · cases hok
  unmount_true h := by
    obtain ⟨hok, -⟩ | ⟨-, hobjects⟩ := unmount_cases h
    · cases hok
    · exact isMounted_update hobjects
  unmount_false h := by
    obtain ⟨-, hobjects⟩ | ⟨hok, -⟩ := unmount_cases h
    · intro other
      rw [isMounted, isMounted, hobjects]
    · cases hok

end Volumes

namespace Vfs

open Fat32 (slash)
open Transition
open LawfulMountable (isMounted mount_true mount_false unmount_true unmount_false)

/-! ## Lookups that an entry does not serve -/

/-- Taking an entry out of the table keeps the mount of every path that the entry does
not serve. -/
theorem servingMount_remove {before after : List MountPoint} {m : MountPoint}
    (hinv : TableInv (before ++ m :: after)) {path : Str}
    (h : servingMount (before ++ m :: after) path ≠ some m) :
    servingMount (before ++ after) path = servingMount (before ++ m :: after) path := by
  have hsub : (before ++ after).Sublist (before ++ m :: after) :=
    (List.Sublist.refl before).append (List.sublist_cons_self m after)
  cases hserving : servingMount (before ++ m :: after) path with
  | none =>
    rw [servingMount_eq_none] at hserving ⊢
    rintro ⟨m', hmem, hmatch⟩
    exact hserving ⟨m', hsub.subset hmem, hmatch⟩
  | some best =>
    obtain ⟨hmem, hmatch⟩ := servingMount_mem hserving
    have hne : best ≠ m := by
      rintro rfl
      exact h hserving
    have hmem' : best ∈ before ++ after := by
      simp only [List.mem_append, List.mem_cons] at hmem ⊢
      tauto
    cases hserving' : servingMount (before ++ after) path with
    | none => exact absurd ⟨best, hmem', hmatch⟩ (servingMount_eq_none.mp hserving')
    | some best' =>
      obtain ⟨hmem₂, hmatch₂⟩ := servingMount_mem hserving'
      have hlength : best'.path.length = best.path.length :=
        Nat.le_antisymm (servingMount_longest hserving (hsub.subset hmem₂) hmatch₂)
          (servingMount_longest hserving' hmem' hmatch)
      have hpre : best'.path <+: best.path :=
        List.prefix_of_prefix_length_le (prefix_of_match hmatch₂) (prefix_of_match hmatch)
          hlength.le
      exact congrArg some
        (hinv.eq_of_path (hsub.subset hmem₂) hmem (hpre.eq_of_length hlength))

theorem fileSystemForPath_remove {before after : List MountPoint} {m : MountPoint}
    (hinv : TableInv (before ++ m :: after)) {path : Str}
    (h : fileSystemForPath (before ++ m :: after) path ≠ m.fs) :
    fileSystemForPath (before ++ after) path =
      fileSystemForPath (before ++ m :: after) path := by
  have hsub : (before ++ after).Sublist (before ++ m :: after) :=
    (List.Sublist.refl before).append (List.sublist_cons_self m after)
  have hserving : servingMount (before ++ m :: after) path ≠ some m := by
    intro hserving
    rw [fileSystemForPath_eq hinv, hserving] at h
    exact h rfl
  rw [fileSystemForPath_eq hinv, fileSystemForPath_eq (hinv.sublist hsub),
    servingMount_remove hinv hserving]

/-! ## The table and the flags -/

variable {σ : Type} [Mountable σ] [LawfulMountable σ]

/-- The objects in the table are those that are mounted, each once. -/
structure Consistent (v : Vfs σ) : Prop where
  table : TableInv v.mounts
  objects : (v.mounts.map MountPoint.fs).Nodup
  mounted : ∀ fs, isMounted v.world fs = true ↔ ∃ m ∈ v.mounts, m.fs = fs

/-- Nothing is mounted or unmounted from one world to the other. -/
def SameMounted (w w' : σ) : Prop := ∀ fs, isMounted w' fs = isMounted w fs

theorem Consistent.mount {v v' : Vfs σ} {path : Str} {fs device : Nat} {ok : Bool}
    (hv : Consistent v) (h : v.mount path fs device = some (ok, v')) : Consistent v' := by
  obtain ⟨hfs, hvalid, ⟨-, hmounts, hworld⟩ | ⟨-, hmounts, hnew, hworld⟩⟩ := mount_cases h
  · refine ⟨by rw [hmounts]; exact hv.table, by rw [hmounts]; exact hv.objects, fun g => ?_⟩
    rw [hmounts, ← hv.mounted]
    rcases hworld with hworld | hworld
    · rw [hworld]
    · rw [mount_false hworld]
  · obtain ⟨hfree, hflags⟩ := mount_true hworld
    have hfresh : ∀ m ∈ v.mounts, m.fs ≠ fs := by
      rintro m hm rfl
      rw [(hv.mounted m.fs).mpr ⟨m, hm, rfl⟩] at hfree
      cases hfree
    refine ⟨by rw [hmounts]; exact hv.table.append hfs hvalid hnew, ?_, fun g => ?_⟩
    · rw [hmounts, List.map_append, List.nodup_append]
      refine ⟨hv.objects, List.nodup_singleton _, ?_⟩
      intro a ha b hb
      obtain ⟨m, hm, rfl⟩ := List.mem_map.mp ha
      rw [List.mem_singleton.mp hb]
      exact hfresh m hm
    · rw [hflags, hmounts]
      by_cases hg : g = fs
      · simp [hg]
      · simp [hg, hv.mounted, Ne.symm hg]

theorem Consistent.unmount {v v' : Vfs σ} {path : Str} {ok : Bool} (hv : Consistent v)
    (h : v.unmount path = (ok, v')) : Consistent v' := by
  rcases unmount_cases hv.table.fs_ne h with
    ⟨-, hmounts, hworld⟩ | ⟨-, before, m, after, hsplit, -, -, hmounts, hworld⟩
  · refine ⟨by rw [hmounts]; exact hv.table, by rw [hmounts]; exact hv.objects, fun g => ?_⟩
    rw [hmounts, ← hv.mounted]
    rcases hworld with hworld | ⟨m, -, hworld⟩
    · rw [hworld]
    · rw [unmount_false hworld]
  · have hsub : (before ++ after).Sublist v.mounts := by
      rw [hsplit]
      exact (List.Sublist.refl before).append (List.sublist_cons_self m after)
    have hothers : ∀ m' ∈ before ++ after, m'.fs ≠ m.fs := by
      have hnodup := hv.objects
      rw [hsplit, List.map_append, List.map_cons, List.nodup_middle, List.nodup_cons] at hnodup
      intro m' hm' hfs
      refine hnodup.1 ?_
      rw [← hfs, ← List.map_append]
      exact List.mem_map_of_mem hm'
    refine ⟨by rw [hmounts]; exact hv.table.sublist hsub,
      by rw [hmounts]; exact hv.objects.sublist (hsub.map _), fun g => ?_⟩
    rw [unmount_true hworld, hmounts]
    by_cases hg : g = m.fs
    · rw [if_pos hg]
      simp only [Bool.false_eq_true, false_iff, not_exists, not_and]
      intro m' hm' hfs
      exact hothers m' hm' (hfs.trans hg)
    · rw [if_neg hg, hv.mounted, hsplit]
      simp only [List.mem_append, List.mem_cons]
      constructor
      · rintro ⟨m', hm', rfl⟩
        rcases hm' with hm' | rfl | hm'
        · exact ⟨m', .inl hm', rfl⟩
        · exact absurd rfl hg
        · exact ⟨m', .inr hm', rfl⟩
      · rintro ⟨m', hm', rfl⟩
        exact ⟨m', hm'.imp_right .inr, rfl⟩

theorem consistent_init {v : Vfs σ} (hv : ∀ fs, isMounted v.world fs = false) :
    Consistent v.init :=
  ⟨.nil, List.nodup_nil, fun fs => by simp [Vfs.init, hv fs]⟩

theorem consistent_run {v v' : Vfs σ} (hv : ∀ fs, isMounted v.world fs = false)
    {calls : List Call} (hrun : Run (Step SameMounted) v.init calls v') : Consistent v' := by
  refine hrun.invariant (fun w call w' hw hstep => ?_) (consistent_init hv)
  cases hstep with
  | mount h => exact hw.mount h
  | unmount h => exact hw.unmount h
  | other htouch =>
    exact ⟨hw.table, hw.objects, fun fs => (Bool.eq_iff_iff.mp (htouch fs)).trans (hw.mounted fs)⟩

/-- In every run the table and the objects agree, a call that fails leaves the table as
it was, and unmounting takes one entry out and keeps every other lookup. -/
theorem mount_table_consistent {v v' : Vfs Volumes} (hv : ∀ fs, v.world.isMounted fs = false)
    {calls : List Call} (hrun : Run (Step SameMounted) v.init calls v') :
    (v'.mounts.map MountPoint.path).Nodup ∧ (v'.mounts.map MountPoint.fs).Nodup ∧
      (∀ fs, (∃ m ∈ v'.mounts, m.fs = fs) ↔ v'.world.isMounted fs = true) ∧
      (∀ path fs device w, v'.mount path fs device = some (false, w) → w.mounts = v'.mounts) ∧
      (∀ path w, v'.unmount path = (false, w) → w.mounts = v'.mounts) ∧
      ∀ path w, v'.unmount path = (true, w) →
        ∃ before m after, v'.mounts = before ++ m :: after ∧ m.path = path ∧
          w.mounts = before ++ after ∧
          ∀ p, fileSystemForPath v'.mounts p ≠ m.fs →
            fileSystemForPath w.mounts p = fileSystemForPath v'.mounts p := by
  have hconsistent := consistent_run hv hrun
  refine ⟨hconsistent.table.nodup, hconsistent.objects, fun fs => (hconsistent.mounted fs).symm,
    fun path fs device w h => ?_, fun path w h => ?_, fun path w h => ?_⟩
  · obtain ⟨-, -, ⟨-, hmounts, -⟩ | ⟨hok, -⟩⟩ := mount_cases h
    · exact hmounts
    · cases hok
  · obtain ⟨-, hmounts, -⟩ | ⟨hok, -⟩ := unmount_cases hconsistent.table.fs_ne h
    · exact hmounts
    · cases hok
  · obtain ⟨hok, -⟩ | ⟨-, before, m, after, hsplit, hpath, -, hmounts, -⟩ :=
      unmount_cases hconsistent.table.fs_ne h
    · cases hok
    · refine ⟨before, m, after, hsplit, hpath, hmounts, fun p hp => ?_⟩
      rw [hsplit] at hp ⊢
      rw [hmounts]
      exact fileSystemForPath_remove (hsplit ▸ hconsistent.table) hp

/-- Every device is a disk with a FAT32 volume, and no object is mounted. -/
def unmounted : Volumes := ⟨fun _ => Fat32.tinyDisk 2, fun _ => none⟩

theorem mount_succeeds {v : Vfs Volumes} {path : Str} {fs device : Nat} {volume : FAT32FileSystem}
    (hfs : fs ≠ 0) (hdevice : device ≠ 0) (hpath : isValidMountPath path = true)
    (hnew : v.mounts.any (·.path = path) = false) (hfree : v.world.isMounted fs = false)
    (hmount : Fat32.mount (v.world.devices device) = some volume) :
    v.mount path fs device = some (true,
      { mounts := v.mounts ++ [⟨path, fs⟩]
        world :=
          { devices := Function.update v.world.devices device volume.backingDevice
            objects := Function.update v.world.objects fs (some (device, volume)) } }) := by
  have hworld : Mountable.mount v.world fs device = (true,
      { devices := Function.update v.world.devices device volume.backingDevice
        objects := Function.update v.world.objects fs (some (device, volume)) }) := by
    show Volumes.mount v.world fs device = _
    simp [Volumes.mount, hfree, hdevice, hmount]
  simp [Vfs.mount, hfs, hdevice, hpath, hnew, hworld]

/-- `/mnt` -/
def mnt : Str := [slash, 109, 110, 116]

/-- Object 1 is mounted at `/` from device 3. -/
def rootMounted : Vfs Volumes :=
  { mounts := [⟨[slash], 1⟩]
    world :=
      { devices := Function.update unmounted.devices 3 Fat32.tinyVolume.backingDevice
        objects := Function.update unmounted.objects 1 (some (3, Fat32.tinyVolume)) } }

/-- Object 1 is mounted at `/` from device 3, and object 2 at `/mnt` from device 4. -/
theorem mount_table_consistent_root :
    ∃ w w', Vfs.mount ⟨[], unmounted⟩ [slash] 1 3 = some (true, w) ∧
      Vfs.mount w mnt 2 4 = some (true, w') ∧ w'.mounts = [⟨[slash], 1⟩, ⟨mnt, 2⟩] ∧
      (w'.mounts.map MountPoint.path).Nodup ∧ (w'.mounts.map MountPoint.fs).Nodup ∧
      w'.world.isMounted 1 = true ∧ w'.world.isMounted 2 = true := by
  have hroot : Vfs.mount ⟨[], unmounted⟩ [slash] 1 3 = some (true, rootMounted) :=
    mount_succeeds (by decide) (by decide) rfl rfl rfl Fat32.mount_tinyDisk
  have hmnt := mount_succeeds (v := rootMounted) (by decide : 2 ≠ 0) (by decide : 4 ≠ 0)
    (rfl : isValidMountPath mnt = true) rfl rfl Fat32.mount_tinyDisk
  have hall := mount_table_consistent (v := ⟨[], unmounted⟩) (fun _ => rfl)
    (.cons (.mount hroot) (.single (.mount hmnt)))
  exact ⟨_, _, hroot, hmnt, rfl, hall.1, hall.2.1, (hall.2.2.1 1).mp ⟨_, List.mem_cons_self, rfl⟩,
    (hall.2.2.1 2).mp ⟨_, List.mem_cons_of_mem _ List.mem_cons_self, rfl⟩⟩

end Vfs

end Avery
