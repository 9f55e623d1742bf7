import Avery.Fs.PathFrames
import Avery.Library.FileStore

/-!
# A volume with many open files

A mounted volume and the handles that are open on it (`Volume`) stand for a store of files
(`SoundBut`): the place of a visible file is the one of its slot, and its bytes are those that its
handle knows, or those that its slot and its clusters say when it has none.  A change that leaves
all files but one alone leaves them in the store (`SoundBut.framed`), and what is left to
show is the one (`SoundBut.shutAt`, `SoundBut.openedAt` and `SoundBut.goneAt`).
-/

namespace Avery.Fat32

open ByteMemory FAT32FileHandle

/-! ## Calls -/

/-- A mounted volume with the handles that are open on it. -/
structure Volume where
  fs : FAT32FileSystem
  handles : Nat → Option FAT32FileHandle

/-- A call of `createFile`, `createDirectory`, `remove` or `open`, or of a method of a handle. -/
inductive VolumeCall where
  | createFile (path : Str)
  | createDirectory (path : Str)
  | remove (path : Str)
  | openFile (id : Nat) (path : Str) (mode : Nat)
  | close (id : Nat)
  | onFile (id : Nat) (call : HandleCall)

/-- The place of the slot of an entry. -/
def DirectoryEntryInfo.place (e : DirectoryEntryInfo) : Nat × Nat :=
  (e.directoryEntryCluster, e.directoryEntryOffset)

def modeFlags (mode : Nat) : FileStore.Mode where
  readable := hasMode mode modeRead
  writable := hasMode mode modeWrite
  append := hasMode mode modeAppend
  create := hasMode mode modeCreate
  truncate := hasMode mode modeTruncate

namespace Disk

/-- What a path leads to. -/
def leadsTo (d : Disk) (path : Str) : FileStore.Target (Nat × Nat) :=
  match d.resolve path with
  | none => .nothing
  | some e => if e.isDirectory then .directory else .file e.place

variable {d : Disk} {path : Str} {e : DirectoryEntryInfo}

theorem leadsTo_nothing (h : d.resolve path = none) : d.leadsTo path = .nothing := by
  unfold leadsTo
  rw [h]

theorem leadsTo_directory (h : d.resolve path = some e) (hdir : e.isDirectory = true) :
    d.leadsTo path = .directory := by
  unfold leadsTo
  rw [h]
  exact if_pos hdir

theorem leadsTo_file (h : d.resolve path = some e) (hfile : e.isDirectory = false) :
    d.leadsTo path = .file e.place := by
  unfold leadsTo
  rw [h]
  exact if_neg (by rw [hfile]; exact Bool.false_ne_true)

end Disk

namespace VolumeCall

/-- The call as one on a store of files. -/
def onStore (d : Disk) : VolumeCall → FileStore.Call (Nat × Nat) Nat UInt8
  | .createFile path => .create (d.leadsTo path)
  | .createDirectory path => .create (d.leadsTo path)
  | .remove path => .remove (d.leadsTo path)
  | .openFile id path mode => .openFile id (d.leadsTo path) (modeFlags mode)
  | .close id => .close id
  | .onFile id call => .onFile id call.onBytes

/-- The call, with what the caller gets from it. -/
def run (fuel : Nat) (v : Volume) : VolumeCall → Option (FileStore.Answer UInt8 × Volume)
  | .createFile path =>
      (Fat32.createFile v.fs fuel path).map fun (result, fs) => (.done result.isOk, { v with fs })
  | .createDirectory path =>
      (Fat32.createDirectory v.fs fuel path).map fun (result, fs) =>
        (.done result.isOk, { v with fs })
  | .remove path =>
      (Fat32.remove v.fs fuel path).map fun (result, fs) => (.done result.isOk, { v with fs })
  | .openFile id path mode =>
      (Fat32.openFile v.fs fuel path mode).map fun
        | (.ok h, fs) => (.done true, ⟨fs, Function.update v.handles id (some h)⟩)
        | (.error _, fs) => (.done false, { v with fs })
  | .close id =>
      (v.handles id).map fun h =>
        (.done (h.close v.fs).1, ⟨(h.close v.fs).2.2, Function.update v.handles id none⟩)
  | .onFile id call => do
      let h ← v.handles id
      let (answer, h, fs) ← call.run fuel h v.fs
      return (.file answer, ⟨fs, Function.update v.handles id (some h)⟩)

end VolumeCall

/-! ## Volumes as stores -/

/-- The bytes of a file without a handle. -/
def storedBytes (d : Disk) (p : Listed) : List UInt8 :=
  ByteFile.firsts (d.content (d.chain p.firstCluster)) p.slot.fileSize

/-- The clusters of a file hold as many bytes as its slot says. -/
def Disk.Holds (d : Disk) (p : Listed) : Prop :=
  p.slot.fileSize ≤ (d.chain p.firstCluster).length * d.size

/-- What a store knows of a handle. -/
def handleAt (h : FAT32FileHandle) (q : Nat × Nat) : FileStore.Handle (Nat × Nat) :=
  ⟨q, h.offset, hasMode h.openMode modeRead, hasMode h.openMode modeWrite⟩

/-- A volume of files. -/
abbrev Files := FileStore.Store (Nat × Nat) Nat UInt8

/-- The volume holds the files of the store, except for the one at a place. -/
structure SoundBut (place : Option (Nat × Nat)) (v : Volume) (held : Nat × Nat → Option Nat)
    (s : Files) : Prop where
  mounted : Mounted v.fs
  reliable : v.fs.Reliable
  wellFormed : (view v.fs).WellFormed held
  ids : ∀ id, (v.handles id).isSome = (s.handles id).isSome
  opened : ∀ {id a}, s.handles id = some a → some a.place ≠ place → ∃ h x p, v.handles id = some h ∧
    Attached v.fs held h x p ∧ a = handleAt h p.place ∧
    s.files p.place = some (Attached.bytes v.fs h)
  shut : ∀ {x p}, (view v.fs).Visible x p → some p.place ≠ place → s.Shut p.place →
    held p.place = none ∧ (view v.fs).Holds p ∧ s.files p.place = some (storedBytes (view v.fs) p)
  absent : ∀ {q}, some q ≠ place → (∀ x p, (view v.fs).Visible x p → p.place ≠ q) →
    s.files q = none ∧ held q = none

/-- The volume holds the files of the store. -/
abbrev Sound := SoundBut none

namespace SoundBut

variable {place : Option (Nat × Nat)} {v : Volume} {held held' : Nat × Nat → Option Nat} {s : Files}
  {fs' : FAT32FileSystem} {h : FAT32FileHandle} {x id : Nat} {p : Listed} {q : Nat × Nat}

theorem opened_at (hs : Sound v held s) {a : FileStore.Handle (Nat × Nat)}
    (ha : s.handles id = some a) : ∃ h x p, v.handles id = some h ∧ Attached v.fs held h x p ∧
      a = handleAt h p.place ∧ s.files p.place = some (Attached.bytes v.fs h) :=
  hs.opened ha (Option.some_ne_none _)

/-- What is at the other places stays in the store. -/
theorem framed (hs : Sound v held s) (hf : Disk.Frame place held (view v.fs) held' (view fs'))
    (hwf : (view fs').WellFormed held') (hsame : SameVolume v.fs fs') :
    SoundBut place { v with fs := fs' } held' s where
  mounted := hsame.mounted hs.mounted
  reliable := hsame.reliable hs.reliable
  wellFormed := hwf
  ids := hs.ids
  opened ha hne := by
    obtain ⟨h, x, p, hh, hatt, rfl, hbytes⟩ := hs.opened_at ha
    obtain ⟨hatt', himage⟩ := hatt.framed hf hwf hsame hne
    refine ⟨h, x, p, hh, hatt', rfl, ?_⟩
    rw [hbytes, Attached.bytes, Attached.bytes, himage]
  shut {x p} hp hne hshut := by
    have hp₀ := (hf.visible hne).mp hp
    obtain ⟨hheld, hholds, hbytes⟩ := hs.shut hp₀ (Option.some_ne_none _) hshut
    have hhead : Disk.head held p = p.firstCluster := by
      rw [Disk.head, hheld, Option.getD_none]
    have hchain := hf.chain_eq hs.wellFormed hp₀ hne
    have hcontent := hf.content_eq hp₀ hne
    rw [hhead] at hchain hcontent
    refine ⟨(hf.heads hne).trans hheld, ?_, ?_⟩
    · unfold Disk.Holds at hholds ⊢
      rw [hchain, hf.shape.size]
      exact hholds
    · rw [hbytes, storedBytes, storedBytes, hchain, hcontent]
  absent {q} hne hno := by
    obtain ⟨hfile, hheld⟩ := hs.absent (Option.some_ne_none q) fun x p hp heq =>
      hno x p ((hf.visible (heq ▸ hne)).mpr hp) heq
    exact ⟨hfile, (hf.heads hne).trans hheld⟩

/-- The handles are on other files. -/
theorem opened_setFile (hs : SoundBut (some q) v held s) (hshut : s.Shut q)
    (contents : Option (List UInt8)) {a : FileStore.Handle (Nat × Nat)}
    (ha : s.handles id = some a) : ∃ h x p, v.handles id = some h ∧ Attached v.fs held h x p ∧
      a = handleAt h p.place ∧
      (s.setFile q contents).files p.place = some (Attached.bytes v.fs h) := by
  have hne : a.place ≠ q := hshut id a ha
  obtain ⟨h, x, p, hh, hatt, rfl, hbytes⟩ := hs.opened ha fun heq => hne (Option.some.inj heq)
  exact ⟨h, x, p, hh, hatt, rfl, (FileStore.Store.files_setFile_of_ne hne).trans hbytes⟩

/-- The volume and the store have the same handles after an update. -/
theorem ids_update (hs : SoundBut place v held s) {g : Option FAT32FileHandle}
    {a : Option (FileStore.Handle (Nat × Nat))} (hsome : g.isSome = a.isSome) (i : Nat) :
    (Function.update v.handles id g i).isSome = ((s.setHandle id a).handles i).isSome := by
  by_cases hi : i = id
  · subst hi
    rw [FileStore.Store.handles_setHandle_self, Function.update_self, hsome]
  · rw [FileStore.Store.handles_setHandle_of_ne hi, Function.update_of_ne hi, hs.ids i]

theorem handle_none (hs : SoundBut place v held s) (hid : v.handles id = none) :
    s.handles id = none := by
  have hsome := hs.ids id
  rw [hid] at hsome
  exact Option.isNone_iff_eq_none.mp (Option.isSome_eq_false_iff.mp hsome.symm)

/-- The file at the place has no handle. -/
theorem shutAt (hs : SoundBut (some p.place) v held s) (hp : (view v.fs).Visible x p)
    (hheld : held p.place = none) (hholds : (view v.fs).Holds p) (hshut : s.Shut p.place) :
    Sound v held (s.setFile p.place (some (storedBytes (view v.fs) p))) where
  mounted := hs.mounted
  reliable := hs.reliable
  wellFormed := hs.wellFormed
  ids := hs.ids
  opened ha _ := hs.opened_setFile hshut _ ha
  shut {y r} hr _ hrshut := by
    by_cases heq : r.place = p.place
    · obtain ⟨-, rfl⟩ := hs.wellFormed.visible_unique hr hp heq
      exact ⟨hheld, hholds, FileStore.Store.files_setFile_self⟩
    · obtain ⟨h₁, h₂, h₃⟩ := hs.shut hr (fun h => heq (Option.some.inj h)) hrshut
      exact ⟨h₁, h₂, (FileStore.Store.files_setFile_of_ne heq).trans h₃⟩
  absent {r} _ hno := by
    have hne : r ≠ p.place := fun heq => hno x p hp heq.symm
    obtain ⟨h₁, h₂⟩ := hs.absent (fun h => hne (Option.some.inj h)) hno
    exact ⟨(FileStore.Store.files_setFile_of_ne hne).trans h₁, h₂⟩

/-- There is no file at the place. -/
theorem goneAt (hs : SoundBut (some q) v held s)
    (hno : ∀ x p, (view v.fs).Visible x p → p.place ≠ q) (hheld : held q = none)
    (hshut : s.Shut q) : Sound v held (s.setFile q none) where
  mounted := hs.mounted
  reliable := hs.reliable
  wellFormed := hs.wellFormed
  ids := hs.ids
  opened ha _ := hs.opened_setFile hshut _ ha
  shut {y r} hr _ hrshut := by
    have hne : r.place ≠ q := hno y r hr
    obtain ⟨h₁, h₂, h₃⟩ := hs.shut hr (fun h => hne (Option.some.inj h)) hrshut
    exact ⟨h₁, h₂, (FileStore.Store.files_setFile_of_ne hne).trans h₃⟩
  absent {r} _ hnone := by
    by_cases heq : r = q
    · subst heq
      exact ⟨FileStore.Store.files_setFile_self, hheld⟩
    · obtain ⟨h₁, h₂⟩ := hs.absent (fun h => heq (Option.some.inj h)) hnone
      exact ⟨(FileStore.Store.files_setFile_of_ne heq).trans h₁, h₂⟩

/-- The file at the place has the handle `id`, and only this. -/
theorem openedAt (hs : SoundBut (some p.place) v held s) (ha : Attached v.fs held h x p)
    (hat : ∀ {i a}, s.handles i = some a → (a.place = p.place ↔ i = id)) :
    Sound { v with handles := Function.update v.handles id (some h) } held
      ((s.setFile p.place (some (Attached.bytes v.fs h))).setHandle id
        (some (handleAt h p.place))) where
  mounted := hs.mounted
  reliable := hs.reliable
  wellFormed := hs.wellFormed
  ids := hs.ids_update rfl
  opened {i a} hi _ := by
    by_cases heq : i = id
    · subst heq
      rw [FileStore.Store.handles_setHandle_self, Option.some.injEq] at hi
      exact ⟨h, x, p, Function.update_self .., ha, hi.symm, FileStore.Store.files_setFile_self⟩
    · rw [FileStore.Store.handles_setHandle_of_ne heq] at hi
      have hne : a.place ≠ p.place := fun h => heq ((hat hi).mp h)
      obtain ⟨g, y, r, hg, hatt, rfl, hbytes⟩ := hs.opened hi fun h => hne (Option.some.inj h)
      exact ⟨g, y, r, (Function.update_of_ne heq ..).trans hg, hatt, rfl,
        (FileStore.Store.files_setFile_of_ne hne).trans hbytes⟩
  shut {y r} hr _ hrshut := by
    have hne : r.place ≠ p.place :=
      (hrshut id (handleAt h p.place) FileStore.Store.handles_setHandle_self).symm
    have hold : s.Shut r.place := by
      intro i a hi heq
      by_cases hii : i = id
      · exact hne (heq.symm.trans ((hat hi).mpr hii))
      · exact hrshut i a ((FileStore.Store.handles_setHandle_of_ne hii).trans hi) heq
    obtain ⟨h₁, h₂, h₃⟩ := hs.shut hr (fun h => hne (Option.some.inj h)) hold
    exact ⟨h₁, h₂, (FileStore.Store.files_setFile_of_ne hne).trans h₃⟩
  absent {r} _ hno := by
    have hne : r ≠ p.place := fun heq => hno x p ha.visible heq.symm
    obtain ⟨h₁, h₂⟩ := hs.absent (fun h => hne (Option.some.inj h)) hno
    exact ⟨(FileStore.Store.files_setFile_of_ne hne).trans h₁, h₂⟩

/-- The handle on the file at the place goes. -/
theorem close (hs : SoundBut (some q) v held s) {a : FileStore.Handle (Nat × Nat)}
    (ha : s.handles id = some a) (hplace : a.place = q) :
    SoundBut (some q) { v with handles := Function.update v.handles id none } held
      (s.setHandle id none) where
  mounted := hs.mounted
  reliable := hs.reliable
  wellFormed := hs.wellFormed
  ids := hs.ids_update rfl
  opened {i b} hi hne := by
    by_cases heq : i = id
    · subst heq
      rw [FileStore.Store.handles_setHandle_self] at hi
      cases hi
    · rw [FileStore.Store.handles_setHandle_of_ne heq] at hi
      obtain ⟨g, y, r, hg, hrest⟩ := hs.opened hi hne
      exact ⟨g, y, r, (Function.update_of_ne heq ..).trans hg, hrest⟩
  shut {y r} hr hne hrshut := by
    refine hs.shut hr hne fun i b hi heq => ?_
    by_cases hii : i = id
    · subst hii
      rw [ha, Option.some.injEq] at hi
      exact hne (congrArg some (heq.symm.trans (hi ▸ hplace)))
    · exact hrshut i b ((FileStore.Store.handles_setHandle_of_ne hii).trans hi) heq
  absent := hs.absent

end SoundBut

end Avery.Fat32
