import Mathlib.Data.List.MinMax
import Avery.Fs.Paths
import Avery.Library.Transition

/-!
# The virtual file system

`vfs.cpp`: the mount table, the choice of the file system that serves a path, and
the operations on paths.

A `FileSystem*` and a `BlockDevice*` are addresses, and `0` is the null pointer.
What the file systems are is left open: `FileSystem` gives the virtual methods of
the objects at the addresses of a world `σ`.  A loop over the table is a fold.

A failed assertion stops the kernel, so a function that asserts returns an
`Option`, and `none` is the panic.
-/

namespace Avery

/-- `enum class VFSNodeType`. -/
inductive VFSNodeType where
  | unknown
  | file
  | directory
  | device
  | symlink
deriving DecidableEq

structure VFSStat where
  name : Str := []
  type : VFSNodeType := .unknown
  size : Nat := 0
  blockSize : Nat := 512
  createdTime : Nat := 0
  modifiedTime : Nat := 0
  accessedTime : Nat := 0

structure MountPoint where
  path : Str
  fs : Nat
deriving DecidableEq

namespace Vfs

open Fat32 (slash)

/-- `VFSError::Code`. -/
inductive Code where
  | none
  | notFound
  | alreadyExists
  | notDirectory
  | isDirectory
  | invalidPath
  | permissionDenied
  | readOnly
  | ioError
  | unsupported
  | noSpace
deriving DecidableEq

def Code.ok (code : Code) : Bool := code = .none

/-! ## Matching a path with a mount path -/

def isValidMountPath (path : Str) : Bool := path ≠ [] ∧ path[0]? = some slash

/-- `string::startsWith`. -/
def startsWith (s other : Str) : Bool := other.isPrefixOf s

def pathStartsWithMount (path mountPath : Str) : Bool :=
  if mountPath = [slash] then startsWith path [slash]
  else if !startsWith path mountPath then false
  else if path.length = mountPath.length then true
  else path[mountPath.length]? = some slash

def mountMatchLength (path mountPath : Str) : Nat :=
  if !pathStartsWithMount path mountPath then 0 else mountPath.length

def relativePathForMount (path mountPath : Str) : Str :=
  if mountPath = [slash] then path
  else if !pathStartsWithMount path mountPath then path
  else if path.length = mountPath.length then [slash]
  else
    let relative := path.drop mountPath.length
    if relative.length = 0 then [slash] else relative

/-! ## Choosing a mount -/

/-- The loop over the table that keeps what `get` finds at the longest match so far.
It starts from `default`. -/
def longestMatch {α : Type} (get : MountPoint → α) (default : α) (path : Str)
    (mounts : List MountPoint) : α × Nat :=
  mounts.foldl
    (fun best mountPoint =>
      let length := mountMatchLength path mountPoint.path
      if length > best.2 then (get mountPoint, length) else best)
    (default, 0)

def fileSystemForPath (mounts : List MountPoint) (path : Str) : Nat :=
  (longestMatch MountPoint.fs 0 path mounts).1

/-- The loop that the operations repeat for the mount path. -/
def mountPathForPath (mounts : List MountPoint) (path : Str) : Str :=
  (longestMatch MountPoint.path [slash] path mounts).1

/-- The loop of `rename`, which follows two paths at once. -/
def mountPathsForRename (mounts : List MountPoint) (oldPath newPath : Str) :
    (Str × Nat) × (Str × Nat) :=
  mounts.foldl
    (fun best mountPoint =>
      let oldLength := mountMatchLength oldPath mountPoint.path
      let old := if oldLength > best.1.2 then (mountPoint.path, oldLength) else best.1
      let newLength := mountMatchLength newPath mountPoint.path
      let new := if newLength > best.2.2 then (mountPoint.path, newLength) else best.2
      (old, new))
    (([slash], 0), ([slash], 0))

end Vfs

/-! ## File systems -/

/-- What mounting uses of the objects in a world: whether the call succeeded, and the
world after it. -/
class Mountable (σ : Type) where
  mount : σ → Nat → Nat → Bool × σ
  unmount : σ → Nat → Bool × σ

/-- The methods of `FileSystem` that take a path.  A handle is an address. -/
class FileSystem (σ : Type) extends Mountable σ where
  openFile : σ → Nat → Str → Nat → (Nat × Vfs.Code) × σ
  openDirectory : σ → Nat → Str → (Nat × Vfs.Code) × σ
  stat : σ → Nat → Str → VFSStat → (Bool × VFSStat × Vfs.Code) × σ
  createFile : σ → Nat → Str → (Bool × Vfs.Code) × σ
  createDirectory : σ → Nat → Str → (Bool × Vfs.Code) × σ
  remove : σ → Nat → Str → (Bool × Vfs.Code) × σ
  rename : σ → Nat → Str → Str → (Bool × Vfs.Code) × σ

/-- The mount table, and everything else. -/
structure Vfs (σ : Type) where
  mounts : List MountPoint
  world : σ

namespace Vfs

open Fat32 (slash)

variable {σ : Type}

/-! ## The mount table -/

def init (v : Vfs σ) : Vfs σ := { v with mounts := [] }

def mount [Mountable σ] (v : Vfs σ) (path : Str) (fs device : Nat) : Option (Bool × Vfs σ) :=
  if fs = 0 ∨ device = 0 ∨ !isValidMountPath path then none
  else if v.mounts.any (·.path = path) then some (false, v)
  else
    match Mountable.mount v.world fs device with
    | (false, world) => some (false, { v with world })
    | (true, world) => some (true, { mounts := v.mounts ++ [⟨path, fs⟩], world })

def unmount [Mountable σ] (v : Vfs σ) (path : Str) : Bool × Vfs σ :=
  match v.mounts.find? (·.path = path) with
  | none => (false, v)
  | some mountPoint =>
      let mounts := v.mounts.eraseP (·.path = path)
      if mountPoint.fs = 0 then (true, { v with mounts })
      else
        match Mountable.unmount v.world mountPoint.fs with
        | (false, world) => (false, { v with world })
        | (true, world) => (true, { mounts, world })

/-! ## Operations on paths -/

def relativePath (v : Vfs σ) (path : Str) : Str :=
  relativePathForMount path (mountPathForPath v.mounts path)

/-- An operation that asserts that a file system serves the path. -/
def asserted {α : Type} (v : Vfs σ) (path : Str) (call : σ → Nat → Str → α × σ) :
    Option (α × Vfs σ) :=
  let fs := fileSystemForPath v.mounts path
  if fs = 0 then none
  else
    let (result, world) := call v.world fs (v.relativePath path)
    some (result, { v with world })

/-- An operation that returns false when no file system serves the path. -/
def guarded (v : Vfs σ) (path : Str) (call : σ → Nat → Str → (Bool × Code) × σ) :
    Bool × Vfs σ :=
  let fs := fileSystemForPath v.mounts path
  if fs = 0 then (false, v)
  else
    let ((ok, error), world) := call v.world fs (v.relativePath path)
    (ok && error.ok, { v with world })

variable [FileSystem σ]

/-- The handle, unless there was an error. -/
def handleOf (result : Nat × Code) : Nat := if !result.2.ok then 0 else result.1

/-- `vfs::open`. -/
def openFile (v : Vfs σ) (path : Str) (mode : Nat) : Option (Nat × Vfs σ) :=
  (asserted v path fun world fs relativePath =>
    FileSystem.openFile world fs relativePath mode).map (Prod.map handleOf id)

def openDirectory (v : Vfs σ) (path : Str) : Option (Nat × Vfs σ) :=
  (asserted v path FileSystem.openDirectory).map (Prod.map handleOf id)

/-- The result, and what is in `outStat`. -/
def stat (v : Vfs σ) (path : Str) (outStat : VFSStat) : Option ((Bool × VFSStat) × Vfs σ) :=
  (asserted v path fun world fs relativePath =>
    FileSystem.stat world fs relativePath outStat).map
      (Prod.map (fun r => (r.1 && r.2.2.ok, r.2.1)) id)

/-- `vfs::exists`. -/
def pathExists (v : Vfs σ) (path : Str) : Option (Bool × Vfs σ) :=
  (v.stat path {}).map (Prod.map (·.1) id)

/-- `isFile` and `isDirectory`. -/
def hasType (v : Vfs σ) (path : Str) (type : VFSNodeType) : Option (Bool × Vfs σ) :=
  (v.stat path {}).map (Prod.map (fun r => if !r.1 then false else r.2.type = type) id)

def isFile (v : Vfs σ) (path : Str) : Option (Bool × Vfs σ) := v.hasType path .file

def isDirectory (v : Vfs σ) (path : Str) : Option (Bool × Vfs σ) := v.hasType path .directory

def createFile (v : Vfs σ) (path : Str) : Bool × Vfs σ := v.guarded path FileSystem.createFile

def createDirectory (v : Vfs σ) (path : Str) : Bool × Vfs σ :=
  v.guarded path FileSystem.createDirectory

def remove (v : Vfs σ) (path : Str) : Bool × Vfs σ := v.guarded path FileSystem.remove

def rename (v : Vfs σ) (oldPath newPath : Str) : Bool × Vfs σ :=
  let oldFs := fileSystemForPath v.mounts oldPath
  let newFs := fileSystemForPath v.mounts newPath
  if oldFs = 0 ∨ newFs = 0 then (false, v)
  else if oldFs ≠ newFs then (false, v)
  else
    let mountPaths := mountPathsForRename v.mounts oldPath newPath
    let relativeOldPath := relativePathForMount oldPath mountPaths.1.1
    let relativeNewPath := relativePathForMount newPath mountPaths.2.1
    let ((ok, error), world) := FileSystem.rename v.world oldFs relativeOldPath relativeNewPath
    (ok && error.ok, { v with world })

end Vfs

end Avery
