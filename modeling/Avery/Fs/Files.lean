import Avery.Fs.Directories

/-!
# Open files

`FAT32FileSystem::open` and the methods of `FAT32FileHandle`.  A handle keeps the first
cluster and the size of its file in memory, and `flush` writes them to the slot the file
was found in.

A loop over a buffer takes the number of rounds it may make.
-/

namespace Avery

open ByteMemory Fat32

/-- `VFSOpenMode` is a set of these flags. -/
def modeRead : Nat := 1
def modeWrite : Nat := 2
def modeAppend : Nat := 4
def modeCreate : Nat := 8
def modeTruncate : Nat := 16

def hasMode (mode flag : Nat) : Bool := mode &&& flag ≠ 0

/-- A file in memory.  The entry is absent when `hasEntryInfo` is false. -/
structure FAT32VNode where
  nodeFirstCluster : Nat
  nodeSize : Nat
  entryInfo : Option DirectoryEntryInfo

namespace FAT32VNode

def setFirstCluster (node : FAT32VNode) (firstCluster : Nat) : FAT32VNode :=
  { node with
    nodeFirstCluster := firstCluster
    entryInfo := node.entryInfo.map fun info => { info with firstCluster } }

def setSize (node : FAT32VNode) (size : Nat) : FAT32VNode :=
  { node with
    nodeSize := size
    entryInfo := node.entryInfo.map fun info => { info with size := size % 2 ^ 32 } }

end FAT32VNode

structure FAT32FileHandle where
  fatNode : FAT32VNode
  openMode : Nat
  dirty : Bool
  offset : Nat
  closed : Bool

/-! ## Opening -/

namespace Fat32

variable (fs : FAT32FileSystem) (fuel : Nat)

/-- The entry that `open` works on, which it may have to create. -/
def entryToOpen (path : Str) (mode : Nat) :
    Option (Except VFSError DirectoryEntryInfo × FAT32FileSystem) := do
  let (entry, fs) ← findEntry fs fuel path
  match entry with
  | some entry => return (.ok entry, fs)
  | none =>
      if !hasMode mode modeCreate then return (.error .notFound, fs)
      let (created, fs) ← createFile fs fuel path
      match created with
      | .error e => return (.error e, fs)
      | .ok () =>
          let (entry, fs) ← findEntry fs fuel path
          match entry with
          | some entry => return (.ok entry, fs)
          | none => return (.error .ioError, fs)

/-- What the mode `Truncate` does to the entry. -/
def truncateEntry (entry : DirectoryEntryInfo) :
    Option (Option DirectoryEntryInfo × FAT32FileSystem) := do
  let (freed, fs) ←
    if 2 ≤ entry.firstCluster then freeClusterChain fs fuel entry.firstCluster
    else some (true, fs)
  if !freed then return (none, fs)
  let entry := { entry with firstCluster := 0, size := 0 }
  match updateDirectoryEntry fs entry with
  | (false, fs) => return (none, fs)
  | (true, fs) => return (some entry, fs)

/-- The handle for an entry. -/
def handleFor (entry : DirectoryEntryInfo) (mode : Nat) : FAT32FileHandle where
  fatNode := ⟨entry.firstCluster, entry.size, some entry⟩
  openMode := mode
  dirty := false
  offset := if hasMode mode modeAppend then entry.size else 0
  closed := false

/-- `open` -/
def openFile (path : Str) (mode : Nat) :
    Option (Except VFSError FAT32FileHandle × FAT32FileSystem) := do
  let (entry, fs) ← entryToOpen fs fuel path mode
  match entry with
  | .error e => return (.error e, fs)
  | .ok entry =>
      if entry.isDirectory then return (.error .isDirectory, fs)
      if hasMode mode modeTruncate then
        let (truncated, fs) ← truncateEntry fs fuel entry
        match truncated with
        | none => return (.error .ioError, fs)
        | some entry => return (.ok (handleFor entry mode), fs)
      else return (.ok (handleFor entry mode), fs)

end Fat32

/-! ## The methods of a handle -/

namespace FAT32FileHandle

/-- The loop of `read`.  It returns the number of bytes read and the buffer. -/
def readLoop (fuel : Nat) :
    Nat → FAT32FileSystem → FAT32FileHandle → (Nat → UInt8) → Nat → Nat →
      Option ((Nat × (Nat → UInt8)) × FAT32FileHandle × FAT32FileSystem)
  | 0, _, _, _, _, _ => none
  | rounds + 1, fs, h, out, remaining, totalRead =>
      if remaining = 0 then some ((totalRead, out), h, fs)
      else do
        let (cluster, fs) ←
          getClusterForOffset fs fuel h.fatNode.nodeFirstCluster h.offset false
        match cluster with
        | none => return ((totalRead, out), h, fs)
        | some cluster =>
            match readCluster fs cluster with
            | (none, fs) => return ((totalRead, out), h, fs)
            | (some clusterData, fs) =>
                let clusterOffset := h.offset % clusterSize fs
                let chunk := min (clusterSize fs - clusterOffset) remaining
                readLoop fuel rounds fs { h with offset := add64 h.offset chunk }
                  (blit out totalRead chunk fun i => clusterData (clusterOffset + i))
                  (remaining - chunk) (totalRead + chunk)

/-- `read` into a buffer, which is absent when the pointer is null. -/
def read (h : FAT32FileHandle) (fs : FAT32FileSystem) (fuel : Nat)
    (buffer : Option (Nat → UInt8)) (size : Nat) :
    Option ((Nat × Option (Nat → UInt8)) × FAT32FileHandle × FAT32FileSystem) :=
  match buffer with
  | none => some ((0, none), h, fs)
  | some out =>
      if h.closed ∨ !hasMode h.openMode modeRead ∨ h.offset ≥ h.fatNode.nodeSize then
        some ((0, some out), h, fs)
      else
        let remaining := min size (h.fatNode.nodeSize - h.offset)
        (readLoop fuel (remaining + 1) fs h out remaining 0).map fun ((total, out), h, fs) =>
          ((total, some out), h, fs)

/-- What `write` does before its loop: a file without clusters gets one.  The result is
false when there is none. -/
def ensureFirstCluster (h : FAT32FileHandle) (fs : FAT32FileSystem) :
    Bool × FAT32FileHandle × FAT32FileSystem :=
  if 2 ≤ h.fatNode.nodeFirstCluster then (true, h, fs)
  else
    match allocateCluster fs with
    | (none, fs) => (false, h, fs)
    | (some firstCluster, fs) =>
        (true, { h with fatNode := h.fatNode.setFirstCluster firstCluster }, fs)

/-- The bytes of a cluster before a chunk is copied into it: those on the disk, or zeros
when the chunk covers the cluster. -/
def chunkBase (fs : FAT32FileSystem) (cluster chunk : Nat) :
    Option (Nat → UInt8) × FAT32FileSystem :=
  if chunk ≠ clusterSize fs then readCluster fs cluster else (some fun _ => 0, fs)

/-- The loop of `write`. -/
def writeLoop (fuel : Nat) (input : Nat → UInt8) :
    Nat → FAT32FileSystem → FAT32FileHandle → Nat → Nat →
      Option (Nat × FAT32FileHandle × FAT32FileSystem)
  | 0, _, _, _, _ => none
  | rounds + 1, fs, h, remaining, totalWritten =>
      if remaining = 0 then some (totalWritten, h, fs)
      else do
        let (cluster, fs) ←
          getClusterForOffset fs fuel h.fatNode.nodeFirstCluster h.offset true
        match cluster with
        | none => return (totalWritten, h, fs)
        | some cluster =>
            let clusterOffset := h.offset % clusterSize fs
            let chunk := min (clusterSize fs - clusterOffset) remaining
            match chunkBase fs cluster chunk with
            | (none, fs) => return (totalWritten, h, fs)
            | (some clusterData, fs) =>
                let clusterData :=
                  blit clusterData clusterOffset chunk fun i => input (totalWritten + i)
                match writeCluster fs cluster clusterData with
                | (false, fs) => return (totalWritten, h, fs)
                | (true, fs) =>
                    let offset := add64 h.offset chunk
                    let fatNode :=
                      if offset > h.fatNode.nodeSize then h.fatNode.setSize offset else h.fatNode
                    writeLoop fuel input rounds fs { h with offset, fatNode, dirty := true }
                      (remaining - chunk) (totalWritten + chunk)

/-- `write` from a buffer, which is absent when the pointer is null. -/
def write (h : FAT32FileHandle) (fs : FAT32FileSystem) (fuel : Nat)
    (buffer : Option (Nat → UInt8)) (size : Nat) :
    Option (Nat × FAT32FileHandle × FAT32FileSystem) :=
  match buffer with
  | none => some (0, h, fs)
  | some input =>
      if h.closed ∨ !hasMode h.openMode modeWrite then some (0, h, fs)
      else
        match ensureFirstCluster h fs with
        | (false, h, fs) => some (0, h, fs)
        | (true, h', fs) =>
            let dirty := h.dirty || decide (h.fatNode.nodeFirstCluster < 2)
            writeLoop fuel input (size + 1) fs { h' with dirty } size 0

def seek (h : FAT32FileHandle) (newOffset : Nat) : Bool × FAT32FileHandle :=
  if h.closed then (false, h) else (true, { h with offset := newOffset })

def flush (h : FAT32FileHandle) (fs : FAT32FileSystem) :
    Bool × FAT32FileHandle × FAT32FileSystem :=
  if h.closed then (false, h, fs)
  else if !h.dirty then (true, h, fs)
  else
    match h.fatNode.entryInfo with
    | none => (true, { h with dirty := false }, fs)
    | some info =>
        match updateDirectoryEntry fs info with
        | (true, fs) => (true, { h with dirty := false }, fs)
        | (false, fs) => (false, h, fs)

/-- `truncate` to zero bytes. -/
def truncateToZero (h : FAT32FileHandle) (fs : FAT32FileSystem) (fuel : Nat) :
    Option (Bool × FAT32FileHandle × FAT32FileSystem) := do
  let (freed, fs) ←
    if 2 ≤ h.fatNode.nodeFirstCluster then freeClusterChain fs fuel h.fatNode.nodeFirstCluster
    else some (true, fs)
  if !freed then return (false, h, fs)
  let fatNode := (h.fatNode.setFirstCluster 0).setSize 0
  return flush { h with fatNode, offset := 0, dirty := true } fs

/-- End a chain at a cluster and free what follows. -/
def cutChain (fs : FAT32FileSystem) (fuel lastCluster : Nat) : Option (Bool × FAT32FileSystem) :=
  match readFATEntry fs lastCluster with
  | (none, fs) => some (false, fs)
  | (some next, fs) => do
      let (freed, fs) ←
        if !isEndOfChain next ∧ 2 ≤ next then freeClusterChain fs fuel next else some (true, fs)
      if !freed then return (false, fs)
      return writeFATEntry fs lastCluster 0x0FFFFFFF

def truncate (h : FAT32FileHandle) (fs : FAT32FileSystem) (fuel size : Nat) :
    Option (Bool × FAT32FileHandle × FAT32FileSystem) :=
  if h.closed ∨ !hasMode h.openMode modeWrite then some (false, h, fs)
  else if size = 0 then truncateToZero h fs fuel
  else
    match ensureFirstCluster h fs with
    | (false, h, fs) => some (false, h, fs)
    | (true, h, fs) => do
        let (lastCluster, fs) ←
          getClusterForOffset fs fuel h.fatNode.nodeFirstCluster (size - 1) true
        match lastCluster with
        | none => return (false, h, fs)
        | some lastCluster =>
            let (cut, fs) ← cutChain fs fuel lastCluster
            if !cut then return (false, h, fs)
            return flush
              { h with
                fatNode := h.fatNode.setSize size
                offset := min h.offset size
                dirty := true } fs

def close (h : FAT32FileHandle) (fs : FAT32FileSystem) :
    Bool × FAT32FileHandle × FAT32FileSystem :=
  if h.closed then (true, h, fs)
  else
    let (ok, h, fs) := flush h fs
    (ok, { h with closed := true }, fs)

end FAT32FileHandle

end Avery
