import Avery.Fs.Paths
import Avery.Fs.Volume

/-!
# Directories

The part of `fat32.cpp` that reads and writes directories, and the operations of
the file system on paths.  A directory is a chain of clusters cut into slots of
32 bytes (`DirectoryEntryRaw`):

* the short name at 0, eleven bytes,
* the attributes at 11,
* the high half of the first cluster at 20 and the low half at 26,
* the size at 28.

A slot with the attributes `AttributeLongName` carries thirteen characters of a
long name instead, at 1, 14 and 28.
-/

namespace Avery

inductive VFSError where
  | notFound
  | alreadyExists
  | notDirectory
  | isDirectory
  | invalidPath
  | permissionDenied
  | ioError
deriving DecidableEq

namespace Fat32

open ByteMemory

def attributeVolumeID : UInt8 := 0x08
def attributeDirectory : UInt8 := 0x10
def attributeArchive : UInt8 := 0x20
def attributeLongName : UInt8 := 0x0F
def entryDeleted : UInt8 := 0xE5

/-- `sizeof(DirectoryEntryRaw)`. -/
def entrySize : Nat := 32

/-- `directoryEntryIndex` is the source's `u32` counter of the slots without its wrap. Nothing
reads it. -/
structure DirectoryEntryInfo where
  name : Str
  attributes : UInt8
  firstCluster : Nat
  size : Nat
  parentDirectoryCluster : Nat
  directoryEntryCluster : Nat
  directoryEntryOffset : Nat
  directoryEntryIndex : Nat
deriving DecidableEq

def DirectoryEntryInfo.isDirectory (info : DirectoryEntryInfo) : Bool :=
  info.attributes &&& attributeDirectory ≠ 0

/-! ## Slots -/

/-- The slot of a cluster's data at `offset`. -/
def slotAt (data : Nat → UInt8) (offset : Nat) : Nat → UInt8 := fun i => data (offset + i)

def firstClusterOf (raw : Nat → UInt8) : Nat := readLE raw 20 2 * 2 ^ 16 + readLE raw 26 2

def fileSizeOf (raw : Nat → UInt8) : Nat := readLE raw 28 4

/-- The characters of a long-name slot. -/
def longNamePart (raw : Nat → UInt8) : Str :=
  let chars start count := (List.range count).map fun i => readLE raw (start + 2 * i) 2
  appendLFNChars (appendLFNChars (appendLFNChars [] (chars 1 5)) (chars 14 6)) (chars 28 2)

/-- Store the name of the slot at `offset`. -/
def setName (data : Nat → UInt8) (offset : Nat) (name : Str) : Nat → UInt8 :=
  blit data offset 11 fun i => name.getD i 0

/-- Store the attributes, the first cluster and the size of the slot at `offset`. -/
def setFields (data : Nat → UInt8) (offset : Nat) (attributes : UInt8) (firstCluster size : Nat) :
    Nat → UInt8 :=
  let data := blit data (offset + 11) 1 fun _ => attributes
  let data := writeLE data (offset + 20) 2 (firstCluster / 2 ^ 16)
  let data := writeLE data (offset + 26) 2 firstCluster
  writeLE data (offset + 28) 4 size

/-- A slot that starts out as zeros. -/
def rawEntry (name : Str) (attributes : UInt8) (firstCluster : Nat) : Nat → UInt8 :=
  setFields (setName (fun _ => 0) 0 name) 0 attributes firstCluster 0

def markDeleted (data : Nat → UInt8) (index : Nat) : Nat → UInt8 :=
  blit data (entrySize * index) 1 fun _ => entryDeleted

/-- The loop of `markEntryAndLongNameDeleted`, backwards from `index`. -/
def markLongNameDeleted (data : Nat → UInt8) : Nat → Nat → UInt8
  | 0 => data
  | index + 1 =>
      if data (entrySize * index + 11) ≠ attributeLongName then data
      else markLongNameDeleted (markDeleted data index) index

def markEntryAndLongNameDeleted (data : Nat → UInt8) (entryOffset : Nat) : Nat → UInt8 :=
  let index := entryOffset / entrySize
  markLongNameDeleted (markDeleted data index) index

/-! ## Reading directories -/

/-- What `readDirectory` has gathered so far. `globalIndex` is a `u32` in the source, which wraps
only after 2^32 slots. -/
structure Scan where
  entries : List DirectoryEntryInfo
  lfn : Str
  globalIndex : Nat

/-- One slot that is not the end mark. -/
def Scan.slot (scan : Scan) (raw : Nat → UInt8) (firstCluster currentCluster offset : Nat) : Scan :=
  if raw 0 = entryDeleted then { scan with lfn := [], globalIndex := scan.globalIndex + 1 }
  else if raw 11 = attributeLongName then
    { scan with lfn := cStr (longNamePart raw) ++ scan.lfn, globalIndex := scan.globalIndex + 1 }
  else if raw 11 &&& attributeVolumeID ≠ 0 then
    { scan with lfn := [], globalIndex := scan.globalIndex + 1 }
  else
    let info : DirectoryEntryInfo :=
      { name := if scan.lfn = [] then shortNameToString raw else scan.lfn
        attributes := raw 11
        firstCluster := firstClusterOf raw
        size := fileSizeOf raw
        parentDirectoryCluster := firstCluster
        directoryEntryCluster := currentCluster
        directoryEntryOffset := offset
        directoryEntryIndex := scan.globalIndex }
    { entries := scan.entries ++ [info], lfn := [], globalIndex := scan.globalIndex + 1 }

/-- The slots of one cluster from slot `i` on, `n` of them.  The result says
whether the end mark was met. -/
def scanCluster (data : Nat → UInt8) (firstCluster currentCluster : Nat) :
    Scan → Nat → Nat → Bool × Scan
  | scan, _, 0 => (false, scan)
  | scan, i, n + 1 =>
      let raw := slotAt data (entrySize * i)
      if raw 0 = 0 then (true, scan)
      else
        scanCluster data firstCluster currentCluster
          (scan.slot raw firstCluster currentCluster (entrySize * i)) (i + 1) n

/-- The loop of `readDirectory`. -/
def readDirectoryLoop (firstCluster : Nat) :
    Nat → FAT32FileSystem → Nat → Scan →
      Option (Option (List DirectoryEntryInfo) × FAT32FileSystem)
  | 0, _, _, _ => none
  | fuel + 1, fs, currentCluster, scan =>
      match readCluster fs currentCluster with
      | (none, fs) => some (none, fs)
      | (some clusterData, fs) =>
          match scanCluster clusterData firstCluster currentCluster scan 0
              (clusterSize fs / entrySize) with
          | (true, scan) => some (some scan.entries, fs)
          | (false, scan) =>
              match readFATEntry fs currentCluster with
              | (none, fs) => some (none, fs)
              | (some nextCluster, fs) =>
                  if isEndOfChain nextCluster then some (some scan.entries, fs)
                  else if nextCluster = freeCluster ∨ nextCluster = badCluster then some (none, fs)
                  else readDirectoryLoop firstCluster fuel fs nextCluster scan

def readDirectory (fs : FAT32FileSystem) (fuel firstCluster : Nat) :
    Option (Option (List DirectoryEntryInfo) × FAT32FileSystem) :=
  readDirectoryLoop firstCluster fuel fs firstCluster ⟨[], [], 0⟩

/-- The entry `findEntry` makes up for the root. -/
def rootEntry (rootCluster : Nat) : DirectoryEntryInfo where
  name := [slash]
  attributes := attributeDirectory
  firstCluster := rootCluster
  size := 0
  parentDirectoryCluster := rootCluster
  directoryEntryCluster := 0
  directoryEntryOffset := 0
  directoryEntryIndex := 0

/-- The loop of `findEntry`: look the components up from a directory on. -/
def findEntryLoop (fuel : Nat) :
    FAT32FileSystem → Nat → List Str → Option (Option DirectoryEntryInfo × FAT32FileSystem)
  | fs, _, [] => some (none, fs)
  | fs, currentDirectory, part :: parts => do
      let (entries, fs) ← readDirectory fs fuel currentDirectory
      match entries with
      | none => return (none, fs)
      | some entries =>
          match entries.find? fun candidate => namesEqual candidate.name part with
          | none => return (none, fs)
          | some candidate =>
              if parts = [] then return (some candidate, fs)
              else if !candidate.isDirectory then return (none, fs)
              else findEntryLoop fuel fs candidate.firstCluster parts

variable (fs : FAT32FileSystem) (fuel : Nat)

def findEntry (path : Str) : Option (Option DirectoryEntryInfo × FAT32FileSystem) :=
  if path = [] ∨ path = [slash] then some (some (rootEntry fs.bpb.rootCluster), fs)
  else findEntryLoop fuel fs fs.bpb.rootCluster (splitPath path)

/-! ## Writing directories -/

def writeDirectoryEntry (directoryCluster entryOffset : Nat) (raw : Nat → UInt8) :
    Bool × FAT32FileSystem :=
  match readCluster fs directoryCluster with
  | (none, fs) => (false, fs)
  | (some clusterData, fs) =>
      writeCluster fs directoryCluster (blit clusterData entryOffset entrySize raw)

/-- The size that goes to the disk. -/
def DirectoryEntryInfo.storedSize (info : DirectoryEntryInfo) : Nat :=
  if info.isDirectory then 0 else info.size

def updateDirectoryEntry (entry : DirectoryEntryInfo) : Bool × FAT32FileSystem :=
  if entry.directoryEntryCluster < 2 then (true, fs)
  else
    match readCluster fs entry.directoryEntryCluster with
    | (none, fs) => (false, fs)
    | (some clusterData, fs) =>
        writeCluster fs entry.directoryEntryCluster
          (setFields clusterData entry.directoryEntryOffset entry.attributes entry.firstCluster
            entry.storedSize)

/-- The first free slot of a cluster from slot `i` on, among `n`. -/
def freeSlot (data : Nat → UInt8) : Nat → Nat → Option Nat
  | _, 0 => none
  | i, n + 1 =>
      let first := data (entrySize * i)
      if first = 0 ∨ first = entryDeleted then some i else freeSlot data (i + 1) n

/-- The loop of `findFreeDirectoryEntry`.  The result is the cluster and the
offset of a slot. -/
def findFreeDirectoryEntryLoop (fuelExtend directoryCluster : Nat) :
    Nat → FAT32FileSystem → Nat → Option (Option (Nat × Nat) × FAT32FileSystem)
  | 0, _, _ => none
  | fuel + 1, fs, currentCluster =>
      match readCluster fs currentCluster with
      | (none, fs) => some (none, fs)
      | (some clusterData, fs) =>
          match freeSlot clusterData 0 (clusterSize fs / entrySize) with
          | some i => some (some (currentCluster, entrySize * i), fs)
          | none =>
              match readFATEntry fs currentCluster with
              | (none, fs) => some (none, fs)
              | (some next, fs) =>
                  if isEndOfChain next then do
                    let (newCluster, fs) ← extendClusterChain fs fuelExtend directoryCluster
                    match newCluster with
                    | none => return (none, fs)
                    | some newCluster => return (some (newCluster, 0), fs)
                  else findFreeDirectoryEntryLoop fuelExtend directoryCluster fuel fs next

def findFreeDirectoryEntry (directoryCluster : Nat) :
    Option (Option (Nat × Nat) × FAT32FileSystem) :=
  findFreeDirectoryEntryLoop fuel directoryCluster fuel fs directoryCluster

/-- The first cluster of a new directory: its dot entries, then zeros. -/
def newDirectoryData (firstCluster parentDirectoryCluster : Nat) : Nat → UInt8 :=
  let data := blit (fun _ => 0) 0 entrySize
    (rawEntry (fillDotName false) attributeDirectory firstCluster)
  blit data entrySize entrySize
    (rawEntry (fillDotName true) attributeDirectory parentDirectoryCluster)

/-- A cluster for a new directory. -/
def makeDirectoryCluster (parentDirectoryCluster : Nat) :
    Option (Option Nat × FAT32FileSystem) :=
  match allocateCluster fs with
  | (none, fs) => some (none, fs)
  | (some firstCluster, fs) =>
      match writeCluster fs firstCluster (newDirectoryData firstCluster parentDirectoryCluster) with
      | (true, fs) => some (some firstCluster, fs)
      | (false, fs) => do
          let (_, fs) ← freeClusterChain fs fuel firstCluster
          return (none, fs)

def createDirectoryEntry (parentDirectoryCluster : Nat) (name : Str) (attributes : UInt8) :
    Option (Option DirectoryEntryInfo × FAT32FileSystem) :=
  match makeShortName name with
  | none => some (none, fs)
  | some shortName => do
      let (slot, fs) ← findFreeDirectoryEntry fs fuel parentDirectoryCluster
      match slot with
      | none => return (none, fs)
      | some (entryCluster, entryOffset) =>
          let (firstCluster, fs) ←
            if attributes &&& attributeDirectory ≠ 0 then
              makeDirectoryCluster fs fuel parentDirectoryCluster
            else some (some 0, fs)
          match firstCluster with
          | none => return (none, fs)
          | some firstCluster =>
              match writeDirectoryEntry fs entryCluster entryOffset
                  (rawEntry shortName attributes firstCluster) with
              | (false, fs) =>
                  let (_, fs) ← freeClusterChain fs fuel firstCluster
                  return (none, fs)
              | (true, fs) =>
                  let outEntry : DirectoryEntryInfo :=
                    { name
                      attributes
                      firstCluster
                      size := 0
                      parentDirectoryCluster
                      directoryEntryCluster := entryCluster
                      directoryEntryOffset := entryOffset
                      directoryEntryIndex := entryOffset / entrySize }
                  return (some outEntry, fs)

/-! ## Operations on paths -/

/-- `createFile` and `createDirectory`, which differ in the attributes. -/
def createEntry (path : Str) (attributes : UInt8) :
    Option (Except VFSError Unit × FAT32FileSystem) := do
  let (existing, fs) ← findEntry fs fuel path
  if existing.isSome then return (.error .alreadyExists, fs)
  let (parent, fs) ← findEntry fs fuel (parentOf path)
  match parent with
  | none => return (.error .notDirectory, fs)
  | some parent =>
      if !parent.isDirectory then return (.error .notDirectory, fs)
      let (created, fs) ←
        createDirectoryEntry fs fuel parent.firstCluster (basenameOf path) attributes
      return (if created.isSome then .ok () else .error .ioError, fs)

def createFile (path : Str) : Option (Except VFSError Unit × FAT32FileSystem) :=
  createEntry fs fuel path attributeArchive

def createDirectory (path : Str) : Option (Except VFSError Unit × FAT32FileSystem) :=
  createEntry fs fuel path attributeDirectory

/-- The check of `remove` on a directory, which may hold its dot entries only. -/
def checkEmpty (entry : DirectoryEntryInfo) : Option (Except VFSError Unit × FAT32FileSystem) :=
  if !entry.isDirectory then some (.ok (), fs)
  else do
    let (entries, fs) ← readDirectory fs fuel entry.firstCluster
    match entries with
    | none => return (.error .ioError, fs)
    | some entries =>
        if entries.any fun e => !isDotEntry e.name then return (.error .permissionDenied, fs)
        else return (.ok (), fs)

/-- Mark a slot and the long name before it deleted, and store `edit` of the
cluster. -/
def eraseEntry (entry : DirectoryEntryInfo) (edit : (Nat → UInt8) → Nat → UInt8) :
    Bool × FAT32FileSystem :=
  match readCluster fs entry.directoryEntryCluster with
  | (none, fs) => (false, fs)
  | (some clusterData, fs) =>
      writeCluster fs entry.directoryEntryCluster
        (edit (markEntryAndLongNameDeleted clusterData entry.directoryEntryOffset))

def remove (path : Str) : Option (Except VFSError Unit × FAT32FileSystem) := do
  let (entry, fs) ← findEntry fs fuel path
  match entry with
  | none => return (.error .notFound, fs)
  | some entry =>
      if entry.directoryEntryCluster < 2 ∨ isDotEntry entry.name then
        return (.error .invalidPath, fs)
      let (empty, fs) ← checkEmpty fs fuel entry
      match empty with
      | .error e => return (.error e, fs)
      | .ok () =>
          match eraseEntry fs entry id with
          | (false, fs) => return (.error .ioError, fs)
          | (true, fs) =>
              let (freed, fs) ← freeClusterChain fs fuel entry.firstCluster
              return (if freed then .ok () else .error .ioError, fs)

/-- The rollback of `rename` after the old entry could not be removed. -/
def rollBackRename (newPath : Str) (newEntry : DirectoryEntryInfo) :
    Option (Except VFSError Unit × FAT32FileSystem) := do
  let (_, fs) := updateDirectoryEntry fs { newEntry with firstCluster := 0 }
  let (_, fs) ← remove fs fuel newPath
  return (.error .ioError, fs)

/-- `rename` between two directories. -/
def moveEntry (oldEntry newParent : DirectoryEntryInfo) (newPath : Str) :
    Option (Except VFSError Unit × FAT32FileSystem) := do
  let (newEntry, fs) ←
    createDirectoryEntry fs fuel newParent.firstCluster (basenameOf newPath) oldEntry.attributes
  match newEntry with
  | none => return (.error .ioError, fs)
  | some newEntry =>
      let newEntry := { newEntry with firstCluster := oldEntry.firstCluster, size := oldEntry.size }
      match updateDirectoryEntry fs newEntry with
      | (false, fs) => return (.error .ioError, fs)
      | (true, fs) =>
          match eraseEntry fs oldEntry id with
          | (false, fs) => rollBackRename fs fuel newPath newEntry
          | (true, fs) => return (.ok (), fs)

def rename (oldPath newPath : Str) : Option (Except VFSError Unit × FAT32FileSystem) := do
  let (oldEntry, fs) ← findEntry fs fuel oldPath
  match oldEntry with
  | none => return (.error .notFound, fs)
  | some oldEntry =>
      let (existing, fs) ← findEntry fs fuel newPath
      if existing.isSome then return (.error .alreadyExists, fs)
      match makeShortName (basenameOf newPath) with
      | none => return (.error .invalidPath, fs)
      | some shortName =>
          let (oldParent, fs) ← findEntry fs fuel (parentOf oldPath)
          match oldParent with
          | none => return (.error .notDirectory, fs)
          | some oldParent =>
              let (newParent, fs) ← findEntry fs fuel (parentOf newPath)
              match newParent with
              | none => return (.error .notDirectory, fs)
              | some newParent =>
                  if oldParent.firstCluster = newParent.firstCluster then
                    let offset := oldEntry.directoryEntryOffset
                    let (ok, fs) := eraseEntry fs oldEntry fun data =>
                      setFields (setName data offset shortName) offset oldEntry.attributes
                        oldEntry.firstCluster oldEntry.storedSize
                    return (if ok then .ok () else .error .ioError, fs)
                  else moveEntry fs fuel oldEntry newParent newPath

end Fat32

end Avery
