import Avery.Kernel.Types
import Avery.Library.ByteMemory

/-!
# FAT32 volumes

The part of `fat32.cpp` below directories: the boot sector, the FSInfo sector,
clusters, the file allocation tables, and chains of clusters.

A buffer is a function from positions to bytes.  A result that the source
returns through a reference next to a `bool` is an `Option` here, and the object
the method is called on is passed along.

Loops over chains have no bound in the source.  They take `fuel`, the number of
iterations they may make, and a function that can run out of it returns `none`
then.
-/

namespace Avery

/-! ## The device -/

/-- A disk of 512-byte blocks, together with how it answers the requests to come:
request `k` from now fails when `faults k` is true.  A request that fails leaves
the disk as it was. -/
structure BlockDevice where
  bytes : Nat → UInt8
  faults : Nat → Bool

namespace BlockDevice

/-- After one more request. -/
def served (d : BlockDevice) : BlockDevice := { d with faults := fun k => d.faults (k + 1) }

def readBlocks (d : BlockDevice) (lba count : Nat) : Option (Nat → UInt8) × BlockDevice :=
  if d.faults 0 then (none, d.served)
  else (some (ByteMemory.window d.bytes (lba * 512) (count * 512)), d.served)

def writeBlocks (d : BlockDevice) (lba count : Nat) (buffer : Nat → UInt8) : Bool × BlockDevice :=
  if d.faults 0 then (false, d.served)
  else
    (true,
      { d.served with bytes := ByteMemory.blit d.bytes (lba * 512) (count * 512) buffer })

end BlockDevice

namespace Fat32

open ByteMemory

def endOfChain : Nat := 0x0FFFFFF8
def badCluster : Nat := 0x0FFFFFF7
def freeCluster : Nat := 0

def isEndOfChain (cluster : Nat) : Bool := endOfChain ≤ cluster

/-- The fields of the boot sector that are read. -/
structure BIOSParameterBlock where
  bytesPerSector : Nat
  sectorsPerCluster : Nat
  reservedSectorCount : Nat
  tableCount : Nat
  totalSectors16 : Nat
  totalSectors32 : Nat
  tableSize32 : Nat
  rootCluster : Nat
  fsInfoSector : Nat

structure FSInfo where
  leadSignature : Nat
  reserved0 : Nat → UInt8
  structureSignature : Nat
  freeClusterCount : Nat
  nextFreeCluster : Nat
  reserved1 : Nat → UInt8
  trailSignature : Nat

end Fat32

/-- A mounted FAT32 file system. -/
structure FAT32FileSystem where
  backingDevice : BlockDevice
  bpb : Fat32.BIOSParameterBlock
  fsInfo : Fat32.FSInfo
  fatFirstSector : Nat
  fatFirstDataSector : Nat
  totalSectors : Nat
  totalClusters : Nat

namespace Fat32

open ByteMemory

/-! ## Mounting -/

def BIOSParameterBlock.ofSector (sector : Nat → UInt8) : BIOSParameterBlock where
  bytesPerSector := readLE sector 11 2
  sectorsPerCluster := readLE sector 13 1
  reservedSectorCount := readLE sector 14 2
  tableCount := readLE sector 16 1
  totalSectors16 := readLE sector 19 2
  totalSectors32 := readLE sector 32 4
  tableSize32 := readLE sector 36 4
  rootCluster := readLE sector 44 4
  fsInfoSector := readLE sector 48 2

def validateBootSector (bpb : BIOSParameterBlock) (signature : Nat) : Bool :=
  bpb.bytesPerSector = 512 ∧
  ¬ (bpb.sectorsPerCluster = 0 ∨ bpb.sectorsPerCluster &&& (bpb.sectorsPerCluster - 1) ≠ 0) ∧
  ¬ (bpb.reservedSectorCount = 0 ∨ bpb.tableCount = 0 ∨ bpb.tableSize32 = 0) ∧
  ¬ bpb.rootCluster < 2 ∧
  signature = 0xAA55

def FSInfo.ofSector (sector : Nat → UInt8) : FSInfo where
  leadSignature := readLE sector 0 4
  reserved0 := fun i => sector (4 + i)
  structureSignature := readLE sector 484 4
  freeClusterCount := readLE sector 488 4
  nextFreeCluster := readLE sector 492 4
  reserved1 := fun i => sector (496 + i)
  trailSignature := readLE sector 508 4

def FSInfo.toSector (info : FSInfo) : Nat → UInt8 :=
  let sector := writeLE (fun _ => 0) 0 4 info.leadSignature
  let sector := blit sector 4 480 info.reserved0
  let sector := writeLE sector 484 4 info.structureSignature
  let sector := writeLE sector 488 4 info.freeClusterCount
  let sector := writeLE sector 492 4 info.nextFreeCluster
  let sector := blit sector 496 12 info.reserved1
  writeLE sector 508 4 info.trailSignature

/-- The count and the hint when there is no usable FSInfo sector. -/
def FSInfo.unknown (info : FSInfo) : FSInfo :=
  { info with freeClusterCount := 0xFFFFFFFF, nextFreeCluster := 2 }

def FSInfo.zero : FSInfo := ⟨0, fun _ => 0, 0, 0, 0, fun _ => 0, 0⟩

/-- The FSInfo of a volume, and the device after the request. -/
def readFSInfo (device : BlockDevice) (fsInfoSector : Nat) : FSInfo × BlockDevice :=
  if fsInfoSector = 0 then (FSInfo.zero.unknown, device)
  else
    match device.readBlocks fsInfoSector 1 with
    | (none, device) => (FSInfo.zero.unknown, device)
    | (some sector, device) =>
        let info := FSInfo.ofSector sector
        if info.leadSignature ≠ 0x41615252 ∨ info.structureSignature ≠ 0x61417272 ∨
            info.trailSignature ≠ 0xAA550000 then (info.unknown, device)
        else (info, device)

/-- `mount` on an object that is not mounted. -/
def mount (device : BlockDevice) : Option FAT32FileSystem :=
  match device.readBlocks 0 1 with
  | (none, _) => none
  | (some sector, device) =>
      let bpb := BIOSParameterBlock.ofSector sector
      let signature := readLE sector 510 2
      if !validateBootSector bpb signature then none
      else
        let totalSectors := if bpb.totalSectors16 ≠ 0 then bpb.totalSectors16 else bpb.totalSectors32
        let fatFirstDataSector :=
          add32 bpb.reservedSectorCount (mul32 bpb.tableCount bpb.tableSize32)
        if totalSectors ≤ fatFirstDataSector then none
        else
          let totalClusters := (totalSectors - fatFirstDataSector) / bpb.sectorsPerCluster
          if totalClusters = 0 then none
          else
            let (fsInfo, device) := readFSInfo device bpb.fsInfoSector
            some
              { backingDevice := device
                bpb
                fsInfo
                fatFirstSector := bpb.reservedSectorCount
                fatFirstDataSector
                totalSectors
                totalClusters }

/-! ## Sectors and clusters -/

variable (fs : FAT32FileSystem)

def readSectors (sector count : Nat) : Option (Nat → UInt8) × FAT32FileSystem :=
  let (buffer, backingDevice) := fs.backingDevice.readBlocks sector count
  (buffer, { fs with backingDevice })

def writeSectors (sector count : Nat) (buffer : Nat → UInt8) : Bool × FAT32FileSystem :=
  let (ok, backingDevice) := fs.backingDevice.writeBlocks sector count buffer
  (ok, { fs with backingDevice })

def clusterSize : Nat := fs.bpb.bytesPerSector * fs.bpb.sectorsPerCluster

def clusterToSector (cluster : Nat) : Nat :=
  add32 fs.fatFirstDataSector (mul32 (sub32 cluster 2) fs.bpb.sectorsPerCluster)

def readCluster (cluster : Nat) : Option (Nat → UInt8) × FAT32FileSystem :=
  if cluster < 2 then (none, fs)
  else readSectors fs (clusterToSector fs cluster) fs.bpb.sectorsPerCluster

def writeCluster (cluster : Nat) (buffer : Nat → UInt8) : Bool × FAT32FileSystem :=
  if cluster < 2 then (false, fs)
  else writeSectors fs (clusterToSector fs cluster) fs.bpb.sectorsPerCluster buffer

def zeroCluster (cluster : Nat) : Bool × FAT32FileSystem := writeCluster fs cluster fun _ => 0

/-! ## The file allocation tables -/

def readFATEntry (cluster : Nat) : Option Nat × FAT32FileSystem :=
  let fatOffset := mul32 cluster 4
  let fatSector := add32 fs.fatFirstSector (fatOffset / fs.bpb.bytesPerSector)
  let entryOffset := fatOffset % fs.bpb.bytesPerSector
  match readSectors fs fatSector 1 with
  | (none, fs) => (none, fs)
  | (some sector, fs) => (some (readLE sector entryOffset 4 &&& 0x0FFFFFFF), fs)

/-- The loop of `writeFATEntry` over the tables from `table` on, `n` of them. -/
def writeFATEntryLoop (cluster value : Nat) :
    FAT32FileSystem → Nat → Nat → Bool × FAT32FileSystem
  | fs, _, 0 => (true, fs)
  | fs, table, n + 1 =>
      let fatOffset := mul32 cluster 4
      let entryOffset := fatOffset % fs.bpb.bytesPerSector
      let fatSector := add32 (add32 fs.fatFirstSector (mul32 table fs.bpb.tableSize32))
        (fatOffset / fs.bpb.bytesPerSector)
      match readSectors fs fatSector 1 with
      | (none, fs) => (false, fs)
      | (some sector, fs) =>
          let oldValue := readLE sector entryOffset 4
          let rawValue := (oldValue &&& 0xF0000000) ||| (value &&& 0x0FFFFFFF)
          match writeSectors fs fatSector 1 (writeLE sector entryOffset 4 rawValue) with
          | (false, fs) => (false, fs)
          | (true, fs) => writeFATEntryLoop cluster value fs (table + 1) n

def writeFATEntry (cluster value : Nat) : Bool × FAT32FileSystem :=
  writeFATEntryLoop cluster value fs 0 fs.bpb.tableCount

def syncFSInfo : Bool × FAT32FileSystem :=
  if fs.bpb.fsInfoSector = 0 then (true, fs)
  else
    let fsInfo :=
      { fs.fsInfo with
        leadSignature := 0x41615252
        structureSignature := 0x61417272
        trailSignature := 0xAA550000 }
    writeSectors { fs with fsInfo } fs.bpb.fsInfoSector 1 fsInfo.toSector

/-! ## Allocating clusters -/

/-- What `allocateCluster` does with the free cluster it has found. -/
def takeCluster (cluster : Nat) : Option Nat × FAT32FileSystem :=
  match writeFATEntry fs cluster 0x0FFFFFFF with
  | (false, fs) => (none, fs)
  | (true, fs) =>
      match zeroCluster fs cluster with
      | (false, fs) => (none, (writeFATEntry fs cluster freeCluster).2)
      | (true, fs) =>
          let next := if cluster + 1 ≥ add32 fs.totalClusters 2 then 2 else cluster + 1
          let count := fs.fsInfo.freeClusterCount
          let count := if count ≠ 0xFFFFFFFF ∧ count > 0 then count - 1 else count
          let fsInfo := { fs.fsInfo with nextFreeCluster := next, freeClusterCount := count }
          (some cluster, (syncFSInfo { fs with fsInfo }).2)

/-- The loop of `allocateCluster` from `i` on, `n` rounds. -/
def allocateClusterLoop (start : Nat) :
    FAT32FileSystem → Nat → Nat → Option Nat × FAT32FileSystem
  | fs, _, 0 => (none, fs)
  | fs, i, n + 1 =>
      let cluster := 2 + add32 (start - 2) i % fs.totalClusters
      match readFATEntry fs cluster with
      | (none, fs) => (none, fs)
      | (some value, fs) =>
          if value ≠ freeCluster then allocateClusterLoop start fs (i + 1) n
          else takeCluster fs cluster

def allocateCluster : Option Nat × FAT32FileSystem :=
  let hint := fs.fsInfo.nextFreeCluster
  let start := if 2 ≤ hint ∧ hint < add32 fs.totalClusters 2 then hint else 2
  allocateClusterLoop start fs 0 fs.totalClusters

/-! ## Chains -/

/-- The loop of `freeClusterChain`. -/
def freeClusterChainLoop : Nat → FAT32FileSystem → Nat → Option (Bool × FAT32FileSystem)
  | 0, _, _ => none
  | fuel + 1, fs, current =>
      if ¬ (2 ≤ current ∧ !isEndOfChain current) then some (true, (syncFSInfo fs).2)
      else
        match readFATEntry fs current with
        | (none, fs) => some (false, fs)
        | (some next, fs) =>
            match writeFATEntry fs current freeCluster with
            | (false, fs) => some (false, fs)
            | (true, fs) =>
                let count := fs.fsInfo.freeClusterCount
                let count := if count ≠ 0xFFFFFFFF then count + 1 else count
                let fs := { fs with fsInfo := { fs.fsInfo with freeClusterCount := count } }
                if next = badCluster ∨ next = freeCluster then some (true, (syncFSInfo fs).2)
                else freeClusterChainLoop fuel fs next

def freeClusterChain (fuel firstCluster : Nat) : Option (Bool × FAT32FileSystem) :=
  if firstCluster < 2 then some (true, fs) else freeClusterChainLoop fuel fs firstCluster

/-- The loop of `extendClusterChain`: the last cluster of the chain. -/
def lastClusterLoop : Nat → FAT32FileSystem → Nat → Option (Option Nat × FAT32FileSystem)
  | 0, _, _ => none
  | fuel + 1, fs, current =>
      match readFATEntry fs current with
      | (none, fs) => some (none, fs)
      | (some next, fs) =>
          if isEndOfChain next then some (some current, fs)
          else if next = freeCluster ∨ next = badCluster then some (none, fs)
          else lastClusterLoop fuel fs next

def extendClusterChain (fuel startCluster : Nat) : Option (Option Nat × FAT32FileSystem) :=
  if startCluster < 2 then some (allocateCluster fs)
  else do
    let (last, fs) ← lastClusterLoop fuel fs startCluster
    match last with
    | none => return (none, fs)
    | some current =>
        match allocateCluster fs with
        | (none, fs) => return (none, fs)
        | (some newCluster, fs) =>
            match writeFATEntry fs current newCluster with
            | (false, fs) => return (none, fs)
            | (true, fs) => return (some newCluster, fs)

/-- The loop of `getClusterForOffset`, `index` steps from `cluster`. -/
def getClusterLoop (fuel firstCluster : Nat) (allocateIfMissing : Bool) :
    FAT32FileSystem → Nat → Nat → Option (Option Nat × FAT32FileSystem)
  | fs, 0, cluster => some (some cluster, fs)
  | fs, index + 1, cluster =>
      match readFATEntry fs cluster with
      | (none, fs) => some (none, fs)
      | (some next, fs) =>
          if isEndOfChain next then
            if !allocateIfMissing then some (none, fs)
            else do
              let (next, fs) ← extendClusterChain fs fuel firstCluster
              match next with
              | none => return (none, fs)
              | some next =>
                  if next = freeCluster ∨ next = badCluster then return (none, fs)
                  else getClusterLoop fuel firstCluster allocateIfMissing fs index next
          else if next = freeCluster ∨ next = badCluster then some (none, fs)
          else getClusterLoop fuel firstCluster allocateIfMissing fs index next

def getClusterForOffset (fuel firstCluster offset : Nat) (allocateIfMissing : Bool) :
    Option (Option Nat × FAT32FileSystem) :=
  if firstCluster < 2 then some (none, fs)
  else getClusterLoop fuel firstCluster allocateIfMissing fs (offset / clusterSize fs) firstCluster

end Fat32

end Avery
