import Avery.Fs.Directories

/-!
# What requests to the device return

A request that only reads leaves the volume as it was, except that the device has
answered once more (`FAT32FileSystem.served`).  What it returns is a function of
the bytes on the disk: a table entry (`fatValue`) or the data of a cluster
(`clusterData`).
-/

namespace Avery

namespace FAT32FileSystem

/-- Whether request `k` from now fails. -/
def fault (fs : FAT32FileSystem) (k : Nat) : Bool := fs.backingDevice.faults k

/-- After `n` more requests that left the disk as it was. -/
def served (fs : FAT32FileSystem) (n : Nat) : FAT32FileSystem :=
  { fs with
    backingDevice :=
      { fs.backingDevice with faults := fun k => fs.backingDevice.faults (k + n) } }

/-- After `n` requests, with these bytes on the disk. -/
def stored (fs : FAT32FileSystem) (n : Nat) (bytes : Nat → UInt8) : FAT32FileSystem :=
  { fs with backingDevice := ⟨bytes, fun k => fs.backingDevice.faults (k + n)⟩ }

/-- The device never fails. -/
def Reliable (fs : FAT32FileSystem) : Prop := ∀ k, fs.fault k = false

open ByteMemory Fat32

/-- What `readFATEntry` reads. -/
def fatValue (fs : FAT32FileSystem) (cluster : Nat) : Nat :=
  let fatOffset := mul32 cluster 4
  let fatSector := add32 fs.fatFirstSector (fatOffset / fs.bpb.bytesPerSector)
  readLE (window fs.backingDevice.bytes (fatSector * 512) 512)
    (fatOffset % fs.bpb.bytesPerSector) 4 &&& 0x0FFFFFFF

/-- What `readCluster` reads. -/
def clusterData (fs : FAT32FileSystem) (cluster : Nat) : Nat → UInt8 :=
  window fs.backingDevice.bytes (clusterToSector fs cluster * 512)
    (fs.bpb.sectorsPerCluster * 512)

variable (fs : FAT32FileSystem)

@[simp] theorem served_zero : fs.served 0 = fs := rfl

@[simp] theorem served_served (m n : Nat) : (fs.served m).served n = fs.served (m + n) := by
  simp only [served, Nat.add_assoc, Nat.add_comm m n]

@[simp] theorem fault_served (n k : Nat) : (fs.served n).fault k = fs.fault (k + n) := rfl
@[simp] theorem bpb_served (n : Nat) : (fs.served n).bpb = fs.bpb := rfl
@[simp] theorem totalClusters_served (n : Nat) :
    (fs.served n).totalClusters = fs.totalClusters := rfl
@[simp] theorem fatValue_served (n c : Nat) : (fs.served n).fatValue c = fs.fatValue c := rfl
@[simp] theorem clusterData_served (n c : Nat) :
    (fs.served n).clusterData c = fs.clusterData c := rfl
@[simp] theorem clusterSize_served (n : Nat) : clusterSize (fs.served n) = clusterSize fs := rfl

theorem Reliable.served_eq {fs : FAT32FileSystem} (h : fs.Reliable) (n : Nat) :
    fs.served n = fs := by
  have hfaults : (fun k => fs.backingDevice.faults (k + n)) = fs.backingDevice.faults :=
    funext fun k => (h (k + n)).trans (h k).symm
  unfold served
  rw [hfaults]

/-- On such a device the number of requests does not matter. -/
theorem Reliable.stored_eq {fs : FAT32FileSystem} (h : fs.Reliable) (n : Nat)
    (bytes : Nat → UInt8) : fs.stored n bytes = fs.stored 0 bytes := by
  have hfaults : (fun k => fs.backingDevice.faults (k + n)) =
      fun k => fs.backingDevice.faults (k + 0) :=
    funext fun k => (h (k + n)).trans (h (k + 0)).symm
  unfold stored
  rw [hfaults]

theorem fatValue_lt (cluster : Nat) : fs.fatValue cluster < 2 ^ 28 :=
  Nat.lt_of_le_of_lt Nat.and_le_right (by decide)

end FAT32FileSystem

namespace Fat32

open ByteMemory

variable (fs : FAT32FileSystem)

theorem readSectors_eq (sector count : Nat) :
    readSectors fs sector count =
      (if fs.fault 0 then none
        else some (window fs.backingDevice.bytes (sector * 512) (count * 512)), fs.served 1) := by
  unfold readSectors BlockDevice.readBlocks FAT32FileSystem.fault
  cases fs.backingDevice.faults 0 <;> rfl

theorem readFATEntry_eq (cluster : Nat) :
    readFATEntry fs cluster =
      (if fs.fault 0 then none else some (fs.fatValue cluster), fs.served 1) := by
  simp only [readFATEntry, readSectors_eq]
  cases fs.fault 0 <;> rfl

theorem readCluster_eq {cluster : Nat} (hcluster : 2 ≤ cluster) :
    readCluster fs cluster =
      (if fs.fault 0 then none else some (fs.clusterData cluster), fs.served 1) := by
  unfold readCluster
  rw [if_neg (Nat.not_lt.mpr hcluster), readSectors_eq]
  rfl

theorem readCluster_of_lt {cluster : Nat} (hcluster : cluster < 2) :
    readCluster fs cluster = (none, fs) :=
  if_pos hcluster

end Fat32

end Avery
