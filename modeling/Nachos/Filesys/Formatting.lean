import Nachos.Filesys.FileSession

/-!
# A formatted disk

What the constructor `FileSystem(true)` should leave on the disk, whatever the memory of its objects held.
-/

namespace Nachos.Filesys

open Foundations Resumption

/-- The header of a system file of this size. -/
structure SystemFile (h : RawFileHeader) (size : Nat) : Prop where
  numBytes_eq : h.numBytes = size
  numSectors_eq : h.numSectors = divRoundUp size sectorSize
  next_eq : h.nextFileHeader = 0

/-- The disk is formatted: the headers of the free map and of the root directory are right, their sectors are
marked in the free map and no others, and no entry of the root is in use. -/
structure FormattedDisk (d : Disk) : Prop where
  freeMapFile : SystemFile (hdrAt d freeMapSector) freeMapFileSize
  directoryFile : SystemFile (hdrAt d directorySector) directoryFileSize
  marks : ∀ x, x < numSectors →
    ((storedFreeMap d).test x = true ↔ x ∈ sectorsOf d [freeMapSector] ∨ x ∈ sectorsOf d [directorySector])
  size_eq : numEntries (content d [directorySector]) = numDirEntries
  unused : ∀ i, ¬ Used (content d [directorySector]) i

/-- With these memories for the two `FileHeader` objects, the constructor leaves a formatted disk, whatever the disk
and the rest of the memory held. -/
def FormatsWith (mapHeap dirHeap : ByteMemory) : Prop :=
  ∀ disk heap, heap .header 0 = mapHeap → heap .header 1 = dirHeap →
    format.Returns (World.initial disk heap) fun _ w => FormattedDisk w.disk

end Nachos.Filesys
