import Nachos.Foundations.ByteList
import Nachos.Foundations.ByteMemory
import Nachos.Lib.Bitmap

/-!
# File headers

The on-disk file header of `filesys/raw_file_header.hh` and the operations of `filesys/file_header.cc`
that do not touch the disk. A header fills one sector: the length of its part of the file, the number
of data sectors, the table of data sectors and the sector of the next header of the file, which is 0
in the last one.
-/

namespace Nachos

open Foundations

/-- `SECTOR_SIZE`. -/
def sectorSize : Nat := 128

/-- `NUM_SECTORS`. -/
def numSectors : Nat := 1024

/-- `NUM_DIRECT`: the data sectors of one header. -/
def numDirect : Nat := 29

/-- The most bytes that one header can hold. -/
def maxHeaderBytes : Nat := numDirect * sectorSize

/-- The value of an `unsigned` expression. -/
def u32 (n : Nat) : Nat := n % 2 ^ 32

/-- The content of a disk sector. -/
structure Sector where
  bytes : List UInt8
  /-- A sector has `SECTOR_SIZE` bytes. -/
  length_bytes : bytes.length = sectorSize
deriving DecidableEq

/-- The sector with the bytes of a buffer. -/
def Sector.ofBytes (bs : List UInt8) : Sector where
  bytes := (bs ++ List.replicate sectorSize 0).take sectorSize
  length_bytes := by simp

/-- `RawFileHeader`: a file header as it stands on disk. -/
structure RawFileHeader where
  /-- Number of bytes in this header's part of the file. -/
  numBytes : Nat
  /-- Number of data sectors of this header. -/
  numSectors : Nat
  /-- Disk sector numbers for each data block. -/
  dataSectors : List Nat
  /-- The sector of the next header, 0 in the last one. -/
  nextFileHeader : Nat
  length_dataSectors : dataSectors.length = numDirect
deriving DecidableEq

namespace RawFileHeader

/-- The words of the header in the order in which the struct lays them out. -/
def words (h : RawFileHeader) : List Nat :=
  h.numBytes :: h.numSectors :: (h.dataSectors ++ [h.nextFileHeader])

/-- The sector that holds a header. -/
def toSector (h : RawFileHeader) : Sector where
  bytes := packWords h.words
  length_bytes := by simp [words, h.length_dataSectors, numDirect, sectorSize]

/-- The header that a sector holds. -/
def ofSector (s : Sector) : RawFileHeader where
  numBytes := (unpackWords s.bytes).getD 0 0
  numSectors := (unpackWords s.bytes).getD 1 0
  dataSectors := ((unpackWords s.bytes).drop 2).take numDirect
  nextFileHeader := (unpackWords s.bytes).getD 31 0
  length_dataSectors := by
    simp [length_unpackWords, s.length_bytes, sectorSize, numDirect]

/-- `new FileHeader`: the header has no constructor and holds what the memory held. -/
def ofMemory (heap : ByteMemory) : RawFileHeader :=
  ofSector { bytes := slice heap 0 sectorSize, length_bytes := length_slice heap 0 sectorSize }

/-- A new header with no data: the three fields that the source sets after `new FileHeader`. -/
def empty (heap : ByteMemory) : RawFileHeader :=
  { ofMemory heap with numBytes := 0, numSectors := 0, nextFileHeader := 0 }

/-- Store a data sector at index `i` of the table. -/
def setDataSector (h : RawFileHeader) (i s : Nat) : RawFileHeader where
  numBytes := h.numBytes
  numSectors := h.numSectors
  dataSectors := h.dataSectors.set i s
  nextFileHeader := h.nextFileHeader
  length_dataSectors := by rw [List.length_set]; exact h.length_dataSectors

/-- The loop of `Allocate`: `count` sectors are found for the table from index `i` on. An index past
the table is undefined behaviour. -/
def findSectors : Nat → Nat → RawFileHeader → Bitmap → Option (RawFileHeader × Bitmap)
  | 0, _, h, freeMap => some (h, freeMap)
  | count + 1, i, h, freeMap =>
    if i < numDirect then
      -- a `Find` without a clear bit returns -1
      let r := freeMap.find
      findSectors count (i + 1) (h.setDataSector i (r.1.getD (2 ^ 32 - 1))) r.2
    else
      none

/-- `Allocate`: extend the header by `fileSize` bytes out of the free map. The answer says whether
there were enough free sectors; if not, only the counters of the header have changed. -/
def allocate (h : RawFileHeader) (freeMap : Bitmap) (fileSize : Nat) :
    Option (Bool × RawFileHeader × Bitmap) :=
  let numBytes := u32 (h.numBytes + fileSize)
  let newNumSectors := divRoundUp numBytes sectorSize
  let newSectors := u32 (newNumSectors + 2 ^ 32 - h.numSectors)
  let h' := { h with numBytes := numBytes, numSectors := newNumSectors }
  if newSectors ≠ 0 ∧ freeMap.countClear < newSectors then
    some (false, h', freeMap)
  else
    (findSectors (newNumSectors - h.numSectors) h.numSectors h' freeMap).map fun r =>
      (true, r.1, r.2)

/-- Clear the bit of one data sector, which ought to be marked. -/
def deallocateSector (freeMap : Bitmap) (s : Nat) : Option Bitmap :=
  if s < freeMap.numBits ∧ freeMap.test s = true then some (freeMap.clear s) else none

/-- `Deallocate`: free the data sectors. -/
def deallocate (h : RawFileHeader) (freeMap : Bitmap) : Option Bitmap :=
  if h.numSectors ≤ numDirect then
    (h.dataSectors.take h.numSectors).foldlM deallocateSector freeMap
  else
    none

/-- `ByteToSector`: the sector that stores the byte at an offset of this header's part. -/
def byteToSector (h : RawFileHeader) (offset : Nat) : Option Nat :=
  h.dataSectors[offset / sectorSize]?

end RawFileHeader

end Nachos
