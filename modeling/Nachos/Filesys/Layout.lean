import Nachos.Filesys.Proofs.FileHeaderProofs
import Nachos.Filesys.World

/-!
# The layout of the disk

What the sectors of the disk mean. A file is a chain of headers, each with its data sectors; its
content is the concatenation of what the headers cover. The ownership map `own` assigns a sector to
the file (named by its first header sector) that it belongs to: as a function it gives a sector to at
most one file.
-/

namespace Nachos.Filesys

open Foundations

/-- The content of each sector. -/
abbrev Disk := Nat → Sector

/-- The header at a sector. -/
def hdrAt (d : Disk) (s : Nat) : RawFileHeader := RawFileHeader.ofSector (d s)

/-- Following `nextFileHeader` from `s` on lists the sectors `l` and ends at 0. -/
def Follows (d : Disk) : Nat → List Nat → Prop
  | s, [] => s = 0
  | s, x :: l => s ≠ 0 ∧ x = s ∧ Follows d (hdrAt d s).nextFileHeader l

/-- The header chain that starts at sector `s`. -/
def HeaderChain (d : Disk) (s : Nat) (c : List Nat) : Prop :=
  ∃ l, c = s :: l ∧ Follows d (hdrAt d s).nextFileHeader l

/-- The sectors of a chain: its headers, each with its data sectors. -/
def sectorsOf (d : Disk) (c : List Nat) : List Nat := c.flatMap fun x => x :: (hdrAt d x).dataOf

/-- The bytes that a header covers. -/
def dataBytes (d : Disk) (h : RawFileHeader) : List UInt8 :=
  (h.dataOf.flatMap fun s => (d s).bytes).take h.numBytes

/-- The content of the file with the headers `c`. -/
def content (d : Disk) (c : List Nat) : List UInt8 := c.flatMap fun x => dataBytes d (hdrAt d x)

/-- Every header but the last one is full. -/
def Full (d : Disk) (c : List Nat) : Prop :=
  ∀ pre x post, c = pre ++ x :: post → post ≠ [] → (hdrAt d x).numBytes = maxHeaderBytes

/-- The data sector of the free-map file. -/
def freeMapDataSector : Nat := 2

/-- The file that starts at sector `s` has the headers `c`, in order, and owns exactly the sectors of
its chain. -/
structure FileOk (d : Disk) (own : Nat → Option Nat) (s : Nat) (c : List Nat) : Prop where
  chain : HeaderChain d s c
  ok : ∀ x ∈ c, (hdrAt d x).Ok
  nodup : (sectorsOf d c).Nodup
  own_iff : ∀ x, own x = some s ↔ x ∈ sectorsOf d c

/-- The header of the free-map file. -/
structure MapHeader (h : RawFileHeader) : Prop where
  numBytes_eq : h.numBytes = sectorSize
  numSectors_eq : h.numSectors = 1
  dataOf_eq : h.dataOf = [freeMapDataSector]
  next_eq : h.nextFileHeader = 0

/-- The layout of the disk: every owned sector belongs to a file in order. -/
structure Layout (d : Disk) (own : Nat → Option Nat) : Prop where
  files : ∀ x s, own x = some s → ∃ c, FileOk d own s c
  lt : ∀ x s, own x = some s → x < numSectors
  own_zero : own 0 = some 0
  mapHeader : MapHeader (hdrAt d 0)

/-- The owned sectors are marked in the free map `m`. -/
def Marked (m : Bitmap) (own : Nat → Option Nat) : Prop := ∀ x s, own x = some s → m.test x = true

end Nachos.Filesys
