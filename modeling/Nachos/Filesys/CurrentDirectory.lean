import Nachos.Filesys.FileSystem
import Nachos.Filesys.Proofs.WriteStepProofs

/-!
# The current directory in order

When the file system is in order, as far as the calls on names in the current directory see it: the disk
has a layout, the directory is a file of it, and each entry in use stands for another file.
-/

namespace Nachos.Filesys

open Foundations

/-- The current directory is the file that starts at sector `s` and has the headers `c`, and its object
is open. -/
structure DirHandle (w : World) (own : Nat → Option Nat) (m : Bitmap) (s : Nat) (c : List Nat) :
    Prop where
  inv : WriteInv w own m w.directoryFile s c
  full : Full w.disk c
  handle : ∃ file, w.files w.directoryFile = some file ∧ file.sector = s

/-- The table of the current directory lies on the disk. -/
structure DirFile (w : World) (own : Nat → Option Nat) (m : Bitmap) (s : Nat) (c : List Nat) : Prop
    extends DirHandle w own m s c where
  size_pos : 0 < w.directorySize
  size_le : w.directorySize * dirEntrySize ≤ (content w.disk c).length

/-- The table of the current directory. -/
def dirTable (w : World) (c : List Nat) : List UInt8 :=
  (content w.disk c).take (w.directorySize * dirEntrySize)

/-- Every entry in use stands for a file that is neither the directory `s` nor the free map. -/
def EntriesOk (own : Nat → Option Nat) (s : Nat) (t : List UInt8) (size : Nat) : Prop :=
  ∀ i, i < size → entryInUse t i = true →
    own (entrySector t i) = some (entrySector t i) ∧ entrySector t i ≠ s ∧ entrySector t i ≠ 0

/-- The file system is in order, and three sectors are free: `Create` takes one for the header of the
new file, and up to two by which the directory grows. -/
def FsReady (w : World) : Prop :=
  ∃ own m s c, DirFile w own m s c ∧ EntriesOk own s (dirTable w c) w.directorySize ∧
    3 ≤ m.countClear ∧ w.directoryFile < w.nextFile

end Nachos.Filesys
