import Nachos.Filesys.Proofs.CreateProofs

/-!
# Writing a new file and reading it

A file that has just been created is written through one `OpenFile` and read through another one, in pieces of
any sizes.
-/

namespace Nachos.Filesys

open Foundations

/-- The file `name` of the current directory is new: the file system is in order, and the entry of this name
is for a file that has no data and is not open. -/
def NewlyCreated (w : World) (name : Name) : Prop :=
  (∃ own m s c t, Created w own m s c name t) ∧ w.freeMapFile < w.nextFile ∧ w.directoryFile < w.nextFile

/-- `Write` the chunks through the object `f`, and return how many bytes of each were written. -/
def writeAll (me : Tid) (f : FileId) : List (List UInt8) → Fs (List Nat)
  | [] => return []
  | chunk :: chunks => do
    let n ← write me f chunk false
    let counts ← writeAll me f chunks
    return n :: counts

/-- `Read` pieces of these sizes through the object `f`. -/
def readAll (f : FileId) : List Nat → Fs (List (List UInt8))
  | [] => return []
  | n :: sizes => do
    let bytes ← read f n false
    let pieces ← readAll f sizes
    return bytes :: pieces

/-- `Open` the file and `Read` pieces of these sizes; nothing if there is no such file. -/
def openAndRead (name : Name) (sizes : List Nat) : Fs (Option (List (List UInt8))) := do
  let opened ← openFile name
  match opened with
  | none => return none
  | some f => do
    let pieces ← readAll f sizes
    return some pieces

/-- The beginnings of the chunks that were written, one behind the other. -/
def written : List (List UInt8) → List Nat → List UInt8
  | chunk :: chunks, n :: counts => chunk.take n ++ written chunks counts
  | _, _ => []

/-- Consecutive pieces of these sizes, as long as there are bytes. -/
def piecesOf : List Nat → List UInt8 → List (List UInt8)
  | [], _ => []
  | n :: sizes, bytes => bytes.take n :: piecesOf sizes (bytes.drop n)

end Nachos.Filesys
