import Nachos.Foundations.Runs
import Nachos.Filesys.Directory

/-!
# A directory as a finite map

The calls of `Add` and `Remove` on a `Directory`, and the map from names to files that they are meant to
keep. Names are compared on their first `FILE_NAME_MAX_LEN` characters.
-/

namespace Nachos.Filesys

open Foundations Resumption

/-- A call on a `Directory`; `newSector` is an `int`. -/
inductive DirCall where
  | add (name : Name) (newSector : BitVec 32) (isDirectory : Bool)
  | remove (name : Name)

/-- A directory in memory, with the rest of the system. -/
structure DirState where
  dir : Directory
  world : World

/-- The state after a call. -/
def DirState.step (s : DirState) : DirCall → Option DirState
  | .add name newSector isDirectory => do
    let ((_, dir), w) ← (s.dir.add name newSector.toNat isDirectory).run s.world
    return { dir := dir, world := w }
  | .remove name => some { s with dir := s.dir.remove name }

/-- The sector and the flag `isDirectory` of the names. -/
abbrev NameMap := List UInt8 → Option (BitVec 32 × Bool)

/-- The map after a call: `Add` puts in a name that is not there, `Remove` takes one out. -/
def NameMap.call (m : NameMap) : DirCall → NameMap
  | .add name newSector isDirectory =>
    if (m (nameKey name)).isSome then m
    else Function.update m (nameKey name) (some (newSector, isDirectory))
  | .remove name => Function.update m (nameKey name) none

/-- The map after the calls of a list, from the empty one. -/
def NameMap.after (calls : List DirCall) : NameMap := calls.foldl NameMap.call fun _ => none

/-- The directory answers as the map does. -/
structure IsMap (d : Directory) (m : NameMap) : Prop where
  names : ∀ i j, i < d.tableSize → j < d.tableSize → entryInUse d.table i = true →
    entryInUse d.table j = true → nameKey (entryName d.table i) = nameKey (entryName d.table j) → i = j
  add_eq : ∀ name newSector isDirectory (w : World),
    (d.add name newSector isDirectory).Returns w fun r _ => r.1 = (m (nameKey name)).isNone
  find_eq : ∀ name, d.find name = ((m (nameKey name)).map fun v => v.1.toInt).getD (-1)
  findDir_eq : ∀ name, d.findDir name = ((m (nameKey name)).map Prod.snd).getD false

/-- The name of a call. -/
def DirCall.name : DirCall → Name
  | .add name _ _ => name
  | .remove name => name

/-- The entries of other names stay as they are. -/
def KeepsOthers (d : Directory) (call : DirCall) (d' : Directory) : Prop :=
  ∀ i, i < d.tableSize → entryInUse d.table i = true → entryHasName d.table i call.name = false →
    i < d'.tableSize ∧ ∀ k, k < dirEntrySize →
      d'.table[i * dirEntrySize + k]? = d.table[i * dirEntrySize + k]?

/-- If `Add` of a file lets the table grow, the byte of the new memory that becomes `isDirectory` is
zero. -/
def MemoryClear (s : DirState) : DirCall → Prop
  | .add name _ false =>
    s.dir.findIndex name = none → s.dir.freeIndex = none → s.world.heap .slot 0 24 = 0
  | _ => True

end Nachos.Filesys
