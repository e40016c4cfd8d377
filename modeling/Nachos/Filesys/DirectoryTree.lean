import Nachos.Filesys.OpenCounts
import Nachos.Filesys.Proofs.DirectoryProofs

/-!
# The directory tree

What it means that the whole file system is in order: the directories that can be reached from the root
and from the current directory are files of the disk layout, each of their entries stands for a file of
its own, and every object that is open stands for a file of the layout.
-/

namespace Nachos.Filesys

open Foundations

/-! ## Tables -/

/-- The number of entries of a table. -/
def numEntries (t : List UInt8) : Nat := t.length / dirEntrySize

/-- The entry `i` of a table is in use. -/
structure Used (t : List UInt8) (i : Nat) : Prop where
  lt : i < numEntries t
  inUse : entryInUse t i = true

/-- `t'` is the table `t` with an entry `i` for the file at `sector` that was not there. -/
structure AddsEntry (t t' : List UInt8) (i : Nat) (name : Name) (sector : Nat) : Prop where
  free : ¬ Used t i
  used : Used t' i
  hasName : entryHasName t' i name = true
  sector_eq : entrySector t' i = sector
  size_le : numEntries t ≤ numEntries t'
  others : ∀ j, j ≠ i → j < numEntries t' → j < numEntries t ∧ SameEntry t' t j

/-- `t'` is the table `t` with the entry `i` of this name taken out of use. -/
structure RemovesEntry (t t' : List UInt8) (i : Nat) (name : Name) : Prop where
  used : Used t i
  hasName : entryHasName t i name = true
  eq_clearEntry : t' = clearEntry t i

/-- A table in order: it has whole entries, each entry in use is for a file that is neither the free map
nor the root, and the names are distinct and are no absolute paths. -/
structure TableOk (own : Nat → Option Nat) (t : List UInt8) : Prop where
  length_eq : t.length = numEntries t * dirEntrySize
  size_le : numEntries t ≤ numSectors
  entries : ∀ i, Used t i → own (entrySector t i) = some (entrySector t i) ∧ entrySector t i ≠ 0 ∧
    entrySector t i ≠ directorySector
  names : ∀ i j, Used t i → Used t j → nameKey (entryName t i) = nameKey (entryName t j) → i = j
  relative : ∀ i, Used t i → (entryName t i).head? ≠ some slash

/-! ## The tree -/

/-- The directories that can be reached from the sectors `R`. -/
inductive IsDirectory (d : Disk) (R : Nat → Prop) : Nat → Prop where
  | root {s : Nat} (hs : R s) : IsDirectory d R s
  | entry {s : Nat} {c : List Nat} {i : Nat} (hs : IsDirectory d R s) (hc : HeaderChain d s c)
      (hi : Used (content d c) i) (hdir : entryIsDirectory (content d c) i = true) :
      IsDirectory d R (entrySector (content d c) i)

/-- The directory at `s` is a file in order, with a table in order. -/
structure DirectoryOk (d : Disk) (own : Nat → Option Nat) (s : Nat) (c : List Nat) : Prop where
  start_ne : s ≠ 0
  file : FileOk d own s c
  full : Full d c
  table : TableOk own (content d c)

/-- The directories are in order, and no file has two entries. -/
structure Tree (d : Disk) (own : Nat → Option Nat) (R : Nat → Prop) : Prop where
  directory : ∀ s, IsDirectory d R s → ∃ c, DirectoryOk d own s c
  sole : ∀ {s s' : Nat} {c c' : List Nat} {i j : Nat}, IsDirectory d R s → IsDirectory d R s' →
    HeaderChain d s c → HeaderChain d s' c' → Used (content d c) i → Used (content d c') j →
    entrySector (content d c) i = entrySector (content d c') j → s = s' ∧ i = j

/-! ## The file system -/

/-- No thread waits for a message, and the locks to come do not exist yet. -/
structure Tidy (w : World) : Prop where
  idle : ∀ t, w.removeChannel t = []
  fresh : ∀ l, w.nextLock ≤ l → w.locks l = none

/-- The object `f` is open, for a file other than the free map. -/
def ObjectOk (w : World) (own : Nat → Option Nat) (f : FileId) : Prop :=
  ∃ s, (books w).sectors f = some s ∧ s ≠ 0 ∧ own s = some s

/-- The current directory is the one at `s`, with the headers `c`, and its size is known. -/
structure CurrentIs (w : World) (s : Nat) (c : List Nat) : Prop where
  object : (books w).sectors w.directoryFile = some s
  chain : HeaderChain w.disk s c
  size_eq : w.directorySize = numEntries (content w.disk c)

/-- The directories from which the others are reached: the root, the current one and those in `K`. -/
def Roots (w : World) (K : Nat → Prop) (s : Nat) : Prop :=
  s = directorySector ∨ (books w).sectors w.directoryFile = some s ∨ K s

/-- The file system is in order. The objects in use are those of the free map, the current directory and
`objs`, among which are those of the directories in `K`. -/
structure InOrder (w : World) (own : Nat → Option Nat) (m : Bitmap) (K : Nat → Prop)
    (objs : List FileId) : Prop where
  layout : Layout w.disk own
  marked : Marked m own
  mapIs : MapIs w.disk m
  mapFile : MapFileOk w
  mapSector : (books w).sectors w.freeMapFile = some freeMapSector
  tree : Tree w.disk own (Roots w K)
  kept : ∀ s, K s → ∃ f ∈ objs, (books w).sectors f = some s
  exact : (books w).Exact (w.freeMapFile :: w.directoryFile :: objs)
  objects : ∀ f ∈ w.directoryFile :: objs, ObjectOk w own f
  tidy : Tidy w
  current : ∃ s c, CurrentIs w s c

end Nachos.Filesys
