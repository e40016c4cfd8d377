import Nachos.Filesys.OpenFile

/-!
# Directories

`Directory` of `filesys/directory.cc`. The table of a directory is kept as the bytes that stand in
memory and in the directory file: one `DirectoryEntry` of 28 bytes after the other, of which byte 0 is
`inUse`, bytes 4 to 7 are `sector`, bytes 8 to 23 are `name` and byte 24 is `isDirectory`.
-/

namespace Nachos.Filesys

open Foundations Resumption

/-- The bytes of a C string before its terminator. -/
abbrev Name := List UInt8

/-- `sizeof (DirectoryEntry)`. -/
def dirEntrySize : Nat := 28

/-- `FILE_NAME_MAX_LEN`. -/
def fileNameMaxLen : Nat := 15

/-- `NUM_DIR_ENTRIES`: the entries of a new directory. -/
def numDirEntries : Nat := 10

/-- `MAX_FILE_SIZE`. -/
def maxFileSize : Nat := (numSectors - numSectors / (numDirect + 1)) * sectorSize

/-- `MAX_DIR_ENTRIES`. -/
def maxDirEntries : Nat := maxFileSize / 32

/-! ## Entries of a table -/

/-- Is the entry `i` in use? -/
def entryInUse (t : List UInt8) (i : Nat) : Bool := t.getD (i * dirEntrySize) 0 != 0

/-- The header sector of entry `i`. -/
def entrySector (t : List UInt8) (i : Nat) : Nat :=
  ofLe32 (t.getD (i * dirEntrySize + 4) 0) (t.getD (i * dirEntrySize + 5) 0)
    (t.getD (i * dirEntrySize + 6) 0) (t.getD (i * dirEntrySize + 7) 0)

/-- The first `FILE_NAME_MAX_LEN` bytes of the name of entry `i`. -/
def entryName (t : List UInt8) (i : Nat) : List UInt8 :=
  (t.drop (i * dirEntrySize + 8)).take fileNameMaxLen

/-- Is the entry `i` a directory? -/
def entryIsDirectory (t : List UInt8) (i : Nat) : Bool := t.getD (i * dirEntrySize + 24) 0 != 0

/-- What `strncmp` with `FILE_NAME_MAX_LEN` compares of a string. -/
def nameKey (name : List UInt8) : List UInt8 := (name.take fileNameMaxLen).takeWhile (· != 0)

/-- Does `strncmp` find the name of entry `i` equal to `name`? -/
def entryHasName (t : List UInt8) (i : Nat) (name : Name) : Bool :=
  nameKey (entryName t i) == nameKey name

/-- What `strncpy` with `FILE_NAME_MAX_LEN` copies of a string: it fills up with zeros. -/
def paddedName (name : Name) : List UInt8 :=
  nameKey name ++ List.replicate (fileNameMaxLen - (nameKey name).length) 0

/-- Set the `isDirectory` byte of entry `i` if the entry is for a directory; otherwise it stays as
it is. -/
def markDirectory (t : List UInt8) (i : Nat) (isDirectory : Bool) : List UInt8 :=
  if isDirectory then poke t (i * dirEntrySize + 24) [1] else t

/-- Fill in the entry `i` of a table. -/
def setEntry (t : List UInt8) (i : Nat) (name : Name) (sector : Nat) (isDirectory : Bool) :
    List UInt8 :=
  let t := markDirectory (poke t (i * dirEntrySize) [1]) i isDirectory
  poke (poke t (i * dirEntrySize + 8) (paddedName name)) (i * dirEntrySize + 4) (le32 sector)

/-- Take the entry `i` of a table out of use. -/
def clearEntry (t : List UInt8) (i : Nat) : List UInt8 :=
  poke (poke t (i * dirEntrySize) [0]) (i * dirEntrySize + 24) [0]

/-! ## Directories in memory -/

/-- A `Directory` object. -/
structure Directory where
  /-- Number of directory entries. -/
  tableSize : Nat
  /-- The bytes of the entries. -/
  table : List UInt8
  length_table : table.length = tableSize * dirEntrySize

namespace Directory

/-- `Directory(size)`: in new memory, every entry is marked as not in use and not a directory. -/
def new (size : Nat) : Fs Directory := do
  assert (decide (0 < size))
  let heap ← malloc .table
  return {
    tableSize := size
    table := (List.range (size * dirEntrySize)).map fun j =>
      if j % dirEntrySize = 0 ∨ j % dirEntrySize = 24 then 0 else heap j
    length_table := by simp }

/-- The table with what was read from the file over it. -/
def overlay (d : Directory) (bs : List UInt8) : Directory where
  tableSize := d.tableSize
  table := poke d.table 0 bs
  length_table := by rw [length_poke]; exact d.length_table

/-- `FetchFrom`. -/
def fetchFrom (d : Directory) (f : FileId) : Fs Directory := do
  let bs ← read f (d.tableSize * dirEntrySize) true
  return d.overlay bs

/-- `FetchFrom` with `cantDirEntries` into a directory of `MAX_DIR_ENTRIES` entries that is only used
for the number of entries in the file. -/
def fetchTableSize (f : FileId) : Fs Nat := do
  let bs ← read f (maxDirEntries * dirEntrySize) true
  return bs.length / dirEntrySize

/-- `WriteBack`. The number of bytes written is not looked at. -/
def writeBack (me : Tid) (d : Directory) (f : FileId) : Fs Unit := do
  let _ ← write me f d.table true
  return ()

/-- `WriteBack` for the first time. -/
def writeBackFirst (d : Directory) (f : FileId) : Fs Unit := do
  let _ ← writeAt f d.table 0
  return ()

/-- `FindIndex`; `none` is the -1 of the source. -/
def findIndex (d : Directory) (name : Name) : Option Nat :=
  (List.range d.tableSize).find? fun i => entryInUse d.table i && entryHasName d.table i name

/-- The value of an `unsigned` stored in an `int`. -/
def toInt (n : Nat) : Int := if n < 2 ^ 31 then n else n - 2 ^ 32

/-- `Find`: the header sector of a name, or -1. -/
def find (d : Directory) (name : Name) : Int :=
  match d.findIndex name with
  | some i => toInt (entrySector d.table i)
  | none => -1

/-- `FindDir`: is there a directory of this name? -/
def findDir (d : Directory) (name : Name) : Bool :=
  (List.range d.tableSize).any fun i =>
    entryInUse d.table i && (entryHasName d.table i name && entryIsDirectory d.table i)

/-- The first entry that is not in use. -/
def freeIndex (d : Directory) : Option Nat :=
  (List.range d.tableSize).find? fun i => !entryInUse d.table i

/-- Fill in an entry. -/
def set (d : Directory) (i : Nat) (name : Name) (sector : Nat) (isDirectory : Bool) : Directory where
  tableSize := d.tableSize
  table := setEntry d.table i name sector isDirectory
  length_table := by
    unfold setEntry markDirectory
    split <;> simp [d.length_table]

/-- The directory with one more entry, which holds what the new memory held. -/
def grow (d : Directory) (heap : ByteMemory) : Directory where
  tableSize := d.tableSize + 1
  table := d.table ++ slice heap 0 dirEntrySize
  length_table := by simp [d.length_table, Nat.add_mul]

/-- `Add`: the answer of the source and the directory after it. -/
def add (d : Directory) (name : Name) (newSector : Nat) (isDirectory : Bool) :
    Fs (Bool × Directory) :=
  if (d.findIndex name).isSome then
    return (false, d)
  else
    match d.freeIndex with
    | some i => return (true, d.set i name newSector isDirectory)
    | none => do
      let heap ← malloc .slot
      modifyState fun w => { w with directorySize := d.tableSize + 1 }
      return (true, (d.grow heap).set d.tableSize name newSector isDirectory)

/-- `Remove`: the directory after it. -/
def remove (d : Directory) (name : Name) : Directory :=
  match d.findIndex name with
  | some i =>
    { tableSize := d.tableSize
      table := clearEntry d.table i
      length_table := by simp [clearEntry, d.length_table] }
  | none => d

end Directory

end Nachos.Filesys
