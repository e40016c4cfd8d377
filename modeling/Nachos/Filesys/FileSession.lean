import Nachos.Filesys.DirectoryTree

/-!
# Sessions with files

Sessions in which the open files are read and written between the calls on names. And what `Remove` of a
closed file should do to the disk: free its sectors, take out its entry, and nothing else.
-/

namespace Nachos.Filesys

open Foundations Resumption

/-! ## Calls -/

/-- The calls of a session: those on names, and `Read` and `Write` on a handle. -/
inductive FileCall where
  | named (c : FsCall)
  | read (f : FileId) (numBytes : Nat)
  | write (f : FileId) (data : List UInt8)

namespace Session

/-- The state after a call; nothing if the call does not return. -/
def fileStep (me : Tid) (s : Session) : FileCall → Option Session
  | .named c => s.step me c
  | .read f numBytes => do
    guard (f ∈ s.handles)
    s.call (read f numBytes false)
  | .write f data => do
    guard (f ∈ s.handles)
    s.call (write me f data false)

/-- A call by some thread. -/
def fileStepBy (s : Session) (c : Tid × FileCall) : Option Session := s.fileStep c.1 c.2

/-- A session on a disk that has just been formatted, with any disk and any memory before. -/
structure Started (disk : Disk) (heap : HeapUse → Nat → ByteMemory) (s : Session) : Prop where
  formatted : format.run (World.initial disk heap) = some ((), s.world)
  handles_eq : s.handles = []

/-- `Write` is called on files made by `Create` only. -/
def PlainWrite (s : Session) : FileCall → Prop
  | .write f _ => ∀ file, s.world.files f = some file → (s.world.table file.sector).madeByCreate = true
  | _ => True

end Session

/-! ## Removing -/

/-- The free map as it stands on the disk. -/
def storedFreeMap (d : Disk) : Bitmap :=
  overlayMap (Bitmap.new numSectors fun _ => 0) (content d [freeMapSector])

/-- The data sectors of the headers `c`. -/
def dataSectorsOf (d : Disk) (c : List Nat) : List Nat := c.flatMap fun x => (hdrAt d x).dataOf

/-- The file with the headers `b` was freed, its entry `i` was taken out of the directory with the headers
`c`, and nothing else was changed. -/
structure FreedExactly (d : Disk) (c : List Nat) (i : Nat) (b : List Nat) (d' : Disk) : Prop where
  freeMap : ∀ x, (storedFreeMap d').test x = ((storedFreeMap d).test x && decide (x ∉ sectorsOf d b))
  entry : content d' c = clearEntry (content d c) i
  others : ∀ x, x ∉ dataSectorsOf d [freeMapSector] → x ∉ dataSectorsOf d c → d' x = d x

/-- The entry `i` of the current directory, which has the headers `c`, is that of a file with this name that
`Create` has made and that is not open. -/
structure ClosedFile (s : Session) (name : Name) (x : Nat) (c : List Nat) (i : Nat) : Prop where
  current : CurrentIs s.world x c
  used : Used (content s.world.disk c) i
  hasName : entryHasName (content s.world.disk c) i name = true
  madeByCreate : (s.world.table (entrySector (content s.world.disk c) i)).madeByCreate = true
  closed : ∀ f ∈ s.handles, (books s.world).sectors f ≠ some (entrySector (content s.world.disk c) i)

/-- `Remove` of a closed file returns true and frees exactly this file. -/
def RemovesExactly (s : Session) : Prop :=
  ∀ (me : Tid) (name : Name) (x : Nat) (c : List Nat) (i : Nat), ClosedFile s name x c i →
    (remove me name).Returns s.world fun success w' => success = true ∧
      ∃ b, HeaderChain s.world.disk (entrySector (content s.world.disk c) i) b ∧
        FreedExactly s.world.disk c i b w'.disk

/-! ## Growing -/

/-- `Add` of this name lets the directory with the headers `c` grow: no entry has the name, and none is
free. -/
structure Grows (d : Disk) (c : List Nat) (name : Name) : Prop where
  absent : ∀ i, Used (content d c) i → entryHasName (content d c) i name = false
  full : ∀ i, i < numEntries (content d c) → entryInUse (content d c) i = true

/-- The sectors that a directory takes to grow by an entry. -/
def growthNeed (d : Disk) (c : List Nat) : Nat :=
  needChain d c ((numEntries (content d c) + 1) * dirEntrySize)

/-- If `Create` lets the current directory grow, it finds the sectors for it behind that of the new header, and
the byte of the new memory that becomes `isDirectory` is zero. Without any free sector it does nothing. -/
def CreateFits (w : World) (name : Name) : Prop :=
  ∀ s c m, CurrentIs w s c → MapIs w.disk m → Grows w.disk c name → m.countClear ≠ 0 →
    growthNeed w.disk c + 1 ≤ m.countClear ∧ w.heap .slot 0 24 = 0

/-- If `CreateDir` lets the current directory grow, it finds the sectors for it behind those of the new
directory. -/
def CreateDirFits (w : World) (name : Name) : Prop :=
  ∀ s c m, CurrentIs w s c → MapIs w.disk m → Grows w.disk c name →
    growthNeed w.disk c + 1 + divRoundUp directoryFileSize sectorSize ≤ m.countClear

namespace Session

/-- `Create` and `CreateDir` look for the last piece of the path in the current directory of `w'`. -/
def Resolves (me : Tid) (name : Name) (w : World) (piece : Name) (w' : World) : Prop :=
  ∃ w1 backup, (acquire me (some filesysCreateLock)).run w = some ((), w1) ∧
    (resolvePath me name).run w1 = some (some (backup, piece), w')

/-- The directories that the call lets grow find what they need. -/
def Fits (me : Tid) (s : Session) : FileCall → Prop
  | .named (.create name) => ∀ piece w, Resolves me name s.world piece w → CreateFits w piece
  | .named (.createDir name) => ∀ piece w, Resolves me name s.world piece w → CreateDirFits w piece
  | _ => True

end Session

/-- The counters of a header in new memory are zero. -/
structure Zeroed (heap : ByteMemory) : Prop where
  numBytes_eq : (RawFileHeader.ofMemory heap).numBytes = 0
  numSectors_eq : (RawFileHeader.ofMemory heap).numSectors = 0

end Nachos.Filesys
