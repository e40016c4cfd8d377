import Nachos.Foundations.Runs
import Nachos.Filesys.FileSystem

/-!
# Open counts

The books of the open-file table: how many `OpenFile` objects each header sector counts, and which
objects there are. A session is a sequence of calls of the file system, one after the other, with the
handles that `Open` has returned and that have not been closed.
-/

namespace Nachos.Filesys

open Foundations Resumption

/-! ## Books -/

/-- The counts, the sectors of the objects, and the two files that the file system keeps open. -/
@[ext]
structure Books where
  counts : Nat → Nat
  sectors : FileId → Option Nat
  next : FileId
  freeMapFile : FileId
  directoryFile : FileId

namespace Books

/-- A new object for the file at `s`. -/
def opened (b : Books) (s : Nat) : Books :=
  { b with
    counts := Function.update b.counts s (b.counts s + 1)
    sectors := Function.update b.sectors b.next (some s)
    next := b.next + 1 }

/-- The object `f` for the file at `s` is deleted. -/
def closed (b : Books) (f : FileId) (s : Nat) : Books :=
  { b with
    counts := Function.update b.counts s (b.counts s - 1)
    sectors := Function.update b.sectors f none }

/-- The count of `s` is set to 0. -/
def reset (b : Books) (s : Nat) : Books := { b with counts := Function.update b.counts s 0 }

/-- The objects `l` are those in use, and every sector counts its own. -/
structure Exact (b : Books) (l : List FileId) : Prop where
  counts_eq : ∀ s, b.counts s = l.countP fun f => b.sectors f = some s
  nodup : l.Nodup
  exists_sector : ∀ f ∈ l, (b.sectors f).isSome
  lt_next : ∀ f ∈ l, f < b.next

end Books

/-- The books of a state. -/
def books (w : World) : Books where
  counts := fun s => (w.table s).count
  sectors := fun f => (w.files f).map OpenFile.sector
  next := w.nextFile
  freeMapFile := w.freeMapFile
  directoryFile := w.directoryFile

/-! ## Sessions -/

/-- The calls. -/
inductive FsCall where
  | create (name : Name)
  | createDir (name : Name)
  | open (name : Name)
  | close (f : FileId)
  | changeDir (name : Name)
  | remove (name : Name)

/-- The file system and the handles that are open. -/
structure Session where
  world : World
  handles : List FileId

namespace Session

/-- A call that leaves the handles alone. -/
def call {α : Type} (s : Session) (m : Fs α) : Option Session := do
  let (_, w) ← m.run s.world
  return { s with world := w }

/-- The state after a call; nothing if the call does not return. -/
def step (me : Tid) (s : Session) : FsCall → Option Session
  | .create name => s.call (create me name)
  | .createDir name => s.call (createDir me name)
  | .open name => do
    let (opened, w) ← (openFile name).run s.world
    return { world := w, handles := opened.toList ++ s.handles }
  | .close f => do
    guard (f ∈ s.handles)
    let (_, w) ← (deleteOpenFile me f).run s.world
    return { world := w, handles := s.handles.erase f }
  | .changeDir name => s.call (changeDir me name true)
  | .remove name => s.call (remove me name)

/-- A call by some thread. -/
def stepBy (s : Session) (c : Tid × FsCall) : Option Session := s.step c.1 c.2

/-- The objects in use: the free map, the current directory and the handles. -/
def inUse (s : Session) : List FileId := s.world.freeMapFile :: s.world.directoryFile :: s.handles

/-- The count of every sector is the number of objects in use for it. -/
def CountsExact (s : Session) : Prop :=
  ∀ x, (s.world.table x).count =
    s.inUse.countP fun f => (s.world.files f).map OpenFile.sector = some x

/-- The file system has been started, on any disk. -/
def Fresh (s : Session) : Prop :=
  ∃ disk heap start, (start = format ∨ start = mount) ∧
    start.run (World.initial disk heap) = some ((), s.world) ∧ s.handles = []

/-! ## Calls that keep the books -/

/-- A round of the loop of `ChangeDirRootPath`: enter a directory of the current one. -/
def enterDirectory (me : Tid) (name : Name) : Fs Directory := do
  let w ← getState
  let opened ← openFile name
  let f ← ofOption opened
  switchDirectory me f w.directoryFile
  fetchDirectory

/-- The beginning of `ChangeDirRootPath`: enter the root. -/
def enterRoot : Fs Directory := do
  let root ← newOpenFile directorySector
  let tableSize ← Directory.fetchTableSize root
  let currDir ← Directory.new tableSize
  let currDir ← currDir.fetchFrom root
  modifyState fun w => { w with directoryFile := root, directorySize := tableSize }
  return currDir

/-- Each name is that of a directory in the directory reached before. -/
def Walks (me : Tid) : List Name → Directory → World → Prop
  | [], _, _ => True
  | name :: names, currDir, w =>
    currDir.findDir name = true ∧
      ∀ dir w', (enterDirectory me name).run w = some (dir, w') → Walks me names dir w'

/-- The path leads from the root over directories that exist. -/
def PathExists (me : Tid) (path : Name) (w : World) : Prop :=
  ∀ dir w', enterRoot.run w = some (dir, w') → Walks me (separateDir path.tail).dropLast dir w'

/-- The directory of the file with this absolute path. -/
def directoryPart (name : Name) : Name :=
  if lastSlash name = 0 then [slash] else name.take (lastSlash name)

/-- If the name is an absolute path, its directory exists. -/
def DirectoryExists (me : Tid) (name : Name) (w : World) : Prop :=
  name.head? = some slash → name.tail ≠ [] → PathExists me (directoryPart name) w

/-- What the calls that make a file find of the free map: the sector of the new header, and the map
after it is taken. -/
def NewSector (w : World) (sector : Nat) (freeMap : Bitmap) : Prop :=
  ∃ dir w1 m w2, fetchDirectory.run w = some (dir, w1) ∧ fetchFreeMap.run w1 = some (m, w2) ∧
    m.find = (some sector, freeMap)

/-- The state in which `Create` and `CreateDir` look for the name, in the directory of the path. -/
def ResolvedTo (me : Tid) (name : Name) (w w' : World) : Prop :=
  ∃ w1 path, (acquire me (some filesysCreateLock)).run w = some ((), w1) ∧
    (resolvePath me name).run w1 = some (some path, w')

/-- The calls that keep the books:
* no absolute path leads over a directory that does not exist;
* nobody has a sector open that is free on the disk and that a new header takes;
* `CreateDir` with an absolute path finds the sectors for the new directory. -/
def KeepsBooks (me : Tid) (s : Session) : FsCall → Prop
  | .create name =>
    (∀ w, (acquire me (some filesysCreateLock)).run s.world = some ((), w) → DirectoryExists me name w) ∧
      ∀ w sector m, ResolvedTo me name s.world w → NewSector w sector m → (w.table sector).count = 0
  | .createDir name =>
    (∀ w, (acquire me (some filesysCreateLock)).run s.world = some ((), w) → DirectoryExists me name w) ∧
      (∀ w sector m, ResolvedTo me name s.world w → NewSector w sector m → (w.table sector).count = 0) ∧
      (name.head? = some slash → ∀ w sector m, ResolvedTo me name s.world w → NewSector w sector m →
        divRoundUp directoryFileSize sectorSize ≤ m.countClear)
  | .changeDir name => name.head? = some slash → PathExists me name s.world
  | .remove name => DirectoryExists me name s.world
  | _ => True

/-- A call by some thread that keeps the books. -/
def KeepsBooksBy (s : Session) (c : Tid × FsCall) : Prop := KeepsBooks c.1 s c.2

end Session

end Nachos.Filesys
