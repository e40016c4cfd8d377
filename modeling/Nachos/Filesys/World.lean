import Mathlib.Logic.Function.Basic
import Nachos.Foundations.Resumption
import Nachos.Filesys.FileHeader

/-!
# The state of the file system

What the threads of the file system share: the disk behind `SynchDisk`, the open-file table
`tableDeArchivosAbierta`, the `OpenFile` objects, the locks, the fields of the `FileSystem` object and
the channels on which a remover waits. The code of a thread is a resumption over this state; other
threads run at its disk requests and where it blocks.

Memory that `new` returns is not initialised, so what a new object holds is taken from an arbitrary
supply of memories, one for each use.
-/

namespace Nachos.Filesys

open Foundations Resumption

/-- Thread identifiers (`tId`). -/
abbrev Tid := Nat

/-- Addresses of locks. -/
abbrev LockId := Nat

/-- Addresses of `OpenFile` objects. -/
abbrev FileId := Nat

/-- What a piece of new memory is used for. -/
inductive HeapUse where
  /-- A `FileHeader`. -/
  | header
  /-- The table of a new `Directory`. -/
  | table
  /-- The last entry of a directory table that has grown by one. -/
  | slot
  /-- The buffer of `WriteAt`. -/
  | buffer
deriving DecidableEq

/-- A lock: the thread that holds it. -/
structure Lock where
  lockOwner : Option Tid
deriving DecidableEq

/-- An entry of `tableDeArchivosAbierta`, one for each sector that may hold a file header. -/
structure OpenDirEntry where
  /-- Number of `OpenFile` objects of the file. -/
  count : Nat
  /-- A thread is removing the file. -/
  removing : Bool
  removed : Bool
  writeLock : Option LockId
  removeLock : Option LockId
  closeLock : Option LockId
  removerSpaceId : Tid
  /-- Not in the source: the file of this sector was made by `Create`. -/
  madeByCreate : Bool
deriving DecidableEq

/-- An `OpenFile` object. -/
structure OpenFile where
  /-- The header in memory. -/
  hdr : RawFileHeader
  /-- Current position within the part of the file that `hdr` describes. -/
  seekPosition : Nat
  /-- The sector of the first header of the file. -/
  sector : Nat
  /-- The sector of the header at which the next `Write` goes on. -/
  currentSector : Nat
deriving DecidableEq

/-- The shared state. -/
structure World where
  /-- The disk: the last content written to each sector. -/
  disk : Nat → Sector
  /-- `tableDeArchivosAbierta`. -/
  table : Nat → OpenDirEntry
  /-- The `OpenFile` objects that have not been deleted. -/
  files : Nat → Option OpenFile
  nextFile : FileId
  /-- The locks that have not been deleted. -/
  locks : Nat → Option Lock
  nextLock : LockId
  freeMapFile : FileId
  directoryFile : FileId
  directorySize : Nat
  /-- The messages in the `removeChannel` of each thread. -/
  removeChannel : Nat → List Int
  /-- The memories that `new` will return. -/
  heap : HeapUse → Nat → ByteMemory

/-- Code of the file system. -/
abbrev Fs (α : Type) := Resumption World α

/-! ## Disk requests -/

/-- `SynchDisk::ReadSector`. Another thread may run before the transfer, while this one waits for the
disk, and after it, while this one waits for the interrupt. -/
def readSector (sector : Nat) : Fs Sector := do
  yield
  assert (decide (sector < numSectors))
  let w ← getState
  yield
  return w.disk sector

/-- `SynchDisk::WriteSector`. -/
def writeSector (sector : Nat) (data : Sector) : Fs Unit := do
  yield
  assert (decide (sector < numSectors))
  modifyState fun w => { w with disk := Function.update w.disk sector data }
  yield

/-! ## Memory -/

/-- The memory of a new object. -/
def malloc (use : HeapUse) : Fs ByteMemory := do
  let w ← getState
  modifyState fun w =>
    { w with heap := Function.update w.heap use fun n => w.heap use (n + 1) }
  return w.heap use 0

/-- An `OpenFile` object; the use of a deleted one is undefined behaviour. -/
def getFile (f : FileId) : Fs OpenFile := do
  let w ← getState
  ofOption (w.files f)

/-- Replace an `OpenFile` object. -/
def setFile (f : FileId) (file : OpenFile) : Fs Unit :=
  modifyState fun w => { w with files := Function.update w.files f (some file) }

/-- Change an `OpenFile` object. -/
def modifyFile (f : FileId) (g : OpenFile → OpenFile) : Fs Unit := do
  let file ← getFile f
  setFile f (g file)

/-- The entry of the open-file table of a header sector. -/
def getEntry (sector : Nat) : Fs OpenDirEntry := do
  assert (decide (sector < numSectors))
  let w ← getState
  return w.table sector

/-- Change the entry of a header sector. -/
def modifyEntry (sector : Nat) (g : OpenDirEntry → OpenDirEntry) : Fs Unit := do
  let e ← getEntry sector
  modifyState fun w => { w with table := Function.update w.table sector (g e) }

/-! ## Locks -/

/-- `new Lock`. -/
def newLock : Fs LockId := do
  let w ← getState
  modifyState fun w =>
    { w with
      locks := Function.update w.locks w.nextLock (some { lockOwner := none })
      nextLock := w.nextLock + 1 }
  return w.nextLock

/-- Is the lock free? -/
def lockFree (l : LockId) (w : World) : Bool := w.locks l == some { lockOwner := none }

/-- `Lock::Acquire`, through a pointer that may be null. -/
def acquire (me : Tid) (l : Option LockId) : Fs Unit := do
  let l ← ofOption l
  let w ← getState
  let lock ← ofOption (w.locks l)
  assert (lock.lockOwner != some me)
  awaitUntil (lockFree l)
  modifyState fun w => { w with locks := Function.update w.locks l (some { lockOwner := some me }) }

/-- `Lock::Release`, by the thread that holds the lock. -/
def release (me : Tid) (l : Option LockId) : Fs Unit := do
  let l ← ofOption l
  let w ← getState
  let lock ← ofOption (w.locks l)
  assert (lock.lockOwner == some me)
  modifyState fun w => { w with locks := Function.update w.locks l (some { lockOwner := none }) }

/-- `delete lock`; to delete a null pointer does nothing. -/
def deleteLock : Option LockId → Fs Unit
  | none => return ()
  | some l => do
    let w ← getState
    assert (w.locks l).isSome
    modifyState fun w => { w with locks := Function.update w.locks l none }

/-- The lock of `Create` and `CreateDir`. -/
def filesysCreateLock : LockId := 0

/-! ## Channels -/

/-- `removeChannel->Send(0)` to the thread `t`: the sender waits until the message is taken. Every
thread is in the process table, from which none is ever removed. -/
def channelSend (t : Tid) : Fs Unit := do
  modifyState fun w =>
    { w with removeChannel := Function.update w.removeChannel t (w.removeChannel t ++ [0]) }
  awaitUntil fun w => (w.removeChannel t).isEmpty

/-- `removeChannel->Receive(msg)` by the thread `me`. -/
def channelReceive (me : Tid) : Fs Int := do
  awaitUntil fun w => !(w.removeChannel me).isEmpty
  let w ← getState
  modifyState fun w =>
    { w with removeChannel := Function.update w.removeChannel me (w.removeChannel me).tail }
  return (w.removeChannel me).headD 0

/-! ## System start -/

/-- The entry of a sector at system start. -/
def OpenDirEntry.initial : OpenDirEntry where
  count := 0
  removing := false
  removed := false
  writeLock := none
  removeLock := none
  closeLock := none
  removerSpaceId := 0
  madeByCreate := false

/-- The state before the file system is made, with any disk and any memory. -/
def World.initial (disk : Nat → Sector) (heap : HeapUse → Nat → ByteMemory) : World where
  disk := disk
  table := fun _ => OpenDirEntry.initial
  files := fun _ => none
  nextFile := 0
  -- only `filesysCreateLock` exists
  locks := Function.update (fun _ => none) filesysCreateLock (some { lockOwner := none })
  nextLock := 1
  freeMapFile := 0
  directoryFile := 0
  directorySize := 0
  removeChannel := fun _ => []
  heap := heap

end Nachos.Filesys
