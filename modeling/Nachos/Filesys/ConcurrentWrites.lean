import Nachos.Foundations.CriticalSections
import Nachos.Filesys.OpenFile

/-!
# Concurrent writes to one file

Threads call `Write`, each on an `OpenFile` object of its own, and all the objects are of one file. The
CPU changes hands wherever a thread waits for the disk or for a lock, and between the calls.
-/

namespace Nachos.Filesys

open Foundations Resumption

/-- The arguments of a call of `Write`, which asserts that there is something to write. -/
structure WriteCall where
  data : List UInt8
  isDirectory : Bool
  data_ne : data ≠ []

/-- The thread that holds a lock. -/
def lockHolder (l : LockId) (w : World) : Option Tid := (w.locks l).bind Lock.lockOwner

/-- The call of the thread `t` on its object. -/
def writeCall (handle : Tid → FileId) (t : Tid) (call : WriteCall) : Fs Nat :=
  write t (handle t) call.data call.isDirectory

/-- The threads with something to write have objects of the file at the sector `s`, whose write lock is
`l`. -/
structure WriteHandles (handle : Tid → FileId) (calls : Tid → List WriteCall) (s : Nat) (l : LockId)
    (w : World) : Prop where
  sector_lt : s < numSectors
  handle : ∀ t, calls t ≠ [] → ∃ file, w.files (handle t) = some file ∧ file.sector = s
  lock : (w.table s).writeLock = some l
  lock_free : w.locks l = some { lockOwner := none }

end Nachos.Filesys
