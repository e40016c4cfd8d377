import Nachos.Filesys.DirectoryTree

/-!
# Absolute paths

What an absolute path stands for: its components lead from the root over directories. And what it takes for the
calls that follow a path to return: the locks of the open-file table are there, and nobody holds them.
-/

namespace Nachos.Filesys

open Foundations

/-! ## Components -/

/-- The components of a path: the pieces between slashes that are not empty. -/
def components (path : Name) : List Name := (path.splitOn slash).filter (· ≠ [])

/-- The names lead from the directory at `s` to that at the last sector, over directories. -/
inductive Leads (d : Disk) : Nat → List Name → Nat → Prop where
  | here (s : Nat) : Leads d s [] s
  | into {s t : Nat} {c : List Nat} {i : Nat} {name : Name} {names : List Name} (hc : HeaderChain d s c)
      (hi : Used (content d c) i) (hname : entryHasName (content d c) i name = true)
      (hdir : entryIsDirectory (content d c) i = true)
      (hnames : Leads d (entrySector (content d c) i) names t) : Leads d s (name :: names) t

/-- What `ChangeDir` of an absolute path should do: it returns whether the path leads to a directory, which then
is the current one; if not, the current directory is the one before. -/
structure Resolved (w : World) (path : Name) (success : Bool) (w' : World) : Prop where
  success_iff : success = true ↔ ∃ t, Leads w.disk directorySector (components path) t
  reached : success = true → ∃ t c, Leads w.disk directorySector (components path) t ∧ CurrentIs w' t c
  unchanged : success = false → w'.directoryFile = w.directoryFile ∧ w'.directorySize = w.directorySize ∧
    (books w').sectors w'.directoryFile = (books w).sectors w.directoryFile

/-- Every directory of the tree has entries, in use or not. -/
def Stocked (d : Disk) : Prop :=
  ∀ s c, IsDirectory d (· = directorySector) s → HeaderChain d s c → 0 < numEntries (content d c)

/-! ## Locks -/

/-- No file is being removed, and the locks of the open-file table are free: every file that is open has a close
lock and a write lock, which is no other lock. -/
structure FileLocksOk (w : World) : Prop where
  removing : ∀ s, (w.table s).removing = false
  close : ∀ s l, (w.table s).closeLock = some l → w.locks l = some { lockOwner := none }
  hasClose : ∀ s, (w.table s).count ≠ 0 → (w.table s).closeLock ≠ none
  write : ∀ s, (w.table s).count ≠ 0 →
    ∃ l, (w.table s).writeLock = some l ∧ w.locks l = some { lockOwner := none }
  write_ne_close : ∀ s s' l, (w.table s).count ≠ 0 → (w.table s).writeLock = some l →
    (w.table s').closeLock ≠ some l
  write_inj : ∀ s s' l, (w.table s).count ≠ 0 → (w.table s').count ≠ 0 → (w.table s).writeLock = some l →
    (w.table s').writeLock = some l → s = s'

end Nachos.Filesys
