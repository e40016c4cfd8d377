import Nachos.Filesys.FileSession

/-!
# Who owns the sectors

The files of a disk, what it means that each of their sectors belongs to one of them, and which file a call of a
session changes.
-/

namespace Nachos.Filesys

open Foundations

/-- The files: the free map, the directories that can be reached from the root and from the current directory, and
the files that have an entry in one of them. -/
inductive Stored (w : World) : Nat → Prop where
  | freeMap : Stored w freeMapSector
  | directory {s : Nat} (hs : IsDirectory w.disk (Roots w fun _ => False) s) : Stored w s
  | entry {s : Nat} {c : List Nat} {i : Nat} (hs : IsDirectory w.disk (Roots w fun _ => False) s)
      (hc : HeaderChain w.disk s c) (hi : Used (content w.disk c) i) : Stored w (entrySector (content w.disk c) i)

/-- Every sector of a file belongs to this file only, exists, and is marked in the free map on the disk. -/
structure SectorsOwned (w : World) : Prop where
  ends : ∀ x, Stored w x → ∃ c, HeaderChain w.disk x c
  nodup : ∀ x c, Stored w x → HeaderChain w.disk x c → (sectorsOf w.disk c).Nodup
  disjoint : ∀ x y c b, Stored w x → Stored w y → HeaderChain w.disk x c → HeaderChain w.disk y b → x ≠ y →
    (sectorsOf w.disk c).Disjoint (sectorsOf w.disk b)
  lt : ∀ x c, Stored w x → HeaderChain w.disk x c → ∀ z ∈ sectorsOf w.disk c, z < numSectors
  marked : ∀ x c, Stored w x → HeaderChain w.disk x c → ∀ z ∈ sectorsOf w.disk c, (storedFreeMap w.disk).test z = true
  numSectors_eq : ∀ x c, Stored w x → HeaderChain w.disk x c → ∀ z ∈ c,
    (hdrAt w.disk z).numSectors = divRoundUp (hdrAt w.disk z).numBytes sectorSize
  sole : ∀ {s s' : Nat} {c c' : List Nat} {i j : Nat}, IsDirectory w.disk (Roots w fun _ => False) s →
    IsDirectory w.disk (Roots w fun _ => False) s' → HeaderChain w.disk s c → HeaderChain w.disk s' c' →
    Used (content w.disk c) i → Used (content w.disk c') j →
    entrySector (content w.disk c) i = entrySector (content w.disk c') j → s = s' ∧ i = j

/-- The files that can be reached from the root, and the free map. -/
def InTree (d : Disk) (x : Nat) : Prop :=
  x = freeMapSector ∨ x = directorySector ∨ ∃ s c i, IsDirectory d (· = directorySector) s ∧ HeaderChain d s c ∧
    Used (content d c) i ∧ entrySector (content d c) i = x

/-- The free map on the disk marks the sectors of the files, and no others. -/
def FreeMapExact (d : Disk) : Prop :=
  ∀ z, (storedFreeMap d).test z = true ↔ ∃ x c, InTree d x ∧ HeaderChain d x c ∧ z ∈ sectorsOf d c

/-- The file at `x`, with the headers `c`, is the same on both disks. -/
structure SameFile (d : Disk) (x : Nat) (c : List Nat) (d' : Disk) : Prop where
  chain : HeaderChain d' x c
  sectors : ∀ z ∈ sectorsOf d c, d' z = d z
  content_eq : content d' c = content d c

namespace Session

/-- A call that the callers may make: `Write` on files made by `Create` only, and with the sectors that a growing
directory takes. -/
def Proper (s : Session) (c : Tid × FileCall) : Prop := s.PlainWrite c.2 ∧ Fits c.1 s c.2

/-- `Create` and `CreateDir` look for the last piece of the path in the directory at `x`. -/
def CreatesIn (me : Tid) (name : Name) (w : World) (x : Nat) : Prop :=
  ∃ piece w1, Resolves me name w piece w1 ∧ (books w1).sectors w1.directoryFile = some x

/-- `Remove` looks for the last piece of the path in the directory at `x`. -/
def RemovesIn (me : Tid) (name : Name) (w : World) (x : Nat) : Prop :=
  ∃ backup piece w1, (resolvePath me name).run w = some (some (backup, piece), w1) ∧
    (books w1).sectors w1.directoryFile = some x

/-- The file at `x` is the one that the call may change: the directory to which the path leads, or the file that is
written. -/
def Changes (me : Tid) (s : Session) : FileCall → Nat → Prop
  | .named (.create name) => CreatesIn me name s.world
  | .named (.createDir name) => CreatesIn me name s.world
  | .named (.remove name) => RemovesIn me name s.world
  | .write f _ => fun x => (books s.world).sectors f = some x
  | _ => fun _ => False

/-- The call is made on another file than that at `x`, and this file is still there. -/
def Spares (x : Nat) (s : Session) (c : Tid × FileCall) : Prop :=
  ¬ Changes c.1 s c.2 x ∧ ∀ s', s.fileStepBy c = some s' → Stored s'.world x

/-- If `Remove` finds a directory with this path, it has no entries. -/
def RemovesNoEntries (me : Tid) (name : Name) (w : World) : Prop :=
  ∀ backup piece w1, (resolvePath me name).run w = some (some (backup, piece), w1) → ∀ x c i b, CurrentIs w1 x c →
    Used (content w1.disk c) i → entryHasName (content w1.disk c) i piece = true →
    entryIsDirectory (content w1.disk c) i = true → HeaderChain w1.disk (entrySector (content w1.disk c) i) b →
    ∀ j, ¬ Used (content w1.disk b) j

/-- `Write` of so many bytes takes no sector that it does not use. -/
def WritesFit (f : FileId) (numBytes : Nat) (w : World) : Prop :=
  ∀ file pre post m, w.files f = some file → HeaderChain w.disk file.sector (pre ++ file.currentSector :: post) →
    MapIs w.disk m → WriteFits w.disk file.currentSector post file.seekPosition numBytes m.countClear

/-- The call takes no sector in vain, and it frees no directory that has entries. -/
def LosesNothing (me : Tid) (s : Session) : FileCall → Prop
  | .named (.remove name) => RemovesNoEntries me name s.world
  | .write f data => WritesFit f data.length s.world
  | _ => True

end Session

end Nachos.Filesys
