import Nachos.Filesys.OpenCounts
import Nachos.Userprog.Syscall

/-!
# The end of a process

`~Thread` of `threads/thread.cc` and `~AddressSpace` of `userprog/address_space.cc` in the build of
`filesys/Makefile`, as far as they close files, after a history of the system calls Open and Close.
-/

namespace Nachos.Userprog

open Foundations Filesys Resumption

/-! ## The destructors -/

/-- The objects that the constructor of an address space keeps: the file of `exe`, and `swapFD`. -/
structure SpaceFiles where
  exe : FileId
  swapFD : FileId

/-- `~AddressSpace`. It deletes `exe`, which has no destructor and leaves its file open, and it does not
delete `swapFD`. -/
def deleteSpace (_space : SpaceFiles) : Fs Unit := return ()

/-- `delete` of a pointer. -/
def deletePointer (me : Filesys.Tid) : Option FileId → Fs Unit
  | none => return ()
  | some f => deleteOpenFile me f

/-- The loop of `~Thread` from index `i` on, where `n` indices are left below `current`. -/
def closeDescriptors (me : Filesys.Tid) (opFD : Table (Option FileId)) : Nat → Nat → Fs Unit
  | 0, _ => return ()
  | n + 1, i =>
    if opFD.has i then do
      let item ← ofOption (opFD.get i)
      deletePointer me item
      closeDescriptors me opFD n (i + 1)
    else return ()

/-- `~Thread`. -/
def deleteThread (me : Filesys.Tid) (space : SpaceFiles) (opFD : Table (Option FileId)) : Fs Unit := do
  deleteSpace space
  closeDescriptors me opFD opFD.current 0

/-! ## The history -/

/-- The calls that change the descriptors. The program may have written anything to its memory before. -/
inductive FdCall where
  | open (mem : UserMemory) (fileDir : Word)
  | close (fid : Int)

/-- The state after a call; nothing if the call does not return. -/
def fdStep (me : Filesys.Tid) (k : Kernel) : FdCall → Option Kernel
  | .open mem fileDir => ((scOpen me fileDir).run { k with mem := mem }).map Prod.snd
  | .close fid => ((scClose me fid).run k).map Prod.snd

/-- A process has been started: it has the descriptors of the console, and the files of its address space are
open. -/
structure StartedProcess (k : Kernel) (space : SpaceFiles) : Prop where
  opFD : ∃ data, k.opFD = (((Table.new data).add none).2.add none).2
  exe : (k.world.files space.exe).isSome ∧ space.exe < k.world.nextFile
  swapFD : (k.world.files space.swapFD).isSome ∧ space.swapFD < k.world.nextFile

/-! ## What should be closed -/

/-- The files in a table of descriptors. -/
def openDescriptors (opFD : Table (Option FileId)) : List FileId :=
  (List.range opFD.current).filterMap fun i => if opFD.has i then opFD.data i else none

/-- All objects of the list are closed once: they are gone, and each has been counted out. -/
structure ClosesAll (w w' : World) (handles : List FileId) : Prop where
  closed : ∀ f ∈ handles, w'.files f = none
  counts : ∀ s, (w'.table s).count + handles.countP (fun f => (w.files f).map OpenFile.sector = some s) =
    (w.table s).count

/-- The destructor of the thread closes all that the process has open. -/
def TerminationCloses (me : Filesys.Tid) (k : Kernel) (space : SpaceFiles) : Prop :=
  ∃ w', (deleteThread me space k.opFD).run k.world = some ((), w') ∧
    ClosesAll k.world w' (space.exe :: space.swapFD :: openDescriptors k.opFD)

/-- Every index before one that is in use is in use. -/
def NoGap (opFD : Table (Option FileId)) : Prop :=
  ∀ i j, i < j → opFD.has j = true → opFD.has i = true

end Nachos.Userprog
