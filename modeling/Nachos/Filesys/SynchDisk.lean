import Nachos.Filesys.FileHeader
import Nachos.Threads.Discipline

/-!
# The synchronous disk

`SynchDisk` of `filesys/synch_disk.cc` over `Disk` of `machine/disk.cc`. Any number of threads call
`ReadSector` and `WriteSector`, in any order, and the interrupts of the disk come at any time after
their requests. The host file that stands for the disk keeps what is written to it.

The handler of an interrupt runs as a thread of its own, `hardware`, whose steps may come between any
two steps of the others. The requests are numbered; the source has neither the numbers nor the records.
-/

namespace Nachos.Filesys

/-- What a thread asks of the disk. -/
inductive DiskOp where
  | read (sectorNumber : Nat)
  | write (sectorNumber : Nat) (data : Sector)
deriving DecidableEq

def DiskOp.sector : DiskOp → Nat
  | .read sectorNumber | .write sectorNumber _ => sectorNumber

/-- An array of sectors after an operation, and what a read finds. -/
def DiskOp.run (op : DiskOp) (sectors : Nat → Sector) : (Nat → Sector) × Option Sector :=
  match op with
  | .read sectorNumber => (sectors, some (sectors sectorNumber))
  | .write sectorNumber data => (Function.update sectors sectorNumber data, none)

/-- The operations one after another. -/
def runOps (sectors : Nat → Sector) : List DiskOp → (Nat → Sector) × List (Option Sector)
  | [] => (sectors, [])
  | op :: ops =>
    let r := op.run sectors
    let rs := runOps r.1 ops
    (rs.1, r.2 :: rs.2)

/-- A request that the disk has received: the thread, the operation, and what is in the buffer of a
read. -/
structure DiskRequest where
  thread : Nat
  op : DiskOp
  result : Option Sector

/-- The disk. -/
structure RawDisk where
  /-- The sectors in the host file. -/
  sectors : Nat → Sector
  active : Bool
  /-- The requests whose interrupts are scheduled, by their numbers. -/
  scheduled : List Nat
  requests : List DiskRequest
  /-- The requests whose interrupts have come. -/
  completed : List Nat
  /-- The calls that returned: the thread, the request and what the thread has in its buffer. -/
  returned : List (Nat × Nat × Option Sector)

/-- The thread that stands for the interrupt handler. -/
def hardware : Nat := 0

/-- The code between the uses of the lock and the semaphore. -/
inductive DiskCode where
  /-- `ReadRequest` or `WriteRequest`. -/
  | request (op : DiskOp)
  /-- The call returns; its request and what is in its buffer. -/
  | ret (id : Nat) (result : Option Sector)

/-- What can be called. -/
inductive DiskCall where
  /-- `ReadSector` and `WriteSector`. -/
  | access (op : DiskOp)
  /-- `HandleInterrupt`. -/
  | interrupt

/-- There is one lock and one semaphore. -/
abbrev DiskFrame := Synch.Frame Unit Empty Unit DiskCode

namespace RawDisk

/-- `Disk::ReadRequest` and `WriteRequest` by the thread `t`; `none` is a failed `ASSERT`. -/
def request (d : RawDisk) (t : Nat) (op : DiskOp) : Option RawDisk := do
  guard (d.active = false)
  guard (op.sector < numSectors)
  let r := op.run d.sectors
  return { d with
    sectors := r.1
    active := true
    scheduled := d.scheduled ++ [d.requests.length]
    requests := d.requests ++ [⟨t, op, r.2⟩] }

/-- A piece of code, with the frames that come next. -/
def exec (code : DiskCode) (t : Nat) (d : RawDisk) : Option (RawDisk × List DiskFrame) :=
  match code with
  | .request op => do
    let d' ← d.request t op
    return (d', [.p (.user ()), .release (), .code (.ret d.requests.length (op.run d.sectors).2)])
  | .ret id result => some ({ d with returned := d.returned ++ [(t, id, result)] }, [])

/-- A call: of a thread, or of the handler when the interrupt of a request comes. -/
def call (c : DiskCall) (t : Nat) (d : RawDisk) : Option (RawDisk × List DiskFrame) :=
  match c with
  | .access op => if t = hardware then none else some (d, [.acquire (), .code (.request op)])
  | .interrupt =>
    if t = hardware then
      match d.scheduled with
      | [] => none
      | id :: scheduled => some ({ d with
          active := false
          scheduled := scheduled
          completed := d.completed ++ [id] }, [.v (.user ())])
    else none

end RawDisk

/-- Threads that use the disk. -/
def diskUsers : Synch.System Unit Empty Unit DiskCode DiskCall RawDisk where
  lockOf := Empty.elim
  call := RawDisk.call
  exec := RawDisk.exec

abbrev DiskState := Synch.State Unit Empty Unit DiskCode RawDisk

/-- The state at the beginning, with the sectors of the host file. -/
def diskStart (sectors : Nat → Sector) (priority : Nat → Int) : DiskState :=
  Synch.State.start (fun _ => 0) priority
    { sectors := sectors, active := false, scheduled := [], requests := [], completed := [], returned := [] }

end Nachos.Filesys
