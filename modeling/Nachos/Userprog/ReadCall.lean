import Nachos.Filesys.CachedHeader
import Nachos.Userprog.Syscall

/-!
# The system call Read

What `SC_READ` on a file should do to the memory of the program: the bytes that were read go to the buffer, and
nothing else changes.
-/

namespace Nachos

/-- The memory with the bytes `bs` at the addresses from `a` on. -/
def UserMemory.put (mem : UserMemory) (a : Word) (bs : List UInt8) : UserMemory := fun x =>
  if (x - a).toNat < bs.length then bs[(x - a).toNat]? else mem x

namespace Userprog

open Foundations Filesys Resumption

/-- The kernel where `new` returns other memory. -/
def Kernel.withHeap (k : Kernel) (heap : HeapUse → Nat → ByteMemory) : Kernel :=
  { k with world := { k.world with heap := heap } }

/-- Whatever the memory of the buffer held, a `Read` that returns `n` puts the first `n` of the bytes into the
user's buffer and changes no other byte. -/
def ReadsOnly (k : Kernel) (bufferDir sizeBytes : Word) (fdId : Int) (bytes : List UInt8) : Prop :=
  ∀ heap k', (scRead bufferDir sizeBytes fdId).run (k.withHeap heap) = some ((), k') →
    ∃ n, n ≤ bytes.length ∧ k'.r2 = BitVec.ofNat 32 n ∧ k'.mem = k.mem.put bufferDir (bytes.take n)

/-- The `OpenFile` finds nothing, or as much as was asked for; or the call does not get to copy the buffer: its
address or size is refused, or the kernel stops. -/
def FindsAllOrNothing (k : Kernel) (bufferDir sizeBytes : Word) (found : List UInt8) : Prop :=
  found = [] ∨ sizeBytes.toNat ≤ found.length ∨ bufferDir = 0#32 ∨ sizeBytes.toInt ≤ 0 ∨
    sizeBytes.toInt = intMax ∨ ¬ BufferReadable k.mem bufferDir sizeBytes.toNat

end Userprog

end Nachos
