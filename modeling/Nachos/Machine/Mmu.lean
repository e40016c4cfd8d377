import Nachos.Foundations.ByteMemory
import Nachos.Lib.Bitmap

/-!
# The memory management unit

`machine/mmu.cc` in a build with `USE_TLB`: addresses are translated by the software-loaded TLB, and
an address whose page has no valid TLB entry raises a page fault. The sizes are those of a build with
`SWAP`.
-/

namespace Nachos

open Foundations

/-- `PAGE_SIZE`, the size of a disk sector. -/
def pageSize : Nat := 128

/-- `NUM_PHYS_PAGES` of a build with `SWAP`. -/
def numPhysPages : Nat := 64

/-- `TLB_SIZE`. -/
def tlbSize : Nat := 32

/-- An entry of a page table or of the TLB. -/
structure TranslationEntry where
  /-- The page number in virtual memory. -/
  virtualPage : Nat
  /-- The page number in real memory. -/
  physicalPage : Nat
  /-- Is the translation in force? -/
  valid : Bool
  /-- The user program may not modify the page. -/
  readOnly : Bool
  /-- Set by the hardware when the page is referenced. -/
  use : Bool
  /-- Set by the hardware when the page is modified. -/
  dirty : Bool
deriving DecidableEq

/-- The exceptions a translation can raise. -/
inductive ExceptionType where
  | pageFaultException
  | readOnlyException
  | busErrorException
  | addressErrorException
deriving DecidableEq

/-- The sizes of a memory access: 1, 2 or 4 bytes. -/
inductive AccessSize where
  | byte
  | half
  | word
deriving DecidableEq

/-- Number of bytes of an access. -/
def AccessSize.bytes : AccessSize → Nat
  | .byte => 1
  | .half => 2
  | .word => 4

/-- The value of the bytes from `a` on: a `char` is sign-extended to an `int`, an `unsigned short` is
zero-extended; simulated machine and host are little-endian. -/
def load (mem : ByteMemory) (a : Nat) : AccessSize → Word
  | .byte => (mem a).toBitVec.signExtend 32
  | .half => ((mem (a + 1)).toBitVec ++ (mem a).toBitVec).setWidth 32
  | .word =>
    ((mem (a + 3)).toBitVec ++ (mem (a + 2)).toBitVec ++ (mem (a + 1)).toBitVec
      ++ (mem a).toBitVec).setWidth 32

/-- The bytes that an access of the given size stores of `value`. -/
def storedBytes (size : AccessSize) (value : Word) : List UInt8 :=
  (List.range size.bytes).map fun i => UInt8.ofBitVec (value.extractLsb' (8 * i) 8)

/-- Store `value` at the address `a`. -/
def store (mem : ByteMemory) (a : Nat) (size : AccessSize) (value : Word) : ByteMemory :=
  blit mem a (storedBytes size value)

/-- Physical memory and TLB. -/
structure Mmu where
  mainMemory : ByteMemory
  tlb : List TranslationEntry

namespace Mmu

/-- The first valid TLB entry of a virtual page, with its index; without one the page faults. -/
def retrievePageEntry (m : Mmu) (vpn : Nat) : Option (Nat × TranslationEntry) := do
  let i ← m.tlb.findIdx? fun e => e.valid && e.virtualPage == vpn
  let e ← m.tlb[i]?
  return (i, e)

/-- Translate a virtual into a physical address. On success the `use` bit of the TLB entry is set,
and its `dirty` bit when the access writes. -/
def translate (m : Mmu) (virtAddr : Nat) (size : AccessSize) (writing : Bool) :
    Except ExceptionType (Nat × Mmu) :=
  -- an access of 2 or 4 bytes has to be aligned
  if virtAddr % size.bytes ≠ 0 then
    .error .addressErrorException
  else
    match m.retrievePageEntry (virtAddr / pageSize) with
    | none => .error .pageFaultException
    | some (i, entry) =>
      if entry.readOnly && writing then
        .error .readOnlyException
      else if entry.physicalPage ≥ numPhysPages then
        .error .busErrorException
      else
        let entry' := { entry with use := true, dirty := entry.dirty || writing }
        .ok (entry.physicalPage * pageSize + virtAddr % pageSize,
          { m with tlb := m.tlb.set i entry' })

/-- `ReadMem`: the value read, or the exception of the translation. -/
def readMem (m : Mmu) (addr : Nat) (size : AccessSize) : Except ExceptionType (Word × Mmu) := do
  let (physicalAddress, m) ← m.translate addr size false
  return (load m.mainMemory physicalAddress size, m)

/-- `WriteMem`: the memory after the write, or the exception of the translation. -/
def writeMem (m : Mmu) (addr : Nat) (size : AccessSize) (value : Word) :
    Except ExceptionType Mmu := do
  let (physicalAddress, m) ← m.translate addr size true
  return { m with mainMemory := store m.mainMemory physicalAddress size value }

end Mmu

end Nachos
