import Nachos.Userprog.AddressSpace

/-!
# Eager loading

The constructor of `AddressSpace` in a build without `DEMAND_LOADING`: every page gets a frame, the frames
are cleared, and the code and the initialised data of the executable are copied byte by byte. A function
is `none` where the source fails an `ASSERT` or reads outside the page table.
-/

namespace Nachos

open Foundations

/-- `pageTable[i].physicalPage` for the pages of the address space: each gets a frame that was free. -/
def findFrames : Nat → Bitmap → Option (List Nat × Bitmap)
  | 0, paginaMapa => some ([], paginaMapa)
  | n + 1, paginaMapa => do
    let r := paginaMapa.find
    let newPag ← r.1
    let (frames, paginaMapa) ← findFrames n r.2
    return (newPag :: frames, paginaMapa)

/-- Fill the frames with zeros. -/
def clearPages (frames : List Nat) (mem : ByteMemory) : ByteMemory :=
  frames.foldl (fun mem frame => blit mem (frame * pageSize) (List.replicate pageSize 0)) mem

/-- The loop that copies a segment at `virtualAddr`: `n` bytes are left, the next one is byte `i`, which
`readBlock` reads. -/
def copySegment (frames : List Nat) (readBlock : UInt32 → UInt32 → Option (List UInt8))
    (virtualAddr : UInt32) : Nat → UInt32 → ByteMemory → Option ByteMemory
  | 0, _, mem => some mem
  | n + 1, i, mem => do
    let frame ← frames[((virtualAddr + i) / 128).toNat]?
    let block ← readBlock 1 i
    copySegment frames readBlock virtualAddr n (i + 1)
      (blit mem (frame * pageSize + ((virtualAddr + i) % 128).toNat) block)

/-- The frames of the pages and the memory after the constructor. -/
def AddressSpace.loadEagerly (exe : Executable) (paginaMapa : Bitmap) (mem : ByteMemory) :
    Option (List Nat × ByteMemory) := do
  guard (exe.numPages ≤ paginaMapa.countClear)
  let (frames, _) ← findFrames exe.numPages paginaMapa
  let mem ← copySegment frames exe.readCodeBlock exe.header.code.virtualAddr exe.header.code.size.toNat 0
    (clearPages frames mem)
  let mem ← copySegment frames exe.readDataBlock exe.header.initData.virtualAddr
    exe.header.initData.size.toNat 0 mem
  return (frames, mem)

/-- The file has the bytes of the segment. -/
def NoffSegment.Delivered (seg : NoffSegment) (file : List UInt8) : Prop :=
  ∀ i, i < seg.size.toNat → seg.inFileAddr.toNat + i < file.length ∧ seg.inFileAddr.toNat + i < 2 ^ 32

/-- An executable as the linker script lays it out: the code is at address 0 and the initialised data
behind it, the addresses do not overflow, and the file has the bytes of both segments. -/
structure Executable.Linked (exe : Executable) : Prop where
  code_addr : exe.header.code.virtualAddr = 0
  data_addr : exe.header.initData.virtualAddr = exe.header.code.size
  size_lt : exe.header.code.size.toNat + exe.header.initData.size.toNat +
    exe.header.uninitData.size.toNat + userStackSize.toNat < 2 ^ 32
  code_file : exe.header.code.Delivered exe.file
  data_file : exe.header.initData.Delivered exe.file

/-- The byte at a virtual address of a new process: code, then initialised data, then zeros. -/
def Executable.byteAt (exe : Executable) (a : Nat) : UInt8 :=
  let code := exe.header.code
  let initData := exe.header.initData
  if a < code.size.toNat then exe.file.getD (code.inFileAddr.toNat + a) 0
  else if a < code.size.toNat + initData.size.toNat then
    exe.file.getD (initData.inFileAddr.toNat + (a - code.size.toNat)) 0
  else 0

/-- The bytes of page `v` of a new process. -/
def Executable.page (exe : Executable) (v : Nat) : List UInt8 :=
  (List.range pageSize).map fun i => exe.byteAt (v * pageSize + i)

/-- `LoadPage(v)` of the address space `this` with the program `exe`: the page is not in memory, it gets
`frame`, and it is not in the swap file then, in `vm1`. -/
structure Vm.FirstLoad (policy : PrPolicy) (choice : Nat) (exe : Executable) (this : SpaceId) (v frame : Nat)
    (vm vm1 : Vm) : Prop where
  space : ∃ sp, vm.spaces this = some sp ∧ sp.exe = exe ∧ sp.pageTable.length = exe.numPages ∧
    sp.swapMap.numBits = exe.numPages
  invalid : ∃ e, vm.getEntry this v = some e ∧ e.valid = false
  obtained : vm.obtainFrame policy this v choice = some (frame, vm1)
  unswapped : ∀ sp, vm1.spaces this = some sp → sp.swapMap.test v = false

end Nachos
