import Nachos.Filesys.FileSystem
import Nachos.Userprog.AddressSpace

/-!
# Swap files on the real file system

`userprog/address_space.cc` in the build of `filesys/Makefile` (`FILESYS`, `USE_TLB`, `DEMAND_LOADING`,
`SWAP`): the swap file of an address space is a file of the file system, made by the constructor and
accessed with `WriteAt` and `ReadAt`. What does not touch the swap file is that of
`Nachos.Userprog.AddressSpace`; its byte array `AddressSpace.swapFD` is the swap file of the stub file
system and is not used here.
-/

namespace Nachos

open Foundations Filesys Resumption

/-- The paging state with the file system. -/
structure FsVm where
  vm : Vm
  world : World
  /-- `swapFD` of each address space. -/
  swapFD : SpaceId → Option FileId
  /-- Not in the source: what the frame of a page held when the page was last sent to swap. -/
  evicted : SpaceId → Nat → Option (List UInt8)

namespace FsVm

/-! ## The swap file -/

/-- `snprintf(nameSwapPid, FILE_NAME_MAX_LEN, "SWAP.%u", pid)`. -/
def nameSwapPid (pid : UInt32) : Name :=
  ("SWAP.".toList ++ Nat.toDigits 10 pid.toNat).map (fun c => UInt8.ofNat c.toNat) |>.take
    (fileNameMaxLen - 1)

/-- The part of the constructor that makes and opens the swap file. The size that it passes to `Create`
is not used there. -/
def newSwapFile (me : Filesys.Tid) (pid : UInt32) : Fs FileId := do
  let _ ← remove me (nameSwapPid pid)
  let created ← Filesys.create me (nameSwapPid pid)
  assert created
  let swapFD ← openFile (nameSwapPid pid)
  ofOption swapFD

/-- The constructor, under an unused name `id`. -/
def create (sys : FsVm) (me : Filesys.Tid) (id : SpaceId) (pid : UInt32) (exe : Executable)
    (heap : Nat → Word) : Option FsVm := do
  let vm ← sys.vm.create id exe (fun _ => 0) heap
  let (swapFD, world) ← (newSwapFile me pid).run sys.world
  return {
    vm := vm
    world := world
    swapFD := Function.update sys.swapFD id (some swapFD)
    evicted := Function.update sys.evicted id fun _ => none }

/-! ## Replacement -/

/-- Write the page `vpn` in `frame` to the swap file of `space`, and record it in its swap map. The
number of bytes written is not looked at. -/
def writeToSwap (sys : FsVm) (space : Option SpaceId) (vpn frame : Nat) : Option FsVm := do
  let owner ← space
  let osp ← sys.vm.spaces owner
  let swapFD ← sys.swapFD owner
  let page := slice sys.vm.mmu.mainMemory (frame * pageSize) pageSize
  let (_, world) ← (writeAt swapFD page (vpn * pageSize)).run sys.world
  guard (vpn < osp.swapMap.numBits)
  return { sys with
    vm := sys.vm.setSpace owner { osp with swapMap := osp.swapMap.mark vpn }
    world := world
    evicted := Function.update sys.evicted owner
      (Function.update (sys.evicted owner) vpn (some page)) }

/-- Send the page in `frame` to the swap file if it is dirty, and invalidate it. -/
def escribirFrameenSwap (sys : FsVm) (this : SpaceId) (frame : Nat) : Option FsVm := do
  let vpn ← sys.vm.paginaMapa.getVpn frame
  let space ← sys.vm.paginaMapa.getAddressSpace frame
  let vm ← sys.vm.moveTlbEntry this vpn frame
  let entry ← vm.getEntry this vpn
  let sys := { sys with vm := vm }
  let sys ← if entry.dirty then sys.writeToSwap space vpn frame else some sys
  let vm ← sys.vm.setEntry this vpn { entry with dirty := false, valid := false }
  return { sys with vm := vm }

/-- Free a frame by sending its page to swap, and give it to the page `vpn` of `this`. -/
def sustitucionEnSwapDeMarcoVictima (policy : PrPolicy) (sys : FsVm) (this : SpaceId)
    (vpn choice : Nat) : Option (Nat × FsVm) := do
  let (frame, vm) ← sys.vm.pickVictim policy this choice
  let sys ← { sys with vm := vm }.escribirFrameenSwap this frame
  let paginaMapa ← sys.vm.paginaMapa.mark frame this vpn
  return (frame, { sys with vm := { sys.vm with paginaMapa := paginaMapa } })

/-! ## Loading a page -/

/-- The frame for the page `vpn` of `this`: a free one, or else that of a victim. -/
def obtainFrame (policy : PrPolicy) (sys : FsVm) (this : SpaceId) (vpn choice : Nat) :
    Option (Nat × FsVm) :=
  match sys.vm.paginaMapa.find this vpn with
  | (some frame, paginaMapa) => some (frame, { sys with vm := { sys.vm with paginaMapa := paginaMapa } })
  | (none, _) => sys.sustitucionEnSwapDeMarcoVictima policy this vpn choice

/-- What `LoadPage` puts over the zeroed page at `dirPhy`: the page from the swap file if it is there,
as far as it is there, and code and data of the executable otherwise. -/
def pageContents (sys : FsVm) (this : SpaceId) (space : AddressSpace) (vpn dirPhy : Nat)
    (mem : ByteMemory) : Option (ByteMemory × World) :=
  if space.swapMap.test vpn then do
    let swapFD ← sys.swapFD this
    let (bs, world) ← (readAt swapFD pageSize (vpn * pageSize)).run sys.world
    return (blit mem dirPhy bs, world)
  else do
    let mem ← Vm.copyFromExe space.exe vpn dirPhy mem
    return (mem, sys.world)

/-- The part of `LoadPage` that fills the frame at `dirPhy`. -/
def fillFrame (sys : FsVm) (this : SpaceId) (vpn dirPhy : Nat) : Option FsVm := do
  let space ← sys.vm.spaces this
  guard (vpn < space.swapMap.numBits)
  let mem := blit sys.vm.mmu.mainMemory dirPhy (List.replicate pageSize 0)
  let (mem, world) ← sys.pageContents this space vpn dirPhy mem
  return { sys with
    vm := { sys.vm with mmu := { sys.vm.mmu with mainMemory := mem } }
    world := world }

/-- `LoadPage`: bring the page `vpn` of `this` into a frame. -/
def loadPage (policy : PrPolicy) (sys : FsVm) (this : SpaceId) (vpn choice : Nat) : Option FsVm := do
  let entry ← sys.vm.getEntry this vpn
  guard (entry.valid = false)
  let (frame, sys) ← sys.obtainFrame policy this vpn choice
  let entry ← sys.vm.getEntry this vpn
  let vm ← sys.vm.setEntry this vpn { entry with physicalPage := frame, valid := true }
  { sys with vm := vm }.fillFrame this vpn (frame * pageSize)

/-- Load the page `vpn` of `this`, with entry `entry`, if it is not in memory. -/
def ensureLoaded (policy : PrPolicy) (sys : FsVm) (this : SpaceId) (vpn choice : Nat)
    (entry : TranslationEntry) : Option FsVm :=
  if entry.valid then some sys else sys.loadPage policy this vpn choice

/-- `PageFaultExeption` for the page `vpn` of the running process. -/
def pageFaultExeption (policy : PrPolicy) (sys : FsVm) (vpn choice : Nat) : Option FsVm := do
  let this ← sys.vm.current
  let entry ← sys.vm.getEntry this vpn
  let sys ← sys.ensureLoaded policy this vpn choice entry
  let vm ← sys.vm.installEntry this vpn
  return { sys with vm := vm }

/-! ## The system -/

/-- One attempt of the running process to read (`value = none`) or write memory. -/
def access (policy : PrPolicy) (sys : FsVm) (addr : Nat) (size : AccessSize) (value : Option Word)
    (choice : Nat) : Option FsVm :=
  match value with
  | none =>
    match sys.vm.mmu.readMem addr size with
    | .ok (_, mmu) => some { sys with vm := { sys.vm with mmu := mmu } }
    | .error .pageFaultException => sys.pageFaultExeption policy (addr / pageSize) choice
    | .error _ => none
  | some v =>
    match sys.vm.mmu.writeMem addr size v with
    | .ok mmu => some { sys with vm := { sys.vm with mmu := mmu } }
    | .error .pageFaultException => sys.pageFaultExeption policy (addr / pageSize) choice
    | .error _ => none

/-- `~AddressSpace`: the swap file is neither closed nor removed. -/
def destroy (sys : FsVm) (id : SpaceId) : Option FsVm := do
  let vm ← sys.vm.destroy id
  return { sys with vm := vm }

/-- What can happen to the paging state. -/
inductive Event where
  | create (me : Filesys.Tid) (id : SpaceId) (pid : UInt32) (exe : Executable) (heap : Nat → Word)
  | access (addr : Nat) (size : AccessSize) (value : Option Word) (choice : Nat)
  | switchTo (next : Option SpaceId)
  | destroy (id : SpaceId)

/-- The state after an event. -/
def step (policy : PrPolicy) (sys : FsVm) : Event → Option FsVm
  | .create me id pid exe heap => sys.create me id pid exe heap
  | .access addr size value choice => sys.access policy addr size value choice
  | .switchTo next => (sys.vm.switchTo next).map fun vm => { sys with vm := vm }
  | .destroy id => sys.destroy id

/-- The bytes in the frame of a page that is in memory. -/
def page (sys : FsVm) (id : SpaceId) (vpn : Nat) : Option (List UInt8) := do
  let entry ← sys.vm.getEntry id vpn
  guard entry.valid
  return slice sys.vm.mmu.mainMemory (entry.physicalPage * pageSize) pageSize

end FsVm

end Nachos
