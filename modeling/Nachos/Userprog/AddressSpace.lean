import Nachos.Userprog.Executable
import Nachos.Vmem.Coremap

/-!
# Address spaces with demand loading and swap

`userprog/address_space.cc` and `PageFaultExeption` of `userprog/exception.cc` in a build with
`USE_TLB`, `DEMAND_LOADING` and `SWAP` over the stub file system, whose swap file is an array of
bytes. A state holds every address space, the coremap, the MMU, the hand of the replacement policy
and the static index of the page-fault handler. A function is `none` where the source fails an
`ASSERT` or accesses memory outside an array or through a null pointer.
-/

namespace Nachos

open Foundations

/-- `USER_STACK_SIZE`. -/
def userStackSize : UInt32 := 2048

/-- An address space. -/
structure AddressSpace where
  exe : Executable
  numPages : Nat
  pageTable : List TranslationEntry
  /-- The contents of the swap file. -/
  swapFD : ByteMemory
  /-- The pages that are in the swap file. -/
  swapMap : Bitmap

/-- Pages of an address space for the executable: its segments and the stack. -/
def Executable.numPages (exe : Executable) : Nat :=
  divRoundUp (exe.getSize + userStackSize).toNat pageSize

/-- The constructor. `swapFD` and `heap` are what the new swap file and the memory allocated for the
words of `swapMap` hold. -/
def AddressSpace.new (exe : Executable) (swapFD : ByteMemory) (heap : Nat → Word) :
    AddressSpace where
  exe := exe
  numPages := exe.numPages
  pageTable := (List.range exe.numPages).map fun i =>
    { virtualPage := i, physicalPage := 2 ^ 32 - 1, valid := false, readOnly := false,
      use := false, dirty := false }
  swapFD := swapFD
  swapMap := Bitmap.new exe.numPages heap

/-- The page replacement policies of the builds. -/
inductive PrPolicy where
  | fifo
  | clock
  | random
deriving DecidableEq

/-- The part of the system that paging works on. -/
structure Vm where
  mmu : Mmu
  /-- The coremap `paginaMapa`. -/
  paginaMapa : Coremap
  /-- The address spaces that exist. -/
  spaces : SpaceId → Option AddressSpace
  /-- The address space of the running thread; `none` for a kernel thread. -/
  current : Option SpaceId
  /-- The hand of the replacement policy. -/
  victima : Nat
  /-- The static `index` of the page-fault handler. -/
  index : Nat

namespace Vm

/-- Replace the address space `id`. -/
def setSpace (vm : Vm) (id : SpaceId) (space : AddressSpace) : Vm :=
  { vm with spaces := Function.update vm.spaces id (some space) }

/-- Replace the TLB. -/
def setTlb (vm : Vm) (tlb : List TranslationEntry) : Vm :=
  { vm with mmu := { vm.mmu with tlb := tlb } }

/-- Replace the page table of the address space `id`. -/
def setPageTable (vm : Vm) (id : SpaceId) (pageTable : List TranslationEntry) : Option Vm := do
  let space ← vm.spaces id
  return vm.setSpace id { space with pageTable := pageTable }

/-- `*&pageTable[vpn] = entry` in the address space `id`. -/
def setEntry (vm : Vm) (id : SpaceId) (vpn : Nat) (entry : TranslationEntry) : Option Vm := do
  let space ← vm.spaces id
  guard (vpn < space.pageTable.length)
  vm.setPageTable id (space.pageTable.set vpn entry)

/-- `pageTable[vpn]` of the address space `id`. -/
def getEntry (vm : Vm) (id : SpaceId) (vpn : Nat) : Option TranslationEntry := do
  let space ← vm.spaces id
  space.pageTable[vpn]?

/-! ## Context switches -/

/-- The loop of `SaveState` over the TLB: the flags of the valid entries go to the page table, and
the entries become invalid. -/
def saveTlb : List TranslationEntry → List TranslationEntry →
    Option (List TranslationEntry × List TranslationEntry)
  | [], pageTable => some ([], pageTable)
  | e :: tlb, pageTable => do
    if e.valid then
      let entry ← pageTable[e.virtualPage]?
      let (tlb, pageTable) ← saveTlb tlb
        (pageTable.set e.virtualPage { entry with dirty := e.dirty, use := e.use })
      return ({ e with valid := false } :: tlb, pageTable)
    else
      let (tlb, pageTable) ← saveTlb tlb pageTable
      return (e :: tlb, pageTable)

/-- `SaveState` of the address space `this`. -/
def saveState (vm : Vm) (this : SpaceId) : Option Vm := do
  let space ← vm.spaces this
  let (tlb, pageTable) ← saveTlb vm.mmu.tlb space.pageTable
  (vm.setTlb tlb).setPageTable this pageTable

/-- `RestoreState`: no TLB entry stays valid. -/
def restoreState (vm : Vm) : Vm :=
  vm.setTlb (vm.mmu.tlb.map fun e => { e with valid := false })

/-- `Scheduler::Run` saves the address space of the thread that leaves, if it has one. -/
def saveCurrent (vm : Vm) : Option Vm :=
  match vm.current with
  | some old => vm.saveState old
  | none => some vm

/-- What `Scheduler::Run` does for the address spaces of the old and the new thread. -/
def switchTo (vm : Vm) (next : Option SpaceId) : Option Vm := do
  let vm ← vm.saveCurrent
  match next with
  | some id =>
    guard (vm.spaces id).isSome
    return { vm with current := next }.restoreState
  | none => return { vm with current := next }

/-! ## Replacement -/

/-- The loop of `EscribirFrameenSwap` over the TLB: a valid entry of the frame has the newer flags, it
is moved to `pageTable[vpn]` of `this`. -/
def moveTlbEntry (vm : Vm) (this : SpaceId) (vpn frame : Nat) : Option Vm :=
  match vm.mmu.tlb.findIdx? fun e => e.physicalPage == frame && e.valid with
  | some i => do
    let e ← vm.mmu.tlb[i]?
    let vm ← vm.setEntry this vpn e
    return vm.setTlb (vm.mmu.tlb.set i { e with valid := false })
  | none => some vm

/-- Write the page `vpn` in `frame` to the swap file of `space`, and record it in its swap map. -/
def writeToSwap (vm : Vm) (space : Option SpaceId) (vpn frame : Nat) : Option Vm := do
  let owner ← space
  let osp ← vm.spaces owner
  guard (vpn < osp.swapMap.numBits)
  return vm.setSpace owner
    { osp with
      swapFD := blit osp.swapFD (vpn * pageSize)
        (slice vm.mmu.mainMemory (frame * pageSize) pageSize)
      swapMap := osp.swapMap.mark vpn }

/-- Send the page in `frame` to the swap file if it is dirty, and invalidate it. The page table that
is read and written is that of `this`; the swap file is that of the frame's owner `space`. -/
def escribirFrameenSwap (vm : Vm) (this : SpaceId) (frame : Nat) : Option Vm := do
  let vpn ← vm.paginaMapa.getVpn frame
  let space ← vm.paginaMapa.getAddressSpace frame
  let vm ← vm.moveTlbEntry this vpn frame
  let entry ← vm.getEntry this vpn
  let vm ← if entry.dirty then vm.writeToSwap space vpn frame else some vm
  vm.setEntry this vpn { entry with dirty := false, valid := false }

/-- Where `TLBSearch` finds the entry of the frame under the hand. -/
inductive EntryRef where
  | tlb (i : Nat)
  | page (vpn : Nat)

/-- `TLBSearch`: the TLB entry of the frame `victima`, else the entry of `this` for the virtual page
that the coremap has for the frame; the inner `none` is the null pointer. -/
def tlbSearch (vm : Vm) : Option (Option EntryRef) :=
  match vm.mmu.tlb.findIdx? fun e => e.valid && e.physicalPage == vm.victima with
  | some i => some (some (.tlb i))
  | none => do
    match ← vm.paginaMapa.getAddressSpace vm.victima with
    | none => return none
    | some _ => return some (.page (← vm.paginaMapa.getVpn vm.victima))

/-- The entry behind a reference. -/
def getRef (vm : Vm) (this : SpaceId) : EntryRef → Option TranslationEntry
  | .tlb i => vm.mmu.tlb[i]?
  | .page vpn => vm.getEntry this vpn

/-- Clear the `use` bit of the entry behind a reference. -/
def clearUse (vm : Vm) (this : SpaceId) : EntryRef → Option Vm
  | .tlb i => do
    let e ← vm.mmu.tlb[i]?
    return vm.setTlb (vm.mmu.tlb.set i { e with use := false })
  | .page vpn => do
    let e ← vm.getEntry this vpn
    vm.setEntry this vpn { e with use := false }

/-- One round of the clock over the frames `p` of the list: `some` frame is the victim. -/
def clockRound (this : SpaceId) (round : Nat) : List Nat → Vm → Option (Option Nat × Vm)
  | [], vm => some (none, vm)
  | p :: ps, vm => do
    match ← vm.tlbSearch with
    | none => clockRound this round ps vm
    | some ref =>
      let entry ← vm.getRef this ref
      let wanted := !entry.use && (entry.dirty == (round == 2 || round == 4))
      if wanted then
        return (some (p % numPhysPages), { vm with victima := (p + 1) % numPhysPages })
      else if round == 2 then
        clockRound this round ps (← vm.clearUse this ref)
      else
        clockRound this round ps vm

/-- The rounds of the clock that are left. -/
def clockRounds (this : SpaceId) : List Nat → Vm → Option (Nat × Vm)
  | [], vm =>
    let vm := { vm with victima := (vm.victima + 1) % numPhysPages }
    some (vm.victima, vm)
  | round :: rounds, vm => do
    match ← clockRound this round ((List.range numPhysPages).map (vm.victima + ·)) vm with
    | (some frame, vm) => return (frame, vm)
    | (none, vm) => clockRounds this rounds vm

/-- `PickVictim` under the policy of the build; `choice` is what `random()` returns. -/
def pickVictim (policy : PrPolicy) (vm : Vm) (this : SpaceId) (choice : Nat) : Option (Nat × Vm) :=
  match policy with
  | .fifo => some (vm.victima, { vm with victima := (vm.victima + 1) % numPhysPages })
  | .clock => clockRounds this [1, 2, 3, 4] vm
  | .random => some (choice % numPhysPages, vm)

/-- Free a frame by sending its page to swap, and give it to the page `vpn` of `this`. -/
def sustitucionEnSwapDeMarcoVictima (policy : PrPolicy) (vm : Vm) (this : SpaceId) (vpn choice : Nat) :
    Option (Nat × Vm) := do
  let (frame, vm) ← vm.pickVictim policy this choice
  let vm ← vm.escribirFrameenSwap this frame
  let paginaMapa ← vm.paginaMapa.mark frame this vpn
  return (frame, { vm with paginaMapa := paginaMapa })

/-! ## Loading a page -/

/-- `bytesCopyCODE` of `LoadPage`: bytes of the code segment in the page at `dirVir`, at most a page.
The arithmetic here is that of 32-bit unsigned integers. -/
def bytesCopyCode (exe : Executable) (dirVir : UInt32) : UInt32 :=
  if exe.header.code.size > 0 ∧ dirVir < exe.header.code.size then
    if 128 < exe.header.code.size - dirVir then 128 else exe.header.code.size - dirVir
  else 0

/-- What `LoadPage` reads of the code segment for the page at `dirVir`. -/
def codeOfPage (exe : Executable) (dirVir : UInt32) : Option (List UInt8) :=
  if exe.header.code.size > 0 ∧ dirVir < exe.header.code.size then
    exe.readCodeBlock (bytesCopyCode exe dirVir) dirVir
  else some []

/-- What `LoadPage` reads of the initialised data for the page at `dirVir`. -/
def dataOfPage (exe : Executable) (dirVir : UInt32) : Option (List UInt8) :=
  let initDataAddr := exe.header.initData.virtualAddr
  let initDataSize := exe.header.initData.size
  let bytesCopyCODE := bytesCopyCode exe dirVir
  if initDataSize > 0 ∧ dirVir + bytesCopyCODE < initDataAddr + initDataSize
      ∧ bytesCopyCODE < 128 then do
    let offset : UInt32 := if bytesCopyCODE > 0 then 0 else dirVir - exe.header.code.size
    let bytesCopyDATA : UInt32 :=
      if initDataSize - offset < 128 - bytesCopyCODE then initDataSize - offset
      else 128 - bytesCopyCODE
    let block ← exe.readDataBlock bytesCopyDATA offset
    guard (bytesCopyCODE + bytesCopyDATA ≤ 128)
    return block
  else some []

/-- The part of `LoadPage` that copies code and data of the executable over a zeroed page at
`dirPhy`. -/
def copyFromExe (exe : Executable) (vpn dirPhy : Nat) (mem : ByteMemory) : Option ByteMemory := do
  let dirVir : UInt32 := UInt32.ofNat vpn * 128
  let code ← codeOfPage exe dirVir
  let data ← dataOfPage exe dirVir
  return blit (blit mem dirPhy code) (dirPhy + (bytesCopyCode exe dirVir).toNat) data

/-- The frame for the page `vpn` of `this`: a free one, or else that of a victim. -/
def obtainFrame (policy : PrPolicy) (vm : Vm) (this : SpaceId) (vpn choice : Nat) :
    Option (Nat × Vm) :=
  match vm.paginaMapa.find this vpn with
  | (some frame, paginaMapa) => some (frame, { vm with paginaMapa := paginaMapa })
  | (none, _) => vm.sustitucionEnSwapDeMarcoVictima policy this vpn choice

/-- What `LoadPage` puts at `dirPhy`: zeros, over them the page from the swap file if it is there,
and code and data of the executable otherwise. -/
def fillFrame (space : AddressSpace) (vpn dirPhy : Nat) (mem : ByteMemory) : Option ByteMemory :=
  let mem := blit mem dirPhy (List.replicate pageSize 0)
  if vpn < space.swapMap.numBits then
    if space.swapMap.test vpn then
      some (blit mem dirPhy (slice space.swapFD (vpn * pageSize) pageSize))
    else
      copyFromExe space.exe vpn dirPhy mem
  else none

/-- `LoadPage`: bring the page `vpn` of `this` into a frame. -/
def loadPage (policy : PrPolicy) (vm : Vm) (this : SpaceId) (vpn choice : Nat) : Option Vm := do
  let entry ← vm.getEntry this vpn
  guard (entry.valid = false)
  let (frame, vm) ← vm.obtainFrame policy this vpn choice
  let entry ← vm.getEntry this vpn
  let vm ← vm.setEntry this vpn { entry with physicalPage := frame, valid := true }
  let space ← vm.spaces this
  let mem ← fillFrame space vpn (frame * pageSize) vm.mmu.mainMemory
  return { vm with mmu := { vm.mmu with mainMemory := mem } }

/-- A valid TLB entry that is about to be overwritten goes back to the page table. -/
def writeBack (vm : Vm) (this : SpaceId) (old : TranslationEntry) : Option Vm :=
  if old.valid then vm.setEntry this old.virtualPage old else some vm

/-- Install the translation of the page `vpn` of `this` in the TLB at `index`. -/
def installEntry (vm : Vm) (this : SpaceId) (vpn : Nat) : Option Vm := do
  let old ← vm.mmu.tlb[vm.index]?
  let vm ← vm.writeBack this old
  let entry ← vm.getEntry this vpn
  return { vm.setTlb (vm.mmu.tlb.set vm.index entry) with index := (vm.index + 1) % tlbSize }

/-- Load the page `vpn` of `this`, with entry `entry`, if it is not in memory. -/
def ensureLoaded (policy : PrPolicy) (vm : Vm) (this : SpaceId) (vpn choice : Nat)
    (entry : TranslationEntry) : Option Vm :=
  if entry.valid then some vm else vm.loadPage policy this vpn choice

/-- `PageFaultExeption` for the page `vpn` of the running process: load the page if it is not in
memory, and install its translation in the TLB. -/
def pageFaultExeption (policy : PrPolicy) (vm : Vm) (vpn choice : Nat) : Option Vm := do
  let this ← vm.current
  let entry ← vm.getEntry this vpn
  let vm ← vm.ensureLoaded policy this vpn choice entry
  vm.installEntry this vpn

/-! ## The system -/

/-- One attempt of the running process to read (`value = none`) or write memory, as
`Machine::ReadMem` and `Machine::WriteMem` make it: the value read, if the access succeeded, and the
state; after a page fault the handler has run and the access can be retried. Any other exception
ends in a failing `ASSERT` of its handler. -/
def access (policy : PrPolicy) (vm : Vm) (addr : Nat) (size : AccessSize) (value : Option Word)
    (choice : Nat) : Option (Option Word × Vm) :=
  match value with
  | none =>
    match vm.mmu.readMem addr size with
    | .ok (v, mmu) => some (some v, { vm with mmu := mmu })
    | .error .pageFaultException => do
      return (none, ← vm.pageFaultExeption policy (addr / pageSize) choice)
    | .error _ => none
  | some v =>
    match vm.mmu.writeMem addr size v with
    | .ok mmu => some (some v, { vm with mmu := mmu })
    | .error .pageFaultException => do
      return (none, ← vm.pageFaultExeption policy (addr / pageSize) choice)
    | .error _ => none

/-- The loop of `~AddressSpace` over the page table. -/
def clearFrames : List TranslationEntry → Coremap → Option Coremap
  | [], paginaMapa => some paginaMapa
  | e :: pageTable, paginaMapa => do
    if e.valid then clearFrames pageTable (← paginaMapa.clear e.physicalPage)
    else clearFrames pageTable paginaMapa

/-- `~AddressSpace`, for an address space that is not the running thread's. -/
def destroy (vm : Vm) (id : SpaceId) : Option Vm := do
  guard (vm.current ≠ some id)
  let space ← vm.spaces id
  let paginaMapa ← clearFrames space.pageTable vm.paginaMapa
  return { vm with paginaMapa := paginaMapa, spaces := Function.update vm.spaces id none }

/-- Create an address space under an unused name. -/
def create (vm : Vm) (id : SpaceId) (exe : Executable) (swapFD : ByteMemory) (heap : Nat → Word) :
    Option Vm := do
  guard (vm.spaces id).isNone
  return vm.setSpace id (AddressSpace.new exe swapFD heap)

/-- What can happen to the paging state. -/
inductive Event where
  | create (id : SpaceId) (exe : Executable) (swapFD : ByteMemory) (heap : Nat → Word)
  | access (addr : Nat) (size : AccessSize) (value : Option Word) (choice : Nat)
  | switchTo (next : Option SpaceId)
  | destroy (id : SpaceId)

/-- The state after an event. -/
def step (policy : PrPolicy) (vm : Vm) : Event → Option Vm
  | .create id exe swapFD heap => vm.create id exe swapFD heap
  | .access addr size value choice => (vm.access policy addr size value choice).map Prod.snd
  | .switchTo next => vm.switchTo next
  | .destroy id => vm.destroy id

/-- The state at boot: no address space, all frames free, no valid TLB entry. The arguments are what
the memory allocated for the coremap and for the TLB held. -/
def boot (heap : Nat → Word) (addrSpaces : Nat → Option SpaceId) (vpns : Nat → Nat)
    (tlb : Nat → TranslationEntry) : Vm where
  mmu :=
    { mainMemory := fun _ => 0
      tlb := (List.range tlbSize).map fun i => { tlb i with valid := false } }
  paginaMapa := Coremap.new numPhysPages heap addrSpaces vpns
  spaces := fun _ => none
  current := none
  victima := 0
  index := 0

end Vm

end Nachos
