import Nachos.Userprog.Clock

/-!
# Page table accesses of the page-fault path

The page numbers with which `PageFaultExeption`, `LoadPage`, `EscribirFrameenSwap` and `TLBSearch` index a
page table, in their order. All four index the table of the faulting process `this`. A list ends where the
source fails an `ASSERT` or has indexed outside the table.
-/

namespace Nachos.Vm

/-- `&pageTable[vpn]` of `TLBSearch`. -/
def tlbSearchIndices (vm : Vm) : List Nat :=
  match vm.tlbSearch with
  | some (some (.page vpn)) => [vpn]
  | _ => []

/-- The accesses of a round of the clock. -/
def clockRoundIndices (this : SpaceId) (round : Nat) : List Nat → Vm → List Nat
  | [], _ => []
  | p :: ps, vm => vm.tlbSearchIndices ++
    match clockRound this round [p] vm with
    | some (none, vm) => clockRoundIndices this round ps vm
    | _ => []

/-- The accesses of the rounds that are left. -/
def clockIndices (this : SpaceId) : List Nat → Vm → List Nat
  | [], _ => []
  | round :: rounds, vm =>
    let frames := (List.range numPhysPages).map (vm.victima + ·)
    clockRoundIndices this round frames vm ++
      match clockRound this round frames vm with
      | some (none, vm) => clockIndices this rounds vm
      | _ => []

/-- The accesses of `PickVictim`. -/
def pickVictimIndices (policy : PrPolicy) (vm : Vm) (this : SpaceId) : List Nat :=
  match policy with
  | .clock => clockIndices this [1, 2, 3, 4] vm
  | _ => []

/-- `pageTable[vpn]` of `EscribirFrameenSwap`: the page number that the coremap has for the frame. -/
def escribirFrameenSwapIndices (vm : Vm) (frame : Nat) : List Nat := (vm.paginaMapa.getVpn frame).toList

/-- The accesses of `SustitucionEnSwapDeMarcoVictima`. -/
def sustitucionIndices (policy : PrPolicy) (vm : Vm) (this : SpaceId) (choice : Nat) : List Nat :=
  vm.pickVictimIndices policy this ++
    match vm.pickVictim policy this choice with
    | some (frame, vm) => vm.escribirFrameenSwapIndices frame
    | none => []

/-- The accesses of `LoadPage(vpn)`. -/
def loadPageIndices (policy : PrPolicy) (vm : Vm) (this : SpaceId) (vpn choice : Nat) : List Nat :=
  vpn ::
    match vm.paginaMapa.find this vpn with
    | (some _, _) => []
    | (none, _) => vm.sustitucionIndices policy this choice

/-- `pageTable[victimaVirtual]` of `PageFaultExeption`: the page of a valid TLB entry that is overwritten. -/
def installEntryIndices (vm : Vm) : List Nat :=
  match vm.mmu.tlb[vm.index]? with
  | some old => if old.valid then [old.virtualPage] else []
  | none => []

/-- The accesses of `PageFaultExeption` for the page `vpn` of `this`. -/
def pageFaultIndices (policy : PrPolicy) (vm : Vm) (this : SpaceId) (vpn choice : Nat) : List Nat :=
  vpn ::
    match vm.getEntry this vpn with
    | none => []
    | some entry =>
      (if entry.valid then [] else vm.loadPageIndices policy this vpn choice) ++
        match vm.ensureLoaded policy this vpn choice entry with
        | some vm => vm.installEntryIndices
        | none => []

/-- A fault at `addr` stays inside an address space of `numPages` pages: it indexes the page table with page
numbers below `numPages` only, and a fault behind the last page is an error that indexes nothing. -/
def StaysInside (policy : PrPolicy) (vm : Vm) (this : SpaceId) (numPages addr choice : Nat) : Prop :=
  (∀ vpn ∈ vm.pageFaultIndices policy this (addr / pageSize) choice, vpn < numPages) ∧
    (numPages * pageSize ≤ addr → vm.pageFaultIndices policy this (addr / pageSize) choice = [])

/-- The pages that the policy looks at and evicts have numbers below `numPages`. -/
def VictimInside (policy : PrPolicy) (vm : Vm) (this : SpaceId) (numPages choice : Nat) : Prop :=
  match policy with
  | .fifo => vm.paginaMapa.vpns vm.victima < numPages
  | .random => vm.paginaMapa.vpns (choice % numPhysPages) < numPages
  | .clock => ∃ entry, vm.slotEntry (vm.handSlot this) = some entry ∧
    vm.paginaMapa.vpns (vm.taken entry) < numPages

/-- The address is in the address space, and if the fault has to evict a page then its number is one of this
address space too. -/
def FaultInside (policy : PrPolicy) (vm : Vm) (this : SpaceId) (numPages addr choice : Nat) : Prop :=
  addr < numPages * pageSize ∧
    (∀ entry, vm.getEntry this (addr / pageSize) = some entry → entry.valid = false →
      (vm.paginaMapa.find this (addr / pageSize)).1 = none → vm.VictimInside policy this numPages choice)

end Nachos.Vm
