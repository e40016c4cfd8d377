import Nachos.Userprog.AddressSpace

/-!
# The clock

What `PickVictim` should do under `PRPOLICY_CLOCK`: the `use` and `dirty` bits of a frame are those of its TLB
entry, or else those of its owner's page table, and the victim is chosen by the bits of the frames.
-/

namespace Nachos.Vm

/-- A translation entry of the TLB or of some page table. -/
inductive Slot where
  | tlb (i : Nat)
  | page (owner : SpaceId) (vpn : Nat)
deriving DecidableEq

/-- The entry in a slot. -/
def slotEntry (vm : Vm) : Slot → Option TranslationEntry
  | .tlb i => vm.mmu.tlb[i]?
  | .page owner vpn => vm.getEntry owner vpn

/-- Where the bits of a frame are: in its TLB entry, or else in the page table of its owner. -/
def frameSlot (vm : Vm) (frame : Nat) : Slot :=
  match vm.mmu.tlb.findIdx? fun e => e.valid && e.physicalPage == frame with
  | some i => .tlb i
  | none => .page ((vm.paginaMapa.addrSpaces frame).getD 0) (vm.paginaMapa.vpns frame)

/-- The entry with the bits of a frame. -/
def frameEntry (vm : Vm) (frame : Nat) : Option TranslationEntry := vm.slotEntry (vm.frameSlot frame)

/-- The slot that `TLBSearch` of `this` finds: always that of the frame under the hand, in the page table of
`this` whoever owns the frame. -/
def handSlot (vm : Vm) (this : SpaceId) : Slot :=
  match vm.mmu.tlb.findIdx? fun e => e.valid && e.physicalPage == vm.victima with
  | some i => .tlb i
  | none => .page this (vm.paginaMapa.vpns vm.victima)

/-- No frame is free. -/
structure Full (vm : Vm) : Prop where
  hand : vm.victima < numPhysPages
  size : vm.paginaMapa.size = numPhysPages
  marked : ∀ frame < numPhysPages, vm.paginaMapa.framesMap.test frame = true
  owned : ∀ frame < numPhysPages, (vm.paginaMapa.addrSpaces frame).isSome

/-- All frames are occupied, each by a page of its owner's page table. -/
structure Occupied (vm : Vm) : Prop extends Full vm where
  entry : ∀ frame < numPhysPages, (vm.frameEntry frame).isSome

/-- The frame is neither used nor dirty. -/
def Clean (vm : Vm) (frame : Nat) : Prop := ∃ e, vm.frameEntry frame = some e ∧ e.use = false ∧ e.dirty = false

/-- The frame is not used. -/
def Unused (vm : Vm) (frame : Nat) : Prop := ∃ e, vm.frameEntry frame = some e ∧ e.use = false

/-- Some frame is neither used nor dirty. -/
def AnyClean (vm : Vm) : Prop := ∃ frame, frame < numPhysPages ∧ vm.Clean frame

/-- `PickVictim` chooses by the bits of the frames: one that is neither used nor dirty if there is one, else
one that is not used in the end; and the hand stops behind it. -/
def ChoosesByFrame (vm : Vm) (this : SpaceId) (choice : Nat) : Prop :=
  ∃ frame vm', vm.pickVictim .clock this choice = some (frame, vm') ∧
    (vm.AnyClean → vm.Clean frame) ∧ (¬ vm.AnyClean → vm'.Unused frame) ∧
    vm'.victima = (frame + 1) % numPhysPages

/-- The frame that the clock takes when the entry it looks at is `entry`. -/
def taken (vm : Vm) (entry : TranslationEntry) : Nat :=
  if entry.use && entry.dirty then (vm.victima + 1) % numPhysPages else vm.victima

end Nachos.Vm
