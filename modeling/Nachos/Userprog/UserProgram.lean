import Nachos.Userprog.AddressSpace

/-!
# A user program and its memory

The memory accesses of one user process as the machine executes them: an access that page-faults is
retried after the handler, and between two accesses the scheduler may run kernel threads. The
abstract memory of the process is an array of bytes that starts with the program image.
-/

namespace Nachos

open Foundations

/-- The program image: the byte that `LoadPage` puts at the virtual address `a` of a page that was
never written to swap. -/
def programImage (exe : Executable) : ByteMemory := fun a =>
  match Vm.copyFromExe exe (a / pageSize) 0 (fun _ => 0) with
  | some page => page (a % pageSize)
  | none => 0

/-- What a user process does to its memory. `choice` is what `random()` returns to the random
replacement policy; `switch n` runs `n` kernel threads and then the process again. -/
inductive UserOp where
  | read (addr : Nat) (size : AccessSize) (choice : Nat)
  | write (addr : Nat) (size : AccessSize) (value : Word) (choice : Nat)
  | switch (kernelThreads : Nat)

namespace Vm

/-- An access of the running process: after a page fault the instruction is executed again. -/
def userAccess (policy : PrPolicy) (vm : Vm) (addr : Nat) (size : AccessSize) (value : Option Word)
    (choice : Nat) : Option (Word × Vm) :=
  match vm.access policy addr size value choice with
  | some (some v, vm) => some (v, vm)
  | some (none, vm) =>
    match vm.access policy addr size value choice with
    | some (some v, vm) => some (v, vm)
    | _ => none
  | none => none

/-- The scheduler runs `n` kernel threads one after the other, and then the process `this`. -/
def kernelTurn (vm : Vm) (this : SpaceId) : Nat → Option Vm
  | 0 => vm.switchTo (some this)
  | n + 1 => do
    let vm ← vm.switchTo none
    vm.kernelTurn this n

/-- The values that the process `this` reads, and the state at the end. -/
def userRun (policy : PrPolicy) (this : SpaceId) : Vm → List UserOp → Option (List Word × Vm)
  | vm, [] => some ([], vm)
  | vm, .read addr size choice :: ops => do
    let (v, vm) ← vm.userAccess policy addr size none choice
    let (vs, vm) ← userRun policy this vm ops
    return (v :: vs, vm)
  | vm, .write addr size value choice :: ops => do
    let (_, vm) ← vm.userAccess policy addr size (some value) choice
    userRun policy this vm ops
  | vm, .switch n :: ops => do
    let vm ← vm.kernelTurn this n
    userRun policy this vm ops

/-- The machine boots, and the process `this` starts to run. -/
def startProcess (vm : Vm) (this : SpaceId) (exe : Executable) (swapFD : ByteMemory)
    (heap : Nat → Word) : Option Vm := do
  let vm ← vm.create this exe swapFD heap
  vm.switchTo (some this)

end Vm

/-- The values that the same program reads from an array of bytes. -/
def idealRun : ByteMemory → List UserOp → List Word
  | _, [] => []
  | mem, .read addr size _ :: ops => load mem addr size :: idealRun mem ops
  | mem, .write addr size value _ :: ops => idealRun (store mem addr size value) ops
  | mem, .switch _ :: ops => idealRun mem ops

/-- The accesses are aligned and inside an address space of `numPages` pages. -/
def InsideSpace (numPages : Nat) : UserOp → Prop
  | .read addr size _ => addr % size.bytes = 0 ∧ addr < numPages * pageSize
  | .write addr size _ _ => addr % size.bytes = 0 ∧ addr < numPages * pageSize
  | .switch _ => True

end Nachos
