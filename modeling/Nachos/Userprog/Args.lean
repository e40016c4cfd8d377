import Nachos.Foundations.ByteList
import Nachos.Userprog.AddressSpace
import Nachos.Userprog.Transfer

/-!
# The arguments of a program

`SaveArgs` and `WriteArgs` of `userprog/args.cc` with `WriteStringToUser`, and `RutinaHiloSCExec` of
`userprog/exception.cc`. The strings stand in buffers of the kernel that hold garbage where they have not
been written. A failed `ASSERT` and a read outside of a buffer stop the kernel in the state that it has
reached.
-/

namespace Nachos

open Foundations

/-! ## The parent -/

/-- What `new char [MAX_ARG_LENGTH]` holds, given the garbage on the heap. -/
def newCharBuffer (garbage : Nat → UInt8) : List UInt8 := (List.range maxArgLength).map garbage

/-- The buffer into which `ReadStringFromUser` has written what it has read. -/
def savedString (garbage : Nat → UInt8) (string : List UInt8 × Bool) : List UInt8 :=
  let written := string.1 ++ if string.2 then [0] else []
  written ++ (newCharBuffer garbage).drop written.length

/-- The buffers of the strings. -/
def savedStrings (heap : Nat → Nat → UInt8) (strings : List (List UInt8 × Bool)) : List (List UInt8) :=
  strings.mapIdx fun i string => savedString (heap i) string

/-- `SaveArgs`: the buffers, or a null pointer if there are too many strings. -/
def saveArgBuffers (heap : Nat → Nat → UInt8) (mem : UserMemory) (address : Word) :
    Option (Option (List (List UInt8))) := do
  guard (address ≠ 0#32)
  let (ps, terminated) ← readPointers mem address maxArgCount
  if terminated then
    let strings ← ps.mapM fun p => readStringFromUser mem p maxArgLength
    return some (savedStrings heap strings)
  else
    return none

/-! ## The child -/

/-- The address space of a new process, and its stack register. -/
structure Child where
  numPages : Nat
  mem : ByteMemory
  /-- `STACK_REG`. -/
  stackReg : Int
  /-- The addresses of the bytes that the kernel has written. -/
  written : List Nat
  /-- Addresses are of type `int`. -/
  top_le : numPages * pageSize ≤ 2 ^ 31

namespace Child

/-- The end of the address space. -/
def top (c : Child) : Nat := c.numPages * pageSize

/-- A new address space with the given contents, after `InitRegisters`. -/
def start (c : Child) (image : ByteMemory) : Child :=
  { c with mem := image, stackReg := c.top - 16, written := [] }

/-- Bytes are written. -/
def put (c : Child) (a : Nat) (bs : List UInt8) : Child :=
  { c with mem := blit c.mem a bs, written := c.written ++ (List.range bs.length).map (a + ·) }

/-- `WriteMem` of a byte. -/
def writeByte (c : Child) (a : Int) (b : UInt8) : Option Child :=
  if 0 ≤ a ∧ a < c.top then some (c.put a.toNat [b]) else none

/-- `WriteMem` of a word. -/
def writeWord (c : Child) (a value : Int) : Option Child :=
  if 0 ≤ a ∧ a < c.top ∧ a.toNat % 4 = 0 then some (c.put a.toNat (le32 (value % 2 ^ 32).toNat)) else none

/-- The loop of `WriteStringToUser`. The byte after the one that has been written is the condition. -/
def writeStringLoop (c : Child) (userAddress : Int) : List UInt8 → Except Child Child
  | [] => .error c
  | b :: string =>
    match c.writeByte userAddress b with
    | none => .error c
    | some c =>
      if string = [] then .error c
      else if string.head? = some 0 then .ok c
      else c.writeStringLoop (userAddress + 1) string

/-- `WriteStringToUser`. -/
def writeStringToUser (c : Child) (string : List UInt8) (userAddress : Int) : Except Child Child :=
  if userAddress = 0 then .error c else c.writeStringLoop userAddress string

end Child

/-- `strlen`. -/
def strlen (string : List UInt8) : Option Nat :=
  if 0 ∈ string then some (string.takeWhile (· ≠ 0)).length else none

/-- The state of `WriteArgs` after strings have been written. -/
structure Pushed where
  child : Child
  sp : Int
  argsAddress : List Int

/-- The first loop of `WriteArgs`. -/
def pushStrings (c : Child) (sp : Int) : List (List UInt8) → Except Child Pushed
  | [] => .ok { child := c, sp := sp, argsAddress := [] }
  | arg :: args =>
    match strlen arg with
    | none => .error c
    | some n => do
      let c ← c.writeStringToUser arg (sp - (n + 1))
      let p ← pushStrings c (sp - (n + 1)) args
      return { p with argsAddress := (sp - (n + 1)) :: p.argsAddress }

/-- The second loop of `WriteArgs`, and the null pointer behind it. A write that fails has no effect. -/
def writePointers (c : Child) (sp : Int) : List Int → Child
  | [] => (c.writeWord sp 0).getD c
  | a :: addresses => writePointers ((c.writeWord sp a).getD c) (sp + 4) addresses

/-- `WriteArgs`. -/
def writeArgs (c : Child) (args : List (List UInt8)) : Except Child (Nat × Child) := do
  let p ← pushStrings c c.stackReg args
  if maxArgCount ≤ args.length then .error p.child
  else
    let sp := p.sp - p.sp.tmod 4
    let sp := sp - (args.length * 4 + 4)
    return (args.length, { writePointers p.child sp p.argsAddress with stackReg := sp })

/-- The child when `RutinaHiloSCExec` starts its program. -/
structure Started where
  child : Child
  r4 : Nat
  r5 : Int

/-- `RutinaHiloSCExec` of a process with arguments, after `InitRegisters`. -/
def rutinaHiloSCExec (c : Child) (args : List (List UInt8)) : Except Child Started := do
  let r ← writeArgs c args
  return { child := { r.2 with stackReg := r.2.stackReg - 24 }, r4 := r.1, r5 := r.2.stackReg }

/-! ## Arguments in memory -/

/-- There is the string at `p` in the memory of a user program, with a zero behind it. -/
def UserString (mem : UserMemory) : Word → List UInt8 → Prop
  | p, [] => mem p = some 0
  | p, b :: w => b ≠ 0 ∧ mem p = some b ∧ UserString mem (p + 1#32) w

/-- There is an array of pointers to the strings, with a null pointer behind it. -/
def UserStrings (mem : UserMemory) : Word → List (List UInt8) → Prop
  | a, [] => wordAt mem a = some 0#32
  | a, w :: ws => ∃ p, wordAt mem a = some p ∧ p ≠ 0#32 ∧ UserString mem p w ∧ UserStrings mem (a + 4#32) ws

/-- The argument `argv` of `Exec`: an array in memory, which is aligned. -/
structure HoldsArgv (mem : UserMemory) (address : Word) (ws : List (List UInt8)) : Prop where
  ne_zero : address ≠ 0#32
  aligned : address.toNat % 4 = 0
  strings : UserStrings mem address ws

namespace Child

/-- There is the string at `p` in the address space, with a zero behind it. -/
structure HoldsString (c : Child) (p : Nat) (w : List UInt8) : Prop where
  bytes : slice c.mem p (w.length + 1) = w ++ [0]
  inside : p + w.length < c.top

/-- From the stack pointer on, which is aligned, there are pointers to the strings and a null pointer. -/
def HoldsArgs (c : Child) (ws : List (List UInt8)) : Prop :=
  ∃ sp ps : _, c.stackReg = Int.ofNat sp ∧ sp % 4 = 0 ∧ sp + 4 * (ps.length + 1) ≤ c.top ∧
    slice c.mem sp (4 * (ps.length + 1)) = packWords (ps ++ [0]) ∧ List.Forall₂ c.HoldsString ps ws

/-- The stack is the last `USER_STACK_SIZE` bytes of the address space. -/
def InStack (c : Child) (a : Int) : Prop := 0 ≤ a ∧ (c.top : Int) ≤ a + userStackSize.toNat ∧ a < c.top

instance (c : Child) (a : Int) : Decidable (c.InStack a) := inferInstanceAs (Decidable (_ ∧ _ ∧ _))

/-- The stack is zero in these contents of the address space. -/
def ZeroStack (c : Child) (image : ByteMemory) : Prop := ∀ a : Nat, c.InStack a → image a = 0

end Child

/-- `Exec` passes the arguments: there are too many, or they arrive. -/
def PassesArgs (heap : Nat → Nat → UInt8) (mem : UserMemory) (address : Word) (ws : List (List UInt8))
    (c : Child) : Prop :=
  saveArgBuffers heap mem address = some none ∨
    ∃ args child, saveArgBuffers heap mem address = some (some args) ∧
      writeArgs c args = .ok (ws.length, child) ∧ child.HoldsArgs ws

/-- Only the stack has been written, and the stack pointer points into it if the program is started. -/
def StaysInStack (c : Child) : Except Child Started → Prop
  | .ok s => (∀ a ∈ s.child.written, c.InStack a) ∧ c.InStack s.child.stackReg
  | .error c' => ∀ a ∈ c'.written, c.InStack a

/-! ## The place that arguments take -/

/-- The bytes of strings with their terminators. -/
def bytesOf (ws : List (List UInt8)) : Nat := (ws.map fun w => w.length + 1).sum

/-- The bytes from the end of the address space down to the array of pointers. -/
def argsSize (ws : List (List UInt8)) : Nat := divRoundUp (16 + bytesOf ws) 4 * 4 + 4 * (ws.length + 1)

/-- The strings are neither empty nor too long, the last terminator is in the stack, and all is in the
address space. -/
structure ArgsFit (c : Child) (ws : List (List UInt8)) : Prop where
  strings : ∀ w ∈ ws, w ≠ [] ∧ w.length < maxArgLength
  terminators : 16 + bytesOf ws.dropLast + 1 ≤ userStackSize.toNat
  space : argsSize ws ≤ c.top

/-- A string does not fit in the address space, and those before it are in the stack. -/
def StopsInStack (c : Child) (ws : List (List UInt8)) : Prop :=
  ∃ pre w post, ws = pre ++ w :: post ∧ 16 + bytesOf pre ≤ userStackSize.toNat ∧
    c.top ≤ 16 + bytesOf (pre ++ [w])

end Nachos
