import Mathlib.Logic.Function.Basic
import Nachos.Lib.Bitmap

/-!
# Transfers between the kernel and a user program

`userprog/transfer.cc` and `SaveArgs` of `userprog/args.cc`, over the memory that a user program sees:
the byte at each virtual address, or nothing where no number of tries makes `ReadMem` and `WriteMem`
succeed. A failed `ASSERT` makes a function `none`.
-/

namespace Nachos

/-- The memory of a user program. -/
abbrev UserMemory := Word → Option UInt8

/-! ## Buffers and strings -/

/-- The loop of `ReadBufferFromUser`. -/
def readBytes (mem : UserMemory) (userAddress : Word) : Nat → Option (List UInt8)
  | 0 => some []
  | n + 1 => do
    let b ← mem userAddress
    let bs ← readBytes mem (userAddress + 1#32) n
    return b :: bs

/-- `ReadBufferFromUser`. -/
def readBufferFromUser (mem : UserMemory) (userAddress : Word) (byteCount : Nat) :
    Option (List UInt8) := do
  guard (userAddress ≠ 0#32)
  guard (byteCount ≠ 0)
  readBytes mem userAddress byteCount

/-- The loop of `ReadStringFromUser` over at most `n` bytes: the bytes before the terminator, and
whether there was one. -/
def readChars (mem : UserMemory) (userAddress : Word) : Nat → Option (List UInt8 × Bool)
  | 0 => some ([], false)
  | n + 1 => do
    let b ← mem userAddress
    if b = 0 then
      return ([], true)
    else
      let (bs, terminated) ← readChars mem (userAddress + 1#32) n
      return (b :: bs, terminated)

/-- `ReadStringFromUser`: the bytes in `outString`, and the answer. -/
def readStringFromUser (mem : UserMemory) (userAddress : Word) (maxByteCount : Nat) :
    Option (List UInt8 × Bool) := do
  guard (userAddress ≠ 0#32)
  guard (maxByteCount ≠ 0)
  readChars mem userAddress maxByteCount

/-- The loop of `WriteBufferToUser`. -/
def writeBytes (mem : UserMemory) (userAddress : Word) : List UInt8 → Option UserMemory
  | [] => some mem
  | b :: bs => do
    guard (mem userAddress).isSome
    writeBytes (Function.update mem userAddress (some b)) (userAddress + 1#32) bs

/-- `WriteBufferToUser` of a whole buffer. -/
def writeBufferToUser (mem : UserMemory) (buffer : List UInt8) (userAddress : Word) :
    Option UserMemory := do
  guard (userAddress ≠ 0#32)
  guard (buffer ≠ [])
  writeBytes mem userAddress buffer

/-- The memory in the course of a transfer to the user, and the addresses that were written, in order. -/
structure Written where
  mem : UserMemory
  addresses : List Word

/-- `WriteMem` of a byte. -/
def Written.writeByte (w : Written) (a : Word) (b : UInt8) : Option Written := do
  guard (w.mem a).isSome
  return { mem := Function.update w.mem a (some b), addresses := w.addresses ++ [a] }

/-- The loop of `WriteStringToUser`: its condition is the byte after the one that has been written. The list is what
the kernel buffer holds; behind it nothing can be read. -/
def writeChars (w : Written) (userAddress : Word) : List UInt8 → Option Written
  | [] => none
  | b :: string => do
    let w ← w.writeByte userAddress b
    let next ← string.head?
    if next = 0 then
      return w
    else
      writeChars w (userAddress + 1#32) string

/-- `WriteStringToUser`. -/
def writeStringToUser (mem : UserMemory) (string : List UInt8) (userAddress : Word) : Option Written := do
  guard (userAddress ≠ 0#32)
  writeChars { mem := mem, addresses := [] } userAddress string

/-! ## Arguments of a program -/

/-- `MAX_ARG_COUNT`. -/
def maxArgCount : Nat := 32

/-- `MAX_ARG_LENGTH`. -/
def maxArgLength : Nat := 128

/-- The word at an address. -/
def wordAt (mem : UserMemory) (address : Word) : Option Word := do
  let b0 ← mem address
  let b1 ← mem (address + 1#32)
  let b2 ← mem (address + 2#32)
  let b3 ← mem (address + 3#32)
  return BitVec.ofNat 32
    (b0.toNat + 2 ^ 8 * b1.toNat + 2 ^ 16 * b2.toNat + 2 ^ 24 * b3.toNat)

/-- `ReadMem` of a word: the handler of an alignment error stops the kernel. -/
def readWord (mem : UserMemory) (address : Word) : Option Word := do
  guard (address.toNat % 4 = 0)
  wordAt mem address

/-- The loop of `CountArgsToSave` over at most `n` words: those before the null, and whether there was
one. -/
def readPointers (mem : UserMemory) (address : Word) : Nat → Option (List Word × Bool)
  | 0 => some ([], false)
  | n + 1 => do
    let val ← readWord mem address
    if val = 0#32 then
      return ([], true)
    else
      let (ps, terminated) ← readPointers mem (address + 4#32) n
      return (val :: ps, terminated)

/-- `SaveArgs`: the strings, or a null pointer if there are too many of them. -/
def saveArgs (mem : UserMemory) (address : Word) : Option (Option (List (List UInt8))) := do
  guard (address ≠ 0#32)
  let (ps, terminated) ← readPointers mem address maxArgCount
  if terminated then
    let args ← ps.mapM fun p => readStringFromUser mem p maxArgLength
    return some (args.map Prod.fst)
  else
    return none

/-! ## Readable memory -/

/-- The bytes of a buffer are in the address space. -/
def BufferReadable (mem : UserMemory) (a : Word) (n : Nat) : Prop :=
  ∀ i, i < n → (mem (a + BitVec.ofNat 32 i)).isSome

/-- The bytes of a string are in the address space, up to its terminator or the first `n` of them. -/
def StringReadable (mem : UserMemory) (a : Word) (n : Nat) : Prop :=
  ∀ i, i < n → (∀ j, j < i → mem (a + BitVec.ofNat 32 j) ≠ some 0) → (mem (a + BitVec.ofNat 32 i)).isSome

/-- The words of an array of strings are in the address space, up to its null or the first
`MAX_ARG_COUNT` of them, and the strings are. -/
def ArgsReadable (mem : UserMemory) (a : Word) : Prop :=
  ∀ c, c < maxArgCount → (∀ d, d < c → wordAt mem (a + BitVec.ofNat 32 (4 * d)) ≠ some 0#32) →
    ∃ p, wordAt mem (a + BitVec.ofNat 32 (4 * c)) = some p ∧
      (p ≠ 0#32 → StringReadable mem p maxArgLength)

end Nachos
