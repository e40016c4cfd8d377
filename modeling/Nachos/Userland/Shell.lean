import Mathlib.Data.List.Forall2

/-!
# The arguments of a command

`PrepareArguments` of `userland/shell.c`, which cuts the line into words in place. The memory from `line` on
is a list of bytes, and a read outside of it has no result. What is read is recorded.
-/

namespace Nachos.Userland

/-- `MAX_LINE_SIZE`. -/
def maxLineSize : Nat := 60

/-- `MAX_ARG_COUNT`. -/
def maxArgCount : Nat := 32

/-- `ARG_SEPARATOR`. -/
def argSeparator : UInt8 := 32

/-- The state of the loop. -/
structure Splitting where
  /-- The memory from the start of the line on. -/
  line : List UInt8
  /-- Pointers into the line. -/
  argv : List (Option Nat)
  argCount : Nat
  i : Nat
  /-- The indices of the bytes that have been read. -/
  reads : List Nat

/-- `line[i]` has been read. -/
def Splitting.noteRead (s : Splitting) : Splitting := { s with reads := s.reads ++ [s.i] }

/-- `while(line[++i] == ARG_SEPARATOR);`. -/
def skipSeparators : Nat → Splitting → Option Splitting
  | 0, _ => none
  | fuel + 1, s => do
    let s := { s with i := s.i + 1 }
    let c ← s.line[s.i]?
    let s := s.noteRead
    if c = argSeparator then skipSeparators fuel s else return s

/-- `if(line[i] != '\0') argv[argCount++] = &line[i];`, where the byte is `c`. -/
def Splitting.addArgument (s : Splitting) (c : UInt8) : Splitting :=
  if c ≠ 0 then { s with argv := s.argv.set s.argCount (some s.i), argCount := s.argCount + 1 } else s

/-- The loop of `PrepareArguments`, and what comes after it. -/
def splitLoop (argvSize : Nat) : Nat → Splitting → Option (Nat × Splitting)
  | 0, _ => none
  | fuel + 1, s => do
    let c ← s.line[s.i]?
    let s := s.noteRead
    if c = 0 then return (0, { s with argv := s.argv.set s.argCount none })
    else if c = argSeparator then
      if s.argCount = argvSize - 1 then return (1, s)
      else
        let s ← skipSeparators fuel { s with line := s.line.set s.i 0 }
        let c ← s.line[s.i]?
        let s := s.noteRead.addArgument c
        splitLoop argvSize fuel { s with i := s.i + 1 }
    else splitLoop argvSize fuel { s with i := s.i + 1 }

/-- `PrepareArguments`. The index grows in each round, so that there are no more rounds than bytes. -/
def prepareArguments (line : List UInt8) (argv : List (Option Nat)) (argvSize : Nat) :
    Option (Nat × Splitting) :=
  let s := { line := line, argv := argv, argCount := 0, i := 0, reads := [] }
  if argvSize > maxArgCount then some (1, s) else splitLoop argvSize line.length s

/-! ## Words -/

/-- The words of a line. -/
def words (line : List UInt8) : List (List UInt8) :=
  (line.splitOn argSeparator).filter (· ≠ [])

/-- There is the string `w` at `p`, with a zero behind it. -/
def IsString (memory : List UInt8) (p : Nat) (w : List UInt8) : Prop :=
  ∃ more, memory.drop p = w ++ 0 :: more

/-- `argv` is an array of these strings, with a null pointer behind it. -/
def HoldsArguments (s : Splitting) (ws : List (List UInt8)) : Prop :=
  ∃ starts more, s.argv = List.map some starts ++ none :: more ∧ List.Forall₂ (IsString s.line) starts ws

/-- `PrepareArguments` splits a line: it reads the line only, and either refuses it because there are too
many arguments, or gives the words behind the first. -/
def SplitsArguments (line rest : List UInt8) (argv : List (Option Nat)) : Prop :=
  ∃ v s, prepareArguments (line ++ 0 :: rest) argv maxArgCount = some (v, s) ∧
    (∀ r ∈ s.reads, r ≤ line.length) ∧
    ((v = 1 ∧ maxArgCount - 1 < (words line).tail.length) ∨ (v = 0 ∧ HoldsArguments s (words line).tail))

end Nachos.Userland
