import Nachos.Machine.MipsSim

/-!
# The arithmetic of MIPS I

What the architecture defines for the instructions that compute: how they are encoded, which operands they
have and which result. The results are in terms of integers and bits, not of the operations of the host.
-/

namespace Nachos.Mips

open Foundations

/-! ## The fields of an instruction word -/

def opField (w : Word) : BitVec 6 := w.extractLsb' 26 6

def rsField (w : Word) : RegNum := w.extractLsb' 21 5

def rtField (w : Word) : RegNum := w.extractLsb' 16 5

def rdField (w : Word) : RegNum := w.extractLsb' 11 5

def shamtField (w : Word) : BitVec 5 := w.extractLsb' 6 5

def functField (w : Word) : BitVec 6 := w.extractLsb' 0 6

def immediateField (w : Word) : BitVec 16 := w.extractLsb' 0 16

/-- The instructions with operation field 0. -/
def registerOp (funct : BitVec 6) : Option OpCode :=
  match funct.toNat with
  | 0x00 => some .sll
  | 0x02 => some .srl
  | 0x03 => some .sra
  | 0x04 => some .sllv
  | 0x06 => some .srlv
  | 0x07 => some .srav
  | 0x1A => some .div
  | 0x1B => some .divu
  | 0x20 => some .add
  | 0x21 => some .addu
  | 0x22 => some .sub
  | 0x23 => some .subu
  | 0x24 => some .and
  | 0x25 => some .or
  | 0x26 => some .xor
  | 0x27 => some .nor
  | 0x2A => some .slt
  | 0x2B => some .sltu
  | _ => none

/-- The instructions with an immediate. -/
def immediateOp (op : BitVec 6) : Option OpCode :=
  match op.toNat with
  | 0x08 => some .addi
  | 0x09 => some .addiu
  | 0x0A => some .slti
  | 0x0B => some .sltiu
  | 0x0C => some .andi
  | 0x0D => some .ori
  | 0x0E => some .xori
  | 0x0F => some .lui
  | _ => none

/-- The instruction that a word encodes, if it is one of those that compute. -/
def arithmeticOp (w : Word) : Option OpCode :=
  if opField w = 0 then registerOp (functField w) else immediateOp (opField w)

/-- The instructions that compute, but for the multiplications. -/
def arithmeticOps : List OpCode :=
  [.add, .addi, .addiu, .addu, .sub, .subu, .and, .andi, .or, .ori, .xor, .xori, .nor, .lui, .slt, .slti,
    .sltiu, .sltu, .sll, .sllv, .sra, .srav, .srl, .srlv, .div, .divu]

/-! ## Results -/

/-- The result of an instruction. -/
inductive Result where
  | write (n : RegNum) (value : Word)
  | hiLo (hi lo : Word)
  | overflow

/-- The result is an integer that has to fit. -/
def Result.checked (n : RegNum) (z : Int) : Result :=
  if -2 ^ 31 ≤ z ∧ z < 2 ^ 31 then .write n (BitVec.ofInt 32 z) else .overflow

/-- The truth value of a comparison. -/
def truth (p : Prop) [Decidable p] : Word := if p then 1 else 0

/-- By how much an instruction shifts: the field of the word, or the low bits of a register. -/
def shiftAmount (o : OpCode) (w rs : Word) : Nat :=
  if o = .sll ∨ o = .sra ∨ o = .srl then (shamtField w).toNat else rs.toNat % 32

/-- What the architecture defines for the operation `o` of the word `w`, where `rs` and `rt` are the contents
of the two source registers. -/
def operationResult (o : OpCode) (w rs rt : Word) : Option Result :=
  let rd := rdField w
  let dest := rtField w
  let signed := (immediateField w).signExtend 32
  let unsigned := (immediateField w).setWidth 32
  match o with
  | .add => some (.checked rd (rs.toInt + rt.toInt))
  | .addi => some (.checked dest (rs.toInt + signed.toInt))
  | .sub => some (.checked rd (rs.toInt - rt.toInt))
  | .addu => some (.write rd (rs + rt))
  | .addiu => some (.write dest (rs + signed))
  | .subu => some (.write rd (rs - rt))
  | .and => some (.write rd (rs &&& rt))
  | .andi => some (.write dest (rs &&& unsigned))
  | .or => some (.write rd (rs ||| rt))
  | .ori => some (.write dest (rs ||| unsigned))
  | .xor => some (.write rd (rs ^^^ rt))
  | .xori => some (.write dest (rs ^^^ unsigned))
  | .nor => some (.write rd (~~~(rs ||| rt)))
  | .lui => some (.write dest (immediateField w ++ (0 : BitVec 16)))
  | .slt => some (.write rd (truth (rs.toInt < rt.toInt)))
  | .slti => some (.write dest (truth (rs.toInt < signed.toInt)))
  | .sltu => some (.write rd (truth (rs.toNat < rt.toNat)))
  | .sltiu => some (.write dest (truth (rs.toNat < signed.toNat)))
  | .sll | .sllv => some (.write rd (rt <<< shiftAmount o w rs))
  | .srl | .srlv => some (.write rd (rt >>> shiftAmount o w rs))
  | .sra | .srav => some (.write rd (rt.sshiftRight (shiftAmount o w rs)))
  | .div => some (.hiLo (BitVec.ofInt 32 (rs.toInt.tmod rt.toInt)) (BitVec.ofInt 32 (rs.toInt.tdiv rt.toInt)))
  | .divu => some (.hiLo (rs % rt) (rs / rt))
  | _ => none

/-- What the architecture defines for a word in a state of the registers. -/
def architectureResult (r : Registers) (w : Word) : Option Result := do
  let o ← arithmeticOp w
  operationResult o w (r.gpr (rsField w)) (r.gpr (rtField w))

/-- The machine meets the architecture at the instruction `w`: it completes with the result in the
destination register, or in the registers for quotient and remainder, or raises the exception without
writing a register. Register 0 is never written. -/
def MeetsArchitecture (s : Machine) (w : Word) : Prop :=
  match architectureResult s.regs w with
  | none => False
  | some (.write n value) =>
    ∃ s', s.execInstruction (decode w) = .completed s' ∧ s'.regs.gpr n = if n = 0 then 0 else value
  | some (.hiLo hi lo) =>
    ∃ s', s.execInstruction (decode w) = .completed s' ∧ s'.regs.hi = hi ∧ s'.regs.lo = lo
  | some .overflow => s.execInstruction (decode w) = .raised .overflow (s.regs.trap 0 s.mmu)

/-! ## Where the simulator differs -/

/-- A logical shift to the right of a negative word. -/
def ShiftsSign (r : Registers) (w : Word) : Prop :=
  ∃ o ∈ [OpCode.srl, OpCode.srlv], arithmeticOp w = some o ∧ shiftAmount o w (r.gpr (rsField w)) ≠ 0 ∧
    (r.gpr (rtField w)).msb = true

/-- A signed division whose quotient does not fit. -/
def DivisionOverflows (r : Registers) (w : Word) : Prop :=
  arithmeticOp w = some .div ∧ r.gpr (rsField w) = BitVec.intMin 32 ∧ r.gpr (rtField w) = -1

/-- The instruction writes register `n`, and a load of it is pending: then the loaded value has to be the
result. Else the instruction must not shift the sign in. -/
def WritesResult (r : Registers) (w : Word) : Prop :=
  ∀ n value, architectureResult r w = some (.write n value) →
    n = 0 ∨ (r.loadReg = n ∧ r.loadValue = value) ∨ (r.loadReg ≠ n ∧ ¬ ShiftsSign r w)

end Nachos.Mips
