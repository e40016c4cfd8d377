import Nachos.Machine.Mmu

/-!
# The MIPS simulator

`machine/mips_sim.cc` with `machine/instruction.cc` and the tables of `machine/encoding.cc`. The registers
are 32-bit words; an `int` of the host is in two's complement and wraps around. `LOAD_REG` names a general
register. What the kernel does when it is called is not part of the simulator: a call of a handler ends the
execution of an instruction.
-/

namespace Nachos.Mips

open Foundations

/-! ## Encoding -/

/-- The values of `opCode` that an instruction can have. -/
inductive OpCode where
  | add | addi | addiu | addu | and | andi | beq | bgez | bgezal | bgtz | blez | bltz | bltzal | bne
  | div | divu | j | jal | jalr | jr | lb | lbu | lh | lhu | lui | lw | lwl | lwr | mfhi | mflo
  | mthi | mtlo | mult | multu | nor | or | ori | sb | sh | sll | sllv | slt | slti | sltiu | sltu
  | sra | srav | srl | srlv | sub | subu | sw | swl | swr | xor | xori | syscall | unimp | res
deriving DecidableEq

/-- An entry of `OP_TABLE`: `SPECIAL`, `BCOND` or an operation. -/
inductive OpField where
  | special
  | bcond
  | op (o : OpCode)
deriving DecidableEq

inductive Format where
  | ifmt
  | jfmt
  | rfmt
deriving DecidableEq

open OpCode OpField Format in
/-- `OP_TABLE`. -/
def opTable : List (OpField × Format) :=
  [(special, rfmt), (bcond, ifmt), (op j, jfmt), (op jal, jfmt),
    (op beq, ifmt), (op bne, ifmt), (op blez, ifmt), (op bgtz, ifmt),
    (op addi, ifmt), (op addiu, ifmt), (op slti, ifmt), (op sltiu, ifmt),
    (op andi, ifmt), (op ori, ifmt), (op xori, ifmt), (op lui, ifmt),
    (op unimp, ifmt), (op unimp, ifmt), (op unimp, ifmt), (op unimp, ifmt),
    (op res, ifmt), (op res, ifmt), (op res, ifmt), (op res, ifmt),
    (op res, ifmt), (op res, ifmt), (op res, ifmt), (op res, ifmt),
    (op res, ifmt), (op res, ifmt), (op res, ifmt), (op res, ifmt),
    (op lb, ifmt), (op lh, ifmt), (op lwl, ifmt), (op lw, ifmt),
    (op lbu, ifmt), (op lhu, ifmt), (op lwr, ifmt), (op res, ifmt),
    (op sb, ifmt), (op sh, ifmt), (op swl, ifmt), (op sw, ifmt),
    (op res, ifmt), (op res, ifmt), (op swr, ifmt), (op res, ifmt),
    (op unimp, ifmt), (op unimp, ifmt), (op unimp, ifmt), (op unimp, ifmt),
    (op res, ifmt), (op res, ifmt), (op res, ifmt), (op res, ifmt),
    (op unimp, ifmt), (op unimp, ifmt), (op unimp, ifmt), (op unimp, ifmt),
    (op res, ifmt), (op res, ifmt), (op res, ifmt), (op res, ifmt)]

open OpCode in
/-- `SPECIAL_TABLE`. -/
def specialTable : List OpCode :=
  [sll, res, srl, sra, sllv, res, srlv, srav,
    jr, jalr, res, res, syscall, unimp, res, res,
    mfhi, mthi, mflo, mtlo, res, res, res, res,
    mult, multu, div, divu, res, res, res, res,
    add, addu, sub, subu, OpCode.and, OpCode.or, OpCode.xor, nor,
    res, res, slt, sltu, res, res, res, res,
    res, res, res, res, res, res, res, res,
    res, res, res, res, res, res, res, res]

/-- The number of a general register. -/
abbrev RegNum := BitVec 5

/-- `Instruction`. -/
structure Instruction where
  opCode : OpCode
  rs : RegNum
  rt : RegNum
  rd : RegNum
  /-- Immediate, target, shift amount or offset. -/
  extra : Word
deriving DecidableEq

/-- The field `extra` of an instruction of the given format. -/
def decodeExtra (value : Word) : Format → Word
  | .ifmt =>
    let extra := value &&& 0xFFFF
    if extra &&& 0x8000 ≠ 0 then extra ||| 0xFFFF0000 else extra
  | .rfmt => value >>> 6 &&& 0x1F
  | .jfmt => value &&& 0x3FFFFFF

/-- The operation of an instruction with the given entry of `OP_TABLE`. -/
def decodeOpCode (value : Word) : OpField → OpCode
  | .special => specialTable.getD (value &&& 0x3F).toNat .res
  | .bcond =>
    let i := value &&& 0x1F0000
    if i = 0 then .bltz
    else if i = 0x10000 then .bgez
    else if i = 0x100000 then .bltzal
    else if i = 0x110000 then .bgezal
    else .unimp
  | .op o => o

/-- `Instruction::Decode`. -/
def decode (value : Word) : Instruction :=
  let opPtr := opTable.getD (value >>> 26 &&& 0x3F).toNat (.op .res, .ifmt)
  { opCode := decodeOpCode value opPtr.1
    rs := (value >>> 21 &&& 0x1F).setWidth 5
    rt := (value >>> 16 &&& 0x1F).setWidth 5
    rd := (value >>> 11 &&& 0x1F).setWidth 5
    extra := decodeExtra value opPtr.2 }

/-! ## Registers -/

/-- `RET_ADDR_REG`. -/
def retAddrReg : RegNum := 31

/-- The registers of the machine. -/
structure Registers where
  /-- The general registers. -/
  gpr : RegNum → Word
  hi : Word
  lo : Word
  pc : Word
  nextPc : Word
  prevPc : Word
  /-- The register target of a delayed load; register 0 if there is none. -/
  loadReg : RegNum
  loadValue : Word
  badVAddr : Word

namespace Registers

/-- Write a general register. -/
def set (r : Registers) (n : RegNum) (value : Word) : Registers :=
  { r with gpr := fun x => if x = n then value else r.gpr x }

theorem gpr_set (r : Registers) (n : RegNum) (value : Word) (x : RegNum) :
    (r.set n value).gpr x = if x = n then value else r.gpr x := rfl

/-- `Machine::DelayedLoad`. -/
def delayedLoad (r : Registers) (nextReg : RegNum) (nextValue : Word) : Registers :=
  { r.set r.loadReg r.loadValue with loadReg := nextReg, loadValue := nextValue }.set 0 0

/-- What `RaiseException` does to the registers before it calls the handler. -/
def raise (r : Registers) (badVAddr : Word) : Registers := { r with badVAddr := badVAddr }.delayedLoad 0 0

end Registers

/-! ## Execution -/

/-- The exceptions that an instruction can raise. -/
inductive Exception where
  | mmu (e : ExceptionType)
  | overflow
  | syscall
  | illegalInstr
deriving DecidableEq

/-- The ways in which the `switch` does not reach its end. -/
inductive Stop where
  /-- `RaiseException` is called. -/
  | exception (e : Exception) (badVAddr : Word) (mmu : Mmu)
  /-- An assertion fails. -/
  | assertion
  /-- The division of the host overflows. -/
  | hostOverflow

/-- What the `switch` leaves. -/
structure Executed where
  regs : Registers
  mmu : Mmu
  pcAfter : Word
  nextLoadReg : RegNum
  nextLoadValue : Word

/-- `Machine::ReadMem`. -/
def readMem (m : Mmu) (addr : Word) (size : AccessSize) : Except Stop (Word × Mmu) :=
  match m.readMem addr.toNat size with
  | .error e => .error (.exception (.mmu e) addr m)
  | .ok r => .ok r

/-- `Machine::WriteMem`. -/
def writeMem (m : Mmu) (addr : Word) (size : AccessSize) (value : Word) : Except Stop Mmu :=
  match m.writeMem addr.toNat size value with
  | .error e => .error (.exception (.mmu e) addr m)
  | .ok r => .ok r

/-- `IndexToAddr`. -/
def indexToAddr (x : Word) : Word := x <<< 2

/-- `x & SIGN_BIT`. -/
def signBit (x : Word) : Bool := x &&& 0x80000000 ≠ 0

/-- The state of the loop of `Mult`. -/
structure MultState where
  a : Word
  bLo : Word
  bHi : Word
  lo : Word
  hi : Word

/-- The loop of `Mult`. The `int` that is shifted right keeps its sign. -/
def multLoop : Nat → MultState → MultState
  | 0, s => s
  | n + 1, s =>
    let s :=
      if s.a &&& 1 ≠ 0 then
        let lo := s.lo + s.bLo
        { s with lo := lo, hi := (if lo < s.bLo then s.hi + 1 else s.hi) + s.bHi }
      else s
    if s.a &&& 1 ≠ 0 ∧ s.a &&& 0xFFFFFFFE = 0 then s
    else
      let bHi := s.bHi <<< 1
      multLoop n
        { s with
          a := s.a.sshiftRight 1
          bLo := s.bLo <<< 1
          bHi := if s.bLo &&& 0x80000000 ≠ 0 then bHi ||| 1 else bHi }

/-- `Mult`: the high and the low word of the product. -/
def mult (a b : Word) (signedArith : Bool) : Word × Word :=
  if a = 0 ∨ b = 0 then (0, 0)
  else
    let negative := signedArith && (a.msb != b.msb)
    let a := if signedArith && a.msb then -a else a
    let b := if signedArith && b.msb then -b else b
    let s := multLoop 32 { a := a, bLo := b, bHi := 0, lo := 0, hi := 0 }
    if negative then
      let lo := ~~~s.lo + 1
      (if lo = 0 then ~~~s.hi + 1 else ~~~s.hi, lo)
    else (s.hi, s.lo)

namespace Registers

variable (r : Registers) (m : Mmu)

/-- The end of the `switch` in an instruction that neither jumps nor loads. -/
def done : Except Stop Executed :=
  .ok { regs := r, mmu := m, pcAfter := r.nextPc + 4, nextLoadReg := 0, nextLoadValue := 0 }

/-- The end of the `switch` in an instruction that goes on at `pcAfter`. -/
def jump (pcAfter : Word) : Except Stop Executed :=
  .ok { regs := r, mmu := m, pcAfter := pcAfter, nextLoadReg := 0, nextLoadValue := 0 }

/-- The end of the `switch` in a branch instruction. -/
def branch (i : Instruction) (taken : Bool) : Except Stop Executed :=
  r.jump m (if taken then r.nextPc + indexToAddr i.extra else r.nextPc + 4)

/-- The end of the `switch` in a load instruction. -/
def delay (nextReg : RegNum) (nextValue : Word) : Except Stop Executed :=
  .ok { regs := r, mmu := m, pcAfter := r.nextPc + 4, nextLoadReg := nextReg, nextLoadValue := nextValue }

/-- `RaiseException`. -/
def exception (e : Exception) (badVAddr : Word) : Except Stop Executed := .error (.exception e badVAddr m)

/-- `LB` and `LBU`. -/
def loadByte (i : Instruction) : Except Stop Executed := do
  let (value, m) ← readMem m (r.gpr i.rs + i.extra) .byte
  r.delay m i.rt (if value &&& 0x80 ≠ 0 ∧ i.opCode = .lb then value ||| 0xFFFFFF00 else value &&& 0xFF)

/-- `LH` and `LHU`. -/
def loadHalf (i : Instruction) : Except Stop Executed :=
  let tmp := r.gpr i.rs + i.extra
  if tmp &&& 0x1 ≠ 0 then exception m (.mmu .addressErrorException) tmp
  else do
    let (value, m) ← readMem m tmp .half
    r.delay m i.rt (if value &&& 0x8000 ≠ 0 ∧ i.opCode = .lh then value ||| 0xFFFF0000 else value &&& 0xFFFF)

/-- `LW`. -/
def loadWord (i : Instruction) : Except Stop Executed :=
  let tmp := r.gpr i.rs + i.extra
  if tmp &&& 0x3 ≠ 0 then exception m (.mmu .addressErrorException) tmp
  else do
    let (value, m) ← readMem m tmp .word
    r.delay m i.rt value

/-- The value that `LWL` and `LWR` merge with: that of a pending load, if it is for the same register. -/
def pendingValue (i : Instruction) : Word := if r.loadReg = i.rt then r.loadValue else r.gpr i.rt

/-- The switch of `LWL`. -/
def mergeLeft (tmp nextLoadValue value : Word) : Word :=
  if tmp &&& 0x3 = 0 then value
  else if tmp &&& 0x3 = 1 then (nextLoadValue &&& 0xFF) ||| value <<< 8
  else if tmp &&& 0x3 = 2 then (nextLoadValue &&& 0xFFFF) ||| value <<< 16
  else (nextLoadValue &&& 0xFFFFFF) ||| value <<< 24

/-- The switch of `LWR`. -/
def mergeRight (tmp nextLoadValue value : Word) : Word :=
  if tmp &&& 0x3 = 0 then (nextLoadValue &&& 0xFFFFFF00) ||| (value.sshiftRight 24 &&& 0xFF)
  else if tmp &&& 0x3 = 1 then (nextLoadValue &&& 0xFFFF0000) ||| (value.sshiftRight 16 &&& 0xFFFF)
  else if tmp &&& 0x3 = 2 then (nextLoadValue &&& 0xFF000000) ||| (value.sshiftRight 8 &&& 0xFFFFFF)
  else value

/-- `LWL` and `LWR`. -/
def loadPart (merge : Word → Word → Word → Word) (i : Instruction) : Except Stop Executed :=
  let tmp := r.gpr i.rs + i.extra
  if tmp &&& 0x3 ≠ 0 then .error .assertion
  else do
    let (value, m) ← readMem m tmp .word
    r.delay m i.rt (merge tmp (r.pendingValue i) value)

/-- `SB`, `SH` and `SW`. -/
def storeValue (size : AccessSize) (i : Instruction) : Except Stop Executed := do
  let m ← writeMem m (r.gpr i.rs + i.extra) size (r.gpr i.rt)
  r.done m

/-- The switch of `SWL`. -/
def splitLeft (tmp value reg : Word) : Word :=
  if tmp &&& 0x3 = 0 then reg
  else if tmp &&& 0x3 = 1 then (value &&& 0xFF000000) ||| (reg.sshiftRight 8 &&& 0xFFFFFF)
  else if tmp &&& 0x3 = 2 then (value &&& 0xFFFF0000) ||| (reg.sshiftRight 16 &&& 0xFFFF)
  else (value &&& 0xFFFFFF00) ||| (reg.sshiftRight 24 &&& 0xFF)

/-- The switch of `SWR`. -/
def splitRight (tmp value reg : Word) : Word :=
  if tmp &&& 0x3 = 0 then (value &&& 0xFFFFFF) ||| reg <<< 24
  else if tmp &&& 0x3 = 1 then (value &&& 0xFFFF) ||| reg <<< 16
  else if tmp &&& 0x3 = 2 then (value &&& 0xFF) ||| reg <<< 8
  else reg

/-- `SWL` and `SWR`. -/
def storePart (split : Word → Word → Word → Word) (i : Instruction) : Except Stop Executed :=
  let tmp := r.gpr i.rs + i.extra
  if tmp &&& 0x3 ≠ 0 then .error .assertion
  else do
    let (value, m) ← readMem m (tmp &&& ~~~0x3) .word
    let m ← writeMem m (tmp &&& ~~~0x3) .word (split tmp value (r.gpr i.rt))
    r.done m

/-- The quotient of the host, which the host cannot compute if it does not fit. -/
def divide (a b : Word) : Except Stop (Word × Word) :=
  if a = BitVec.intMin 32 ∧ b = -1 then .error .hostOverflow
  else .ok (BitVec.ofInt 32 (a.toInt.tdiv b.toInt), BitVec.ofInt 32 (a.toInt.tmod b.toInt))

end Registers

open Registers in
/-- The `switch` of `Machine::ExecInstruction`. -/
def execSwitch (r : Registers) (m : Mmu) (i : Instruction) : Except Stop Executed :=
  match i.opCode with
  | .add =>
    let sum := r.gpr i.rs + r.gpr i.rt
    if ¬ signBit (r.gpr i.rs ^^^ r.gpr i.rt) ∧ signBit (r.gpr i.rs ^^^ sum) then exception m .overflow 0
    else (r.set i.rd sum).done m
  | .addi =>
    let sum := r.gpr i.rs + i.extra
    if ¬ signBit (r.gpr i.rs ^^^ i.extra) ∧ signBit (i.extra ^^^ sum) then exception m .overflow 0
    else (r.set i.rt sum).done m
  | .addiu => (r.set i.rt (r.gpr i.rs + i.extra)).done m
  | .addu => (r.set i.rd (r.gpr i.rs + r.gpr i.rt)).done m
  | .and => (r.set i.rd (r.gpr i.rs &&& r.gpr i.rt)).done m
  | .andi => (r.set i.rt (r.gpr i.rs &&& (i.extra &&& 0xFFFF))).done m
  | .beq => r.branch m i (r.gpr i.rs == r.gpr i.rt)
  | .bgezal =>
    let r := r.set retAddrReg (r.nextPc + 4)
    r.branch m i (!signBit (r.gpr i.rs))
  | .bgez => r.branch m i (!signBit (r.gpr i.rs))
  | .bgtz => r.branch m i (BitVec.slt 0 (r.gpr i.rs))
  | .blez => r.branch m i (BitVec.sle (r.gpr i.rs) 0)
  | .bltzal =>
    let r := r.set retAddrReg (r.nextPc + 4)
    r.branch m i (signBit (r.gpr i.rs))
  | .bltz => r.branch m i (signBit (r.gpr i.rs))
  | .bne => r.branch m i (r.gpr i.rs != r.gpr i.rt)
  | .div =>
    if r.gpr i.rt = 0 then { r with lo := 0, hi := 0 }.done m
    else do
      let q ← divide (r.gpr i.rs) (r.gpr i.rt)
      { r with lo := q.1, hi := q.2 }.done m
  | .divu =>
    if r.gpr i.rt = 0 then { r with lo := 0, hi := 0 }.done m
    else { r with lo := r.gpr i.rs / r.gpr i.rt, hi := r.gpr i.rs % r.gpr i.rt }.done m
  | .jal =>
    let r := r.set retAddrReg (r.nextPc + 4)
    r.jump m (((r.nextPc + 4) &&& 0xF0000000) ||| indexToAddr i.extra)
  | .j => r.jump m (((r.nextPc + 4) &&& 0xF0000000) ||| indexToAddr i.extra)
  | .jalr =>
    let r := r.set i.rd (r.nextPc + 4)
    r.jump m (r.gpr i.rs)
  | .jr => r.jump m (r.gpr i.rs)
  | .lb | .lbu => r.loadByte m i
  | .lh | .lhu => r.loadHalf m i
  | .lui => (r.set i.rt (i.extra <<< 16)).done m
  | .lw => r.loadWord m i
  | .lwl => r.loadPart m mergeLeft i
  | .lwr => r.loadPart m mergeRight i
  | .mfhi => (r.set i.rd r.hi).done m
  | .mflo => (r.set i.rd r.lo).done m
  | .mthi => { r with hi := r.gpr i.rs }.done m
  | .mtlo => { r with lo := r.gpr i.rs }.done m
  | .mult =>
    let p := mult (r.gpr i.rs) (r.gpr i.rt) true
    { r with hi := p.1, lo := p.2 }.done m
  | .multu =>
    let p := mult (r.gpr i.rs) (r.gpr i.rt) false
    { r with hi := p.1, lo := p.2 }.done m
  | .nor => (r.set i.rd (~~~(r.gpr i.rs ||| r.gpr i.rt))).done m
  | .or => (r.set i.rd (r.gpr i.rs ||| r.gpr i.rt)).done m
  | .ori => (r.set i.rt (r.gpr i.rs ||| (i.extra &&& 0xFFFF))).done m
  | .sb => r.storeValue m .byte i
  | .sh => r.storeValue m .half i
  | .sll => (r.set i.rd (r.gpr i.rt <<< i.extra.toNat)).done m
  | .sllv => (r.set i.rd (r.gpr i.rt <<< (r.gpr i.rs &&& 0x1F).toNat)).done m
  | .slt => (r.set i.rd (if (r.gpr i.rs).slt (r.gpr i.rt) then 1 else 0)).done m
  | .slti => (r.set i.rt (if (r.gpr i.rs).slt i.extra then 1 else 0)).done m
  | .sltiu => (r.set i.rt (if r.gpr i.rs < i.extra then 1 else 0)).done m
  | .sltu => (r.set i.rd (if r.gpr i.rs < r.gpr i.rt then 1 else 0)).done m
  | .sra => (r.set i.rd ((r.gpr i.rt).sshiftRight i.extra.toNat)).done m
  | .srav => (r.set i.rd ((r.gpr i.rt).sshiftRight (r.gpr i.rs &&& 0x1F).toNat)).done m
  -- `tmp` is an `int`, so that the two shifts below keep the sign as well
  | .srl => (r.set i.rd ((r.gpr i.rt).sshiftRight i.extra.toNat)).done m
  | .srlv => (r.set i.rd ((r.gpr i.rt).sshiftRight (r.gpr i.rs &&& 0x1F).toNat)).done m
  | .sub =>
    let diff := r.gpr i.rs - r.gpr i.rt
    if signBit (r.gpr i.rs ^^^ r.gpr i.rt) ∧ signBit (r.gpr i.rs ^^^ diff) then exception m .overflow 0
    else (r.set i.rd diff).done m
  | .subu => (r.set i.rd (r.gpr i.rs - r.gpr i.rt)).done m
  | .sw => r.storeValue m .word i
  | .swl => r.storePart m splitLeft i
  | .swr => r.storePart m splitRight i
  | .syscall => exception m .syscall 0
  | .xor => (r.set i.rd (r.gpr i.rs ^^^ r.gpr i.rt)).done m
  | .xori => (r.set i.rt (r.gpr i.rs ^^^ (i.extra &&& 0xFFFF))).done m
  | .res | .unimp => exception m .illegalInstr 0

/-! ## The machine -/

/-- The registers and the memory of the machine. Register 0 stays zero. -/
structure Machine where
  regs : Registers
  mmu : Mmu
  zero : regs.gpr 0 = 0

/-- Where the machine is after it has worked at an instruction. -/
inductive Outcome where
  | completed (machine : Machine)
  /-- The handler of the exception is called. -/
  | raised (e : Exception) (machine : Machine)
  | assertion
  | hostOverflow

namespace Registers

theorem zero_delayedLoad (r : Registers) (nextReg : RegNum) (nextValue : Word) :
    (r.delayedLoad nextReg nextValue).gpr 0 = 0 := by
  unfold delayedLoad
  rw [gpr_set, if_pos rfl]

/-- The program counters advance. -/
def advance (r : Registers) (pcAfter : Word) : Registers :=
  { r with prevPc := r.pc, pc := r.nextPc, nextPc := pcAfter }

end Registers

/-- What comes after the `switch`. -/
def Executed.finish (e : Executed) : Machine where
  regs := (e.regs.delayedLoad e.nextLoadReg e.nextLoadValue).advance e.pcAfter
  mmu := e.mmu
  zero := e.regs.zero_delayedLoad e.nextLoadReg e.nextLoadValue

/-- The machine when the handler of an exception is called. -/
def Registers.trap (r : Registers) (badVAddr : Word) (m : Mmu) : Machine where
  regs := r.raise badVAddr
  mmu := m
  zero := Registers.zero_delayedLoad _ _ _

/-- The end of `ExecInstruction`, where `r` are the registers before it. -/
def finish (r : Registers) : Except Stop Executed → Outcome
  | .ok e => .completed e.finish
  | .error (.exception e badVAddr m) => .raised e (r.trap badVAddr m)
  | .error .assertion => .assertion
  | .error .hostOverflow => .hostOverflow

/-- `Machine::ExecInstruction`. -/
def Machine.execInstruction (s : Machine) (i : Instruction) : Outcome :=
  finish s.regs (execSwitch s.regs s.mmu i)

/-- `Machine::FetchInstruction`. -/
def Machine.fetchInstruction (s : Machine) : Except Stop (Instruction × Mmu) := do
  let (raw, m) ← readMem s.mmu s.regs.pc .word
  return (decode raw, m)

/-- A round of `Machine::Run`, without the tick. -/
def Machine.step (s : Machine) : Outcome :=
  match s.fetchInstruction with
  | .error stop => finish s.regs (.error stop)
  | .ok (i, m) => { s with mmu := m }.execInstruction i

/-- `machine->DelayedLoad(0, 0)` in `Interrupt::CheckIfDue`, when an interrupt is taken. -/
def Machine.interrupted (s : Machine) : Machine where
  regs := s.regs.delayedLoad 0 0
  mmu := s.mmu
  zero := s.regs.zero_delayedLoad 0 0

end Nachos.Mips
