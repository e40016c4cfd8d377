import Nachos.Machine.MipsSim

/-!
# Traps between instructions

A page fault or an interrupt is invisible if the instruction before which it comes has the same effect as
without it. The trap does the load that is pending; without it that load is done after the instruction.
-/

namespace Nachos.Mips

open Foundations

/-! ## What an instruction reads and writes -/

/-- The general registers that an instruction reads. `LWL` and `LWR` take the old value of their target
from the pending load, if there is one for it. -/
def reads (i : Instruction) : List RegNum :=
  match i.opCode with
  | .add | .addu | .sub | .subu | .and | .or | .xor | .nor | .slt | .sltu | .sllv | .srav | .srlv => [i.rs, i.rt]
  | .beq | .bne | .div | .divu | .mult | .multu | .sb | .sh | .sw | .swl | .swr => [i.rs, i.rt]
  | .addi | .addiu | .andi | .ori | .xori | .slti | .sltiu => [i.rs]
  | .bgez | .bgezal | .bgtz | .blez | .bltz | .bltzal | .jr | .jalr => [i.rs]
  | .lb | .lbu | .lh | .lhu | .lw | .lwl | .lwr | .mthi | .mtlo => [i.rs]
  | .sll | .sra | .srl => [i.rt]
  | .lui | .j | .jal | .mfhi | .mflo | .syscall | .res | .unimp => []

/-- The general register that an instruction writes itself, not by a delayed load, and the value; none if it
raises an exception instead. -/
def writes (r : Registers) (i : Instruction) : Option (RegNum × Word) :=
  let rs := r.gpr i.rs
  let rt := r.gpr i.rt
  match i.opCode with
  | .add => if ¬ signBit (rs ^^^ rt) ∧ signBit (rs ^^^ (rs + rt)) then none else some (i.rd, rs + rt)
  | .addi =>
    if ¬ signBit (rs ^^^ i.extra) ∧ signBit (i.extra ^^^ (rs + i.extra)) then none else some (i.rt, rs + i.extra)
  | .sub => if signBit (rs ^^^ rt) ∧ signBit (rs ^^^ (rs - rt)) then none else some (i.rd, rs - rt)
  | .addiu => some (i.rt, rs + i.extra)
  | .addu => some (i.rd, rs + rt)
  | .subu => some (i.rd, rs - rt)
  | .and => some (i.rd, rs &&& rt)
  | .andi => some (i.rt, rs &&& (i.extra &&& 0xFFFF))
  | .or => some (i.rd, rs ||| rt)
  | .ori => some (i.rt, rs ||| (i.extra &&& 0xFFFF))
  | .xor => some (i.rd, rs ^^^ rt)
  | .xori => some (i.rt, rs ^^^ (i.extra &&& 0xFFFF))
  | .nor => some (i.rd, ~~~(rs ||| rt))
  | .lui => some (i.rt, i.extra <<< 16)
  | .sll => some (i.rd, rt <<< i.extra.toNat)
  | .sllv => some (i.rd, rt <<< (rs &&& 0x1F).toNat)
  | .sra | .srl => some (i.rd, rt.sshiftRight i.extra.toNat)
  | .srav | .srlv => some (i.rd, rt.sshiftRight (rs &&& 0x1F).toNat)
  | .slt => some (i.rd, if rs.slt rt then 1 else 0)
  | .slti => some (i.rt, if rs.slt i.extra then 1 else 0)
  | .sltu => some (i.rd, if rs < rt then 1 else 0)
  | .sltiu => some (i.rt, if rs < i.extra then 1 else 0)
  | .mfhi => some (i.rd, r.hi)
  | .mflo => some (i.rd, r.lo)
  | .bgezal | .bltzal | .jal => some (retAddrReg, r.nextPc + 4)
  | .jalr => some (i.rd, r.nextPc + 4)
  | _ => none

/-! ## The same effect -/

/-- Two machines are the same for user code: a pending load of register 0 has no effect. -/
structure Same (s s' : Machine) : Prop where
  gpr : s'.regs.gpr = s.regs.gpr
  hi : s'.regs.hi = s.regs.hi
  lo : s'.regs.lo = s.regs.lo
  pc : s'.regs.pc = s.regs.pc
  nextPc : s'.regs.nextPc = s.regs.nextPc
  mmu : s'.mmu = s.mmu
  loadReg : s'.regs.loadReg = s.regs.loadReg
  loadValue : s.regs.loadReg = 0 ∨ s'.regs.loadValue = s.regs.loadValue

/-- Two executions of an instruction have the same effect. -/
def SameEffect : Outcome → Outcome → Prop
  | .completed s, .completed s' => Same s s'
  | .raised e s, .raised e' s' => e = e' ∧ Same s s'
  | .assertion, .assertion => True
  | .hostOverflow, .hostOverflow => True
  | _, _ => False

/-! ## Traps -/

/-- The instruction at `s` is executed from `s'` instead, after a trap: its fetch or its access to memory
has raised a page fault, and the handler has installed a translation, which gives the memory of `s`; or an
interrupt has been taken before it. -/
inductive Trapped (s : Machine) : Machine → Prop where
  | pageFault (m : Mmu) (machine : Machine)
      (h : { s with mmu := m }.step = .raised (.mmu .pageFaultException) machine) :
      Trapped s { machine with mmu := s.mmu }
  | interrupt : Trapped s s.interrupted

/-- The instruction at `s` does not read the register with a pending load. -/
def ReadsNoPending (s : Machine) : Prop :=
  ∀ i m, s.fetchInstruction = .ok (i, m) → s.regs.loadReg = 0 ∨ s.regs.loadReg ∉ reads i

/-- The instruction at `s` itself writes the register with a pending load, and not the value to be loaded. -/
def OverwritesPending (s : Machine) : Prop :=
  ∃ i m n v, s.fetchInstruction = .ok (i, m) ∧ writes s.regs i = some (n, v) ∧ n ≠ 0 ∧
    s.regs.loadReg = n ∧ v ≠ s.regs.loadValue

end Nachos.Mips
