import Nachos.Machine.Proofs.MipsFieldProofs

/-!
# Proofs about the arithmetic of the simulator

Each instruction computes what the architecture defines, but for the two logical shifts to the right, which
shift the sign in, and for the signed division whose quotient does not fit. What remains is the delayed load,
which is done after the instruction and overwrites its result.
-/

namespace Nachos.Mips

open Foundations Registers

variable {r : Registers} {m : Mmu} {w a b : Word} {n : RegNum} {c v : Word}

/-! ## Operations of the host -/

/-- The overflow test of `ADD`. -/
theorem checked_add (n : RegNum) (a b : Word) : Result.checked n (a.toInt + b.toInt) =
    if ¬ signBit (a ^^^ b) ∧ signBit (a ^^^ (a + b)) then .overflow else .write n (a + b) := by
  have h : a.saddOverflow b = (a.msb == b.msb && !((a + b).msb == a.msb)) := BitVec.saddOverflow_eq a b
  have hdef : a.saddOverflow b = true ↔ 2 ^ 31 ≤ a.toInt + b.toInt ∨ a.toInt + b.toInt < -2 ^ 31 := by
    simp [BitVec.saddOverflow]
  have htest : (¬ signBit (a ^^^ b) ∧ signBit (a ^^^ (a + b))) ↔ a.saddOverflow b = true := by
    rw [h, signBit_eq, signBit_eq, BitVec.msb_xor, BitVec.msb_xor]
    cases a.msb <;> cases b.msb <;> cases (a + b).msb <;> decide
  unfold Result.checked
  by_cases ho : a.saddOverflow b = true
  · rw [if_pos (htest.mpr ho), if_neg]
    have := hdef.mp ho
    omega
  · rw [if_neg (fun hc => ho (htest.mp hc)), if_pos, BitVec.ofInt_add, BitVec.ofInt_toInt, BitVec.ofInt_toInt]
    have := mt hdef.mpr ho
    omega

/-- The overflow test of `SUB`. -/
theorem checked_sub (n : RegNum) (a b : Word) : Result.checked n (a.toInt - b.toInt) =
    if signBit (a ^^^ b) ∧ signBit (a ^^^ (a - b)) then .overflow else .write n (a - b) := by
  have h := BitVec.ssubOverflow_eq a b
  have hdef : a.ssubOverflow b = true ↔ 2 ^ 31 ≤ a.toInt - b.toInt ∨ a.toInt - b.toInt < -2 ^ 31 := by
    simp [BitVec.ssubOverflow]
  have htest : (signBit (a ^^^ b) ∧ signBit (a ^^^ (a - b))) ↔ a.ssubOverflow b = true := by
    rw [h, signBit_eq, signBit_eq, BitVec.msb_xor, BitVec.msb_xor]
    cases a.msb <;> cases b.msb <;> cases (a - b).msb <;> decide
  unfold Result.checked
  by_cases ho : a.ssubOverflow b = true
  · rw [if_pos (htest.mpr ho), if_neg]
    have := hdef.mp ho
    omega
  · rw [if_neg (fun hc => ho (htest.mp hc)), if_pos, ← BitVec.toInt_sub_of_not_ssubOverflow ho,
      BitVec.ofInt_toInt]
    have := mt hdef.mpr ho
    omega

/-- The overflow test of `ADDI`, which looks at the sign of the other operand. -/
theorem checked_addi (n : RegNum) (a b : Word) : Result.checked n (a.toInt + b.toInt) =
    if ¬ signBit (a ^^^ b) ∧ signBit (b ^^^ (a + b)) then .overflow else .write n (a + b) := by
  have htest : (¬ signBit (a ^^^ b) ∧ signBit (b ^^^ (a + b))) ↔
      (¬ signBit (a ^^^ b) ∧ signBit (a ^^^ (a + b))) := by
    rw [signBit_eq, signBit_eq, signBit_eq, BitVec.msb_xor, BitVec.msb_xor, BitVec.msb_xor]
    cases a.msb <;> cases b.msb <;> cases (a + b).msb <;> decide
  rw [checked_add]
  exact if_congr htest.symm rfl rfl

/-- An arithmetic shift is a logical one unless it shifts the sign in. -/
theorem sshiftRight_eq_iff (a : Word) (n : Nat) : a.sshiftRight n = a >>> n ↔ ¬ (n ≠ 0 ∧ a.msb = true) := by
  constructor
  · rintro h ⟨hn, hm⟩
    have hmsb := congrArg BitVec.msb h
    rw [BitVec.msb_sshiftRight, BitVec.msb_ushiftRight, hm] at hmsb
    simp [hn] at hmsb
  · intro h
    apply BitVec.eq_of_toNat_eq
    by_cases hn : n = 0
    · rw [hn]
      simp
    · have hm : a.msb = false := Bool.eq_false_iff.mpr fun hm => h ⟨hn, hm⟩
      rw [BitVec.toNat_sshiftRight_of_msb_false hm, BitVec.toNat_ushiftRight]

/-! ## Every instruction -/

/-- What the `switch` does meets the result that the architecture defines. -/
def Agrees (r : Registers) (m : Mmu) (w : Word) (x : Except Stop Executed) : Result → Prop
  | .write n v => ∃ c, x = (r.set n c).done m ∧ (c = v ↔ ¬ ShiftsSign r w)
  | .hiLo hi lo => (DivisionOverflows r w → x = .error .hostOverflow) ∧
      (¬ DivisionOverflows r w → x = { r with lo := lo, hi := hi }.done m)
  | .overflow => x = exception m .overflow 0

variable {x : Except Stop Executed} {o : OpCode}

theorem not_shiftsSign (h : arithmeticOp w = some o) (h1 : o ≠ .srl) (h2 : o ≠ .srlv) : ¬ ShiftsSign r w := by
  rintro ⟨o', ho', hop, -⟩
  rw [h] at hop
  rcases List.mem_pair.mp ho' with he | he
  · exact h1 ((Option.some.inj hop).trans he)
  · exact h2 ((Option.some.inj hop).trans he)

/-- The instruction writes the result. -/
theorem agrees_write (h : arithmeticOp w = some o) (h1 : o ≠ .srl) (h2 : o ≠ .srlv)
    (hx : x = (r.set n v).done m) : Agrees r m w x (.write n v) :=
  ⟨v, hx, ⟨fun _ => not_shiftsSign h h1 h2, fun _ => rfl⟩⟩

/-- The result is checked for overflow. -/
theorem agrees_checked (h : arithmeticOp w = some o) (h1 : o ≠ .srl) (h2 : o ≠ .srlv) {z : Int} {p : Prop}
    [Decidable p] (hz : Result.checked n z = if p then .overflow else .write n v)
    (hx : x = if p then exception m .overflow 0 else (r.set n v).done m) :
    Agrees r m w x (Result.checked n z) := by
  rw [hz]
  by_cases hp : p
  · rw [if_pos hp] at hx ⊢
    exact hx
  · rw [if_neg hp] at hx ⊢
    exact agrees_write h h1 h2 hx

/-- A logical shift. -/
theorem agrees_shift (ho : o ∈ [OpCode.srl, OpCode.srlv]) (h : arithmeticOp w = some o)
    (hx : x = (r.set n ((r.gpr (rtField w)).sshiftRight (shiftAmount o w (r.gpr (rsField w))))).done m) :
    Agrees r m w x (.write n (r.gpr (rtField w) >>> shiftAmount o w (r.gpr (rsField w)))) := by
  refine ⟨_, hx, (sshiftRight_eq_iff _ _).trans (not_congr ?_)⟩
  constructor
  · rintro ⟨hn, hm⟩
    exact ⟨o, ho, h, hn, hm⟩
  · rintro ⟨o', -, hop, hn, hm⟩
    rw [h] at hop
    rw [Option.some.inj hop]
    exact ⟨hn, hm⟩

theorem lowBits_eq (x : Word) : (x &&& 0x1F).toNat = x.toNat % 32 := by
  show (x &&& BitVec.ofNat 32 (2 ^ 5 - 1)).toNat = _
  exact toNat_and_mask x (by decide)

theorem slt_eq (a b : Word) : (if a.slt b then (1 : Word) else 0) = truth (a.toInt < b.toInt) := by
  unfold truth
  simp only [BitVec.slt_iff_toInt_lt]

theorem ult_eq (a b : Word) : (if a < b then (1 : Word) else 0) = truth (a.toNat < b.toNat) := rfl

/-- Each instruction that computes meets the architecture, but for the shifts and the division. -/
theorem execSwitch_agrees (m : Mmu) (h : (decode w).opCode ∈ arithmeticOps)
    (hdiv : (decode w).opCode ∈ [OpCode.div, OpCode.divu] → r.gpr (rtField w) ≠ 0) :
    ∃ res, architectureResult r w = some res ∧ Agrees r m w (execSwitch r m (decode w)) res := by
  have hop := arithmeticOp_eq h
  have hi := extra_immediate h
  have hs := extra_shift h
  have hres : architectureResult r w =
      operationResult (decode w).opCode w (r.gpr (rsField w)) (r.gpr (rtField w)) := by
    unfold architectureResult
    rw [hop]
    rfl
  rw [hres]
  unfold execSwitch
  rw [decode_rs, decode_rt, decode_rd]
  cases ho : (decode w).opCode with
  | add =>
    rw [ho] at hop
    exact ⟨_, rfl, agrees_checked hop (by decide) (by decide) (checked_add _ _ _) rfl⟩
  | addi =>
    rw [ho] at hop hi
    refine ⟨_, rfl, agrees_checked hop (by decide) (by decide) (checked_addi _ _ _) ?_⟩
    rw [hi (by decide)]
  | sub =>
    rw [ho] at hop
    exact ⟨_, rfl, agrees_checked hop (by decide) (by decide) (checked_sub _ _ _) rfl⟩
  | addu =>
    rw [ho] at hop
    exact ⟨_, rfl, agrees_write hop (by decide) (by decide) rfl⟩
  | subu =>
    rw [ho] at hop
    exact ⟨_, rfl, agrees_write hop (by decide) (by decide) rfl⟩
  | and =>
    rw [ho] at hop
    exact ⟨_, rfl, agrees_write hop (by decide) (by decide) rfl⟩
  | or =>
    rw [ho] at hop
    exact ⟨_, rfl, agrees_write hop (by decide) (by decide) rfl⟩
  | xor =>
    rw [ho] at hop
    exact ⟨_, rfl, agrees_write hop (by decide) (by decide) rfl⟩
  | nor =>
    rw [ho] at hop
    exact ⟨_, rfl, agrees_write hop (by decide) (by decide) rfl⟩
  | addiu =>
    rw [ho] at hop hi
    refine ⟨_, rfl, agrees_write hop (by decide) (by decide) ?_⟩
    rw [hi (by decide)]
  | andi =>
    rw [ho] at hop hi
    refine ⟨_, rfl, agrees_write hop (by decide) (by decide) ?_⟩
    rw [hi (by decide), signExtend_and]
  | ori =>
    rw [ho] at hop hi
    refine ⟨_, rfl, agrees_write hop (by decide) (by decide) ?_⟩
    rw [hi (by decide), signExtend_and]
  | xori =>
    rw [ho] at hop hi
    refine ⟨_, rfl, agrees_write hop (by decide) (by decide) ?_⟩
    rw [hi (by decide), signExtend_and]
  | lui =>
    rw [ho] at hop hi
    refine ⟨_, rfl, agrees_write hop (by decide) (by decide) ?_⟩
    rw [hi (by decide), signExtend_shift]
  | slt =>
    rw [ho] at hop
    refine ⟨_, rfl, agrees_write hop (by decide) (by decide) ?_⟩
    rw [← slt_eq]
  | slti =>
    rw [ho] at hop hi
    refine ⟨_, rfl, agrees_write hop (by decide) (by decide) ?_⟩
    rw [hi (by decide), ← slt_eq]
  | sltu =>
    rw [ho] at hop
    exact ⟨_, rfl, agrees_write hop (by decide) (by decide) rfl⟩
  | sltiu =>
    rw [ho] at hop hi
    refine ⟨_, rfl, agrees_write hop (by decide) (by decide) ?_⟩
    rw [hi (by decide), ← ult_eq]
  | sll =>
    rw [ho] at hop hs
    refine ⟨_, rfl, agrees_write hop (by decide) (by decide) ?_⟩
    rw [hs (by decide)]
    rfl
  | sllv =>
    rw [ho] at hop
    refine ⟨_, rfl, agrees_write hop (by decide) (by decide) ?_⟩
    rw [lowBits_eq]
    rfl
  | sra =>
    rw [ho] at hop hs
    refine ⟨_, rfl, agrees_write hop (by decide) (by decide) ?_⟩
    rw [hs (by decide)]
    rfl
  | srav =>
    rw [ho] at hop
    refine ⟨_, rfl, agrees_write hop (by decide) (by decide) ?_⟩
    rw [lowBits_eq]
    rfl
  | srl =>
    rw [ho] at hop hs
    refine ⟨_, rfl, agrees_shift (List.mem_cons_self ..) hop ?_⟩
    rw [hs (by decide)]
    rfl
  | srlv =>
    rw [ho] at hop
    refine ⟨_, rfl, agrees_shift (List.mem_cons_of_mem _ (List.mem_cons_self ..)) hop ?_⟩
    rw [lowBits_eq]
    rfl
  | div =>
    rw [ho] at hop hdiv
    refine ⟨_, rfl, ?_, ?_⟩
    · rintro ⟨-, hmin, hneg⟩
      simp only [if_neg (hdiv (by decide))]
      unfold divide
      rw [if_pos ⟨hmin, hneg⟩]
      rfl
    · intro hno
      simp only [if_neg (hdiv (by decide))]
      unfold divide
      rw [if_neg fun hc => hno ⟨hop, hc.1, hc.2⟩]
      rfl
  | divu =>
    rw [ho] at hop hdiv
    refine ⟨_, rfl, ?_, ?_⟩
    · rintro ⟨hdivision, -⟩
      rw [hop] at hdivision
      nomatch hdivision
    · intro hno
      simp only [if_neg (hdiv (by decide))]
  | _ =>
    rw [ho] at h
    exact absurd h (by decide)

/-! ## The delayed load -/

/-- After the instruction the pending load is done. -/
theorem gpr_finish_done (r : Registers) (n : RegNum) (c : Word) (m : Mmu) :
    ∃ s', finish r ((r.set n c).done m) = .completed s' ∧
      s'.regs.gpr n = if n = 0 then 0 else if n = r.loadReg then r.loadValue else c := by
  refine ⟨_, rfl, ?_⟩
  show (if n = 0 then 0 else if n = r.loadReg then r.loadValue else if n = n then c else r.gpr n) = _
  rw [if_pos (rfl : n = n)]

/-- The instruction writes the result exactly if no other value is loaded over it and no sign is shifted
in. -/
theorem write_iff (hx : x = (r.set n c).done m) (hc : c = v ↔ ¬ ShiftsSign r w) :
    (∃ s', finish r x = .completed s' ∧ s'.regs.gpr n = if n = 0 then 0 else v) ↔
      (n = 0 ∨ (r.loadReg = n ∧ r.loadValue = v) ∨ (r.loadReg ≠ n ∧ ¬ ShiftsSign r w)) := by
  rw [hx]
  obtain ⟨s', hs', hgpr⟩ := gpr_finish_done r n c m
  constructor
  · rintro ⟨s'', hs'', hv⟩
    have he : s' = s'' := Outcome.completed.inj (hs'.symm.trans hs'')
    rw [← he, hgpr] at hv
    by_cases h0 : n = 0
    · exact Or.inl h0
    right
    rw [if_neg h0, if_neg h0] at hv
    by_cases hl : n = r.loadReg
    · rw [if_pos hl] at hv
      exact Or.inl ⟨hl.symm, hv⟩
    · rw [if_neg hl] at hv
      exact Or.inr ⟨fun h => hl h.symm, hc.mp hv⟩
  · intro h
    refine ⟨s', hs', ?_⟩
    rw [hgpr]
    by_cases h0 : n = 0
    · rw [if_pos h0, if_pos h0]
    rw [if_neg h0, if_neg h0]
    rcases h with h | ⟨hl, hv⟩ | ⟨hl, hs⟩
    · exact absurd h h0
    · rw [if_pos hl.symm, hv]
    · rw [if_neg fun h => hl h.symm]
      exact hc.mpr hs

/-- A division meets the architecture exactly if the host can do it. -/
theorem hiLo_iff {hi lo : Word} (h1 : DivisionOverflows r w → x = .error .hostOverflow)
    (h2 : ¬ DivisionOverflows r w → x = { r with lo := lo, hi := hi }.done m) :
    (∃ s', finish r x = .completed s' ∧ s'.regs.hi = hi ∧ s'.regs.lo = lo) ↔ ¬ DivisionOverflows r w := by
  constructor
  · rintro ⟨s', hs', -⟩ hd
    rw [h1 hd] at hs'
    nomatch hs'
  · intro hd
    rw [h2 hd]
    exact ⟨_, rfl, rfl, rfl⟩

/-- The machine meets the architecture at an instruction that computes exactly if its division does not
overflow, and what it writes is not changed by a load that is pending for the same register, nor by the
sign of the operand of a logical shift. -/
theorem meetsArchitecture_iff (s : Machine) (w : Word) (h : (decode w).opCode ∈ arithmeticOps)
    (hdiv : (decode w).opCode ∈ [OpCode.div, OpCode.divu] → s.regs.gpr (rtField w) ≠ 0) :
    MeetsArchitecture s w ↔ ¬ DivisionOverflows s.regs w ∧ WritesResult s.regs w := by
  obtain ⟨res, hres, hagrees⟩ := execSwitch_agrees s.mmu h hdiv
  unfold MeetsArchitecture WritesResult
  rw [hres]
  cases res with
  | write n v =>
    obtain ⟨c, hx, hc⟩ := hagrees
    have hd : ¬ DivisionOverflows s.regs w := by
      rintro ⟨hop, -⟩
      unfold architectureResult at hres
      rw [hop] at hres
      nomatch hres
    refine (write_iff hx hc).trans ?_
    constructor
    · intro hw
      refine ⟨hd, ?_⟩
      intro n' v' he
      injection he with he
      injection he with hn hv
      rw [← hn, ← hv]
      exact hw
    · rintro ⟨-, hw⟩
      exact hw n v rfl
  | hiLo hi lo =>
    obtain ⟨h1, h2⟩ := hagrees
    refine (hiLo_iff h1 h2).trans ?_
    constructor
    · intro hd
      refine ⟨hd, ?_⟩
      intro n v he
      nomatch he
    · exact And.left
  | overflow =>
    have hd : ¬ DivisionOverflows s.regs w := by
      rintro ⟨hop, -⟩
      unfold architectureResult at hres
      rw [hop] at hres
      nomatch hres
    have hraise : s.execInstruction (decode w) = .raised .overflow (s.regs.trap 0 s.mmu) := by
      unfold Machine.execInstruction
      rw [show execSwitch s.regs s.mmu (decode w) = _ from hagrees]
      rfl
    constructor
    · intro _
      refine ⟨hd, ?_⟩
      intro n v he
      nomatch he
    · intro _
      exact hraise

/-- Registers with one value in a general register. -/
def oneRegister (n : RegNum) (value : Word) : Registers where
  gpr := fun x => if x = n then value else 0
  hi := 0
  lo := 0
  pc := 0
  nextPc := 4
  prevPc := 0
  loadReg := 0
  loadValue := 0
  badVAddr := 0

/-- A machine with -2 in register 2. -/
def sampleMachine : Machine where
  regs := oneRegister 2 0xFFFFFFFE
  mmu := { mainMemory := fun _ => 0, tlb := [] }
  zero := rfl

/-- `sra $3,$2,1`. -/
def sraWord : Word := 0x00021843

/-- `srl $3,$2,1`. -/
def srlWord : Word := 0x00021842

theorem meetsArchitecture_iff_sra : MeetsArchitecture sampleMachine sraWord := by
  refine (meetsArchitecture_iff sampleMachine sraWord (by decide) (by decide)).mpr ⟨?_, ?_⟩
  · rintro ⟨h, -⟩
    exact absurd h (by decide)
  · intro n v hres
    right
    right
    have hn : n = 3 := by
      have he : architectureResult sampleMachine.regs sraWord = some (.write 3 0xFFFFFFFF) := rfl
      rw [he] at hres
      injection hres with hres
      injection hres with hn
      exact hn.symm
    rw [hn]
    refine ⟨by decide, not_shiftsSign (show arithmeticOp sraWord = some .sra from rfl) ?_ ?_⟩
    · decide
    · decide

/-- A logical shift of -2 gives -1. -/
theorem srl_keeps_sign : (decode srlWord).opCode = .srl ∧ ¬ MeetsArchitecture sampleMachine srlWord := by
  refine ⟨rfl, fun h => ?_⟩
  have hres : architectureResult sampleMachine.regs srlWord = some (.write 3 0x7FFFFFFF) := rfl
  unfold MeetsArchitecture at h
  rw [hres] at h
  obtain ⟨s', hs', hv⟩ := h
  have he : s'.regs.gpr 3 = 0xFFFFFFFF := by
    have hexec : ∃ t, sampleMachine.execInstruction (decode srlWord) = .completed t ∧
        t.regs.gpr 3 = 0xFFFFFFFF := ⟨_, rfl, rfl⟩
    obtain ⟨t, ht, hgpr⟩ := hexec
    rw [Outcome.completed.inj (hs'.symm.trans ht)]
    exact hgpr
  rw [he] at hv
  exact absurd hv (by decide)

end Nachos.Mips
