import Nachos.Machine.MipsArithmetic

/-!
# Proofs about the decoder

The masks and shifts of `Decode` give the fields of the word, and the two tables name the instruction that
the architecture defines for it.
-/

namespace Nachos.Mips

open Foundations

variable {w x y : Word}

/-! ## Masks -/

theorem toNat_and_mask (x : Word) {n : Nat} (hn : n < 32) :
    (x &&& BitVec.ofNat 32 (2 ^ n - 1)).toNat = x.toNat % 2 ^ n := by
  have hle : 2 ^ n ≤ 2 ^ 31 := Nat.pow_le_pow_right (by decide) (by omega)
  have hlt : 2 ^ n - 1 < 2 ^ 32 := by omega
  rw [BitVec.toNat_and, BitVec.toNat_ofNat, Nat.mod_eq_of_lt hlt, Nat.and_two_pow_sub_one_eq_mod]

/-- A shift and a mask give a field. -/
theorem field_eq (w : Word) {start n : Nat} (hn : n < 32) :
    (w >>> start &&& BitVec.ofNat 32 (2 ^ n - 1)).setWidth n = w.extractLsb' start n := by
  apply BitVec.eq_of_toNat_eq
  rw [BitVec.toNat_setWidth, toNat_and_mask _ hn, BitVec.toNat_ushiftRight, BitVec.extractLsb'_toNat,
    Nat.mod_mod]

theorem decode_rs (w : Word) : (decode w).rs = rsField w := field_eq w (by decide)

theorem decode_rt (w : Word) : (decode w).rt = rtField w := field_eq w (by decide)

theorem decode_rd (w : Word) : (decode w).rd = rdField w := field_eq w (by decide)

theorem opIndex_eq (w : Word) : (w >>> 26 &&& 0x3F).toNat = (opField w).toNat := by
  show (w >>> 26 &&& BitVec.ofNat 32 (2 ^ 6 - 1)).toNat = _
  rw [toNat_and_mask _ (by decide), BitVec.toNat_ushiftRight, opField, BitVec.extractLsb'_toNat]

theorem functIndex_eq (w : Word) : (w &&& 0x3F).toNat = (functField w).toNat := by
  show (w &&& BitVec.ofNat 32 (2 ^ 6 - 1)).toNat = _
  rw [toNat_and_mask _ (by decide), functField, BitVec.extractLsb'_toNat, Nat.shiftRight_zero]

theorem signBit_eq (x : Word) : signBit x = x.msb := by
  have h : x &&& 0x80000000 = if x.getLsbD 31 then BitVec.twoPow 32 31 else 0#32 := BitVec.and_twoPow x 31
  have hmsb : x.msb = x.getLsbD 31 := BitVec.msb_eq_getLsbD_last x
  unfold signBit
  rw [h, hmsb]
  cases x.getLsbD 31 <;> decide

/-! ## Immediates -/

theorem and_ffff (w : Word) : w &&& 0xFFFF = (immediateField w).setWidth 32 := by
  apply BitVec.eq_of_toNat_eq
  have h : (w &&& BitVec.ofNat 32 (2 ^ 16 - 1)).toNat = w.toNat % 2 ^ 16 := toNat_and_mask w (by decide)
  change (w &&& BitVec.ofNat 32 (2 ^ 16 - 1)).toNat = _
  rw [h, BitVec.toNat_setWidth, immediateField, BitVec.extractLsb'_toNat, Nat.shiftRight_zero]
  omega

theorem mask_bits : ∀ i : Fin 32, (0xFFFF#32).getLsbD i = decide (i.1 < 16) ∧
    (0xFFFF0000#32).getLsbD i = decide (16 ≤ i.1) := by decide

/-- The bits of the mask of the low half. -/
theorem lowMask_bit {i : Nat} (hi : i < 32) : (0xFFFF#32)[i] = decide (i < 16) := by
  rw [← BitVec.getLsbD_eq_getElem]
  exact (mask_bits ⟨i, hi⟩).1

/-- The bits of the mask of the high half. -/
theorem highMask_bit {i : Nat} (hi : i < 32) : (0xFFFF0000#32)[i] = decide (16 ≤ i) := by
  rw [← BitVec.getLsbD_eq_getElem]
  exact (mask_bits ⟨i, hi⟩).2

theorem setWidth_or_high {x : BitVec 16} (hm : x.msb = true) :
    x.setWidth 32 ||| 0xFFFF0000#32 = x.signExtend 32 := by
  ext i hi
  rw [BitVec.getElem_or, BitVec.getElem_setWidth, BitVec.getElem_signExtend, highMask_bit hi, hm]
  by_cases h : i < 16
  · have h16 : ¬ 16 ≤ i := by omega
    simp [h, h16]
  · have h16 : 16 ≤ i := by omega
    simp [h, h16]

/-- The high bits of a word that is extended with its sign. -/
theorem extend_eq (x : BitVec 16) :
    (if x.setWidth 32 &&& 0x8000 ≠ 0 then x.setWidth 32 ||| 0xFFFF0000 else x.setWidth 32) =
      x.signExtend 32 := by
  have h : x.setWidth 32 &&& 0x8000 =
      if (x.setWidth 32).getLsbD 15 then BitVec.twoPow 32 15 else 0#32 := BitVec.and_twoPow _ 15
  have hbit : (x.setWidth 32).getLsbD 15 = x.msb := by
    rw [BitVec.getLsbD_setWidth, BitVec.msb_eq_getLsbD_last]
    simp
  rw [h, hbit]
  cases hm : x.msb with
  | false => rw [if_neg (by decide), BitVec.signExtend_eq_setWidth_of_msb_false hm]
  | true =>
    rw [if_pos (by decide)]
    exact setWidth_or_high hm

theorem decodeExtra_ifmt (w : Word) : decodeExtra w .ifmt = (immediateField w).signExtend 32 := by
  unfold decodeExtra
  rw [and_ffff]
  exact extend_eq _

theorem decodeExtra_rfmt (w : Word) : (decodeExtra w .rfmt).toNat = (shamtField w).toNat := by
  show (w >>> 6 &&& BitVec.ofNat 32 (2 ^ 5 - 1)).toNat = _
  rw [toNat_and_mask _ (by decide), BitVec.toNat_ushiftRight, shamtField, BitVec.extractLsb'_toNat]

/-- The low half of an immediate. -/
theorem signExtend_and (x : BitVec 16) : x.signExtend 32 &&& 0xFFFF = x.setWidth 32 := by
  ext i hi
  have hmask : (0xFFFF : Word)[i] = decide (i < 16) := lowMask_bit hi
  rw [BitVec.getElem_and, BitVec.getElem_setWidth, BitVec.getElem_signExtend, hmask]
  by_cases h : i < 16
  · simp [h]
  · have hx : x.getLsbD i = false := BitVec.getLsbD_of_ge x i (by omega)
    simp [h, hx]

/-- The immediate in the high half. -/
theorem signExtend_shift (x : BitVec 16) : x.signExtend 32 <<< 16 = x ++ (0 : BitVec 16) := by
  ext i hi
  rw [BitVec.getElem_shiftLeft, BitVec.getElem_append]
  by_cases h : i < 16
  · simp [h]
  · have hlt : i - 16 < 16 := by omega
    simp [h, BitVec.getElem_signExtend, hlt]

/-! ## Operations -/

/-- The entry of `OP_TABLE` for a word. -/
def opEntry (w : Word) : OpField × Format := opTable.getD (opField w).toNat (.op .res, .ifmt)

theorem decode_opCode (w : Word) : (decode w).opCode = decodeOpCode w (opEntry w).1 := by
  unfold opEntry
  rw [← opIndex_eq]
  rfl

theorem decode_extra (w : Word) : (decode w).extra = decodeExtra w (opEntry w).2 := by
  unfold opEntry
  rw [← opIndex_eq]
  rfl

/-- The instructions of `SPECIAL_TABLE`. -/
theorem registerOp_eq : ∀ funct : BitVec 6, specialTable.getD funct.toNat .res ∈ arithmeticOps →
    registerOp funct = some (specialTable.getD funct.toNat .res) := by decide

/-- Only the operation field 0 is special. -/
theorem special_iff : ∀ op : BitVec 6,
    (opTable.getD op.toNat (.op .res, .ifmt)).1 = .special → op = 0 := by decide

/-- The instructions of `OP_TABLE`. -/
theorem immediateOp_eq : ∀ op : BitVec 6, ∀ o ∈ arithmeticOps,
    (opTable.getD op.toNat (.op .res, .ifmt)).1 = .op o →
    op ≠ 0 ∧ immediateOp op = some o ∧ (opTable.getD op.toNat (.op .res, .ifmt)).2 = .ifmt := by decide

theorem bcond_not_arithmetic (w : Word) : decodeOpCode w .bcond ∉ arithmeticOps := by
  unfold decodeOpCode
  simp only
  split_ifs <;> decide

/-- The two tables name the instruction that the architecture defines. -/
theorem arithmeticOp_eq {w : Word} (h : (decode w).opCode ∈ arithmeticOps) :
    arithmeticOp w = some (decode w).opCode := by
  rw [decode_opCode] at h ⊢
  unfold arithmeticOp
  cases he : (opEntry w).1 with
  | special =>
    have h0 : opField w = 0 := special_iff (opField w) he
    rw [he] at h
    have hfunct : decodeOpCode w .special = specialTable.getD (functField w).toNat .res := by
      rw [← functIndex_eq]
      rfl
    rw [hfunct] at h ⊢
    rw [if_pos h0]
    exact registerOp_eq _ h
  | bcond =>
    rw [he] at h
    exact absurd h (bcond_not_arithmetic w)
  | op o =>
    rw [he] at h
    obtain ⟨h0, hop, -⟩ := immediateOp_eq (opField w) o h he
    rw [if_neg h0]
    exact hop

/-- The instructions with an immediate. -/
def immediateOps : List OpCode := [.addi, .addiu, .slti, .sltiu, .andi, .ori, .xori, .lui]

theorem registerOp_not_immediate : ∀ funct : BitVec 6, ∀ o ∈ immediateOps, registerOp funct ≠ some o := by
  decide

theorem immediateOp_mem : ∀ op : BitVec 6, ∀ o ∈ arithmeticOps, immediateOp op = some o → o ∈ immediateOps := by
  decide

/-- The immediate of an instruction that has one. -/
theorem extra_immediate {w : Word} (h : (decode w).opCode ∈ arithmeticOps)
    (hi : (decode w).opCode ∈ immediateOps) : (decode w).extra = (immediateField w).signExtend 32 := by
  have hop := arithmeticOp_eq h
  rw [decode_extra]
  rw [decode_opCode] at h hi hop
  cases he : (opEntry w).1 with
  | special =>
    rw [he] at hi hop
    unfold arithmeticOp at hop
    rw [if_pos (special_iff (opField w) he)] at hop
    exact absurd hop (registerOp_not_immediate _ _ hi)
  | bcond =>
    rw [he] at h
    exact absurd h (bcond_not_arithmetic w)
  | op o =>
    rw [he] at h
    obtain ⟨-, -, hformat⟩ := immediateOp_eq (opField w) o h he
    unfold opEntry
    rw [hformat]
    exact decodeExtra_ifmt w

/-- The shift amount of an instruction without an immediate. -/
theorem extra_shift {w : Word} (h : (decode w).opCode ∈ arithmeticOps)
    (hi : (decode w).opCode ∉ immediateOps) : (decode w).extra.toNat = (shamtField w).toNat := by
  rw [decode_extra]
  rw [decode_opCode] at h hi
  cases he : (opEntry w).1 with
  | special =>
    have h0 : opField w = 0 := special_iff (opField w) he
    have hformat : (opEntry w).2 = .rfmt := by
      unfold opEntry
      rw [h0]
      rfl
    rw [hformat]
    exact decodeExtra_rfmt w
  | bcond =>
    rw [he] at h
    exact absurd h (bcond_not_arithmetic w)
  | op o =>
    rw [he] at h hi
    obtain ⟨-, hop, -⟩ := immediateOp_eq (opField w) o h he
    exact absurd (immediateOp_mem _ o h hop) hi

end Nachos.Mips
