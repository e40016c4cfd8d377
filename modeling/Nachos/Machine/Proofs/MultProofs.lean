import Mathlib.Data.Nat.ModEq
import Nachos.Machine.Proofs.MipsFieldProofs

/-!
# Proofs: multiplication

The loop of `Mult` adds up the shifted values of `b` in two words: after it, the two words have grown by
the product of `b` and the bits of `a` that were left, modulo `2^64`. The shift of `a` keeps its sign,
which never reaches a bit that the loop looks at.
-/

namespace Nachos.Mips

/-! ## Double words -/

/-- The number in two words. -/
def doubleWord (hi lo : Word) : Nat := hi.toNat * 2 ^ 32 + lo.toNat

theorem doubleWord_lt (hi lo : Word) : doubleWord hi lo < 2 ^ 64 := by
  have hhi := hi.isLt
  have hlo := lo.isLt
  unfold doubleWord
  omega

theorem toNat_append (hi lo : Word) : (hi ++ lo).toNat = doubleWord hi lo := by
  rw [BitVec.toNat_append, ← Nat.shiftLeft_add_eq_or_of_lt lo.isLt, Nat.shiftLeft_eq]
  rfl

/-- An addition with the carry out of the low words. -/
theorem doubleWord_add (hi lo bHi bLo : Word) :
    doubleWord ((if lo + bLo < bLo then hi + 1 else hi) + bHi) (lo + bLo) =
      (doubleWord hi lo + doubleWord bHi bLo) % 2 ^ 64 := by
  have hlo := lo.isLt
  have hbLo := bLo.isLt
  have hcarry : lo + bLo < bLo ↔ 2 ^ 32 ≤ lo.toNat + bLo.toNat := by
    rw [BitVec.lt_def, BitVec.toNat_add]
    omega
  unfold doubleWord
  by_cases hc : 2 ^ 32 ≤ lo.toNat + bLo.toNat
  · rw [if_pos (hcarry.mpr hc), BitVec.toNat_add, BitVec.toNat_add, BitVec.toNat_add]
    have hone : (1 : Word).toNat = 1 := rfl
    omega
  · rw [if_neg (fun h => hc (hcarry.mp h)), BitVec.toNat_add, BitVec.toNat_add]
    omega

theorem topBit_iff (x : Word) : x &&& 0x80000000 ≠ 0 ↔ 2 ^ 31 ≤ x.toNat := by
  have h := signBit_eq x
  rw [signBit, BitVec.msb_eq_decide, decide_eq_decide] at h
  exact h

/-- A shift by one, with the bit that moves between the words. -/
theorem doubleWord_shift (bHi bLo : Word) :
    doubleWord (if bLo &&& 0x80000000 ≠ 0 then bHi <<< 1 ||| 1 else bHi <<< 1) (bLo <<< 1) =
      2 * doubleWord bHi bLo % 2 ^ 64 := by
  have hbLo := bLo.isLt
  have hdouble (x : Word) : (x <<< 1).toNat = 2 * x.toNat % 2 ^ 32 := by
    rw [BitVec.toNat_shiftLeft, Nat.shiftLeft_eq]
    omega
  unfold doubleWord
  by_cases htop : bLo &&& 0x80000000 ≠ 0
  · have hset : (bHi <<< 1 ||| 1).toNat = (bHi <<< 1).toNat + 1 := by
      have hor := Nat.two_pow_add_eq_or_of_lt (i := 1) (b := 1) (by decide) ((bHi <<< 1).toNat / 2)
      have hone : (1 : Word).toNat = 1 := rfl
      rw [BitVec.toNat_or, hone]
      have heven : (bHi <<< 1).toNat = 2 ^ 1 * ((bHi <<< 1).toNat / 2) := by
        rw [hdouble]
        omega
      rw [← heven] at hor
      exact hor.symm
    have htop' := (topBit_iff bLo).mp htop
    rw [if_pos htop, hset, hdouble, hdouble]
    omega
  · have htop' : ¬ 2 ^ 31 ≤ bLo.toNat := fun h => htop ((topBit_iff bLo).mpr h)
    rw [if_neg htop, hdouble, hdouble]
    omega

/-- The two's complement. -/
theorem doubleWord_neg (hi lo : Word) :
    doubleWord (if ~~~lo + 1 = 0 then ~~~hi + 1 else ~~~hi) (~~~lo + 1) =
      (2 ^ 64 - doubleWord hi lo) % 2 ^ 64 := by
  have hhi := hi.isLt
  have hlo := lo.isLt
  have hone : (1 : Word).toNat = 1 := rfl
  have hnot (x : Word) : (~~~x).toNat = 2 ^ 32 - 1 - x.toNat := BitVec.toNat_not
  have hzero : ~~~lo + 1 = 0 ↔ lo.toNat = 0 := by
    rw [← BitVec.toNat_inj, BitVec.toNat_add, hnot, hone]
    show (2 ^ 32 - 1 - lo.toNat + 1) % 2 ^ 32 = 0 ↔ lo.toNat = 0
    omega
  unfold doubleWord
  by_cases hz : lo.toNat = 0
  · rw [if_pos (hzero.mpr hz), BitVec.toNat_add, BitVec.toNat_add, hnot, hnot, hone]
    omega
  · rw [if_neg (fun h => hz (hzero.mp h)), BitVec.toNat_add, hnot, hnot, hone]
    omega

/-! ## The loop -/

/-- The low bits of a word, after a shift that keeps the sign. -/
theorem sshiftRight_mod (a : Word) {n : Nat} (hn : n < 32) :
    (a.sshiftRight 1).toNat % 2 ^ n = a.toNat / 2 % 2 ^ n := by
  apply Nat.eq_of_testBit_eq
  intro i
  rw [Nat.testBit_mod_two_pow, Nat.testBit_mod_two_pow]
  by_cases hi : i < n
  · have hbit : (a.sshiftRight 1).toNat.testBit i = a.toNat.testBit (1 + i) := by
      have h := BitVec.getLsbD_sshiftRight a 1 i
      rw [if_pos (show 1 + i < 32 by omega)] at h
      simpa [BitVec.getLsbD, show ¬ 32 ≤ i by omega] using h
    rw [hbit, Nat.add_comm, Nat.testBit_succ]
  · simp [hi]

theorem odd_iff (a : Word) : a &&& 1 ≠ 0 ↔ a.toNat % 2 = 1 := by
  have hmask : (a &&& BitVec.ofNat 32 (2 ^ 1 - 1)).toNat = a.toNat % 2 ^ 1 := toNat_and_mask a (by decide)
  change (a &&& 1).toNat = _ at hmask
  rw [Ne, ← BitVec.toNat_inj, hmask]
  show ¬ a.toNat % 2 = 0 ↔ _
  omega

/-- No bit but the last one is left. -/
theorem toNat_eq_one {a : Word} (hodd : a &&& 1 ≠ 0) (hrest : a &&& 0xFFFFFFFE = 0) : a.toNat = 1 := by
  have hsplit : a = a &&& 1 ||| a &&& 0xFFFFFFFE := by
    rw [← BitVec.and_or_distrib_left]
    exact (BitVec.and_allOnes (x := a)).symm
  have hmask : (a &&& BitVec.ofNat 32 (2 ^ 1 - 1)).toNat = a.toNat % 2 ^ 1 := toNat_and_mask a (by decide)
  change (a &&& 1).toNat = _ at hmask
  have hor : a &&& 1 ||| (0 : Word) = a &&& 1 := BitVec.or_zero
  rw [hrest, hor] at hsplit
  rw [hsplit, hmask]
  exact (odd_iff a).mp hodd

/-- The rest of the product, with `b` doubled. -/
theorem add_mul_shift (acc rest v : Nat) :
    (acc + rest * (2 * v % 2 ^ 64)) % 2 ^ 64 = (acc + 2 * rest * v) % 2 ^ 64 := by
  have hcomm : 2 * rest * v = rest * (2 * v) := by rw [Nat.mul_comm 2 rest, Nat.mul_assoc]
  rw [hcomm]
  exact (Nat.ModEq.rfl).add ((Nat.mod_modEq (2 * v) (2 ^ 64)).mul_left rest)

/-- What the loop adds to `hi` and `lo`. -/
theorem multLoop_eq {n : Nat} (hn : n ≤ 32) (s : MultState) :
    doubleWord (multLoop n s).hi (multLoop n s).lo =
      (doubleWord s.hi s.lo + s.a.toNat % 2 ^ n * doubleWord s.bHi s.bLo) % 2 ^ 64 := by
  induction n generalizing s with
  | zero =>
    have hlt := doubleWord_lt s.hi s.lo
    simp only [multLoop, pow_zero, Nat.mod_one, Nat.zero_mul, Nat.add_zero]
    exact (Nat.mod_eq_of_lt hlt).symm
  | succ n ih =>
    -- the bits of `a` that are left after this round
    have hlow : s.a.toNat % 2 ^ (n + 1) = s.a.toNat % 2 + 2 * (s.a.toNat / 2 % 2 ^ n) := by
      rw [Nat.pow_succ', Nat.mod_mul]
    have hshift := sshiftRight_mod s.a (show n < 32 by omega)
    by_cases hodd : s.a &&& 1 ≠ 0
    · have hbit := (odd_iff s.a).mp hodd
      have hadd := doubleWord_add s.hi s.lo s.bHi s.bLo
      by_cases hrest : s.a &&& 0xFFFFFFFE = 0
      · have hone := toNat_eq_one hodd hrest
        have hmod : 1 % 2 ^ (n + 1) = 1 := Nat.mod_eq_of_lt (Nat.one_lt_two_pow (Nat.succ_ne_zero n))
        simp only [multLoop, if_pos hodd, hodd, hrest, ne_eq, not_false_eq_true, and_self, if_true]
        rw [hone, hmod, Nat.one_mul]
        exact hadd
      · simp only [multLoop, if_pos hodd, hrest, and_false, if_false]
        rw [ih (by omega)]
        dsimp only
        rw [hadd, doubleWord_shift, hshift, hlow, hbit, add_mul_shift, Nat.mod_add_mod, Nat.add_mul, Nat.one_mul,
          Nat.add_assoc]
    · have hbit : s.a.toNat % 2 = 0 := by
        have h := mt (odd_iff s.a).mpr hodd
        omega
      simp only [multLoop, if_neg hodd, hodd, false_and, if_false]
      rw [ih (by omega)]
      dsimp only
      rw [doubleWord_shift, hshift, hlow, hbit, add_mul_shift, Nat.zero_add]

/-! ## The product -/

/-- The absolute value of a word that is read with its sign. -/
theorem toNat_abs (a : Word) : (if a.msb then -a else a).toNat = a.toInt.natAbs := by
  have ha := a.isLt
  rw [BitVec.toInt_eq_msb_cond]
  by_cases hneg : a.msb = true
  · have hbig : 2 ^ 31 ≤ a.toNat := by
      rw [BitVec.msb_eq_decide, decide_eq_true_eq] at hneg
      exact hneg
    rw [if_pos hneg, if_pos hneg, BitVec.toNat_neg]
    omega
  · rw [if_neg hneg, if_neg hneg]
    omega

/-- `Mult` without a sign. -/
theorem multLoop_product (a b : Word) :
    doubleWord (multLoop 32 { a := a, bLo := b, bHi := 0, lo := 0, hi := 0 }).hi
      (multLoop 32 { a := a, bLo := b, bHi := 0, lo := 0, hi := 0 }).lo = a.toNat * b.toNat := by
  have ha := a.isLt
  have hb := b.isLt
  have hzero : (0 : Word).toNat = 0 := rfl
  have hlt : a.toNat * b.toNat < 2 ^ 32 * 2 ^ 32 := Nat.mul_lt_mul'' ha hb
  rw [multLoop_eq (Nat.le_refl 32)]
  dsimp only
  unfold doubleWord
  rw [hzero, Nat.zero_mul, Nat.zero_add, Nat.zero_add, Nat.mod_eq_of_lt ha]
  exact Nat.mod_eq_of_lt hlt

/-- The sign that `Mult` gives to the product. -/
theorem toInt_mul_eq (a b : Word) :
    a.toInt * b.toInt =
      if (a.msb != b.msb) = true then -((a.toInt.natAbs * b.toInt.natAbs : Nat) : Int)
      else ((a.toInt.natAbs * b.toInt.natAbs : Nat) : Int) := by
  have hsign (x : Word) : x.toInt = if x.msb = true then -(x.toInt.natAbs : Int) else x.toInt.natAbs := by
    have hx := BitVec.msb_eq_toInt (x := x)
    by_cases hm : x.msb = true
    · rw [if_pos hm]
      rw [hx, decide_eq_true_eq] at hm
      omega
    · rw [if_neg hm]
      rw [hx, decide_eq_true_eq] at hm
      omega
  rw [Int.natCast_mul]
  by_cases ha : a.msb = true <;> by_cases hb : b.msb = true
  · have hne : ¬ (a.msb != b.msb) = true := by simp [ha, hb]
    rw [if_neg hne, hsign a, hsign b, if_pos ha, if_pos hb, Int.neg_mul_neg, Int.natAbs_neg, Int.natAbs_neg,
      Int.natAbs_natCast, Int.natAbs_natCast]
  · have hne : (a.msb != b.msb) = true := by simp [ha, hb]
    rw [if_pos hne, hsign a, hsign b, if_pos ha, if_neg hb, Int.neg_mul, Int.natAbs_neg, Int.natAbs_natCast,
      Int.natAbs_natCast]
  · have hne : (a.msb != b.msb) = true := by simp [ha, hb]
    rw [if_pos hne, hsign a, hsign b, if_neg ha, if_pos hb, Int.mul_neg, Int.natAbs_neg, Int.natAbs_natCast,
      Int.natAbs_natCast]
  · have hne : ¬ (a.msb != b.msb) = true := by simp [ha, hb]
    rw [if_neg hne, hsign a, hsign b, if_neg ha, if_neg hb, Int.natAbs_natCast, Int.natAbs_natCast]

theorem natAbs_toInt_le (a : Word) : a.toInt.natAbs ≤ 2 ^ 31 := by
  have h1 := BitVec.le_toInt a
  have h2 := BitVec.toInt_lt (x := a)
  omega

theorem toInt_append (hi lo : Word) :
    (hi ++ lo).toInt =
      if 2 * doubleWord hi lo < 2 ^ 64 then (doubleWord hi lo : Int) else (doubleWord hi lo : Int) - 2 ^ 64 := by
  rw [BitVec.toInt_eq_toNat_cond, toNat_append]
  rfl

/-- `Mult` of words that are read with their signs. -/
theorem mult_signed (a b : Word) : ((mult a b true).1 ++ (mult a b true).2).toInt = a.toInt * b.toInt := by
  by_cases hzero : a = 0 ∨ b = 0
  · have hmult : mult a b true = (0, 0) := by rw [mult, if_pos hzero]
    rw [hmult]
    rcases hzero with rfl | rfl
    · exact (Int.zero_mul _).symm
    · exact (Int.mul_zero _).symm
  · obtain ⟨ha, hb⟩ := not_or.mp hzero
    have hv := multLoop_product (if a.msb then -a else a) (if b.msb then -b else b)
    rw [toNat_abs, toNat_abs] at hv
    -- the product of the absolute values is not zero, and at most `2^62`
    have hle : a.toInt.natAbs * b.toInt.natAbs ≤ 2 ^ 31 * 2 ^ 31 :=
      Nat.mul_le_mul (natAbs_toInt_le a) (natAbs_toInt_le b)
    have hpos : 0 < a.toInt.natAbs * b.toInt.natAbs := by
      refine Nat.mul_pos (Int.natAbs_pos.mpr fun h => ha ?_) (Int.natAbs_pos.mpr fun h => hb ?_)
      · exact BitVec.eq_of_toInt_eq (h.trans rfl)
      · exact BitVec.eq_of_toInt_eq (h.trans rfl)
    simp only [mult, if_neg hzero, Bool.true_and]
    generalize multLoop 32 _ = s at hv
    rw [toInt_mul_eq, ← hv]
    rw [← hv] at hle hpos
    by_cases hneg : (a.msb != b.msb) = true
    · simp only [if_pos hneg]
      rw [toInt_append, doubleWord_neg]
      have hbig : ¬ 2 * ((2 ^ 64 - doubleWord s.hi s.lo) % 2 ^ 64) < 2 ^ 64 := by omega
      rw [if_neg hbig]
      omega
    · simp only [if_neg hneg]
      rw [toInt_append, if_pos (by omega)]

/-- `Mult` of words that are read without signs. -/
theorem mult_unsigned (a b : Word) :
    ((mult a b false).1 ++ (mult a b false).2).toNat = a.toNat * b.toNat := by
  by_cases hzero : a = 0 ∨ b = 0
  · have hmult : mult a b false = (0, 0) := by rw [mult, if_pos hzero]
    rw [hmult]
    rcases hzero with rfl | rfl
    · exact (Nat.zero_mul _).symm
    · exact (Nat.mul_zero _).symm
  · simp only [mult, if_neg hzero, Bool.false_and, Bool.false_eq_true, if_false]
    rw [toNat_append, multLoop_product]

/-- `Mult` stores the product of all words, whether they are read with their signs or without. -/
theorem mult_exact (a b : Word) :
    ((mult a b true).1 ++ (mult a b true).2).toInt = a.toInt * b.toInt ∧
      ((mult a b false).1 ++ (mult a b false).2).toNat = a.toNat * b.toNat :=
  ⟨mult_signed a b, mult_unsigned a b⟩

example : mult 0x80000000 0x80000000 true = (0x40000000, 0) := by decide

end Nachos.Mips
