import Nachos.Lib.Bitmap

/-!
# Proofs: bitmaps

What `Test` answers after `Mark` and `Clear`, what `Find` returns, and how `CountClear` follows them.
-/

namespace Nachos.Bitmap

@[simp]
theorem numBits_mark (b : Bitmap) (i : Nat) : (b.mark i).numBits = b.numBits := rfl

@[simp]
theorem numBits_clear (b : Bitmap) (i : Nat) : (b.clear i).numBits = b.numBits := rfl

/-- The word of a bit of the bitmap exists. -/
theorem word_lt {b : Bitmap} {i : Nat} (hi : i < b.numBits) : i / bitsInWord < b.map.length := by
  have hw := b.numWords_eq
  unfold divRoundUp at hw
  unfold bitsInWord at *
  split at hw <;> omega

/-- `Test` reads one bit of one word. -/
theorem test_eq (b : Bitmap) (i : Nat) :
    b.test i = (b.map.getD (i / bitsInWord) 0).getLsbD (i % bitsInWord) := by
  unfold test
  rw [show mask i = BitVec.twoPow 32 (i % bitsInWord) from (BitVec.twoPow_eq _ _).symm,
    BitVec.and_twoPow]
  have hlt : i % bitsInWord < 32 := Nat.mod_lt _ (by decide)
  have hne : BitVec.twoPow 32 (i % bitsInWord) ≠ 0 := by
    intro h0
    have h1 := BitVec.toNat_twoPow_of_lt hlt
    rw [h0] at h1
    have hpos := Nat.two_pow_pos (i % bitsInWord)
    simp at h1
    omega
  generalize b.map.getD (i / bitsInWord) 0 = w
  cases h : w.getLsbD (i % bitsInWord) with
  | true => simpa using hne
  | false => simp

/-- The bit of a mask that is set. -/
theorem getLsbD_mask (i k : Nat) : (mask i).getLsbD k = decide (i % bitsInWord = k) := by
  have hlt : i % bitsInWord < 32 := Nat.mod_lt _ (by decide)
  rw [show mask i = BitVec.twoPow 32 (i % bitsInWord) from (BitVec.twoPow_eq _ _).symm,
    BitVec.getLsbD_twoPow]
  simp [hlt]

/-- Two bits are the same when word and position in the word are. -/
theorem eq_of_word {i j : Nat} (hd : i / bitsInWord = j / bitsInWord)
    (hm : i % bitsInWord = j % bitsInWord) : i = j := by
  unfold bitsInWord at *
  omega

/-- `Mark` sets its own bit and no other. -/
theorem test_mark {b : Bitmap} {i : Nat} (hi : i < b.numBits) (j : Nat) :
    (b.mark i).test j = (decide (i = j) || b.test j) := by
  rw [test_eq, test_eq, mark]
  simp only [List.getD_eq_getElem?_getD, List.getElem?_modify]
  by_cases hd : i / bitsInWord = j / bitsInWord
  · have hlt := word_lt hi
    rw [hd] at hlt
    simp only [hd, if_true, List.getElem?_eq_getElem hlt, Option.map_eq_map, Option.map_some,
      Option.getD_some, BitVec.getLsbD_or, getLsbD_mask]
    have hij : decide (i % bitsInWord = j % bitsInWord) = decide (i = j) :=
      decide_eq_decide.mpr ⟨fun hm => eq_of_word hd hm, fun e => by rw [e]⟩
    rw [hij, Bool.or_comm]
  · have hne : i ≠ j := fun e => hd (by rw [e])
    simp [hd, hne]

/-- `Clear` clears its own bit and no other. -/
theorem test_clear (b : Bitmap) (i j : Nat) :
    (b.clear i).test j = (!decide (i = j) && b.test j) := by
  rw [test_eq, test_eq, clear]
  simp only [List.getD_eq_getElem?_getD, List.getElem?_modify]
  have hj : j % bitsInWord < 32 := Nat.mod_lt _ (by decide)
  by_cases hd : i / bitsInWord = j / bitsInWord
  · simp only [hd, if_true]
    cases hw : b.map[j / bitsInWord]? with
    | none => simp
    | some w =>
      simp only [Option.map_eq_map, Option.map_some, Option.getD_some, BitVec.getLsbD_and, BitVec.getLsbD_not,
        getLsbD_mask, hj, decide_true, Bool.true_and]
      have hij : decide (i % bitsInWord = j % bitsInWord) = decide (i = j) :=
        decide_eq_decide.mpr ⟨fun hm => eq_of_word hd hm, fun e => by rw [e]⟩
      rw [hij, Bool.and_comm]
  · have hne : i ≠ j := fun e => hd (by rw [e])
    simp [hd, hne]

theorem numBits_foldl_clear (l : List Nat) (b : Bitmap) : (l.foldl clear b).numBits = b.numBits := by
  induction l generalizing b with
  | nil => rfl
  | cons i l ih => simp [ih]

theorem test_foldl_clear (l : List Nat) (b : Bitmap) (j : Nat) :
    (l.foldl clear b).test j = (!decide (j ∈ l) && b.test j) := by
  induction l generalizing b with
  | nil => simp
  | cons i l ih =>
    rw [List.foldl_cons, ih, test_clear]
    by_cases hij : i = j
    · simp [hij]
    · have hji : j ≠ i := fun e => hij e.symm
      simp [hij, hji]

@[simp]
theorem numBits_new (n : Nat) (heap : Nat → Word) : (new n heap).numBits = n := by
  unfold new
  rw [numBits_foldl_clear]

/-- A new bitmap has no bit set, whatever the allocated memory held. -/
theorem test_new {n i : Nat} (heap : Nat → Word) (hi : i < n) : (new n heap).test i = false := by
  unfold new
  rw [test_foldl_clear]
  simp [hi]

/-- A bitmap is given by its number of bits and its words. -/
theorem ext {b b' : Bitmap} (hn : b.numBits = b'.numBits) (hmap : b.map = b'.map) : b = b' := by
  cases b
  cases b'
  cases hn
  cases hmap
  rfl

/-- Clearing a bit of words that are zero changes none of them. -/
theorem modify_replicate_zero (n i k : Nat) :
    (List.replicate n (0 : Word)).modify i (fun w => w &&& ~~~mask k) = List.replicate n 0 := by
  refine List.ext_getElem (by simp) fun j _ _ => ?_
  rw [List.getElem_modify]
  split <;> simp

/-- In memory that holds zeros, a new bitmap is its words of zeros. -/
theorem new_zero (n : Nat) :
    new n (fun _ => 0) = ⟨n, List.replicate (divRoundUp n bitsInWord) 0, List.length_replicate ..⟩ := by
  have hfold : ∀ (l : List Nat) (b : Bitmap), b.map = List.replicate (divRoundUp n bitsInWord) 0 →
      (l.foldl clear b).map = List.replicate (divRoundUp n bitsInWord) 0 := by
    intro l
    induction l with
    | nil => exact fun b hmap => hmap
    | cons i l ih =>
      intro b hmap
      refine ih (b.clear i) ?_
      have hclear : (b.clear i).map = b.map.modify (i / bitsInWord) fun w => w &&& ~~~mask i := rfl
      rw [hclear, hmap]
      exact modify_replicate_zero ..
  have hmap : (new n fun _ => 0).map = List.replicate (divRoundUp n bitsInWord) 0 :=
    hfold _ _ (List.ext_getElem (by simp) fun j _ _ => by simp)
  exact ext (numBits_new n _) hmap

/-- `Find` answers the first clear bit. -/
theorem find_some {b b' : Bitmap} {i : Nat} (h : b.find = (some i, b')) :
    i < b.numBits ∧ b.test i = false ∧ (∀ j < i, b.test j = true) ∧ b' = b.mark i := by
  unfold find at h
  split at h
  · rename_i k hk
    simp only [Prod.mk.injEq, Option.some.injEq] at h
    obtain ⟨rfl, rfl⟩ := h
    simp only [List.find?_range_eq_some, Bool.not_eq_eq_eq_not, Bool.not_true, List.mem_range,
      Bool.not_not] at hk
    exact ⟨hk.2.1, hk.1, hk.2.2, rfl⟩
  · simp at h

/-- `Find` answers nothing exactly when every bit is set. -/
theorem find_none {b b' : Bitmap} (h : b.find = (none, b')) :
    b' = b ∧ ∀ i < b.numBits, b.test i = true := by
  unfold find at h
  split at h
  · simp at h
  · rename_i hn
    simp only [Prod.mk.injEq, true_and] at h
    refine ⟨h.symm, fun i hi => ?_⟩
    simpa using List.find?_eq_none.mp hn i (List.mem_range.mpr hi)

/-- With a clear bit, `Find` finds one. -/
theorem find_of_clear {b : Bitmap} {i : Nat} (hi : i < b.numBits) (hc : b.test i = false) :
    ∃ k, b.find = (some k, b.mark k) := by
  cases hf : b.find with
  | mk o b' =>
    cases o with
    | none => exact absurd ((find_none hf).2 i hi) (by simp [hc])
    | some k => exact ⟨k, by rw [(find_some hf).2.2.2]⟩

/-- A bitmap with clear bits has one. -/
theorem exists_clear_of_countClear_pos {b : Bitmap} (h : 0 < b.countClear) :
    ∃ i < b.numBits, b.test i = false := by
  obtain ⟨i, hi, hc⟩ := List.countP_pos_iff.mp h
  exact ⟨i, List.mem_range.mp hi, by simpa using hc⟩

/-- Every bit of a new bitmap is clear. -/
theorem countClear_new (n : Nat) (heap : Nat → Word) : (new n heap).countClear = n := by
  have hall : ∀ i ∈ List.range n, (!(new n heap).test i) = true := by
    intro i hi
    rw [test_new heap (List.mem_range.mp hi), Bool.not_false]
  unfold countClear
  rw [numBits_new, List.countP_eq_length.mpr hall, List.length_range]

/-- Where every bit is set, none is counted. -/
theorem countClear_eq_zero {b : Bitmap} (hall : ∀ i < b.numBits, b.test i = true) : b.countClear = 0 := by
  refine List.countP_eq_zero.mpr fun i hi => ?_
  simp [hall i (List.mem_range.mp hi)]

/-- To mark a clear bit takes one from the clear bits. -/
theorem countClear_mark {b : Bitmap} {i : Nat} (hi : i < b.numBits) (hc : b.test i = false) :
    (b.mark i).countClear + 1 = b.countClear := by
  have hsplit : List.range b.numBits =
      List.range i ++ i :: (List.range (b.numBits - i - 1)).map (i + 1 + ·) := by
    have h1 : b.numBits = i + 1 + (b.numBits - i - 1) := by omega
    conv_lhs => rw [h1, List.range_add, List.range_succ]
    simp
  have hleft : (List.range i).countP (fun j => !(b.mark i).test j) =
      (List.range i).countP fun j => !b.test j := by
    apply List.countP_congr
    intro j hj
    have hne : i ≠ j := by have := List.mem_range.mp hj; omega
    simp [test_mark hi, hne]
  have hright (l : List Nat) : (l.map (i + 1 + ·)).countP (fun j => !(b.mark i).test j) =
      (l.map (i + 1 + ·)).countP fun j => !b.test j := by
    apply List.countP_congr
    intro j hj
    obtain ⟨k, -, rfl⟩ := List.mem_map.mp hj
    have hne : i ≠ i + 1 + k := by omega
    simp [test_mark hi, hne]
  unfold countClear
  rw [numBits_mark, hsplit, List.countP_append, List.countP_append, List.countP_cons,
    List.countP_cons, hleft, hright]
  simp [test_mark hi, hc]
  omega

/-! ## The first bits -/

/-- The first `k` bits are set and no others. -/
def FirstMarked (b : Bitmap) (k : Nat) : Prop := ∀ i < b.numBits, b.test i = decide (i < k)

section FirstMarked

variable {b : Bitmap} {k : Nat}

theorem firstMarked_new (n : Nat) (heap : Nat → Word) : FirstMarked (new n heap) 0 := by
  intro i hi
  rw [numBits_new] at hi
  rw [test_new heap hi, decide_eq_false (Nat.not_lt_zero i)]

theorem FirstMarked.test_of_lt (h : FirstMarked b k) (hk : k ≤ b.numBits) {i : Nat} (hi : i < k) :
    b.test i = true := by
  rw [h i (Nat.lt_of_lt_of_le hi hk), decide_eq_true hi]

theorem FirstMarked.mark (h : FirstMarked b k) (hk : k < b.numBits) : FirstMarked (b.mark k) (k + 1) := by
  intro i hi
  rw [test_mark hk, h i hi, ← Bool.decide_or]
  exact decide_eq_decide.mpr (by omega)

/-- Marking the bits from 0 on, one after the other, in a new bitmap. -/
theorem firstMarked_marks {n : Nat} (heap : Nat → Word) (hk : k ≤ n) :
    ((List.range k).foldl Bitmap.mark (new n heap)).numBits = n ∧
      FirstMarked ((List.range k).foldl Bitmap.mark (new n heap)) k := by
  induction k with
  | zero => exact ⟨numBits_new n heap, firstMarked_new n heap⟩
  | succ k ih =>
    obtain ⟨hbits, hmarked⟩ := ih (Nat.le_of_succ_le hk)
    rw [List.range_succ, List.foldl_append, List.foldl_cons, List.foldl_nil]
    exact ⟨hbits, hmarked.mark (hbits.symm ▸ hk)⟩

/-- `Find` takes the next bit. -/
theorem FirstMarked.find (h : FirstMarked b k) (hk : k < b.numBits) : b.find = (some k, b.mark k) := by
  have hfree : b.test k = false := by rw [h k hk, decide_eq_false (Nat.lt_irrefl k)]
  obtain ⟨i, hfind⟩ := find_of_clear hk hfree
  obtain ⟨hi, hclear, hbelow, -⟩ := find_some hfind
  rw [h i hi, decide_eq_false_iff_not] at hclear
  have hik : i = k := by
    by_contra hne
    have hset := hbelow k (by omega)
    rw [hfree] at hset
    cases hset
  rw [hfind, hik]

theorem FirstMarked.countClear_eq (h : FirstMarked b k) : b.countClear = b.numBits - k := by
  have hcount : ∀ n, (List.range n).countP (fun i => !decide (i < k)) = n - k := by
    intro n
    induction n with
    | zero => simp
    | succ n ih =>
      rw [List.range_succ, List.countP_append, ih, List.countP_singleton]
      by_cases hn : n < k
      · simp [hn]
        omega
      · simp [hn]
        omega
  rw [countClear, ← hcount b.numBits]
  refine List.countP_congr fun i hi => ?_
  rw [h i (List.mem_range.mp hi)]

end FirstMarked

end Nachos.Bitmap
