import Mathlib.Data.List.Forall2
import Nachos.Userprog.Args

/-!
# Proofs about the arguments of a program

The strings of the parent are cut at the size of a buffer. In the child each string is written below the one
before it, without its terminator: the byte above it has to be zero already. An empty string is written with
its terminator and with the garbage behind it in its buffer.
-/

namespace Nachos

open Foundations

variable {mem : UserMemory} {address p : Word} {w : List UInt8} {ws : List (List UInt8)}
  {heap : Nat → Nat → UInt8} {garbage : Nat → UInt8}

/-! ## The parent -/

theorem guard_pos {q : Prop} [Decidable q] (h : q) : (guard q : Option Unit) = some () := if_pos h

theorem UserString.not_mem (h : UserString mem p w) : 0 ∉ w := by
  induction w generalizing p with
  | nil => exact List.not_mem_nil
  | cons b w ih =>
    obtain ⟨hb, -, hw⟩ := h
    rw [List.mem_cons, not_or]
    exact ⟨fun h => hb h.symm, ih hw⟩

/-- What is read of a string: all of it, or as much as fits. -/
def cutString (n : Nat) (w : List UInt8) : List UInt8 × Bool := (w.take n, decide (w.length < n))

theorem readChars_eq (h : UserString mem p w) (n : Nat) : readChars mem p n = some (cutString n w) := by
  induction n generalizing p w with
  | zero =>
    unfold cutString
    rw [List.take_zero]
    rfl
  | succ n ih =>
    unfold readChars
    cases w with
    | nil =>
      change mem p = some 0 at h
      rw [h]
      rfl
    | cons b w =>
      obtain ⟨hb, hp, hw⟩ := h
      have hlt : decide ((b :: w).length < n + 1) = decide (w.length < n) := by
        rw [List.length_cons]
        exact decide_eq_decide.mpr Nat.succ_lt_succ_iff
      show Option.bind (mem p) _ = _
      rw [hp]
      show (if b = 0 then _ else Option.bind (readChars mem (p + 1#32) n) _) = _
      rw [if_neg hb, ih hw]
      unfold cutString
      rw [hlt, List.take_succ_cons]
      rfl

/-- The strings at an array of pointers. -/
def AtPointers (mem : UserMemory) (ps : List Word) (ws : List (List UInt8)) : Prop :=
  List.Forall₂ (fun p w => p ≠ 0#32 ∧ UserString mem p w) ps ws

theorem aligned_next {a : Word} (h : a.toNat % 4 = 0) : (a + 4#32).toNat % 4 = 0 := by
  rw [BitVec.toNat_add]
  show (a.toNat + 4) % 2 ^ 32 % 4 = 0
  omega

theorem readPointers_eq {n : Nat} (h : UserStrings mem address ws) (ha : address.toNat % 4 = 0)
    (hn : ws.length < n) : ∃ ps, readPointers mem address n = some (ps, true) ∧ AtPointers mem ps ws := by
  induction n generalizing address ws with
  | zero => nomatch hn
  | succ n ih =>
    have hread : readWord mem address = wordAt mem address := by
      unfold readWord
      rw [guard_pos ha]
      rfl
    unfold readPointers
    rw [hread]
    cases ws with
    | nil =>
      change wordAt mem address = some 0#32 at h
      rw [h]
      exact ⟨[], rfl, .nil⟩
    | cons w ws =>
      obtain ⟨p, hp, hne, hw, hws⟩ := h
      obtain ⟨ps, hps, hat⟩ := ih hws (aligned_next ha) (Nat.lt_of_succ_lt_succ hn)
      rw [hp]
      show ∃ ps, (if p = 0#32 then _ else Option.bind (readPointers mem (address + 4#32) n) _) = _ ∧ _
      rw [if_neg hne, hps]
      exact ⟨p :: ps, rfl, .cons ⟨hne, hw⟩ hat⟩

theorem mapM_readString {ps : List Word} (h : AtPointers mem ps ws) :
    ps.mapM (fun p => readStringFromUser mem p maxArgLength) = some (ws.map (cutString maxArgLength)) := by
  induction h with
  | nil => rfl
  | @cons p w ps ws hp _ ih =>
    have hread : readStringFromUser mem p maxArgLength = some (cutString maxArgLength w) := by
      unfold readStringFromUser
      rw [guard_pos hp.1]
      exact readChars_eq hp.2 maxArgLength
    rw [List.mapM_cons, hread, ih]
    rfl

/-- `SaveArgs` succeeds on an array with fewer strings than `MAX_ARG_COUNT`. -/
theorem saveArgBuffers_eq (h : HoldsArgv mem address ws) (hn : ws.length < maxArgCount)
    (heap : Nat → Nat → UInt8) :
    saveArgBuffers heap mem address = some (some (savedStrings heap (ws.map (cutString maxArgLength)))) := by
  obtain ⟨ps, hps, hat⟩ := readPointers_eq h.strings h.aligned hn
  unfold saveArgBuffers
  rw [guard_pos h.ne_zero, hps]
  show Option.bind (ps.mapM fun p => readStringFromUser mem p maxArgLength)
    (fun strings => some (some (savedStrings heap strings))) = _
  rw [mapM_readString hat]
  rfl

theorem UserStrings.not_mem (h : UserStrings mem address ws) : ∀ w ∈ ws, 0 ∉ w := by
  induction ws generalizing address with
  | nil =>
    intro w hw
    nomatch hw
  | cons v ws ih =>
    obtain ⟨p, -, -, hv, hws⟩ := h
    intro w hw
    rcases List.mem_cons.mp hw with h | h
    · rw [h]
      exact hv.not_mem
    · exact ih hws w h

/-- The buffer of a string that fits. -/
theorem savedString_short (hw : w.length < maxArgLength) (garbage : Nat → UInt8) :
    savedString garbage (cutString maxArgLength w) =
      w ++ 0 :: (newCharBuffer garbage).drop (w.length + 1) := by
  have htake : w.take maxArgLength = w := List.take_of_length_le (Nat.le_of_lt hw)
  unfold savedString cutString
  simp [htake, hw]

/-- The buffer of a string that does not fit has no terminator. -/
theorem savedString_long (hw : maxArgLength ≤ w.length) (h0 : 0 ∉ w) (garbage : Nat → UInt8) :
    0 ∉ savedString garbage (cutString maxArgLength w) := by
  have hlen : (w.take maxArgLength).length = maxArgLength := by
    rw [List.length_take, Nat.min_eq_left hw]
  have hbuffer : (newCharBuffer garbage).drop maxArgLength = [] := by
    apply List.drop_of_length_le
    unfold newCharBuffer
    rw [List.length_map, List.length_range]
  have hnot : ¬ w.length < maxArgLength := Nat.not_lt.mpr hw
  unfold savedString cutString
  simp only [hnot, decide_false, Bool.false_eq_true, if_false, List.append_nil, hlen, hbuffer]
  exact fun hm => h0 (List.mem_of_mem_take hm)

/-- The buffers of strings, one by one. -/
theorem forall₂_savedStrings (heap : Nat → Nat → UInt8) (ws : List (List UInt8)) :
    List.Forall₂ (fun w buffer => ∃ i, buffer = savedString (heap i) (cutString maxArgLength w)) ws
      (savedStrings heap (ws.map (cutString maxArgLength))) := by
  unfold savedStrings
  induction ws generalizing heap with
  | nil => exact .nil
  | cons w ws ih =>
    rw [List.map_cons, List.mapIdx_cons]
    refine .cons ⟨0, rfl⟩ ?_
    refine (ih fun i => heap (i + 1)).imp ?_
    rintro v buffer ⟨i, hi⟩
    exact ⟨i + 1, hi⟩

/-! ## Writing into the child -/

section

variable {c c' : Child} {a sp : Nat} {bs cs junk buffer : List UInt8} {b : UInt8}

namespace Child

@[simp]
theorem top_put (c : Child) (a : Nat) (bs : List UInt8) : (c.put a bs).top = c.top := rfl

theorem put_append (c : Child) (a : Nat) (bs cs : List UInt8) :
    (c.put a bs).put (a + bs.length) cs = c.put a (bs ++ cs) := by
  unfold put
  have hmap : (List.range (bs ++ cs).length).map (a + ·) =
      (List.range bs.length).map (a + ·) ++ (List.range cs.length).map (a + bs.length + ·) := by
    rw [List.length_append, List.range_add, List.map_append, List.map_map]
    simp [Function.comp_def, Nat.add_assoc]
  simp only [blit_append, hmap, List.append_assoc]

theorem writeByte_ok (ha : a < c.top) (b : UInt8) : c.writeByte a b = some (c.put a [b]) := by
  unfold writeByte
  rw [if_pos ⟨Int.natCast_nonneg a, Int.ofNat_lt.mpr ha⟩, Int.toNat_natCast]

/-- The loop writes a byte and those behind it up to the terminator. -/
theorem writeStringLoop_eq (h0 : 0 ∉ bs) (ha : a + bs.length < c.top) (b : UInt8) (junk : List UInt8) :
    c.writeStringLoop a (b :: (bs ++ 0 :: junk)) = .ok (c.put a (b :: bs)) := by
  induction bs generalizing c a b with
  | nil =>
    have hlt : a < c.top := ha
    unfold writeStringLoop
    rw [writeByte_ok hlt]
    rfl
  | cons d bs ih =>
    rw [List.mem_cons, not_or] at h0
    rw [List.length_cons] at ha
    have hlt : a < c.top := by omega
    have hd : ¬ some d = some 0 := fun h => h0.1 (Option.some.inj h).symm
    have hnext : (c.put a [b]).writeStringLoop ((a + 1 : Nat) : Int) (d :: (bs ++ 0 :: junk)) =
        .ok ((c.put a [b]).put (a + 1) (d :: bs)) := ih h0.2 (by rw [top_put]; omega) d
    unfold writeStringLoop
    rw [writeByte_ok hlt]
    show (if some d = some 0 then _ else (c.put a [b]).writeStringLoop ((a : Int) + 1) _) = _
    rw [if_neg hd]
    exact hnext.trans (congrArg _ (put_append c a [b] (d :: bs)))

end Child

/-- What is written of a string: not its terminator, except if it is empty. -/
def pushedBytes (w : List UInt8) : List UInt8 := if w = [] then [0] else w

/-- The buffer holds the string, and an empty string has a zero behind it. -/
def Writable (w buffer : List UInt8) : Prop := 0 ∉ w ∧ ∃ junk, buffer = pushedBytes w ++ 0 :: junk

theorem strlen_eq (h0 : 0 ∉ w) (junk : List UInt8) : strlen (w ++ 0 :: junk) = some w.length := by
  have hmem : (0 : UInt8) ∈ w ++ 0 :: junk := by simp
  have htake : (w ++ 0 :: junk).takeWhile (· ≠ 0) = w := by
    rw [List.takeWhile_append_of_pos]
    · simp
    · intro x hx
      exact decide_eq_true fun h => h0 (h ▸ hx)
  unfold strlen
  rw [if_pos hmem, htake]

theorem Writable.strlen (h : Writable w buffer) : strlen buffer = some w.length := by
  obtain ⟨h0, junk, rfl⟩ := h
  unfold pushedBytes
  by_cases hw : w = []
  · rw [if_pos hw, hw]
    have hnil : (0 : UInt8) ∉ ([] : List UInt8) := List.not_mem_nil
    exact strlen_eq hnil (0 :: junk)
  · rw [if_neg hw]
    exact strlen_eq h0 junk

theorem Writable.write (h : Writable w buffer) (ha : 0 < a) (htop : a + w.length < c.top) :
    c.writeStringToUser buffer a = .ok (c.put a (pushedBytes w)) := by
  obtain ⟨h0, junk, rfl⟩ := h
  have hne : ¬ (a : Int) = 0 := by omega
  unfold Child.writeStringToUser pushedBytes
  rw [if_neg hne]
  cases w with
  | nil =>
    rw [if_pos rfl]
    have hnil : (0 : UInt8) ∉ ([] : List UInt8) := List.not_mem_nil
    exact Child.writeStringLoop_eq hnil htop 0 junk
  | cons b bs =>
    rw [if_neg (List.cons_ne_nil b bs)]
    rw [List.mem_cons, not_or] at h0
    rw [List.length_cons] at htop
    exact Child.writeStringLoop_eq h0.2 (by omega) b junk

/-! ## The strings -/

/-- The addresses of the strings. -/
def argAddresses : Nat → List (List UInt8) → List Nat
  | _, [] => []
  | sp, w :: ws => (sp - (w.length + 1)) :: argAddresses (sp - (w.length + 1)) ws

/-- The child after the strings have been written. -/
def pushedChild (c : Child) : Nat → List (List UInt8) → Child
  | _, [] => c
  | sp, w :: ws => pushedChild (c.put (sp - (w.length + 1)) (pushedBytes w)) (sp - (w.length + 1)) ws

theorem bytesOf_cons (w : List UInt8) (ws : List (List UInt8)) :
    bytesOf (w :: ws) = w.length + 1 + bytesOf ws := rfl

variable {buffers : List (List UInt8)}

/-- The first loop of `WriteArgs`, where the strings are inside the address space. -/
theorem pushStrings_ok (h : List.Forall₂ Writable ws buffers) (hsp : bytesOf ws < sp) (htop : sp ≤ c.top) :
    pushStrings c sp buffers = .ok
      { child := pushedChild c sp ws
        sp := ((sp - bytesOf ws : Nat) : Int)
        argsAddress := (argAddresses sp ws).map Int.ofNat } := by
  induction h generalizing c sp with
  | nil => rfl
  | @cons w buffer ws buffers hw _ ih =>
    rw [bytesOf_cons] at hsp
    have haddr : (sp : Int) - ((w.length : Int) + 1) = ((sp - (w.length + 1) : Nat) : Int) := by omega
    have hwrite : c.writeStringToUser buffer ((sp - (w.length + 1) : Nat) : Int) = _ :=
      hw.write (by omega) (by omega)
    have hsub : sp - (w.length + 1) - bytesOf ws = sp - (w.length + 1 + bytesOf ws) := by omega
    have hlt : bytesOf ws < sp - (w.length + 1) := by omega
    have hle : sp - (w.length + 1) ≤ (c.put (sp - (w.length + 1)) (pushedBytes w)).top := by
      rw [Child.top_put]
      omega
    have hrest := ih hlt hle
    unfold pushStrings
    rw [hw.strlen]
    simp only [haddr]
    rw [hwrite]
    show (pushStrings _ _ buffers >>= _ : Except Child Pushed) = _
    rw [hrest]
    rw [hsub, bytesOf_cons]
    rfl

/-- Outside of the place of the strings nothing has changed. -/
theorem pushedChild_outside {x : Nat} (hne : ∀ w ∈ ws, w ≠ []) (hsp : bytesOf ws ≤ sp)
    (hx : x < sp - bytesOf ws ∨ sp ≤ x) : (pushedChild c sp ws).mem x = c.mem x := by
  induction ws generalizing c sp with
  | nil => rfl
  | cons w ws ih =>
    rw [bytesOf_cons] at hsp hx
    have hw : pushedBytes w = w := if_neg (hne w (List.mem_cons_self ..))
    have hle : bytesOf ws ≤ sp - (w.length + 1) := by omega
    have hrest := ih (c := c.put (sp - (w.length + 1)) (pushedBytes w))
      (fun v hv => hne v (List.mem_cons_of_mem w hv)) hle (by omega)
    refine hrest.trans (blit_outside ?_)
    rw [hw]
    omega

theorem numPages_pushedChild (c : Child) (sp : Nat) (ws : List (List UInt8)) :
    (pushedChild c sp ws).numPages = c.numPages := by
  induction ws generalizing c sp with
  | nil => rfl
  | cons w ws ih => exact ih _ _

/-- What stands at the address of a string: its bytes, and above them what has been there before. -/
structure PushedAt (c c' : Child) (sp : Nat) (ws : List (List UInt8)) (p : Nat) (w : List UInt8) : Prop where
  bytes : slice c'.mem p w.length = w
  above : c'.mem (p + w.length) = c.mem (p + w.length)
  below : p + w.length < sp
  inside : sp ≤ p + bytesOf ws
  last : sp ≤ p + w.length + 1 + bytesOf ws.dropLast

/-- A string of what remains is one of all. -/
theorem PushedAt.cons {v : List UInt8} {q : Nat} (hne : ws ≠ [])
    (hsp : w.length + 1 ≤ sp)
    (h : PushedAt (c.put (sp - (w.length + 1)) (pushedBytes w)) c' (sp - (w.length + 1)) ws q v) :
    PushedAt c c' sp (w :: ws) q v := by
  obtain ⟨hbytes, habove, hbelow, hinside, hlast⟩ := h
  have hdrop : (w :: ws).dropLast = w :: ws.dropLast := List.dropLast_cons_of_ne_nil hne
  refine ⟨hbytes, habove.trans (blit_outside (Or.inl hbelow)), by omega, ?_, ?_⟩
  · rw [bytesOf_cons]
    omega
  · rw [hdrop, bytesOf_cons]
    omega

theorem pushedChild_strings (hne : ∀ w ∈ ws, w ≠ []) (hsp : bytesOf ws ≤ sp) :
    List.Forall₂ (PushedAt c (pushedChild c sp ws) sp ws) (argAddresses sp ws) ws := by
  induction ws generalizing c sp with
  | nil => exact .nil
  | cons w ws ih =>
    have hcons := bytesOf_cons w ws
    have hw : pushedBytes w = w := if_neg (hne w (List.mem_cons_self ..))
    have hrest : ∀ v ∈ ws, v ≠ [] := fun v hv => hne v (List.mem_cons_of_mem w hv)
    have hle : bytesOf ws ≤ sp - (w.length + 1) := by omega
    have hkeep (x : Nat) (hx : sp - (w.length + 1) ≤ x) : (pushedChild c sp (w :: ws)).mem x =
        blit c.mem (sp - (w.length + 1)) w x := by
      have h := pushedChild_outside (c := c.put (sp - (w.length + 1)) (pushedBytes w)) (x := x) hrest
        hle (Or.inr hx)
      refine h.trans ?_
      show blit c.mem _ (pushedBytes w) x = _
      rw [hw]
    have hslice : slice (pushedChild c sp (w :: ws)).mem (sp - (w.length + 1)) w.length = w := by
      have hcongr : slice (pushedChild c sp (w :: ws)).mem (sp - (w.length + 1)) w.length =
          slice (blit c.mem (sp - (w.length + 1)) w) (sp - (w.length + 1)) w.length := by
        unfold slice
        apply List.map_congr_left
        intro i _
        exact hkeep _ (Nat.le_add_right _ _)
      rw [hcongr, slice_blit _ _ rfl]
    refine .cons ⟨hslice, ?_, by omega, by omega, by omega⟩ ?_
    · rw [hkeep _ (Nat.le_add_right _ _)]
      exact blit_outside (Or.inr (Nat.le_refl _))
    · cases ws with
      | nil => exact .nil
      | cons v ws =>
        refine (ih (c := c.put (sp - (w.length + 1)) (pushedBytes w)) hrest hle).imp ?_
        intro q u hq
        exact hq.cons (List.cons_ne_nil v ws) (by omega)

/-! ## The array of pointers -/

theorem writeWord_ok (ha : sp % 4 = 0) (htop : sp < c.top) {v : Nat} (hv : v < 2 ^ 32) :
    c.writeWord sp v = some (c.put sp (le32 v)) := by
  have hmod : ((v : Int) % 2 ^ 32).toNat = v := by omega
  unfold Child.writeWord
  rw [if_pos ⟨Int.natCast_nonneg sp, Int.ofNat_lt.mpr htop, ha⟩, hmod, Int.toNat_natCast]

theorem writePointers_eq {addresses : List Nat} (ha : sp % 4 = 0)
    (htop : sp + 4 * (addresses.length + 1) ≤ c.top) (hv : ∀ a ∈ addresses, a < 2 ^ 32) :
    writePointers c sp (addresses.map Int.ofNat) = c.put sp (packWords (addresses ++ [0])) := by
  induction addresses generalizing c sp with
  | nil =>
    have hlt : sp < c.top := by
      rw [List.length_nil] at htop
      omega
    have hzero : c.writeWord sp 0 = some (c.put sp (le32 0)) := writeWord_ok ha hlt (v := 0) (by decide)
    show (c.writeWord sp 0).getD c = _
    rw [hzero]
    rfl
  | cons a addresses ih =>
    rw [List.length_cons] at htop
    have hlt : sp < c.top := by omega
    have hword : c.writeWord sp (Int.ofNat a) = some (c.put sp (le32 a)) :=
      writeWord_ok ha hlt (hv a (List.mem_cons_self ..))
    have hrest : writePointers (c.put sp (le32 a)) ((sp + 4 : Nat) : Int) (addresses.map Int.ofNat) = _ :=
      ih (by omega) (by rw [Child.top_put]; omega) fun x hx => hv x (List.mem_cons_of_mem a hx)
    show writePointers ((c.writeWord sp (Int.ofNat a)).getD c) ((sp : Int) + 4) (addresses.map Int.ofNat) = _
    rw [hword]
    exact hrest.trans (Child.put_append c sp (le32 a) (packWords (addresses ++ [0])))

/-! ## `WriteArgs` -/

theorem top_mod (c : Child) : c.top % 4 = 0 := by
  unfold Child.top pageSize
  omega

/-- The bytes of the strings, rounded up. -/
theorem roundUp_spec (n : Nat) : n ≤ divRoundUp n 4 * 4 ∧ divRoundUp n 4 * 4 < n + 4 ∧
    divRoundUp n 4 * 4 % 4 = 0 := by
  unfold divRoundUp
  split <;> omega

theorem length_argAddresses (sp : Nat) (ws : List (List UInt8)) :
    (argAddresses sp ws).length = ws.length := by
  induction ws generalizing sp with
  | nil => rfl
  | cons w ws ih => exact congrArg (· + 1) (ih _)

theorem argAddresses_lt {x : Nat} (hx : x ∈ argAddresses sp ws) (hsp : bytesOf ws ≤ sp) : x < sp := by
  induction ws generalizing sp with
  | nil => nomatch hx
  | cons w ws ih =>
    rw [bytesOf_cons] at hsp
    rcases List.mem_cons.mp hx with h | h
    · omega
    · have := ih h (by omega)
      omega

/-- The child after `WriteArgs`. -/
def argsChild (c : Child) (ws : List (List UInt8)) : Child :=
  { (pushedChild c (c.top - 16) ws).put (c.top - argsSize ws)
      (packWords (argAddresses (c.top - 16) ws ++ [0])) with
    stackReg := ((c.top - argsSize ws : Nat) : Int) }

theorem top_pushedChild (c : Child) (sp : Nat) (ws : List (List UInt8)) :
    (pushedChild c sp ws).top = c.top := by
  unfold Child.top
  rw [numPages_pushedChild]

/-- `WriteArgs`, where the arguments fit in the address space. -/
theorem writeArgs_ok (h : List.Forall₂ Writable ws buffers) (hlen : ws.length < maxArgCount)
    (hreg : c.stackReg = (c.top : Int) - 16) (hspace : argsSize ws ≤ c.top) :
    writeArgs c buffers = .ok (ws.length, argsChild c ws) := by
  obtain ⟨hround, hround', hmod⟩ := roundUp_spec (16 + bytesOf ws)
  have htop4 := top_mod c
  have hle := c.top_le
  have hsize : argsSize ws = divRoundUp (16 + bytesOf ws) 4 * 4 + 4 * (ws.length + 1) := rfl
  have hsp : c.stackReg = ((c.top - 16 : Nat) : Int) := by omega
  have hcount : buffers.length = ws.length := h.length_eq.symm
  have hpush := pushStrings_ok (c := c) h (show bytesOf ws < c.top - 16 by omega) (by omega)
  have hbottom : ((c.top - 16 - bytesOf ws : Nat) : Int) - ((c.top - 16 - bytesOf ws : Nat) : Int).tmod 4 -
      ((ws.length : Int) * 4 + 4) = ((c.top - argsSize ws : Nat) : Int) := by
    rw [Int.tmod_eq_emod_of_nonneg (Int.natCast_nonneg _)]
    omega
  have hpointers : writePointers (pushedChild c (c.top - 16) ws) ((c.top - argsSize ws : Nat) : Int)
      ((argAddresses (c.top - 16) ws).map Int.ofNat) = _ :=
    writePointers_eq (show (c.top - argsSize ws) % 4 = 0 by omega)
      (by rw [length_argAddresses, top_pushedChild]; omega)
      (fun a ha => by
        have := argAddresses_lt ha (by omega)
        unfold Child.top at this
        omega)
  unfold writeArgs
  rw [hsp, hpush, hcount]
  show (if maxArgCount ≤ ws.length then _ else _) = _
  rw [if_neg (Nat.not_le.mpr hlen)]
  show Except.ok (ws.length, _) = _
  rw [hbottom]
  simp only [hpointers]
  rfl

/-! ## What arrives -/

theorem top_argsChild (c : Child) (ws : List (List UInt8)) : (argsChild c ws).top = c.top :=
  top_pushedChild c _ ws

/-- A string is not overwritten by the pointers, so that it is there if the byte above it is zero. -/
theorem holdsString_iff {p : Nat} (hspace : argsSize ws ≤ c.top)
    (h : PushedAt c (pushedChild c (c.top - 16) ws) (c.top - 16) ws p w) :
    (argsChild c ws).HoldsString p w ↔ c.mem (p + w.length) = 0 := by
  obtain ⟨hbytes, habove, hbelow, hinside, -⟩ := h
  obtain ⟨hround, -, -⟩ := roundUp_spec (16 + bytesOf ws)
  have hsize : argsSize ws = divRoundUp (16 + bytesOf ws) 4 * 4 + 4 * (ws.length + 1) := rfl
  have hkeep (x : Nat) (hx : p ≤ x) : (argsChild c ws).mem x = (pushedChild c (c.top - 16) ws).mem x := by
    refine blit_outside (Or.inr ?_)
    rw [length_packWords, List.length_append, length_argAddresses, List.length_singleton]
    omega
  have hslice : slice (argsChild c ws).mem p (w.length + 1) = w ++ [c.mem (p + w.length)] := by
    rw [slice_succ, hkeep _ (Nat.le_add_right _ _), habove]
    congr 1
    rw [slice_congr fun x hx _ => hkeep x hx]
    exact hbytes
  constructor
  · intro hs
    have he := hslice.symm.trans hs.bytes
    exact List.singleton_inj.mp (List.append_cancel_left he)
  · intro h0
    refine ⟨by rw [hslice, h0], ?_⟩
    rw [top_argsChild]
    omega

/-- The arguments arrive if they fit and the stack is zero. -/
theorem holdsArgs_of_fit (hfit : ArgsFit c ws) (hzero : c.ZeroStack c.mem) : (argsChild c ws).HoldsArgs ws := by
  obtain ⟨hround, hround', hmod⟩ := roundUp_spec (16 + bytesOf ws)
  have hsize : argsSize ws = divRoundUp (16 + bytesOf ws) 4 * 4 + 4 * (ws.length + 1) := rfl
  have hspace := hfit.space
  have hterm := hfit.terminators
  have htop4 := top_mod c
  have hstack : userStackSize.toNat = 2048 := rfl
  have hne : ∀ w ∈ ws, w ≠ [] := fun w hw => (hfit.strings w hw).1
  have hstrings := pushedChild_strings (c := c) hne (show bytesOf ws ≤ c.top - 16 by omega)
  refine ⟨c.top - argsSize ws, argAddresses (c.top - 16) ws, rfl, by omega, ?_, ?_, ?_⟩
  · rw [length_argAddresses, top_argsChild]
    omega
  · refine slice_blit _ _ ?_
    rw [length_packWords, List.length_append]
    rfl
  · refine hstrings.imp ?_
    intro p w hp
    refine (holdsString_iff hspace hp).mpr (hzero _ ?_)
    have hlast := hp.last
    have hbelow := hp.below
    unfold Child.InStack
    omega

/-! ## What does not arrive -/

/-- The byte behind the first one is not zero, and nor is any other. -/
theorem writeStringLoop_ne_ok {a : Int} (h0 : 0 ∉ junk) (b : UInt8) :
    c.writeStringLoop a (b :: junk) ≠ .ok c' := by
  induction junk generalizing c a b with
  | nil =>
    unfold Child.writeStringLoop
    cases c.writeByte a b with
    | none => exact nofun
    | some d => exact nofun
  | cons d junk ih =>
    rw [List.mem_cons, not_or] at h0
    unfold Child.writeStringLoop
    cases c.writeByte a b with
    | none => exact nofun
    | some c₁ =>
      have hd : ¬ some d = some 0 := fun h => h0.1 (Option.some.inj h).symm
      show (if some d = some 0 then _ else c₁.writeStringLoop (a + 1) (d :: junk)) ≠ _
      rw [if_neg hd]
      exact ih h0.2 d

/-- The buffer of a string, where there is no zero on the heap. -/
def onesBuffer (w : List UInt8) : List UInt8 := savedString (fun _ => 1) (cutString maxArgLength w)

theorem onesBuffer_nil : ∃ junk, onesBuffer [] = 0 :: junk ∧ 0 ∉ junk := by
  refine ⟨_, savedString_short (by decide) _, ?_⟩
  intro h
  obtain ⟨i, -, hi⟩ := List.mem_map.mp (List.mem_of_mem_drop h)
  exact absurd hi (by decide)

/-- The buffer of a string that fits and is not empty. -/
theorem writable_savedString (h0 : 0 ∉ w) (hne : w ≠ []) (hw : w.length < maxArgLength)
    (garbage : Nat → UInt8) : Writable w (savedString garbage (cutString maxArgLength w)) := by
  refine ⟨h0, (newCharBuffer garbage).drop (w.length + 1), ?_⟩
  unfold pushedBytes
  rw [if_neg hne]
  exact savedString_short hw garbage

/-- If one string is written, it is neither empty nor too long. -/
theorem onesBuffer_write {a : Int} (h0 : 0 ∉ w) (hs : strlen (onesBuffer w) ≠ none)
    (hw : c.writeStringToUser (onesBuffer w) a = .ok c') : w ≠ [] ∧ w.length < maxArgLength := by
  constructor
  · rintro rfl
    obtain ⟨junk, hjunk, hj0⟩ := onesBuffer_nil
    unfold Child.writeStringToUser at hw
    split at hw
    · nomatch hw
    · rw [hjunk] at hw
      exact writeStringLoop_ne_ok hj0 0 hw
  · by_contra hlong
    have hnone : strlen (onesBuffer w) = none := if_neg (savedString_long (Nat.not_lt.mp hlong) h0 _)
    exact hs hnone

/-- If all strings are written, none is empty or too long, and the place below them is known. -/
theorem strings_of_pushStrings {p : Pushed} {sp : Int} (h0 : ∀ w ∈ ws, 0 ∉ w)
    (hp : pushStrings c sp (ws.map onesBuffer) = .ok p) :
    (∀ w ∈ ws, w ≠ [] ∧ w.length < maxArgLength) ∧ p.sp = sp - bytesOf ws := by
  induction ws generalizing c sp p with
  | nil =>
    obtain rfl := Except.ok.inj hp
    exact ⟨nofun, (Int.sub_zero sp).symm⟩
  | cons w ws ih =>
    have hw0 := h0 w (List.mem_cons_self ..)
    rw [List.map_cons] at hp
    unfold pushStrings at hp
    cases hs : strlen (onesBuffer w) with
    | none =>
      rw [hs] at hp
      nomatch hp
    | some n =>
      rw [hs] at hp
      cases hwrite : c.writeStringToUser (onesBuffer w) (sp - (n + 1)) with
      | error c₁ =>
        simp only [hwrite] at hp
        nomatch hp
      | ok c₁ =>
        simp only [hwrite] at hp
        cases hrest : pushStrings c₁ (sp - (n + 1)) (ws.map onesBuffer) with
        | error c₂ =>
          change (pushStrings c₁ _ _ >>= _ : Except Child Pushed) = _ at hp
          rw [hrest] at hp
          nomatch hp
        | ok q =>
          change (pushStrings c₁ _ _ >>= _ : Except Child Pushed) = _ at hp
          rw [hrest] at hp
          obtain rfl := Except.ok.inj hp
          obtain ⟨hws, hq⟩ := ih (fun v hv => h0 v (List.mem_cons_of_mem w hv)) hrest
          have hword : w ≠ [] ∧ w.length < maxArgLength := onesBuffer_write hw0 (hs ▸ nofun) hwrite
          have hn : n = w.length := by
            have := (writable_savedString hw0 hword.1 hword.2 fun _ => 1).strlen
            exact Option.some.inj (hs.symm.trans this)
          constructor
          · intro v hv
            rcases List.mem_cons.mp hv with rfl | hv
            · exact hword
            · exact hws v hv
          · show q.sp = _
            rw [hq, bytesOf_cons, hn]
            push_cast
            omega

theorem bytesOf_append (pre post : List (List UInt8)) : bytesOf (pre ++ post) = bytesOf pre + bytesOf post := by
  unfold bytesOf
  rw [List.map_append, List.sum_append]

theorem argAddresses_concat {pre : List (List UInt8)} :
    argAddresses sp (pre ++ [w]) = argAddresses sp pre ++ [sp - bytesOf (pre ++ [w])] := by
  induction pre generalizing sp with
  | nil => rfl
  | cons v pre ih =>
    have hsub : sp - (v.length + 1) - bytesOf (pre ++ [w]) = sp - bytesOf (v :: (pre ++ [w])) := by
      rw [bytesOf_cons, Nat.sub_sub]
    show _ :: argAddresses (sp - (v.length + 1)) (pre ++ [w]) = _
    rw [ih, hsub]
    rfl

/-- The last elements of two lists. -/
theorem forall₂_last {α β : Type} {R : α → β → Prop} {xs : List α} {ys : List β} {x : α} {y : β}
    (h : List.Forall₂ R (xs ++ [x]) (ys ++ [y])) : R x y := by
  have hlen : xs.length = ys.length := by
    have := h.length_eq
    rw [List.length_append, List.length_append] at this
    exact Nat.add_right_cancel this
  have hdrop := List.forall₂_drop xs.length h
  rw [List.drop_left, hlen, List.drop_left] at hdrop
  cases hdrop with
  | cons hxy _ => exact hxy

/-- The pointers are the addresses of the strings. -/
theorem holdsString_of_holdsArgs (hspace : argsSize ws ≤ c.top) (h : (argsChild c ws).HoldsArgs ws) :
    List.Forall₂ (argsChild c ws).HoldsString (argAddresses (c.top - 16) ws) ws := by
  obtain ⟨sp, ps, hreg, -, -, hslice, hstrings⟩ := h
  have hsp : c.top - argsSize ws = sp := Int.ofNat.inj hreg
  have hle := c.top_le
  have htop : c.top ≤ 2 ^ 31 := hle
  obtain ⟨hround, -, -⟩ := roundUp_spec (16 + bytesOf ws)
  have hsize : argsSize ws = divRoundUp (16 + bytesOf ws) 4 * 4 + 4 * (ws.length + 1) := rfl
  have hcount : ps.length = (argAddresses (c.top - 16) ws).length := by
    rw [length_argAddresses]
    exact hstrings.length_eq
  have hlen : (packWords (argAddresses (c.top - 16) ws ++ [0])).length = 4 * (ps.length + 1) := by
    rw [length_packWords, List.length_append, hcount]
    rfl
  have hwritten : slice (argsChild c ws).mem sp (4 * (ps.length + 1)) =
      packWords (argAddresses (c.top - 16) ws ++ [0]) := by
    rw [← hsp]
    exact slice_blit _ _ hlen
  have hps : ∀ p ∈ ps ++ [0], p < 2 ^ 32 := by
    intro p hp
    rcases List.mem_append.mp hp with hp | hp
    · obtain ⟨i, hi, rfl⟩ := List.mem_iff_getElem.mp hp
      have hin := (hstrings.get hi (hstrings.length_eq ▸ hi)).inside
      rw [top_argsChild] at hin
      simp only [List.get_eq_getElem] at hin
      omega
    · rw [List.mem_singleton.mp hp]
      decide
  have haddr : ∀ p ∈ argAddresses (c.top - 16) ws ++ [0], p < 2 ^ 32 := by
    intro p hp
    rcases List.mem_append.mp hp with hp | hp
    · have := argAddresses_lt hp (by omega)
      omega
    · rw [List.mem_singleton.mp hp]
      decide
  have hsame : argAddresses (c.top - 16) ws ++ [0] = ps ++ [0] := by
    rw [← unpackWords_packWords haddr, ← unpackWords_packWords hps, ← hslice, ← hwritten]
  rw [List.append_cancel_right hsame]
  exact hstrings

/-- If what is not the stack is not zero, the last terminator is in the stack. -/
theorem terminators_of_holdsArgs (hne : ∀ w ∈ ws, w ≠ []) (hspace : argsSize ws ≤ c.top)
    (hmem : ∀ a, c.mem a = 0 → c.InStack a) (h : (argsChild c ws).HoldsArgs ws) :
    16 + bytesOf ws.dropLast + 1 ≤ userStackSize.toNat := by
  obtain ⟨hround, -, -⟩ := roundUp_spec (16 + bytesOf ws)
  have hsize : argsSize ws = divRoundUp (16 + bytesOf ws) 4 * 4 + 4 * (ws.length + 1) := rfl
  have hstack : userStackSize.toNat = 2048 := rfl
  have hpushed := pushedChild_strings (c := c) hne (show bytesOf ws ≤ c.top - 16 by omega)
  have hstrings := holdsString_of_holdsArgs hspace h
  rcases List.eq_nil_or_concat' ws with rfl | ⟨pre, w, rfl⟩
  · decide
  · rw [argAddresses_concat] at hstrings
    have hpushed' := hpushed
    rw [argAddresses_concat] at hpushed'
    have hzero := (holdsString_iff hspace (forall₂_last hpushed')).mp (forall₂_last hstrings)
    have hin := (hmem _ hzero).2.1
    have hcat := bytesOf_append pre [w]
    have hone : bytesOf [w] = w.length + 1 := rfl
    rw [List.dropLast_concat]
    omega

/-- `WriteArgs` has written the strings, and the stack pointer is below them. -/
theorem pushed_of_writeArgs {r : Nat × Child} (h : writeArgs c buffers = .ok r) :
    ∃ p, pushStrings c c.stackReg buffers = .ok p ∧ r.1 = buffers.length ∧
      r.2.stackReg = p.sp - p.sp.tmod 4 - (buffers.length * 4 + 4) := by
  unfold writeArgs at h
  cases hp : pushStrings c c.stackReg buffers with
  | error c' =>
    rw [hp] at h
    nomatch h
  | ok p =>
    rw [hp] at h
    change (if maxArgCount ≤ buffers.length then _ else _ : Except Child (Nat × Child)) = _ at h
    split at h
    · nomatch h
    · obtain rfl := Except.ok.inj h
      exact ⟨p, rfl, rfl, rfl⟩

/-- The arguments are in the address space, or the stack pointer is negative. -/
theorem argsSize_le {sp reg : Int} (hsp : sp = (c.top : Int) - 16 - bytesOf ws)
    (hreg : reg = sp - sp.tmod 4 - ((ws.length : Int) * 4 + 4)) :
    reg = (c.top : Int) - argsSize ws ∨ reg < 0 ∧ c.top < argsSize ws := by
  obtain ⟨hround, hround', hmod⟩ := roundUp_spec (16 + bytesOf ws)
  have htop4 := top_mod c
  have hsize : argsSize ws = divRoundUp (16 + bytesOf ws) 4 * 4 + 4 * (ws.length + 1) := rfl
  by_cases hneg : sp < 0
  · right
    have htmod : sp.tmod 4 = -((-sp) % 4) := by
      rw [← Int.tmod_eq_emod_of_nonneg (by omega), Int.neg_tmod, Int.neg_neg]
    omega
  · left
    rw [Int.tmod_eq_emod_of_nonneg (Int.not_lt.mp hneg)] at hreg
    omega

theorem map_onesBuffer (ws : List (List UInt8)) :
    savedStrings (fun _ _ => 1) (ws.map (cutString maxArgLength)) = ws.map onesBuffer := by
  unfold savedStrings
  induction ws with
  | nil => rfl
  | cons w ws ih =>
    rw [List.map_cons, List.mapIdx_cons, ih]
    rfl

/-- Where there are no zeros on the heap and below the stack, arguments that arrive fit. -/
theorem argsFit_of_passes {space : Child} {image : ByteMemory} (h : HoldsArgv mem address ws)
    (hlen : ws.length < maxArgCount) (himage : ∀ a, image a = 0 → space.InStack a)
    (hpass : PassesArgs (fun _ _ => 1) mem address ws (space.start image)) : ArgsFit space ws := by
  have hsaved := saveArgBuffers_eq h hlen fun _ _ => 1
  rw [map_onesBuffer] at hsaved
  rcases hpass with hnone | ⟨args, child, hargs, hwrite, hholds⟩
  · nomatch hsaved.symm.trans hnone
  obtain rfl : ws.map onesBuffer = args := Option.some.inj (Option.some.inj (hsaved.symm.trans hargs))
  obtain ⟨p, hpush, -, hreg⟩ := pushed_of_writeArgs hwrite
  obtain ⟨hstrings, hsp⟩ := strings_of_pushStrings h.strings.not_mem hpush
  have hne : ∀ w ∈ ws, w ≠ [] := fun w hw => (hstrings w hw).1
  rw [List.length_map] at hreg
  have hspace : argsSize ws ≤ (space.start image).top := by
    obtain ⟨sp, -, hsp', -⟩ := hholds
    change child.stackReg = Int.ofNat sp at hsp'
    have hpos : 0 ≤ child.stackReg := hsp' ▸ Int.natCast_nonneg sp
    rcases argsSize_le (c := space.start image) hsp hreg with hle | ⟨hneg, -⟩
    · change child.stackReg = _ at hle
      omega
    · exact absurd hneg (Int.not_lt.mpr hpos)
  have hbuffers : List.Forall₂ Writable ws (ws.map onesBuffer) := by
    rw [List.forall₂_map_right_iff, List.forall₂_same]
    intro w hw
    exact writable_savedString (h.strings.not_mem w hw) (hstrings w hw).1 (hstrings w hw).2 _
  have hok := writeArgs_ok hbuffers hlen rfl hspace
  obtain rfl : argsChild (space.start image) ws = child :=
    congrArg Prod.snd (Except.ok.inj (hok.symm.trans hwrite))
  exact ⟨hstrings, terminators_of_holdsArgs hne hspace himage hholds, hspace⟩

/-- The stack is zero, and the program is not. -/
def zeroStackImage (space : Child) : ByteMemory := fun a => if space.InStack a then 0 else 1

theorem zeroStack_image (space : Child) : space.ZeroStack (zeroStackImage space) := fun _ ha => if_pos ha

theorem inStack_of_image {space : Child} {x : Nat} (hx : zeroStackImage space x = 0) : space.InStack x := by
  unfold zeroStackImage at hx
  by_contra hout
  rw [if_neg hout] at hx
  exact absurd hx (by decide)

/-- `Exec` passes its arguments whatever the heap and the program are if and only if they fit: no string is
empty or has `MAX_ARG_LENGTH` bytes, and the strings lie in the stack. -/
theorem passesArgs_iff (h : HoldsArgv mem address ws) (hlen : ws.length < maxArgCount) (space : Child) :
    (∀ heap image, space.ZeroStack image → PassesArgs heap mem address ws (space.start image)) ↔
      ArgsFit space ws := by
  constructor
  · intro hall
    exact argsFit_of_passes h hlen (fun _ => inStack_of_image) (hall _ _ (zeroStack_image space))
  · intro hfit heap image hzero
    have hbuffers : List.Forall₂ Writable ws (savedStrings heap (ws.map (cutString maxArgLength))) := by
      have hnot := h.strings.not_mem
      have hsaved := forall₂_savedStrings heap ws
      rw [List.forall₂_iff_get] at hsaved ⊢
      refine ⟨hsaved.1, fun i hi hi' => ?_⟩
      obtain ⟨k, hk⟩ := hsaved.2 i hi hi'
      have hw : ws.get ⟨i, hi⟩ ∈ ws := List.get_mem ws ⟨i, hi⟩
      rw [hk]
      exact writable_savedString (hnot _ hw) (hfit.strings _ hw).1 (hfit.strings _ hw).2 _
    have hfit' : ArgsFit (space.start image) ws := ⟨hfit.strings, hfit.terminators, hfit.space⟩
    exact Or.inr ⟨_, _, saveArgBuffers_eq h hlen heap, writeArgs_ok hbuffers hlen rfl hfit.space,
      holdsArgs_of_fit hfit' hzero⟩

/-- At address 4 there is an array with a pointer to address 64, where there is the byte `b` and a zero. -/
def argvMemory (b : UInt8) : UserMemory := fun p =>
  if p = 4#32 then some 64 else if p = 64#32 then some b else some 0

/-- A program with a page of code. -/
def onePageProgram : Child :=
  { numPages := 17, mem := fun _ => 0, stackReg := 0, written := [], top_le := by decide }

theorem passesArgs_iff_sample : HoldsArgv (argvMemory 97) 4#32 [[97]] ∧
    ∀ heap image, onePageProgram.ZeroStack image →
      PassesArgs heap (argvMemory 97) 4#32 [[97]] (onePageProgram.start image) := by
  have h : HoldsArgv (argvMemory 97) 4#32 [[97]] :=
    ⟨by decide, by decide, 64#32, rfl, by decide, ⟨by decide, rfl, rfl⟩, rfl⟩
  exact ⟨h, (passesArgs_iff h (by decide) onePageProgram).mpr ⟨by decide, by decide, by decide⟩⟩

/-- An empty string is written together with the garbage behind it, until the kernel stops. -/
theorem empty_string_not_passed : HoldsArgv (argvMemory 0) 4#32 [[]] ∧
    onePageProgram.ZeroStack (zeroStackImage onePageProgram) ∧
    ¬ PassesArgs (fun _ _ => 1) (argvMemory 0) 4#32 [[]]
        (onePageProgram.start (zeroStackImage onePageProgram)) := by
  have h : HoldsArgv (argvMemory 0) 4#32 [[]] := ⟨by decide, by decide, 64#32, rfl, by decide, rfl, rfl⟩
  refine ⟨h, zeroStack_image onePageProgram, fun hpass => ?_⟩
  have hfit := argsFit_of_passes h (by decide) (fun _ => inStack_of_image) hpass
  exact (hfit.strings [] (List.mem_singleton_self [])).1 rfl

end

end Nachos
