import Nachos.Userprog.Transfer

/-!
# Proofs: transfers

In readable memory the transfers meet no `ASSERT`.
-/

namespace Nachos

variable {mem : UserMemory} {a : Word} {n : Nat}

theorem add_ofNat_zero (a : Word) : a + BitVec.ofNat 32 0 = a := BitVec.add_zero a

theorem add_ofNat_succ (a : Word) (i : Nat) :
    a + 1#32 + BitVec.ofNat 32 i = a + BitVec.ofNat 32 (i + 1) := by
  rw [BitVec.add_assoc, BitVec.ofNat_add, BitVec.add_comm (BitVec.ofNat 32 i)]

/-! ## Buffers -/

theorem BufferReadable.head (h : BufferReadable mem a (n + 1)) : (mem a).isSome := by
  have hzero := h 0 (Nat.succ_pos n)
  rwa [add_ofNat_zero] at hzero

theorem BufferReadable.tail (h : BufferReadable mem a (n + 1)) : BufferReadable mem (a + 1#32) n := by
  intro i hi
  rw [add_ofNat_succ]
  exact h (i + 1) (Nat.succ_lt_succ hi)

theorem readBytes_of_readable (h : BufferReadable mem a n) : ∃ bs, readBytes mem a n = some bs := by
  induction n generalizing a with
  | zero => exact ⟨[], rfl⟩
  | succ n ih =>
    obtain ⟨b, hb⟩ := Option.isSome_iff_exists.mp h.head
    obtain ⟨bs, hbs⟩ := ih h.tail
    exact ⟨b :: bs, by simp [readBytes, hb, hbs]⟩

theorem writeBytes_of_readable {buffer : List UInt8} (h : BufferReadable mem a buffer.length) :
    ∃ mem', writeBytes mem a buffer = some mem' := by
  induction buffer generalizing a mem with
  | nil => exact ⟨mem, rfl⟩
  | cons b bs ih =>
    have htail : BufferReadable (Function.update mem a (some b)) (a + 1#32) bs.length := by
      intro i hi
      by_cases heq : a + 1#32 + BitVec.ofNat 32 i = a
      · rw [heq, Function.update_self]
        rfl
      · rw [Function.update_of_ne heq]
        exact BufferReadable.tail (n := bs.length) h i hi
    obtain ⟨mem', hmem⟩ := ih htail
    have hhead : (mem a).isSome = true := BufferReadable.head (n := bs.length) h
    refine ⟨mem', ?_⟩
    rw [writeBytes, hhead]
    exact hmem

/-! ## Strings -/

theorem readChars_of_readable (h : StringReadable mem a n) : ∃ bs t, readChars mem a n = some (bs, t) := by
  induction n generalizing a with
  | zero => exact ⟨[], false, rfl⟩
  | succ n ih =>
    have hhead : (mem a).isSome := by
      have hzero := h 0 (Nat.succ_pos n) fun j hj => absurd hj (Nat.not_lt_zero j)
      rwa [add_ofNat_zero] at hzero
    obtain ⟨b, hb⟩ := Option.isSome_iff_exists.mp hhead
    by_cases hzero : b = 0
    · exact ⟨[], true, by simp [readChars, hb, hzero]⟩
    · have htail : StringReadable mem (a + 1#32) n := by
        intro i hi hnone
        rw [add_ofNat_succ]
        refine h (i + 1) (Nat.succ_lt_succ hi) fun j hj => ?_
        cases j with
        | zero =>
          rw [add_ofNat_zero, hb]
          simpa using hzero
        | succ j =>
          rw [← add_ofNat_succ]
          exact hnone j (Nat.lt_of_succ_lt_succ hj)
      obtain ⟨bs, t, hbs⟩ := ih htail
      exact ⟨b :: bs, t, by simp [readChars, hb, hzero, hbs]⟩

theorem readStringFromUser_of_readable (ha : a ≠ 0#32) (hn : n ≠ 0) (h : StringReadable mem a n) :
    ∃ bs t, readStringFromUser mem a n = some (bs, t) := by
  obtain ⟨bs, t, hbs⟩ := readChars_of_readable h
  exact ⟨bs, t, by simp [readStringFromUser, guard, ha, hn, hbs]⟩

/-! ## Writing a string and reading it back -/

/-- The string `s`, which is followed by its terminator and by `rest` in the kernel buffer, is written at `a` and
read back as it was, and no byte but its own and that of the terminator has been written. -/
def RoundTrips (mem : UserMemory) (a : Word) (s rest : List UInt8) (m : Nat) : Prop :=
  ∃ u, writeStringToUser mem (s ++ 0 :: rest) a = some u ∧ readStringFromUser u.mem a m = some (s, true) ∧
    u.addresses = (List.range (s.length + 1)).map fun i => a + BitVec.ofNat 32 i

theorem writeByte_of_isSome {w : Written} {b : UInt8} (h : (w.mem a).isSome) :
    w.writeByte a b = some { mem := Function.update w.mem a (some b), addresses := w.addresses ++ [a] } := by
  simp [Written.writeByte, guard, h]

theorem length_writeByte {w u : Written} {b : UInt8} (h : w.writeByte a b = some u) :
    u.addresses.length = w.addresses.length + 1 := by
  unfold Written.writeByte at h
  obtain ⟨_, -, h⟩ := Option.bind_eq_some_iff.mp h
  cases h
  simp

/-- One pass of the loop: a byte is written, and the next one says whether there is another pass. -/
theorem writeChars_cons {w u : Written} {b : UInt8} {string : List UInt8}
    (h : writeChars w a (b :: string) = some u) :
    ∃ w' next, w.writeByte a b = some w' ∧ string.head? = some next ∧
      (next = 0 ∧ u = w' ∨ next ≠ 0 ∧ writeChars w' (a + 1#32) string = some u) := by
  rw [writeChars] at h
  obtain ⟨w', hw, h⟩ := Option.bind_eq_some_iff.mp h
  obtain ⟨next, hnext, h⟩ := Option.bind_eq_some_iff.mp h
  refine ⟨w', next, hw, hnext, ?_⟩
  by_cases hzero : next = 0
  · rw [if_pos hzero] at h
    cases h
    exact Or.inl ⟨hzero, rfl⟩
  · rw [if_neg hzero] at h
    exact Or.inr ⟨hzero, h⟩

/-- The loop writes at least one byte. -/
theorem lt_length_writeChars {w u : Written} {string : List UInt8} (h : writeChars w a string = some u) :
    w.addresses.length < u.addresses.length := by
  induction string generalizing w a with
  | nil => cases h
  | cons b string ih =>
    obtain ⟨w', next, hw, -, ⟨-, rfl⟩ | ⟨-, hrest⟩⟩ := writeChars_cons h
    · rw [length_writeByte hw]
      exact Nat.lt_succ_self _
    · have hlt := ih hrest
      rw [length_writeByte hw] at hlt
      exact Nat.lt_of_succ_lt hlt

/-- Of a string that is not empty, the loop writes the bytes before the terminator and not the terminator. -/
theorem length_writeChars {w u : Written} {b : UInt8} {s rest : List UInt8} (hs : 0 ∉ b :: s)
    (h : writeChars w a (b :: s ++ 0 :: rest) = some u) :
    u.addresses.length = w.addresses.length + (s.length + 1) := by
  induction s generalizing w a b with
  | nil =>
    obtain ⟨w', next, hw, hnext, ⟨-, rfl⟩ | ⟨hne, -⟩⟩ := writeChars_cons h
    · exact length_writeByte hw
    · exact absurd (Option.some.inj hnext).symm hne
  | cons b' s ih =>
    have hb' : b' ≠ 0 := fun hzero => hs (by rw [hzero]; simp)
    obtain ⟨w', next, hw, hnext, ⟨hzero, -⟩ | ⟨-, hrest⟩⟩ := writeChars_cons h
    · have hhead : b' = next := Option.some.inj hnext
      exact absurd (hhead.trans hzero) hb'
    · have hlen := ih (fun hmem => hs (List.mem_cons_of_mem b hmem)) hrest
      rw [length_writeByte hw] at hlen
      rw [hlen, List.length_cons]
      omega

/-- The round trip succeeds exactly for the empty string, and only where another zero follows its terminator. -/
theorem roundTrips_iff {s rest : List UInt8} {m : Nat} (hs : 0 ∉ s) (hm : s.length < m)
    (hmem : BufferReadable mem a (s.length + 1)) :
    RoundTrips mem a s rest m ↔ a ≠ 0#32 ∧ s = [] ∧ rest.head? = some 0 := by
  constructor
  · rintro ⟨u, hwrite, -, haddresses⟩
    obtain ⟨_, hguard, hloop⟩ := Option.bind_eq_some_iff.mp hwrite
    have ha : a ≠ 0#32 := by
      rintro rfl
      cases hguard
    have hlen : u.addresses.length = s.length + 1 := by rw [haddresses, List.length_map, List.length_range]
    refine ⟨ha, ?_⟩
    cases s with
    | cons b s =>
      have hshort : u.addresses.length = 0 + (s.length + 1) := length_writeChars hs hloop
      rw [hlen, List.length_cons] at hshort
      omega
    | nil =>
      obtain ⟨w', next, hw, hnext, ⟨rfl, -⟩ | ⟨-, hrest⟩⟩ := writeChars_cons hloop
      · exact ⟨rfl, hnext⟩
      · -- the loop goes on behind the terminator
        have hone : w'.addresses.length = 0 + 1 := length_writeByte hw
        have hlt := lt_length_writeChars hrest
        rw [hone, hlen, List.length_nil] at hlt
        exact absurd hlt (Nat.lt_irrefl _)
  · rintro ⟨ha, rfl, hnext⟩
    have hbyte : (mem a).isSome = true := hmem.head
    refine ⟨{ mem := Function.update mem a (some 0), addresses := [a] }, ?_, ?_, ?_⟩
    · simp [writeStringToUser, guard, ha, writeChars, writeByte_of_isSome, hbyte, hnext]
    · obtain ⟨n, rfl⟩ := Nat.exists_eq_succ_of_ne_zero (Nat.ne_of_gt hm)
      simp [readStringFromUser, guard, ha, readChars]
    · simp

/-- The empty string at address 4, from a buffer of zeros. -/
theorem roundTrips_empty : RoundTrips (fun _ => some 7) 4#32 [] [0] 1 :=
  (roundTrips_iff List.not_mem_nil Nat.one_pos fun _ _ => rfl).mpr ⟨by decide, rfl, rfl⟩

/-- The string "A" over memory that holds sevens: the terminator is not written, and what is read back goes on
with the bytes that were there before. -/
theorem not_roundTrips_one : ¬ ∀ (mem : UserMemory) (a : Word) (s rest : List UInt8) (m : Nat),
    (∀ x, (mem x).isSome) → a ≠ 0#32 → 0 ∉ s → s.length < m → RoundTrips mem a s rest m := by
  intro hall
  obtain ⟨u, hwrite, hread, -⟩ :=
    hall (fun _ => some 7) 4#32 [65] [0] 3 (fun _ => rfl) (by decide) (by decide) (by decide)
  have hvalue : ((writeStringToUser (fun _ => some 7) ([65] ++ 0 :: [0]) 4#32).bind fun u =>
      readStringFromUser u.mem 4#32 3) = some ([65, 7, 7], false) := by decide
  rw [hwrite, Option.bind_some, hread] at hvalue
  cases hvalue

/-! ## Arguments -/

theorem aligned_add_four (ha : a.toNat % 4 = 0) : (a + 4#32).toNat % 4 = 0 := by
  rw [BitVec.toNat_add]
  show (a.toNat + 4) % 2 ^ 32 % 4 = 0
  omega

theorem add_four_ofNat (a : Word) (c : Nat) :
    a + 4#32 + BitVec.ofNat 32 (4 * c) = a + BitVec.ofNat 32 (4 * (c + 1)) := by
  rw [BitVec.add_assoc, Nat.mul_succ, BitVec.ofNat_add, BitVec.add_comm (BitVec.ofNat 32 (4 * c))]

/-- Up to `n` words of an array of strings are readable, and the strings are. -/
def PointersReadable (mem : UserMemory) (a : Word) (n : Nat) : Prop :=
  ∀ c, c < n → (∀ d, d < c → wordAt mem (a + BitVec.ofNat 32 (4 * d)) ≠ some 0#32) →
    ∃ p, wordAt mem (a + BitVec.ofNat 32 (4 * c)) = some p ∧
      (p ≠ 0#32 → StringReadable mem p maxArgLength)

theorem readPointers_of_readable (ha : a.toNat % 4 = 0) (h : PointersReadable mem a n) :
    ∃ ps t, readPointers mem a n = some (ps, t) ∧
      ∀ p ∈ ps, p ≠ 0#32 ∧ StringReadable mem p maxArgLength := by
  induction n generalizing a with
  | zero => exact ⟨[], false, rfl, fun p hp => absurd hp List.not_mem_nil⟩
  | succ n ih =>
    obtain ⟨p, hp, hstring⟩ := h 0 (Nat.succ_pos n) fun d hd => absurd hd (Nat.not_lt_zero d)
    rw [Nat.mul_zero, add_ofNat_zero] at hp
    have hword : readWord mem a = some p := by
      simp [readWord, guard, ha, hp]
    by_cases hzero : p = 0#32
    · exact ⟨[], true, by simp [readPointers, hword, hzero], fun q hq => absurd hq List.not_mem_nil⟩
    · have htail : PointersReadable mem (a + 4#32) n := by
        intro c hc hnone
        rw [add_four_ofNat]
        refine h (c + 1) (Nat.succ_lt_succ hc) fun d hd => ?_
        cases d with
        | zero =>
          rw [Nat.mul_zero, add_ofNat_zero, hp]
          simpa using hzero
        | succ d =>
          rw [← add_four_ofNat]
          exact hnone d (Nat.lt_of_succ_lt_succ hd)
      obtain ⟨ps, t, hps, hall⟩ := ih (aligned_add_four ha) htail
      refine ⟨p :: ps, t, by simp [readPointers, hword, hzero, hps], ?_⟩
      intro q hq
      rcases List.mem_cons.mp hq with rfl | hq
      · exact ⟨hzero, hstring hzero⟩
      · exact hall q hq

theorem mapM_readString_of_readable {ps : List Word}
    (h : ∀ p ∈ ps, p ≠ 0#32 ∧ StringReadable mem p maxArgLength) :
    ∃ args, (ps.mapM fun p => readStringFromUser mem p maxArgLength) = some args := by
  induction ps with
  | nil => exact ⟨[], rfl⟩
  | cons p ps ih =>
    obtain ⟨hp, hread⟩ := h p List.mem_cons_self
    obtain ⟨bs, t, hbs⟩ := readStringFromUser_of_readable hp (by decide) hread
    obtain ⟨args, hargs⟩ := ih fun q hq => h q (List.mem_cons_of_mem p hq)
    exact ⟨(bs, t) :: args, by simp [List.mapM_cons, hbs, hargs]⟩

/-- `SaveArgs` meets no `ASSERT` exactly at an aligned address. -/
theorem saveArgs_isSome (ha : a ≠ 0#32) (h : ArgsReadable mem a) :
    (∃ args, saveArgs mem a = some args) ↔ a.toNat % 4 = 0 := by
  constructor
  · rintro ⟨args, hargs⟩
    by_contra hodd
    have hword : readWord mem a = none := by
      simp only [readWord, guard, if_neg hodd]
      rfl
    simp [saveArgs, maxArgCount, readPointers, hword] at hargs
  · intro halign
    obtain ⟨ps, t, hps, hall⟩ := readPointers_of_readable halign (n := maxArgCount) h
    obtain ⟨args, hargs⟩ := mapM_readString_of_readable hall
    cases t with
    | true => exact ⟨some (args.map Prod.fst), by simp [saveArgs, guard, ha, hps, hargs]⟩
    | false => exact ⟨none, by simp [saveArgs, guard, ha, hps]⟩

end Nachos
