import Nachos.Filesys.Proofs.DirectoryMapProofs
import Nachos.Userprog.LsCall
import Nachos.Userprog.Proofs.ArgsProofs
import Nachos.Userprog.Proofs.ReadCallProofs

/-!
# Proofs: the system call Ls

`PrintNames` prints the names one behind the other without regard to the size of the buffer, and a name that
fills its field up to the next zero byte behind it.
-/

namespace Nachos.Userprog

open Foundations Filesys Resumption

variable {d : Directory} {t : List UInt8} {i : Nat}

/-! ## Names -/

/-- The name of an entry is what is printed of it, cut at `FILE_NAME_MAX_LEN`. -/
theorem nameKey_entryName (t : List UInt8) (i : Nat) :
    nameKey (entryName t i) = (printedName t i).take fileNameMaxLen := by
  unfold nameKey entryName printedName
  rw [List.take_take, Nat.min_self, List.take_takeWhile]

/-- The bytes before the first zero are at most `n` if and only if they are fewer, or a zero follows. -/
theorem length_takeWhile_iff (bs : List UInt8) (n : Nat) : (bs.takeWhile (· != 0)).length ≤ n ↔
    (((bs.take n).takeWhile (· != 0)).length = n → bs.getD n 0 = 0) := by
  induction n generalizing bs with
  | zero =>
    cases bs with
    | nil => simp
    | cons b bs =>
      by_cases hb : b = 0
      · simp [hb]
      · simp [hb, List.takeWhile_cons]
  | succ n ih =>
    cases bs with
    | nil => simp
    | cons b bs =>
      by_cases hb : b = 0
      · simp [hb]
      · have hcons (xs : List UInt8) : (b :: xs).takeWhile (· != 0) = b :: xs.takeWhile (· != 0) :=
          List.takeWhile_cons_of_pos (bne_iff_ne.mpr hb)
        rw [List.take_succ_cons, hcons, hcons, List.length_cons, List.length_cons, Nat.add_le_add_iff_right, Nat.add_right_cancel_iff, ih,
          List.getD_cons_succ]

/-- What is printed ends in the field of the name if and only if there is a terminator. -/
theorem length_printedName_iff : (printedName t i).length ≤ fileNameMaxLen ↔
    ((nameKey (entryName t i)).length = fileNameMaxLen →
      t.getD (i * dirEntrySize + 8 + fileNameMaxLen) 0 = 0) := by
  have hdrop : t.getD (i * dirEntrySize + 8 + fileNameMaxLen) 0 =
      (t.drop (i * dirEntrySize + 8)).getD fileNameMaxLen 0 := by
    rw [List.getD_eq_getElem?_getD, List.getD_eq_getElem?_getD, List.getElem?_drop]
  have hname : nameKey (entryName t i) =
      ((t.drop (i * dirEntrySize + 8)).take fileNameMaxLen).takeWhile (· != 0) := by
    rw [nameKey_entryName, printedName, List.take_takeWhile]
  rw [hdrop, hname]
  exact length_takeWhile_iff _ _

theorem printedName_eq (h : (printedName t i).length ≤ fileNameMaxLen) :
    printedName t i = nameKey (entryName t i) := by
  rw [nameKey_entryName, List.take_of_length_le h]

/-! ## The text -/

/-- The text that is printed if there are entries. -/
def printedLine (t : List UInt8) (i : Nat) : List UInt8 :=
  printedName t i ++ if entryIsDirectory t i then [slash, 10] else [10]

theorem printNames_eq (d : Directory) : printNames d =
    if entriesInUse d = [] then [10] else (entriesInUse d).flatMap (printedLine d.table) := rfl

theorem length_entryLine_le (t : List UInt8) (i : Nat) : (entryLine t i).length ≤ (printedLine t i).length := by
  unfold entryLine printedLine
  rw [List.length_append, List.length_append, nameKey_entryName, List.length_take]
  omega

theorem length_lines_le (t : List UInt8) (is : List Nat) :
    (is.flatMap (entryLine t)).length ≤ (is.flatMap (printedLine t)).length := by
  induction is with
  | nil => exact Nat.le_refl _
  | cons i is ih =>
    rw [List.flatMap_cons, List.flatMap_cons, List.length_append, List.length_append]
    exact Nat.add_le_add (length_entryLine_le t i) ih

/-- The lines are those of the entries if and only if every name ends in its field. -/
theorem flatMap_printedLine_iff (is : List Nat) : is.flatMap (printedLine t) = is.flatMap (entryLine t) ↔
    ∀ i ∈ is, (printedName t i).length ≤ fileNameMaxLen := by
  constructor
  · intro h
    induction is with
    | nil => exact nofun
    | cons j is ih =>
      rw [List.flatMap_cons, List.flatMap_cons] at h
      have hrest := length_lines_le t is
      have hlen := congrArg List.length h
      rw [List.length_append, List.length_append] at hlen
      have hhead : (printedLine t j).length = (entryLine t j).length := by
        have := length_entryLine_le t j
        omega
      obtain ⟨-, htail⟩ := List.append_inj h hhead
      intro i hi
      rcases List.mem_cons.mp hi with rfl | hi
      · unfold printedLine entryLine at hhead
        rw [List.length_append, List.length_append, nameKey_entryName, List.length_take] at hhead
        omega
      · exact ih htail i hi
  · intro h
    refine List.flatMap_congr fun i hi => ?_
    unfold printedLine entryLine
    rw [printedName_eq (h i hi)]

/-- The text lists the directory if and only if every name has its terminator. -/
theorem lists_iff (d : Directory) : Lists d (printNames d) ↔
    ∀ i ∈ entriesInUse d, (nameKey (entryName d.table i)).length = fileNameMaxLen →
      d.table.getD (i * dirEntrySize + 8 + fileNameMaxLen) 0 = 0 := by
  simp only [← length_printedName_iff]
  rw [printNames_eq]
  unfold Lists
  by_cases hnone : entriesInUse d = []
  · rw [if_pos hnone, hnone]
    exact ⟨fun _ => nofun, fun _ => Or.inr ⟨rfl, rfl⟩⟩
  · rw [if_neg hnone, ← flatMap_printedLine_iff]
    exact ⟨fun h => h.resolve_right fun h => hnone h.1, Or.inl⟩

/-! ## What arrives -/

section Deliver

variable {mem : UserMemory} {a canal : Word} {bs text rest : List UInt8} {k k₁ : Kernel}

theorem put_at {i : Nat} (hi : i < bs.length) (hlen : bs.length ≤ 2 ^ 32) :
    mem.put a bs (a + BitVec.ofNat 32 i) = bs[i]? := by
  have hsub : (a + BitVec.ofNat 32 i - a).toNat = i := by
    have hofNat : (BitVec.ofNat 32 i).toNat = i := by
      rw [BitVec.toNat_ofNat]
      exact Nat.mod_eq_of_lt (by omega)
    bv_omega
  unfold UserMemory.put
  rw [hsub, if_pos hi]

theorem put_behind {pre xs : List UInt8} {x : UInt8} (hbs : bs = pre ++ x :: xs) (hlen : bs.length ≤ 2 ^ 32) :
    mem.put a bs (a + BitVec.ofNat 32 pre.length) = some x := by
  have hi : pre.length < bs.length := by
    rw [hbs, List.length_append, List.length_cons]
    omega
  rw [put_at hi hlen, hbs, List.getElem?_append_right (Nat.le_refl _), Nat.sub_self]
  rfl

/-- A text that was written with its terminator is a string of the user. -/
theorem userString_put {pre : List UInt8} (h0 : 0 ∉ text) (hbs : bs = pre ++ (text ++ 0 :: rest))
    (hlen : bs.length ≤ 2 ^ 32) : UserString (mem.put a bs) (a + BitVec.ofNat 32 pre.length) text := by
  induction text generalizing pre with
  | nil => exact put_behind hbs hlen
  | cons b text ih =>
    rw [List.mem_cons, not_or] at h0
    have hnext : bs = (pre ++ [b]) ++ (text ++ 0 :: rest) := by
      rw [hbs, List.append_assoc]
      rfl
    have hstep : a + BitVec.ofNat 32 pre.length + 1#32 = a + BitVec.ofNat 32 (pre ++ [b]).length := by
      rw [List.length_append, List.length_singleton, BitVec.ofNat_add, BitVec.add_assoc]
    refine ⟨fun h => h0.1 h.symm, put_behind hbs hlen, ?_⟩
    rw [hstep]
    exact ih h0.2 hnext

/-- The text that the user reads from the buffer. -/
theorem readString_put (ha : a ≠ 0#32) (h0 : 0 ∉ text) (hbs : bs = text ++ 0 :: rest)
    (hlen : bs.length = lsBufferSize) :
    readStringFromUser (mem.put a bs) a lsBufferSize = some (text, true) := by
  have hsmall : bs.length ≤ 2 ^ 32 := by
    rw [hlen]
    decide
  have hlt : text.length < lsBufferSize := by
    rw [← hlen, hbs, List.length_append, List.length_cons]
    omega
  have hstring : UserString (mem.put a bs) (a + BitVec.ofNat 32 ([] : List UInt8).length) text :=
    userString_put h0 hbs hsmall
  change UserString (mem.put a bs) (a + BitVec.ofNat 32 0) text at hstring
  rw [add_ofNat_zero] at hstring
  unfold readStringFromUser
  rw [guard_pos ha]
  show readChars (mem.put a bs) a lsBufferSize = _
  rw [readChars_eq hstring, cutString, List.take_of_length_le (Nat.le_of_lt hlt), decide_eq_true hlt]

/-- The buffer begins with the text and its terminator. -/
theorem slice_text (buffer : ByteMemory) (h : (text ++ [0]).length ≤ lsBufferSize) :
    ∃ rest, slice (blit buffer 0 (text ++ [0])) 0 lsBufferSize = text ++ 0 :: rest := by
  obtain ⟨n, hn⟩ := Nat.exists_eq_add_of_le h
  refine ⟨slice (blit buffer 0 (text ++ [0])) (0 + (text ++ [0]).length) n, ?_⟩
  rw [hn, slice_add, slice_blit _ _ rfl, List.append_assoc]
  rfl

theorem zero_not_mem_printNames (d : Directory) : 0 ∉ printNames d := by
  have hline (t : List UInt8) (i : Nat) : 0 ∉ printedLine t i := by
    intro h
    rcases List.mem_append.mp h with h | h
    · have := List.mem_takeWhile_imp h
      exact absurd this (by decide)
    · split at h
      · exact absurd h (by decide)
      · exact absurd h (by decide)
  rw [printNames_eq]
  split
  · decide
  · intro h
    obtain ⟨i, -, hi⟩ := List.mem_flatMap.mp h
    exact hline _ _ hi

/-- The call, where the directory can be fetched and the text fits. -/
theorem scLs_delivers (hfetch : (fs (malloc .buffer) >>= fun _ => fs fetchDirectory).run k = some (d, k₁))
    (ha : canal ≠ 0#32) (hread : BufferReadable k.mem canal lsBufferSize)
    (hfits : (printNames d ++ [0]).length ≤ lsBufferSize) :
    ∃ k', (scLs canal).run k = some ((), k') ∧
      readStringFromUser k'.mem canal lsBufferSize = some (printNames d, true) := by
  have hmalloc : (fs (malloc .buffer)).run k =
      some (k.world.heap .buffer 0, { k with world := afterNew k.world }) := rfl
  rw [run_bind, hmalloc, Option.bind_some, run_fs] at hfetch
  obtain ⟨⟨dir, w⟩, hrun, heq⟩ := Option.map_eq_some_iff.mp hfetch
  obtain rfl : d = dir := (congrArg Prod.fst heq).symm
  obtain ⟨rest, hslice⟩ := slice_text (k.world.heap .buffer 0) hfits
  have hlen : (slice (blit (k.world.heap .buffer 0) 0 (printNames d ++ [0])) 0 lsBufferSize).length =
      lsBufferSize := length_slice _ _ _
  have hne : slice (blit (k.world.heap .buffer 0) 0 (printNames d ++ [0])) 0 lsBufferSize ≠ [] := by
    rw [hslice]
    exact List.append_ne_nil_of_right_ne_nil _ (List.cons_ne_nil _ _)
  have hpos : ¬ (printNames d).length = 0 := fun h =>
    printNames_ne_nil d (List.eq_nil_of_length_eq_zero h)
  have hwrite : writeBytes k.mem canal
      (slice (blit (k.world.heap .buffer 0) 0 (printNames d ++ [0])) 0 lsBufferSize) = _ :=
    writeBytes_readable (by rw [hlen]; decide) (by rw [hlen]; exact hread)
  refine ⟨{ k with
    world := w
    mem := k.mem.put canal (slice (blit (k.world.heap .buffer 0) 0 (printNames d ++ [0])) 0 lsBufferSize) }, ?_,
    readString_put ha (zero_not_mem_printNames d) hslice hlen⟩
  unfold scLs
  rw [run_bind, hmalloc, Option.bind_some, run_bind, run_fs, hrun, Option.map_some, Option.bind_some]
  show (if (printNames d).length = 0 then _ else _ : Handler Unit).run _ = _
  rw [if_neg hpos, run_copyOut, writeBufferToUser_eq ha hne, hwrite]
  rfl

end Deliver

/-- `Ls` of a directory is right if and only if names of `FILE_NAME_MAX_LEN` bytes have a terminator and there is
room for the lines in the buffer. -/
theorem lsFits_iff (d : Directory) : LsFits d ↔ ListingFits d := by
  have hlength : Lists d (printNames d) → ((printNames d ++ [0]).length ≤ lsBufferSize ↔
      ((entriesInUse d).flatMap (entryLine d.table)).length + 1 ≤ lsBufferSize) := by
    intro hlists
    rw [List.length_append, List.length_singleton]
    rcases hlists with htext | ⟨hnone, htext⟩
    · rw [htext]
    · rw [htext, hnone, List.flatMap_nil]
      decide
  constructor
  · intro h
    exact ⟨(lists_iff d).mp h.lists, (hlength h.lists).mp h.fits⟩
  · intro h
    have hlists := (lists_iff d).mpr h.terminated
    have hfits := (hlength hlists).mpr h.room
    refine ⟨hfits, hlists, fun k k₁ canal hfetch ha hread => ?_⟩
    exact scLs_delivers hfetch ha hread hfits

/-! ## A long list -/

/-- Fourteen files with names of fourteen bytes. -/
def fourteenFiles : List DirCall :=
  (List.range 14).map fun i => .add (List.replicate 13 97 ++ [UInt8.ofNat (97 + i)]) (BitVec.ofNat 32 (6 + i)) false

/-- Their names take more than the buffer. -/
theorem fourteen_names_overflow : ∃ d w s, (Directory.new numDirEntries).run (filledWith 0) = some (d, w) ∧
    runs DirState.step ⟨d, w⟩ fourteenFiles = some s ∧ ¬ LsFits s.dir := by
  have hlong : (((Directory.new numDirEntries).run (filledWith 0)).bind fun r =>
      (runs DirState.step ⟨r.1, r.2⟩ fourteenFiles).map fun s => (printNames s.dir ++ [0]).length) =
        some 211 := by decide +kernel
  obtain ⟨⟨d, w⟩, hnew, hmap⟩ := Option.bind_eq_some_iff.mp hlong
  obtain ⟨s, hruns, hlen⟩ := Option.map_eq_some_iff.mp hmap
  refine ⟨d, w, s, hnew, hruns, fun h => ?_⟩
  have hfits := h.fits
  rw [hlen] at hfits
  exact absurd hfits (by decide)

end Nachos.Userprog
