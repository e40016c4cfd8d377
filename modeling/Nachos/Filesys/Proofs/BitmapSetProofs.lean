import Mathlib.Data.Finset.Card
import Nachos.Filesys.BitmapSet
import Nachos.Filesys.Proofs.TransferProofs

/-!
# Proofs: bitmaps as sets

Each call does to the members of a bitmap what it does to a set, so every run of calls gives the answers that it
gives on a set. The bits behind the last one, in a word that is not used in full, are not among the members.
-/

namespace Nachos.Bitmap

open Foundations Filesys Resumption

variable {b b' : Bitmap} {i j n : Nat} {s : Finset Nat}

theorem mem_members : i ∈ b.members ↔ i < b.numBits ∧ b.test i = true := by
  rw [members, Finset.mem_filter, Finset.mem_range]

theorem members_new (n : Nat) (heap : Nat → Word) : (new n heap).members = ∅ := by
  rw [Finset.eq_empty_iff_forall_notMem]
  intro i hi
  obtain ⟨hlt, htest⟩ := mem_members.mp hi
  rw [numBits_new] at hlt
  rw [test_new heap hlt] at htest
  cases htest

theorem members_mark (hi : i < b.numBits) : (b.mark i).members = insert i b.members := by
  ext j
  rw [mem_members, Finset.mem_insert, mem_members, numBits_mark, test_mark hi, Bool.or_eq_true, decide_eq_true_iff]
  constructor
  · rintro ⟨hlt, rfl | htest⟩
    · exact Or.inl rfl
    · exact Or.inr ⟨hlt, htest⟩
  · rintro (rfl | ⟨hlt, htest⟩)
    · exact ⟨hi, Or.inl rfl⟩
    · exact ⟨hlt, Or.inr htest⟩

theorem members_clear (b : Bitmap) (i : Nat) : (b.clear i).members = b.members.erase i := by
  ext j
  rw [mem_members, Finset.mem_erase, mem_members, numBits_clear, test_clear, Bool.and_eq_true, Bool.not_eq_true',
    decide_eq_false_iff_not]
  constructor
  · rintro ⟨hlt, hne, htest⟩
    exact ⟨fun heq => hne heq.symm, hlt, htest⟩
  · rintro ⟨hne, hlt, htest⟩
    exact ⟨hlt, fun heq => hne heq.symm, htest⟩

/-- `Find` looks for the least number that is no member. -/
theorem find_eq (b : Bitmap) : b.find =
    match leastOutside b.numBits b.members with
    | some i => (some i, b.mark i)
    | none => (none, b) := by
  have hsame : (List.range b.numBits).find? (fun i => !b.test i) = leastOutside b.numBits b.members := by
    rw [leastOutside, ← List.head?_filter, ← List.head?_filter]
    refine congrArg List.head? (List.filter_congr fun i hi => ?_)
    have hlt := List.mem_range.mp hi
    cases htest : b.test i with
    | true => simp [mem_members, hlt, htest]
    | false => simp [mem_members, htest]
  exact congrArg (fun o : Option Nat => match o with
    | some i => (some i, b.mark i)
    | none => (none, b)) hsame

theorem leastOutside_eq_some (h : leastOutside n s = some i) : i < n ∧ i ∉ s ∧ ∀ j < i, j ∈ s := by
  rw [leastOutside, List.find?_range_eq_some] at h
  obtain ⟨hi, hlt, hleast⟩ := h
  refine ⟨List.mem_range.mp hlt, of_decide_eq_true hi, fun j hj => ?_⟩
  simpa using hleast j hj

theorem leastOutside_eq_none_iff : leastOutside n s = none ↔ ∀ i < n, i ∈ s := by
  rw [leastOutside, List.find?_eq_none]
  simp

/-- The bitmap has `n` bits and these members. -/
def IsSet (n : Nat) (b : Bitmap) (s : Finset Nat) : Prop := b.numBits = n ∧ b.members = s

/-- A call gives the answer that it gives on the set of the members. -/
theorem step_refines (n : Nat) (b : Bitmap) (s : Finset Nat) (call : Call) (h : IsSet n b s) :
    Option.Rel (SameAnswers (IsSet n)) (b.step call) (setStep n s call) := by
  obtain ⟨rfl, rfl⟩ := h
  cases call with
  | mark which =>
    rw [step, setStep]
    by_cases hlt : which < b.numBits
    · rw [if_pos hlt, if_pos hlt]
      exact Option.Rel.some ⟨rfl, rfl, members_mark hlt⟩
    · rw [if_neg hlt, if_neg hlt]
      exact Option.Rel.none
  | clear which =>
    rw [step, setStep]
    by_cases hlt : which < b.numBits
    · rw [if_pos hlt, if_pos hlt]
      exact Option.Rel.some ⟨rfl, rfl, members_clear b which⟩
    · rw [if_neg hlt, if_neg hlt]
      exact Option.Rel.none
  | find =>
    rw [step, setStep, find_eq]
    cases hleast : leastOutside b.numBits b.members with
    | some i => exact Option.Rel.some ⟨rfl, rfl, members_mark (leastOutside_eq_some hleast).1⟩
    | none => exact Option.Rel.some ⟨rfl, rfl, rfl⟩

/-- The bits that are not members are the clear ones. -/
theorem countClear_eq (b : Bitmap) : b.countClear = b.numBits - b.members.card := by
  have hsub : b.members ⊆ Finset.range b.numBits := Finset.filter_subset _ _
  have hclear : b.countClear = (Finset.range b.numBits \ b.members).card := by
    have hfilter : Finset.range b.numBits \ b.members =
        (List.range b.numBits).toFinset.filter fun i => (!b.test i) = true := by
      ext i
      rw [Finset.mem_sdiff, Finset.mem_range, mem_members, Finset.mem_filter, List.mem_toFinset, List.mem_range]
      cases b.test i <;> simp
    rw [hfilter, List.nodup_range.card_eq_countP, countClear]
    simp
  rw [hclear, Finset.card_sdiff_of_subset hsub, Finset.card_range]

/-! ## What `Find` answers -/

/-- The answer for an index of a bitmap is not -1, which stands for none. -/
theorem findAnswer_ne (hi : i + 1 < 2 ^ 32) : findAnswer (some i) ≠ -1 := by
  rw [findAnswer, BitVec.toInt_ofNat', Int.bmod_def]
  split <;> omega

theorem findAnswer_of_lt (hi : i < 2 ^ 31) : findAnswer (some i) = i := by
  rw [findAnswer, BitVec.toInt_ofNat', Int.bmod_def]
  split <;> omega

/-! ## Files -/

variable {w : World} {file : FileId} {openFile : OpenFile}

/-- In a file that holds all words of the bitmap, another bitmap of this size fetches what was written back. -/
theorem fetchFrom_writeBack (hf : w.files file = some openFile) (hr : Readable openFile)
    (hnodup : openFile.hdr.dataOf.Nodup) (hfits : 4 * b.map.length ≤ openFile.hdr.numBytes) (hpos : 0 < b.numBits)
    (hbits : b'.numBits = b.numBits) :
    ∃ w', (b.writeBack file).run w = some ((), w') ∧ (b'.fetchFrom file).run w' = some (b, w') := by
  have hwords : 0 < b.map.length := Nat.lt_of_le_of_lt (Nat.zero_le _) (word_lt hpos)
  have hlen : (mapBytes b).length = 4 * b.map.length := by simp [mapBytes]
  have hlen' : (mapBytes b').length = (mapBytes b).length := by
    simp [mapBytes, b.numWords_eq, b'.numWords_eq, hbits]
  have hmax : openFile.hdr.numBytes ≤ 3712 := hr.ok.numBytes_le
  obtain ⟨D, hrun, -, hdata⟩ := run_writeAt hf hr hnodup (mapBytes b) 0 (by omega) (by omega) (by omega)
  refine ⟨_, by rw [writeBack, run_bind, hrun]; rfl, ?_⟩
  have hread := run_readAt (w := { w with
      disk := D
      heap := Function.update w.heap .buffer fun n => w.heap .buffer (n + 1) }) hf hr (mapBytes b').length 0
    (by omega) (by omega)
  have hcontent : ((dataBytes D openFile.hdr).drop 0).take (mapBytes b').length = mapBytes b := by
    have htake : (mapBytes b).take (openFile.hdr.numBytes - 0) = mapBytes b := List.take_of_length_le (by omega)
    rw [hdata, htake, List.drop_zero, hlen', splice, List.take_zero, List.nil_append, List.take_left']
    rfl
  rw [hcontent] at hread
  rw [fetchFrom, run_bind, hread, Option.bind_some, run_pure, overlayMap_mapBytes hbits]

/-! ## Runs -/

/-- A bitmap of `n` bits behaves like the set. -/
structure ActsAsSet (n : Nat) (b : Bitmap) (s : Finset Nat) : Prop where
  lt : ∀ i ∈ s, i < n
  test : ∀ i < n, b.test i = true ↔ i ∈ s
  mark : ∀ i < n, ∀ j, (b.mark i).test j = (decide (i = j) || b.test j)
  clear : ∀ i < n, ∀ j, (b.clear i).test j = (!decide (i = j) && b.test j)
  full : findAnswer b.find.1 = -1 ↔ ∀ i < n, i ∈ s
  least : findAnswer b.find.1 ≠ -1 → ∃ i < n, i ∉ s ∧ (∀ j < i, j ∈ s) ∧ b.find.1 = some i ∧
    (i < 2 ^ 31 → findAnswer b.find.1 = i) ∧ b.find.2.members = insert i s
  countClear : b.countClear = n - s.card
  restored : ∀ (w : World) (file : FileId) (openFile : OpenFile) (b' : Bitmap), w.files file = some openFile →
    Readable openFile → openFile.hdr.dataOf.Nodup → 4 * b.map.length ≤ openFile.hdr.numBytes → b'.numBits = n →
    ∃ w' b'', (b.writeBack file).run w = some ((), w') ∧ (b'.fetchFrom file).run w' = some (b'', w') ∧
      ∀ i < n, b''.test i = true ↔ i ∈ s

theorem IsSet.acts (h : IsSet n b s) (hn : 0 < n) (hword : n < 2 ^ 32) : ActsAsSet n b s := by
  obtain ⟨rfl, rfl⟩ := h
  have hlt : ∀ i ∈ b.members, i < b.numBits := fun i hi => (mem_members.mp hi).1
  have htest : ∀ i < b.numBits, b.test i = true ↔ i ∈ b.members := by
    intro i hi
    rw [mem_members]
    exact ⟨fun htest => ⟨hi, htest⟩, And.right⟩
  refine ⟨hlt, htest, fun i hi j => test_mark hi j, fun i _ j => test_clear b i j, ?_, ?_, countClear_eq b, ?_⟩
  · rw [find_eq, ← leastOutside_eq_none_iff]
    cases hleast : leastOutside b.numBits b.members with
    | none => exact ⟨fun _ => rfl, fun _ => rfl⟩
    | some i =>
      have hi := (leastOutside_eq_some hleast).1
      exact ⟨fun habs => absurd habs (findAnswer_ne (by omega)), fun habs => by cases habs⟩
  · rw [find_eq]
    cases hleast : leastOutside b.numBits b.members with
    | none => exact fun habs => absurd rfl habs
    | some i =>
      intro _
      obtain ⟨hi, hnot, hbelow⟩ := leastOutside_eq_some hleast
      exact ⟨i, hi, hnot, hbelow, rfl, findAnswer_of_lt, members_mark hi⟩
  · intro w file openFile b' hf hr hnodup hfits hbits
    obtain ⟨w', hwrite, hfetch⟩ := fetchFrom_writeBack hf hr hnodup hfits hn hbits
    exact ⟨w', b, hwrite, hfetch, htest⟩

end Nachos.Bitmap
