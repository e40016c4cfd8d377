import Mathlib.Data.List.GetD
import Nachos.Filesys.FileHeader
import Nachos.Lib.Proofs.BitmapProofs

/-!
# Proofs: file headers

A header survives the way to a sector and back, and `Allocate` either changes nothing but the
counters or extends the table of data sectors by sectors that were free.
-/

namespace Nachos

open Foundations

theorem u32_of_lt {n : Nat} (h : n < 2 ^ 32) : u32 n = n := Nat.mod_eq_of_lt h

theorem le_divRoundUp_mul (n : Nat) : n ≤ divRoundUp n sectorSize * sectorSize := by
  unfold divRoundUp sectorSize
  split <;> omega

theorem divRoundUp_mul_lt (n : Nat) : divRoundUp n sectorSize * sectorSize < n + sectorSize := by
  unfold divRoundUp sectorSize
  split <;> omega

theorem divRoundUp_mono {n m : Nat} (h : n ≤ m) :
    divRoundUp n sectorSize ≤ divRoundUp m sectorSize := by
  unfold divRoundUp sectorSize
  split <;> split <;> omega

theorem divRoundUp_le_numDirect {n : Nat} (h : n ≤ maxHeaderBytes) :
    divRoundUp n sectorSize ≤ numDirect := by
  unfold maxHeaderBytes numDirect sectorSize at h
  unfold divRoundUp sectorSize numDirect
  split <;> omega

/-! ## Sectors -/

theorem Sector.ext {s t : Sector} (h : s.bytes = t.bytes) : s = t := by
  cases s
  cases t
  simp only [Sector.mk.injEq]
  exact h

theorem Sector.bytes_ofBytes {bs : List UInt8} (h : sectorSize ≤ bs.length) :
    (Sector.ofBytes bs).bytes = bs.take sectorSize := by
  simp only [Sector.ofBytes]
  rw [List.take_append_of_le_length h]

namespace RawFileHeader

/-! ## The way to the disk and back -/

/-- Every field fits in its word. -/
def Fits (h : RawFileHeader) : Prop := ∀ w ∈ h.words, w < 2 ^ 32

theorem ofSector_toSector {h : RawFileHeader} (hf : h.Fits) : ofSector h.toSector = h := by
  have hu : unpackWords (packWords h.words) = h.words := unpackWords_packWords hf
  have hl := h.length_dataSectors
  cases h with
  | mk numBytes numSectors dataSectors nextFileHeader length_dataSectors =>
    simp only [ofSector, toSector, hu]
    simp only [words, mk.injEq, List.getD_cons_zero, List.getD_cons_succ, true_and,
      List.drop_succ_cons, List.drop_zero]
    refine ⟨?_, ?_⟩
    · rw [List.take_append_of_le_length (by omega), List.take_of_length_le (by omega)]
    · simp only [numDirect] at hl
      rw [List.getD_append_right _ _ _ _ (by omega)]
      simp [hl]

theorem fits_ofSector (s : Sector) : (ofSector s).Fits := by
  intro w hw
  have hlt := unpackWords_lt s.bytes
  have hlen : (unpackWords s.bytes).length = 32 := by
    rw [length_unpackWords, s.length_bytes]
    rfl
  simp only [words, ofSector, List.mem_cons, List.mem_append, List.mem_nil_iff, or_false] at hw
  rcases hw with rfl | rfl | hw | rfl
  · rw [List.getD_eq_getElem _ _ (by omega)]
    exact hlt _ (List.getElem_mem _)
  · rw [List.getD_eq_getElem _ _ (by omega)]
    exact hlt _ (List.getElem_mem _)
  · exact hlt w (List.mem_of_mem_drop (List.mem_of_mem_take hw))
  · rw [List.getD_eq_getElem _ _ (by omega)]
    exact hlt _ (List.getElem_mem _)

theorem fits_iff {h : RawFileHeader} :
    h.Fits ↔ h.numBytes < 2 ^ 32 ∧ h.numSectors < 2 ^ 32 ∧
      (∀ s ∈ h.dataSectors, s < 2 ^ 32) ∧ h.nextFileHeader < 2 ^ 32 := by
  simp only [Fits, words, List.mem_cons, List.mem_append, List.mem_nil_iff, or_false,
    or_imp, forall_and, forall_eq]

theorem fits_ofMemory (heap : ByteMemory) : (ofMemory heap).Fits := fits_ofSector _

theorem fits_empty (heap : ByteMemory) : (empty heap).Fits := by
  obtain ⟨-, -, hd, -⟩ := fits_iff.mp (fits_ofMemory heap)
  exact fits_iff.mpr ⟨Nat.two_pow_pos 32, Nat.two_pow_pos 32, hd, Nat.two_pow_pos 32⟩

/-! ## Headers in order -/

/-- The data sectors of a header. -/
def dataOf (h : RawFileHeader) : List Nat := h.dataSectors.take h.numSectors

/-- A header in order: the sectors are as many as the bytes need, and the table can hold them. -/
structure Ok (h : RawFileHeader) : Prop where
  numSectors_eq : h.numSectors = divRoundUp h.numBytes sectorSize
  numBytes_le : h.numBytes ≤ maxHeaderBytes

theorem Ok.numSectors_le {h : RawFileHeader} (hok : h.Ok) : h.numSectors ≤ numDirect := by
  rw [hok.numSectors_eq]
  exact divRoundUp_le_numDirect hok.numBytes_le

theorem Ok.length_dataOf {h : RawFileHeader} (hok : h.Ok) : h.dataOf.length = h.numSectors := by
  have := hok.numSectors_le
  rw [dataOf, List.length_take, h.length_dataSectors]
  omega

theorem ok_empty (heap : ByteMemory) : (empty heap).Ok where
  numSectors_eq := by simp [empty, divRoundUp]
  numBytes_le := Nat.zero_le _

theorem dataOf_empty (heap : ByteMemory) : (empty heap).dataOf = [] := rfl

/-- The data sectors that `ByteToSector` answers. -/
theorem byteToSector_mul {h : RawFileHeader} {i : Nat} (hi : i < h.numSectors) :
    h.byteToSector (i * sectorSize) = h.dataOf[i]? := by
  unfold byteToSector dataOf
  rw [List.getElem?_take_of_lt hi, Nat.mul_div_cancel _ (by decide)]

/-! ## Allocation -/

/-- What the loop of `Allocate` does when there are enough free sectors. -/
theorem findSectors_spec (count : Nat) {i : Nat} {h : RawFileHeader} {m : Bitmap}
    (hbits : m.numBits = Nachos.numSectors) (hi : i + count ≤ numDirect)
    (hclear : count ≤ m.countClear) :
    ∃ h' m' news, findSectors count i h m = some (h', m') ∧ news.length = count ∧ news.Nodup ∧
      (∀ x ∈ news, x < Nachos.numSectors ∧ m.test x = false) ∧
      h'.numBytes = h.numBytes ∧ h'.numSectors = h.numSectors ∧
      h'.nextFileHeader = h.nextFileHeader ∧
      h'.dataSectors = h.dataSectors.take i ++ news ++ h.dataSectors.drop (i + count) ∧
      m'.numBits = Nachos.numSectors ∧ (∀ x, m'.test x = (m.test x || decide (x ∈ news))) ∧
      m'.countClear + count = m.countClear := by
  induction count generalizing i h m with
  | zero =>
    refine ⟨h, m, [], rfl, rfl, List.nodup_nil, ?_, rfl, rfl, rfl, ?_, hbits, ?_, rfl⟩
    · simp
    · simp
    · simp
  | succ count ih =>
    obtain ⟨k, hk, hkc⟩ := Bitmap.exists_clear_of_countClear_pos (Nat.lt_of_lt_of_le (Nat.succ_pos count) hclear)
    obtain ⟨s, hs⟩ := Bitmap.find_of_clear hk hkc
    obtain ⟨hslt, hsc, -, -⟩ := Bitmap.find_some hs
    have hcount := Bitmap.countClear_mark hslt hsc
    obtain ⟨h', m', news, hf, hlen, hnd, hnew, hb, hns, hnx, hds, hmb, hmt, hmc⟩ :=
      ih (i := i + 1) (h := h.setDataSector i s) (m := m.mark s) hbits (by omega) (by omega)
    have hnotin : s ∉ news := by
      intro hmem
      have := (hnew s hmem).2
      rw [Bitmap.test_mark hslt] at this
      simp at this
    refine ⟨h', m', s :: news, ?_, by simp [hlen], List.nodup_cons.mpr ⟨hnotin, hnd⟩, ?_, hb, hns,
      hnx, ?_, hmb, ?_, by omega⟩
    · rw [findSectors, if_pos (by omega), hs]
      exact hf
    · intro x hx
      rcases List.mem_cons.mp hx with rfl | hx
      · exact ⟨by rw [← hbits]; exact hslt, hsc⟩
      · refine ⟨(hnew x hx).1, ?_⟩
        have := (hnew x hx).2
        rw [Bitmap.test_mark hslt] at this
        simp only [Bool.or_eq_false_iff] at this
        exact this.2
    · rw [hds]
      have hlt : i < h.dataSectors.length := by rw [h.length_dataSectors]; omega
      have htake : (h.dataSectors.set i s).take (i + 1) = h.dataSectors.take i ++ [s] := by
        rw [List.take_add_one, List.take_set_of_le (Nat.le_refl i), List.getElem?_set_self hlt]
        rfl
      have hdrop : (h.dataSectors.set i s).drop (i + 1 + count) =
          h.dataSectors.drop (i + (count + 1)) := by
        rw [List.drop_set_of_lt (by omega)]
        congr 1
        omega
      show (h.dataSectors.set i s).take (i + 1) ++ news ++
        (h.dataSectors.set i s).drop (i + 1 + count) = _
      rw [htake, hdrop]
      simp
    · intro x
      rw [hmt, Bitmap.test_mark hslt]
      by_cases hxs : x = s
      · simp [hxs]
      · have hsx : s ≠ x := fun e => hxs e.symm
        simp [hxs, hsx]

/-- The sectors that `Allocate` needs for `k` more bytes. -/
def newSectors (h : RawFileHeader) (k : Nat) : Nat :=
  divRoundUp (h.numBytes + k) sectorSize - h.numSectors

/-- What a successful `Allocate` of `k` bytes gives: header and free map extended by the free
sectors `news`. -/
structure Allocated (h : RawFileHeader) (m : Bitmap) (k : Nat) (h' : RawFileHeader) (m' : Bitmap)
    (news : List Nat) : Prop where
  ok : h'.Ok
  fits : h.Fits → h'.Fits
  numBytes_eq : h'.numBytes = h.numBytes + k
  next_eq : h'.nextFileHeader = h.nextFileHeader
  dataOf_eq : h'.dataOf = h.dataOf ++ news
  news_length : news.length = h.newSectors k
  news_nodup : news.Nodup
  news_free : ∀ x ∈ news, x < Nachos.numSectors ∧ m.test x = false
  numBits_eq : m'.numBits = Nachos.numSectors
  test_eq : ∀ x, m'.test x = (m.test x || decide (x ∈ news))
  countClear_eq : m'.countClear + news.length = m.countClear

/-- With enough free sectors `Allocate` succeeds. -/
theorem allocate_enough {h : RawFileHeader} {m : Bitmap} {k : Nat} (hok : h.Ok)
    (hbits : m.numBits = Nachos.numSectors) (hk : h.numBytes + k ≤ maxHeaderBytes)
    (hclear : h.newSectors k ≤ m.countClear) :
    ∃ h' m' news, h.allocate m k = some (true, h', m') ∧ Allocated h m k h' m' news := by
  have hmax : maxHeaderBytes < 2 ^ 32 := by decide
  have hle := divRoundUp_le_numDirect hk
  have hmono : h.numSectors ≤ divRoundUp (h.numBytes + k) sectorSize := by
    rw [hok.numSectors_eq]
    exact divRoundUp_mono (Nat.le_add_right _ _)
  have hnum : numDirect = 29 := rfl
  have hu : u32 (h.numBytes + k) = h.numBytes + k := u32_of_lt (by omega)
  have hus : u32 (divRoundUp (h.numBytes + k) sectorSize + 2 ^ 32 - h.numSectors) =
      h.newSectors k := by
    unfold u32 newSectors
    omega
  obtain ⟨h', m', news, hf, hlen, hnd, hnew, hb, hns, hnx, hds, hmb, hmt, hmc⟩ :=
    findSectors_spec (h.newSectors k) (i := h.numSectors)
      (h := { h with numBytes := h.numBytes + k,
                     numSectors := divRoundUp (h.numBytes + k) sectorSize })
      hbits (by unfold newSectors; omega) hclear
  simp only at hb hns hnx hds
  refine ⟨h', m', news, ?_, ?_⟩
  · unfold allocate
    simp only [hu, hus]
    rw [if_neg (by omega)]
    unfold newSectors at hf
    rw [hf]
    rfl
  · have hlen' : (h.dataSectors.take h.numSectors).length = h.numSectors := hok.length_dataOf
    refine ⟨⟨by rw [hns, hb], by rw [hb]; exact hk⟩, ?_, hb, hnx, ?_, hlen, hnd, hnew, hmb, hmt,
      by omega⟩
    · intro hfit
      obtain ⟨-, -, hd, hn⟩ := fits_iff.mp hfit
      refine fits_iff.mpr ⟨by omega, by omega, ?_, by rw [hnx]; exact hn⟩
      intro s hs
      rw [hds, List.mem_append, List.mem_append] at hs
      rcases hs with (hs | hs) | hs
      · exact hd s (List.mem_of_mem_take hs)
      · have := (hnew s hs).1
        unfold Nachos.numSectors at this
        omega
      · exact hd s (List.mem_of_mem_drop hs)
    · unfold dataOf
      rw [hds, hns, List.take_append_of_le_length]
      · rw [List.take_of_length_le]
        rw [List.length_append, hlen', hlen]
        unfold newSectors
        omega
      · rw [List.length_append, hlen', hlen]
        unfold newSectors
        omega

/-- Without enough free sectors `Allocate` answers false and leaves the free map as it was. -/
theorem allocate_short {h : RawFileHeader} {m : Bitmap} {k : Nat} (hok : h.Ok)
    (hk : h.numBytes + k ≤ maxHeaderBytes) (hclear : m.countClear < h.newSectors k) :
    ∃ h', h.allocate m k = some (false, h', m) ∧ h'.numBytes = h.numBytes + k ∧
      h'.nextFileHeader = h.nextFileHeader := by
  have hmax : maxHeaderBytes < 2 ^ 32 := by decide
  have hle := divRoundUp_le_numDirect hk
  have hmono : h.numSectors ≤ divRoundUp (h.numBytes + k) sectorSize := by
    rw [hok.numSectors_eq]
    exact divRoundUp_mono (Nat.le_add_right _ _)
  have hnum : numDirect = 29 := rfl
  have hu : u32 (h.numBytes + k) = h.numBytes + k := u32_of_lt (by omega)
  have hus : u32 (divRoundUp (h.numBytes + k) sectorSize + 2 ^ 32 - h.numSectors) =
      h.newSectors k := by
    unfold u32 newSectors
    omega
  unfold allocate
  simp only [hu, hus]
  rw [if_pos ⟨by omega, hclear⟩]
  exact ⟨_, rfl, rfl, rfl⟩

end RawFileHeader

end Nachos
