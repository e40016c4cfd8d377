import Nachos.Filesys.Proofs.FileHeaderProofs

/-!
# Proofs: a failed allocation

`Allocate` stores the new size of the file before it looks whether there is space. With enough free
sectors it extends header and free map by exactly the sectors it finds; without them it answers false
and leaves the header with a size that the file does not have.
-/

namespace Nachos.RawFileHeader

/-- `Allocate` is all or nothing: a success extends the header and the free map by new sectors, and a
failure changes neither. -/
def AllOrNothing (h : RawFileHeader) (m : Bitmap) (fileSize : Nat) : Prop :=
  ∃ success h' m', h.allocate m fileSize = some (success, h', m') ∧
    (success = true → ∃ news, Allocated h m fileSize h' m' news) ∧ (success = false → h' = h ∧ m' = m)

variable {h : RawFileHeader} {m : Bitmap} {fileSize : Nat}

/-- A request for which sectors have to be found is not empty. -/
theorem pos_of_newSectors_pos (hok : h.Ok) (hnew : 0 < h.newSectors fileSize) : 0 < fileSize := by
  refine Nat.pos_of_ne_zero fun hzero => ?_
  rw [newSectors, hzero, Nat.add_zero, ← hok.numSectors_eq, Nat.sub_self] at hnew
  exact Nat.lt_irrefl 0 hnew

/-- `Allocate` is all or nothing exactly when there are enough free sectors. -/
theorem allocate_allOrNothing_iff (hsectors : h.numSectors = divRoundUp h.numBytes sectorSize)
    (hbits : m.numBits = Nachos.numSectors) (hsize : h.numBytes + fileSize ≤ numDirect * sectorSize) :
    AllOrNothing h m fileSize ↔
      divRoundUp (h.numBytes + fileSize) sectorSize - h.numSectors ≤ m.countClear := by
  have hok : h.Ok := ⟨hsectors, Nat.le_trans (Nat.le_add_right _ _) hsize⟩
  constructor
  · rintro ⟨success, h', m', hrun, -, hfalse⟩
    refine Nat.not_lt.mp fun hshort => ?_
    obtain ⟨h'', hrun', hbytes, -⟩ := allocate_short hok hsize hshort
    rw [hrun] at hrun'
    cases hrun'
    -- the size has grown although nothing was allocated
    rw [(hfalse rfl).1] at hbytes
    have hpos := pos_of_newSectors_pos hok (Nat.lt_of_le_of_lt (Nat.zero_le _) hshort)
    omega
  · intro henough
    obtain ⟨h', m', news, hrun, hallocated⟩ := allocate_enough hok hbits hsize henough
    exact ⟨true, h', m', hrun, fun _ => ⟨news, hallocated⟩, fun hfalse => absurd hfalse (by decide)⟩

/-- A map of which every bit is marked. -/
def fullMap : Bitmap where
  numBits := Nachos.numSectors
  map := List.replicate 32 (BitVec.allOnes 32)
  numWords_eq := by decide

theorem allocate_allOrNothing_empty : AllOrNothing (empty fun _ => 0) (Bitmap.new Nachos.numSectors fun _ => 0) 1 :=
  (allocate_allOrNothing_iff rfl (Bitmap.numBits_new _ _) (by decide)).mpr
    (by rw [Bitmap.countClear_new]; decide)

theorem countClear_fullMap : fullMap.countClear = 0 := by
  refine Bitmap.countClear_eq_zero fun i hi => ?_
  have hword : i / bitsInWord < 32 := Nat.div_lt_of_lt_mul hi
  have hbit : i % bitsInWord < 32 := Nat.mod_lt _ (by decide)
  rw [Bitmap.test_eq, fullMap, List.getD_eq_getElem?_getD, List.getElem?_replicate_of_lt hword,
    Option.getD_some, BitVec.getLsbD_allOnes, decide_eq_true hbit]

/-- On a full disk a request for one byte leaves the size of an empty file at one. -/
theorem not_allOrNothing_fullMap : ¬ ∀ (h : RawFileHeader) (m : Bitmap) (fileSize : Nat),
    h.numSectors = divRoundUp h.numBytes sectorSize → m.numBits = Nachos.numSectors →
    h.numBytes + fileSize ≤ numDirect * sectorSize → AllOrNothing h m fileSize := by
  intro hall
  obtain ⟨success, h', m', hrun, htrue, hfalse⟩ := hall (empty fun _ => 0) fullMap 1 rfl rfl (by decide)
  have hshort : fullMap.countClear < (empty fun _ => 0).newSectors 1 := by
    rw [countClear_fullMap]
    decide
  obtain ⟨grown, hrun', hbytes, -⟩ := allocate_short (ok_empty fun _ => 0) (by decide) hshort
  rw [hrun] at hrun'
  cases hrun'
  rw [(hfalse rfl).1] at hbytes
  cases hbytes

end Nachos.RawFileHeader
