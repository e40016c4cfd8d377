import Nachos.Filesys.OpenFile
import Nachos.Filesys.Proofs.LayoutProofs

/-!
# Proofs: disk transfers

The runs of the primitive operations, and what `ReadAt` and `WriteAt` do with a header in order:
`ReadAt` answers the bytes that the header covers from the position on, `WriteAt` overlays them.
-/

namespace Nachos.Filesys

open Foundations Resumption

/-! ## Primitive operations -/

section Primitives

variable {w : World} {f : FileId} {file : OpenFile} {s : Nat}

theorem run_readSector (hs : s < numSectors) : (readSector s).run w = some (w.disk s, w) := by
  simp [readSector, run_assert, hs]

theorem run_writeSector (hs : s < numSectors) (data : Sector) :
    (writeSector s data).run w =
      some ((), { w with disk := Function.update w.disk s data }) := by
  simp [writeSector, run_assert, hs]

theorem run_malloc (use : HeapUse) :
    (malloc use).run w = some (w.heap use 0,
      { w with heap := Function.update w.heap use fun n => w.heap use (n + 1) }) := rfl

@[simp]
theorem run_ofOption_some {α : Type} (a : α) : (ofOption (some a)).run w = some (a, w) := rfl

theorem run_getFile (hf : w.files f = some file) : (getFile f).run w = some (file, w) := by
  simp [getFile, hf]

theorem run_setFile (file : OpenFile) :
    (setFile f file).run w =
      some ((), { w with files := Function.update w.files f (some file) }) := rfl

theorem run_modifyFile (hf : w.files f = some file) (g : OpenFile → OpenFile) :
    (modifyFile f g).run w =
      some ((), { w with files := Function.update w.files f (some (g file)) }) := by
  simp [modifyFile, run_getFile hf, run_setFile]

theorem run_getEntry (hs : s < numSectors) : (getEntry s).run w = some (w.table s, w) := by
  simp [getEntry, run_assert, hs]

theorem run_modifyEntry (hs : s < numSectors) (g : OpenDirEntry → OpenDirEntry) :
    (modifyEntry s g).run w =
      some ((), { w with table := Function.update w.table s (g (w.table s)) }) := by
  simp [modifyEntry, run_getEntry hs]

theorem run_fetchHdr (hs : s < numSectors) (hf : w.files f = some file) :
    (fetchHdr f s).run w = some ((), { w with
      files := Function.update w.files f (some { file with hdr := hdrAt w.disk s }) }) := by
  simp [fetchHdr, run_readSector hs, run_modifyFile hf, hdrAt]

end Primitives

/-! ## `ReadAt` -/

section ReadAt

variable {w : World} {f : FileId} {file : OpenFile}

/-- The header of an open file is in order and its data sectors are sectors of the disk. -/
structure Readable (file : OpenFile) : Prop where
  ok : file.hdr.Ok
  lt : ∀ x ∈ file.hdr.dataOf, x < numSectors

theorem run_readSectors (hf : w.files f = some file) (hr : Readable file) {count i : Nat}
    (hi : i + count ≤ file.hdr.numSectors) :
    (readSectors f count i).run w =
      some (((file.hdr.dataOf.drop i).take count).flatMap fun x => (w.disk x).bytes, w) := by
  induction count generalizing i with
  | zero => simp [readSectors]
  | succ count ih =>
    have hlen := hr.ok.length_dataOf
    have hlt : i < file.hdr.dataOf.length := by omega
    have hsec : file.hdr.byteToSector (i * sectorSize) = some file.hdr.dataOf[i] := by
      rw [RawFileHeader.byteToSector_mul (by omega), List.getElem?_eq_getElem hlt]
    have hdrop : file.hdr.dataOf.drop i = file.hdr.dataOf[i] :: file.hdr.dataOf.drop (i + 1) :=
      List.drop_eq_getElem_cons hlt
    have hsl := hr.lt _ (List.getElem_mem hlt)
    simp only [readSectors, run_bind, run_getFile hf, hsec, run_ofOption_some, Option.bind_some,
      run_readSector hsl, ih (i := i + 1) (by omega), run_pure]
    rw [hdrop, List.take_succ_cons, List.flatMap_cons]

/-- `ReadAt` answers what the header covers from the position on. -/
theorem run_readAt (hf : w.files f = some file) (hr : Readable file) (n pos : Nat) (hn : 0 < n)
    (hsum : pos + n < 2 ^ 32) :
    (readAt f n pos).run w = some (((dataBytes w.disk file.hdr).drop pos).take n, w) := by
  have hL := length_dataBytes (d := w.disk) hr.ok
  simp only [readAt, run_bind, run_assert, decide_eq_true hn, if_true, Option.bind_some,
    run_getFile hf]
  by_cases hpos : pos ≥ file.hdr.numBytes
  · rw [if_pos hpos, List.drop_eq_nil_of_le (by omega)]
    simp
  · rw [if_neg hpos]
    have hcap := le_divRoundUp_mul file.hdr.numBytes
    rw [← hr.ok.numSectors_eq] at hcap
    have hsz : sectorSize = 128 := rfl
    have hmin : min n (file.hdr.numBytes - pos) ≤ file.hdr.numBytes - pos := Nat.min_le_right _ _
    have hmin0 : 0 < min n (file.hdr.numBytes - pos) := by omega
    generalize hk : min n (file.hdr.numBytes - pos) = k at *
    have hcount : pos / sectorSize + (1 + (pos + k - 1) / sectorSize - pos / sectorSize) ≤
        file.hdr.numSectors := by
      rw [hsz] at hcap ⊢
      omega
    simp only [run_bind, run_assert, decide_eq_true hsum, if_true, Option.bind_some,
      run_readSectors hf hr hcount, run_pure, Option.some.injEq, Prod.mk.injEq, and_true]
    have hchunk : ∀ x, (w.disk x).bytes.length = sectorSize := fun x => (w.disk x).length_bytes
    rw [← take_flatMap hchunk, ← drop_flatMap hchunk]
    unfold dataBytes
    rw [List.drop_take, List.drop_drop, List.take_take, List.drop_take, List.take_take]
    congr 1
    · rw [hsz]
      omega
    · congr 1
      rw [hsz]
      omega

end ReadAt

/-! ## `WriteAt` -/

section WriteAt

variable {w : World} {f : FileId} {file : OpenFile}

/-- The loop of `WriteAt` puts the buffer into the data sectors. -/
theorem run_writeSectors (hf : w.files f = some file) (hr : Readable file)
    (hnd : file.hdr.dataOf.Nodup) {count i : Nat} {buf : List UInt8}
    (hi : i + count ≤ file.hdr.numSectors) (hbuf : buf.length = count * sectorSize) :
    ∃ D : Disk, (writeSectors f count i buf).run w = some ((), { w with disk := D }) ∧
      (∀ x, x ∉ (file.hdr.dataOf.drop i).take count → D x = w.disk x) ∧
      ((file.hdr.dataOf.drop i).take count).flatMap (fun x => (D x).bytes) = buf := by
  induction count generalizing i w buf with
  | zero =>
    refine ⟨w.disk, rfl, fun _ _ => rfl, ?_⟩
    rw [Nat.zero_mul] at hbuf
    rw [List.eq_nil_of_length_eq_zero hbuf]
    simp
  | succ count ih =>
    have hlen := hr.ok.length_dataOf
    have hlt : i < file.hdr.dataOf.length := by omega
    have hsec : file.hdr.byteToSector (i * sectorSize) = some file.hdr.dataOf[i] := by
      rw [RawFileHeader.byteToSector_mul (by omega), List.getElem?_eq_getElem hlt]
    have hdrop : file.hdr.dataOf.drop i = file.hdr.dataOf[i] :: file.hdr.dataOf.drop (i + 1) :=
      List.drop_eq_getElem_cons hlt
    have hsl := hr.lt _ (List.getElem_mem hlt)
    rw [Nat.succ_mul] at hbuf
    have hbuf' : (buf.drop sectorSize).length = count * sectorSize := by
      rw [List.length_drop]
      omega
    obtain ⟨D, hrun, hout, hin⟩ := ih
      (w := { w with disk := Function.update w.disk file.hdr.dataOf[i] (Sector.ofBytes buf) })
      (i := i + 1) hf (by omega) hbuf'
    have hnotin : file.hdr.dataOf[i] ∉ (file.hdr.dataOf.drop (i + 1)).take count := by
      have hnd' : (file.hdr.dataOf.drop i).Nodup := hnd.sublist (List.drop_sublist _ _)
      rw [hdrop] at hnd'
      exact fun hmem => (List.nodup_cons.mp hnd').1 (List.mem_of_mem_take hmem)
    refine ⟨D, ?_, ?_, ?_⟩
    · simp only [writeSectors, run_bind, run_getFile hf, hsec, run_ofOption_some, Option.bind_some,
        run_writeSector hsl, hrun]
    · intro x hx
      rw [hdrop, List.take_succ_cons, List.mem_cons, not_or] at hx
      rw [hout x hx.2]
      exact Function.update_of_ne hx.1 _ _
    · have hself : Function.update w.disk file.hdr.dataOf[i] (Sector.ofBytes buf)
          file.hdr.dataOf[i] = Sector.ofBytes buf := Function.update_self ..
      rw [hdrop, List.take_succ_cons, List.flatMap_cons, hin, hout _ hnotin]
      show (Function.update w.disk file.hdr.dataOf[i] (Sector.ofBytes buf)
        file.hdr.dataOf[i]).bytes ++ buf.drop sectorSize = buf
      rw [hself, Sector.bytes_ofBytes (by omega), List.take_append_drop]

/-- The buffer of `WriteAt` with sector `i` of the old bytes read into it, if `needed`. -/
def fillIf (needed : Bool) (first i : Nat) (old buf : List UInt8) : List UInt8 :=
  if needed then
    splice buf ((i - first) * sectorSize) ((old.drop (i * sectorSize)).take sectorSize)
  else
    buf

theorem run_fillSector (hf : w.files f = some file) (hr : Readable file) (needed : Bool)
    {first i : Nat} (hi : i < file.hdr.numSectors) (buf : List UInt8) :
    (fillSector f needed first i buf).run w =
      some (fillIf needed first i (dataBytes w.disk file.hdr) buf, w) := by
  have hns := hr.ok.numSectors_le
  have hread := run_readAt hf hr sectorSize (i * sectorSize) (by decide)
    (by unfold sectorSize numDirect at *; omega)
  cases needed with
  | false => rfl
  | true => simp [fillSector, fillIf, hread]

theorem length_fillIf {needed : Bool} {first i : Nat} {old buf : List UInt8}
    (h : (i - first) * sectorSize + sectorSize ≤ buf.length) :
    (fillIf needed first i old buf).length = buf.length := by
  unfold fillIf
  split
  · apply length_splice
    have := List.length_take_le sectorSize (old.drop (i * sectorSize))
    omega
  · rfl

/-- In the sector that was read in, the buffer holds the old bytes. -/
theorem getElem?_fillIf_inside {first i j : Nat} {old buf : List UInt8} (hfirst : first ≤ i)
    (hbuf : (i - first) * sectorSize ≤ buf.length) (hj : j < old.length)
    (hj1 : i * sectorSize ≤ j) (hj2 : j < (i + 1) * sectorSize) :
    (fillIf true first i old buf)[j - first * sectorSize]? = old[j]? := by
  have hlen : ((old.drop (i * sectorSize)).take sectorSize).length =
      min sectorSize (old.length - i * sectorSize) := by
    rw [List.length_take, List.length_drop]
  simp only [fillIf, if_true]
  unfold sectorSize at *
  rw [getElem?_splice hbuf, if_pos (by omega), List.getElem?_take_of_lt (by omega),
    List.getElem?_drop]
  congr 1
  omega

/-- Outside the sector that was read in, the buffer is as it was. -/
theorem getElem?_fillIf_outside {needed : Bool} {first i k : Nat} {old buf : List UInt8}
    (hbuf : (i - first) * sectorSize ≤ buf.length)
    (hk : needed = true → k < (i - first) * sectorSize) :
    (fillIf needed first i old buf)[k]? = buf[k]? := by
  unfold fillIf
  split
  · rename_i hn
    have := hk hn
    rw [getElem?_splice hbuf, if_neg (by omega)]
  · rfl

/-- Before the new bytes are copied in, the buffer of `WriteAt` holds the old bytes wherever the file
is not overwritten. -/
theorem fill_getElem? {old buf : List UInt8} {pos n first last j : Nat} (hn : 0 < n)
    (hfirst : first = pos / sectorSize) (hlast : last = (pos + n - 1) / sectorSize)
    (hbuf : buf.length = (1 + last - first) * sectorSize) (hj : j < old.length)
    (hj1 : first * sectorSize ≤ j) (hj2 : j < (last + 1) * sectorSize)
    (hout : ¬(pos ≤ j ∧ j < pos + n)) :
    (fillIf (!(pos + n == (last + 1) * sectorSize) &&
        (first != last || pos == first * sectorSize)) first last old
      (fillIf (!(pos == first * sectorSize)) first first old buf))[j - first * sectorSize]? =
        old[j]? := by
  have hsz : sectorSize = 128 := rfl
  have hfl : first ≤ last := by rw [hfirst, hlast]; exact Nat.div_le_div_right (by omega)
  have hlen1 : (fillIf (!(pos == first * sectorSize)) first first old buf).length = buf.length :=
    length_fillIf (by rw [hbuf, hsz]; omega)
  by_cases hlo : j < pos
  · -- the first sector, in front of the new bytes
    have hna : (!(pos == first * sectorSize)) = true := by
      simp only [Bool.not_eq_eq_eq_not, Bool.not_true, beq_eq_false_iff_ne]
      omega
    rw [getElem?_fillIf_outside]
    · rw [hna]
      exact getElem?_fillIf_inside (Nat.le_refl _) (by simp) hj hj1 (by unfold sectorSize at *; omega)
    · rw [hlen1, hbuf, hsz]
      omega
    · -- if the last sector is read in too, it is another one
      intro hc
      simp only [Bool.and_eq_true, Bool.or_eq_true, bne_iff_ne, beq_iff_eq] at hc
      simp only [Bool.not_eq_eq_eq_not, Bool.not_true, beq_eq_false_iff_ne] at hna
      have hne : first ≠ last := hc.2.resolve_right hna
      unfold sectorSize at *
      omega
  · -- the last sector, behind the new bytes
    have hnl : (!(pos + n == (last + 1) * sectorSize)) = true := by
      simp only [Bool.not_eq_eq_eq_not, Bool.not_true, beq_eq_false_iff_ne]
      omega
    rw [hnl, Bool.true_and]
    cases hc : (first != last || pos == first * sectorSize) with
    | true =>
      exact getElem?_fillIf_inside hfl (by rw [hlen1, hbuf, hsz]; omega) hj
        (by unfold sectorSize at *; omega) hj2
    | false =>
      simp only [Bool.or_eq_false_iff, bne_eq_false_iff_eq] at hc
      rw [getElem?_fillIf_outside (by rw [hlen1, hbuf, hsz]; omega) (fun h => by simp at h),
        hc.2]
      exact getElem?_fillIf_inside (Nat.le_refl _) (by simp) hj hj1 (by rw [hc.1]; exact hj2)

/-- The overlay of whole sectors by the filled buffer is the overlay of the new bytes. -/
theorem take_splice_fill {flat old buf data : List UInt8} {pos first count L : Nat}
    (hold : old = flat.take L) (hL : L ≤ flat.length) (hle : pos + data.length ≤ L)
    (hbuf : buf.length = count) (hfirst : first ≤ pos) (hin : pos + data.length ≤ first + count)
    (hflat : first + count ≤ flat.length)
    (hfill : ∀ j < L, first ≤ j → j < first + count → ¬(pos ≤ j ∧ j < pos + data.length) →
      buf[j - first]? = old[j]?) :
    (splice flat first (splice buf (pos - first) data)).take L = splice old pos data := by
  have hlen : (splice buf (pos - first) data).length = count := by
    rw [length_splice (by omega), hbuf]
  have holdlen : old.length = L := by rw [hold, List.length_take]; omega
  apply List.ext_getElem?
  intro j
  by_cases hj : j < L
  · have hleft : (splice flat first (splice buf (pos - first) data))[j]? =
        if first ≤ j ∧ j < first + count then (splice buf (pos - first) data)[j - first]?
        else flat[j]? := by
      rw [getElem?_splice (by omega), hlen]
    have hright : (splice old pos data)[j]? =
        if pos ≤ j ∧ j < pos + data.length then data[j - pos]? else old[j]? :=
      getElem?_splice (by omega) j
    rw [List.getElem?_take_of_lt hj, hleft, hright]
    by_cases hnew : pos ≤ j ∧ j < pos + data.length
    · rw [if_pos (by omega), if_pos hnew, getElem?_splice (by omega), if_pos (by omega)]
      congr 1
      omega
    · rw [if_neg hnew]
      by_cases hsec : first ≤ j ∧ j < first + count
      · rw [if_pos hsec, getElem?_splice (by omega), if_neg (by omega)]
        exact hfill j hj hsec.1 hsec.2 hnew
      · rw [if_neg hsec, hold, List.getElem?_take_of_lt hj]
  · rw [List.getElem?_eq_none (by rw [List.length_take]; omega),
      List.getElem?_eq_none (by rw [length_splice (by omega)]; omega)]

theorem take_min_length (data : List UInt8) (n : Nat) :
    data.take (min data.length n) = data.take n := by
  rw [List.take_eq_take_iff]
  omega

/-- The sectors written by the loop of `WriteAt` are the old ones with the buffer over them. -/
theorem flatMap_splice {d D : Disk} {l : List Nat} {i count : Nat} {buf : List UInt8}
    (hnd : l.Nodup) (hbuf : buf.length = count * sectorSize)
    (hout : ∀ x, x ∉ (l.drop i).take count → D x = d x)
    (hin : ((l.drop i).take count).flatMap (fun x => (D x).bytes) = buf) :
    (l.flatMap fun x => (D x).bytes) =
      splice (l.flatMap fun x => (d x).bytes) (i * sectorSize) buf := by
  have hsplit : l = l.take i ++ ((l.drop i).take count ++ l.drop (i + count)) := by
    rw [← List.drop_drop, List.take_append_drop, List.take_append_drop]
  have hdisj := hnd
  rw [hsplit] at hdisj
  obtain ⟨-, hnd2, hdisj1⟩ := List.nodup_append.mp hdisj
  obtain ⟨-, -, hdisj2⟩ := List.nodup_append.mp hnd2
  have hpre : ((l.take i).flatMap fun x => (D x).bytes) =
      (l.take i).flatMap fun x => (d x).bytes := by
    apply List.flatMap_congr
    intro x hx
    rw [hout x fun hmem => hdisj1 x hx x (List.mem_append_left _ hmem) rfl]
  have hpost : ((l.drop (i + count)).flatMap fun x => (D x).bytes) =
      (l.drop (i + count)).flatMap fun x => (d x).bytes := by
    apply List.flatMap_congr
    intro x hx
    rw [hout x fun hmem => hdisj2 x hmem x hx rfl]
  have hchunk : ∀ x, (d x).bytes.length = sectorSize := fun x => (d x).length_bytes
  unfold splice
  rw [take_flatMap hchunk, hbuf, ← Nat.add_mul, drop_flatMap hchunk, ← hpre, ← hpost, ← hin,
    ← List.flatMap_append, ← List.flatMap_append, List.append_assoc, ← hsplit]

/-- `WriteAt` overlays what the header covers, and changes data sectors of the header only. -/
theorem run_writeAt (hf : w.files f = some file) (hr : Readable file)
    (hnd : file.hdr.dataOf.Nodup) (data : List UInt8) (pos : Nat) (hdata : 0 < data.length)
    (hpos : pos < file.hdr.numBytes) (hsum : pos + data.length < 2 ^ 32) :
    ∃ D : Disk, (writeAt f data pos).run w =
        some (min data.length (file.hdr.numBytes - pos), { w with
          disk := D
          heap := Function.update w.heap .buffer fun n => w.heap .buffer (n + 1) }) ∧
      (∀ x, x ∉ file.hdr.dataOf → D x = w.disk x) ∧
      dataBytes D file.hdr = splice (dataBytes w.disk file.hdr) pos
        (data.take (file.hdr.numBytes - pos)) := by
  have hsz : sectorSize = 128 := rfl
  have hlen := hr.ok.length_dataOf
  have hL := length_dataBytes (d := w.disk) hr.ok
  have hcap := le_divRoundUp_mul file.hdr.numBytes
  rw [← hr.ok.numSectors_eq] at hcap
  have hn0 : 0 < min data.length (file.hdr.numBytes - pos) := by omega
  have hnle : pos + min data.length (file.hdr.numBytes - pos) ≤ file.hdr.numBytes := by omega
  have hdlen : (data.take (min data.length (file.hdr.numBytes - pos))).length =
      min data.length (file.hdr.numBytes - pos) := by rw [List.length_take]; omega
  rw [← take_min_length]
  simp only [writeAt, run_bind, run_assert, decide_eq_true hdata, if_true, Option.bind_some,
    run_getFile hf, if_neg (Nat.not_le_of_lt hpos), decide_eq_true hsum, run_malloc]
  generalize min data.length (file.hdr.numBytes - pos) = n at *
  generalize hfirst : pos / sectorSize = first
  generalize hlast : (pos + n - 1) / sectorSize = last
  have hfl : first ≤ last := by rw [← hfirst, ← hlast]; exact Nat.div_le_div_right (by omega)
  have hlastlt : last < file.hdr.numSectors := by rw [hsz] at *; omega
  have hmid : first * sectorSize ≤ pos ∧ pos + n ≤ (last + 1) * sectorSize := by rw [hsz] at *; omega
  generalize hw1 : ({ w with
    heap := Function.update w.heap .buffer fun n => w.heap .buffer (n + 1) } : World) = w1
  have hf1 : w1.files f = some file := by rw [← hw1]; exact hf
  have hd1 : w1.disk = w.disk := by rw [← hw1]
  generalize hbuf : slice (w.heap .buffer 0) 0 ((1 + last - first) * sectorSize) = buf
  have hbuflen : buf.length = (1 + last - first) * sectorSize := by rw [← hbuf, length_slice]
  simp only [run_fillSector hf1 hr _ (show first < file.hdr.numSectors by omega),
    run_fillSector hf1 hr _ hlastlt, Option.bind_some]
  generalize hbuf2 : fillIf (!(pos + n == (last + 1) * sectorSize) &&
      (first != last || pos == first * sectorSize)) first last (dataBytes w1.disk file.hdr)
    (fillIf (!(pos == first * sectorSize)) first first (dataBytes w1.disk file.hdr) buf) = buf2
  have hbuf2len : buf2.length = (1 + last - first) * sectorSize := by
    rw [← hbuf2, length_fillIf, length_fillIf, hbuflen]
    · rw [hbuflen, hsz]
      omega
    · rw [length_fillIf, hbuflen, hsz]
      · omega
      · rw [hbuflen, hsz]
        omega
  have hfill : ∀ j < file.hdr.numBytes, first * sectorSize ≤ j →
      j < first * sectorSize + (1 + last - first) * sectorSize → ¬(pos ≤ j ∧ j < pos + n) →
      buf2[j - first * sectorSize]? = (dataBytes w1.disk file.hdr)[j]? := by
    intro j hj hj1 hj2 hout
    rw [← hbuf2]
    refine fill_getElem? hn0 hfirst.symm hlast.symm hbuflen ?_ hj1 ?_ hout
    · rw [length_dataBytes hr.ok]
      exact hj
    · rw [hsz] at *
      omega
  have hcount : first + (1 + last - first) ≤ file.hdr.numSectors := by omega
  have hlen3 : (splice buf2 (pos - first * sectorSize) (data.take n)).length =
      (1 + last - first) * sectorSize := by
    rw [length_splice, hbuf2len]
    rw [hbuf2len, hdlen, hsz]
    rw [hsz] at hmid
    omega
  obtain ⟨D, hrun, hout, hin⟩ := run_writeSectors hf1 hr hnd hcount hlen3
  refine ⟨D, ?_, ?_, ?_⟩
  · simp only [hrun, Option.bind_some, run_pure]
    rw [← hw1]
  · intro x hx
    rw [hout x fun hmem => hx (List.mem_of_mem_drop (List.mem_of_mem_take hmem)), hd1]
  · have hflat := flatMap_splice (d := w1.disk) hnd hlen3 hout hin
    rw [hd1] at hflat hfill
    have hflen := length_flatMap_bytes w.disk file.hdr.dataOf
    rw [hlen] at hflen
    unfold dataBytes at hfill ⊢
    rw [hflat]
    refine take_splice_fill rfl ?_ ?_ hbuf2len hmid.1 ?_ ?_ ?_
    · omega
    · rw [hdlen]
      exact hnle
    · rw [hdlen, hsz] at *
      omega
    · rw [hflen, hsz] at *
      omega
    · intro j hj hj1 hj2 hnot
      rw [hdlen] at hnot
      exact hfill j hj hj1 hj2 hnot

end WriteAt

/-! ## The free map -/

section FreeMap

/-- A bitmap of the sectors of the disk has 32 words. -/
theorem length_map_of_numBits {m : Bitmap} (h : m.numBits = numSectors) : m.map.length = 32 := by
  rw [m.numWords_eq, h]
  rfl

theorem length_mapBytes {m : Bitmap} (h : m.numBits = numSectors) :
    (mapBytes m).length = sectorSize := by
  simp [mapBytes, length_map_of_numBits h, sectorSize]

/-- The words of a bitmap survive the way through its bytes. -/
theorem unpackWords_mapBytes (m : Bitmap) :
    (unpackWords (mapBytes m)).map (BitVec.ofNat 32) = m.map := by
  have hlt : ∀ n ∈ m.map.map BitVec.toNat, n < 2 ^ 32 := by
    intro n hn
    obtain ⟨v, -, rfl⟩ := List.mem_map.mp hn
    exact v.isLt
  rw [mapBytes, unpackWords_packWords hlt, List.map_map]
  have : (BitVec.ofNat 32 ∘ BitVec.toNat : Word → Word) = id := by
    funext v
    simp
  rw [this, List.map_id]

/-- A bitmap read over another one of the same size replaces it. -/
theorem overlayMap_mapBytes {b m : Bitmap} (h : b.numBits = m.numBits) : overlayMap b (mapBytes m) = m := by
  have hlen : b.map.length = m.map.length := by rw [b.numWords_eq, m.numWords_eq, h]
  have hbytes : (mapBytes m).length = (mapBytes b).length := by simp [mapBytes, hlen]
  refine Bitmap.ext h ?_
  simp only [overlayMap]
  rw [splice_of_length_eq hbytes, unpackWords_mapBytes, List.take_append_of_le_length (Nat.le_of_eq hlen),
    List.take_of_length_le (Nat.le_of_eq hlen.symm)]

/-- The free map on disk is `m`. -/
structure MapIs (d : Disk) (m : Bitmap) : Prop where
  numBits_eq : m.numBits = numSectors
  bytes_eq : (d freeMapDataSector).bytes = mapBytes m

theorem MapIs.congr {d d' : Disk} {m : Bitmap} (h : MapIs d m)
    (heq : d' freeMapDataSector = d freeMapDataSector) : MapIs d' m :=
  ⟨h.numBits_eq, by rw [heq]; exact h.bytes_eq⟩

theorem MapHeader.ok {h : RawFileHeader} (hm : MapHeader h) : h.Ok where
  numSectors_eq := by rw [hm.numSectors_eq, hm.numBytes_eq]; rfl
  numBytes_le := by rw [hm.numBytes_eq]; decide

/-- The header covers the whole data sector of the free map. -/
theorem MapHeader.dataBytes_eq {h : RawFileHeader} (hm : MapHeader h) (d : Disk) :
    dataBytes d h = (d freeMapDataSector).bytes := by
  have hlen := (d freeMapDataSector).length_bytes
  rw [dataBytes, hm.dataOf_eq, hm.numBytes_eq]
  simp only [List.flatMap_cons, List.flatMap_nil, List.append_nil]
  rw [List.take_of_length_le (by omega)]

/-- The `OpenFile` of the free map has the header that formatting gave it. -/
def MapFileOk (w : World) : Prop :=
  ∃ file, w.files w.freeMapFile = some file ∧ MapHeader file.hdr

theorem MapHeader.readable {file : OpenFile} (hm : MapHeader file.hdr) : Readable file where
  ok := hm.ok
  lt := by
    intro x hx
    rw [hm.dataOf_eq, List.mem_singleton] at hx
    rw [hx]
    decide

variable {w : World} {m : Bitmap}

theorem run_fetchFreeMap (hf : MapFileOk w) (hm : MapIs w.disk m) :
    fetchFreeMap.run w = some (m, w) := by
  obtain ⟨file, hfile, hmh⟩ := hf
  have hnew : (Bitmap.new numSectors fun _ => 0).numBits = numSectors := Bitmap.numBits_new _ _
  have hread := run_readAt hfile hmh.readable sectorSize 0 (by decide) (by decide)
  rw [hmh.dataBytes_eq, List.drop_zero, List.take_of_length_le
    (Nat.le_of_eq (w.disk freeMapDataSector).length_bytes), hm.bytes_eq] at hread
  simp only [fetchFreeMap, run_bind, run_getState, Option.bind_some, length_mapBytes hnew, hread,
    run_pure, overlayMap_mapBytes (hnew.trans hm.numBits_eq.symm)]

/-- The state after the free map `m` is written back. -/
structure WroteMap (w : World) (m : Bitmap) (w' : World) : Prop where
  eq_with : ∃ D : Disk, w' = { w with
    disk := D
    heap := Function.update w.heap .buffer fun n => w.heap .buffer (n + 1) }
  disk_eq : ∀ x, x ≠ freeMapDataSector → w'.disk x = w.disk x
  mapIs : MapIs w'.disk m

theorem run_writeBackFreeMap (hf : MapFileOk w) (hm : m.numBits = numSectors) :
    ∃ w', (writeBackFreeMap m).run w = some ((), w') ∧ WroteMap w m w' := by
  obtain ⟨file, hfile, hmh⟩ := hf
  have hlen := length_mapBytes hm
  have hnd : file.hdr.dataOf.Nodup := by rw [hmh.dataOf_eq]; simp
  obtain ⟨D, hrun, hout, hdata⟩ := run_writeAt hfile hmh.readable hnd (mapBytes m) 0
    (by rw [hlen]; decide) (by rw [hmh.numBytes_eq]; decide) (by rw [hlen]; decide)
  refine ⟨_, ?_, ⟨⟨D, rfl⟩, ?_, hm, ?_⟩⟩
  · simp only [writeBackFreeMap, run_bind, run_getState, Option.bind_some, hrun, run_pure]
  · intro x hx
    exact hout x (by rw [hmh.dataOf_eq, List.mem_singleton]; exact hx)
  · rw [hmh.dataBytes_eq, hmh.dataBytes_eq, hmh.numBytes_eq, Nat.sub_zero,
      List.take_of_length_le (by omega),
      splice_of_length_eq (by rw [hlen, (w.disk freeMapDataSector).length_bytes])] at hdata
    exact hdata

end FreeMap

end Nachos.Filesys
