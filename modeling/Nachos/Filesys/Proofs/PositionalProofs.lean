import Nachos.Filesys.Proofs.ByteFileProofs

/-!
# Proofs: positional access

`Length` and `ReadAt` look at the header in memory only. After any `Read`s and `Write`s this is a header
of the file, and what they answer is right exactly where the file has no other one.
-/

namespace Nachos.Filesys

open Foundations Resumption

section Positional

variable {f : FileId} {s : Nat} {w w' : World} {me : Tid}

/-- The object stands at a header of the file, at a position that the header covers. -/
def AtPosition (f : FileId) (s : Nat) (w : World) : Prop :=
  ∃ own m c pre x post file, Handle f s w own m c pre x post file ∧
    file.seekPosition ≤ (hdrAt w.disk x).numBytes

theorem AtPosition.read (h : AtPosition f s w) {n : Nat} (hn32 : n < 2 ^ 32) {bs : List UInt8}
    (hrun : (Filesys.read f n false).run w = some (bs, w')) : AtPosition f s w' := by
  obtain ⟨own, m, c, pre, x, post, file, hh, hle⟩ := h
  have hn : 0 < n := by
    by_contra hz
    rw [Filesys.read, run_bind, run_assert, decide_eq_false hz] at hrun
    cases hrun
  have hnb := (hh.inv.file.ok x hh.mem).numBytes_le
  have hmax : maxHeaderBytes = 3712 := rfl
  by_cases hlt : file.seekPosition + n < 2 ^ 32
  · have hcur : Cursor w.disk pre x post file.seekPosition _ _ := ⟨rfl, rfl, hle⟩
    obtain ⟨pre', x', post', seek', hrun', hto⟩ :=
      run_read hh.readableChain hh.chain_eq hh.file_eq hh.hdr_eq hcur hn hlt
    rw [hrun] at hrun'
    cases hrun'
    exact ⟨own, m, c, pre', x', post', _, hh.move hto.chain_eq hto.isPrefix seek', hto.cursor.le⟩
  · rw [run_read_wrap hh.file_eq hn hn32 (by rw [hh.hdr_eq]; exact hle) (by omega) (by omega)] at hrun
    split at hrun
    · cases hrun
      exact ⟨own, m, c, pre, x, post, file, hh, hle⟩
    · cases hrun

theorem AtPosition.write (h : AtPosition f s w) {data : List UInt8}
    (hs : SectorsFor needOld f w data.length) {n : Nat}
    (hrun : (Filesys.write me f data false).run w = some (n, w')) : AtPosition f s w' := by
  obtain ⟨own, m, c, pre, x, post, file, hh, hle⟩ := h
  have hdata : data ≠ [] := by
    rintro rfl
    rw [Filesys.write, run_bind, run_assert] at hrun
    cases hrun
  obtain ⟨pre0, post0, hc0, hpre0⟩ := hh.behind
  -- in front of the header in memory every header is full
  have hle0 : file.seekPosition ≤ (hdrAt w.disk file.currentSector).numBytes := by
    by_cases hpost0 : post0 = []
    · have happ := hh.chain_eq.symm.trans hc0
      rw [hpost0] at happ
      have hlen := congrArg List.length happ
      have hprelen := hpre0.length_le
      simp only [List.length_append, List.length_cons, List.length_nil] at hlen
      have hpost : (x :: post).length = [file.currentSector].length := by
        rw [List.length_cons, List.length_singleton]
        omega
      have := (List.cons.inj (List.append_inj' happ hpost).2).1
      rw [← this]
      exact hle
    · rw [hh.full pre0 _ post0 hc0 hpost0]
      exact Nat.le_trans hle (hh.inv.file.ok x hh.mem).numBytes_le
  obtain ⟨r, w1, own', m', c', pre', x', post', file', hrun', hh', hcur', -⟩ :=
    hh.write me hc0 ⟨rfl, rfl, hle0⟩ hdata (hh.sectors_le hs hc0)
  rw [hrun] at hrun'
  cases hrun'
  exact ⟨own', m', c', pre', x', post', file', hh', hcur'.le⟩

theorem AtPosition.step (h : AtPosition f s w) {call : Call} (hcall : ReadOrExtend f w call)
    (hstep : callStep me f w call = some w') : AtPosition f s w' := by
  obtain ⟨⟨answer, w1⟩, hrun, rfl⟩ := Option.map_eq_some_iff.mp hstep
  cases call with
  | seek position => exact hcall.elim
  | read numBytes =>
    obtain ⟨bs, w2, hread, hret⟩ := run_bind_eq_some.mp hrun
    cases hret
    exact h.read numBytes.toNat_lt hread
  | write data =>
    obtain ⟨n, w2, hwrite, hret⟩ := run_bind_eq_some.mp hrun
    cases hret
    exact h.write hcall hwrite

/-- A fresh `OpenFile` stands at the beginning of the file. -/
theorem FileReady.atPosition (h : FileReady w s) (hopen : (newOpenFile s).run w = some (f, w')) :
    AtPosition f s w' := by
  obtain ⟨own, m, c, hr⟩ := h
  obtain ⟨w1, hrun, hat⟩ := run_newOpenFile (hr.layout.lt s s hr.file.own_start) w
  rw [hopen] at hrun
  cases hrun
  obtain ⟨l, -, hh⟩ := hr.handle hat
  exact ⟨own, m, c, [], s, l, _, hh, Nat.zero_le _⟩

theorem run_length {file : OpenFile} (hf : w.files f = some file) :
    (length f).run w = some (file.hdr.numBytes, w) := by
  simp only [length, run_bind, run_getFile hf, Option.bind_some, run_pure]

/-- `Length` and `ReadAt` are right exactly where one header covers the file and the end of the request
does not wrap around. -/
theorem AtPosition.positional_iff (h : AtPosition f s w) {bytes : List UInt8} (hc : Contents w s bytes)
    {n pos : Nat} (hn : 0 < n) :
    ((length f).Returns w (fun k _ => k = bytes.length) ∧
      (readAt f n pos).Returns w fun bs _ => bs = (bytes.drop pos).take n) ↔
    bytes.length ≤ maxHeaderBytes ∧ (pos + n < 2 ^ 32 ∨ bytes.length ≤ pos) := by
  obtain ⟨own, m, c, pre, x, post, file, hh, -⟩ := h
  have hok := hh.inv.file.ok x hh.mem
  have hreadable := hh.inv.readable hh.mem hh.hdr_eq
  obtain rfl := hh.contents_iff.mp hc
  have hlen : (dataBytes w.disk file.hdr).length = file.hdr.numBytes :=
    length_dataBytes hreadable.ok
  constructor
  · rintro ⟨⟨k, w1, hrun, hk⟩, bs, w2, hread, -⟩
    rw [run_length hh.file_eq] at hrun
    cases hrun
    refine ⟨by rw [← hk]; exact hreadable.ok.numBytes_le, ?_⟩
    by_contra hnot
    rw [not_or] at hnot
    simp only [readAt, run_bind, run_assert, decide_eq_true hn, if_true, Option.bind_some,
      run_getFile hh.file_eq] at hread
    rw [if_neg (by omega)] at hread
    simp only [run_bind, run_assert, decide_eq_false hnot.1, Bool.false_eq_true, if_false,
      Option.bind_none] at hread
    cases hread
  · rintro ⟨hshort, hpos⟩
    obtain ⟨hcs, -, rfl, -⟩ := hh.single hshort
    have hcontent : content w.disk c = dataBytes w.disk file.hdr := by
      rw [hcs, content_cons, hh.hdr_eq]
      simp [content]
    rw [hcontent] at hpos ⊢
    refine ⟨⟨_, _, run_length hh.file_eq, hlen.symm⟩, ?_⟩
    rcases hpos with hlt | hend
    · exact ⟨_, _, run_readAt hh.file_eq hreadable n pos hn hlt, rfl⟩
    · refine ⟨[], w, ?_, ?_⟩
      · simp only [readAt, run_bind, run_assert, decide_eq_true hn, if_true, Option.bind_some,
          run_getFile hh.file_eq]
        rw [if_pos (by omega)]
        rfl
      · rw [List.drop_eq_nil_of_le hend, List.take_nil]

/-- The `Write` finds the sectors for the headers that exist. -/
theorem smallFile_readOrExtend {data : List UInt8}
    (hf : Faithful 1 w { bytes := [], cursor := 0 } (.write data)) :
    ReadOrExtend 1 w (.write data) := by
  obtain ⟨-, -, -, file, m, pre, post, hfile, hm, hc, hle⟩ := hf
  exact ⟨file, m, pre, post, hfile, hm, hc, Nat.le_trans (Nat.le_add_right _ _) hle⟩

end Positional

/-! ## Sectors

`ReadAt` and `WriteAt` on their own, over any header in memory. -/

section Sectors

variable {w : World} {f : FileId} {file : OpenFile}

/-- What `WriteAt` does, also behind the end of what the header covers. -/
theorem run_writeAt_all (hf : w.files f = some file) (hr : Readable file) (hnodup : file.hdr.dataOf.Nodup)
    (data : List UInt8) (pos : Nat) (hdata : 0 < data.length) (hsum : pos + data.length < 2 ^ 32) :
    ∃ w', (writeAt f data pos).run w = some (min data.length (file.hdr.numBytes - pos), w') ∧
      (∀ x, x ∉ file.hdr.dataOf → w'.disk x = w.disk x) ∧
      dataBytes w'.disk file.hdr = splice (dataBytes w.disk file.hdr) pos (data.take (file.hdr.numBytes - pos)) := by
  by_cases hpos : pos < file.hdr.numBytes
  · obtain ⟨D, hrun, hout, hbytes⟩ := run_writeAt hf hr hnodup data pos hdata hpos hsum
    exact ⟨_, hrun, hout, hbytes⟩
  · have hzero : file.hdr.numBytes - pos = 0 := by omega
    refine ⟨w, ?_, fun _ _ => rfl, ?_⟩
    · simp only [writeAt, run_bind, run_assert, decide_eq_true hdata, if_true, Option.bind_some, run_getFile hf]
      rw [if_pos (Nat.not_lt.mp hpos), hzero, Nat.min_zero]
      rfl
    · rw [hzero, List.take_zero, splice_nil]

/-- `WriteAt` splices the bytes into what the header covers, as far as it reaches, and writes no other
sector; `ReadAt` answers a slice of it. -/
theorem readAt_writeAt_splice (hf : w.files f = some file)
    (hsectors : file.hdr.numSectors = divRoundUp file.hdr.numBytes sectorSize)
    (hbytes : file.hdr.numBytes ≤ numDirect * sectorSize) (hlt : ∀ x ∈ file.hdr.dataOf, x < numSectors)
    (hnodup : file.hdr.dataOf.Nodup) (data : List UInt8) (pos n : Nat) (hn : n = data.length) (hpos : 0 < n)
    (hsum : pos + n < 2 ^ 32) :
    (∃ w', (writeAt f data pos).run w = some (min n (file.hdr.numBytes - pos), w') ∧
      (∀ x, x ∉ file.hdr.dataOf → w'.disk x = w.disk x) ∧
      ∀ j, (dataBytes w'.disk file.hdr)[j]? =
        if pos ≤ j ∧ j < pos + min n (file.hdr.numBytes - pos) then data[j - pos]?
        else (dataBytes w.disk file.hdr)[j]?) ∧
    (readAt f n pos).run w = some (((dataBytes w.disk file.hdr).drop pos).take (min n (file.hdr.numBytes - pos)), w) := by
  have hr : Readable file := ⟨⟨hsectors, hbytes⟩, hlt⟩
  have hL := length_dataBytes (d := w.disk) hr.ok
  subst hn
  refine ⟨?_, ?_⟩
  · obtain ⟨w', hrun, hout, hsplice⟩ := run_writeAt_all hf hr hnodup data pos hpos hsum
    refine ⟨w', hrun, hout, fun j => ?_⟩
    rw [hsplice]
    by_cases hle : pos ≤ file.hdr.numBytes
    · rw [getElem?_splice (by omega), List.length_take, Nat.min_comm]
      split
      · rename_i hj
        rw [List.getElem?_take_of_lt (by omega)]
      · rfl
    · have hzero : file.hdr.numBytes - pos = 0 := by omega
      rw [hzero, List.take_zero, splice_nil, Nat.min_zero, if_neg (by omega)]
  · rw [run_readAt hf hr data.length pos hpos hsum]
    congr 2
    rw [List.take_eq_take_iff, List.length_drop, hL]
    omega

/-- Two bytes of the free map of the small disk. -/
theorem readAt_writeAt_splice_small :
    (∃ w', (writeAt 0 [1, 2] 127).run smallWorld = some (1, w') ∧
      (∀ x, x ∉ mapHeader.dataOf → w'.disk x = smallWorld.disk x) ∧
      ∀ j, (dataBytes w'.disk mapHeader)[j]? =
        if 127 ≤ j ∧ j < 128 then ([1, 2] : List UInt8)[j - 127]? else (dataBytes smallWorld.disk mapHeader)[j]?) ∧
    (readAt 0 2 127).run smallWorld =
      some (((dataBytes smallWorld.disk mapHeader).drop 127).take 1, smallWorld) := by
  have hfile : smallWorld.files 0 = some { hdr := mapHeader, seekPosition := 0, sector := 0, currentSector := 0 } := by
    simp [smallWorld]
  have hmin : min 2 (mapHeader.numBytes - 127) = 1 := by decide
  have h := readAt_writeAt_splice hfile rfl (by decide) (by decide) (by decide) [1, 2] 127 2 rfl (by decide)
    (by decide)
  rw [hmin] at h
  exact h

end Sectors

end Nachos.Filesys
