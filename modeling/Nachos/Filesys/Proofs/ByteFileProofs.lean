import Nachos.Filesys.Proofs.HandleProofs

/-!
# Proofs: an open file as an array of bytes

A handle that stands where the cursor of a byte file does keeps to it through every call that meets its
condition.
-/

namespace Nachos.Filesys

open Foundations Resumption

section ByteFile

variable {f : FileId} {s : Nat} {w : World} {b : ByteFile} {me : Tid}

/-- A position under the first header. -/
theorem Cursor.first {d : Disk} {s p : Nat} {l : List Nat} (hok : (hdrAt d s).Ok)
    (hp : p ≤ (hdrAt d s).numBytes) :
    Cursor d [] s l p ((content d (s :: l)).take p) ((content d (s :: l)).drop p) := by
  have hp' : 0 + p ≤ (hdrAt d s).numBytes := by
    rw [Nat.zero_add]
    exact hp
  have h := (Cursor.start d s l).advance hok hp'
  rw [Nat.zero_add, List.nil_append] at h
  exact h

/-- The position under the header is not behind the position in the file. -/
theorem Cursor.seek_le {d : Disk} {pre post : List Nat} {x seek : Nat} {A B : List UInt8}
    (h : Cursor d pre x post seek A B) (hok : (hdrAt d x).Ok) : seek ≤ A.length := by
  have hlen := length_dataBytes (d := d) hok
  have hle := h.le
  rw [← h.front, List.length_append, List.length_take]
  omega

/-- The object `f` stands where the byte file `b` does; behind the end of the file this is possible
under the only header of a file. -/
def Tracks (f : FileId) (s : Nat) (w : World) (b : ByteFile) : Prop :=
  ∃ own m c pre x post file, Handle f s w own m c pre x post file ∧ content w.disk c = b.bytes ∧
    (b.cursor ≤ b.bytes.length ∧ Cursor w.disk pre x post file.seekPosition (b.bytes.take b.cursor)
        (b.bytes.drop b.cursor) ∨
      c = [s] ∧ file.seekPosition = b.cursor ∧ b.bytes.length < b.cursor ∧ b.cursor < 2 ^ 32)

theorem Tracks.contents (h : Tracks f s w b) : Contents w s b.bytes := by
  obtain ⟨own, m, c, pre, x, post, file, hh, hbytes, -⟩ := h
  exact hh.contents_iff.mpr hbytes.symm

theorem Handle.run_seek {own : Nat → Option Nat} {m : Bitmap} {c pre post : List Nat} {x : Nat}
    {file : OpenFile} (h : Handle f s w own m c pre x post file) (p : Nat) :
    (seek f p).run w = some ((), { w with
      files := Function.update w.files f
        (some (file.at (hdrAt w.disk x) file.currentSector p)) }) := by
  rw [seek, run_modifyFile h.file_eq, ← h.hdr_eq]
  rfl

/-- `Seek` in a file with one header, or from the first header to a position that it covers. -/
theorem Tracks.seek (h : Tracks f s w b) {position : UInt32} (hc : Faithful f w b (.seek position)) :
    (Call.code me f (.seek position)).Returns w fun answer w' =>
      answer = (b.call (.seek position)).1 ∧ Tracks f s w' (b.call (.seek position)).2 := by
  obtain ⟨own, m, c, pre, x, post, file, hh, hbytes, -⟩ := h
  have hmove := hh.move hh.chain_eq List.prefix_rfl position.toNat
  refine Returns.bind_run (hh.run_seek position.toNat) (Returns.pure ⟨rfl, ?_⟩)
  refine ⟨own, m, c, pre, x, post, _, hmove, hbytes, ?_⟩
  show (position.toNat ≤ b.bytes.length ∧ Cursor w.disk pre x post position.toNat
    (b.bytes.take position.toNat) (b.bytes.drop position.toNat)) ∨ _
  by_cases hshort : b.bytes.length ≤ maxHeaderBytes
  · obtain ⟨hcs, rfl, rfl, rfl⟩ := hh.single (by rw [hbytes]; exact hshort)
    have hok := hh.inv.file.ok x hh.mem
    by_cases hp : position.toNat ≤ b.bytes.length
    · left
      have hcont : content w.disk [x] = b.bytes := by rw [← hbytes, hcs]
      have hlen : b.bytes.length = (hdrAt w.disk x).numBytes := by
        rw [← hcont, content_cons, List.length_append, length_dataBytes hok]
        simp [content]
      rw [← hcont]
      exact ⟨by rw [hcont]; exact hp, Cursor.first hok (by omega)⟩
    · exact Or.inr ⟨hcs, rfl, Nat.lt_of_not_le hp, position.toNat_lt⟩
  · left
    obtain ⟨his, hp⟩ := hc.resolve_left hshort
    have hstart : file.sector = x := hh.eq_of_headerIs his (by
      rw [hh.sector_eq]
      exact hh.inv.file.chain.start_mem)
    rw [hh.sector_eq] at hstart
    subst hstart
    -- the header in memory is the first one, and it is not the only one
    obtain ⟨l, hcl, -⟩ := hh.inv.file.chain
    have hce := hh.chain_eq
    have hpre : pre = [] := by
      cases pre with
      | nil => rfl
      | cons y pre =>
        rw [hce] at hcl
        obtain ⟨rfl, -⟩ := List.cons.inj hcl
        have hnd := hh.inv.file.nodup_headers
        rw [hce, List.cons_append] at hnd
        exact absurd (List.mem_append_right pre (List.mem_cons_self ..)) (List.nodup_cons.mp hnd).1
    subst hpre
    rw [List.nil_append] at hce
    have hok := hh.inv.file.ok s hh.mem
    have hpost : post ≠ [] := by
      rintro rfl
      rw [hce] at hbytes
      have hle := length_content_le (d := w.disk) (c := [s]) (by simpa using hok)
      rw [hbytes] at hle
      simp only [List.length_singleton, Nat.one_mul] at hle
      exact hshort hle
    have hfull := hh.full [] s post hce hpost
    rw [hce] at hbytes
    rw [← hbytes] at hshort ⊢
    exact ⟨by omega, Cursor.first hok (by omega)⟩

/-- What is read at the cursor, and where the cursor is then. -/
theorem take_drop_read (bytes : List UInt8) (k n : Nat) :
    bytes.take (k + ((bytes.drop k).take n).length) = bytes.take k ++ (bytes.drop k).take n ∧
    bytes.drop (k + ((bytes.drop k).take n).length) = (bytes.drop k).drop n := by
  rw [List.length_take, List.length_drop]
  constructor
  · rw [List.take_add]
    congr 1
    rw [List.take_eq_take_iff, List.length_drop]
    omega
  · rw [List.drop_drop]
    by_cases hn : n ≤ bytes.length - k
    · rw [Nat.min_eq_left hn]
    · rw [List.drop_eq_nil_of_le (by omega), List.drop_eq_nil_of_le (by omega)]

theorem Tracks.read (h : Tracks f s w b) {numBytes : UInt32}
    (hc : Faithful f w b (.read numBytes)) :
    (Call.code me f (.read numBytes)).Returns w fun answer w' =>
      answer = (b.call (.read numBytes)).1 ∧ Tracks f s w' (b.call (.read numBytes)).2 := by
  obtain ⟨own, m, c, pre, x, post, file, hh, hbytes, hpos⟩ := h
  obtain ⟨hn, hwrap⟩ := hc
  have hn0 : 0 < numBytes.toNat := by simpa using UInt32.lt_iff_toNat_lt.mp hn
  have hn32 := numBytes.toNat_lt
  have hok := hh.inv.file.ok x hh.mem
  have hmax : maxHeaderBytes = 3712 := rfl
  have hnb := hok.numBytes_le
  generalize hk : numBytes.toNat = n at *
  rcases hpos with ⟨hle, hcur⟩ | ⟨hcs, hseek, hend, hlt⟩
  · obtain ⟨htake, hdrop⟩ := take_drop_read b.bytes b.cursor n
    have hseekA := hcur.seek_le hok
    rw [List.length_take] at hseekA
    by_cases hlt : file.seekPosition + n < 2 ^ 32
    · obtain ⟨pre', x', post', seek', hrun, hto⟩ :=
        run_read hh.readableChain hh.chain_eq hh.file_eq hh.hdr_eq hcur hn0 hlt
      rw [← hk] at hrun
      refine Returns.bind_run hrun (Returns.pure ⟨by simp only [ByteFile.call, hk], ?_⟩)
      refine ⟨own, m, c, pre', x', post', _, hh.move hto.chain_eq hto.isPrefix seek', hbytes,
        Or.inl ⟨?_, ?_⟩⟩
      · simp only [ByteFile.call, hk, List.length_take, List.length_drop]
        omega
      · simp only [ByteFile.call, hk, htake, hdrop]
        exact hto.cursor
    · -- a request that wraps around is made at the end only
      have hendb : b.bytes.length ≤ b.cursor := hwrap.resolve_left (by omega)
      have hback := hcur.back
      rw [List.drop_eq_nil_of_le hendb] at hback
      have hdata := (List.append_eq_nil_iff.mp hback).1
      have hle' : (hdrAt w.disk x).numBytes ≤ file.seekPosition := by
        have := congrArg List.length hdata
        rw [List.length_drop, length_dataBytes hok, List.length_nil] at this
        omega
      have hrun := run_read_wrap hh.file_eq hn0 hn32 (by rw [hh.hdr_eq]; exact hcur.le)
        (by have := hcur.le; omega) (by omega)
      rw [if_pos (by rw [hh.hdr_eq]; exact hle'), ← hk] at hrun
      have hnil : (b.bytes.drop b.cursor).take n = [] := by
        rw [List.drop_eq_nil_of_le hendb, List.take_nil]
      refine Returns.bind_run hrun (Returns.pure ⟨by simp only [ByteFile.call, hk, hnil], ?_⟩)
      refine ⟨own, m, c, pre, x, post, file, hh, hbytes, Or.inl ?_⟩
      simp only [ByteFile.call, hk, hnil, List.length_nil, Nat.add_zero]
      exact ⟨hle, hcur⟩
  · -- behind the end of the file
    have hshort : (content w.disk c).length = (hdrAt w.disk s).numBytes := by
      have hoks := hh.inv.file.ok s hh.inv.file.chain.start_mem
      rw [hcs, content_cons, List.length_append, length_dataBytes hoks]
      simp [content]
    have hce := hh.chain_eq
    obtain ⟨-, rfl, rfl, rfl⟩ := hh.single (by rw [hshort]; exact
      (hh.inv.file.ok s hh.inv.file.chain.start_mem).numBytes_le)
    have hnext : (hdrAt w.disk x).nextFileHeader = 0 := hh.readableChain.next [] x [] hce
    have hrun := run_read_end hh.file_eq hn0 (by rw [hh.hdr_eq, hseek, ← hshort, hbytes]; omega)
      (by rw [hh.hdr_eq]; exact hnext) (by rw [hseek]; exact hlt)
    have hnil : (b.bytes.drop b.cursor).take n = [] := by
      rw [List.drop_eq_nil_of_le (Nat.le_of_lt hend), List.take_nil]
    rw [← hk] at hrun
    refine Returns.bind_run hrun (Returns.pure ⟨by simp only [ByteFile.call, hk, hnil], ?_⟩)
    refine ⟨own, m, c, [], x, [], file, hh, hbytes, Or.inr ?_⟩
    simp only [ByteFile.call, hk, hnil, List.length_nil, Nat.add_zero]
    exact ⟨hcs, hseek, hend, hlt⟩

theorem overwrite_of_le {bytes : List UInt8} {pos : Nat} (h : pos ≤ bytes.length)
    (data : List UInt8) :
    overwrite bytes pos data = bytes.take pos ++ data ++ bytes.drop (pos + data.length) := by
  rw [overwrite, Nat.sub_eq_zero_of_le h, List.replicate_zero, List.append_nil, splice]

theorem Tracks.write (h : Tracks f s w b) {data : List UInt8} (hc : Faithful f w b (.write data)) :
    (Call.code me f (.write data)).Returns w fun answer w' =>
      answer = (b.call (.write data)).1 ∧ Tracks f s w' (b.call (.write data)).2 := by
  obtain ⟨own, m, c, pre, x, post, file, hh, hbytes, hpos⟩ := h
  obtain ⟨hdata, hle, his, hsec⟩ := hc
  rcases hpos with ⟨-, hcur⟩ | ⟨-, -, hlt, -⟩
  · have hx : file.currentSector = x := by
      obtain ⟨pre0, post0, hc0, -⟩ := hh.behind
      exact hh.eq_of_headerIs his (by rw [hc0]; simp)
    have hce := hh.chain_eq
    rw [← hx] at hce hcur
    have hroom := hh.sectors_le hsec hce
    obtain ⟨r, w', own', m', c', pre', x', post', file', hrun, hh', hcur', hr⟩ :=
      hh.write me hce hcur hdata (Nat.le_trans (Nat.le_add_right _ _) hroom)
    obtain rfl := hr hroom
    have hover := overwrite_of_le hle data
    have htl : (b.bytes.take b.cursor ++ data).length = b.cursor + data.length := by
      rw [List.length_append, List.length_take, Nat.min_eq_left hle]
    have hcontent := hcur'.content_eq
    rw [List.take_length, List.drop_drop] at hcur' hcontent
    refine Returns.bind_run hrun (Returns.pure ⟨rfl, ?_⟩)
    refine ⟨own', m', c', pre', x', post', file', hh', ?_, Or.inl ⟨?_, ?_⟩⟩
    · rw [hh'.chain_eq, hcontent]
      exact hover.symm
    · simp only [ByteFile.call, hover, List.length_append] at htl ⊢
      omega
    · simp only [ByteFile.call, hover]
      rw [← htl, List.take_left, List.drop_left, htl]
      exact hcur'
  · omega

theorem Tracks.call (me : Tid) (h : Tracks f s w b) {call : Call} (hc : Faithful f w b call) :
    (call.code me f).Returns w fun answer w' =>
      answer = (b.call call).1 ∧ Tracks f s w' (b.call call).2 := by
  cases call with
  | seek position => exact h.seek hc
  | read numBytes => exact h.read hc
  | write data => exact h.write hc

/-- Calls that meet their conditions answer as the byte file does, by induction over the calls. -/
theorem Tracks.agrees (calls : List Call) :
    ∀ {w : World} {b : ByteFile}, Tracks f s w b → AllFaithful me f w b calls →
      Agrees me f s w b calls := by
  induction calls with
  | nil =>
    intro w b h _
    exact h.contents
  | cons call calls ih =>
    intro w b h hall
    obtain ⟨hc, hrest⟩ := hall
    obtain ⟨answer, w', hrun, hans, hnext⟩ := h.call me hc
    exact ⟨h.contents, answer, w', hrun, hans,
      ih hnext (hrest w' (by rw [callStep, hrun]; rfl))⟩

theorem FileReady.tracks {w w' : World} {bytes : List UInt8} (h : FileReady w s)
    (hopen : (newOpenFile s).run w = some (f, w')) (hc : Contents w' s bytes) :
    Tracks f s w' { bytes := bytes, cursor := 0 } := by
  obtain ⟨own, m, c, hr⟩ := h
  obtain ⟨w1, hrun, hat⟩ := run_newOpenFile (hr.layout.lt s s hr.file.own_start) w
  rw [hopen] at hrun
  cases hrun
  obtain ⟨l, hcl, hh⟩ := hr.handle hat
  obtain rfl := hh.contents_iff.mp hc
  refine ⟨own, m, c, [], s, l, _, hh, rfl, Or.inl ⟨Nat.zero_le _, ?_⟩⟩
  rw [List.take_zero, List.drop_zero, hcl]
  exact Cursor.start w'.disk s l

/-- The state after the first `Write` on the opened file of the small disk. -/
theorem smallFile_written {data : List UInt8}
    (hopen : (newOpenFile 3).run smallWorld = some (1, w))
    (hf : Faithful 1 w { bytes := [], cursor := 0 } (.write data)) :
    ∃ w', (Call.code 0 1 (.write data)).run w = some (.count data.length, w') ∧
      Tracks 1 3 w' { bytes := data, cursor := data.length } := by
  have htracks := smallFile_fileReady.tracks hopen (smallFile_contents hopen)
  obtain ⟨answer, w', hrun, rfl, hnext⟩ := htracks.call 0 hf
  refine ⟨w', hrun, ?_⟩
  have hbytes : overwrite [] 0 data = data := by simp [overwrite, splice]
  simp only [ByteFile.call, hbytes, Nat.zero_add] at hnext
  exact hnext

/-- Every sequence of calls on a fresh `OpenFile` that meet their conditions has the results and the
file contents of the byte file. -/
theorem openFile_byteFile {w w' : World} {bytes : List UInt8} {calls : List Call}
    (hready : FileReady w s) (hopen : (newOpenFile s).run w = some (f, w'))
    (hc : Contents w' s bytes) (hall : AllFaithful me f w' { bytes := bytes, cursor := 0 } calls) :
    Agrees me f s w' { bytes := bytes, cursor := 0 } calls :=
  (hready.tracks hopen hc).agrees calls hall

/-- A `Write`, a `Seek` back and a `Read` of what was written. -/
theorem openFile_byteFile_back : ∃ w, (newOpenFile 3).run smallWorld = some (1, w) ∧
    Agrees 0 1 3 w { bytes := [], cursor := 0 } [.write [1, 2, 3], .seek 1, .read 2] := by
  obtain ⟨w, hopen⟩ := smallFile_opened
  have hf := smallFile_faithful hopen (show [1, 2, 3] ≠ [] by decide) (by decide)
  refine ⟨w, hopen, openFile_byteFile smallFile_fileReady hopen (smallFile_contents hopen)
    ⟨hf, fun _ _ => ⟨Or.inl (by decide), fun _ _ => ⟨⟨by decide, Or.inl (by decide)⟩, fun _ _ =>
      True.intro⟩⟩⟩⟩

/-- After a `Write` that ends under a second header, `Seek` to the beginning goes to the beginning of
that header: `Read` returns byte 3712 in place of byte 0. -/
theorem seek_in_second_header : ∃ w, (newOpenFile 3).run smallWorld = some (1, w) ∧
    ¬ Agrees 0 1 3 w { bytes := [], cursor := 0 }
      [.write (List.replicate 3712 0 ++ [1]), .seek 0, .read 1] := by
  obtain ⟨w, hopen⟩ := smallFile_opened
  have hlen : (List.replicate 3712 (0 : UInt8) ++ [1]).length = 3713 := by
    rw [List.length_append, List.length_replicate]
    rfl
  have hhead : (List.replicate 3712 (0 : UInt8) ++ [1]).take 1 = [0] := by
    rw [List.take_append_of_le_length (by rw [List.length_replicate]; decide), List.take_replicate]
    rfl
  have hlast : (List.replicate 3712 (0 : UInt8) ++ [1]).drop 3712 = [1] := by
    exact List.drop_left' List.length_replicate
  generalize List.replicate 3712 (0 : UInt8) ++ [1] = data at *
  have hne : data ≠ [] := by
    rintro rfl
    cases hlen
  have hf := smallFile_faithful hopen hne (by rw [hlen]; decide)
  obtain ⟨w1, hrun1, own, m, c, pre, x, post, file, hh, hbytes, hpos⟩ := smallFile_written hopen hf
  have hbytes : content w1.disk c = data := hbytes
  refine ⟨w, hopen, ?_⟩
  rintro ⟨-, answer1, w1', hrun1', -, -, answer2, w2, hrun2, -, -, answer3, w3, hrun3, hanswer, -⟩
  rw [hrun1] at hrun1'
  cases hrun1'
  have hok := hh.inv.file.ok x hh.mem
  have hnb := hok.numBytes_le
  have hmax : maxHeaderBytes = 3712 := rfl
  -- the object stands at position 1 under the second header
  rcases hpos with ⟨-, hcur⟩ | ⟨-, -, hlt, -⟩
  · have hpre := length_content_full hh.inv.file.ok hh.full hh.chain_eq (by simp)
    have hfront := congrArg List.length hcur.front
    have hle := hcur.le
    rw [List.length_append, List.length_take, length_dataBytes hok, List.take_length, hpre, hlen]
      at hfront
    rw [hmax] at hnb hpre hfront
    have harith : ∀ a k n : Nat, k ≤ n → n ≤ 3712 → a * 3712 + min k n = 3713 → a * 3712 = 3712 := by
      omega
    have hprelen := hpre.trans (harith _ _ _ hle hnb hfront)
    -- `Seek(0)` leaves it there, so that `Read` returns what the second header covers
    have hseek := hh.run_seek 0
    obtain ⟨u, w2', hseek', hret⟩ := run_bind_eq_some.mp hrun2
    have hseek'' : (Filesys.seek 1 0).run w1 = some (u, w2') := hseek'
    rw [hseek] at hseek''
    cases hseek''
    cases hret
    have hmove := hh.move hh.chain_eq List.prefix_rfl 0
    have hcur0 : Cursor w1.disk pre x post 0 (content w1.disk pre)
        (dataBytes w1.disk (hdrAt w1.disk x) ++ content w1.disk post) :=
      ⟨by rw [List.take_zero, List.append_nil], by rw [List.drop_zero], Nat.zero_le _⟩
    have hback : dataBytes w1.disk (hdrAt w1.disk x) ++ content w1.disk post = [1] := by
      have hcontent := hcur0.content_eq
      rw [← hh.chain_eq, hbytes] at hcontent
      rw [← hlast, hcontent, ← hprelen]
      exact List.drop_left.symm
    obtain ⟨pre', x', post', seek', hread, -⟩ := run_read (n := 1) hmove.readableChain hmove.chain_eq
      hmove.file_eq hmove.hdr_eq hcur0 (by decide) (show 0 + 1 < 2 ^ 32 by decide)
    obtain ⟨bs, w3', hread', hret⟩ := run_bind_eq_some.mp hrun3
    have hread'' : (Filesys.read 1 1 false).run _ = some (bs, w3') := hread'
    rw [hread, hback] at hread''
    cases hread''
    cases hret
    simp only [ByteFile.call, Answer.bytes.injEq] at hanswer
    have hzero : overwrite [] 0 data = data := by simp [overwrite, splice]
    rw [hzero] at hanswer
    have : ([1] : List UInt8) = data.take 1 := hanswer
    rw [hhead] at this
    exact absurd this (by decide)
  · exact absurd hlt (Nat.lt_irrefl _)

end ByteFile

end Nachos.Filesys
