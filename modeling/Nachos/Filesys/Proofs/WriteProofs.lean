import Nachos.Filesys.Proofs.WriteStepProofs

/-!
# Proofs: `Write`

`Write` goes through the current header, the headers behind it and new headers. On a file whose
headers are full up to the last one, the position of the write splits the content into what is before
and what is behind it (`Cursor`), and writing moves bytes from the data to the front part.
-/

namespace Nachos.Filesys

open Foundations Resumption

/-! ## The cursor -/

/-- The position `seek` under the header at `x` splits the content of the file with the headers
`pre ++ x :: post` into `A` and `B`. -/
structure Cursor (d : Disk) (pre : List Nat) (x : Nat) (post : List Nat) (seek : Nat)
    (A B : List UInt8) : Prop where
  front : content d pre ++ (dataBytes d (hdrAt d x)).take seek = A
  back : (dataBytes d (hdrAt d x)).drop seek ++ content d post = B
  le : seek ≤ (hdrAt d x).numBytes

theorem Cursor.content_eq {d : Disk} {pre : List Nat} {x : Nat} {post : List Nat} {seek : Nat}
    {A B : List UInt8} (h : Cursor d pre x post seek A B) : content d (pre ++ x :: post) = A ++ B := by
  rw [content_append, content_cons, ← h.front, ← h.back]
  simp only [List.append_assoc]
  rw [← List.append_assoc (List.take seek _), List.take_append_drop]

/-- At the end of a header the cursor is at the beginning of the next one. -/
theorem Cursor.next {d : Disk} {pre : List Nat} {x y : Nat} {post : List Nat} {seek : Nat}
    {A B : List UInt8} (h : Cursor d pre x (y :: post) seek A B) (hok : (hdrAt d x).Ok)
    (hend : seek = (hdrAt d x).numBytes) : Cursor d (pre ++ [x]) y post 0 A B := by
  have hlen := length_dataBytes (d := d) hok
  refine ⟨?_, ?_, Nat.zero_le _⟩
  · rw [← h.front, content_append, content_cons, List.take_zero, List.append_nil,
      List.take_of_length_le (by omega)]
    simp [content]
  · rw [List.drop_zero, ← h.back, List.drop_eq_nil_of_le (by omega), content_cons, List.nil_append]

section Cursor

variable {w w' : World} {own own' : Nat → Option Nat} {m m' : Bitmap} {f : FileId} {s x seek : Nat}
  {c pre post : List Nat} {chunk A B : List UInt8}

/-- What the other headers cover did not change. -/
theorem Here.content_eq {l : List Nat} (h : Here f s c x seek chunk w own m w' own' m')
    (hl : ∀ y ∈ l, y ∈ c ∧ y ≠ x) : content w'.disk l = content w.disk l := by
  unfold content
  apply List.flatMap_congr
  intro y hy
  obtain ⟨hyc, hyx⟩ := hl y hy
  rw [(h.others y hyc hyx).1]
  exact (h.others y hyc hyx).2

/-- Writing moves the cursor. Where the header was extended it has to be the last one. -/
theorem Here.cursor (h : Here f s c x seek chunk w own m w' own' m') (hinv : WriteInv w own m f s c)
    (hc : c = pre ++ x :: post)
    (hext : seek + chunk.length ≤ (hdrAt w.disk x).numBytes ∨ post = [])
    (hcur : Cursor w.disk pre x post seek A B) :
    Cursor w'.disk pre x post (seek + chunk.length) (A ++ chunk) (B.drop chunk.length) := by
  have hnd := hinv.file.nodup_headers
  rw [hc] at hnd
  obtain ⟨-, hnd2, hdisj⟩ := List.nodup_append.mp hnd
  have hpre : content w'.disk pre = content w.disk pre := h.content_eq fun y hy =>
    ⟨by rw [hc]; exact List.mem_append_left _ hy, hdisj y hy x (List.mem_cons_self ..)⟩
  have hpost : content w'.disk post = content w.disk post := h.content_eq fun y hy =>
    ⟨by rw [hc]; exact List.mem_append_right _ (List.mem_cons_of_mem x hy),
      fun e => (List.nodup_cons.mp hnd2).1 (e ▸ hy)⟩
  have hx : x ∈ c := by rw [hc]; simp
  have hlen := length_dataBytes (d := w.disk) (hinv.file.ok x hx)
  have hle := hcur.le
  have hb := h.bytes hle
  have htl : ((dataBytes w.disk (hdrAt w.disk x)).take seek).length = seek := by
    rw [List.length_take]
    omega
  refine ⟨?_, ?_, ?_⟩
  · rw [hpre, hb, ← hcur.front, splice, List.take_append_of_le_length (by simp [htl]),
      List.take_of_length_le (by simp [htl]), List.append_assoc]
  · rw [hb, hpost, ← hcur.back, splice, List.drop_append_of_le_length (by simp [htl]),
      List.drop_eq_nil_of_le (by simp [htl]), List.nil_append, List.drop_append, List.drop_drop]
    congr 1
    rcases hext with hfit | hnil
    · have : chunk.length - ((dataBytes w.disk (hdrAt w.disk x)).drop seek).length = 0 := by
        rw [List.length_drop]
        omega
      rw [this, List.drop_zero]
    · rw [hnil]
      simp [content]
  · rw [h.numBytes_eq (Or.inr hle)]
    omega

/-- The headers in front of the last one stay full. -/
theorem Here.full (h : Here f s c x seek chunk w own m w' own' m') (hfull : Full w.disk c)
    (hle : seek + chunk.length ≤ maxHeaderBytes)
    (hb : chunk ≠ [] ∨ seek ≤ (hdrAt w.disk x).numBytes) : Full w'.disk c := by
  intro pre y post hc hpost
  have hy := hfull pre y post hc hpost
  by_cases hyx : y = x
  · rw [hyx] at hy ⊢
    rw [h.numBytes_eq hb]
    omega
  · rw [(h.others y (by rw [hc]; simp) hyx).1]
    exact hy

end Cursor

/-! ## The current header -/

section Current

variable {w : World} {own : Nat → Option Nat} {m : Bitmap} {f : FileId} {s x : Nat} {c : List Nat}
  {file : OpenFile}

/-- The header that is left in memory when there is no room. -/
structure Stale (file file' : OpenFile) : Prop where
  numBytes_le : file'.hdr.numBytes ≤ maxHeaderBytes
  next_eq : file'.hdr.nextFileHeader = file.hdr.nextFileHeader
  rest_eq : file' = { file with hdr := file'.hdr }

/-- The object at position `seek` under a header, with `cur` as the header to go on at. -/
def OpenFile.at (file : OpenFile) (hdr : RawFileHeader) (cur seek : Nat) : OpenFile :=
  { file with hdr := hdr, currentSector := cur, seekPosition := seek }

/-- To extend the header and write under it from position `seek` on. -/
theorem run_extend_chunk (h : WriteInv w own m f s c) (hf : w.files f = some file) (hx : x ∈ c)
    (hhdr : file.hdr = hdrAt w.disk x) {st : Writing} (hst : st.freeMap = m) {n : Nat}
    (hn : 0 < n) (hnl : n ≤ st.data.length) (cur seek : Nat) (hfit : seek + n ≤ maxHeaderBytes) :
    (m.countClear < needHere (hdrAt w.disk x) seek n ∧
      ∃ file', Stale file file' ∧ (extendHeader f x (seek + n) st).run w =
        some ((false, st), { w with files := Function.update w.files f (some file') })) ∨
    ∃ w1 w2 own1 m1 file1, (extendHeader f x (seek + n) st).run w =
        some ((true, { st with freeMap := m1 }), w1) ∧
      w1.files f = some { file with hdr := hdrAt w1.disk x } ∧
      file1 = file.at (hdrAt w1.disk x) cur seek ∧
      (writeChunk f n { st with freeMap := m1 }).run
        { w1 with files := Function.update w1.files f (some file1) } =
        some ({ freeMap := m1, data := st.data.drop n, result := st.result + n }, w2) ∧
      Here f s c x seek (st.data.take n) w own m w2 own1 m1 ∧
      w2.files f = some (file.at (hdrAt w2.disk x) cur (seek + n)) := by
  have hlen : (st.data.take n).length = n := by rw [List.length_take]; omega
  have hne : st.data.take n ≠ [] := by
    intro hnil
    rw [hnil] at hlen
    simp only [List.length_nil] at hlen
    omega
  have hok : file.hdr.Ok := by rw [hhdr]; exact h.file.ok x hx
  have hneed : needHere (hdrAt w.disk x) seek n =
      file.hdr.newSectors (seek + n - file.hdr.numBytes) := by
    rw [needHere, if_neg (by omega), hhdr]
  -- whichever way the header came to cover the bytes, the chunk is written under it
  have hchunk : ∀ w1 own1 m1, Extended f s c x file (seek + n) w own m w1 own1 m1 →
      ∃ w2, (writeChunk f n { st with freeMap := m1 }).run { w1 with
          files := Function.update w1.files f (some (file.at (hdrAt w1.disk x) cur seek)) } =
          some ({ freeMap := m1, data := st.data.drop n, result := st.result + n }, w2) ∧
        Here f s c x seek (st.data.take n) w own m w2 own1 m1 ∧
        w2.files f = some (file.at (hdrAt w2.disk x) cur (seek + n)) := by
    intro w1 own1 m1 he
    obtain ⟨w2, hrun2, hch⟩ := run_writeChunk (he.inv.setFile (file.at (hdrAt w1.disk x) cur seek))
      (Function.update_self ..) hx rfl { st with freeMap := m1 } hn hnl (by
        show seek + n ≤ (hdrAt w1.disk x).numBytes
        rw [he.numBytes_eq]
        omega)
    refine ⟨w2, hrun2, he.here h hx hch (by rw [hlen]; rfl) hne, ?_⟩
    have hxh := hch.headers x hx
    simp only at hxh
    rw [hch.file_eq, hlen, hxh]
    rfl
  by_cases hcov : seek + n ≤ file.hdr.numBytes
  · right
    have he := extended_covered h hf hx hhdr hcov
    obtain ⟨w2, h2, h3, h4⟩ := hchunk w own m he
    refine ⟨w, w2, own, m, _, ?_, he.file_eq, rfl, h2, h3, h4⟩
    rw [run_extendHeader_covered hf hcov st, ← hst]
  · by_cases hclear : file.hdr.newSectors (seek + n - file.hdr.numBytes) ≤ m.countClear
    · right
      obtain ⟨w1, own1, m1, hrun, he⟩ :=
        run_extendHeader_enough h hf hx hhdr (by omega) hfit st hst hclear
      obtain ⟨w2, h2, h3, h4⟩ := hchunk w1 own1 m1 he
      exact ⟨w1, w2, own1, m1, _, hrun, he.file_eq, rfl, h2, h3, h4⟩
    · left
      obtain ⟨hdr, hnb, hnx, hrun⟩ := run_extendHeader_short (x := x) hf hok (by omega) hfit st
        (by rw [hst]; omega)
      exact ⟨by omega, _, ⟨hnb, hnx, rfl⟩, hrun⟩

/-- `Write` in the current header. -/
theorem run_writeCurrent (h : WriteInv w own m f s c) (hf : w.files f = some file)
    (hx : file.currentSector ∈ c) (hhdr : file.hdr = hdrAt w.disk file.currentSector)
    {st : Writing} (hst : st.freeMap = m) {n : Nat} (hnl : n ≤ st.data.length)
    (hfit : file.seekPosition + n ≤ maxHeaderBytes) :
    (m.countClear < needHere (hdrAt w.disk file.currentSector) file.seekPosition n ∧
      ∃ file', Stale file file' ∧ (writeCurrent f n st).run w =
        some ((false, st), { w with files := Function.update w.files f (some file') })) ∨
    ∃ w' own' m', (writeCurrent f n st).run w =
        some ((true, { freeMap := m', data := st.data.drop n, result := st.result + n }), w') ∧
      Here f s c file.currentSector file.seekPosition (st.data.take n) w own m w' own' m' ∧
      w'.files f = some (file.at (hdrAt w'.disk file.currentSector) file.currentSector
        (file.seekPosition + n)) := by
  by_cases hn : 0 < n
  · have hu : u32 (file.seekPosition + n) = file.seekPosition + n :=
      u32_of_lt (Nat.lt_of_le_of_lt hfit (by decide))
    rcases run_extend_chunk h hf hx hhdr hst hn hnl file.currentSector file.seekPosition hfit with
      ⟨hshort, file', hstale, hrun⟩ | ⟨w1, w2, own1, m1, file1, hrun1, hf1, hfile1, hrun2, hhere, hf2⟩
    · left
      refine ⟨hshort, file', hstale, ?_⟩
      simp only [writeCurrent, if_pos hn, run_bind, run_getFile hf, Option.bind_some, hu, hrun]
      rfl
    · right
      refine ⟨w2, own1, m1, ?_, hhere, hf2⟩
      have hsame : ({ w1 with files := Function.update w1.files f (some file1) } : World) = w1 := by
        have : some file1 = w1.files f := by rw [hf1, hfile1]; rfl
        rw [this, Function.update_eq_self]
      rw [hsame] at hrun2
      simp only [writeCurrent, if_pos hn, run_bind, run_getFile hf, Option.bind_some, hu, hrun1,
        if_true, hrun2, run_pure]
  · right
    have hn0 : n = 0 := by omega
    subst hn0
    refine ⟨w, own, m, ?_, ?_, ?_⟩
    · simp only [writeCurrent, if_neg hn, run_pure, List.drop_zero, Nat.add_zero]
      rw [← hst]
    · rw [List.take_zero]
      exact here_nil h _
    · rw [hf, ← hhdr]
      rfl

end Current

/-! ## The headers behind the current one -/

/-- The sectors that are needed to write `n` bytes over the headers `hs`. -/
def needNext : List RawFileHeader → Nat → Nat
  | [], _ => 0
  | h :: hs, n =>
    if n = 0 then 0 else needHere h 0 (min n maxHeaderBytes) + needNext hs (n - maxHeaderBytes)

/-- What is known after `r` bytes of a `Write` were written. -/
structure Moved (f : FileId) (s : Nat) (c : List Nat) (w : World) (own : Nat → Option Nat)
    (m : Bitmap) (st : Writing) (c' : List Nat) (w' : World) (own' : Nat → Option Nat) (m' : Bitmap)
    (st' : Writing) (r : Nat) : Prop where
  inv : WriteInv w' own' m' f s c'
  step : WStep f s w own m w' own' m'
  pre : c <+: c'
  map_eq : st'.freeMap = m'
  data_eq : st'.data = st.data.drop r
  result_eq : st'.result = st.result + r
  le : r ≤ st.data.length

/-- The object refers to headers of the file. -/
structure HandleIn (c : List Nat) (file : OpenFile) : Prop where
  current_mem : file.currentSector ∈ c
  seek_le : file.seekPosition ≤ maxHeaderBytes
  numBytes_le : file.hdr.numBytes ≤ maxHeaderBytes
  next_mem : file.hdr.nextFileHeader = 0 ∨ file.hdr.nextFileHeader ∈ c

theorem HandleIn.mono {c c' : List Nat} {file : OpenFile} (h : HandleIn c file) (hc : c <+: c') :
    HandleIn c' file :=
  ⟨hc.subset h.current_mem, h.seek_le, h.numBytes_le, h.next_mem.imp id fun hn => hc.subset hn⟩

/-- On a full file, `r` bytes of `data` were moved across the cursor. -/
def CursorMove (c : List Nat) (d : Disk) (pre : List Nat) (x : Nat) (post : List Nat) (seek : Nat)
    (data : List UInt8) (r : Nat) (c' : List Nat) (d' : Disk) (pre' : List Nat) (x' : Nat)
    (post' : List Nat) (seek' : Nat) : Prop :=
  c' = pre' ++ x' :: post' ∧
  (Full d c → ∀ A B, Cursor d pre x post seek A B →
    (data ≠ [] → seek = (hdrAt d x).numBytes ∧ (post ≠ [] ∨ seek = maxHeaderBytes)) →
    Full d' c' ∧ Cursor d' pre' x' post' seek' (A ++ data.take r) (B.drop r) ∧
      (data.drop r ≠ [] → seek' = (hdrAt d' x').numBytes ∧ (post' ≠ [] ∨ seek' = maxHeaderBytes)))

section Next

variable {own : Nat → Option Nat} {m : Bitmap} {f : FileId} {s x : Nat} {c : List Nat}
  {file : OpenFile}

theorem next_mem_of_chain {d : Disk} (h : FileOk d own s c) (hx : x ∈ c) :
    (hdrAt d x).nextFileHeader = 0 ∨ (hdrAt d x).nextFileHeader ∈ c := by
  obtain ⟨pre, post, hc⟩ := List.append_of_mem hx
  have hf := h.chain.next_of_append hc
  cases post with
  | nil => exact Or.inl hf
  | cons y post =>
    obtain ⟨-, rfl, -⟩ := hf
    right
    rw [hc]
    simp

/-- `Write` in the headers that already exist: by induction over the headers behind the current one. -/
theorem run_writeNext (post : List Nat) :
    ∀ {w : World} {own : Nat → Option Nat} {m : Bitmap} {st : Writing} {pre : List Nat} {x : Nat}
      {fuel seek : Nat}, WriteInv w own m f s c → c = pre ++ x :: post →
      w.files f = some (file.at (hdrAt w.disk x) x seek) → seek ≤ maxHeaderBytes →
      st.freeMap = m → st.data.length < fuel →
    ∃ ok st' w' own' m' r pre' x' post' seek',
      (writeNext f fuel (hdrAt w.disk x).nextFileHeader st).run w = some ((ok, st'), w') ∧
      Moved f s c w own m st c w' own' m' st' r ∧ Tight s m m' own' ∧
      CursorMove c w.disk pre x post seek st.data r c w'.disk pre' x' post' seek' ∧
      (ok = false → m.countClear < needNext (post.map (hdrAt w.disk)) st.data.length ∧
        ∃ file', w'.files f = some file' ∧ file'.sector = file.sector ∧ HandleIn c file' ∧
          file'.currentSector = x' ∧ file'.seekPosition = seek') ∧
      (ok = true →
        m'.countClear + needNext (post.map (hdrAt w.disk)) st.data.length = m.countClear ∧
        r = min st.data.length (post.length * maxHeaderBytes) ∧
        w'.files f = some (file.at (hdrAt w'.disk x') x' seek') ∧ seek' ≤ maxHeaderBytes ∧
        (st'.data ≠ [] → post' = [])) := by
  induction post with
  | nil =>
    intro w own m st pre x fuel seek h hc hf hseek hst hfuel
    have hnext : (hdrAt w.disk x).nextFileHeader = 0 := h.file.chain.next_of_append hc
    refine ⟨true, st, w, own, m, 0, pre, x, [], seek, ?_, ⟨h, WStep.refl f s w own m,
      List.prefix_rfl, hst, rfl, rfl, Nat.zero_le _⟩, Tight.refl s m own, ⟨hc, ?_⟩, by simp, ?_⟩
    · cases fuel with
      | zero => exact absurd hfuel (Nat.not_lt_zero _)
      | succ fuel =>
        rw [writeNext, if_neg (by simp [hnext])]
        rfl
    · intro hfull A B hcur hend
      exact ⟨hfull, by simpa using hcur, hend⟩
    · intro _
      exact ⟨rfl, by simp, hf, hseek, fun _ => rfl⟩
  | cons y post ih =>
    intro w own m st pre x fuel seek h hc hf hseek hst hfuel
    cases fuel with
    | zero => exact absurd hfuel (Nat.not_lt_zero _)
    | succ fuel =>
    obtain ⟨hne, hy, hfol⟩ := h.file.chain.next_of_append hc
    by_cases hdata : st.data = []
    · -- nothing is left to write
      refine ⟨true, st, w, own, m, 0, pre, x, y :: post, seek, ?_, ⟨h, WStep.refl f s w own m,
        List.prefix_rfl, hst, rfl, rfl, Nat.zero_le _⟩, Tight.refl s m own, ⟨hc, ?_⟩, by simp, ?_⟩
      · rw [writeNext, if_neg (by simp [hdata])]
        rfl
      · intro hfull A B hcur hend
        exact ⟨hfull, by simpa using hcur, hend⟩
      · intro _
        refine ⟨?_, by simp [hdata], hf, hseek, fun hd => absurd hdata hd⟩
        simp [needNext, hdata]
    have hlen : 0 < st.data.length := List.length_pos_iff.mpr hdata
    have hyc : y ∈ c := by rw [hc]; simp
    have hn0 : 0 < min st.data.length maxHeaderBytes := by
      have : 0 < maxHeaderBytes := by decide
      omega
    generalize hn : min st.data.length maxHeaderBytes = n at *
    -- the header is fetched
    have hfetch := run_fetchHdr (h.header_lt hyc) hf
    have h0 := h.setFile (file.at (hdrAt w.disk y) x seek)
    have hf0 : ({ w with files := Function.update w.files f (some (file.at (hdrAt w.disk y) x seek)) } :
      World).files f = some (file.at (hdrAt w.disk y) x seek) := Function.update_self ..
    have hstep0 : WStep f s w own m
        { w with files := Function.update w.files f (some (file.at (hdrAt w.disk y) x seek)) } own m :=
      WStep.setFile f s w own m _
    have hd0 : ({ w with files := Function.update w.files f (some (file.at (hdrAt w.disk y) x seek)) } :
      World).disk = w.disk := rfl
    generalize hw0 : ({ w with
      files := Function.update w.files f (some (file.at (hdrAt w.disk y) x seek)) } : World) = w0
      at h0 hf0 hstep0 hd0
    have hfetch' : (fetchHdr f y).run w = some ((), w0) := by
      rw [hfetch, ← hw0]
      rfl
    have hneed : needNext ((y :: post).map (hdrAt w.disk)) st.data.length =
        needHere (hdrAt w.disk y) 0 n + needNext (post.map (hdrAt w.disk)) (st.data.length - n) := by
      rw [List.map_cons, needNext, if_neg (by omega), hn]
      by_cases hbig : st.data.length ≤ maxHeaderBytes
      · have h1 : st.data.length - maxHeaderBytes = 0 := by omega
        have h2 : st.data.length - n = 0 := by omega
        rw [h1, h2]
      · have : n = maxHeaderBytes := by omega
        rw [this]
    rcases run_extend_chunk h0 hf0 hyc (by rw [hd0]; rfl) hst hn0 (by omega) y 0 (by omega) with
      ⟨hshort, file', hstale, hrun⟩ | ⟨w1, w2, own1, m1, file1, hrun1, hf1, hfile1, hrun2, hhere, hf2⟩
    · -- no room: the header in memory is that of `y`, the position still that under `x`
      rw [Nat.zero_add] at hrun
      rw [hd0] at hshort
      refine ⟨false, st, _, own, m, 0, pre, x, y :: post, seek, ?_, ⟨h0.setFile file', ?_,
        List.prefix_rfl, hst, rfl, rfl, Nat.zero_le _⟩, Tight.refl s m own, ⟨hc, ?_⟩, ?_, by simp⟩
      · rw [writeNext, if_pos ⟨hdata, hne⟩, ← hy]
        simp only [run_bind, hfetch', Option.bind_some, hn, hrun]
        rfl
      · exact hstep0.trans (WStep.setFile f s w0 own m _)
      · intro hfull A B hcur hend
        show Full w0.disk c ∧ Cursor w0.disk pre x (y :: post) seek _ _ ∧ _
        rw [hd0]
        exact ⟨hfull, by simpa using hcur, hend⟩
      · intro _
        refine ⟨by omega, file', Function.update_self .., by rw [hstale.rest_eq]; rfl, ?_,
          by rw [hstale.rest_eq]; rfl, by rw [hstale.rest_eq]; rfl⟩
        refine ⟨?_, ?_, hstale.numBytes_le, ?_⟩
        · rw [hstale.rest_eq]
          show x ∈ c
          rw [hc]
          simp
        · rw [hstale.rest_eq]
          exact hseek
        · rw [hstale.next_eq]
          exact next_mem_of_chain h.file hyc
    · -- the chunk is written under `y`, and the loop goes on
      rw [Nat.zero_add] at hrun1 hf2
      have hyd : (hdrAt w2.disk y).nextFileHeader = (hdrAt w.disk y).nextFileHeader := by
        rw [hhere.next_eq, hd0]
      have hcl := hhere.clear
      have hlen2 : (st.data.take n).length = n := by rw [List.length_take]; omega
      rw [hd0, hlen2] at hcl
      have hmap : post.map (hdrAt w2.disk) = post.map (hdrAt w.disk) := by
        apply List.map_congr_left
        intro z hz
        have hnd := h.file.nodup_headers
        rw [hc] at hnd
        have hnd2 := (List.nodup_cons.mp (List.nodup_append.mp hnd).2.1).2
        have hzy : z ≠ y := fun e => (List.nodup_cons.mp hnd2).1 (e ▸ hz)
        rw [(hhere.others z (by rw [hc]; simp [hz]) hzy).1, hd0]
      obtain ⟨ok, st', w', own', m', r, pre', x', post', seek', hrun', hmoved, htight, hmove, hfalse,
        htrue⟩ := ih hhere.inv (show c = (pre ++ [x]) ++ y :: post by rw [hc]; simp) hf2 (by omega)
          (show ({ freeMap := m1, data := st.data.drop n, result := st.result + n } :
            Writing).freeMap = m1 from rfl)
          (show (st.data.drop n).length < fuel by rw [List.length_drop]; omega)
      have hdl : (st.data.drop n).length = st.data.length - n := List.length_drop
      simp only [hdl] at hfalse htrue
      rw [hmap] at hfalse htrue
      refine ⟨ok, st', w', own', m', n + r, pre', x', post', seek', ?_, ?_, ?_, ⟨hmove.1, ?_⟩, ?_, ?_⟩
      · rw [writeNext, if_pos ⟨hdata, hne⟩, ← hy]
        simp only [run_bind, hfetch', Option.bind_some, hn, hrun1, if_true, run_modifyFile hf1]
        subst hfile1
        refine (congrArg (fun o => Option.bind o _) hrun2).trans ?_
        simp only [Option.bind_some, run_getFile hf2]
        exact hrun'
      · have hle := hmoved.le
        rw [hdl] at hle
        refine ⟨hmoved.inv, (hstep0.trans hhere.step).trans hmoved.step, hmoved.pre, hmoved.map_eq,
          ?_, ?_, by omega⟩
        · rw [hmoved.data_eq, List.drop_drop]
        · rw [hmoved.result_eq]
          exact Nat.add_assoc _ _ _
      · exact Tight.trans hhere.tight htight hmoved.step.grown
      · intro hfull A B hcur hend
        obtain ⟨hseekx, -⟩ := hend hdata
        have hcur1 : Cursor w0.disk (pre ++ [x]) y post 0 A B := by
          rw [hd0]
          exact hcur.next (h.file.ok x (by rw [hc]; simp)) hseekx
        -- a header that is extended is the last one, as the others are full
        have hext : 0 + (st.data.take n).length ≤ (hdrAt w0.disk y).numBytes ∨ post = [] := by
          by_cases hp : post = []
          · exact Or.inr hp
          · left
            rw [hlen2, hd0, hfull (pre ++ [x]) y post (by rw [hc]; simp) hp]
            omega
        have hcur2 := hhere.cursor h0 (by rw [hc]; simp) hext hcur1
        have hfull2 := hhere.full (by rw [hd0]; exact hfull) (by omega) (Or.inr (Nat.zero_le _))
        rw [hlen2, Nat.zero_add] at hcur2
        obtain ⟨hfull', hcur', hend'⟩ := hmove.2 hfull2 _ _ hcur2 (by
          intro hrest
          have hlt : n < st.data.length := by
            by_contra hge
            exact hrest (List.drop_eq_nil_of_le (by omega))
          have hnmax : n = maxHeaderBytes := by omega
          have hnb := (hhere.inv.file.ok y hyc).numBytes_le
          have hle := hcur2.le
          exact ⟨by omega, Or.inr hnmax⟩)
        refine ⟨hfull', ?_, ?_⟩
        · rw [List.append_assoc] at hcur'
          rw [List.take_add, ← List.drop_drop]
          exact hcur'
        · intro hrest
          rw [← List.drop_drop] at hrest
          exact hend' hrest
      · intro hok
        obtain ⟨hsh, hfile'⟩ := hfalse hok
        exact ⟨by omega, hfile'⟩
      · intro hok
        obtain ⟨hcl', hr, hrest⟩ := htrue hok
        refine ⟨by omega, ?_, hrest⟩
        rw [hr, List.length_cons, Nat.succ_mul]
        omega

end Next

end Nachos.Filesys
