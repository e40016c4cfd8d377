import Nachos.Filesys.FileSession
import Nachos.Filesys.Proofs.RemoveProofs

/-!
# Proofs: a `Write` inside the file

A `Write` that does not reach past the end of the file takes no sectors. It changes data sectors of the file
and nothing else of the disk, neither its headers nor the free map.
-/

namespace Nachos.Filesys

open Foundations Resumption

/-- On the disk, only data sectors of the headers `c` have changed. -/
structure Overwritten (c : List Nat) (w w' : World) : Prop where
  disk_eq : ∀ y, y ∉ dataSectorsOf w.disk c → w'.disk y = w.disk y
  headers : ∀ x ∈ c, hdrAt w'.disk x = hdrAt w.disk x

section Overwrite

variable {w w' w'' : World} {own : Nat → Option Nat} {m : Bitmap} {f : FileId} {s x : Nat} {c : List Nat}
  {file : OpenFile}

theorem Overwritten.of_disk (hdisk : w'.disk = w.disk) : Overwritten c w w' :=
  ⟨fun _ _ => by rw [hdisk], fun _ _ => by rw [hdisk]⟩

theorem Overwritten.trans (h : Overwritten c w w') (h' : Overwritten c w' w'') : Overwritten c w w'' := by
  have hdata : dataSectorsOf w'.disk c = dataSectorsOf w.disk c :=
    List.flatMap_congr fun x hx => by rw [h.headers x hx]
  refine ⟨fun y hy => ?_, fun x hx => (h'.headers x hx).trans (h.headers x hx)⟩
  rw [h'.disk_eq y (by rw [hdata]; exact hy), h.disk_eq y hy]

theorem Chunked.overwritten {chunk : List UInt8} (h : Chunked f s c x file chunk w own m w') (hx : x ∈ c) :
    Overwritten c w w' :=
  ⟨fun y hy => h.disk_eq y fun hmem => hy (List.mem_flatMap.mpr ⟨x, hx, hmem⟩), h.headers⟩

/-- Content under the headers from `x` on. -/
theorem length_content_cons (hok : (hdrAt w.disk x).Ok) (c : List Nat) :
    (content w.disk (x :: c)).length = (hdrAt w.disk x).numBytes + (content w.disk c).length := by
  rw [content_cons, List.length_append, length_dataBytes hok]

/-- The bytes for a header that are not more than the rest of a full file lie under it. -/
theorem covered_of_full {pre post : List Nat} {n : Nat} (hok : (hdrAt w.disk x).Ok) (hfull : Full w.disk c)
    (hc : c = pre ++ x :: post) (hn : n ≤ (content w.disk (x :: post)).length) :
    min n maxHeaderBytes ≤ (hdrAt w.disk x).numBytes ∧
      n - min n maxHeaderBytes ≤ (content w.disk post).length := by
  rw [length_content_cons hok] at hn
  by_cases hpost : post = []
  · have hnil : (content w.disk post).length = 0 := by
      rw [hpost]
      rfl
    have := hok.numBytes_le
    omega
  · have := hfull pre x post hc hpost
    omega

/-- The headers behind the current one, by induction over them. -/
theorem run_writeNext_inside (post : List Nat) : ∀ {w : World} (st : Writing) {pre : List Nat} {x fuel seek : Nat},
    WriteInv w own m f s c → c = pre ++ x :: post → w.files f = some (file.at (hdrAt w.disk x) x seek) →
    Full w.disk c → st.data.length ≤ (content w.disk post).length → st.data.length < fuel →
    ∃ st' w', (writeNext f fuel (hdrAt w.disk x).nextFileHeader st).run w = some ((true, st'), w') ∧
      st'.data = [] ∧ Overwritten c w w' := by
  induction post with
  | nil =>
    intro w st pre x fuel seek h hc hf hfull hlen hfuel
    have hdata : st.data = [] := List.eq_nil_of_length_eq_zero (Nat.le_zero.mp hlen)
    cases fuel with
    | zero => exact absurd hfuel (Nat.not_lt_zero _)
    | succ fuel =>
      refine ⟨st, w, ?_, hdata, Overwritten.of_disk rfl⟩
      rw [writeNext, if_neg (by simp [hdata])]
      rfl
  | cons y post ih =>
    intro w st pre x fuel seek h hc hf hfull hlen hfuel
    cases fuel with
    | zero => exact absurd hfuel (Nat.not_lt_zero _)
    | succ fuel =>
    obtain ⟨hne, hy, -⟩ := h.file.chain.next_of_append hc
    by_cases hdata : st.data = []
    · refine ⟨st, w, ?_, hdata, Overwritten.of_disk rfl⟩
      rw [writeNext, if_neg (by simp [hdata])]
      rfl
    have hc' : c = (pre ++ [x]) ++ y :: post := by rw [hc]; simp
    have hyc : y ∈ c := by rw [hc]; simp
    have hpos := List.length_pos_iff.mpr hdata
    obtain ⟨hcovered, hrest⟩ := covered_of_full (h.file.ok y hyc) hfull hc' hlen
    have hmax : 0 < maxHeaderBytes := by decide
    generalize hn : min st.data.length maxHeaderBytes = n at hcovered hrest
    have hn0 : 0 < n := by omega
    -- the header is fetched, and the chunk lies under it
    have hfetch := run_fetchHdr (h.header_lt hyc) hf
    have hextend := run_extendHeader_covered (x := y) (w := { w with
      files := Function.update w.files f (some { file.at (hdrAt w.disk x) x seek with hdr := hdrAt w.disk y }) })
      (Function.update_self ..) hcovered st
    have hmove := run_modifyFile (w := { w with
      files := Function.update w.files f (some { file.at (hdrAt w.disk x) x seek with hdr := hdrAt w.disk y }) })
      (Function.update_self ..) fun file => { file with currentSector := y, seekPosition := 0 }
    simp only [Function.update_idem] at hmove
    obtain ⟨w2, hchunk, hchunked⟩ := run_writeChunk (h.setFile (file.at (hdrAt w.disk y) y 0))
      (Function.update_self ..) hyc rfl st hn0 (by omega) (show 0 + n ≤ _ by rw [Nat.zero_add]; exact hcovered)
    have hover : Overwritten c w w2 :=
      ⟨(hchunked.overwritten hyc).disk_eq, (hchunked.overwritten hyc).headers⟩
    have hf2 := hchunked.file_eq
    have hheader := hchunked.headers y hyc
    have hfull2 : Full w2.disk c := by
      intro pre' z post' hcz hpost
      rw [hchunked.headers z (by rw [hcz]; simp)]
      exact hfull pre' z post' hcz hpost
    have hlen2 : (content w2.disk post).length = (content w.disk post).length := by
      refine congrArg List.length (List.flatMap_congr fun z hz => ?_)
      have hzc : z ∈ c := by rw [hc]; simp [hz]
      have hzy : z ≠ y := by
        rintro rfl
        have hnodup := h.file.nodup_headers
        rw [hc'] at hnodup
        exact (List.nodup_cons.mp (List.nodup_append.mp hnodup).2.1).1 hz
      rw [hchunked.headers z hzc]
      exact hchunked.others z hzc hzy
    obtain ⟨st', w', hnext, hnil, hover'⟩ := ih
      { freeMap := st.freeMap, data := st.data.drop n, result := st.result + n } hchunked.inv hc'
      (show w2.files f = some (file.at (hdrAt w2.disk y) y (0 + (st.data.take n).length)) by
        rw [hf2, hheader]
        rfl) hfull2
      (show (st.data.drop n).length ≤ (content w2.disk post).length by rw [hlen2, List.length_drop]; exact hrest)
      (show (st.data.drop n).length < fuel by rw [List.length_drop]; omega)
    refine ⟨st', w', ?_, hnil, hover.trans hover'⟩
    rw [writeNext, if_pos ⟨hdata, hne⟩, ← hy]
    simp only [run_bind, hfetch, Option.bind_some, hn, hextend, if_true, hmove]
    refine (congrArg (fun o => Option.bind o _) hchunk).trans ?_
    simp only [Option.bind_some, run_getFile hf2]
    rw [← hheader]
    exact hnext

/-- The body of a `Write` from the beginning of the file on. -/
theorem run_writeBody_inside {post : List Nat} {data : List UInt8} (h : WriteInv w own m f s (s :: post))
    (hf : w.files f = some (file.at (hdrAt w.disk s) s 0)) (hfull : Full w.disk (s :: post)) (hdata : data ≠ [])
    (hlen : data.length ≤ (content w.disk (s :: post)).length) :
    ∃ st' w', (writeBody f (bytesHere 0 data.length) { freeMap := m, data := data, result := 0 }).run w =
      some (st', w') ∧ Overwritten (s :: post) w w' := by
  have hs : s ∈ s :: post := List.mem_cons_self
  have hpos := List.length_pos_iff.mpr hdata
  obtain ⟨hcovered, hrest⟩ := covered_of_full (h.file.ok s hs) hfull
    (show s :: post = [] ++ s :: post from rfl) hlen
  have hn : bytesHere 0 data.length = min data.length maxHeaderBytes := rfl
  have hmax : maxHeaderBytes = 3712 := rfl
  generalize min data.length maxHeaderBytes = n at hcovered hrest hn
  have hn0 : 0 < n := by
    have := hn.symm
    unfold bytesHere at this
    omega
  have hnl : n ≤ data.length := by
    rw [← hn]
    exact (bytesHere_le 0 data.length).1
  have hu : u32 (0 + n) = n := by
    rw [Nat.zero_add]
    exact u32_of_lt (by have := (bytesHere_le 0 data.length).2; omega)
  obtain ⟨w1, hchunk, hchunked⟩ := run_writeChunk h hf hs rfl { freeMap := m, data := data, result := 0 } hn0 hnl
    (show 0 + n ≤ _ by rw [Nat.zero_add]; exact hcovered)
  have hcurrent : (writeCurrent f n { freeMap := m, data := data, result := 0 }).run w =
      some ((true, { freeMap := m, data := data.drop n, result := 0 + n }), w1) := by
    have hextend := run_extendHeader_covered (x := s) hf hcovered
      { freeMap := m, data := data, result := 0 }
    have hextend' : (extendHeader f (file.at (hdrAt w.disk s) s 0).currentSector
        (u32 ((file.at (hdrAt w.disk s) s 0).seekPosition + n)) { freeMap := m, data := data, result := 0 }).run w =
        some ((true, { freeMap := m, data := data, result := 0 }), w) := by
      show (extendHeader f s (u32 (0 + n)) _).run w = _
      rw [hu]
      exact hextend
    simp only [writeCurrent, if_pos hn0, run_bind, run_getFile hf, Option.bind_some, hextend', if_true, hchunk,
      run_pure]
  have hheader := hchunked.headers s hs
  have hfull1 : Full w1.disk (s :: post) := by
    intro pre' z post' hcz hpost
    rw [hchunked.headers z (by rw [hcz]; simp)]
    exact hfull pre' z post' hcz hpost
  have hlen1 : (content w1.disk post).length = (content w.disk post).length := by
    refine congrArg List.length (List.flatMap_congr fun z hz => ?_)
    have hzs : z ≠ s := by
      rintro rfl
      exact (List.nodup_cons.mp h.file.nodup_headers).1 hz
    rw [hchunked.headers z (List.mem_cons_of_mem _ hz)]
    exact hchunked.others z (List.mem_cons_of_mem _ hz) hzs
  have hf1 := hchunked.file_eq
  obtain ⟨st', w', hnext, hnil, hover⟩ := run_writeNext_inside post
    { freeMap := m, data := data.drop n, result := 0 + n } hchunked.inv
    (show s :: post = [] ++ s :: post from rfl)
    (show w1.files f = some (file.at (hdrAt w1.disk s) s (0 + (data.take n).length)) by
      rw [hf1, hheader]
      rfl) hfull1
    (show (data.drop n).length ≤ (content w1.disk post).length by rw [hlen1, List.length_drop]; exact hrest)
    (Nat.lt_succ_self (data.drop n).length)
  refine ⟨st', w', ?_, (hchunked.overwritten hs).trans hover⟩
  rw [writeBody, hn, run_bind, hcurrent, Option.bind_some]
  simp only [if_true, run_bind, run_getFile hf1, Option.bind_some]
  rw [show ({ file.at (hdrAt w.disk s) s 0 with
    seekPosition := (file.at (hdrAt w.disk s) s 0).seekPosition + (data.take n).length } : OpenFile).hdr =
      hdrAt w1.disk s from hheader.symm]
  simp only [hnext, Option.bind_some, hnil, ne_eq, not_true_eq_false, and_false, if_false, run_pure]

/-- A table that is as long as the current directory is written back: only data sectors of the directory
change. -/
theorem DirFile.run_writeBack {dir : Directory} (h : DirFile w own m s c) (me : Tid)
    (hsize : dir.tableSize = w.directorySize)
    (hlock : ∃ l, (w.table s).writeLock = some l ∧ w.locks l = some { lockOwner := none }) :
    ∃ w', (writeBackDirectory me dir).run w = some ((), w') ∧ Overwritten c w w' := by
  obtain ⟨o, ho, hsector⟩ := h.handle
  obtain ⟨l, hl, hfree⟩ := hlock
  obtain ⟨post, hc, -⟩ := h.inv.file.chain
  have hsec : o.sector < numSectors := by
    rw [hsector]
    exact h.inv.header_lt h.inv.file.chain.start_mem
  have hdata : dir.table ≠ [] := by
    apply List.ne_nil_of_length_pos
    rw [dir.length_table, hsize]
    exact Nat.mul_pos h.size_pos (by decide)
  have hlen : dir.table.length ≤ (content w.disk c).length := by
    rw [dir.length_table, hsize]
    exact h.size_le
  have hinv := h.inv
  have hfull := h.full
  rw [hc] at hinv hfull hlen
  generalize hlocks : Function.update w.locks l (some { lockOwner := some me }) = locks
  generalize hfile1 : (rewound o true).at (hdrAt w.disk s) s 0 = file1
  obtain ⟨st', w2, hbody, hover⟩ := run_writeBody_inside
    ((hinv.setLocks locks).setFile file1)
    (show _ = some ((rewound o true).at (hdrAt w.disk s) s 0) by rw [hfile1]; exact Function.update_self ..)
    hfull hdata hlen
  obtain ⟨st2, w3, own', m', c', file', r, hbody', -, hw⟩ := run_writeBody dir.table
    (show WriteInv _ own m _ s ([] ++ s :: post) from (hinv.setLocks locks).setFile file1)
    (show _ = some ((rewound o true).at (hdrAt w.disk s) s 0) by rw [hfile1]; exact Function.update_self ..)
    (Nat.zero_le _)
  rw [hbody] at hbody'
  cases hbody'
  have hrun := run_write_of_body (show WriteInv w own m _ s ([] ++ s :: post) from hinv) ho
    (show (rewound o true).currentSector = s from hsector) (show (rewound o true).seekPosition = 0 from rfl)
    (Nat.zero_le _) hsec (by rw [hsector]; exact hl) hfree hdata hlocks.symm hfile1.symm hbody
    hw.step.world.locks_eq hw.step.world.table_eq
  refine ⟨w2.setLocks w.locks, ?_, ?_⟩
  · rw [writeBackDirectory, run_bind, run_getState, Option.bind_some, Directory.writeBack, run_bind, hrun]
    rfl
  · rw [hc]
    exact ⟨hover.disk_eq, hover.headers⟩

end Overwrite

end Nachos.Filesys
