import Nachos.Filesys.Proofs.WriteProofs

/-!
# Proofs: `Write` in new headers

When the headers of the file do not suffice, `Write` reserves sectors for all the headers that it
still needs, and then appends one header after the other as far as there is room for their data.
-/

namespace Nachos.Filesys

open Foundations Resumption

/-- Sectors that are marked in the free map and belong to nobody yet. -/
structure Reserved (own : Nat → Option Nat) (m : Bitmap) (l : List Nat) : Prop where
  nodup : l.Nodup
  own_none : ∀ r ∈ l, own r = none
  test : ∀ r ∈ l, m.test r = true
  lt : ∀ r ∈ l, r < numSectors

theorem Reserved.tail {own : Nat → Option Nat} {m : Bitmap} {r : Nat} {l : List Nat}
    (h : Reserved own m (r :: l)) : Reserved own m l :=
  ⟨(List.nodup_cons.mp h.nodup).2, fun x hx => h.own_none x (List.mem_cons_of_mem r hx),
    fun x hx => h.test x (List.mem_cons_of_mem r hx), fun x hx => h.lt x (List.mem_cons_of_mem r hx)⟩

section Reserve

variable {w : World} {own : Nat → Option Nat} {m : Bitmap} {f : FileId} {s : Nat} {c : List Nat}

/-- The free map alone was written back, with more sectors marked. -/
theorem WriteInv.wroteMap {w' : World} {m' : Bitmap} (h : WriteInv w own m f s c)
    (hw : WroteMap w m' w') (hmarks : ∀ x, m.test x = true → m'.test x = true) :
    WriteInv w' own m' f s c ∧ WStep f s w own m w' own m' := by
  have hstep : WStep f s w own m w' own m' :=
    ⟨FileStep.wroteMap hw, Grown.refl s own, fun x _ hx => hw.disk_eq x hx, hmarks,
      HeadersGrown.congr fun _ hc1 x hx => hw.disk_eq x (h.header_ne_mapData (hc1.unique h.file ▸ hx))⟩
  refine ⟨h.of_step hstep hw.mapIs ?_ ?_ ?_, hstep⟩
  · exact h.file.congr (fun x hx => hw.disk_eq x (h.header_ne_mapData hx)) fun _ => Iff.rfl
  · exact fun x hx => h.layout.lt x s hx
  · exact fun x hx => hmarks x (h.marked x s hx)

/-- Memory for a new header. -/
theorem WriteInv.malloc (h : WriteInv w own m f s c) : ∃ w0 : World,
    (malloc .header).run w = some (w.heap .header 0, w0) ∧ w0.disk = w.disk ∧ w0.files = w.files ∧
      WStep f s w own m w0 own m ∧ WriteInv w0 own m f s c := by
  have hstep : FileStep f w { w with
      heap := Function.update w.heap .header fun n => w.heap .header (n + 1) } :=
    ⟨rfl, fun _ _ => rfl, rfl, rfl, rfl, rfl, rfl, rfl, rfl, by simp⟩
  have hw : WStep f s w own m { w with
      heap := Function.update w.heap .header fun n => w.heap .header (n + 1) } own m :=
    ⟨hstep, Grown.refl s own, fun _ _ _ => rfl, fun _ hx => hx, HeadersGrown.refl s w.disk own⟩
  refine ⟨_, run_malloc .header, rfl, rfl, hw, ?_⟩
  exact h.of_step hw h.mapIs h.file (fun x hx => h.layout.lt x s hx) fun x hx => h.marked x s hx

/-- Sectors for `count` headers are found and marked on disk. -/
theorem run_findHeaderSectors (count : Nat) :
    ∀ {w : World} {m : Bitmap} (found : List Nat), WriteInv w own m f s c → count ≤ m.countClear →
    Reserved own m found →
    ∃ w' m' l, (findHeaderSectors count found m).run w = some ((found ++ l, m'), w') ∧
      l.length = count ∧ Reserved own m' (found ++ l) ∧ WriteInv w' own m' f s c ∧
      WStep f s w own m w' own m' ∧ w'.files = w.files ∧
      (∀ x, x ≠ freeMapDataSector → w'.disk x = w.disk x) ∧
      (∀ x, m'.test x = true → m.test x = true ∨ x ∈ l) ∧ m'.countClear + count = m.countClear := by
  induction count with
  | zero =>
    intro w m found h _ hres
    refine ⟨w, m, [], ?_, rfl, ?_, h, WStep.refl f s w own m, rfl, fun _ _ => rfl,
      fun _ hx => Or.inl hx, rfl⟩
    · rw [List.append_nil]
      rfl
    · rw [List.append_nil]
      exact hres
  | succ count ih =>
    intro w m found h hclear hres
    obtain ⟨k, hk, hkc⟩ := Bitmap.exists_clear_of_countClear_pos
      (Nat.lt_of_lt_of_le (Nat.succ_pos count) hclear)
    obtain ⟨r, hr⟩ := Bitmap.find_of_clear hk hkc
    obtain ⟨hrlt, hrc, -, -⟩ := Bitmap.find_some hr
    have hcount := Bitmap.countClear_mark hrlt hrc
    have hmarks : ∀ x, m.test x = true → (m.mark r).test x = true := by
      intro x hx
      rw [Bitmap.test_mark hrlt, hx, Bool.or_true]
    have hbits : (m.mark r).numBits = numSectors := h.mapIs.numBits_eq
    obtain ⟨w1, hrun1, hw1⟩ := run_writeBackFreeMap h.mapFile hbits
    obtain ⟨h1, hstep1⟩ := h.wroteMap hw1 hmarks
    have hnotin : r ∉ found := by
      intro hmem
      rw [hres.test r hmem] at hrc
      cases hrc
    have hres1 : Reserved own (m.mark r) (found ++ [r]) := by
      refine ⟨?_, ?_, ?_, ?_⟩
      · refine List.nodup_append.mpr ⟨hres.nodup, by simp, ?_⟩
        intro a ha b hb hab
        rw [List.mem_singleton] at hb
        exact hnotin (hb ▸ hab ▸ ha)
      · intro x hx
        rcases List.mem_append.mp hx with hx | hx
        · exact hres.own_none x hx
        · rw [List.mem_singleton] at hx
          rw [hx]
          exact h.own_none hrc
      · intro x hx
        rcases List.mem_append.mp hx with hx | hx
        · exact hmarks x (hres.test x hx)
        · rw [List.mem_singleton] at hx
          rw [hx, Bitmap.test_mark hrlt]
          simp
      · intro x hx
        rcases List.mem_append.mp hx with hx | hx
        · exact hres.lt x hx
        · rw [List.mem_singleton] at hx
          rw [hx, ← h.mapIs.numBits_eq]
          exact hrlt
    obtain ⟨w', m', l, hrun, hlen, hres', h', hstep', hfiles, hdisk, htest, hcl⟩ :=
      ih (found ++ [r]) h1 (by omega) hres1
    refine ⟨w', m', r :: l, ?_, by simp [hlen], ?_, h', hstep1.trans hstep', ?_, ?_, ?_, by omega⟩
    · simp only [findHeaderSectors, hr, run_bind, hrun1, Option.bind_some, Option.getD_some, hrun]
      simp
    · simpa using hres'
    · rw [hfiles]
      obtain ⟨D, rfl⟩ := hw1.eq_with
      rfl
    · intro x hx
      rw [hdisk x hx, hw1.disk_eq x hx]
    · intro x hx
      rcases htest x hx with hx | hx
      · rw [Bitmap.test_mark hrlt, Bool.or_eq_true, decide_eq_true_eq] at hx
        rcases hx with rfl | hx
        · exact Or.inr (List.mem_cons_self ..)
        · exact Or.inl hx
      · exact Or.inr (List.mem_cons_of_mem r hx)

end Reserve

/-! ## Appending one header -/

/-- What is known after the header `new` with `n` bytes was appended to the file. -/
structure Linked (f : FileId) (s : Nat) (c : List Nat) (new n : Nat) (file : OpenFile) (w : World)
    (own : Nat → Option Nat) (m : Bitmap) (w' : World) (own' : Nat → Option Nat) (m' : Bitmap) :
    Prop where
  inv : WriteInv w' own' m' f s (c ++ [new])
  step : WStep f s w own m w' own' m'
  tight : Tight s m m' own'
  own_new : own' new = some s
  keeps : ∀ r, r ≠ new → own r = none → m.test r = true → own' r = none
  file_eq : w'.files f = some { file with hdr := hdrAt w'.disk new, seekPosition := 0 }
  numBytes_eq : (hdrAt w'.disk new).numBytes = n
  old : ∀ y ∈ c, (hdrAt w'.disk y).numBytes = (hdrAt w.disk y).numBytes ∧
    dataBytes w'.disk (hdrAt w'.disk y) = dataBytes w.disk (hdrAt w.disk y)
  clear : m'.countClear + divRoundUp n sectorSize = m.countClear

section Link

variable {w : World} {own : Nat → Option Nat} {m : Bitmap} {f : FileId} {s : Nat} {c : List Nat}
  {file : OpenFile}

theorem newSectors_empty (heap : ByteMemory) (n : Nat) :
    (RawFileHeader.empty heap).newSectors n = divRoundUp n sectorSize := by
  unfold RawFileHeader.newSectors
  show divRoundUp (0 + n) sectorSize - 0 = _
  rw [Nat.zero_add, Nat.sub_zero]

/-- A new header with `n` bytes and its sectors out of the free map. -/
theorem allocate_empty (heap : ByteMemory) {n : Nat} (hbits : m.numBits = numSectors)
    (hn : n ≤ maxHeaderBytes) (hclear : divRoundUp n sectorSize ≤ m.countClear) :
    ∃ hdr m' news, (RawFileHeader.empty heap).allocate m n = some (true, hdr, m') ∧
      RawFileHeader.Allocated (RawFileHeader.empty heap) m n hdr m' news := by
  have h0 : (RawFileHeader.empty heap).numBytes = 0 := rfl
  exact RawFileHeader.allocate_enough (RawFileHeader.ok_empty heap) hbits
    (by rw [h0, Nat.zero_add]; exact hn) (by rw [newSectors_empty]; exact hclear)

/-- What `linkHeader` writes: the free map, the new header, and the link to it in the header at `prev`. -/
structure LinkWrites (f : FileId) (prev new : Nat) (hdr : RawFileHeader) (m' : Bitmap) (file : OpenFile)
    (w w' : World) : Prop where
  step : FileStep f w w'
  file_eq : w'.files f = some { file with hdr := hdr, seekPosition := 0 }
  disk_eq : ∀ y, y ≠ new → y ≠ prev → y ≠ freeMapDataSector → w'.disk y = w.disk y
  new_eq : w'.disk new = hdr.toSector
  prev_eq : w'.disk prev = ({ file.hdr with nextFileHeader := new } : RawFileHeader).toSector
  mapIs : MapIs w'.disk m'

theorem run_linkHeader_writes {prev new : Nat} (hdr : RawFileHeader) (hmap : MapFileOk w)
    (hf : w.files f = some file) {m' : Bitmap} (hbits : m'.numBits = numSectors) (hnew : new < numSectors)
    (hprev : prev < numSectors) (hpn : prev ≠ new) (hnew2 : new ≠ freeMapDataSector)
    (hprev2 : prev ≠ freeMapDataSector) :
    ∃ w', (linkHeader f prev new hdr m').run w = some ((), w') ∧ LinkWrites f prev new hdr m' file w w' := by
  obtain ⟨w1, hrun1, hw1⟩ := run_writeBackFreeMap hmap hbits
  have hf1 : w1.files f = some file := by
    obtain ⟨D, rfl⟩ := hw1.eq_with
    exact hf
  have hstep1 : FileStep f w w1 := FileStep.wroteMap hw1
  have hstep2 := FileStep.setDisk f w1 (Function.update w1.disk new hdr.toSector)
  generalize hw2 : ({ w1 with disk := Function.update w1.disk new hdr.toSector } : World) = w2 at hstep2
  have hf2 : w2.files f = some file := by rw [← hw2]; exact hf1
  generalize hlinked : ({ file.hdr with nextFileHeader := new } : RawFileHeader) = linked
  generalize hfile3 : ({ file with hdr := linked } : OpenFile) = file3
  have hstep3 := FileStep.setFile f w2 (some file3)
  generalize hw3 : ({ w2 with files := Function.update w2.files f (some file3) } : World) = w3 at hstep3
  have hf3 : w3.files f = some file3 := by rw [← hw3]; exact Function.update_self ..
  have hstep4 := FileStep.setDisk f w3 (Function.update w3.disk prev linked.toSector)
  generalize hw4 : ({ w3 with disk := Function.update w3.disk prev linked.toSector } : World) = w4
    at hstep4
  have hf4 : w4.files f = some file3 := by rw [← hw4]; exact hf3
  generalize hfile5 : ({ file with hdr := hdr, seekPosition := 0 } : OpenFile) = file5
  have hstep5 := FileStep.setFile f w4 (some file5)
  generalize hw5 : ({ w4 with files := Function.update w4.files f (some file5) } : World) = w5 at hstep5
  have hdisk (y : Nat) : w5.disk y = Function.update (Function.update w1.disk new hdr.toSector) prev
      linked.toSector y := by
    rw [← hw5, ← hw4, ← hw3, ← hw2]
  refine ⟨w5, ?_, (((hstep1.trans hstep2).trans hstep3).trans hstep4).trans hstep5, ?_, ?_, ?_, ?_, ?_⟩
  · unfold linkHeader
    simp only [run_bind, hrun1, Option.bind_some, run_writeSector hnew, hw2, run_modifyFile hf2, hlinked,
      hfile3, hw3, run_getFile hf3]
    have : file3.hdr = linked := by rw [← hfile3]
    rw [this, run_writeSector hprev, hw4]
    simp only [Option.bind_some, run_modifyFile hf4]
    have : ({ file3 with hdr := hdr, seekPosition := 0 } : OpenFile) = file5 := by
      rw [← hfile3, ← hfile5]
    rw [this, hw5]
  · rw [← hw5]
    show Function.update w4.files f (some file5) f = _
    rw [Function.update_self, ← hfile5]
  · intro y hyn hyp hy2
    rw [hdisk, Function.update_of_ne hyp, Function.update_of_ne hyn]
    exact hw1.disk_eq y hy2
  · rw [hdisk, Function.update_of_ne hpn.symm, Function.update_self]
  · rw [hdisk, Function.update_self, ← hlinked]
  · refine hw1.mapIs.congr ?_
    rw [hdisk, Function.update_of_ne hprev2.symm, Function.update_of_ne hnew2.symm]

theorem run_linkHeader (h : WriteInv w own m f s c) {pre : List Nat} {prev new n : Nat}
    (hc : c = pre ++ [prev]) (hf : w.files f = some file) (hhdr : file.hdr = hdrAt w.disk prev)
    {heap : ByteMemory} {hdr : RawFileHeader} {m' : Bitmap} {news : List Nat}
    (hall : RawFileHeader.Allocated (RawFileHeader.empty heap) m n hdr m' news)
    (hown : own new = none) (htest : m.test new = true) (hlt : new < numSectors) :
    ∃ w', (linkHeader f prev new hdr m').run w = some ((), w') ∧
      Linked f s c new n file w own m w' (extendOwn own (new :: news) s) m' := by
  have hprev : prev ∈ c := by rw [hc]; simp
  have hnew0 : new ≠ 0 := by
    rintro rfl
    rw [h.layout.own_zero] at hown
    cases hown
  have hnew2 : new ≠ freeMapDataSector := by
    rintro rfl
    rw [h.layout.own_mapData] at hown
    cases hown
  have hnewc : ∀ y ∈ c, y ≠ new := by
    rintro y hy rfl
    rw [h.file.own_of_mem hy] at hown
    cases hown
  have hfits : hdr.Fits := hall.fits (RawFileHeader.fits_empty heap)
  have hfree : ∀ y ∈ new :: news, own y = none := by
    intro y hy
    rcases List.mem_cons.mp hy with rfl | hy
    · exact hown
    · exact h.own_none (hall.news_free y hy).2
  have hnd : (new :: news).Nodup := by
    refine List.nodup_cons.mpr ⟨fun hmem => ?_, hall.news_nodup⟩
    rw [(hall.news_free new hmem).2] at htest
    cases htest
  have hdataOf : hdr.dataOf = news := by
    rw [hall.dataOf_eq, RawFileHeader.dataOf_empty, List.nil_append]
  have hnext : hdr.nextFileHeader = 0 := hall.next_eq
  have hlfits : ({ file.hdr with nextFileHeader := new } : RawFileHeader).Fits := by
    have hfh : file.hdr.Fits := by rw [hhdr]; exact RawFileHeader.fits_ofSector _
    obtain ⟨a, b, d, -⟩ := RawFileHeader.fits_iff.mp hfh
    refine RawFileHeader.fits_iff.mpr ⟨a, b, d, ?_⟩
    unfold numSectors at hlt
    show new < 2 ^ 32
    omega
  have hpn : prev ≠ new := hnewc prev hprev
  obtain ⟨w5, hrun, hw5⟩ := run_linkHeader_writes hdr h.mapFile hf hall.numBits_eq hlt (h.header_lt hprev)
    hpn hnew2 (h.header_ne_mapData hprev)
  have hdisk := hw5.disk_eq
  have hdnew : hdrAt w5.disk new = hdr := by
    rw [hdrAt, hw5.new_eq, RawFileHeader.ofSector_toSector hfits]
  have hdprev : hdrAt w5.disk prev = { hdrAt w.disk prev with nextFileHeader := new } := by
    rw [← hhdr, hdrAt, hw5.prev_eq, RawFileHeader.ofSector_toSector hlfits]
  have hpre : ∀ y ∈ pre, w5.disk y = w.disk y := by
    intro y hy
    have hyc : y ∈ c := by rw [hc]; exact List.mem_append_left _ hy
    refine hdisk y (hnewc y hyc) ?_ (h.header_ne_mapData hyc)
    rintro rfl
    have hndc := h.file.nodup_headers
    rw [hc] at hndc
    exact (List.nodup_append.mp hndc).2.2 y hy y (by simp) rfl
  have hfile : FileOk w5.disk (extendOwn own (new :: news) s) s (c ++ [new]) :=
    h.file.link hc hpre hdprev hnew0 (by rw [hdnew]; exact hall.ok) (by rw [hdnew]; exact hnext)
      (by rw [hdnew]; exact hdataOf) hnd hfree
  have hstep : WStep f s w own m w5 (extendOwn own (new :: news) s) m' := by
    refine ⟨hw5.step, Grown.extendOwn hfree,
      ?_, ?_, ?_⟩
    · intro y hy hy2
      refine hdisk y ?_ ?_ hy2
      · rintro rfl
        exact hy (extendOwn_of_mem (List.mem_cons_self ..))
      · rintro rfl
        exact hy ((extendOwn_self_iff y).mpr (Or.inl (h.file.own_of_mem hprev)))
    · intro y hy
      rw [hall.test_eq, hy, Bool.true_or]
    · refine HeadersGrown.of_file h.file hfile (List.prefix_append c [new]) fun y hy => ?_
      by_cases hyp : y = prev
      · rw [hyp, hdprev]
        exact ⟨Nat.le_refl _, List.prefix_rfl, Or.inr (h.file.chain.next_of_append hc)⟩
      · rw [hdrAt_congr (hdisk y (hnewc y hy) hyp (h.header_ne_mapData hy))]
        exact HeaderGrown.refl _
  refine ⟨w5, hrun, h.of_step hstep hw5.mapIs hfile ?_ ?_, hstep, ?_,
    extendOwn_of_mem (List.mem_cons_self ..), ?_, ?_, ?_, ?_, ?_⟩
  · intro y hy
    rcases (extendOwn_self_iff y).mp hy with hy | hy
    · exact h.layout.lt y s hy
    · rcases List.mem_cons.mp hy with rfl | hy
      · exact hlt
      · exact (hall.news_free y hy).1
  · intro y hy
    rw [hall.test_eq]
    rcases (extendOwn_self_iff y).mp hy with hy | hy
    · rw [h.marked y s hy, Bool.true_or]
    · rcases List.mem_cons.mp hy with rfl | hy
      · rw [htest, Bool.true_or]
      · simp [hy]
  · intro y hy
    rw [hall.test_eq, Bool.or_eq_true, decide_eq_true_eq] at hy
    refine hy.imp id fun hy => extendOwn_of_mem (List.mem_cons_of_mem new hy)
  · intro r hrn hro hrt
    rw [extendOwn_of_notMem, hro]
    intro hmem
    rcases List.mem_cons.mp hmem with h1 | h1
    · exact hrn h1
    · rw [(hall.news_free r h1).2] at hrt
      cases hrt
  · rw [hdnew]
    exact hw5.file_eq
  · rw [hdnew, hall.numBytes_eq]
    exact Nat.zero_add n
  · intro y hy
    have hdata : ∀ z ∈ (hdrAt w.disk y).dataOf, w5.disk z = w.disk z := by
      intro z hz
      have hzo := h.file.own_of_data hy hz
      refine hdisk z ?_ ?_ (h.data_ne_mapData hy hz)
      · rintro rfl
        rw [hzo] at hown
        cases hown
      · rintro rfl
        exact h.file.header_notMem_data hprev hy hz
    by_cases hyp : y = prev
    · subst hyp
      rw [hdprev]
      exact ⟨rfl, dataBytes_congr hdata⟩
    · have hyd : hdrAt w5.disk y = hdrAt w.disk y :=
        hdrAt_congr (hdisk y (hnewc y hy) hyp (h.header_ne_mapData hy))
      rw [hyd]
      exact ⟨rfl, dataBytes_congr hdata⟩
  · have hlen := hall.news_length
    rw [← newSectors_empty heap, ← hlen]
    exact hall.countClear_eq

end Link

/-- What is known after a header was appended and `chunk` was written under it. -/
structure Appended (f : FileId) (s : Nat) (c : List Nat) (new : Nat) (chunk : List UInt8)
    (file : OpenFile) (w : World) (own : Nat → Option Nat) (m : Bitmap) (w' : World)
    (own' : Nat → Option Nat) (m' : Bitmap) : Prop where
  inv : WriteInv w' own' m' f s (c ++ [new])
  step : WStep f s w own m w' own' m'
  tight : Tight s m m' own'
  own_new : own' new = some s
  keeps : ∀ r, r ≠ new → own r = none → m.test r = true → own' r = none
  file_eq : w'.files f =
    some { file with hdr := hdrAt w'.disk new, seekPosition := chunk.length }
  content_eq : content w'.disk (c ++ [new]) = content w.disk c ++ chunk
  numBytes_new : (hdrAt w'.disk new).numBytes = chunk.length
  numBytes_old : ∀ y ∈ c, (hdrAt w'.disk y).numBytes = (hdrAt w.disk y).numBytes
  clear : m'.countClear + divRoundUp chunk.length sectorSize = m.countClear

section Append

variable {w : World} {own : Nat → Option Nat} {m : Bitmap} {f : FileId} {s : Nat} {c : List Nat}
  {file : OpenFile}

/-- The other reserved sectors stay reserved when a header is put into the first one. -/
theorem Reserved.after {new : Nat} {l : List Nat} {chunk : List UInt8} {w' : World}
    {own' : Nat → Option Nat} {m' : Bitmap} (hres : Reserved own m (new :: l))
    (h : Appended f s c new chunk file w own m w' own' m') : Reserved own' m' l := by
  have hnotin := (List.nodup_cons.mp hres.nodup).1
  refine ⟨(List.nodup_cons.mp hres.nodup).2, ?_, ?_, hres.tail.lt⟩
  · intro r hr
    exact h.keeps r (fun e => hnotin (e ▸ hr)) (hres.tail.own_none r hr) (hres.tail.test r hr)
  · exact fun r hr => h.step.marks r (hres.tail.test r hr)

/-- A full file stays full when a header is appended behind a full one. -/
theorem Appended.full {new : Nat} {chunk : List UInt8} {w' : World} {own' : Nat → Option Nat}
    {m' : Bitmap} {pre : List Nat} {prev : Nat}
    (h : Appended f s c new chunk file w own m w' own' m') (hc : c = pre ++ [prev])
    (hfull : Full w.disk c) (hprev : (hdrAt w.disk prev).numBytes = maxHeaderBytes) :
    Full w'.disk (c ++ [new]) := by
  intro pre' x post' heq hpost
  -- `x` is not the new header, so it is the old last one or in front of it
  obtain ⟨post'', last, rfl⟩ : ∃ l a, post' = l ++ [a] :=
    ⟨post'.dropLast, post'.getLast hpost, (List.dropLast_append_getLast hpost).symm⟩
  have heq' : c ++ [new] = (pre' ++ x :: post'') ++ [last] := by rw [heq]; simp
  obtain ⟨hcx, -⟩ := List.append_inj' heq' rfl
  have hxc : x ∈ c := by rw [hcx]; simp
  rw [h.numBytes_old x hxc]
  by_cases hp : post'' = []
  · subst hp
    rw [hc] at hcx
    obtain ⟨-, hx⟩ := List.append_inj' hcx rfl
    rw [← List.cons.inj hx |>.1]
    exact hprev
  · exact hfull pre' x post'' hcx hp

/-- One round of the loop that appends headers. -/
theorem run_append (h : WriteInv w own m f s c) {pre : List Nat} {prev new n : Nat}
    (hc : c = pre ++ [prev]) (hf : w.files f = some file) (hhdr : file.hdr = hdrAt w.disk prev)
    {heap : ByteMemory} {hdr : RawFileHeader} {m' : Bitmap} {news : List Nat}
    (hall : RawFileHeader.Allocated (RawFileHeader.empty heap) m n hdr m' news)
    (hown : own new = none) (htest : m.test new = true) (hlt : new < numSectors) (st : Writing)
    (hn : 0 < n) (hnl : n ≤ st.data.length) :
    ∃ w1 w2 own2, (linkHeader f prev new hdr m').run w = some ((), w1) ∧
      (writeChunk f n { st with freeMap := m' }).run w1 =
        some ({ freeMap := m', data := st.data.drop n, result := st.result + n }, w2) ∧
      Appended f s c new (st.data.take n) file w own m w2 own2 m' := by
  obtain ⟨w1, hrun1, hl⟩ := run_linkHeader h hc hf hhdr hall hown htest hlt
  have hnew : new ∈ c ++ [new] := by simp
  have hlen : (st.data.take n).length = n := by rw [List.length_take]; omega
  obtain ⟨w2, hrun2, hch⟩ := run_writeChunk hl.inv hl.file_eq hnew rfl { st with freeMap := m' } hn
    hnl (by rw [hl.numBytes_eq]; simp)
  refine ⟨w1, w2, extendOwn own (new :: news) s, hrun1, hrun2, ?_⟩
  have hxh := hch.headers new hnew
  refine ⟨hch.inv, hl.step.trans hch.step, hl.tight, hl.own_new, hl.keeps, ?_, ?_, ?_, ?_, ?_⟩
  · rw [hch.file_eq, hxh, hlen]
    simp
  · have hold : content w2.disk c = content w.disk c := by
      unfold content
      apply List.flatMap_congr
      intro y hy
      have hyn : y ≠ new := by
        rintro rfl
        rw [h.file.own_of_mem hy] at hown
        cases hown
      have hyc : y ∈ c ++ [new] := List.mem_append_left _ hy
      rw [hch.headers y hyc, hch.others y hyc hyn, (hl.old y hy).2]
    have hjunk := length_dataBytes (d := w1.disk) (hl.inv.file.ok new hnew)
    rw [hl.numBytes_eq] at hjunk
    rw [content_append, hold, content_cons, hxh, hch.bytes,
      splice_of_length_eq (by rw [hjunk]; exact hlen)]
    simp [content]
  · rw [hxh, hl.numBytes_eq, hlen]
  · intro y hy
    rw [hch.headers y (List.mem_append_left _ hy), (hl.old y hy).1]
  · rw [hlen]
    exact hl.clear

end Append

/-! ## The loop -/

/-- A whole header takes its data sectors from those of all the data. -/
theorem divRoundUp_sub_min (n : Nat) :
    divRoundUp (n - min n maxHeaderBytes) sectorSize + divRoundUp (min n maxHeaderBytes) sectorSize =
      divRoundUp n sectorSize := by
  have hmax : maxHeaderBytes = 3712 := rfl
  rw [hmax]
  unfold divRoundUp sectorSize
  by_cases hle : n ≤ 3712
  · rw [Nat.min_eq_left hle, Nat.sub_self]
    simp
  · rw [Nat.min_eq_right (by omega)]
    have h1 : (n - 3712) / 128 = n / 128 - 29 := by omega
    have h2 : (n - 3712) % 128 = n % 128 := by omega
    have h3 : (if 3712 % 128 > 0 then 1 else 0) = 0 := if_neg (by decide)
    rw [h1, h2, h3]
    split <;> omega

/-- The room that the loop needs for its data. -/
theorem bytesToAppend_le (st : Writing) : bytesToAppend st ≤ min st.data.length maxHeaderBytes ∧
    divRoundUp (bytesToAppend st) sectorSize ≤ st.freeMap.countClear := by
  unfold bytesToAppend
  simp only
  split
  · rename_i hlt
    have hlow := divRoundUp_mul_lt (min st.data.length maxHeaderBytes)
    refine ⟨?_, ?_⟩
    · have := Nat.mul_le_mul_right sectorSize hlt
      rw [Nat.succ_mul] at this
      omega
    · unfold divRoundUp sectorSize
      split <;> omega
  · rename_i hge
    exact ⟨Nat.le_refl _, by omega⟩

theorem bytesToAppend_pos {st : Writing} (hdata : st.data ≠ []) (hclear : 0 < st.freeMap.countClear) :
    0 < bytesToAppend st := by
  have hlen : 0 < st.data.length := List.length_pos_iff.mpr hdata
  have hmax : 0 < maxHeaderBytes := by decide
  have hsize : 0 < sectorSize := by decide
  unfold bytesToAppend
  simp only
  split
  · exact Nat.mul_pos hclear hsize
  · omega

/-- Fewer bytes than asked for are appended only when they take the last free sectors. -/
theorem bytesToAppend_short {st : Writing} (h : bytesToAppend st < min st.data.length maxHeaderBytes) :
    divRoundUp (bytesToAppend st) sectorSize = st.freeMap.countClear ∧
      st.freeMap.countClear < divRoundUp st.data.length sectorSize := by
  unfold bytesToAppend at *
  simp only at *
  split at h
  · rename_i hlt
    rw [if_pos hlt]
    refine ⟨?_, Nat.lt_of_lt_of_le hlt (divRoundUp_mono (Nat.min_le_left _ _))⟩
    unfold divRoundUp sectorSize
    split <;> omega
  · omega

section More

variable {f : FileId} {s : Nat} {file : OpenFile} {cur : Nat}

/-- What is known after the loop over the reserved sectors `l`: the file has got more headers, the
last of which is the one in memory. -/
structure More (f : FileId) (s : Nat) (file : OpenFile) (cur : Nat) (l c : List Nat) (w : World)
    (own : Nat → Option Nat) (m : Bitmap) (st : Writing) (last : Nat) (c' : List Nat) (w' : World)
    (own' : Nat → Option Nat) (m' : Bitmap) (st' : Writing) (r : Nat) : Prop where
  moved : Moved f s c w own m st c' w' own' m' st' r
  tight : Tight s m m' own'
  last_eq : ∃ pre, c' = pre ++ [last]
  file_eq : ∃ seek, seek ≤ maxHeaderBytes ∧
    w'.files f = some (file.at (hdrAt w'.disk last) cur seek) ∧ seek = (hdrAt w'.disk last).numBytes
  content_eq : content w'.disk c' = content w.disk c ++ st.data.take r
  full : Full w.disk c → Full w'.disk c'
  numBytes_old : ∀ y ∈ c, (hdrAt w'.disk y).numBytes = (hdrAt w.disk y).numBytes
  last_pos : c' ≠ c → 0 < (hdrAt w'.disk last).numBytes
  room : divRoundUp st.data.length sectorSize ≤ m.countClear → st'.data = []
  used : (l.length - 1) * numDirect < m.countClear → ∀ x ∈ l, own' x = some s

/-- Behind a header that took `n` bytes, the last header is not empty. -/
theorem More.last_pos_of_append {w0 w2 w' : World} {own own2 own' : Nat → Option Nat}
    {m m1 m' : Bitmap} {st st2 st' : Writing} {c c' l : List Nat} {new last n r : Nat}
    {file0 : OpenFile} (hmore : More f s file cur l (c ++ [new]) w2 own2 m1 st2 last c' w' own' m' st' r)
    (happ : Appended f s c new (st.data.take n) file0 w0 own m w2 own2 m1)
    (hn : n ≤ st.data.length) (hpos : 0 < n) : 0 < (hdrAt w'.disk last).numBytes := by
  by_cases hc : c' = c ++ [new]
  · obtain ⟨pre, hlast⟩ := hmore.last_eq
    rw [hc] at hlast
    have hnew : new = last := List.singleton_inj.mp (List.append_inj' hlast rfl).2
    rw [← hnew, hmore.numBytes_old new (by simp), happ.numBytes_new, List.length_take]
    omega
  · exact hmore.last_pos hc

/-- One round of the loop in front of the others. -/
theorem More.cons {w w0 w2 w' : World} {own own2 own' : Nat → Option Nat} {m m1 m' : Bitmap}
    {st st2 st' : Writing} {c c' l : List Nat} {new last n r : Nat} {file0 : OpenFile}
    (hstep0 : WStep f s w own m w0 own m) (hd0 : w0.disk = w.disk)
    (happ : Appended f s c new (st.data.take n) file0 w0 own m w2 own2 m1)
    (hmore : More f s file cur l (c ++ [new]) w2 own2 m1 st2 last c' w' own' m' st' r)
    (hdata2 : st2.data = st.data.drop n) (hresult2 : st2.result = st.result + n)
    (hn : n ≤ st.data.length) (hpos : 0 < n) (hfull : Full w.disk c → Full w2.disk (c ++ [new]))
    (hroom : divRoundUp st.data.length sectorSize ≤ m.countClear →
      divRoundUp st2.data.length sectorSize ≤ m1.countClear)
    (hused : l ≠ [] → l.length * numDirect < m.countClear →
      (l.length - 1) * numDirect < m1.countClear) :
    More f s file cur (new :: l) c w own m st last c' w' own' m' st' (n + r) where
  moved := by
    have hmoved := hmore.moved
    refine ⟨hmoved.inv, (hstep0.trans happ.step).trans hmoved.step,
      (List.prefix_append c [new]).trans hmoved.pre, hmoved.map_eq, ?_, ?_, ?_⟩
    · rw [hmoved.data_eq, hdata2, List.drop_drop]
    · rw [hmoved.result_eq, hresult2, Nat.add_assoc]
    · have hle := hmoved.le
      rw [hdata2, List.length_drop] at hle
      omega
  tight := happ.tight.trans hmore.tight hmore.moved.step.grown
  last_eq := hmore.last_eq
  file_eq := hmore.file_eq
  content_eq := by
    rw [hmore.content_eq, happ.content_eq, hd0, hdata2, List.take_add, List.append_assoc]
  full := fun h => hmore.full (hfull h)
  numBytes_old := by
    intro y hy
    rw [hmore.numBytes_old y (List.mem_append_left _ hy), happ.numBytes_old y hy, hd0]
  last_pos := fun _ => hmore.last_pos_of_append happ hn hpos
  room := fun h => hmore.room (hroom h)
  used := by
    intro hlt x hx
    rcases List.mem_cons.mp hx with rfl | hx
    · exact hmore.moved.step.grown.mono _ happ.own_new
    · exact hmore.used (hused (List.ne_nil_of_mem hx) hlt) x hx

/-- There are exactly as many reserved sectors `l` as the data needs, unless no sector is free. -/
structure HeaderCount (l : List Nat) (m : Bitmap) (st : Writing) : Prop where
  enough : m.countClear = 0 ∨ st.data.length ≤ l.length * maxHeaderBytes
  needed : l ≠ [] → (l.length - 1) * maxHeaderBytes < st.data.length

/-- What the loop needs to know: the number of reserved sectors, and that the last header is full if
another one may follow. -/
structure MorePre (l : List Nat) (c : List Nat) (prev : Nat) (w : World) (m : Bitmap) (st : Writing) :
    Prop extends HeaderCount l m st where
  full : Full w.disk c → 0 < m.countClear → st.data ≠ [] →
    (hdrAt w.disk prev).numBytes = maxHeaderBytes

theorem HeaderCount.data_ne_nil {l : List Nat} {new : Nat} {m : Bitmap} {st : Writing}
    (h : HeaderCount (new :: l) m st) : st.data ≠ [] := by
  intro hnil
  have := h.needed (by simp)
  rw [hnil] at this
  simp at this

/-- The next round: `n` bytes were written under the header `new`, either a whole header or the rest
of the data, or as much as took the last free sectors. -/
theorem HeaderCount.next {l c' : List Nat} {new n : Nat} {w2 : World} {m m1 : Bitmap}
    {st st2 : Writing} (h : HeaderCount (new :: l) m st) (hdata2 : st2.data = st.data.drop n)
    (hn : n ≤ maxHeaderBytes) (hnb : (hdrAt w2.disk new).numBytes = n)
    (hclear : m1.countClear ≤ m.countClear)
    (hcase : m1.countClear = 0 ∨ n = min st.data.length maxHeaderBytes) :
    MorePre l c' new w2 m1 st2 := by
  have hdl : st2.data.length = st.data.length - n := by rw [hdata2, List.length_drop]
  have hmul : (new :: l).length * maxHeaderBytes = l.length * maxHeaderBytes + maxHeaderBytes := by
    rw [List.length_cons, Nat.succ_mul]
  refine ⟨⟨?_, ?_⟩, ?_⟩
  · rcases hcase with hz | hfit
    · exact Or.inl hz
    · rcases h.enough with hzero | hle
      · left
        omega
      · right
        omega
  · intro hl
    have h1 := h.needed (by simp)
    have h2 : 0 < l.length := List.length_pos_iff.mpr hl
    have h3 : l.length * maxHeaderBytes = (l.length - 1) * maxHeaderBytes + maxHeaderBytes := by
      conv_lhs => rw [show l.length = l.length - 1 + 1 by omega, Nat.succ_mul]
    rw [List.length_cons, Nat.add_sub_cancel] at h1
    omega
  · intro _ hpos hne
    have : 0 < st2.data.length := List.length_pos_iff.mpr hne
    rw [hnb]
    rcases hcase with hz | hfit
    · omega
    · omega

/-- A round of the loop that appends a header. -/
theorem run_writeMore_cons {w w0 w1 w2 : World} {prev new : Nat} {l : List Nat} {st st2 : Writing}
    {heap : ByteMemory} {hdr : RawFileHeader} {m1 : Bitmap}
    (hmalloc : (malloc .header).run w = some (heap, w0)) (hn : 0 < bytesToAppend st)
    (halloc : (RawFileHeader.empty heap).allocate st.freeMap (bytesToAppend st) =
      some (true, hdr, m1))
    (hrun1 : (linkHeader f prev new hdr m1).run w0 = some ((), w1))
    (hrun2 : (writeChunk f (bytesToAppend st) { st with freeMap := m1 }).run w1 = some (st2, w2)) :
    (writeMore f prev (new :: l) st).run w = (writeMore f new l st2).run w2 := by
  rw [writeMore, run_bind, hmalloc, Option.bind_some]
  simp only
  rw [if_pos hn, halloc, run_bind, run_ofOption_some, Option.bind_some]
  simp only [if_true]
  rw [run_bind, hrun1, Option.bind_some, run_bind]
  simp only [hrun2, Option.bind_some]

/-- The loop that appends headers, by induction over the reserved sectors. -/
theorem run_writeMore (l : List Nat) :
    ∀ {w : World} {own : Nat → Option Nat} {m : Bitmap} {st : Writing} {c pre : List Nat} {prev : Nat},
      WriteInv w own m f s c → c = pre ++ [prev] →
      w.files f = some (file.at (hdrAt w.disk prev) cur (hdrAt w.disk prev).numBytes) →
      st.freeMap = m → Reserved own m l → MorePre l c prev w m st →
    ∃ last st' w' own' m' c' r, (writeMore f prev l st).run w = some ((last, st'), w') ∧
      More f s file cur l c w own m st last c' w' own' m' st' r := by
  induction l with
  | nil =>
    intro w own m st c pre prev h hc hf hst _ hpre
    have hprev : prev ∈ c := by rw [hc]; simp
    refine ⟨prev, st, w, own, m, c, 0, rfl, ⟨⟨h, WStep.refl f s w own m, List.prefix_rfl, hst, rfl,
      rfl, Nat.zero_le _⟩, Tight.refl s m own, ⟨pre, hc⟩,
      ⟨_, (h.file.ok prev hprev).numBytes_le, hf, rfl⟩, by simp, id, fun _ _ => rfl,
      fun hne => absurd rfl hne, ?_, by simp⟩⟩
    intro hroom
    apply List.eq_nil_of_length_eq_zero
    rcases hpre.enough with hzero | hle
    · have := le_divRoundUp_mul st.data.length
      rw [hzero, Nat.le_zero] at hroom
      rw [hroom] at this
      omega
    · simpa using hle
  | cons new l ih =>
    intro w own m st c pre prev h hc hf hst hres hpre
    have hprev : prev ∈ c := by rw [hc]; simp
    have hdata := hpre.toHeaderCount.data_ne_nil
    have hdlen : 0 < st.data.length := List.length_pos_iff.mpr hdata
    have hmax : 0 < maxHeaderBytes := by decide
    obtain ⟨hble, hbclear⟩ := bytesToAppend_le st
    have hbshort : bytesToAppend st < min st.data.length maxHeaderBytes → _ := bytesToAppend_short
    rw [hst] at hbclear hbshort
    -- memory for the new header
    obtain ⟨w0, hmalloc, hd0, hfiles0, hstep0, h0⟩ := h.malloc
    have hf0 := hf
    rw [← hfiles0] at hf0
    generalize hb : bytesToAppend st = n at *
    by_cases hn : 0 < n
    · -- a header is appended, and the loop goes on
      obtain ⟨hdr, m1, news, halloc, hall⟩ :=
        allocate_empty (w.heap .header 0) h.mapIs.numBits_eq (by omega) hbclear
      have hnr : new ∈ new :: l := List.mem_cons_self ..
      obtain ⟨w1, w2, own2, hrun1, hrun2, happ⟩ := run_append h0 hc hf0 (by rw [hd0]; rfl) hall
        (hres.own_none new hnr) (hres.test new hnr) (hres.lt new hnr) st hn (by omega)
      have hlen2 : (st.data.take n).length = n := by rw [List.length_take]; omega
      have hcl := happ.clear
      have hnb := happ.numBytes_new
      rw [hlen2] at hcl hnb
      have hres2 := hres.after happ
      -- fewer bytes than a whole header leave no free sector behind
      have hcase : m1.countClear = 0 ∨ n = min st.data.length maxHeaderBytes := by
        by_cases hlt : n < min st.data.length maxHeaderBytes
        · left
          have := (hbshort hlt).1
          omega
        · right
          omega
      generalize hst2 : ({ freeMap := m1, data := st.data.drop n, result := st.result + n } :
        Writing) = st2 at hrun2
      have hdata2 : st2.data = st.data.drop n := by rw [← hst2]
      have hf2 : w2.files f =
          some (file.at (hdrAt w2.disk new) cur (hdrAt w2.disk new).numBytes) := by
        rw [happ.file_eq, hlen2, hnb]
        rfl
      obtain ⟨last, st', w', own', m', c', r, hrun, hmore⟩ := ih happ.inv rfl hf2
        (show st2.freeMap = m1 by rw [← hst2]) hres2
        (hpre.toHeaderCount.next hdata2 (by omega) hnb (by omega) hcase)
      refine ⟨last, st', w', own', m', c', n + r, ?_,
        hmore.cons hstep0 hd0 happ hdata2 (by rw [← hst2]) (by omega) hn ?_ ?_ ?_⟩
      · rw [run_writeMore_cons hmalloc (hb ▸ hn) (by rw [hb, hst]; exact halloc) hrun1
          (by rw [hb]; exact hrun2), hrun]
      · intro hfull
        refine happ.full hc (by rw [hd0]; exact hfull) ?_
        rw [hd0]
        refine hpre.full hfull ?_ hdata
        have hle := le_divRoundUp_mul n
        by_contra hz
        have hz' : divRoundUp n sectorSize = 0 := by omega
        rw [hz'] at hle
        omega
      · intro hroom
        have hbeq : n = min st.data.length maxHeaderBytes := by
          rcases Nat.lt_or_ge n (min st.data.length maxHeaderBytes) with hlt | hge
          · have := (hbshort hlt).2
            omega
          · omega
        have hsplit := divRoundUp_sub_min st.data.length
        rw [← hbeq] at hsplit
        rw [hdata2, List.length_drop]
        omega
      · intro hl hlt
        have hlpos : 0 < l.length := List.length_pos_iff.mpr hl
        have hmul : l.length * numDirect = (l.length - 1) * numDirect + numDirect := by
          conv_lhs => rw [show l.length = l.length - 1 + 1 by omega, Nat.succ_mul]
        have := divRoundUp_le_numDirect (show n ≤ maxHeaderBytes by omega)
        omega
    · -- no room for another header
      have hshort : n < min st.data.length maxHeaderBytes := by omega
      refine ⟨prev, st, w0, own, m, c, 0, ?_, ⟨⟨h0, hstep0, List.prefix_rfl, hst, rfl, rfl,
        Nat.zero_le _⟩, Tight.refl s m own, ⟨pre, hc⟩, ?_, ?_, ?_, fun _ _ => by rw [hd0],
        fun hne => absurd rfl hne, ?_, ?_⟩⟩
      · simp only [writeMore, run_bind, hmalloc, Option.bind_some, hb, if_neg hn, run_pure]
      · rw [hd0]
        exact ⟨_, (h.file.ok prev hprev).numBytes_le, hf0, rfl⟩
      · rw [hd0]
        simp
      · rw [hd0]
        exact id
      · intro hroom
        have := (hbshort hshort).2
        omega
      · intro hlt
        have := bytesToAppend_pos hdata (show 0 < st.freeMap.countClear by rw [hst]; omega)
        omega

end More

/-! ## The whole phase -/

/-- The cursor at the end of a file. -/
theorem Cursor.end {d : Disk} (pre : List Nat) {x : Nat} (hok : (hdrAt d x).Ok) :
    Cursor d pre x [] (hdrAt d x).numBytes (content d (pre ++ [x])) [] := by
  have hlen := length_dataBytes (d := d) hok
  refine ⟨?_, ?_, Nat.le_refl _⟩
  · rw [List.take_of_length_le (by omega), content_append, content_cons]
    simp [content]
  · rw [List.drop_eq_nil_of_le (by omega)]
    rfl

/-- At the end of a file there is nothing behind the cursor. -/
theorem Cursor.eq_of_end {d : Disk} {pre : List Nat} {x seek : Nat} {A B : List UInt8}
    (h : Cursor d pre x [] seek A B) (hok : (hdrAt d x).Ok) (hend : seek = (hdrAt d x).numBytes) :
    A = content d (pre ++ [x]) ∧ B = [] := by
  have hc := Cursor.end pre hok
  rw [← hend] at hc
  exact ⟨h.front.symm.trans hc.front, h.back.symm.trans hc.back⟩

/-- The sectors that are needed to append `n` bytes in new headers. -/
def needAppend (n : Nat) : Nat :=
  divRoundUp n sectorSize + divRoundUp (divRoundUp n sectorSize) numDirect

/-- With `clear` free sectors, appending `n` bytes leaves no reserved sector unused: either no header
is reserved, or the first header gets all its sectors and the last one gets some. -/
def AppendFits (n clear : Nat) : Prop :=
  clear < divRoundUp (divRoundUp n sectorSize) numDirect ∨
    divRoundUp (divRoundUp n sectorSize) numDirect + divRoundUp (min n maxHeaderBytes) sectorSize ≤
        clear ∧
      divRoundUp (divRoundUp n sectorSize) numDirect +
        (divRoundUp (divRoundUp n sectorSize) numDirect - 1) * numDirect < clear

instance (n clear : Nat) : Decidable (AppendFits n clear) := inferInstanceAs (Decidable (_ ∨ _))

/-- As many headers as `writeAppend` counts are enough for the data, and none is superfluous. -/
theorem headerCount_bounds {n : Nat} (hn : 0 < n) :
    0 < divRoundUp (divRoundUp n sectorSize) numDirect ∧
    n ≤ divRoundUp (divRoundUp n sectorSize) numDirect * maxHeaderBytes ∧
    (divRoundUp (divRoundUp n sectorSize) numDirect - 1) * maxHeaderBytes < n := by
  have hmax : maxHeaderBytes = 3712 := rfl
  have hlow := divRoundUp_mul_lt n
  have hup := le_divRoundUp_mul n
  generalize divRoundUp n sectorSize = t at *
  rw [hmax]
  unfold sectorSize at *
  unfold divRoundUp numDirect
  split <;> omega

section WriteAppend

variable {w : World} {own : Nat → Option Nat} {m : Bitmap} {f : FileId} {s : Nat} {c : List Nat}
  {file : OpenFile} {pre : List Nat} {x seek : Nat} {st : Writing}

/-- What is known after `Write` has appended what there was room for. -/
structure Appending (f : FileId) (s : Nat) (file : OpenFile) (c : List Nat) (pre : List Nat) (x : Nat)
    (seek : Nat) (w : World) (own : Nat → Option Nat) (m : Bitmap) (st : Writing) (c' : List Nat)
    (pre' : List Nat) (x' : Nat) (seek' : Nat) (w' : World) (own' : Nat → Option Nat) (m' : Bitmap)
    (st' : Writing) (r : Nat) : Prop where
  moved : Moved f s c w own m st c' w' own' m' st' r
  chain_eq : c' = pre' ++ [x']
  file_eq : w'.files f = some (file.at (hdrAt w'.disk x') x' seek')
  seek_le : seek' ≤ maxHeaderBytes
  move : Full w.disk c → ∀ A B, Cursor w.disk pre x [] seek A B →
    seek = (hdrAt w.disk x).numBytes → seek = maxHeaderBytes →
    Full w'.disk c' ∧ Cursor w'.disk pre' x' [] seek' (A ++ st.data.take r) (B.drop r)
  last_pos : c' ≠ c → 0 < (hdrAt w'.disk x').numBytes
  room : needAppend st.data.length ≤ m.countClear → st'.data = []
  tight : AppendFits st.data.length m.countClear → Tight s m m' own'

/-- Nothing could be appended, but sectors may have been reserved. -/
theorem Appending.none {w' : World} {m' : Bitmap} (hc : c = pre ++ [x])
    (hf : w.files f = some (file.at (hdrAt w.disk x) x seek)) (hseek : seek ≤ maxHeaderBytes)
    (h' : WriteInv w' own m' f s c) (hstep : WStep f s w own m w' own m')
    (hfiles : w'.files = w.files) (hdisk : ∀ x, x ≠ freeMapDataSector → w'.disk x = w.disk x)
    (hshort : m.countClear < needAppend st.data.length)
    (htight : AppendFits st.data.length m.countClear → Tight s m m' own) :
    Appending f s file c pre x seek w own m st c pre x seek w' own m' { st with freeMap := m' } 0 := by
  have hxc : x ∈ c := by rw [hc]; simp
  have hhdr : hdrAt w'.disk x = hdrAt w.disk x := hdrAt_congr (hdisk x (h'.header_ne_mapData hxc))
  have hheaders : ∀ y ∈ c, hdrAt w'.disk y = hdrAt w.disk y :=
    fun y hy => hdrAt_congr (hdisk y (h'.header_ne_mapData hy))
  have hbytes : ∀ y ∈ c, dataBytes w'.disk (hdrAt w'.disk y) = dataBytes w.disk (hdrAt w.disk y) := by
    intro y hy
    rw [hheaders y hy]
    refine dataBytes_congr fun z hz => hdisk z (h'.data_ne_mapData hy ?_)
    rw [hheaders y hy]
    exact hz
  refine ⟨⟨h', hstep, List.prefix_rfl, rfl, rfl, rfl, Nat.zero_le _⟩, hc, ?_, hseek, ?_,
    fun hne => absurd rfl hne, ?_, ?_⟩
  · rw [hfiles, hhdr]
    exact hf
  · intro hfull A B hcur _ _
    refine ⟨fun pre y post hy hpost => ?_, ?_⟩
    · rw [hheaders y (by rw [hy]; simp)]
      exact hfull pre y post hy hpost
    · rw [List.take_zero, List.append_nil, List.drop_zero]
      refine ⟨?_, ?_, by rw [hhdr]; exact hcur.le⟩
      · rw [← hcur.front, hbytes x hxc]
        congr 1
        exact List.flatMap_congr fun y hy => hbytes y (by rw [hc]; simp [hy])
      · rw [← hcur.back, hbytes x hxc]
        rfl
  · intro hroom
    omega
  · exact htight

/-- The equation of the phase when there is room for the first header. -/
theorem run_writeAppend_eq {w1 w2 w3 w4 w5 : World} {m1 m2 : Bitmap} {first last cur : Nat}
    {l : List Nat} {heap : ByteMemory} {hdr : RawFileHeader} {file5 : OpenFile} {st4 st5 : Writing}
    (hcount : ¬ st.freeMap.countClear < divRoundUp (divRoundUp st.data.length sectorSize) numDirect)
    (hfind : (findHeaderSectors (divRoundUp (divRoundUp st.data.length sectorSize) numDirect) []
      st.freeMap).run w = some ((first :: l, m1), w1))
    (hmalloc : (malloc .header).run w1 = some (heap, w2))
    (halloc : (RawFileHeader.empty heap).allocate m1 (min st.data.length maxHeaderBytes) =
      some (true, hdr, m2))
    (hf : w2.files f = some file) (hcur : file.currentSector = cur)
    (hlink : (linkHeader f cur first hdr m2).run w2 = some ((), w3))
    (hchunk : (writeChunk f (min st.data.length maxHeaderBytes) { st with freeMap := m2 }).run w3 =
      some (st4, w4))
    (hmore : (writeMore f first l st4).run w4 = some ((last, st5), w5))
    (hf5 : w5.files f = some file5) :
    (writeAppend f st).run w = some (st5, { w5 with
      files := Function.update w5.files f (some { file5 with currentSector := last }) }) := by
  rw [writeAppend]
  simp only
  rw [if_neg hcount, run_bind, hfind, Option.bind_some]
  simp only
  rw [run_bind, hmalloc, Option.bind_some, halloc, run_bind, run_ofOption_some, Option.bind_some]
  simp only [if_true, List.head?_cons, List.tail_cons]
  rw [run_bind, run_ofOption_some, Option.bind_some, run_bind, run_getFile hf, Option.bind_some,
    hcur, run_bind, hlink, Option.bind_some, run_bind, hchunk, Option.bind_some, run_bind, hmore,
    Option.bind_some]
  simp only
  rw [run_bind, run_modifyFile hf5]
  rfl

/-- The equations of the phase when the first header does not fit. -/
theorem run_writeAppend_none
    (hcount : st.freeMap.countClear < divRoundUp (divRoundUp st.data.length sectorSize) numDirect) :
    (writeAppend f st).run w = some (st, w) := by
  rw [writeAppend]
  simp only
  rw [if_pos hcount]
  rfl

theorem run_writeAppend_short {w1 w2 : World} {m1 m2 : Bitmap} {l : List Nat} {heap : ByteMemory}
    {hdr : RawFileHeader}
    (hcount : ¬ st.freeMap.countClear < divRoundUp (divRoundUp st.data.length sectorSize) numDirect)
    (hfind : (findHeaderSectors (divRoundUp (divRoundUp st.data.length sectorSize) numDirect) []
      st.freeMap).run w = some ((l, m1), w1))
    (hmalloc : (malloc .header).run w1 = some (heap, w2))
    (halloc : (RawFileHeader.empty heap).allocate m1 (min st.data.length maxHeaderBytes) =
      some (false, hdr, m2)) :
    (writeAppend f st).run w = some ({ st with freeMap := m2 }, w2) := by
  rw [writeAppend]
  simp only
  rw [if_neg hcount, run_bind, hfind, Option.bind_some]
  simp only
  rw [run_bind, hmalloc, Option.bind_some, halloc, run_bind, run_ofOption_some, Option.bind_some]
  rfl

/-- `Write` in new headers. -/
theorem run_writeAppend (h : WriteInv w own m f s c) (hc : c = pre ++ [x])
    (hf : w.files f = some (file.at (hdrAt w.disk x) x seek)) (hseek : seek ≤ maxHeaderBytes)
    (hst : st.freeMap = m) (hdata : st.data ≠ []) :
    ∃ st' w' own' m' c' r pre' x' seek', (writeAppend f st).run w = some (st', w') ∧
      Appending f s file c pre x seek w own m st c' pre' x' seek' w' own' m' st' r := by
  have hdlen : 0 < st.data.length := List.length_pos_iff.mpr hdata
  obtain ⟨hkpos, hkle, hklt⟩ := headerCount_bounds hdlen
  generalize hk : divRoundUp (divRoundUp st.data.length sectorSize) numDirect = k at hkpos hkle hklt
  have hneed : needAppend st.data.length = divRoundUp st.data.length sectorSize + k := by
    rw [needAppend, hk]
  by_cases hcount : m.countClear < k
  · -- not even the headers fit
    refine ⟨st, w, own, m, c, 0, pre, x, seek, run_writeAppend_none (by rw [hst, hk]; exact hcount), ?_⟩
    have := Appending.none hc hf hseek h (WStep.refl f s w own m) rfl (fun _ _ => rfl)
      (show m.countClear < needAppend st.data.length by omega) fun _ => Tight.refl s m own
    rw [← hst] at this ⊢
    exact this
  have hresnil : Reserved own m [] := ⟨List.nodup_nil, by simp, by simp, by simp⟩
  obtain ⟨w1, m1, sectors, hfind, hlen, hres, h1, hstep1, hfiles1, hdisk1, htest1, hclear1⟩ :=
    run_findHeaderSectors k [] h (by omega) hresnil
  rw [List.nil_append] at hfind hres
  obtain ⟨w2, hmalloc, hd2, hfiles2, hstep2, h2⟩ := h1.malloc
  generalize w1.heap .header 0 = heap at hmalloc
  generalize hn : min st.data.length maxHeaderBytes = n
  have hmaxpos : 0 < maxHeaderBytes := by decide
  have hnn := divRoundUp_mono (Nat.min_le_left st.data.length maxHeaderBytes)
  rw [hn] at hnn
  by_cases hroom : m1.countClear < divRoundUp n sectorSize
  · -- the headers are reserved, but the first one gets no data sectors
    obtain ⟨hdr, halloc, -, -⟩ := RawFileHeader.allocate_short (k := n)
      (RawFileHeader.ok_empty heap) (show 0 + n ≤ maxHeaderBytes by omega)
      (by rw [newSectors_empty]; exact hroom)
    refine ⟨_, w2, own, m1, c, 0, pre, x, seek, run_writeAppend_short (by rw [hst, hk]; exact hcount)
      (by rw [hst, hk]; exact hfind) hmalloc (by rw [hn]; exact halloc), ?_⟩
    refine Appending.none hc hf hseek h2 (hstep1.trans hstep2) (hfiles2.trans hfiles1) ?_
      (by omega) ?_
    · intro y hy
      rw [hd2, hdisk1 y hy]
    · intro hfits
      unfold AppendFits at hfits
      rw [hk, hn] at hfits
      omega
  -- the first header
  obtain ⟨first, l, rfl⟩ : ∃ first l, sectors = first :: l := by
    cases sectors with
    | nil =>
      rw [List.length_nil] at hlen
      omega
    | cons first l => exact ⟨first, l, rfl⟩
  obtain ⟨hdr, m2, news, halloc, hall⟩ :=
    allocate_empty heap h2.mapIs.numBits_eq (show n ≤ maxHeaderBytes by omega) (by omega)
  have hhdr2 : hdrAt w2.disk x = hdrAt w.disk x := by
    rw [hd2]
    exact hdrAt_congr (hdisk1 x (h.header_ne_mapData (by rw [hc]; simp)))
  have hf2 : w2.files f = some (file.at (hdrAt w.disk x) x seek) := by rw [hfiles2, hfiles1, hf]
  have hmem : first ∈ first :: l := List.mem_cons_self ..
  obtain ⟨w3, w4, own4, hlink, hchunk, happ⟩ := run_append h2 hc hf2 (by rw [hhdr2]; rfl) hall
    (hres.own_none first hmem) (hres.test first hmem) (hres.lt first hmem) st (by omega) (by omega)
  have hlen2 : (st.data.take n).length = n := by rw [List.length_take]; omega
  have hcl := happ.clear
  have hnb := happ.numBytes_new
  rw [hlen2] at hcl hnb
  have hres4 := hres.after happ
  have hcountl : HeaderCount (first :: l) m1 st := by
    rw [← hlen] at hkle hklt
    exact ⟨Or.inr hkle, fun _ => hklt⟩
  generalize hst4 : ({ freeMap := m2, data := st.data.drop n, result := st.result + n } :
    Writing) = st4 at hchunk
  have hdata4 : st4.data = st.data.drop n := by rw [← hst4]
  have hf4 : w4.files f = some (file.at (hdrAt w4.disk first) x (hdrAt w4.disk first).numBytes) := by
    rw [happ.file_eq, hlen2, hnb]
    rfl
  obtain ⟨last, st5, w5, own5, m5, c5, r, hmore, hm⟩ := run_writeMore l happ.inv rfl hf4
    (show st4.freeMap = m2 by rw [← hst4]) hres4
    (hcountl.next hdata4 (by omega) hnb (by omega) (Or.inr hn.symm))
  obtain ⟨pre5, hc5⟩ := hm.last_eq
  obtain ⟨seek5, hseek5, hf5, hend5⟩ := hm.file_eq
  have hlast5 : (hdrAt w5.disk last).Ok := hm.moved.inv.file.ok last (by rw [hc5]; simp)
  have hset := hm.moved.inv.setFile (file.at (hdrAt w5.disk last) last seek5)
  have hstepset : WStep f s w5 own5 m5 { w5 with
      files := Function.update w5.files f (some (file.at (hdrAt w5.disk last) last seek5)) }
      own5 m5 :=
    WStep.setFile f s w5 own5 m5 _
  have hmoved := hm.moved
  have hstep2' := hstep1.trans hstep2
  refine ⟨st5, _, own5, m5, c5, n + r, pre5, last, seek5, run_writeAppend_eq (by rw [hst, hk]; exact hcount)
    (by rw [hst, hk]; exact hfind) hmalloc (by rw [hn]; exact halloc) hf2 rfl hlink
    (by rw [hn]; exact hchunk) hmore hf5, ?_⟩
  refine ⟨⟨hset, ?_, ?_, hmoved.map_eq, ?_, ?_, ?_⟩, hc5, Function.update_self .., hseek5, ?_,
    fun _ => hm.last_pos_of_append happ (show n ≤ st.data.length by omega) (by omega), ?_, ?_⟩
  · exact ((hstep2'.trans happ.step).trans hmoved.step).trans hstepset
  · exact (List.prefix_append c [first]).trans hmoved.pre
  · rw [hmoved.data_eq, hdata4, List.drop_drop]
  · rw [hmoved.result_eq, ← hst4, Nat.add_assoc]
  · have hle := hmoved.le
    rw [hdata4, List.length_drop] at hle
    omega
  · intro hfull A B hcur hend hmax
    have hxc : x ∈ c := by rw [hc]; simp
    obtain ⟨hA, hB⟩ := hcur.eq_of_end (h.file.ok x hxc) hend
    have hcontent2 : content w2.disk c = content w.disk c := by
      rw [hd2]
      exact content_congr fun y hy =>
        hdisk1 y (h.layout.ne_mapData h.start_ne ((h.file.own_iff y).mpr hy))
    have hfull2 : Full w2.disk c := by
      intro pre' y post' hy hpost
      rw [hd2, hdrAt_congr (hdisk1 y (h.header_ne_mapData (by rw [hy]; simp)))]
      exact hfull pre' y post' hy hpost
    have hfull4 := happ.full hc hfull2 (by rw [hhdr2, ← hend, hmax])
    refine ⟨hm.full hfull4, ?_⟩
    have hcend := Cursor.end pre5 hlast5
    rw [← hend5, ← hc5, hm.content_eq, happ.content_eq, hcontent2, hdata4, List.append_assoc,
      ← List.take_add] at hcend
    rw [hA, hB, ← hc, List.drop_nil]
    exact hcend
  · intro hroom'
    refine hm.room ?_
    have hsplit := divRoundUp_sub_min st.data.length
    rw [hn] at hsplit
    rw [hdata4, List.length_drop]
    omega
  · intro hfits y hy
    rcases hm.tight y hy with hy | hy
    · rcases happ.tight y hy with hy | hy
      · rcases htest1 y hy with hy | hy
        · exact Or.inl hy
        · right
          rcases List.mem_cons.mp hy with rfl | hy
          · exact hmoved.step.grown.mono _ happ.own_new
          · refine hm.used ?_ y hy
            have hlpos : 0 < l.length := List.length_pos_iff.mpr (List.ne_nil_of_mem hy)
            rw [List.length_cons] at hlen
            have hmul : l.length * numDirect = (l.length - 1) * numDirect + numDirect := by
              conv_lhs => rw [show l.length = l.length - 1 + 1 by omega, Nat.succ_mul]
            have hdir := divRoundUp_le_numDirect (show n ≤ maxHeaderBytes by omega)
            unfold AppendFits at hfits
            rw [hk, hn, ← hlen, Nat.add_sub_cancel] at hfits
            omega
      · exact Or.inr (hmoved.step.grown.mono y hy)
    · exact Or.inr hy

end WriteAppend

end Nachos.Filesys
