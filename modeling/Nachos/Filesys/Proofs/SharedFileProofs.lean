import Nachos.Filesys.Proofs.CachedHeaderProofs
import Nachos.Filesys.Proofs.HandleProofs

/-!
# Proofs: a file that is open more than once

`Write` fetches the header at which it goes on, `Read` does not. So the headers on disk stay in order whichever
object is written, and each object keeps a header in memory that is the one on disk or an earlier version of it.
What it reads is what the file has exactly when the request stays under that header or nothing was put behind it.
-/

namespace Nachos.Filesys

open Foundations Resumption

/-! ## Earlier versions -/

section Earlier

variable {h h' old mid new : RawFileHeader}

/-- A full header with another one behind it does not change. -/
theorem HeaderGrown.eq_of_full (hgrown : HeaderGrown h h') (hok : h.Ok) (hok' : h'.Ok)
    (hfull : h.numBytes = maxHeaderBytes) (hnext : h.nextFileHeader ≠ 0) : h' = h := by
  have hbytes : h'.numBytes = h.numBytes := by
    have := hok'.numBytes_le
    have := hgrown.numBytes_le
    omega
  have hsectors : h'.numSectors = h.numSectors := by rw [hok'.numSectors_eq, hok.numSectors_eq, hbytes]
  have hdirect : h.numSectors = numDirect := by
    rw [hok.numSectors_eq, hfull]
    rfl
  have hdata : h.dataOf = h'.dataOf := by
    refine hgrown.dataOf_prefix.eq_of_length ?_
    rw [hok.length_dataOf, hok'.length_dataOf, hsectors]
  have hwhole : ∀ g : RawFileHeader, g.numSectors = numDirect → g.dataOf = g.dataSectors := by
    intro g hg
    rw [RawFileHeader.dataOf, hg, ← g.length_dataSectors, List.take_length]
  rw [hwhole h hdirect, hwhole h' (hsectors.trans hdirect)] at hdata
  have hlink := hgrown.next.resolve_right hnext
  cases h
  cases h'
  simp only at hbytes hsectors hdata hlink
  subst hbytes hsectors hdata hlink
  rfl

/-- An earlier version stays one when the header on disk grows. -/
theorem Earlier.grown (h : Earlier old mid) (hgrown : HeaderGrown mid new) (hok : mid.Ok) (hok' : new.Ok)
    (hfull : mid.nextFileHeader ≠ 0 → mid.numBytes = maxHeaderBytes) : Earlier old new := by
  rcases h with rfl | ⟨hnext, hle, hdata⟩
  · by_cases hnext : old.nextFileHeader = 0
    · exact Or.inr ⟨hnext, hgrown.numBytes_le, hgrown.dataOf_prefix⟩
    · exact Or.inl (hgrown.eq_of_full hok hok' (hfull hnext) hnext).symm
  · exact Or.inr ⟨hnext, Nat.le_trans hle hgrown.numBytes_le, hdata.trans hgrown.dataOf_prefix⟩

theorem Earlier.numBytes_le (h : Earlier old new) : old.numBytes ≤ new.numBytes := by
  rcases h with rfl | ⟨-, hle, -⟩
  · exact Nat.le_refl _
  · exact hle

end Earlier

/-! ## What a read sees -/

section Sees

variable {f : FileId} {w : World} {c pre post : List Nat} {x n : Nat} {file : OpenFile}

theorem take_eq_take_of_prefix {l l' : List UInt8} (h : l <+: l') :
    l.take n = l'.take n ↔ n ≤ l.length ∨ l.length = l'.length := by
  have hle := h.length_le
  constructor
  · intro heq
    have hlen := congrArg List.length heq
    rw [List.length_take, List.length_take] at hlen
    omega
  · rintro (hn | heq)
    · rw [List.prefix_iff_eq_take.mp h, List.take_take, Nat.min_eq_left hn]
    · rw [h.eq_of_length heq]

theorem ReadableChain.post_nil_iff (hchain : ReadableChain w.disk c) (hc : c = pre ++ x :: post) :
    (hdrAt w.disk x).nextFileHeader = 0 ↔ post = [] := by
  have hfollows := hchain.next pre x post hc
  cases post with
  | nil => exact ⟨fun _ => rfl, fun _ => hfollows⟩
  | cons y post => exact ⟨fun hzero => absurd hzero hfollows.1, fun hnil => absurd hnil (List.cons_ne_nil _ _)⟩

/-- The object finds as much as it is asked for, or all that the file has, exactly when its header is up to
date. -/
theorem Viewing.upToDate_iff (h : Viewing f w c pre x post file) (hchain : ReadableChain w.disk c)
    (hpos : ∀ y ∈ post, 0 < (hdrAt w.disk y).numBytes) :
    (n ≤ (visible w.disk file post).length ∨ (visible w.disk file post).length =
      (bytesFrom w.disk x post file.seekPosition).length) ↔ UpToDate w.disk file x n := by
  have hx := hchain.ok x (by rw [h.chain_eq]; simp)
  have hnil := hchain.post_nil_iff h.chain_eq
  have hseek := h.seek_le
  rcases h.earlier with heq | ⟨hnext, hle, -⟩
  · refine ⟨fun _ => Or.inr ⟨by rw [heq], by rw [heq]⟩, fun _ => Or.inr ?_⟩
    unfold visible bytesFrom
    rw [heq]
    split
    · rename_i hzero
      rw [hnil.mp hzero]
      rfl
    · rfl
  · have hvisible : (visible w.disk file post).length = file.hdr.numBytes - file.seekPosition := by
      rw [visible, if_pos hnext, List.append_nil, List.length_drop, length_dataBytes h.ok]
    have hbytes : (bytesFrom w.disk x post file.seekPosition).length =
        (hdrAt w.disk x).numBytes - file.seekPosition + (content w.disk post).length := by
      rw [bytesFrom, List.length_append, List.length_drop, length_dataBytes hx]
    rw [hvisible, hbytes, UpToDate, hnext]
    constructor
    · rintro (hn | hall)
      · exact Or.inl (by omega)
      · refine Or.inr ⟨by omega, hnil.mpr ?_⟩
        cases post with
        | nil => rfl
        | cons y post =>
          have hy := hchain.ok y (by rw [h.chain_eq]; simp)
          have := hpos y List.mem_cons_self
          rw [content_cons, List.length_append, length_dataBytes hy] at hall
          omega
    · rintro (hn | ⟨hsame, hzero⟩)
      · exact Or.inl (by omega)
      · rw [hnil.mp hzero, hsame]
        exact Or.inr rfl

/-- `Read` returns what the file has from the position on exactly when the header in memory is up to date. -/
theorem Viewing.read_iff (h : Viewing f w c pre x post file) (hchain : ReadableChain w.disk c)
    (hpos : ∀ y ∈ post, 0 < (hdrAt w.disk y).numBytes) (hn : 0 < n) (hlt : file.seekPosition + n < 2 ^ 32) :
    ((Filesys.read f n false).Returns w fun bytes _ =>
      bytes = (bytesFrom w.disk x post file.seekPosition).take n) ↔ UpToDate w.disk file x n := by
  obtain ⟨pre', x', post', file', hrun, -, -⟩ := h.run_read hchain hn hlt
  have hbegin := h.visible_prefix (hchain.ok x (by rw [h.chain_eq]; simp))
  rw [← h.upToDate_iff hchain hpos, ← take_eq_take_of_prefix hbegin]
  constructor
  · intro hreturns
    exact hreturns.ensures _ _ hrun
  · intro heq
    exact ⟨_, _, hrun, heq⟩

end Sees

/-! ## The objects of a file -/

/-- The object `f` stands at the header `x`, which is the first one where it has no bytes; the next `Write`
through it goes on at a header that is not behind `x`. -/
structure Standing (s : Nat) (w : World) (c : List Nat) (f : FileId) (file : OpenFile) (pre : List Nat) (x : Nat)
    (post : List Nat) : Prop where
  view : Viewing f w c pre x post file
  first : file.hdr.numBytes = 0 → x = s
  behind : ∃ pre0 post0, c = pre0 ++ file.currentSector :: post0 ∧ pre0 <+: pre

/-- The file that starts at sector `s` is in order, and so are all objects that are open on it. -/
structure Shared (s : Nat) (w : World) (own : Nat → Option Nat) (m : Bitmap) (c : List Nat) : Prop where
  ready : Ready w own m s c
  noEmptyEnd : NoEmptyEnd w.disk s
  ne_map : ∀ f, OpenOn s f w → f ≠ w.freeMapFile
  lock : ∀ f, OpenOn s f w → ∃ l, (w.table s).writeLock = some l ∧ w.locks l = some { lockOwner := none }
  standing : ∀ f file, w.files f = some file → file.sector = s → ∃ pre x post, Standing s w c f file pre x post

section Shared

variable {s : Nat} {w w' : World} {own own' : Nat → Option Nat} {m m' : Bitmap} {c c' pre post : List Nat}
  {f : FileId} {x : Nat} {file : OpenFile}

/-- Only the first header of a file may be empty. -/
theorem pos_of_ne_start {d : Disk} (hfile : FileOk d own s c) (hfull : Full d c) (hend : NoEmptyEnd d s)
    (hx : x ∈ c) (hne : x ≠ s) : 0 < (hdrAt d x).numBytes := by
  obtain ⟨pre, post, hc⟩ := List.append_of_mem hx
  by_cases hpost : post = []
  · rw [hpost] at hc
    refine hend pre x (by rw [← hc]; exact hfile.chain) ?_
    rintro rfl
    obtain ⟨l, hl, -⟩ := hfile.chain
    rw [hc] at hl
    exact hne (List.cons.inj hl).1
  · rw [hfull pre x post hc hpost]
    decide

/-- The headers behind the one at which an object stands have bytes. -/
theorem pos_of_behind (h : Ready w own m s c) (hend : NoEmptyEnd w.disk s) (hc : c = pre ++ x :: post) {y : Nat}
    (hy : y ∈ post) : 0 < (hdrAt w.disk y).numBytes := by
  have hnd := h.file.nodup_headers
  refine pos_of_ne_start h.file h.full hend (by rw [hc]; simp [hy]) ?_
  rintro rfl
  obtain ⟨l, hl, -⟩ := h.file.chain
  cases pre with
  | nil =>
    rw [hc] at hl hnd
    rw [← (List.cons.inj hl).1] at hy
    exact (List.nodup_cons.mp hnd).1 hy
  | cons z pre =>
    rw [hc] at hl hnd
    have hz : z = y := (List.cons.inj hl).1
    rw [hz] at hnd
    exact (List.nodup_cons.mp hnd).1 (by simp [hy])

/-- The position of an object is one under the header at which its next `Write` goes on. -/
theorem Standing.seek_le_current (h : Standing s w c f file pre x post) (hfull : Full w.disk c) :
    ∃ pre0 post0, c = pre0 ++ file.currentSector :: post0 ∧
      file.seekPosition ≤ (hdrAt w.disk file.currentSector).numBytes := by
  obtain ⟨pre0, post0, hc0, t, ht⟩ := h.behind
  refine ⟨pre0, post0, hc0, ?_⟩
  have hc := h.view.chain_eq
  rw [hc0, ← ht, List.append_assoc] at hc
  have htail := List.append_cancel_left hc
  cases t with
  | nil =>
    rw [(List.cons.inj htail).1]
    exact Nat.le_trans h.view.seek_le h.view.earlier.numBytes_le
  | cons y t =>
    have hpost : post0 ≠ [] := by
      rw [(List.cons.inj htail).2]
      simp
    rw [hfull pre0 file.currentSector post0 hc0 hpost]
    exact Nat.le_trans h.view.seek_le h.view.ok.numBytes_le

theorem Shared.opened (h : Shared s w own m c) (hat : OpenedAt s w w') : Shared s w' own m c := by
  have hready := h.ready.opened hat
  refine ⟨hready, by rw [hat.disk_eq]; exact h.noEmptyEnd, ?_, fun _ _ => hat.lock_free h.ready.lock, ?_⟩
  · rintro f ⟨file, hf, hs⟩
    rw [hat.freeMapFile_eq]
    by_cases hnew : f = w.nextFile
    · rw [hnew]
      exact Nat.ne_of_gt h.ready.mapFile_lt
    · rw [hat.files_eq, Function.update_of_ne hnew] at hf
      exact h.ne_map f ⟨file, hf, hs⟩
  · intro f file hf hs
    by_cases hnew : f = w.nextFile
    · obtain ⟨l, hc, -⟩ := h.ready.file.chain
      have hfile := hf
      rw [hnew, hat.files_eq, Function.update_self] at hfile
      cases hfile
      refine ⟨[], s, l, ⟨hf, hc, h.ready.file.ok s (by rw [hc]; simp), Or.inl (by rw [hat.disk_eq]),
        Nat.zero_le _⟩, fun _ => rfl, [], l, hc, List.prefix_rfl⟩
    · have hold := hf
      rw [hat.files_eq, Function.update_of_ne hnew] at hold
      obtain ⟨pre, x, post, hstand⟩ := h.standing f file hold hs
      have hview := hstand.view
      exact ⟨pre, x, post, ⟨hf, hview.chain_eq, hview.ok, by rw [hat.disk_eq]; exact hview.earlier,
        hview.seek_le⟩, hstand.first, hstand.behind⟩

/-- The object `f` has changed and nothing else. -/
theorem Ready.setFile (h : Ready w own m s c) (hf : f ≠ w.freeMapFile) (o : Option OpenFile) :
    Ready { w with files := Function.update w.files f o } own m s c where
  layout := h.layout
  marked := h.marked
  mapIs := h.mapIs
  mapFile := (FileStep.setFile f w o).mapFileOk hf h.mapFile
  start_ne := h.start_ne
  file := h.file
  full := h.full
  long := h.long
  mapFile_lt := h.mapFile_lt
  lock := h.lock

/-- A `Read` through one of the objects. -/
theorem Shared.read (h : Shared s w own m c) (hf : w.files f = some file) (hs : file.sector = s) {n : Nat}
    (hn : 0 < n) (hlt : file.seekPosition + n < 2 ^ 32) :
    ∃ bytes file', (Filesys.read f n false).run w = some (bytes, { w with
        files := Function.update w.files f (some file') }) ∧
      Shared s { w with files := Function.update w.files f (some file') } own m c := by
  obtain ⟨pre, x, post, hstand⟩ := h.standing f file hf hs
  have hchain := h.ready.file.readableChain h.ready.layout
  obtain ⟨pre', x', post', file', hrun, hview, hto⟩ := hstand.view.run_read hchain hn hlt
  have hopen : ∀ g, OpenOn s g { w with files := Function.update w.files f (some file') } → OpenOn s g w := by
    rintro g ⟨file1, hg, hs1⟩
    by_cases hgf : g = f
    · exact ⟨file, by rw [hgf, hf], hs⟩
    · exact ⟨file1, (Function.update_of_ne hgf _ _).symm.trans hg, hs1⟩
  refine ⟨_, file', hrun, h.ready.setFile (h.ne_map f ⟨file, hf, hs⟩) _, h.noEmptyEnd,
    fun g hg => h.ne_map g (hopen g hg), fun g hg => h.lock g (hopen g hg), fun g file1 hg hs1 => ?_⟩
  by_cases hgf : g = f
  · have hsame := hg
    rw [hgf] at hsame
    cases (Function.update_self f (some file') w.files).symm.trans hsame
    refine ⟨pre', x', post', by rw [hgf]; exact hview, fun hzero => ?_, ?_⟩
    · rcases hto.hdr_eq with ⟨hhdr, hx⟩ | hhdr
      · rw [hx]
        exact hstand.first (by rw [← hhdr]; exact hzero)
      · by_contra hne
        have hmem : x' ∈ c := by
          rw [hview.chain_eq]
          simp
        have hpos := pos_of_ne_start h.ready.file h.ready.full h.noEmptyEnd hmem hne
        rw [hhdr] at hzero
        omega
    · obtain ⟨pre0, post0, hc0, hpre⟩ := hstand.behind
      rw [hto.current_eq]
      exact ⟨pre0, post0, hc0, hpre.trans hto.isPrefix⟩
  · have hold := (Function.update_of_ne hgf (some file') w.files).symm.trans hg
    obtain ⟨pre1, x1, post1, hstand1⟩ := h.standing g file1 hold hs1
    have hview1 := hstand1.view
    exact ⟨pre1, x1, post1, ⟨hg, hview1.chain_eq, hview1.ok, hview1.earlier, hview1.seek_le⟩, hstand1.first,
      hstand1.behind⟩

/-- What is known after a `Write` of `data` through the object `f`. -/
structure SharedWrite (f : FileId) (s : Nat) (w : World) (c : List Nat) (data : List UInt8) (w' : World)
    (own' : Nat → Option Nat) (m' : Bitmap) (c' : List Nat) (file' : OpenFile) : Prop where
  ready : Ready w' own' m' s c'
  noEmptyEnd : NoEmptyEnd w'.disk s
  step : FileStep f w w'
  file_eq : w'.files f = some file'
  others : ∀ g file pre x post, g ≠ f → Standing s w c g file pre x post →
    ∃ post', Standing s w' c' g file pre x post'
  self : SectorsFor needOld f w data.length → ∃ pre x post, Standing s w' c' f file' pre x post

/-- An object stands where it stood when the headers of the file have grown. -/
theorem Standing.grown (h : Standing s w c f file pre x post) (hfile : FileOk w.disk own s c)
    (hfull : Full w.disk c) (hfile' : FileOk w'.disk own' s c')
    (hgrown : HeadersGrown s w.disk own w'.disk own') (hf : w'.files f = w.files f) :
    ∃ post', Standing s w' c' f file pre x post' := by
  obtain ⟨c1, hc1, ⟨more, hmore⟩, hheaders⟩ := hgrown c hfile
  rw [hc1.unique hfile'] at hmore
  have hview := h.view
  have hx : x ∈ c := by
    rw [hview.chain_eq]
    simp
  have hfullx : (hdrAt w.disk x).nextFileHeader ≠ 0 → (hdrAt w.disk x).numBytes = maxHeaderBytes := by
    intro hnext
    refine hfull pre x post hview.chain_eq ?_
    rintro rfl
    exact hnext (hfile.chain.next_of_append hview.chain_eq)
  obtain ⟨pre0, post0, hc0, hpre⟩ := h.behind
  refine ⟨post ++ more, ⟨hf.trans hview.file_eq, ?_, hview.ok, ?_, hview.seek_le⟩, h.first, pre0, post0 ++ more,
    ?_, hpre⟩
  · rw [← hmore, hview.chain_eq]
    simp
  · refine hview.earlier.grown (hheaders x hx) (hfile.ok x hx) (hfile'.ok x ?_) hfullx
    rw [← hmore]
    exact List.mem_append_left _ hx
  · rw [← hmore, hc0]
    simp

/-- A header behind the first one is not empty after a `Write` either. -/
theorem Written.noEmptyEnd {pre0 post0 : List Nat} {x0 seek r : Nat} {data : List UInt8} {file' : OpenFile}
    (hw : Written f s file pre0 x0 post0 seek data w own m c' file' w' own' m' r)
    (hfile : FileOk w.disk own s (pre0 ++ x0 :: post0)) (hend : NoEmptyEnd w.disk s) : NoEmptyEnd w'.disk s := by
  intro pre last hchain hpre
  have hc' := hw.inv.file.chain.unique hchain
  by_cases hsame : c' = pre0 ++ x0 :: post0
  · have hold : HeaderChain w.disk s (pre ++ [last]) := by
      rw [← hc', hsame]
      exact hfile.chain
    obtain ⟨c1, -, -, hheaders⟩ := hw.step.headers _ hfile
    have hmem : last ∈ pre0 ++ x0 :: post0 := by
      rw [← hsame, hc']
      simp
    exact Nat.lt_of_lt_of_le (hend pre last hold hpre) (hheaders last hmem).numBytes_le
  · obtain ⟨pre1, last1, hc1, hpos⟩ := hw.last_pos hsame
    rw [hc1] at hc'
    obtain ⟨-, hlast⟩ := List.append_inj' hc' rfl
    rw [← (List.cons.inj hlast).1]
    exact hpos

/-- A `Write` through one of the objects. -/
theorem Shared.run_write (h : Shared s w own m c) (me : Tid) (hf : w.files f = some file) (hs : file.sector = s)
    {data : List UInt8} (hdata : data ≠ []) :
    ∃ r w' own' m' c' file', (Filesys.write me f data false).run w = some (r, w') ∧
      SharedWrite f s w c data w' own' m' c' file' := by
  have hready := h.ready
  obtain ⟨l, hl, hfree⟩ := h.lock f ⟨file, hf, hs⟩
  obtain ⟨pre, x, post, hstand⟩ := h.standing f file hf hs
  obtain ⟨pre0, post0, hc, hseek⟩ := hstand.seek_le_current hready.full
  have hok := hready.file.ok file.currentSector (by rw [hc]; simp)
  have hinv : WriteInv w own m f s (pre0 ++ file.currentSector :: post0) :=
    ⟨hready.layout, hready.marked, hready.mapIs, hready.mapFile, h.ne_map f ⟨file, hf, hs⟩, hready.start_ne,
      by rw [← hc]; exact hready.file⟩
  have hsec : file.sector < numSectors := by
    rw [hs]
    exact hinv.header_lt hinv.file.chain.start_mem
  obtain ⟨w', own', m', c', file', r, hrun, hw⟩ := Filesys.run_write me false hinv hf rfl rfl
    (Nat.le_trans hseek hok.numBytes_le) hsec (by rw [hs]; exact hl) hfree hdata
  obtain ⟨hfull', pre', post', hc', hcur'⟩ := hw.move (by rw [← hc]; exact hready.full) _ _ ⟨rfl, rfl, hseek⟩
  have hlong := hw.long ⟨rfl, rfl, hseek⟩ hfull' hcur' hc' (by rw [← hc]; exact hready.long)
  have hend := hw.noEmptyEnd hinv.file h.noEmptyEnd
  have hstep := hw.step.world
  refine ⟨r, w', own', m', c', file', hrun, ⟨⟨hw.inv.layout, hw.inv.marked, hw.inv.mapIs, hw.inv.mapFile,
    hready.start_ne, hw.inv.file, hfull', hlong, ?_, ?_⟩, hend, hstep, hw.file_eq, ?_, ?_⟩⟩
  · rw [hstep.freeMapFile_eq, hstep.nextFile_eq]
    exact hready.mapFile_lt
  · exact Or.inr ⟨l, by rw [hstep.table_eq]; exact hl, by rw [hstep.locks_eq]; exact hfree⟩
  · intro g fileg preg xg postg hg hstandg
    exact hstandg.grown hready.file hready.full hw.inv.file hw.step.headers (hstep.files_eq g hg)
  · rintro ⟨file1, m1, pre1, post1, hf1, hm1, hchain1, hle⟩
    rw [hf] at hf1
    cases hf1
    rw [hs] at hchain1
    have hpost : post0 = post1 :=
      (hinv.file.chain.next_of_append rfl).unique (hchain1.next_of_append rfl)
    have hfresh := hw.fresh (by rw [hpost, hready.mapIs.unique hm1]; exact hle)
    have hmem : file'.currentSector ∈ c' := by
      rw [hc']
      simp
    refine ⟨pre', file'.currentSector, post', ⟨hw.file_eq, hc', ?_, Or.inl hfresh, ?_⟩, fun hzero => ?_, pre', post',
      hc', List.prefix_rfl⟩
    · rw [hfresh]
      exact hw.inv.file.ok _ hmem
    · rw [hfresh]
      exact hcur'.le
    · by_contra hne
      have hpos := pos_of_ne_start hw.inv.file hfull' hend hmem hne
      rw [hfresh] at hzero
      omega

/-- A `Write` that finds the sectors to extend the headers that the file has. -/
theorem SharedWrite.shared {data : List UInt8} {file' : OpenFile}
    (h : SharedWrite f s w c data w' own' m' c' file') (h0 : Shared s w own m c) (hf : OpenOn s f w)
    (hneed : SectorsFor needOld f w data.length) : Shared s w' own' m' c' := by
  have hopen : ∀ g, OpenOn s g w' → OpenOn s g w := by
    rintro g ⟨file1, hg, hs1⟩
    by_cases hgf : g = f
    · rw [hgf]
      exact hf
    · exact ⟨file1, (h.step.files_eq g hgf).symm.trans hg, hs1⟩
  refine ⟨h.ready, h.noEmptyEnd, fun g hg => ?_, fun g hg => ?_, fun g file1 hg hs1 => ?_⟩
  · rw [h.step.freeMapFile_eq]
    exact h0.ne_map g (hopen g hg)
  · rw [h.step.table_eq, h.step.locks_eq]
    exact h0.lock g (hopen g hg)
  · by_cases hgf : g = f
    · rw [hgf] at hg ⊢
      cases h.file_eq.symm.trans hg
      exact h.self hneed
    · obtain ⟨pre, x, post, hstand⟩ := h0.standing g file1 ((h.step.files_eq g hgf).symm.trans hg) hs1
      obtain ⟨post', hstand'⟩ := h.others g file1 pre x post hgf hstand
      exact ⟨pre, x, post', hstand'⟩

/-! ## Runs -/

/-- Every use of the file keeps it in order. -/
theorem Shared.step (h : Shared s w own m c) {use : Use} (hproper : ProperUse s w use)
    (hstep : useStep s w use = some w') : ∃ own' m' c', Shared s w' own' m' c' := by
  cases use with
  | «open» =>
    obtain ⟨w1, hrun, hat⟩ := run_newOpenFile
      (h.ready.layout.lt s s (h.ready.file.own_of_mem h.ready.file.chain.start_mem)) w
    rw [useStep, hrun] at hstep
    cases hstep
    exact ⟨own, m, c, h.opened hat⟩
  | call me f call =>
    obtain ⟨⟨file, hf, hs⟩, hextend, hwrap⟩ := hproper
    cases call with
    | seek position => exact absurd hextend fun hfalse => hfalse
    | read numBytes =>
      by_cases hn : 0 < numBytes.toNat
      · obtain ⟨bytes, file', hrun, hshared⟩ := h.read hf hs hn (hwrap file hf)
        rw [useStep, callStep, Call.code, run_bind, hrun] at hstep
        cases hstep
        exact ⟨own, m, c, hshared⟩
      · rw [useStep, callStep, Call.code, Filesys.read, run_bind, run_bind, run_assert, decide_eq_false hn] at hstep
        cases hstep
    | write data =>
      by_cases hdata : data = []
      · rw [hdata, useStep, callStep, Call.code, Filesys.write, run_bind, run_bind, run_assert] at hstep
        cases hstep
      · obtain ⟨r, w1, own', m', c', file', hrun, hw⟩ := h.run_write me hf hs hdata
        rw [useStep, callStep, Call.code, run_bind, hrun] at hstep
        cases hstep
        exact ⟨own', m', c', hw.shared h ⟨file, hf, hs⟩ hextend⟩

/-- A file in order that is not open. -/
theorem FileReady.shared (h : FileReady w s) (hend : NoEmptyEnd w.disk s) (hclosed : ∀ f, ¬ OpenOn s f w) :
    ∃ own m c, Shared s w own m c := by
  obtain ⟨own, m, c, hready⟩ := h
  exact ⟨own, m, c, hready, hend, fun f hf => absurd hf (hclosed f), fun f hf => absurd hf (hclosed f),
    fun f file hf hs => absurd ⟨file, hf, hs⟩ (hclosed f)⟩

theorem FileReady.shared_of_runs {uses : List Use} (h : FileReady w s) (hend : NoEmptyEnd w.disk s)
    (hclosed : ∀ f, ¬ OpenOn s f w) (hruns : runs (useStep s) w uses = some w')
    (hproper : AllSteps (useStep s) (ProperUse s) w uses) : ∃ own m c, Shared s w' own m c := by
  have hstep : ∀ w1 use w2, (∃ own m c, Shared s w1 own m c) → ProperUse s w1 use →
      useStep s w1 use = some w2 → ∃ own m c, Shared s w2 own m c := by
    rintro w1 use w2 ⟨own, m, c, hshared⟩ hp hs
    exact hshared.step hp hs
  exact runs_inv hstep (h.shared hend hclosed) hproper hruns

end Shared

/-! ## Two objects on a small disk -/

section Sample

theorem smallFile_noEmptyEnd : NoEmptyEnd smallWorld.disk 3 := by
  intro pre last hchain hpre
  have hc := smallFile_ready.file.chain.unique hchain
  cases pre with
  | nil => exact absurd rfl hpre
  | cons y pre =>
    have hlen := congrArg List.length hc
    simp at hlen

theorem smallFile_closed (f : FileId) : ¬ OpenOn 3 f smallWorld := by
  rintro ⟨file, hf, hs⟩
  by_cases hzero : f = 0
  · rw [hzero] at hf
    cases hf
    cases hs
  · have hnone : smallWorld.files f = none := by
      show Function.update (fun _ => none) 0 _ f = none
      rw [Function.update_of_ne hzero]
    rw [hnone] at hf
    cases hf

/-- The file is opened twice. -/
theorem smallFile_opened_twice : ∃ w, runs (useStep 3) smallWorld [.open, .open] = some w ∧
    OpenOn 3 1 w ∧ OpenOn 3 2 w := by
  obtain ⟨w1, hrun1, hat1⟩ := run_newOpenFile (s := 3) (by decide) smallWorld
  obtain ⟨w2, hrun2, hat2⟩ := run_newOpenFile (s := 3) (by decide) w1
  have hnext : smallWorld.nextFile = 1 := rfl
  have hnext1 : w1.nextFile = 2 := by rw [hat1.nextFile_eq, hnext]
  refine ⟨w2, ?_, ?_, ?_⟩
  · simp only [runs, useStep, hrun1, hrun2, Option.map_some, Option.bind_some]
  · refine ⟨{ hdr := hdrAt smallWorld.disk 3, seekPosition := 0, sector := 3, currentSector := 3 }, ?_, rfl⟩
    rw [hat2.files_eq, hnext1, Function.update_of_ne (by decide), hat1.files_eq, hnext, Function.update_self]
  · refine ⟨{ hdr := hdrAt w1.disk 3, seekPosition := 0, sector := 3, currentSector := 3 }, ?_, rfl⟩
    rw [hat2.files_eq, hnext1, Function.update_self]

end Sample

end Nachos.Filesys
