import Nachos.Filesys.ByteFile
import Nachos.Filesys.Proofs.ReadProofs

/-!
# Proofs: handles

The handle of an open file stands at a header of the file and at a position under it. What a fresh one
reads is the content of the file, and `Write` leaves a handle behind that stands where it stopped.
-/

namespace Nachos.Filesys

open Foundations Resumption

/-! ## Contents -/

section Contents

variable {w : World} {d : Disk} {own : Nat → Option Nat} {s : Nat} {c : List Nat} {bytes : List UInt8}

theorem length_content_le (h : ∀ x ∈ c, (hdrAt d x).Ok) :
    (content d c).length ≤ c.length * maxHeaderBytes := by
  induction c with
  | nil => simp [content]
  | cons x c ih =>
    have hx := (h x (List.mem_cons_self ..))
    have := ih fun y hy => h y (List.mem_cons_of_mem x hy)
    rw [content_cons, List.length_append, length_dataBytes hx, List.length_cons, Nat.succ_mul]
    have := hx.numBytes_le
    omega

theorem length_content_lt (h : ReadableChain d c) : (content d c).length < 2 ^ 32 - 1 := by
  have h1 := length_content_le h.ok
  have h2 := Nat.mul_le_mul_right maxHeaderBytes h.length_le
  have h3 : numSectors * maxHeaderBytes < 2 ^ 32 - 1 := by decide
  omega

/-- The cursor of a fresh `OpenFile`. -/
theorem Cursor.start (d : Disk) (s : Nat) (l : List Nat) : Cursor d [] s l 0 [] (content d (s :: l)) :=
  ⟨rfl, by rw [List.drop_zero, content_cons], Nat.zero_le _⟩

/-- A fresh `OpenFile` reads the content of the file from the beginning. -/
theorem run_readFresh (hlayout : Layout w.disk own) (hfile : FileOk w.disk own s c) {n : Nat}
    (hn : 0 < n) (hlt : n < 2 ^ 32) :
    (do let f ← newOpenFile s; read f n false).Returns w fun bs _ =>
      bs = (content w.disk c).take n := by
  have hchain := hfile.readableChain hlayout
  obtain ⟨w1, hopen, hat⟩ := run_newOpenFile (hchain.lt s hfile.chain.start_mem) w
  obtain ⟨l, hc, -⟩ := hfile.chain
  have hf1 : w1.files w.nextFile = some
      { hdr := hdrAt w.disk s, seekPosition := 0, sector := s, currentSector := s } := by
    rw [hat.files_eq]
    exact Function.update_self ..
  rw [← hat.disk_eq] at hchain
  obtain ⟨pre', x', post', seek', hrun, -⟩ := run_read hchain (show c = [] ++ s :: l from hc) hf1
    (by rw [hat.disk_eq]) (Cursor.start w1.disk s l) hn (by show 0 + n < 2 ^ 32; omega)
  refine Returns.bind_run hopen ⟨_, _, hrun, ?_⟩
  rw [hc, hat.disk_eq]

/-- What sequential `Read`s from a fresh `OpenFile` return is the content of the file. -/
theorem contents_iff (hlayout : Layout w.disk own) (hfile : FileOk w.disk own s c) :
    Contents w s bytes ↔ bytes = content w.disk c := by
  have hshort := length_content_lt (hfile.readableChain hlayout)
  constructor
  · intro h
    obtain ⟨bs, w1, hrun, hbs⟩ := h (UInt32.ofNat (2 ^ 32 - 1)) (by decide)
    have hval : (UInt32.ofNat (2 ^ 32 - 1)).toNat = 2 ^ 32 - 1 := by decide
    rw [hval] at hrun hbs
    have hread := (run_readFresh hlayout hfile (n := 2 ^ 32 - 1) (by decide) (by decide)).ensures bs w1 hrun
    rw [hbs, List.take_of_length_le (Nat.le_of_lt hshort)] at hread
    rw [← hread]
    have hlen := congrArg List.length hread
    rw [List.length_take] at hlen
    exact (List.take_of_length_le (by omega)).symm
  · rintro rfl n hn
    exact run_readFresh hlayout hfile (by simpa using UInt32.lt_iff_toNat_lt.mp hn) n.toNat_lt

/-- All headers in front of the last one are full. -/
theorem length_content_full {pre post : List Nat} (hok : ∀ x ∈ c, (hdrAt d x).Ok) (hfull : Full d c)
    (hc : c = pre ++ post) (hpost : post ≠ []) :
    (content d pre).length = pre.length * maxHeaderBytes := by
  have hnb : ∀ x ∈ pre, (dataBytes d (hdrAt d x)).length = maxHeaderBytes := by
    intro x hx
    rw [length_dataBytes (hok x (by rw [hc]; exact List.mem_append_left _ hx))]
    obtain ⟨a, b, rfl⟩ := List.append_of_mem hx
    exact hfull a x (b ++ post) (by rw [hc]; simp) (by simp [hpost])
  clear hc
  induction pre with
  | nil => simp [content]
  | cons x pre ih =>
    rw [content_cons, List.length_append, hnb x (List.mem_cons_self ..),
      ih fun y hy => hnb y (List.mem_cons_of_mem x hy), List.length_cons, Nat.succ_mul, Nat.add_comm]

end Contents

/-! ## Handles -/

/-- The object `f` stands at the header `x` of the file `s`; the next `Write` goes on at a header that
is not behind `x`. -/
structure Handle (f : FileId) (s : Nat) (w : World) (own : Nat → Option Nat) (m : Bitmap)
    (c pre : List Nat) (x : Nat) (post : List Nat) (file : OpenFile) : Prop where
  inv : WriteInv w own m f s c
  full : Full w.disk c
  long : 1 < c.length → maxHeaderBytes < (content w.disk c).length
  file_eq : w.files f = some file
  sector_eq : file.sector = s
  lock : ∃ l, (w.table s).writeLock = some l ∧ w.locks l = some { lockOwner := none }
  chain_eq : c = pre ++ x :: post
  hdr_eq : file.hdr = hdrAt w.disk x
  behind : ∃ pre0 post0, c = pre0 ++ file.currentSector :: post0 ∧ pre0 <+: pre

section Opened

variable {w w' : World} {own : Nat → Option Nat} {m : Bitmap} {s : Nat} {c : List Nat}

/-- The write lock of a file that has just been opened is free, if it was. -/
theorem OpenedAt.lock_free (hat : OpenedAt s w w') (h : (w.table s).count = 0 ∨
      ∃ l, (w.table s).writeLock = some l ∧ w.locks l = some { lockOwner := none }) :
    ∃ l, (w'.table s).writeLock = some l ∧ w'.locks l = some { lockOwner := none } := by
  rcases hat.lock with ⟨-, hlock⟩ | ⟨hcount, hlock, hlocks⟩
  · exact hlock
  · obtain ⟨l, hl, hfree⟩ := h.resolve_left hcount
    exact ⟨l, by rw [hlock, hl], by rw [hlocks, hfree]⟩

/-- Opening the file once more. -/
theorem Ready.opened (h : Ready w own m s c) (hat : OpenedAt s w w') : Ready w' own m s c := by
  have hmap : MapFileOk w' := by
    obtain ⟨file, hfile, hmh⟩ := h.mapFile
    refine ⟨file, ?_, hmh⟩
    rw [hat.freeMapFile_eq, hat.files_eq, Function.update_of_ne (Nat.ne_of_lt h.mapFile_lt)]
    exact hfile
  refine ⟨?_, h.marked, ?_, hmap, h.start_ne, ?_, ?_, ?_, ?_, ?_⟩
  · rw [hat.disk_eq]
    exact h.layout
  · rw [hat.disk_eq]
    exact h.mapIs
  · rw [hat.disk_eq]
    exact h.file
  · rw [hat.disk_eq]
    exact h.full
  · rw [hat.disk_eq]
    exact h.long
  · rw [hat.freeMapFile_eq, hat.nextFile_eq]
    exact Nat.lt_succ_of_lt h.mapFile_lt
  · exact Or.inr (hat.lock_free h.lock)

/-- The object that the constructor makes. -/
theorem Ready.handle (h : Ready w own m s c) (hat : OpenedAt s w w') :
    ∃ l, c = s :: l ∧ Handle w.nextFile s w' own m c [] s l
      { hdr := hdrAt w.disk s, seekPosition := 0, sector := s, currentSector := s } := by
  obtain ⟨l, hc, -⟩ := h.file.chain
  have hopened := h.opened hat
  refine ⟨l, hc, ⟨⟨hopened.layout, h.marked, hopened.mapIs, hopened.mapFile, ?_, h.start_ne, hopened.file⟩,
    hopened.full, hopened.long, ?_, rfl, hat.lock_free h.lock, hc, by rw [hat.disk_eq], [], l, hc,
    List.prefix_rfl⟩⟩
  · rw [hat.freeMapFile_eq]
    exact Nat.ne_of_gt h.mapFile_lt
  · rw [hat.files_eq]
    exact Function.update_self ..

end Opened

namespace Handle

variable {f : FileId} {s : Nat} {w : World} {own : Nat → Option Nat} {m : Bitmap} {c pre post : List Nat}
  {x : Nat} {file : OpenFile}

theorem readableChain (h : Handle f s w own m c pre x post file) : ReadableChain w.disk c :=
  h.inv.file.readableChain h.inv.layout

theorem mem (h : Handle f s w own m c pre x post file) : x ∈ c := by rw [h.chain_eq]; simp

theorem contents_iff (h : Handle f s w own m c pre x post file) {bytes : List UInt8} :
    Contents w s bytes ↔ bytes = content w.disk c :=
  Filesys.contents_iff h.inv.layout h.inv.file

/-- A file that fits in one header has one. -/
theorem single (h : Handle f s w own m c pre x post file)
    (hlen : (content w.disk c).length ≤ maxHeaderBytes) :
    c = [s] ∧ pre = [] ∧ x = s ∧ post = [] := by
  obtain ⟨l, hc, -⟩ := h.inv.file.chain
  have hl : l = [] := by
    by_contra hne
    have hpos := List.length_pos_iff.mpr hne
    have := h.long (by rw [hc, List.length_cons]; omega)
    omega
  subst hl
  have hce := h.chain_eq
  rw [hc] at hce
  cases pre with
  | nil =>
    obtain ⟨rfl, rfl⟩ := List.cons.inj hce
    exact ⟨hc, rfl, rfl, rfl⟩
  | cons y pre =>
    have := congrArg List.length hce
    simp at this

/-- Another position under a header from `x` on, with the rest of the state as it was. -/
theorem move (h : Handle f s w own m c pre x post file) {pre' post' : List Nat} {x' : Nat}
    (hc : c = pre' ++ x' :: post') (hpre : pre <+: pre') (seek' : Nat) :
    Handle f s { w with
        files := Function.update w.files f
          (some (file.at (hdrAt w.disk x') file.currentSector seek')) } own m c pre' x' post'
      (file.at (hdrAt w.disk x') file.currentSector seek') where
  inv := h.inv.setFile _
  full := h.full
  long := h.long
  file_eq := Function.update_self ..
  sector_eq := h.sector_eq
  lock := h.lock
  chain_eq := hc
  hdr_eq := rfl
  behind := by
    obtain ⟨pre0, post0, h1, h2⟩ := h.behind
    exact ⟨pre0, post0, h1, h2.trans hpre⟩

end Handle

/-- The free map on a disk is one bitmap. -/
theorem MapIs.unique {d : Disk} {m m' : Bitmap} (h : MapIs d m) (h' : MapIs d m') : m = m' := by
  have hnew : (Bitmap.new numSectors fun _ => 0).numBits = numSectors := Bitmap.numBits_new _ _
  rw [← overlayMap_mapBytes (hnew.trans h.numBits_eq.symm), ← h.bytes_eq, h'.bytes_eq,
    overlayMap_mapBytes (hnew.trans h'.numBits_eq.symm)]

/-- The headers of a file differ, as what follows them does. -/
theorem FileOk.hdr_inj {d : Disk} {own : Nat → Option Nat} {s x y : Nat} {c : List Nat}
    (h : FileOk d own s c) (hx : x ∈ c) (hy : y ∈ c) (heq : hdrAt d x = hdrAt d y) : x = y := by
  obtain ⟨pre, post, hc⟩ := List.append_of_mem hx
  obtain ⟨pre', post', hc'⟩ := List.append_of_mem hy
  have hpost : post = post' := by
    have h1 := h.chain.next_of_append hc
    have h2 := h.chain.next_of_append hc'
    rw [heq] at h1
    exact h1.unique h2
  rw [hpost] at hc
  have happ := hc.symm.trans hc'
  exact (List.cons.inj (List.append_inj' happ rfl).2).1

/-- A file with a second header does not fit in one: either it has grown within its headers, or the new last
header is not empty. -/
theorem Written.long {f : FileId} {s : Nat} {w w' : World} {own own' : Nat → Option Nat} {m m' : Bitmap}
    {c' pre pre' post post' : List Nat} {x x' seek seek' r : Nat} {file file' : OpenFile} {data A B : List UInt8}
    (hw : Written f s file pre x post seek data w own m c' file' w' own' m' r)
    (hcur : Cursor w.disk pre x post seek A B) (hfull' : Full w'.disk c')
    (hcur' : Cursor w'.disk pre' x' post' seek' (A ++ data.take r) (B.drop r)) (hc' : c' = pre' ++ x' :: post')
    (hlong0 : 1 < (pre ++ x :: post).length → maxHeaderBytes < (content w.disk (pre ++ x :: post)).length)
    (hlong : 1 < c'.length) : maxHeaderBytes < (content w'.disk c').length := by
  by_cases hsame : c' = pre ++ x :: post
  · have hlen := congrArg List.length hcur'.content_eq
    have hlen0 := congrArg List.length hcur.content_eq
    have hlong1 := hlong0 (by rw [← hsame]; exact hlong)
    have hle := hw.le
    rw [← hc'] at hlen
    simp only [List.length_append, List.length_take, List.length_drop] at hlen hlen0
    omega
  · obtain ⟨pre1, last, hc1, hpos⟩ := hw.last_pos hsame
    have hlast : (hdrAt w'.disk last).Ok := hw.inv.file.ok last (by rw [hc1]; simp)
    have hlen := length_content_full hw.inv.file.ok hfull' hc1 (by simp)
    have hpre1 : 1 ≤ pre1.length := by
      rw [hc1, List.length_append, List.length_singleton] at hlong
      omega
    have hmul := Nat.mul_le_mul_right maxHeaderBytes hpre1
    rw [hc1, content_append, List.length_append, hlen, content_cons, List.length_append,
      length_dataBytes hlast]
    omega

namespace Handle

variable {f : FileId} {s : Nat} {w : World} {own : Nat → Option Nat} {m : Bitmap} {c pre post : List Nat}
  {x : Nat} {file : OpenFile} {data A B : List UInt8}

/-- The header in memory says which one it is. -/
theorem eq_of_headerIs (h : Handle f s w own m c pre x post file) {current : OpenFile → Nat}
    (his : HeaderIs current f w) (hmem : current file ∈ c) : current file = x := by
  obtain ⟨file', hf, hhdr⟩ := his
  rw [h.file_eq] at hf
  obtain rfl := Option.some.inj hf
  exact h.inv.file.hdr_inj hmem h.mem (hhdr.symm.trans h.hdr_eq)

/-- The free sectors that a `Write` finds. -/
theorem sectors_le (h : Handle f s w own m c pre x post file)
    {need : Disk → Nat → List Nat → Nat → Nat → Nat} {n : Nat} (hs : SectorsFor need f w n)
    {pre0 post0 : List Nat} (hc : c = pre0 ++ file.currentSector :: post0) :
    need w.disk file.currentSector post0 file.seekPosition n ≤ m.countClear := by
  obtain ⟨file', m', pre', post', hf, hm, hchain, hle⟩ := hs
  rw [h.file_eq] at hf
  obtain rfl := Option.some.inj hf
  rw [h.sector_eq] at hchain
  have hpost : post0 = post' :=
    (h.inv.file.chain.next_of_append hc).unique (hchain.next_of_append rfl)
  rw [hpost, h.inv.mapIs.unique hm]
  exact hle

/-- A `Write` under a position that splits the content. -/
theorem write (me : Tid) (h : Handle f s w own m c pre x post file) {pre0 post0 : List Nat}
    (hc : c = pre0 ++ file.currentSector :: post0)
    (hcur : Cursor w.disk pre0 file.currentSector post0 file.seekPosition A B) (hdata : data ≠ [])
    (hold : needOld w.disk file.currentSector post0 file.seekPosition data.length ≤ m.countClear) :
    ∃ r w' own' m' c' pre' x' post' file', (Filesys.write me f data false).run w = some (r, w') ∧
      Handle f s w' own' m' c' pre' x' post' file' ∧
      Cursor w'.disk pre' x' post' file'.seekPosition (A ++ data.take r) (B.drop r) ∧
      (needWrite w.disk file.currentSector post0 file.seekPosition data.length ≤ m.countClear →
        r = data.length) := by
  obtain ⟨l, hl, hfree⟩ := h.lock
  have hsec : file.sector < numSectors := by
    rw [h.sector_eq]
    exact h.inv.header_lt h.inv.file.chain.start_mem
  have hseek : file.seekPosition ≤ maxHeaderBytes :=
    Nat.le_trans hcur.le (h.inv.file.ok _ (by rw [hc]; simp)).numBytes_le
  have hinv := h.inv
  rw [hc] at hinv
  obtain ⟨w', own', m', c', file', r, hrun, hw⟩ := run_write me false hinv h.file_eq
    rfl rfl hseek hsec (by rw [h.sector_eq]; exact hl) hfree hdata
  obtain ⟨hfull', pre', post', hc', hcur'⟩ := hw.move (by rw [← hc]; exact h.full) A B hcur
  refine ⟨r, w', own', m', c', pre', file'.currentSector, post', file', hrun, ?_, hcur', hw.room⟩
  refine ⟨hw.inv, hfull', ?_, hw.file_eq, hw.sector_eq.trans h.sector_eq, ⟨l, ?_, ?_⟩, hc',
    hw.fresh hold, ⟨pre', post', hc', List.prefix_rfl⟩⟩
  · exact hw.long hcur hfull' hcur' hc' (by rw [← hc]; exact h.long)
  · rw [hw.step.world.table_eq]
    exact hl
  · rw [hw.step.world.locks_eq]
    exact hfree

end Handle

/-! ## A small disk -/

section Sample

/-- A free map in which the sectors 0 to 3 are taken. -/
def smallMap : Bitmap := ((((Bitmap.new numSectors fun _ => 0).mark 0).mark 1).mark 2).mark 3

/-- The header of the free-map file. -/
def mapHeader : RawFileHeader where
  numBytes := sectorSize
  numSectors := 1
  dataSectors := freeMapDataSector :: List.replicate 28 0
  nextFileHeader := 0
  length_dataSectors := rfl

/-- A disk with the free map and an empty file at sector 3. -/
def smallDisk : Disk := fun x =>
  if x = 0 then mapHeader.toSector
  else if x = freeMapDataSector then Sector.ofBytes (mapBytes smallMap)
  else if x = 3 then (RawFileHeader.empty fun _ => 0).toSector
  else Sector.ofBytes []

/-- A system with this disk, in which only the free-map file is open. -/
def smallWorld : World :=
  { World.initial smallDisk fun _ _ _ => 0 with
    files := Function.update (fun _ => none) 0
      (some { hdr := mapHeader, seekPosition := 0, sector := 0, currentSector := 0 })
    nextFile := 1 }

theorem mapHeader_hdrAt : hdrAt smallDisk 0 = mapHeader := by
  rw [hdrAt, smallDisk, if_pos rfl]
  exact RawFileHeader.ofSector_toSector (RawFileHeader.fits_iff.mpr (by decide))

theorem smallFile_hdrAt : hdrAt smallDisk 3 = RawFileHeader.empty fun _ => 0 := by
  rw [hdrAt, smallDisk, if_neg (by decide), if_neg (by decide), if_pos rfl]
  exact RawFileHeader.ofSector_toSector (RawFileHeader.fits_empty _)

theorem smallMap_numBits : smallMap.numBits = numSectors :=
  (Bitmap.firstMarked_marks (k := 4) (n := numSectors) (fun _ => 0) (by decide)).1

theorem smallMap_firstMarked : smallMap.FirstMarked 4 :=
  (Bitmap.firstMarked_marks (k := 4) (n := numSectors) (fun _ => 0) (by decide)).2

theorem smallMap_test {x : Nat} (hx : x < 4) : smallMap.test x = true :=
  smallMap_firstMarked.test_of_lt (by rw [smallMap_numBits]; decide) hx

/-- Four of the 1024 sectors of the small disk are in use. -/
theorem smallMap_countClear : smallMap.countClear = 1020 := by
  rw [smallMap_firstMarked.countClear_eq, smallMap_numBits]
  rfl

theorem smallMap_mapIs : MapIs smallDisk smallMap where
  numBits_eq := smallMap_numBits
  bytes_eq := by
    have hlen := length_mapBytes smallMap_numBits
    rw [smallDisk, if_neg (by decide), if_pos rfl, Sector.bytes_ofBytes (Nat.le_of_eq hlen.symm), ← hlen, List.take_length]

/-- Who owns the sectors of the small disk. -/
def smallOwner (x : Nat) : Option Nat :=
  if x = 0 ∨ x = freeMapDataSector then some 0 else if x = 3 then some 3 else none

theorem smallOwner_cases {x t : Nat} (h : smallOwner x = some t) :
    (x = 0 ∨ x = freeMapDataSector) ∧ t = 0 ∨ x = 3 ∧ t = 3 := by
  unfold smallOwner at h
  split at h
  · exact Or.inl ⟨‹_›, (Option.some.inj h).symm⟩
  · split at h
    · exact Or.inr ⟨‹_›, (Option.some.inj h).symm⟩
    · cases h

theorem smallMap_fileOk : FileOk smallDisk smallOwner 0 [0] where
  chain := ⟨[], rfl, by rw [mapHeader_hdrAt]; rfl⟩
  ok := by
    intro x hx
    rw [List.mem_singleton] at hx
    rw [hx, mapHeader_hdrAt]
    exact ⟨rfl, by decide⟩
  nodup := by
    rw [sectorsOf_cons, mapHeader_hdrAt]
    decide
  own_iff := by
    intro x
    rw [sectorsOf_cons, mapHeader_hdrAt]
    constructor
    · intro h
      rcases smallOwner_cases h with ⟨rfl | rfl, -⟩ | ⟨-, h3⟩
      · decide
      · decide
      · cases h3
    · intro h
      have hx : x = 0 ∨ x = freeMapDataSector := by
        simpa [sectorsOf, RawFileHeader.dataOf, mapHeader] using h
      rw [smallOwner, if_pos hx]

theorem smallFile_fileOk : FileOk smallDisk smallOwner 3 [3] where
  chain := ⟨[], rfl, by rw [smallFile_hdrAt]; rfl⟩
  ok := by
    intro x hx
    rw [List.mem_singleton] at hx
    rw [hx, smallFile_hdrAt]
    exact RawFileHeader.ok_empty _
  nodup := by
    rw [sectorsOf_cons, smallFile_hdrAt, RawFileHeader.dataOf_empty]
    decide
  own_iff := by
    intro x
    rw [sectorsOf_cons, smallFile_hdrAt, RawFileHeader.dataOf_empty]
    constructor
    · intro h
      rcases smallOwner_cases h with ⟨-, h3⟩ | ⟨rfl, -⟩
      · cases h3
      · decide
    · intro h
      have hx : x = 3 := by simpa [sectorsOf] using h
      rw [hx]
      decide

theorem smallDisk_layout : Layout smallDisk smallOwner where
  files := by
    intro x t h
    rcases smallOwner_cases h with ⟨-, rfl⟩ | ⟨-, rfl⟩
    · exact ⟨[0], smallMap_fileOk⟩
    · exact ⟨[3], smallFile_fileOk⟩
  lt := by
    intro x t h
    rcases smallOwner_cases h with ⟨rfl | rfl, -⟩ | ⟨rfl, -⟩ <;> decide
  own_zero := rfl
  mapHeader := by
    rw [mapHeader_hdrAt]
    exact ⟨rfl, rfl, rfl, rfl⟩

theorem smallFile_ready : Ready smallWorld smallOwner smallMap 3 [3] where
  layout := smallDisk_layout
  marked := by
    intro x t h
    rcases smallOwner_cases h with ⟨rfl | rfl, -⟩ | ⟨rfl, -⟩ <;> exact smallMap_test (by decide)
  mapIs := smallMap_mapIs
  mapFile := ⟨_, rfl, rfl, rfl, rfl, rfl⟩
  start_ne := by decide
  file := smallFile_fileOk
  full := by
    intro pre x post hc hpost
    have := congrArg List.length hc
    have := List.length_pos_iff.mpr hpost
    simp at *
    omega
  long := fun h => absurd h (by decide)
  mapFile_lt := by decide
  lock := Or.inl rfl

theorem smallFile_fileReady : FileReady smallWorld 3 := ⟨_, _, _, smallFile_ready⟩

/-- The file of the small disk can be opened. -/
theorem smallFile_opened : ∃ w, (newOpenFile 3).run smallWorld = some (1, w) := by
  obtain ⟨w, hopen, -⟩ := run_newOpenFile (s := 3) (by decide) smallWorld
  exact ⟨w, hopen⟩

variable {w : World}

theorem smallFile_openedAt (hopen : (newOpenFile 3).run smallWorld = some (1, w)) :
    OpenedAt 3 smallWorld w := by
  obtain ⟨w1, hrun, hat⟩ := run_newOpenFile (s := 3) (by decide) smallWorld
  rw [hopen] at hrun
  cases hrun
  exact hat

theorem smallFile_contents (hopen : (newOpenFile 3).run smallWorld = some (1, w)) :
    Contents w 3 [] := by
  have h := smallFile_openedAt hopen
  obtain ⟨l, -, hh⟩ := smallFile_ready.handle h
  refine hh.contents_iff.mpr ?_
  rw [h.disk_eq]
  show [] = content smallDisk [3]
  rw [content_cons, smallFile_hdrAt]
  rfl

/-- The first `Write` on the opened file, with any number of bytes that the disk has room for. -/
theorem smallFile_faithful (hopen : (newOpenFile 3).run smallWorld = some (1, w))
    {data : List UInt8} (hdata : data ≠ [])
    (hneed : needHere (RawFileHeader.empty fun _ => 0) 0 (bytesHere 0 data.length) +
      needAppend (bytesNew [] 0 data.length) ≤ 1020) :
    Faithful 1 w { bytes := [], cursor := 0 } (.write data) := by
  have h := smallFile_openedAt hopen
  obtain ⟨l, hl, hh⟩ := smallFile_ready.handle h
  obtain rfl : l = [] := (List.cons.inj hl).2.symm
  refine ⟨hdata, Nat.le_refl 0, ⟨_, hh.file_eq, hh.hdr_eq⟩, _, smallMap, [], [], hh.file_eq, ?_, ?_, ?_⟩
  · exact hh.inv.mapIs
  · exact hh.inv.file.chain
  · rw [smallMap_countClear, needWrite, needOld, h.disk_eq]
    show needHere (hdrAt smallDisk 3) 0 _ + needNext [] _ + _ ≤ 1020
    rw [smallFile_hdrAt, needNext, Nat.add_zero]
    exact hneed

end Sample

end Nachos.Filesys
