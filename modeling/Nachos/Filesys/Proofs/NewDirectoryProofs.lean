import Nachos.Filesys.Proofs.EntryProofs

/-!
# Proofs: making a directory

`CreateDir` in the current directory: the new directory gets its header and its data sectors, its table
has no entry in use, and the current directory has an entry for it.
-/

namespace Nachos.Filesys

open Foundations Resumption

/-! ## The first table -/

section FirstTable

variable {w w' : World} {own : Nat → Option Nat} {m : Bitmap} {s t : Nat} {c : List Nat} {f : FileId}
  {dir : Directory}

/-- The table of a new directory has no entry in use, and none is marked as a directory. -/
theorem newDirectory_unused {n : Nat} (hrun : (Directory.new n).run w = some (dir, w')) :
    dir.tableSize = n ∧ (∀ i, ¬ Used dir.table i) ∧ Clean dir.table ∧ Quiet w w' := by
  obtain ⟨_, w1, hassert, hrun⟩ := run_bind_eq_some.mp hrun
  obtain ⟨-, hw1⟩ := run_assert_eq_some hassert
  rw [hw1] at hrun
  obtain ⟨heap, w2, hmalloc, hrun⟩ := run_bind_eq_some.mp hrun
  have hq := quiet_malloc _ _ _ _ hmalloc
  cases hrun
  have hsz : dirEntrySize = 28 := rfl
  -- the bytes 0 and 24 of every entry are zero
  have hbyte : ∀ i k, i < n → k = 0 ∨ k = 24 → ((List.range (n * dirEntrySize)).map fun j =>
      if j % dirEntrySize = 0 ∨ j % dirEntrySize = 24 then 0 else heap j).getD (i * dirEntrySize + k) 0 = 0 := by
    intro i k hi hk
    have hmod : (i * dirEntrySize + k) % dirEntrySize = k := by
      rw [Nat.mul_comm, Nat.mul_add_mod]
      exact Nat.mod_eq_of_lt (by omega)
    have hlt : i * dirEntrySize + k < n * dirEntrySize := by
      have := Nat.mul_le_mul_right dirEntrySize hi
      rw [Nat.succ_mul] at this
      omega
    rw [List.getD_eq_getElem?_getD, List.getElem?_map, List.getElem?_range hlt]
    simp only [Option.map_some, Option.getD_some, hmod]
    rw [if_pos hk]
  refine ⟨rfl, fun i hi => ?_, fun i hi _ => ?_, hq⟩
  · have hi' := hi.lt
    rw [Directory.numEntries_table] at hi'
    have huse := hi.inUse
    have hzero := hbyte i 0 hi' (Or.inl rfl)
    rw [Nat.add_zero] at hzero
    rw [entryInUse, hzero] at huse
    cases huse
  · rw [Directory.numEntries_table] at hi
    rw [entryIsDirectory, hbyte i 24 hi (Or.inr rfl)]
    rfl

/-- `WriteBack` for the first time, into a file that has the length of the table. -/
theorem run_writeBackFirst {file : OpenFile} (hf : w.files f = some file) (hr : Readable file)
    (hnd : file.hdr.dataOf.Nodup) (hlen : file.hdr.numBytes = dir.table.length)
    (hpos : 0 < dir.table.length) (hlt : dir.table.length < 2 ^ 32) :
    ∃ D : Disk, (dir.writeBackFirst f).run w = some ((), { w with
        disk := D
        heap := Function.update w.heap .buffer fun n => w.heap .buffer (n + 1) }) ∧
      (∀ x, x ∉ file.hdr.dataOf → D x = w.disk x) ∧ dataBytes D file.hdr = dir.table := by
  obtain ⟨D, hrun, hout, hdata⟩ := run_writeAt hf hr hnd dir.table 0 hpos (by rw [hlen]; exact hpos)
    (by rw [Nat.zero_add]; exact hlt)
  refine ⟨D, ?_, hout, ?_⟩
  · rw [Directory.writeBackFirst, run_bind, hrun]
    rfl
  · rw [hdata, Nat.sub_zero, hlen, List.take_length, splice_of_length_eq]
    rw [length_dataBytes hr.ok, hlen]

/-- What is known after the first table was written to the new file `t`. -/
structure FirstTable (w : World) (own : Nat → Option Nat) (m : Bitmap) (s : Nat) (c : List Nat) (t : Nat)
    (dir : Directory) (w' : World) : Prop where
  dirHandle : DirHandle w' own m s c
  content_eq : content w'.disk c = content w.disk c
  file : FileOk w'.disk own t [t]
  table_eq : content w'.disk [t] = dir.table
  only : OnlyFiles [t] w.disk own w'.disk own
  directorySize_eq : w'.directorySize = w.directorySize

/-- The new directory is opened, and its table is written. -/
theorem DirHandle.firstTable {w1 : World} {u : Unit} (h : DirHandle w own m s c)
    (hdir : w.directoryFile < w.nextFile) (hmap : w.freeMapFile < w.nextFile)
    (hfile : FileOk w.disk own t [t]) (ht0 : t ≠ 0) (hts : s ≠ t)
    (hbytes : (hdrAt w.disk t).numBytes = dir.table.length) (hpos : 0 < dir.table.length)
    (hlt : dir.table.length < 2 ^ 32) (hopen : (newOpenFile t).run w = some (f, w1))
    (hfirst : (dir.writeBackFirst f).run w1 = some (u, w')) : FirstTable w own m s c t dir w' := by
  have hmem : t ∈ [t] := List.mem_singleton.mpr rfl
  have hown : ∀ x, x ∈ (hdrAt w.disk t).dataOf → own x = some t := by
    intro x hx
    refine (hfile.own_iff x).mpr ?_
    rw [sectorsOf_cons]
    exact List.mem_append_left _ (List.mem_cons_of_mem _ hx)
  obtain ⟨w2, hopen', hat⟩ := run_newOpenFile (h.inv.layout.lt t t (hfile.own_of_mem hmem)) w
  rw [hopen] at hopen'
  cases hopen'
  have h1 := h.opened hdir hmap hat
  have hfiles : w1.files w.nextFile = some
      { hdr := hdrAt w.disk t, seekPosition := 0, sector := t, currentSector := t } := by
    rw [hat.files_eq]
    exact Function.update_self ..
  obtain ⟨D, hrun, hout, hdata⟩ := run_writeBackFirst hfiles
    ⟨hfile.ok t hmem, fun x hx => h.inv.layout.lt x t (hown x hx)⟩ (hfile.nodup_data hmem) hbytes hpos hlt
  rw [hfirst] at hrun
  cases hrun
  rw [hat.disk_eq] at hout
  dsimp only at hout hdata
  -- the data sectors of the new file are those that changed
  have hdisk : ∀ x t', t' ≠ t → own x = some t' → D x = w.disk x := by
    intro x t' ht' hx
    refine hout x fun hmem => ht' ?_
    rw [hown x hmem] at hx
    exact (Option.some.inj hx).symm
  have htD : D t = w.disk t := by
    refine hout t fun hmem => ?_
    have hnodup := hfile.nodup
    rw [sectorsOf_cons] at hnodup
    exact (List.nodup_cons.mp hnodup).1 (List.mem_append_left _ hmem)
  have hfileD : FileOk D own t [t] := by
    refine hfile.congr (fun x hx => ?_) fun x => Iff.rfl
    rw [List.mem_singleton.mp hx]
    exact htD
  have hmapD : MapIs D m := h.inv.mapIs.congr (hdisk _ 0 ht0.symm h.inv.layout.own_mapData)
  have hsame : SameObjects w1 { w1 with
      disk := D
      heap := Function.update w1.heap .buffer fun n => w1.heap .buffer (n + 1) } :=
    ⟨rfl, rfl, rfl, rfl, rfl⟩
  obtain ⟨h2, hcontent⟩ := h1.other_file hsame hts ht0 (fun x t' _ => Iff.rfl)
    (fun x t' ht' hx _ => (hdisk x t' ht' hx).trans (by rw [hat.disk_eq]))
    (fun x hx => h.inv.layout.lt x t hx) (Or.inl ⟨[t], hfileD⟩) h.inv.marked hmapD
  refine ⟨h2, ?_, hfileD, ?_, ⟨fun x t' _ => Iff.rfl, fun x t' ht' hx _ => hdisk x t' (by simpa using ht') hx⟩,
    hat.directorySize_eq⟩
  · rw [hcontent, hat.disk_eq]
  · rw [content_cons, hdrAt_congr htD, hdata]
    simp [content]

end FirstTable

/-! ## `CreateDir` -/

section CreateDirectory

variable {w w' : World} {own : Nat → Option Nat} {m m2 : Bitmap} {K : Nat → Prop} {objs : List FileId}
  {s t : Nat} {c : List Nat} {me : Tid} {name : Name} {hdr : RawFileHeader} {news : List Nat}

/-- The header of a new directory. -/
theorem newHeader_of_allocated {heap : ByteMemory} (hbits : m.numBits = numSectors) (ht : t < numSectors)
    (hfree : m.test t = false)
    (h : RawFileHeader.Allocated (RawFileHeader.empty heap) (m.mark t) directoryFileSize hdr m2 news) :
    NewHeader m t hdr m2 news := by
  have hmark := Bitmap.test_mark (b := m) (i := t) (by rw [hbits]; exact ht)
  have hnews : ∀ x ∈ news, t ≠ x ∧ m.test x = false := by
    intro x hx
    have hfalse := (h.news_free x hx).2
    rw [hmark, Bool.or_eq_false_iff] at hfalse
    exact ⟨of_decide_eq_false hfalse.1, hfalse.2⟩
  refine ⟨ht, hfree, h.ok, h.fits (RawFileHeader.fits_empty heap), h.next_eq, ?_, ?_, ?_, ?_⟩
  · rw [h.dataOf_eq, RawFileHeader.dataOf_empty, List.nil_append]
  · exact List.nodup_cons.mpr ⟨fun hmem => (hnews t hmem).1 rfl, h.news_nodup⟩
  · exact fun x hx => ⟨(h.news_free x hx).1, (hnews x hx).2⟩
  · intro x
    rw [h.test_eq, hmark]
    simp [Bool.or_comm, Bool.or_left_comm, Bool.or_assoc, eq_comm]

/-- The file `t` is a directory of `NUM_DIR_ENTRIES` entries, none of them in use. -/
structure EmptyDirectory (w : World) (own : Nat → Option Nat) (t : Nat) : Prop where
  file : FileOk w.disk own t [t]
  start_ne : t ≠ 0
  length_eq : (content w.disk [t]).length = numDirEntries * dirEntrySize
  unused : ∀ i, ¬ Used (content w.disk [t]) i
  clean : Clean (content w.disk [t])

/-- What is known after `CreateDir` has written the new directory `t`, the free map and the current
directory with this table. -/
structure NewDirectory (w : World) (own : Nat → Option Nat) (m : Bitmap) (s : Nat) (c : List Nat) (t : Nat)
    (table : List UInt8) (w' : World) (own' : Nat → Option Nat) (m' : Bitmap) (c' : List Nat) :
    Prop where
  dirHandle : DirHandle w' own' m' s c'
  size_eq : w'.directorySize = w.directorySize
  content_eq : content w'.disk c' = table ++ (content w.disk c).drop table.length
  only : OnlyFiles [s, t] w.disk own w'.disk own'
  fresh : own t = none
  directory : EmptyDirectory w' own' t
  isPrefix : c <+: c'
  marks : MarksOwned m own → MarksOwned m' own'
  entry : NewEntry w' t false

/-- The new directory, the free map and the current directory with its new entry are flushed. -/
theorem flushNewDirectory_new {dir' : Directory} {u : Unit} (h : DirHandle w own m s c)
    (hnew : NewHeader m t hdr m2 news) (hbits : m2.numBits = numSectors)
    (hbytes : hdr.numBytes = directoryFileSize) (hdir : w.directoryFile < w.nextFile)
    (hmap : w.freeMapFile < w.nextFile) (hpos : 0 < dir'.tableSize)
    (hneed : needChain w.disk c dir'.table.length ≤ m2.countClear)
    (hrun : (flushNewDirectory me t hdr m2 dir').run w = some (u, w')) :
    ∃ own' m' c', NewDirectory w own m s c t dir'.table w' own' m' c' := by
  rw [flushNewDirectory, run_bind, run_writeSector hnew.lt, Option.bind_some] at hrun
  obtain ⟨w1, hwrite, hwrote⟩ := run_writeBackFreeMap (m := m2)
    (w := { w with disk := Function.update w.disk t hdr.toSector }) h.inv.mapFile hbits
  rw [run_bind, hwrite, Option.bind_some] at hrun
  obtain ⟨h1, hcontent1, hfile1, hhdr1, ht0, hts, honly1⟩ := h.newHeader hnew hwrote
  obtain ⟨D, hD⟩ := hwrote.eq_with
  have hsame1 : SameObjects w w1 := by
    rw [hD]
    exact ⟨rfl, rfl, rfl, rfl, rfl⟩
  obtain ⟨newDir, w2, hnewDir, hrun⟩ := run_bind_eq_some.mp hrun
  obtain ⟨hsize2, hunused, hclean, hq2⟩ := newDirectory_unused hnewDir
  obtain ⟨f, w3, hopen, hrun⟩ := run_bind_eq_some.mp hrun
  obtain ⟨_, w4, hfirst, hrun⟩ := run_bind_eq_some.mp hrun
  have hlen2 : newDir.table.length = directoryFileSize := by
    rw [newDir.length_table, hsize2]
    rfl
  have h2 := h1.quiet hq2
  have hdisk2 := hq2.disk_eq
  have hdir2 : w2.directoryFile < w2.nextFile := by
    rw [hq2.directoryFile_eq, hq2.nextFile_eq, hsame1.directoryFile_eq, hsame1.nextFile_eq]
    exact hdir
  have hmap2 : w2.freeMapFile < w2.nextFile := by
    rw [hq2.freeMapFile_eq, hq2.nextFile_eq, hsame1.freeMapFile_eq, hsame1.nextFile_eq]
    exact hmap
  have h4 := h2.firstTable hdir2 hmap2 (by rw [hdisk2]; exact hfile1) ht0 hts (by rw [hdisk2, hhdr1, hbytes, hlen2])
    (by rw [hlen2]; decide) (by rw [hlen2]; decide) hopen hfirst
  have hcontent4 : content w4.disk c = content w.disk c := by
    rw [h4.content_eq, hdisk2, hcontent1]
  have honly4 := h4.only
  rw [hdisk2] at honly4
  obtain ⟨_, w5, hback, hreset⟩ := run_bind_eq_some.mp hrun
  have hneed4 : needChain w4.disk c dir'.table.length ≤ m2.countClear := by
    have honly : OnlyFiles [t] w.disk own w4.disk (extendOwn own (t :: news) t) := honly1.trans honly4
    rw [needChain_congr (honly.headers h.inv.layout h.inv.start_ne (by simpa using hts) h.inv.file)]
    exact hneed
  obtain ⟨own', m', c', hstep, h5, hcontent5, hextends, htight⟩ := h4.dirHandle.writeBack hpos hneed4 hback
  -- the new directory is not touched by the write to the current one
  have honly5 := hstep.onlyFiles
  have hlist : t ∉ [s] := by simpa using hts.symm
  obtain ⟨hfile5, htable5⟩ := honly5.file h4.dirHandle.inv.layout ht0 hlist h4.file
  have hq := quiet_resetEntry _ _ _ _ hreset
  have hdirectory : EmptyDirectory w' own' t := by
    have htable : content w'.disk [t] = newDir.table := by rw [hq.disk_eq, htable5, h4.table_eq]
    refine ⟨by rw [hq.disk_eq]; exact hfile5, ht0, ?_, ?_, ?_⟩
    · rw [htable, hlen2]
      rfl
    · rw [htable]
      exact hunused
    · rw [htable]
      exact hclean
  refine ⟨own', m', c', h5.quiet hq, ?_, ?_, ?_, h.inv.own_none hnew.free, hdirectory, hextends,
    fun hmarks => ?_, resetEntry_new hnew.lt hreset⟩
  · rw [hq.directorySize_eq, hstep.world.directorySize_eq, h4.directorySize_eq, hq2.directorySize_eq,
      hsame1.directorySize_eq]
  · rw [hq.disk_eq, hcontent5, hcontent4]
  · rw [hq.disk_eq]
    exact ((honly1.mono (by simp)).trans (honly4.mono (by simp))).trans (honly5.mono (by simp))
  · exact (hmarks.extend hnew.test_eq t).tight hstep.grown htight

/-- `CreateDir` in the current directory. -/
theorem InOrder.createDirectory {result : Option Bool} (h : InOrder w own m K objs)
    (hcur : CurrentIs w s c) (hname : name.head? ≠ some slash)
    (hroom : Grows w.disk c name →
      growthNeed w.disk c + 1 + divRoundUp directoryFileSize sectorSize ≤ m.countClear)
    (hrun : (createDirectory me name).run w = some (result, w')) :
    result ≠ some true ∧ Unchanged w own m K objs s c w' ∨
      result = some true ∧ ∃ own' m' c' t, EntryCreated w own m K objs s c name t true w' own' m' c' ∧
        EmptyDirectory w' own' t := by
  have hthree : divRoundUp directoryFileSize sectorSize = 3 := by decide
  rw [hthree] at hroom
  have hbalanced : Balanced w' objs :=
    (balanced_createDirectory h.exact (fun _ _ hnew => h.newSector hnew) hrun).1
  have hstep := dirStep_createDirectory _ _ _ hrun
  have htidy := tidy_createDirectory _ _ _ hrun
  obtain ⟨dir, w1, hfetch, hrun⟩ := run_bind_eq_some.mp hrun
  have h1 := h.fetchDirectory hcur hfetch
  split at hrun
  · cases hrun
    exact Or.inl ⟨by decide, h1.unchanged h⟩
  rename_i hfind
  rw [run_bind, run_fetchFreeMap h1.inOrder.mapFile h1.inOrder.mapIs, Option.bind_some] at hrun
  dsimp only at hrun
  obtain ⟨hnone, hnot⟩ := h.not_found hcur h1 (not_ne_iff.mp hfind)
  obtain ⟨⟨added, dir'⟩, w2, hadd, hrun⟩ := run_bind_eq_some.mp hrun
  obtain rfl := add_of_findIndex_none hnone hadd
  cases hfree : m.find with
  | mk found m1 =>
  rw [hfree] at hrun hadd
  cases found with
  | none =>
    -- there is no sector for the header
    have hzero : m.countClear = 0 := by
      refine Nat.eq_zero_of_not_pos fun hpos => ?_
      obtain ⟨i, hi, hclear⟩ := Bitmap.exists_clear_of_countClear_pos hpos
      rw [(Bitmap.find_none hfree).2 i hi] at hclear
      cases hclear
    have hw2 := h1.add_eq hnot (fun hgrow => by have := hroom hgrow; omega)
      (show 2 ^ 32 - 1 < 2 ^ 32 by decide) hadd
    cases hrun
    rw [hw2]
    exact Or.inl ⟨by decide, h1.unchanged h⟩
  | some t =>
  obtain ⟨ht, htest, -, rfl⟩ := Bitmap.find_some hfree
  rw [h.mapIs.numBits_eq] at ht
  have hadded := h.added hcur h1 hnot (Nat.lt_trans ht (by decide)) hadd
  have hdisk2 := hadded.disk_eq
  obtain ⟨heap, w3, hmalloc, hrun⟩ := run_bind_eq_some.mp hrun
  have hq3 := quiet_malloc _ _ _ _ hmalloc
  obtain ⟨⟨success, hdr, m2⟩, w4, halloc, hrun⟩ := run_bind_eq_some.mp hrun
  obtain ⟨halloc', hw4⟩ := run_ofOption_eq_some halloc
  rw [hw4] at hrun
  change Resumption.run (if success = true then _ else _) w3 = _ at hrun
  have hbits1 : (m.mark t).numBits = numSectors := h.mapIs.numBits_eq
  have hneed : (RawFileHeader.empty heap).newSectors directoryFileSize = 3 := by
    show divRoundUp (0 + directoryFileSize) sectorSize - 0 = 3
    decide
  have hfits : (RawFileHeader.empty heap).numBytes + directoryFileSize ≤ maxHeaderBytes := by
    show 0 + directoryFileSize ≤ maxHeaderBytes
    decide
  have hcount := Bitmap.countClear_mark (b := m) (i := t) (by rw [h.mapIs.numBits_eq]; exact ht) htest
  by_cases hclear : 3 ≤ (m.mark t).countClear
  · obtain ⟨hdr', m2', news, halloc2, hallocated⟩ := RawFileHeader.allocate_enough
      (RawFileHeader.ok_empty heap) hbits1 hfits (by rw [hneed]; exact hclear)
    rw [halloc2] at halloc'
    cases halloc'
    rw [if_pos rfl] at hrun
    obtain ⟨_, w5, hflush, hret⟩ := run_bind_eq_some.mp hrun
    cases hret
    have hdisk3 := hq3.disk_eq.trans hdisk2
    have hstep2 := dirStep_add _ _ _ _ _ _ hadd
    have hnewHeader := newHeader_of_allocated h.mapIs.numBits_eq ht htest hallocated
    have hdir3 : w3.directoryFile < w3.nextFile := by
      rw [hq3.directoryFile_eq, hq3.nextFile_eq, hstep2.directoryFile_eq]
      exact Nat.lt_of_lt_of_le (h1.inOrder.lt_nextFile List.mem_cons_self) hstep2.nextFile_le
    have hmap3 : w3.freeMapFile < w3.nextFile := by
      rw [hq3.freeMapFile_eq, hq3.nextFile_eq, hstep2.freeMapFile_eq]
      exact Nat.lt_of_lt_of_le (h1.inOrder.exact.lt_next _ List.mem_cons_self) hstep2.nextFile_le
    have hneed3 : needChain w3.disk c dir'.table.length ≤ m2.countClear := by
      have hnews := hallocated.news_length
      have hleft := hallocated.countClear_eq
      rw [hdisk3]
      rcases hadded.need with hzero | ⟨hgrow, hgrowth⟩
      · omega
      · have := hroom hgrow
        omega
    have hstepT : TableStep (fun _ => False) (· = t) w w' :=
      IsTrans.trans _ _ _ ((moves_tableStep sameTable_fetchDirectory) _ _ _ hfetch) (IsTrans.trans _ _ _
        ((moves_tableStep (sameTable_add _ _ _)) _ _ _ hadd) (IsTrans.trans _ _ _
          ((moves_tableStep (sameTable_malloc _)) _ _ _ hmalloc) (tableStep_flushNewDirectory (T := (· = t)) rfl _ _ _ _ _ _ hflush)))
    obtain ⟨own', m', c', hnew⟩ := flushNewDirectory_new (hadded.dirHandle.quiet hq3) hnewHeader
      hallocated.numBits_eq hallocated.numBytes_eq hdir3 hmap3 hadded.size_pos hneed3 hflush
    have hsize : w'.directorySize = dir'.tableSize := by
      rw [hnew.size_eq, hq3.directorySize_eq]
      exact hadded.size_eq.symm
    have hcontent := hnew.content_eq
    have honly := hnew.only
    rw [hdisk3] at hcontent honly
    have hempty := hnew.directory
    exact Or.inr ⟨rfl, own', m', c', t, h.entryCreated hcur hnew.dirHandle hcontent honly hnew.fresh
      (by omega) hempty.start_ne hempty.file (full_single _ t) hempty.length_eq (by decide) hempty.unused hadded.adds hsize
      hadded.size_le hname hnot hnew.isPrefix hnew.marks hstep hbalanced htidy hnew.entry hstepT, hempty⟩
  · -- there are no sectors for the table
    have hw2 := h1.add_eq hnot (fun hgrow => by have := hroom hgrow; omega) (Nat.lt_trans ht (by decide)) hadd
    rw [hw2] at hmalloc hq3
    obtain ⟨hdr', halloc2, -⟩ := RawFileHeader.allocate_short (RawFileHeader.ok_empty heap) hfits
      (m := m.mark t) (by rw [hneed]; exact Nat.not_le.mp hclear)
    rw [halloc2] at halloc'
    cases halloc'
    rw [if_neg (by decide)] at hrun
    cases hrun
    exact Or.inl ⟨by decide, (h1.unchanged h).quiet hq3 (sameBooks_malloc _ _ _ _ hmalloc)
      (tidy_malloc _ _ _ _ hmalloc) (sameTable_malloc _ _ _ _ hmalloc)⟩

end CreateDirectory

end Nachos.Filesys
