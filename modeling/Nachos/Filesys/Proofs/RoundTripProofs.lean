import Nachos.Filesys.RoundTrip
import Nachos.Filesys.Proofs.ByteFileProofs
import Nachos.Filesys.Proofs.InOrderProofs

/-!
# Proofs: writing a new file and reading it

The object through which the file is written stands at its end all along, also after a `Write` that found too few
sectors. So the file has what the calls have counted, and another object reads it from the beginning on.
-/

namespace Nachos.Filesys

open Foundations Resumption

section RoundTrip

variable {w w' : World} {own own' : Nat → Option Nat} {m m' : Bitmap} {s t : Nat} {c : List Nat} {me : Tid}
  {name : Name} {f : FileId} {bytes : List UInt8}

/-! ## Opening by name -/

/-- The entry of this name in the current directory is for the file at `t`, which is not being removed. -/
structure Names (w : World) (own : Nat → Option Nat) (m : Bitmap) (s : Nat) (c : List Nat) (name : Name)
    (t : Nat) : Prop where
  dirFile : DirFile w own m s c
  found : ∀ dir : Directory, dir.table = dirTable w c → dir.tableSize = w.directorySize → dir.find name = t
  removing_eq : (w.table t).removing = false

/-- The directory still has the entry when its table is the same. -/
theorem Names.step (h : Names w own m s c name t) (hdir : DirHandle w' own' m' s c)
    (hcontent : content w'.disk c = content w.disk c) (hsize : w'.directorySize = w.directorySize)
    (hflags : SameFlags (w.table t) (w'.table t)) : Names w' own' m' s c name t := by
  refine ⟨⟨hdir, ?_, ?_⟩, fun dir htable htableSize => ?_, ?_⟩
  · rw [hsize]
    exact h.dirFile.size_pos
  · rw [hsize, hcontent]
    exact h.dirFile.size_le
  · rw [dirTable, hcontent, hsize] at htable
    exact h.found dir htable (htableSize.trans hsize)
  · rw [hflags.removing_eq]
    exact h.removing_eq

/-- `Open` of a file that the directory has. -/
theorem Names.run_openFile (h : Names w own m s c name t) (ht : t < numSectors) :
    ∃ w1 w2, Fetched w w1 ∧ OpenedAt t w1 w2 ∧ (openFile name).run w = some (some w.nextFile, w2) := by
  obtain ⟨dir, w1, hfetch, hsize, htable, hfetched⟩ := run_fetchDirectory h.dirFile
  have hfind : dir.find name = t := h.found dir htable hsize
  have hremoving : (w1.table t).removing = false := by
    rw [hfetched.step.table_eq]
    exact h.removing_eq
  obtain ⟨w2, hopen, hat⟩ := run_newOpenFile ht w1
  refine ⟨w1, w2, hfetched, hat, ?_⟩
  rw [openFile, run_bind, hfetch, Option.bind_some]
  simp only [hfind, if_pos (Int.natCast_nonneg t), Int.toNat_natCast, openSector, run_bind,
    run_getEntry ht, Option.bind_some, hremoving, Bool.false_eq_true, if_false, hopen, run_pure,
    hfetched.step.nextFile_eq]

theorem Names.opened {w1 w2 : World} (h : Names w own m s c name t) (hdir : w.directoryFile < w.nextFile)
    (hmap : w.freeMapFile < w.nextFile) (hfetched : Fetched w w1) (hat : OpenedAt t w1 w2)
    (hrun : (openFile name).run w = some (some w.nextFile, w2)) : Names w2 own m s c name t := by
  have hstep := hfetched.step
  have h1 := h.dirFile.toDirHandle.fetched hfetched
  rw [← hstep.directoryFile_eq, ← hstep.nextFile_eq] at hdir
  rw [← hstep.freeMapFile_eq, ← hstep.nextFile_eq] at hmap
  refine h.step (h1.opened hdir hmap hat) ?_ ?_ ?_
  · rw [hat.disk_eq, hfetched.disk_eq]
  · rw [hat.directorySize_eq, hstep.directorySize_eq]
  · exact (tableStep_openFile (P := fun _ => True) (T := fun _ => False) _ _ _ hrun).flags t not_false

/-- The directory does not notice that another file is written. -/
theorem Names.wrote (h : Names w own m s c name t) (hts : s ≠ t) (hf : f ≠ w.directoryFile)
    (hready : ∃ b, Ready w' own' m' t b) (hstep : WStep f t w own m w' own' m') :
    Names w' own' m' s c name t := by
  obtain ⟨b, hb⟩ := hready
  have hinv := h.dirFile.inv
  have hl : s ∉ [t] := by simpa using hts
  obtain ⟨hfile, hcontent⟩ := hstep.onlyFiles.file hinv.layout hinv.start_ne hl hinv.file
  obtain ⟨file, hdir, hsector⟩ := h.dirFile.handle
  refine h.step ⟨⟨hb.layout, hb.marked, hb.mapIs, hb.mapFile, ?_, hinv.start_ne, hfile⟩,
    hstep.onlyFiles.full hinv.layout hinv.start_ne hl hinv.file h.dirFile.full, file, ?_, hsector⟩ hcontent
    hstep.world.directorySize_eq ?_
  · rw [hstep.world.directoryFile_eq, hstep.world.freeMapFile_eq]
    exact hinv.ne_map
  · rw [hstep.world.directoryFile_eq, hstep.world.files_eq _ hf.symm]
    exact hdir
  · rw [hstep.world.table_eq]
    exact ⟨rfl, rfl, rfl⟩

/-- The directory does not notice that an object is closed. -/
theorem Names.closed (h : Names w own m s c name t) (hdir : f ≠ w.directoryFile) (hmap : f ≠ w.freeMapFile)
    (hrun : (deleteOpenFile me f).run w = some ((), w')) : Names w' own m s c name t := by
  have hat := closedAt_deleteOpenFile hrun
  refine h.step (h.dirFile.toDirHandle.sameObjects hat.disk_eq hat.freeMapFile_eq hat.directoryFile_eq ?_ ?_) ?_
    hat.directorySize_eq ?_
  · rw [hat.files_eq]
    exact Function.update_of_ne hmap.symm _ _
  · rw [hat.files_eq]
    exact Function.update_of_ne hdir.symm _ _
  · rw [hat.disk_eq]
  · exact (tableStep_deleteOpenFile (P := fun _ => True) (T := fun _ => False) f _ _ _ hrun).flags t not_false

/-! ## Writing -/

/-- The object `f` stands at the end of the file `t`, which holds `bytes`. -/
structure AtEnd (f : FileId) (t : Nat) (bytes : List UInt8) (w : World) (own : Nat → Option Nat) (m : Bitmap) :
    Prop where
  ready : ∃ c, Ready w own m t c ∧ content w.disk c = bytes
  ne_map : f ≠ w.freeMapFile
  cursor : ∃ file pre post, w.files f = some file ∧ file.sector = t ∧
    HeaderChain w.disk t (pre ++ file.currentSector :: post) ∧
    Cursor w.disk pre file.currentSector post file.seekPosition bytes []
  lock : ∃ l, (w.table t).writeLock = some l ∧ w.locks l = some { lockOwner := none }

/-- A `Write` at the end of the file. -/
theorem AtEnd.write (h : AtEnd f t bytes w own m) (me : Tid) {chunk : List UInt8} (hchunk : chunk ≠ []) :
    ∃ n w' own' m', (write me f chunk false).run w = some (n, w') ∧ n ≤ chunk.length ∧
      AtEnd f t (bytes ++ chunk.take n) w' own' m' ∧ WStep f t w own m w' own' m' := by
  obtain ⟨c, hready, hcontent⟩ := h.ready
  obtain ⟨file, pre, post, hf, hsector, hchain, hcur⟩ := h.cursor
  obtain ⟨l, hl, hfree⟩ := h.lock
  have hc : pre ++ file.currentSector :: post = c := hchain.unique hready.file.chain
  have hinv : WriteInv w own m f t (pre ++ file.currentSector :: post) := by
    rw [hc]
    exact ⟨hready.layout, hready.marked, hready.mapIs, hready.mapFile, h.ne_map, hready.start_ne, hready.file⟩
  have hseek : file.seekPosition ≤ maxHeaderBytes :=
    Nat.le_trans hcur.le (hinv.file.ok _ (by simp)).numBytes_le
  have hlt : file.sector < numSectors := by
    rw [hsector]
    exact hready.layout.lt t t hready.file.own_start
  obtain ⟨w', own', m', c', file', n, hrun, hw⟩ := run_write me false hinv hf rfl rfl hseek hlt
    (by rw [hsector]; exact hl) hfree hchunk
  obtain ⟨hfull', pre', post', hc', hcur'⟩ := hw.move (by rw [hc]; exact hready.full) bytes [] hcur
  have hlong := hw.long hcur hfull' hcur' hc' (by rw [hc]; exact hready.long)
  have hstep := hw.step.world
  have hlock' : ∃ l, (w'.table t).writeLock = some l ∧ w'.locks l = some { lockOwner := none } :=
    ⟨l, by rw [hstep.table_eq]; exact hl, by rw [hstep.locks_eq]; exact hfree⟩
  rw [List.drop_nil] at hcur'
  have hcontent' : content w'.disk c' = bytes ++ chunk.take n := by
    rw [hc', hcur'.content_eq, List.append_nil]
  refine ⟨n, w', own', m', hrun, hw.le, ⟨⟨c', ⟨hw.inv.layout, hw.inv.marked, hw.inv.mapIs, hw.inv.mapFile,
    hready.start_ne, hw.inv.file, hfull', hlong, ?_, Or.inr hlock'⟩, hcontent'⟩, ?_,
    ⟨file', pre', post', hw.file_eq, hw.sector_eq.trans hsector, ?_, hcur'⟩, hlock'⟩, hw.step⟩
  · rw [hstep.freeMapFile_eq, hstep.nextFile_eq]
    exact hready.mapFile_lt
  · rw [hstep.freeMapFile_eq]
    exact h.ne_map
  · rw [← hc']
    exact hw.inv.file.chain

/-- The `Write` calls, by induction over the chunks. -/
theorem AtEnd.writeAll (me : Tid) (chunks : List (List UInt8)) :
    ∀ {bytes : List UInt8} {w : World} {own : Nat → Option Nat} {m : Bitmap}, AtEnd f t bytes w own m →
      (∀ chunk ∈ chunks, chunk ≠ []) → ∃ counts w' own' m', (writeAll me f chunks).run w = some (counts, w') ∧
        List.Forall₂ (fun chunk n => n ≤ chunk.length) chunks counts ∧
        AtEnd f t (bytes ++ written chunks counts) w' own' m' ∧ WStep f t w own m w' own' m' := by
  induction chunks with
  | nil =>
    intro bytes w own m h _
    refine ⟨[], w, own, m, rfl, List.Forall₂.nil, ?_, WStep.refl f t w own m⟩
    rw [written, List.append_nil]
    · exact h
    · exact fun _ _ _ _ hcons => absurd hcons (List.cons_ne_nil _ _).symm
  | cons chunk chunks ih =>
    intro bytes w own m h hne
    obtain ⟨n, w1, own1, m1, hrun, hle, h1, hstep1⟩ := h.write me (hne chunk List.mem_cons_self)
    obtain ⟨counts, w2, own2, m2, hruns, hall, h2, hstep2⟩ :=
      ih h1 fun ch hch => hne ch (List.mem_cons_of_mem chunk hch)
    refine ⟨n :: counts, w2, own2, m2, ?_, List.Forall₂.cons hle hall, ?_, hstep1.trans hstep2⟩
    · rw [Nachos.Filesys.writeAll, run_bind, hrun, Option.bind_some, run_bind, hruns, Option.bind_some, run_pure]
    · rw [written, ← List.append_assoc]
      exact h2

/-! ## Reading -/

/-- A `Read` through an object that has `rest` before it. -/
structure Before (f : FileId) (c : List Nat) (rest : List UInt8) (w : World) : Prop where
  chain : ReadableChain w.disk c
  cursor : ∃ file pre x post A, w.files f = some file ∧ c = pre ++ x :: post ∧ file.hdr = hdrAt w.disk x ∧
    Cursor w.disk pre x post file.seekPosition A rest

theorem Before.read {rest : List UInt8} (h : Before f c rest w) {n : Nat} (hn : 0 < n) (hlt : n < 2 ^ 31) :
    ∃ w', (read f n false).run w = some (rest.take n, w') ∧ Before f c (rest.drop n) w' := by
  obtain ⟨file, pre, x, post, A, hf, hc, hhdr, hcur⟩ := h.cursor
  have hok := h.chain.ok x (by rw [hc]; simp)
  have hseek := Nat.le_trans hcur.le hok.numBytes_le
  have hmax : maxHeaderBytes < 2 ^ 31 := by decide
  obtain ⟨pre', x', post', seek', hrun, hto⟩ := run_read h.chain hc hf hhdr hcur hn (by omega)
  exact ⟨_, hrun, h.chain, _, pre', x', post', _, Function.update_self .., hto.chain_eq, rfl, hto.cursor⟩

/-- The `Read` calls, by induction over the sizes. -/
theorem Before.readAll (sizes : List Nat) :
    ∀ {rest : List UInt8} {w : World}, Before f c rest w → (∀ n ∈ sizes, 0 < n ∧ n < 2 ^ 31) →
      ∃ w', (readAll f sizes).run w = some (piecesOf sizes rest, w') := by
  induction sizes with
  | nil => exact fun {rest w} _ _ => ⟨w, rfl⟩
  | cons n sizes ih =>
    intro rest w h hsizes
    obtain ⟨hn, hlt⟩ := hsizes n List.mem_cons_self
    obtain ⟨w1, hrun, h1⟩ := h.read hn hlt
    obtain ⟨w2, hruns⟩ := ih h1 fun k hk => hsizes k (List.mem_cons_of_mem n hk)
    refine ⟨w2, ?_⟩
    rw [Nachos.Filesys.readAll, run_bind, hrun, Option.bind_some, run_bind, hruns, Option.bind_some, run_pure,
      piecesOf]

/-! ## A new file -/

/-- A new file is in order. -/
theorem EmptyFile.ready (h : EmptyFile w own t) (hinv : WriteInv w own m f s c) (hmap : w.freeMapFile < w.nextFile)
    (hcount : (w.table t).count = 0) : Ready w own m t [t] where
  layout := hinv.layout
  marked := hinv.marked
  mapIs := hinv.mapIs
  mapFile := hinv.mapFile
  start_ne := h.start_ne
  file := h.file
  full := by
    intro pre x post hc hpost
    have hlen := congrArg List.length hc
    have hpos := List.length_pos_iff.mpr hpost
    simp only [List.length_append, List.length_cons, List.length_nil] at hlen
    omega
  long := fun hlen => absurd hlen (Nat.lt_irrefl 1)
  mapFile_lt := hmap
  lock := Or.inl hcount

theorem EmptyFile.content_nil (h : EmptyFile w own t) : content w.disk [t] = [] := by
  have hok := h.file.ok t List.mem_cons_self
  have hlen : (content w.disk [t]).length = 0 := by
    rw [content_cons, List.length_append, length_dataBytes hok, h.empty]
    rfl
  exact List.length_eq_zero_iff.mp hlen

/-- The new file is not the directory, which has a table. -/
theorem Created.ne (h : Created w own m s c name t) : s ≠ t := by
  rintro rfl
  have hc : c = [s] := h.dirFile.inv.file.chain.unique h.file.file.chain
  have hle := h.dirFile.size_le
  have hpos := h.dirFile.size_pos
  rw [hc, h.file.content_nil, List.length_nil] at hle
  have : 0 < dirEntrySize := by decide
  have := Nat.mul_pos hpos this
  omega

/-- `Open` of a new file: the object stands at the end of it. -/
theorem Created.opened (h : Created w own m s c name t) (hmap : w.freeMapFile < w.nextFile)
    (hdir : w.directoryFile < w.nextFile) : ∃ w1, (openFile name).run w = some (some w.nextFile, w1) ∧
      AtEnd w.nextFile t [] w1 own m ∧ Names w1 own m s c name t ∧ w1.directoryFile = w.directoryFile := by
  have hnames : Names w own m s c name t := ⟨h.dirFile, h.found, h.removing_eq⟩
  have ht : t < numSectors := h.dirFile.inv.layout.lt t t h.file.file.own_start
  obtain ⟨w1, w2, hfetched, hat, hrun⟩ := hnames.run_openFile ht
  have hstep := hfetched.step
  have hfile1 : EmptyFile w1 own t := by
    refine ⟨?_, h.file.start_ne, ?_⟩
    · rw [hfetched.disk_eq]
      exact h.file.file
    · rw [hfetched.disk_eq]
      exact h.file.empty
  have hready : Ready w1 own m t [t] := by
    refine hfile1.ready (h.dirFile.fetched hfetched).inv ?_ ?_
    · rw [hstep.freeMapFile_eq, hstep.nextFile_eq]
      exact hmap
    · rw [hstep.table_eq]
      exact h.count_eq
  obtain ⟨l, hl, hhandle⟩ := hready.handle hat
  obtain rfl : l = [] := (List.cons.inj hl).2.symm
  rw [hstep.nextFile_eq] at hhandle
  have hcontent : content w2.disk [t] = [] := by
    rw [hat.disk_eq]
    exact hfile1.content_nil
  have hcur := Cursor.start w2.disk t []
  rw [hcontent] at hcur
  refine ⟨w2, hrun, ⟨⟨[t], hready.opened hat, hcontent⟩, hhandle.inv.ne_map,
    ⟨_, [], [], hhandle.file_eq, rfl, hhandle.inv.file.chain, hcur⟩, hhandle.lock⟩,
    hnames.opened hdir hmap hfetched hat hrun, ?_⟩
  rw [hat.directoryFile_eq, hstep.directoryFile_eq]

/-- `Open` and `Read` of a file that the directory has. -/
theorem Names.run_openAndRead {b : List Nat} (h : Names w own m s c name t) (hlayout : Layout w.disk own)
    (hfile : FileOk w.disk own t b) (hcontent : content w.disk b = bytes) {sizes : List Nat} (hsizes : ∀ n ∈ sizes, 0 < n ∧ n < 2 ^ 31) :
    (openAndRead name sizes).Returns w fun pieces _ => pieces = some (piecesOf sizes bytes) := by
  have ht : t < numSectors := hlayout.lt t t hfile.own_start
  obtain ⟨w1, w2, hfetched, hat, hrun⟩ := h.run_openFile ht
  have hdisk : w2.disk = w.disk := hat.disk_eq.trans hfetched.disk_eq
  have hchain : ReadableChain w2.disk b := by
    rw [hdisk]
    exact hfile.readableChain hlayout
  obtain ⟨l, hb, -⟩ := hfile.chain
  have hcur := Cursor.start w2.disk t l
  rw [← hb, hdisk, hcontent, ← hdisk] at hcur
  have hbefore : Before w.nextFile b bytes w2 := by
    refine ⟨hchain, { hdr := hdrAt w1.disk t, seekPosition := 0, sector := t, currentSector := t }, [], t, l, [],
      ?_, hb, ?_, hcur⟩
    · rw [hat.files_eq, hfetched.step.nextFile_eq]
      exact Function.update_self ..
    · rw [hat.disk_eq]
  obtain ⟨w3, hreads⟩ := hbefore.readAll sizes hsizes
  refine ⟨some (piecesOf sizes bytes), w3, ?_, rfl⟩
  rw [openAndRead, run_bind, hrun, Option.bind_some]
  show (readAll w.nextFile sizes >>= _).run w2 = _
  rw [run_bind, hreads, Option.bind_some, run_pure]

/-! ## From creating to reading -/

/-- What `Create` makes in a directory with a free entry, or with three free sectors on the disk, is a new file. -/
theorem create_newlyCreated (h : DirFile w own m s c)
    (hroom : 3 ≤ m.countClear ∨ ∃ i, i < w.directorySize ∧ entryInUse (dirTable w c) i = false)
    (hmap : w.freeMapFile < w.nextFile) (hdir : w.directoryFile < w.nextFile) (hname : name.head? ≠ some slash)
    (hrun : (create me name).run w = some (true, w')) : NewlyCreated w' name := by
  have hstep := dirStep_create hname _ _ _ hrun
  obtain ⟨w1, w2, hq, hmake, hrelease⟩ := create_relative hname hrun
  have hroom1 : 3 ≤ m.countClear ∨ ∃ i, i < w1.directorySize ∧ entryInUse (dirTable w1 c) i = false := by
    rw [hq.directorySize_eq, hq.dirTable_eq]
    exact hroom
  obtain ⟨own', m', c', t, hnew⟩ := createFile_created (h.quiet hq) hroom1 hmake
  refine ⟨⟨own', m', s, c', t, hnew.release hrelease⟩, ?_, ?_⟩
  · rw [hstep.freeMapFile_eq]
    exact Nat.lt_of_lt_of_le hmap hstep.nextFile_le
  · rw [hstep.directoryFile_eq]
    exact Nat.lt_of_lt_of_le hdir hstep.nextFile_le

/-- A new file that is written in chunks through one object, with whatever space there is, is read through another
one in pieces of what the `Write` calls have counted, whether the first object has been closed or not. -/
theorem write_read_round_trip (hnew : NewlyCreated w name) {chunks : List (List UInt8)}
    (hchunks : ∀ chunk ∈ chunks, chunk ≠ []) :
    ∃ f w1 counts w2, (openFile name).run w = some (some f, w1) ∧
      (writeAll me f chunks).run w1 = some (counts, w2) ∧
      List.Forall₂ (fun chunk n => n ≤ chunk.length) chunks counts ∧
      ∀ w3, w3 = w2 ∨ (deleteOpenFile me f).run w2 = some ((), w3) →
        ∀ sizes : List Nat, (∀ n ∈ sizes, 0 < n ∧ n < 2 ^ 31) →
          (openAndRead name sizes).Returns w3 fun pieces _ =>
            pieces = some (piecesOf sizes (written chunks counts)) := by
  obtain ⟨⟨own, m, s, c, t, hcreated⟩, hmap, hdir⟩ := hnew
  obtain ⟨w1, hopen, hend, hnames, hdirFile⟩ := hcreated.opened hmap hdir
  obtain ⟨counts, w2, own2, m2, hwrite, hcounts, hend2, hstep⟩ := hend.writeAll me chunks hchunks
  have hne : w.nextFile ≠ w1.directoryFile := by
    rw [hdirFile]
    exact Nat.ne_of_gt hdir
  obtain ⟨b, hready, hcontent⟩ := hend2.ready
  rw [List.nil_append] at hcontent
  have hnames2 := hnames.wrote hcreated.ne hne ⟨b, hready⟩ hstep
  refine ⟨w.nextFile, w1, counts, w2, hopen, hwrite, hcounts, fun w3 hw3 sizes hsizes => ?_⟩
  rcases hw3 with rfl | hclose
  · exact hnames2.run_openAndRead hready.layout hready.file hcontent hsizes
  · have hat := closedAt_deleteOpenFile hclose
    have hne2 : w.nextFile ≠ w2.directoryFile := by
      rw [hstep.world.directoryFile_eq]
      exact hne
    have hnames3 := hnames2.closed hne2 hend2.ne_map hclose
    have hinv3 := hnames3.dirFile.inv
    rw [← hat.disk_eq] at hcontent
    have hfile3 : FileOk w3.disk own2 t b := by
      rw [hat.disk_eq]
      exact hready.file
    exact hnames3.run_openAndRead hinv3.layout hfile3 hcontent hsizes

end RoundTrip

/-- Two `Write` calls on a new file of the fresh disk, and three `Read` calls behind them. -/
theorem write_read_round_trip_fresh : ∃ w, (create 0 [97]).run freshWorld = some (true, w) ∧
    ∃ f w1 counts w2, (openFile [97]).run w = some (some f, w1) ∧
      (writeAll 0 f [[1, 2], [3]]).run w1 = some (counts, w2) ∧
      List.Forall₂ (fun (chunk : List UInt8) n => n ≤ chunk.length) [[1, 2], [3]] counts ∧
      (openAndRead [97] [1, 2, 1]).Returns w2 fun pieces _ =>
        pieces = some (piecesOf [1, 2, 1] (written [[1, 2], [3]] counts)) := by
  have hcreate : (((create 0 [97]).run freshWorld).map Prod.fst) = some true := by decide +kernel
  obtain ⟨⟨success, w⟩, hrun, rfl⟩ := Option.map_eq_some_iff.mp hcreate
  have hnew : NewlyCreated w [97] := create_newlyCreated freshWorld_dirFile (Or.inr ⟨0, by decide, by decide⟩)
    (by decide) (by decide) (by decide) hrun
  have hchunks : ∀ chunk ∈ ([[1, 2], [3]] : List (List UInt8)), chunk ≠ [] := by decide
  obtain ⟨f, w1, counts, w2, hopen, hwrite, hcounts, hreads⟩ := write_read_round_trip hnew hchunks
  exact ⟨w, hrun, f, w1, counts, w2, hopen, hwrite, hcounts, hreads w2 (Or.inl rfl) [1, 2, 1] (by decide)⟩

end Nachos.Filesys
