import Mathlib.Data.List.TakeWhile
import Nachos.Filesys.CurrentDirectory
import Nachos.Filesys.Proofs.HandleProofs

/-!
# Proofs: directories

The entries of a directory table as its bytes change, and the way of the table of the current directory
from the disk and back to it.
-/

namespace Nachos.Filesys

open Foundations Resumption

/-! ## Entries -/

section Entries

variable {t t' : List UInt8} {i j sector : Nat} {name : Name} {isDirectory : Bool}

/-- The bytes of entry `i` are the same in two tables. -/
def SameEntry (t t' : List UInt8) (i : Nat) : Prop :=
  ∀ k, k < dirEntrySize → t[i * dirEntrySize + k]? = t'[i * dirEntrySize + k]?

theorem SameEntry.getD_eq (h : SameEntry t t' i) {k : Nat} (hk : k < dirEntrySize) :
    t.getD (i * dirEntrySize + k) 0 = t'.getD (i * dirEntrySize + k) 0 := by
  rw [List.getD_eq_getElem?_getD, List.getD_eq_getElem?_getD, h k hk]

theorem SameEntry.inUse_eq (h : SameEntry t t' i) : entryInUse t i = entryInUse t' i := by
  have := h.getD_eq (k := 0) (by decide)
  rw [Nat.add_zero] at this
  rw [entryInUse, this, entryInUse]

theorem SameEntry.sector_eq (h : SameEntry t t' i) : entrySector t i = entrySector t' i := by
  rw [entrySector, h.getD_eq (k := 4) (by decide), h.getD_eq (k := 5) (by decide),
    h.getD_eq (k := 6) (by decide), h.getD_eq (k := 7) (by decide), entrySector]

theorem SameEntry.name_eq (h : SameEntry t t' i) : entryName t i = entryName t' i := by
  apply List.ext_getElem?
  intro k
  unfold entryName
  by_cases hk : k < fileNameMaxLen
  · have hk' : 8 + k < dirEntrySize := by
      unfold fileNameMaxLen at hk
      unfold dirEntrySize
      omega
    rw [List.getElem?_take_of_lt hk, List.getElem?_take_of_lt hk, List.getElem?_drop, List.getElem?_drop,
      Nat.add_assoc]
    exact h (8 + k) hk'
  · rw [List.getElem?_eq_none, List.getElem?_eq_none]
    all_goals
      rw [List.length_take]
      omega

theorem SameEntry.hasName_eq (h : SameEntry t t' i) : entryHasName t i name = entryHasName t' i name := by
  rw [entryHasName, h.name_eq, entryHasName]

/-- The entries of a longer table. -/
theorem sameEntry_take {n : Nat} (h : (i + 1) * dirEntrySize ≤ n) : SameEntry (t.take n) t i := by
  intro k hk
  rw [List.getElem?_take_of_lt]
  rw [Nat.succ_mul] at h
  omega

/-- The entries of a table in front of what is appended to it. -/
theorem sameEntry_append (h : (i + 1) * dirEntrySize ≤ t.length) (u : List UInt8) :
    SameEntry (t ++ u) t i := by
  intro k hk
  rw [List.getElem?_append_left]
  rw [Nat.succ_mul] at h
  omega

/-- A change of the bytes of another entry. -/
theorem sameEntry_poke (hij : i ≠ j) (k : Nat) (xs : List UInt8) (hk : k + xs.length ≤ dirEntrySize) :
    SameEntry (poke t (i * dirEntrySize + k) xs) t j := by
  intro l hl
  rw [getElem?_poke, if_neg]
  rintro ⟨-, h1, h2⟩
  rcases Nat.lt_or_gt_of_ne hij with hlt | hgt
  · have := Nat.mul_le_mul_right dirEntrySize (Nat.succ_le_of_lt hlt)
    rw [Nat.succ_mul] at this
    omega
  · have := Nat.mul_le_mul_right dirEntrySize (Nat.succ_le_of_lt hgt)
    rw [Nat.succ_mul] at this
    omega

theorem SameEntry.trans {t'' : List UInt8} (h : SameEntry t t' i) (h' : SameEntry t' t'' i) :
    SameEntry t t'' i := fun k hk => (h k hk).trans (h' k hk)

theorem length_nameKey_le (name : List UInt8) : (nameKey name).length ≤ fileNameMaxLen := by
  have h : (nameKey name).length ≤ (name.take fileNameMaxLen).length :=
    (List.takeWhile_prefix _).length_le
  rw [List.length_take] at h
  omega

theorem length_paddedName (name : Name) : (paddedName name).length = fileNameMaxLen := by
  have := length_nameKey_le name
  rw [paddedName, List.length_append, List.length_replicate]
  omega

/-- `strncmp` finds a name equal to its copy by `strncpy`. -/
theorem nameKey_paddedName (name : Name) : nameKey (paddedName name) = nameKey name := by
  have hkey : ∀ c ∈ nameKey name, (c != 0) = true := by
    intro c hc
    exact List.mem_takeWhile_imp (p := fun c => c != 0) hc
  rw [nameKey, List.take_of_length_le (Nat.le_of_eq (length_paddedName name)), paddedName,
    List.takeWhile_append_of_pos hkey]
  cases hn : fileNameMaxLen - (nameKey name).length with
  | zero => simp
  | succ n => simp [List.replicate_succ]

theorem markDirectory_sameEntry (hij : i ≠ j) : SameEntry (markDirectory t i isDirectory) t j := by
  unfold markDirectory
  split
  · exact sameEntry_poke hij 24 _ (by decide)
  · exact fun _ _ => rfl

theorem setEntry_sameEntry (hij : i ≠ j) : SameEntry (setEntry t i name sector isDirectory) t j := by
  unfold setEntry
  refine (sameEntry_poke hij 4 (le32 sector) (Nat.le_of_ble_eq_true rfl)).trans
    ((sameEntry_poke hij 8 (paddedName name) ?_).trans
      ((markDirectory_sameEntry hij).trans (sameEntry_poke hij 0 _ (by decide))))
  rw [length_paddedName]
  decide

theorem clearEntry_sameEntry (hij : i ≠ j) : SameEntry (clearEntry t i) t j :=
  (sameEntry_poke hij 24 _ (by decide)).trans (sameEntry_poke hij 0 _ (by decide))

theorem getElem?_markDirectory {k : Nat} (hk : k ≠ i * dirEntrySize + 24) :
    (markDirectory t i isDirectory)[k]? = t[k]? := by
  unfold markDirectory
  split
  · rw [getElem?_poke, if_neg]
    simp only [List.length_singleton]
    omega
  · rfl

theorem length_markDirectory : (markDirectory t i isDirectory).length = t.length := by
  unfold markDirectory
  split
  · exact length_poke _ _ _
  · rfl

theorem setEntry_inUse (h : (i + 1) * dirEntrySize ≤ t.length) :
    entryInUse (setEntry t i name sector isDirectory) i = true := by
  have hsz : dirEntrySize = 28 := rfl
  rw [Nat.succ_mul] at h
  have hbyte : (setEntry t i name sector isDirectory)[i * dirEntrySize]? = some 1 := by
    unfold setEntry
    rw [getElem?_poke, if_neg (by omega), getElem?_poke, if_neg (by omega),
      getElem?_markDirectory (by omega), getElem?_poke, if_pos]
    · simp
    · simp only [List.length_singleton]
      omega
  rw [entryInUse, List.getD_eq_getElem?_getD, hbyte]
  rfl

theorem setEntry_sector (h : (i + 1) * dirEntrySize ≤ t.length) (hs : sector < 2 ^ 32) :
    entrySector (setEntry t i name sector isDirectory) i = sector := by
  have hsz : dirEntrySize = 28 := rfl
  rw [Nat.succ_mul] at h
  have hbyte : ∀ k, k < 4 → (setEntry t i name sector isDirectory)[i * dirEntrySize + 4 + k]? =
      (le32 sector)[k]? := by
    intro k hk
    unfold setEntry
    rw [getElem?_poke, if_pos]
    · rw [Nat.add_sub_cancel_left]
    · simp only [length_poke, length_markDirectory, le32, List.length_cons, List.length_nil]
      omega
  have h0 := hbyte 0 (by decide)
  have h1 := hbyte 1 (by decide)
  have h2 := hbyte 2 (by decide)
  have h3 := hbyte 3 (by decide)
  simp only [entrySector, List.getD_eq_getElem?_getD]
  rw [show i * dirEntrySize + 4 = i * dirEntrySize + 4 + 0 from rfl, h0,
    show i * dirEntrySize + 5 = i * dirEntrySize + 4 + 1 from rfl, h1,
    show i * dirEntrySize + 6 = i * dirEntrySize + 4 + 2 from rfl, h2,
    show i * dirEntrySize + 7 = i * dirEntrySize + 4 + 3 from rfl, h3]
  exact ofLe32_bytes hs

theorem setEntry_hasName (h : (i + 1) * dirEntrySize ≤ t.length) :
    entryHasName (setEntry t i name sector isDirectory) i name = true := by
  have hsz : dirEntrySize = 28 := rfl
  have hmax : fileNameMaxLen = 15 := rfl
  have hlen := length_paddedName name
  rw [Nat.succ_mul] at h
  have hname : entryName (setEntry t i name sector isDirectory) i = paddedName name := by
    apply List.ext_getElem?
    intro k
    unfold entryName
    by_cases hk : k < fileNameMaxLen
    · rw [List.getElem?_take_of_lt hk, List.getElem?_drop]
      unfold setEntry
      rw [getElem?_poke, if_neg, getElem?_poke, if_pos]
      · rw [Nat.add_sub_cancel_left]
      · simp only [length_poke, length_markDirectory, hlen]
        omega
      · simp only [le32, List.length_cons, List.length_nil]
        omega
    · rw [List.getElem?_eq_none, List.getElem?_eq_none]
      · omega
      · rw [List.length_take]
        omega
  rw [entryHasName, hname, nameKey_paddedName]
  exact beq_self_eq_true _

theorem clearEntry_inUse (t : List UInt8) (i : Nat) : entryInUse (clearEntry t i) i = false := by
  have hbyte : (clearEntry t i).getD (i * dirEntrySize) 0 = 0 := by
    have hsz : dirEntrySize = 28 := rfl
    rw [List.getD_eq_getElem?_getD]
    unfold clearEntry
    rw [getElem?_poke, if_neg (by omega), getElem?_poke]
    split
    · simp
    · rw [List.getElem?_eq_none]
      · rfl
      · simp only [List.length_singleton] at *
        omega
  rw [entryInUse, hbyte]
  rfl

end Entries

/-! ## Looking up -/

namespace Directory

variable {d : Directory} {i sector : Nat} {name : Name} {isDirectory : Bool}

/-- Every entry lies inside the table. -/
theorem entry_le (d : Directory) (hi : i < d.tableSize) : (i + 1) * dirEntrySize ≤ d.table.length := by
  rw [d.length_table]
  exact Nat.mul_le_mul_right _ hi

theorem findIndex_some (h : d.findIndex name = some i) :
    i < d.tableSize ∧ entryInUse d.table i = true ∧ entryHasName d.table i name = true := by
  have hmem := List.mem_range.mp (List.mem_of_find?_eq_some h)
  have hp := List.find?_some h
  rw [Bool.and_eq_true] at hp
  exact ⟨hmem, hp⟩

theorem findIndex_none (h : d.findIndex name = none) (hi : i < d.tableSize) :
    ¬(entryInUse d.table i = true ∧ entryHasName d.table i name = true) := by
  have hp := List.find?_eq_none.mp h i (List.mem_range.mpr hi)
  rwa [Bool.and_eq_true] at hp

/-- A name that has one entry is found there. -/
theorem findIndex_eq (hi : i < d.tableSize) (huse : entryInUse d.table i = true)
    (hname : entryHasName d.table i name = true)
    (hother : ∀ j, j < d.tableSize → j ≠ i →
      ¬(entryInUse d.table j = true ∧ entryHasName d.table j name = true)) :
    d.findIndex name = some i := by
  cases hfind : d.findIndex name with
  | none => exact absurd ⟨huse, hname⟩ (findIndex_none hfind hi)
  | some j =>
    obtain ⟨hj, hp⟩ := findIndex_some hfind
    by_cases hne : j = i
    · rw [hne]
    · exact absurd hp (hother j hj hne)

theorem freeIndex_some (h : d.freeIndex = some i) : i < d.tableSize ∧ entryInUse d.table i = false := by
  have hmem := List.mem_range.mp (List.mem_of_find?_eq_some h)
  have hp := List.find?_some h
  exact ⟨hmem, by simpa using hp⟩

theorem freeIndex_none (h : d.freeIndex = none) (hi : i < d.tableSize) : entryInUse d.table i = true := by
  have hp := List.find?_eq_none.mp h i (List.mem_range.mpr hi)
  simpa using hp

/-- A name that no other entry has is found at the entry that was filled in for it. -/
theorem find_set (hi : i < d.tableSize) (hs : sector < 2 ^ 31)
    (hother : ∀ j, j < d.tableSize → j ≠ i →
      ¬(entryInUse d.table j = true ∧ entryHasName d.table j name = true)) :
    (d.set i name sector isDirectory).find name = sector := by
  have hle := d.entry_le hi
  have hfind : (d.set i name sector isDirectory).findIndex name = some i := by
    refine findIndex_eq hi (setEntry_inUse hle) (setEntry_hasName hle) ?_
    intro j hj hji hp
    have hsame : SameEntry (d.set i name sector isDirectory).table d.table j :=
      setEntry_sameEntry (Ne.symm hji)
    rw [hsame.inUse_eq, hsame.hasName_eq] at hp
    exact hother j hj hji hp
  have hsector : entrySector (d.set i name sector isDirectory).table i = sector :=
    setEntry_sector hle (Nat.lt_trans hs (by decide))
  simp only [find, hfind, hsector, toInt, if_pos hs]

/-- Growing by an entry does not bring in a name at another one. -/
theorem notFound_grow (heap : ByteMemory) (h : d.findIndex name = none) {j : Nat}
    (hj : j < (d.grow heap).tableSize) (hne : j ≠ d.tableSize) :
    ¬(entryInUse (d.grow heap).table j = true ∧ entryHasName (d.grow heap).table j name = true) := by
  have hj' : j < d.tableSize := by
    have : j < d.tableSize + 1 := hj
    omega
  have hsame : SameEntry (d.grow heap).table d.table j := sameEntry_append (d.entry_le hj') _
  rw [hsame.inUse_eq, hsame.hasName_eq]
  exact findIndex_none h hj'

end Directory

/-! ## From the disk -/

/-- A directory is read from its first header on. -/
theorem run_read_directory {w : World} {f : FileId} {file : OpenFile} (hf : w.files f = some file)
    (hs : file.sector < numSectors) {n : Nat} (hn : 0 < n) :
    (read f n true).run w = (read f n false).run { w with
      files := Function.update w.files f
        (some { file with hdr := hdrAt w.disk file.sector, seekPosition := 0 }) } := by
  have hmod : (modifyFile f fun file => { file with seekPosition := 0 }).run { w with
      files := Function.update w.files f (some { file with hdr := hdrAt w.disk file.sector }) } =
      some ((), { w with
        files := Function.update w.files f
          (some { file with hdr := hdrAt w.disk file.sector, seekPosition := 0 }) }) := by
    rw [run_modifyFile (Function.update_self ..)]
    simp only [Function.update_idem]
  simp only [read, rewindRead, if_true, Bool.false_eq_true, if_false, run_bind, run_assert,
    decide_eq_true hn, Option.bind_some, run_getFile hf, run_fetchHdr hs hf, hmod, run_pure]

/-- Nothing has changed but the object of the current directory and the supply of new memory. -/
structure Fetched (w w' : World) : Prop where
  step : FileStep w.directoryFile w w'
  disk_eq : w'.disk = w.disk
  handle : ∀ file, w.files w.directoryFile = some file →
    ∃ file', w'.files w.directoryFile = some file' ∧ file'.sector = file.sector

section Fetch

variable {w w' : World} {own : Nat → Option Nat} {m : Bitmap} {s : Nat} {c : List Nat}

theorem DirHandle.fetched (h : DirHandle w own m s c) (hw : Fetched w w') : DirHandle w' own m s c := by
  have hdir := hw.step.directoryFile_eq
  have hmap := hw.step.mapFileOk h.inv.ne_map h.inv.mapFile
  obtain ⟨file, hfile, hsector⟩ := h.handle
  obtain ⟨file', hfile', hsector'⟩ := hw.handle file hfile
  refine ⟨⟨?_, h.inv.marked, ?_, hmap, ?_, h.inv.start_ne, ?_⟩, ?_, ⟨file', ?_, ?_⟩⟩
  · rw [hw.disk_eq]
    exact h.inv.layout
  · rw [hw.disk_eq]
    exact h.inv.mapIs
  · rw [hdir, hw.step.freeMapFile_eq]
    exact h.inv.ne_map
  · rw [hw.disk_eq]
    exact h.inv.file
  · rw [hw.disk_eq]
    exact h.full
  · rw [hdir]
    exact hfile'
  · exact hsector'.trans hsector

theorem DirFile.fetched (h : DirFile w own m s c) (hw : Fetched w w') : DirFile w' own m s c := by
  refine ⟨h.toDirHandle.fetched hw, ?_, ?_⟩
  · rw [hw.step.directorySize_eq]
    exact h.size_pos
  · rw [hw.step.directorySize_eq, hw.disk_eq]
    exact h.size_le

theorem Fetched.dirTable_eq (hw : Fetched w w') : dirTable w' c = dirTable w c := by
  rw [dirTable, hw.disk_eq, hw.step.directorySize_eq, dirTable]

theorem DirFile.length_dirTable (h : DirFile w own m s c) :
    (dirTable w c).length = w.directorySize * dirEntrySize := by
  rw [dirTable, List.length_take, Nat.min_eq_left h.size_le]

/-- The object of the current directory is another one of the same file. -/
theorem Fetched.setFile {file file' : OpenFile} (hf : w.files w.directoryFile = some file)
    (hs : file'.sector = file.sector) :
    Fetched w { w with files := Function.update w.files w.directoryFile (some file') } where
  step := FileStep.setFile _ _ _
  disk_eq := rfl
  handle := by
    intro o ho
    rw [hf] at ho
    obtain rfl := Option.some.inj ho
    exact ⟨file', Function.update_self .., hs⟩

theorem Fetched.malloc (w : World) : Fetched w { w with
    heap := Function.update w.heap .table fun n => w.heap .table (n + 1) } where
  step := ⟨rfl, fun _ _ => rfl, rfl, rfl, rfl, rfl, rfl, rfl, rfl, by simp⟩
  disk_eq := rfl
  handle := fun file hf => ⟨file, hf, rfl⟩

theorem Fetched.trans {w'' : World} (h : Fetched w w') (h' : Fetched w' w'') : Fetched w w'' := by
  have hdir := h.step.directoryFile_eq
  have hstep := h'.step
  rw [hdir] at hstep
  refine ⟨h.step.trans hstep, h'.disk_eq.trans h.disk_eq, ?_⟩
  intro file hf
  obtain ⟨file1, hf1, hs1⟩ := h.handle file hf
  rw [← hdir] at hf1
  obtain ⟨file2, hf2, hs2⟩ := h'.handle file1 hf1
  rw [hdir] at hf2
  exact ⟨file2, hf2, hs2.trans hs1⟩

/-- The table of a directory is read from the disk through any object for it. -/
theorem run_readTable {f : FileId} {file : OpenFile} {n : Nat} (hlayout : Layout w.disk own)
    (hfile : FileOk w.disk own s c) (hf : w.files f = some file) (hsector : file.sector = s) (hn : 0 < n)
    (hlt : n < 2 ^ 32) : ∃ file', (read f n true).run w = some ((content w.disk c).take n, { w with
      files := Function.update w.files f (some file') }) ∧ file'.sector = s := by
  have hchain := hfile.readableChain hlayout
  have hs : file.sector < numSectors := by
    rw [hsector]
    exact hchain.lt s hfile.chain.start_mem
  obtain ⟨l, hc, -⟩ := hfile.chain
  generalize hfile1 : ({ file with hdr := hdrAt w.disk file.sector, seekPosition := 0 } : OpenFile) =
    file1
  have hsector1 : file1.sector = file.sector := by rw [← hfile1]
  have hread := run_read_directory hf hs hn
  rw [hfile1] at hread
  have hlt1 : file1.seekPosition + n < 2 ^ 32 := by
    rw [← hfile1]
    show 0 + n < 2 ^ 32
    omega
  obtain ⟨pre', x', post', seek', hrun, -⟩ := run_read
    (w := { w with files := Function.update w.files f (some file1) }) hchain
    (show c = [] ++ s :: l from hc) (Function.update_self ..) (by rw [← hfile1, hsector])
    (by rw [← hfile1]; exact Cursor.start w.disk s l) hn hlt1
  rw [← hc] at hrun
  simp only [Function.update_idem] at hrun
  exact ⟨_, hread.trans hrun, hsector1.trans hsector⟩

/-- The table of the current directory is read from the disk. -/
theorem run_readDirectory (h : DirFile w own m s c) : ∃ w',
    (read w.directoryFile (w.directorySize * dirEntrySize) true).run w = some (dirTable w c, w') ∧
      Fetched w w' := by
  obtain ⟨file, hfile, hsector⟩ := h.handle
  have hlt : w.directorySize * dirEntrySize < 2 ^ 32 := by
    have := length_content_lt (h.inv.file.readableChain h.inv.layout)
    have := h.size_le
    omega
  obtain ⟨file', hrun, hsector'⟩ := run_readTable h.inv.layout h.inv.file hfile hsector
    (Nat.mul_pos h.size_pos (by decide)) hlt
  exact ⟨_, hrun, Fetched.setFile hfile (hsector'.trans hsector.symm)⟩

/-- The current directory is fetched: its table on the disk. -/
theorem run_fetchDirectory (h : DirFile w own m s c) : ∃ dir w', fetchDirectory.run w = some (dir, w') ∧
    dir.tableSize = w.directorySize ∧ dir.table = dirTable w c ∧ Fetched w w' := by
  have h1 := Fetched.malloc w
  obtain ⟨w', hrun, hw'⟩ := run_readDirectory (h.fetched h1)
  refine ⟨{ tableSize := w.directorySize, table := dirTable w c, length_table := h.length_dirTable },
    w', ?_, rfl, rfl, h1.trans hw'⟩
  have hrun' : (read w.directoryFile (w.directorySize * dirEntrySize) true).run { w with
      heap := Function.update w.heap .table fun n => w.heap .table (n + 1) } =
      some (dirTable w c, w') := hrun
  simp only [fetchDirectory, Directory.new, run_bind, run_getState, Option.bind_some, run_assert,
    decide_eq_true h.size_pos, if_true, run_malloc, run_pure, Directory.fetchFrom, hrun',
    Directory.overlay]
  congr 3
  rw [poke_eq_splice (by simp [h.length_dirTable]), splice_of_length_eq (by simp [h.length_dirTable])]

end Fetch

/-! ## Room for the table -/

section Room

variable {d : Disk}

/-- The sectors that are needed to write `n` bytes over the headers `c` and behind them. -/
def needChain (d : Disk) (c : List Nat) (n : Nat) : Nat :=
  needNext (c.map (hdrAt d)) n + needAppend (n - c.length * maxHeaderBytes)

theorem needChain_congr {d' : Disk} {c : List Nat} (h : ∀ x ∈ c, hdrAt d' x = hdrAt d x) (n : Nat) :
    needChain d' c n = needChain d c n := by
  have hmap : c.map (hdrAt d') = c.map (hdrAt d) := List.map_congr_left h
  rw [needChain, hmap, needChain]

theorem needWrite_eq_needChain (d : Disk) (s : Nat) (l : List Nat) (n : Nat) :
    needWrite d s l 0 n = needChain d (s :: l) n := by
  have hhere : bytesHere 0 n = min n maxHeaderBytes := rfl
  have hrest : n - min n maxHeaderBytes = n - maxHeaderBytes := by omega
  unfold needWrite needOld needChain bytesNew
  rw [hhere, hrest, List.map_cons, needNext, List.length_cons, Nat.succ_mul, Nat.add_comm _ maxHeaderBytes,
    ← Nat.sub_sub]
  by_cases hn : n = 0
  · subst hn
    have hz : needNext (l.map (hdrAt d)) 0 = 0 := by
      cases l with
      | nil => rfl
      | cons y l => rw [List.map_cons, needNext, if_pos rfl]
    rw [if_pos rfl, Nat.zero_min, needHere, if_pos rfl, Nat.zero_sub, hz]
  · rw [if_neg hn]

/-- An entry in a new header takes two sectors. -/
theorem needAppend_le {n : Nat} (hn : n ≤ dirEntrySize) : needAppend n ≤ 2 ∧ (n = 0 → needAppend n = 0) := by
  unfold dirEntrySize at hn
  unfold needAppend divRoundUp sectorSize numDirect
  split_ifs <;> omega

/-- A `Write` that goes at most one entry past the end of the file takes at most two sectors: a data
sector, or a header with its data sector. Inside the file it takes none. -/
theorem needChain_le {c : List Nat} (hok : ∀ x ∈ c, (hdrAt d x).Ok) (hfull : Full d c) (hne : c ≠ []) :
    ∀ n, n ≤ (content d c).length + dirEntrySize →
      needChain d c n ≤ 2 ∧ (n ≤ (content d c).length → needChain d c n = 0) := by
  have hmax : maxHeaderBytes = 3712 := rfl
  have hsz : dirEntrySize = 28 := rfl
  induction c with
  | nil => exact absurd rfl hne
  | cons x c ih =>
    intro n hn
    have hx := hok x (List.mem_cons_self ..)
    have hle := hx.numBytes_le
    rw [content_cons, List.length_append, length_dataBytes hx] at hn ⊢
    cases c with
    | nil =>
      have hnil : (content d []).length = 0 := rfl
      rw [hnil, Nat.add_zero] at hn ⊢
      have hneed : needChain d [x] n = needHere (hdrAt d x) 0 (min n maxHeaderBytes) +
          needAppend (n - maxHeaderBytes) := by
        unfold needChain
        rw [List.map_singleton, needNext, List.length_singleton, Nat.one_mul]
        by_cases hz : n = 0
        · subst hz
          rw [if_pos rfl, Nat.zero_min, needHere, if_pos rfl]
        · rw [if_neg hz]
          rfl
      have hhere : needHere (hdrAt d x) 0 (min n maxHeaderBytes) ≤
          divRoundUp (max (hdrAt d x).numBytes (min n maxHeaderBytes)) sectorSize -
            divRoundUp (hdrAt d x).numBytes sectorSize := by
        unfold needHere RawFileHeader.newSectors
        rw [← hx.numSectors_eq]
        split
        · exact Nat.zero_le _
        · rw [show (hdrAt d x).numBytes + (0 + min n maxHeaderBytes - (hdrAt d x).numBytes) =
            max (hdrAt d x).numBytes (min n maxHeaderBytes) by omega]
      have hbehind := needAppend_le (n := n - maxHeaderBytes) (by omega)
      have h1 := le_divRoundUp_mul (hdrAt d x).numBytes
      have h2 := divRoundUp_mul_lt (max (hdrAt d x).numBytes (min n maxHeaderBytes))
      have hss : sectorSize = 128 := rfl
      rw [hneed]
      rw [hss] at h1 h2 hhere
      constructor
      · omega
      · intro hnk
        rw [Nat.max_eq_left (by omega)] at hhere
        omega
    | cons y c =>
      have hxfull : (hdrAt d x).numBytes = maxHeaderBytes := hfull [] x (y :: c) rfl (by simp)
      have hfull' : Full d (y :: c) := fun pre z post hc hpost =>
        hfull (x :: pre) z post (by rw [hc]; rfl) hpost
      have hih := ih (fun z hz => hok z (List.mem_cons_of_mem x hz)) hfull' (by simp)
        (n - maxHeaderBytes) (by omega)
      have hneed : needChain d (x :: y :: c) n = needChain d (y :: c) (n - maxHeaderBytes) := by
        unfold needChain
        rw [List.map_cons, needNext, List.length_cons, Nat.succ_mul,
          Nat.add_comm _ maxHeaderBytes, ← Nat.sub_sub]
        by_cases hz : n = 0
        · subst hz
          rw [if_pos rfl, Nat.zero_sub, List.map_cons, needNext, if_pos rfl]
        · rw [if_neg hz, needHere, hxfull, RawFileHeader.newSectors, hx.numSectors_eq, hxfull]
          have hcov : 0 + min n maxHeaderBytes - maxHeaderBytes = 0 := by omega
          rw [hcov, Nat.add_zero, Nat.sub_self]
          split <;> rw [Nat.zero_add]
      rw [hneed]
      exact ⟨hih.1, fun hnk => hih.2 (by omega)⟩

end Room

/-! ## Back to the disk -/

section WriteBack

variable {w w' : World} {own : Nat → Option Nat} {m : Bitmap} {s : Nat} {c : List Nat} {me : Tid}
  {f : FileId} {file : OpenFile} {data : List UInt8} {isDirectory : Bool} {r : Nat}

/-- A `Write` that returns has found its lock free. -/
theorem write_lock (hrun : (write me f data isDirectory).run w = some (r, w'))
    (hf : w.files f = some file) (hs : file.sector < numSectors) :
    ∃ l, (w.table file.sector).writeLock = some l ∧ w.locks l = some { lockOwner := none } := by
  rw [write] at hrun
  obtain ⟨_, w1, hassert, hrun⟩ := run_bind_eq_some.mp hrun
  rw [run_assert] at hassert
  split at hassert
  · cases hassert
    rw [run_bind, run_getFile hf, Option.bind_some, run_bind, run_getEntry hs, Option.bind_some] at hrun
    obtain ⟨u, w1, hacq, -⟩ := run_bind_eq_some.mp hrun
    obtain ⟨l, hl, hfree, -⟩ := acquire_inv hacq
    exact ⟨l, hl, hfree⟩
  · cases hassert

/-- `WriteBack` with enough free sectors: the table stands on the disk in front of what was behind
it. -/
theorem DirHandle.writeBack {dir : Directory} {u : Unit} (h : DirHandle w own m s c)
    (hsize : 0 < dir.tableSize) (hneed : needChain w.disk c dir.table.length ≤ m.countClear)
    (hrun : (writeBackDirectory me dir).run w = some (u, w')) :
    ∃ own' m' c', WStep w.directoryFile s w own m w' own' m' ∧ DirHandle w' own' m' s c' ∧
      content w'.disk c' = dir.table ++ (content w.disk c).drop dir.table.length ∧ c <+: c' ∧
      Tight s m m' own' := by
  obtain ⟨file, hfile, hsector⟩ := h.handle
  have hs : file.sector < numSectors := by
    rw [hsector]
    exact h.inv.header_lt h.inv.file.chain.start_mem
  have hdata : dir.table ≠ [] := by
    apply List.ne_nil_of_length_pos
    rw [dir.length_table]
    exact Nat.mul_pos hsize (by decide)
  rw [writeBackDirectory, run_bind, run_getState, Option.bind_some, Directory.writeBack] at hrun
  obtain ⟨r, w1, hwrite, hret⟩ := run_bind_eq_some.mp hrun
  cases hret
  obtain ⟨l, hl, hfree⟩ := write_lock hwrite hfile hs
  obtain ⟨post, hc, -⟩ := h.inv.file.chain
  have hinv : WriteInv w own m w.directoryFile s ([] ++ s :: post) := by
    rw [List.nil_append, ← hc]
    exact h.inv
  obtain ⟨w1, own', m', c', file', r', hrun1, hw⟩ := run_write me true hinv hfile
    (show (rewound file true).currentSector = s from hsector) (show _ = 0 from rfl) (Nat.zero_le _) hs hl
    hfree hdata
  rw [hwrite] at hrun1
  cases hrun1
  rw [hc, ← needWrite_eq_needChain] at hneed
  have hr := hw.room hneed
  obtain ⟨hfull', pre', post', hc', hcur⟩ := hw.move (by rw [List.nil_append, ← hc]; exact h.full) _ _
    (Cursor.start w.disk s post)
  refine ⟨own', m', c', hw.step, ⟨?_, hfull', ⟨file', ?_, hw.sector_eq.trans hsector⟩⟩, ?_, ?_,
    hw.tight (writeFits_of_room hneed)⟩
  · rw [hw.step.world.directoryFile_eq]
    exact hw.inv
  · rw [hw.step.world.directoryFile_eq]
    exact hw.file_eq
  · have := hcur.content_eq
    rw [← hc'] at this
    rw [this, hr, List.nil_append, List.take_length, hc]
  · rw [hc]
    exact hw.isPrefix

end WriteBack

end Nachos.Filesys
