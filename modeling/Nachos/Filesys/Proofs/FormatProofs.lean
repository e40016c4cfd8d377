import Nachos.Filesys.Formatting
import Nachos.Filesys.Proofs.NewDirectoryProofs

/-!
# Proofs: formatting

The constructor `FileSystem(true)` takes the first free sectors for the data of the free map and of the root
directory, provided that the counters of the two new headers are zero: `Allocate` adds to what they hold.
-/

namespace Nachos

open Foundations Resumption

/-! ## Allocating the first sectors -/

namespace RawFileHeader

section First

variable {h : RawFileHeader} {m : Bitmap} {k : Nat}

theorem take_set_succ (l : List Nat) {i : Nat} (hi : i < l.length) (x : Nat) :
    (l.set i x).take (i + 1) = l.take i ++ [x] := by
  rw [List.take_succ, List.getElem?_set_self hi, List.take_set_of_le (Nat.le_refl i)]
  rfl

/-- The loop of `Allocate` takes the sectors from `k` on, by induction over their number. -/
theorem findSectors_first (count : Nat) : ∀ {i k : Nat} {h : RawFileHeader} {m : Bitmap}, m.FirstMarked k →
    k + count ≤ m.numBits → i + count ≤ numDirect → ∃ h' m', findSectors count i h m = some (h', m') ∧
      m'.FirstMarked (k + count) ∧ m'.numBits = m.numBits ∧ h'.numBytes = h.numBytes ∧
      h'.numSectors = h.numSectors ∧
      h'.dataSectors.take (i + count) = h.dataSectors.take i ++ List.range' k count := by
  induction count with
  | zero =>
    intro i k h m hm _ _
    exact ⟨h, m, rfl, hm, rfl, rfl, rfl, by simp⟩
  | succ count ih =>
    intro i k h m hm hk hi
    have hfind := hm.find (by omega)
    obtain ⟨h', m', hrun, hm', hbits, hbytes, hsectors, htake⟩ :=
      ih (i := i + 1) (h := h.setDataSector i k) (hm.mark (by omega)) (by rw [Bitmap.numBits_mark]; omega) (by omega)
    refine ⟨h', m', ?_, ?_, hbits, hbytes, hsectors, ?_⟩
    · rw [findSectors, if_pos (by omega), hfind]
      exact hrun
    · rw [Nat.add_assoc, Nat.add_comm 1 count] at hm'
      exact hm'
    · rw [Nat.add_assoc, Nat.add_comm 1 count] at htake
      rw [htake]
      show (h.dataSectors.set i k).take (i + 1) ++ _ = _
      rw [take_set_succ _ (by rw [h.length_dataSectors]; omega), List.append_assoc, List.range'_succ]
      rfl

/-- What `Allocate` makes of a header without data: the file has the sectors from `k` on. -/
structure FirstAllocated (m : Bitmap) (k size : Nat) (h' : RawFileHeader) (m' : Bitmap) : Prop where
  numBytes_eq : h'.numBytes = size
  numSectors_eq : h'.numSectors = divRoundUp size sectorSize
  dataOf_eq : h'.dataOf = List.range' k (divRoundUp size sectorSize)
  marked : m'.FirstMarked (k + divRoundUp size sectorSize)
  numBits_eq : m'.numBits = m.numBits

theorem allocate_first {size : Nat} (hbytes : h.numBytes = 0) (hsectors : h.numSectors = 0) (hm : m.FirstMarked k)
    (hbits : m.numBits = Nachos.numSectors) (hsize : size ≤ maxHeaderBytes)
    (hk : k + divRoundUp size sectorSize ≤ m.numBits) :
    ∃ h' m', h.allocate m size = some (true, h', m') ∧ FirstAllocated m k size h' m' := by
  have hmax : maxHeaderBytes < 2 ^ 32 := by decide
  have hle := divRoundUp_le_numDirect hsize
  have hnum : numDirect = 29 := rfl
  have hu : u32 (h.numBytes + size) = size := by
    rw [hbytes, Nat.zero_add]
    exact u32_of_lt (by omega)
  obtain ⟨h', m', hrun, hm', hbits', hb, hs, htake⟩ := findSectors_first (divRoundUp size sectorSize) (i := 0)
    (h := { h with numBytes := size, numSectors := divRoundUp size sectorSize }) hm hk (by omega)
  have hnew : u32 (divRoundUp size sectorSize + 2 ^ 32) = divRoundUp size sectorSize := by
    rw [u32, Nat.add_mod_right]
    exact Nat.mod_eq_of_lt (by omega)
  have hclear : ¬ (divRoundUp size sectorSize ≠ 0 ∧ m.countClear < divRoundUp size sectorSize) := by
    rw [hm.countClear_eq]
    omega
  refine ⟨h', m', ?_, hb, hs, ?_, hm', hbits'⟩
  · rw [allocate]
    simp only [hu, hsectors, Nat.sub_zero, hnew, if_neg hclear, hrun, Option.map_some]
  · rw [dataOf, hs]
    simpa using htake

end First

end RawFileHeader

namespace Filesys

/-- The header of a system file, made in memory whose counters are zero. -/
theorem allocateSystemFile_first {heap : ByteMemory} {m : Bitmap} {k size : Nat} (hheap : Zeroed heap)
    (hm : m.FirstMarked k) (hbits : m.numBits = numSectors) (hsize : size ≤ maxHeaderBytes)
    (hk : k + divRoundUp size sectorSize ≤ m.numBits) :
    ∃ h m', allocateSystemFile heap m size = some (h, m') ∧
      RawFileHeader.FirstAllocated m k size h m' ∧ h.nextFileHeader = 0 ∧ h.Fits := by
  obtain ⟨h, m', hrun, hfirst⟩ := RawFileHeader.allocate_first hheap.numBytes_eq hheap.numSectors_eq hm hbits hsize hk
  have hok : (RawFileHeader.ofMemory heap).Ok := by
    refine ⟨?_, ?_⟩
    · rw [hheap.numSectors_eq, hheap.numBytes_eq]
      rfl
    · rw [hheap.numBytes_eq]
      exact Nat.zero_le _
  obtain ⟨h1, m1, news, hrun1, hallocated⟩ := RawFileHeader.allocate_enough (k := size) hok hbits
    (by rw [hheap.numBytes_eq, Nat.zero_add]; exact hsize) (by
      rw [RawFileHeader.newSectors, hheap.numBytes_eq, Nat.zero_add, hm.countClear_eq]
      omega)
  rw [hrun] at hrun1
  cases hrun1
  refine ⟨{ h with nextFileHeader := 0 }, m', ?_, ⟨hfirst.numBytes_eq, hfirst.numSectors_eq, hfirst.dataOf_eq,
    hfirst.marked, hfirst.numBits_eq⟩, rfl, ?_⟩
  · rw [allocateSystemFile, hrun]
    rfl
  · have hfits := RawFileHeader.fits_iff.mp (hallocated.fits (RawFileHeader.fits_ofMemory heap))
    exact RawFileHeader.fits_iff.mpr ⟨hfits.1, hfits.2.1, hfits.2.2.1, Nat.two_pow_pos 32⟩

/-! ## The layout of a formatted disk -/

/-- The headers of the system files with their sectors, and the free map. -/
structure SystemHeaders (d : Disk) : Prop where
  map : MapHeader (hdrAt d 0)
  numBytes_eq : (hdrAt d directorySector).numBytes = directoryFileSize
  numSectors_eq : (hdrAt d directorySector).numSectors = 3
  dataOf_eq : (hdrAt d directorySector).dataOf = [3, 4, 5]
  next_eq : (hdrAt d directorySector).nextFileHeader = 0

section SystemHeaders

variable {d : Disk}

theorem SystemHeaders.sectors_map (h : SystemHeaders d) : sectorsOf d [0] = [0, freeMapDataSector] := by
  rw [sectorsOf_cons, h.map.dataOf_eq]
  rfl

theorem SystemHeaders.sectors_directory (h : SystemHeaders d) : sectorsOf d [directorySector] = [1, 3, 4, 5] := by
  rw [sectorsOf_cons, h.dataOf_eq]
  rfl

theorem freshOwner_map (x : Nat) : freshOwner x = some 0 ↔ x ∈ [0, freeMapDataSector] := by
  constructor
  · intro h
    rcases freshOwner_cases h with ⟨rfl | rfl, -⟩ | ⟨-, hne⟩
    · decide
    · decide
    · cases hne
  · intro h
    rw [freshOwner, if_pos (by simpa using h)]

theorem freshOwner_directory (x : Nat) : freshOwner x = some directorySector ↔ x ∈ [1, 3, 4, 5] := by
  constructor
  · intro h
    rcases freshOwner_cases h with ⟨-, hne⟩ | ⟨hx, -⟩
    · cases hne
    · simpa using hx
  · intro h
    have hx : x = 1 ∨ x = 3 ∨ x = 4 ∨ x = 5 := by simpa using h
    rcases hx with rfl | rfl | rfl | rfl <;> decide

theorem SystemHeaders.map_fileOk (h : SystemHeaders d) : FileOk d freshOwner 0 [0] where
  chain := ⟨[], rfl, h.map.next_eq⟩
  ok := by
    intro x hx
    rw [List.mem_singleton.mp hx]
    exact h.map.ok
  nodup := by
    rw [h.sectors_map]
    decide
  own_iff := by
    rw [h.sectors_map]
    exact freshOwner_map

theorem SystemHeaders.directory_fileOk (h : SystemHeaders d) :
    FileOk d freshOwner directorySector [directorySector] where
  chain := ⟨[], rfl, h.next_eq⟩
  ok := by
    intro x hx
    rw [List.mem_singleton.mp hx]
    refine ⟨?_, ?_⟩
    · rw [h.numSectors_eq, h.numBytes_eq]
      rfl
    · rw [h.numBytes_eq]
      decide
  nodup := by
    rw [h.sectors_directory]
    decide
  own_iff := by
    rw [h.sectors_directory]
    exact freshOwner_directory

theorem SystemHeaders.layout (h : SystemHeaders d) : Layout d freshOwner where
  files := by
    intro x t hx
    rcases freshOwner_cases hx with ⟨-, rfl⟩ | ⟨-, rfl⟩
    · exact ⟨[0], h.map_fileOk⟩
    · exact ⟨[directorySector], h.directory_fileOk⟩
  lt := by
    intro x t hx
    rcases freshOwner_cases hx with ⟨rfl | rfl, -⟩ | ⟨rfl | rfl | rfl | rfl, -⟩ <;> decide
  own_zero := rfl
  mapHeader := h.map

theorem SystemHeaders.congr {d' : Disk} (h : SystemHeaders d) (hmap : d' 0 = d 0)
    (hdir : d' directorySector = d directorySector) : SystemHeaders d' := by
  have h0 := hdrAt_congr hmap
  have h1 := hdrAt_congr hdir
  refine ⟨?_, ?_, ?_, ?_, ?_⟩
  · rw [h0]
    exact h.map
  · rw [h1]
    exact h.numBytes_eq
  · rw [h1]
    exact h.numSectors_eq
  · rw [h1]
    exact h.dataOf_eq
  · rw [h1]
    exact h.next_eq

end SystemHeaders

/-! ## The constructor -/

/-- The state that the constructor leaves. -/
structure AfterFormat (w : World) : Prop where
  headers : SystemHeaders w.disk
  freeMap : ∃ m, MapIs w.disk m ∧ m.FirstMarked 6
  mapFile : MapFileOk w
  table : ∃ dir : Directory, dir.tableSize = numDirEntries ∧ content w.disk [directorySector] = dir.table ∧
    (∀ i, ¬ Used dir.table i) ∧ Clean dir.table
  directorySize_eq : w.directorySize = numDirEntries
  mapSector : (books w).sectors w.freeMapFile = some freeMapSector
  directorySector_eq : (books w).sectors w.directoryFile = some directorySector

section Format

variable {disk : Disk} {heap : HeapUse → Nat → ByteMemory}

/-- Up to the two headers: the sectors from 2 on go to the free map and the directory. -/
theorem run_systemFiles (hmap : Zeroed (heap .header 0)) (hdir : Zeroed (heap .header 1)) {m : Bitmap}
    (hm : m.FirstMarked 2) (hbits : m.numBits = numSectors) :
    ∃ mapH dirH m1 m2, allocateSystemFile (heap .header 0) m freeMapFileSize = some (mapH, m1) ∧
      allocateSystemFile (heap .header 1) m1 directoryFileSize = some (dirH, m2) ∧ MapHeader mapH ∧ mapH.Fits ∧
      dirH.numBytes = directoryFileSize ∧ dirH.numSectors = 3 ∧ dirH.dataOf = [3, 4, 5] ∧
      dirH.nextFileHeader = 0 ∧ dirH.Fits ∧ m2.FirstMarked 6 ∧ m2.numBits = numSectors := by
  obtain ⟨mapH, m1, hrun1, hfirst1, hnext1, hfits1⟩ := allocateSystemFile_first hmap hm hbits
    (show freeMapFileSize ≤ maxHeaderBytes by decide) (by rw [hbits]; decide)
  have hbits1 : m1.numBits = numSectors := hfirst1.numBits_eq.trans hbits
  obtain ⟨dirH, m2, hrun2, hfirst2, hnext2, hfits2⟩ := allocateSystemFile_first hdir hfirst1.marked hbits1
    (show directoryFileSize ≤ maxHeaderBytes by decide) (by rw [hbits1]; decide)
  exact ⟨mapH, dirH, m1, m2, hrun1, hrun2, ⟨hfirst1.numBytes_eq, hfirst1.numSectors_eq, hfirst1.dataOf_eq, hnext1⟩,
    hfits1, hfirst2.numBytes_eq, hfirst2.numSectors_eq, hfirst2.dataOf_eq, hnext2, hfits2, hfirst2.marked,
    hfirst2.numBits_eq.trans hbits1⟩

/-- What is known once the two headers are written. -/
structure HeadersWritten (w : World) (mapH dirH : RawFileHeader) : Prop where
  map_eq : hdrAt w.disk freeMapSector = mapH
  directory_eq : hdrAt w.disk directorySector = dirH
  nextFile_eq : w.nextFile = 0

/-- The free map that the constructor starts from. -/
def firstMap : Bitmap := ((Bitmap.new numSectors fun _ => 0).mark freeMapSector).mark directorySector

theorem firstMap_numBits : firstMap.numBits = numSectors :=
  (Bitmap.firstMarked_marks (k := 2) (n := numSectors) (fun _ => 0) (by decide)).1

theorem firstMap_firstMarked : firstMap.FirstMarked 2 :=
  (Bitmap.firstMarked_marks (k := 2) (n := numSectors) (fun _ => 0) (by decide)).2

/-- The constructor from the headers on: the objects are made, the free map and the first table are written, and the
table is read back. -/
def formatRest (freeMap : Bitmap) (dir : Directory) : Fs Unit := do
  let freeMapFile ← newOpenFile freeMapSector
  modifyState fun w => { w with freeMapFile := freeMapFile }
  let directoryFile ← newOpenFile directorySector
  modifyState fun w => { w with directoryFile := directoryFile }
  writeBackFreeMap freeMap
  dir.writeBackFirst directoryFile
  let bs ← read directoryFile (numDirEntries * dirEntrySize) true
  modifyState fun w => { w with directorySize := bs.length / dirEntrySize }

theorem format_eq : format = (do
    let dir ← Directory.new numDirEntries
    let mapHeap ← malloc .header
    let dirHeap ← malloc .header
    let mapFile ← ofOption (allocateSystemFile mapHeap firstMap freeMapFileSize)
    let dirFile ← ofOption (allocateSystemFile dirHeap mapFile.2 directoryFileSize)
    writeSector freeMapSector mapFile.1.toSector
    writeSector directorySector dirFile.1.toSector
    formatRest dirFile.2 dir) := rfl

theorem run_formatRest {w : World} {mapH dirH : RawFileHeader} {m : Bitmap} {dir : Directory}
    (hw : HeadersWritten w mapH dirH) (hheaders : SystemHeaders w.disk) (hm : m.FirstMarked 6)
    (hbits : m.numBits = numSectors) (hsize : dir.tableSize = numDirEntries) (hunused : ∀ i, ¬ Used dir.table i)
    (hclean : Clean dir.table) :
    ∃ w', (formatRest m dir).run w = some ((), w') ∧ AfterFormat w' := by
  have hlen : dir.table.length = directoryFileSize := by
    rw [dir.length_table, hsize]
    rfl
  -- the two objects
  obtain ⟨w1, hopen1, hat1⟩ := run_newOpenFile (s := freeMapSector) (by decide) w
  rw [hw.nextFile_eq] at hopen1
  generalize hw2 : ({ w1 with freeMapFile := 0 } : World) = w2
  obtain ⟨w3, hopen3, hat3⟩ := run_newOpenFile (s := directorySector) (by decide) w2
  have hnext2 : w2.nextFile = 1 := by
    rw [← hw2]
    exact hat1.nextFile_eq.trans (by rw [hw.nextFile_eq])
  rw [hnext2] at hopen3
  generalize hw4 : ({ w3 with directoryFile := 1 } : World) = w4
  have hdisk2 : w2.disk = w.disk := by
    rw [← hw2]
    exact hat1.disk_eq
  have hdisk4 : w4.disk = w.disk := by
    rw [← hw4]
    exact hat3.disk_eq.trans hdisk2
  have hfiles2 : w2.files 0 =
      some { hdr := mapH, seekPosition := 0, sector := freeMapSector, currentSector := freeMapSector } := by
    rw [← hw2, ← hw.map_eq]
    show w1.files 0 = _
    rw [hat1.files_eq, hw.nextFile_eq, Function.update_self]
  have hfiles4 : w4.files = Function.update w2.files 1
      (some { hdr := dirH, seekPosition := 0, sector := directorySector, currentSector := directorySector }) := by
    rw [← hw4, ← hw.directory_eq, ← hdisk2, ← hnext2]
    exact hat3.files_eq
  have hmapFile4 : w4.freeMapFile = 0 := by
    rw [← hw4]
    exact hat3.freeMapFile_eq.trans (by rw [← hw2])
  have hfile0 : w4.files 0 =
      some { hdr := mapH, seekPosition := 0, sector := freeMapSector, currentSector := freeMapSector } := by
    rw [hfiles4, Function.update_of_ne (by decide)]
    exact hfiles2
  have hfile1 : w4.files 1 =
      some { hdr := dirH, seekPosition := 0, sector := directorySector, currentSector := directorySector } := by
    rw [hfiles4, Function.update_self]
  have hmapH : MapHeader mapH := by
    rw [← hw.map_eq]
    exact hheaders.map
  have hmapOk4 : MapFileOk w4 := ⟨_, by rw [hmapFile4]; exact hfile0, hmapH⟩
  -- the free map
  obtain ⟨w5, hwrite5, hwrote5⟩ := run_writeBackFreeMap hmapOk4 hbits
  obtain ⟨D5, hD5⟩ := hwrote5.eq_with
  have hfiles5 : w5.files = w4.files := by rw [hD5]
  have hsame5 : ∀ x, x ≠ freeMapDataSector → w5.disk x = w.disk x := fun x hx => by
    rw [hwrote5.disk_eq x hx, hdisk4]
  have hheaders5 := hheaders.congr (hsame5 0 (by decide)) (hsame5 directorySector (by decide))
  -- the first table
  have hdirData : dirH.dataOf = [3, 4, 5] := by
    rw [← hw.directory_eq]
    exact hheaders.dataOf_eq
  have hdirOk : dirH.Ok := by
    rw [← hw.directory_eq]
    exact hheaders.directory_fileOk.ok _ List.mem_cons_self
  have hdirBytes : dirH.numBytes = dir.table.length := by
    rw [← hw.directory_eq, hlen]
    exact hheaders.numBytes_eq
  have hreadable : Readable
      { hdr := dirH, seekPosition := 0, sector := directorySector, currentSector := directorySector } := by
    refine ⟨hdirOk, fun x hx => ?_⟩
    change x ∈ dirH.dataOf at hx
    rw [hdirData] at hx
    have hx' : x = 3 ∨ x = 4 ∨ x = 5 := by simpa using hx
    rcases hx' with rfl | rfl | rfl <;> decide
  obtain ⟨D6, hfirst, hout, hdata⟩ := run_writeBackFirst (w := w5) (f := 1) (by rw [hfiles5]; exact hfile1)
    hreadable (by change dirH.dataOf.Nodup; rw [hdirData]; decide) hdirBytes (by rw [hlen]; decide)
    (by rw [hlen]; decide)
  have hout' : ∀ x, x ∉ [3, 4, 5] → D6 x = w5.disk x := by
    intro x hx
    rw [← hdirData] at hx
    exact hout x hx
  have hheaders6 := hheaders5.congr (hout' 0 (by decide)) (hout' directorySector (by decide))
  have hhdr6 : hdrAt D6 directorySector = dirH := by
    rw [hdrAt_congr (hout' directorySector (by decide)), hdrAt_congr (hsame5 directorySector (by decide)),
      hw.directory_eq]
  have hcontent6 : content D6 [directorySector] = dir.table := by
    rw [content_cons, hhdr6, hdata]
    exact List.append_nil _
  generalize hw6 : ({ w5 with
    disk := D6
    heap := Function.update w5.heap .buffer fun n => w5.heap .buffer (n + 1) } : World) = w6 at hfirst
  have hdisk6 : w6.disk = D6 := by rw [← hw6]
  have hfiles6 : w6.files = w4.files := by rw [← hw6, ← hfiles5]
  -- the table read back
  obtain ⟨file', hread, hsector'⟩ := run_readTable (w := w6) (f := 1) (s := directorySector)
    (c := [directorySector]) (n := numDirEntries * dirEntrySize) (by rw [hdisk6]; exact hheaders6.layout) (by rw [hdisk6]; exact hheaders6.directory_fileOk)
    (by rw [hfiles6]; exact hfile1) rfl (by decide) (by decide)
  have hbytes : (content w6.disk [directorySector]).take (numDirEntries * dirEntrySize) = dir.table := by
    rw [hdisk6, hcontent6, List.take_of_length_le (by rw [hlen]; decide)]
  rw [hbytes] at hread
  refine ⟨{ w6 with
    files := Function.update w6.files 1 (some file')
    directorySize := dir.table.length / dirEntrySize }, ?_, ?_⟩
  · rw [formatRest, run_bind, hopen1, Option.bind_some, run_bind, run_modifyState, Option.bind_some, hw2, run_bind, hopen3,
      Option.bind_some, run_bind, run_modifyState, Option.bind_some, hw4, run_bind, hwrite5, Option.bind_some,
      run_bind, hfirst, Option.bind_some, run_bind, hread, Option.bind_some, run_modifyState]
  · have hfree6 : w6.freeMapFile = 0 := by
      rw [← hw6, hD5]
      exact hmapFile4
    have hdirFile6 : w6.directoryFile = 1 := by
      rw [← hw6, hD5, ← hw4]
    have hfiles7 : Function.update w6.files 1 (some file') 0 =
        some { hdr := mapH, seekPosition := 0, sector := freeMapSector, currentSector := freeMapSector } := by
      rw [Function.update_of_ne (by decide), hfiles6]
      exact hfile0
    refine ⟨?_, ⟨m, ?_, hm⟩, ⟨⟨mapH, 0, freeMapSector, freeMapSector⟩, ?_, hmapH⟩, ⟨dir, hsize, ?_, hunused, hclean⟩, ?_, ?_, ?_⟩
    · exact hdisk6.symm ▸ hheaders6
    · refine (hwrote5.mapIs.congr ?_)
      show w6.disk freeMapDataSector = _
      rw [hdisk6]
      exact hout' freeMapDataSector (by decide)
    · show Function.update w6.files 1 (some file') w6.freeMapFile = _
      rw [hfree6]
      exact hfiles7
    · show content w6.disk [directorySector] = _
      rw [hdisk6]
      exact hcontent6
    · show dir.table.length / dirEntrySize = numDirEntries
      rw [hlen]
      rfl
    · show (Function.update w6.files 1 (some file') w6.freeMapFile).map OpenFile.sector = _
      rw [hfree6, hfiles7]
      rfl
    · show (Function.update w6.files 1 (some file') w6.directoryFile).map OpenFile.sector = _
      rw [hdirFile6, Function.update_self]
      exact congrArg some hsector'

/-- With counters that are zero in the memory of both headers, the constructor returns and formats the disk. -/
theorem run_format (hmap : Zeroed (heap .header 0)) (hdir : Zeroed (heap .header 1)) :
    ∃ w, format.run (World.initial disk heap) = some ((), w) ∧ AfterFormat w := by
  generalize hw0 : World.initial disk heap = w0
  have hheap0 : w0.heap = heap := by rw [← hw0]; rfl
  have hnext0 : w0.nextFile = 0 := by rw [← hw0]; rfl
  obtain ⟨mapH, dirH, m1, m2, halloc1, halloc2, hmapH, hmapFits, hbytes, hsectors, hdata, hnext, hdirFits, hm2,
    hbits2⟩ := run_systemFiles hmap hdir firstMap_firstMarked firstMap_numBits
  -- the memories of the three objects
  have hnew : ∃ dir, (Directory.new numDirEntries).run w0 = some (dir,
      { w0 with heap := Function.update w0.heap .table fun n => w0.heap .table (n + 1) }) := ⟨_, rfl⟩
  obtain ⟨dir, hnew⟩ := hnew
  obtain ⟨hsize, hunused, hclean, -⟩ := newDirectory_unused hnew
  generalize hw1 : ({ w0 with heap := Function.update w0.heap .table fun n => w0.heap .table (n + 1) } : World) = w1
    at hnew
  have hheap1 : w1.heap .header = heap .header := by
    rw [← hw1, ← hheap0]
    dsimp only
    rw [Function.update_of_ne (show HeapUse.header ≠ HeapUse.table by decide)]
  have hmalloc1 := run_malloc (w := w1) .header
  generalize hw2 : ({ w1 with heap := Function.update w1.heap .header fun n => w1.heap .header (n + 1) } : World) =
    w2 at hmalloc1
  have hheap2 : w2.heap .header 0 = heap .header 1 := by
    rw [← hw2, ← hheap1]
    show Function.update w1.heap HeapUse.header (fun n => w1.heap .header (n + 1)) HeapUse.header 0 = _
    rw [Function.update_self]
  have hmalloc2 := run_malloc (w := w2) .header
  generalize hw3 : ({ w2 with heap := Function.update w2.heap .header fun n => w2.heap .header (n + 1) } : World) =
    w3 at hmalloc2
  rw [hheap1] at hmalloc1
  rw [hheap2] at hmalloc2
  have hnext3 : w3.nextFile = 0 := by
    rw [← hw3, ← hw2, ← hw1]
    exact hnext0
  -- the headers on the disk
  generalize hw5 : ({ w3 with
    disk := Function.update (Function.update w3.disk freeMapSector mapH.toSector) directorySector dirH.toSector } :
      World) = w5
  have hmap5 : hdrAt w5.disk freeMapSector = mapH := by
    rw [hdrAt, ← hw5]
    dsimp only
    rw [Function.update_of_ne (by decide), Function.update_self]
    exact RawFileHeader.ofSector_toSector hmapFits
  have hdir5 : hdrAt w5.disk directorySector = dirH := by
    rw [hdrAt, ← hw5]
    dsimp only
    rw [Function.update_self]
    exact RawFileHeader.ofSector_toSector hdirFits
  have hheaders5 : SystemHeaders w5.disk := by
    refine ⟨?_, ?_, ?_, ?_, ?_⟩
    · rw [show hdrAt w5.disk 0 = mapH from hmap5]
      exact hmapH
    all_goals
      rw [hdir5]
      assumption
  have hwritten : HeadersWritten w5 mapH dirH := ⟨hmap5, hdir5, by rw [← hw5]; exact hnext3⟩
  obtain ⟨w', hrun, hafter⟩ := run_formatRest hwritten hheaders5 hm2 hbits2 hsize hunused hclean
  refine ⟨w', ?_, hafter⟩
  rw [format_eq, run_bind, hnew, Option.bind_some, run_bind, hmalloc1, Option.bind_some, run_bind, hmalloc2,
    Option.bind_some, run_bind, halloc1, run_ofOption_some, Option.bind_some, run_bind, halloc2, run_ofOption_some,
    Option.bind_some, run_bind, run_writeSector (by decide), Option.bind_some, run_bind,
    run_writeSector (by decide), Option.bind_some]
  dsimp only
  rw [hw5]
  exact hrun

end Format

/-! ## What is on the disk -/

/-- The free map that a fresh object of the free-map file reads. -/
theorem storedFreeMap_eq {d : Disk} {m : Bitmap} (hmap : MapHeader (hdrAt d 0)) (hm : MapIs d m) :
    storedFreeMap d = m := by
  have hcontent : content d [freeMapSector] = mapBytes m := by
    rw [content_cons]
    show dataBytes d (hdrAt d 0) ++ content d [] = _
    rw [hmap.dataBytes_eq, hm.bytes_eq]
    exact List.append_nil _
  rw [storedFreeMap, hcontent, overlayMap_mapBytes]
  rw [Bitmap.numBits_new, hm.numBits_eq]

theorem AfterFormat.formattedDisk {w : World} (h : AfterFormat w) : FormattedDisk w.disk := by
  obtain ⟨m, hm, hmarked⟩ := h.freeMap
  obtain ⟨dir, hsize, hcontent, hunused, -⟩ := h.table
  refine ⟨⟨h.headers.map.numBytes_eq, h.headers.map.numSectors_eq, h.headers.map.next_eq⟩,
    ⟨h.headers.numBytes_eq, h.headers.numSectors_eq, h.headers.next_eq⟩, fun x hx => ?_, ?_, ?_⟩
  · rw [storedFreeMap_eq h.headers.map hm, hmarked x (by rw [hm.numBits_eq]; exact hx)]
    show _ ↔ x ∈ sectorsOf w.disk [0] ∨ _
    rw [h.headers.sectors_map, h.headers.sectors_directory, decide_eq_true_iff]
    have htwo : freeMapDataSector = 2 := rfl
    simp only [htwo, List.mem_cons, List.not_mem_nil, or_false]
    omega
  · rw [hcontent, Directory.numEntries_table, hsize]
  · rw [hcontent]
    exact hunused

/-- The constructor formats the disk whatever else the memory held, if the counters of the two headers are zero. -/
theorem formatsWith_of_zeroed {mapHeap dirHeap : ByteMemory} (hmap : Zeroed mapHeap) (hdir : Zeroed dirHeap) :
    FormatsWith mapHeap dirHeap := by
  intro disk heap h0 h1
  subst h0 h1
  obtain ⟨w, hrun, hafter⟩ := run_format hmap hdir
  exact ⟨(), w, hrun, hafter.formattedDisk⟩

end Filesys

end Nachos
