import Nachos.Filesys.Proofs.FormatProofs

/-!
# Proofs: formatting over old memory

The constructor `FileSystem(true)` with any memory for its two headers. What it writes behind the headers is the free
map and the first table, wherever the headers point. Names that are full of ones in the table of the root show where
the table has landed: not on a header, not on the free map, and not twice on one sector.
-/

namespace Nachos

open Foundations Resumption

namespace RawFileHeader

/-! ## Allocating with any header -/

section Any

variable {h h' : RawFileHeader} {m m' : Bitmap}

/-- The loop of `Allocate` keeps the counters, and marks stay. -/
structure Searched (h : RawFileHeader) (m : Bitmap) (h' : RawFileHeader) (m' : Bitmap) : Prop where
  numBytes_eq : h'.numBytes = h.numBytes
  numSectors_eq : h'.numSectors = h.numSectors
  next_eq : h'.nextFileHeader = h.nextFileHeader
  fits : h.Fits → h'.Fits
  numBits_eq : m'.numBits = m.numBits
  marks : ∀ x, m.test x = true → m'.test x = true

theorem fits_setDataSector {i x : Nat} (hfits : h.Fits) (hx : x < 2 ^ 32) : (h.setDataSector i x).Fits := by
  have hall := fits_iff.mp hfits
  refine fits_iff.mpr ⟨hall.1, hall.2.1, fun s hs => ?_, hall.2.2.2⟩
  rcases List.mem_or_eq_of_mem_set hs with hs | rfl
  · exact hall.2.2.1 s hs
  · exact hx

theorem findSectors_searched (count : Nat) : ∀ {i : Nat} {h : RawFileHeader} {m : Bitmap},
    m.numBits = Nachos.numSectors → findSectors count i h m = some (h', m') → Searched h m h' m' := by
  induction count with
  | zero =>
    intro i h m _ hrun
    cases hrun
    exact ⟨rfl, rfl, rfl, id, rfl, fun _ hx => hx⟩
  | succ count ih =>
    intro i h m hbits hrun
    rw [findSectors] at hrun
    split at hrun
    · cases hfind : m.find with
      | mk found m1 =>
      rw [hfind] at hrun
      cases found with
      | none =>
        obtain ⟨rfl, -⟩ := Bitmap.find_none hfind
        have h1 := ih hbits hrun
        refine ⟨h1.numBytes_eq, h1.numSectors_eq, h1.next_eq, fun hf => h1.fits (fits_setDataSector hf ?_),
          h1.numBits_eq, h1.marks⟩
        exact show 2 ^ 32 - 1 < 2 ^ 32 by decide
      | some k =>
        obtain ⟨hk, -, -, rfl⟩ := Bitmap.find_some hfind
        have h1 := ih (m := m.mark k) hbits hrun
        refine ⟨h1.numBytes_eq, h1.numSectors_eq, h1.next_eq, fun hf => h1.fits (fits_setDataSector hf ?_),
          h1.numBits_eq, fun x hx => h1.marks x ?_⟩
        · rw [hbits] at hk
          exact Nat.lt_trans hk (by decide)
        · rw [Bitmap.test_mark hk, hx, Bool.or_true]
    · cases hrun

/-- `Allocate` that succeeds adds to the bytes the header held, and looks for the sectors behind those it counted. -/
theorem allocate_inv {size : Nat} (hrun : h.allocate m size = some (true, h', m')) :
    findSectors (divRoundUp (u32 (h.numBytes + size)) sectorSize - h.numSectors) h.numSectors
      { h with numBytes := u32 (h.numBytes + size), numSectors := divRoundUp (u32 (h.numBytes + size)) sectorSize } m =
      some (h', m') := by
  rw [allocate] at hrun
  split at hrun
  · cases hrun
  · obtain ⟨r, hr, heq⟩ := Option.map_eq_some_iff.mp hrun
    cases heq
    exact hr

end Any

end RawFileHeader

namespace Filesys

/-! ## What is written -/

/-- The buffer goes to these sectors, one behind the other. -/
def storeAll (d : Disk) : List Nat → List UInt8 → Disk
  | [], _ => d
  | x :: xs, buf => storeAll (Function.update d x (Sector.ofBytes buf)) xs (buf.drop sectorSize)

section Store

variable {w w' : World} {f : FileId} {file : OpenFile} {d : Disk} {xs : List Nat} {buf data : List UInt8} {x : Nat}

theorem storeAll_of_not_mem (xs : List Nat) : ∀ {d : Disk} {buf : List UInt8}, x ∉ xs →
    storeAll d xs buf x = d x := by
  induction xs with
  | nil => exact fun _ => rfl
  | cons y xs ih =>
    intro d buf hx
    rw [List.mem_cons, not_or] at hx
    rw [storeAll, ih hx.2, Function.update_of_ne hx.1]

/-- A sector holds the last piece that was written to it. -/
theorem storeAll_of_last (xs : List Nat) : ∀ {d : Disk} {buf : List UInt8} {k : Nat}, xs[k]? = some x →
    x ∉ xs.drop (k + 1) → storeAll d xs buf x = Sector.ofBytes (buf.drop (k * sectorSize)) := by
  induction xs with
  | nil =>
    intro d buf k hk _
    cases hk
  | cons y xs ih =>
    intro d buf k hk hlast
    rw [storeAll]
    cases k with
    | zero =>
      obtain rfl : y = x := by simpa using hk
      rw [storeAll_of_not_mem xs (by simpa using hlast), Function.update_self, Nat.zero_mul, List.drop_zero]
    | succ k =>
      rw [ih (k := k) (by simpa using hk) (by simpa using hlast), List.drop_drop, Nat.succ_mul, Nat.add_comm]

theorem exists_last {xs : List Nat} (hx : x ∈ xs) : ∃ k, xs[k]? = some x ∧ x ∉ xs.drop (k + 1) := by
  induction xs with
  | nil => cases hx
  | cons y xs ih =>
    by_cases hmem : x ∈ xs
    · obtain ⟨k, hk, hlast⟩ := ih hmem
      exact ⟨k + 1, by simpa using hk, by simpa using hlast⟩
    · obtain rfl : x = y := (List.mem_cons.mp hx).resolve_right hmem
      exact ⟨0, rfl, by simpa using hmem⟩

theorem writeSectors_inv (count : Nat) : ∀ {i : Nat} {buf : List UInt8} {w : World},
    w.files f = some file → (writeSectors f count i buf).run w = some ((), w') →
      w' = { w with disk := storeAll w.disk ((file.hdr.dataSectors.drop i).take count) buf } ∧
        ((file.hdr.dataSectors.drop i).take count).length = count ∧
        ∀ x ∈ (file.hdr.dataSectors.drop i).take count, x < numSectors := by
  induction count with
  | zero =>
    intro i buf w _ hrun
    cases hrun
    simp [storeAll]
  | succ count ih =>
    intro i buf w hf hrun
    rw [writeSectors, run_bind, run_getFile hf, Option.bind_some] at hrun
    dsimp only at hrun
    obtain ⟨s, w1, hsector, hrest⟩ := run_bind_eq_some.mp hrun
    obtain ⟨hs, hw1⟩ := run_ofOption_eq_some hsector
    rw [hw1] at hrest
    obtain ⟨_, w2, hwrite, hloop⟩ := run_bind_eq_some.mp hrest
    by_cases hlt : s < numSectors
    · rw [run_writeSector hlt] at hwrite
      cases hwrite
      obtain ⟨rfl, hlen, hall⟩ := ih (w := { w with disk := Function.update w.disk s (Sector.ofBytes buf) }) hf hloop
      rw [RawFileHeader.byteToSector, Nat.mul_div_cancel _ (by decide : 0 < sectorSize)] at hs
      have hdrop : (file.hdr.dataSectors.drop i).take (count + 1) =
          s :: (file.hdr.dataSectors.drop (i + 1)).take count := by
        obtain ⟨hi, hget⟩ := List.getElem?_eq_some_iff.mp hs
        rw [List.drop_eq_getElem_cons hi, List.take_succ_cons, hget]
      rw [hdrop]
      refine ⟨rfl, by rw [List.length_cons, hlen], fun x hx => ?_⟩
      rcases List.mem_cons.mp hx with rfl | hx
      · exact hlt
      · exact hall x hx
    · simp [writeSector, run_assert, hlt] at hwrite

theorem same_readSectors (f : FileId) (count : Nat) : ∀ i, (readSectors f count i).Moves Eq := by
  induction count with
  | zero => exact fun i => Moves.pure _
  | succ count ih =>
    intro i
    refine (Moves.getState.bind fun _ => Moves.ofOption _).bind fun _ => (Moves.ofOption _).bind fun _ => ?_
    exact Moves.bind (fun w _ w' hr => ((readSector_eq hr).2).symm) fun _ => (ih (i + 1)).bind fun _ => Moves.pure _

theorem same_readAt (f : FileId) (n pos : Nat) : (readAt f n pos).Moves Eq := by
  refine (Moves.assert _).bind fun _ => (Moves.getState.bind fun _ => Moves.ofOption _).bind fun _ =>
    Moves.ite (Moves.pure _) ?_
  exact (Moves.assert _).bind fun _ => (same_readSectors f _ _).bind fun _ => Moves.pure _

theorem same_fillSector (f : FileId) (needed : Bool) (firstSector i : Nat) (buf : List UInt8) :
    (fillSector f needed firstSector i buf).Moves Eq :=
  Moves.ite ((same_readAt f _ _).bind fun _ => Moves.pure _) (Moves.pure _)

/-- What `WriteAt` at the beginning of a file does with any header: `n` bytes of the data go to its first sectors. -/
structure WroteFirst (hdr : RawFileHeader) (data : List UInt8) (w w' : World) : Prop where
  eq_with : ∃ D heap, w' = { w with disk := D, heap := heap }
  disk_eq : ∃ buf, w'.disk =
      storeAll w.disk (hdr.dataSectors.take (divRoundUp (min data.length hdr.numBytes) sectorSize)) buf ∧
    buf.take (min data.length hdr.numBytes) = data.take (min data.length hdr.numBytes)
  length_eq : (hdr.dataSectors.take (divRoundUp (min data.length hdr.numBytes) sectorSize)).length =
    divRoundUp (min data.length hdr.numBytes) sectorSize
  lt : ∀ x ∈ hdr.dataSectors.take (divRoundUp (min data.length hdr.numBytes) sectorSize), x < numSectors

theorem lastSector_eq {n : Nat} (hn : 0 < n) : 1 + (0 + n - 1) / sectorSize = divRoundUp n sectorSize := by
  have hsz : sectorSize = 128 := rfl
  rw [hsz, divRoundUp]
  split <;> omega

theorem writeAt_first (hf : w.files f = some file) {n : Nat} (hrun : (writeAt f data 0).run w = some (n, w')) :
    WroteFirst file.hdr data w w' := by
  obtain ⟨_, w1, hassert, hrun⟩ := run_bind_eq_some.mp hrun
  obtain ⟨hdata, hw1⟩ := run_assert_eq_some hassert
  rw [hw1, run_bind, run_getFile hf, Option.bind_some] at hrun
  dsimp only at hrun
  split at hrun
  · rename_i hzero
    cases hrun
    have hmin : min data.length file.hdr.numBytes = 0 := by omega
    refine ⟨⟨w.disk, w.heap, rfl⟩, ⟨[], by rw [hmin]; rfl, by rw [hmin]; rfl⟩, by rw [hmin]; rfl, ?_⟩
    rw [hmin]
    exact fun x hx => nomatch hx
  · rename_i hpos
    have hmin : 0 < min data.length file.hdr.numBytes := by
      have := of_decide_eq_true hdata
      omega
    obtain ⟨_, w2, hassert2, hrun⟩ := run_bind_eq_some.mp hrun
    rw [(run_assert_eq_some hassert2).2, run_bind, run_malloc, Option.bind_some] at hrun
    dsimp only at hrun
    generalize hwh : ({ w with heap := Function.update w.heap .buffer fun n => w.heap .buffer (n + 1) } : World) = wh
      at hrun
    have hfh : wh.files f = some file := by
      rw [← hwh]
      exact hf
    obtain ⟨buf1, w3, hfill1, hrun⟩ := run_bind_eq_some.mp hrun
    obtain ⟨buf2, w4, hfill2, hrun⟩ := run_bind_eq_some.mp hrun
    obtain rfl := same_fillSector _ _ _ _ _ _ _ _ hfill1
    obtain rfl := same_fillSector _ _ _ _ _ _ _ _ hfill2
    obtain ⟨_, w5, hwrite, hret⟩ := run_bind_eq_some.mp hrun
    cases hret
    simp only [Nat.zero_div, Nat.sub_zero, lastSector_eq hmin] at hwrite
    obtain ⟨rfl, hlen, hlt⟩ := writeSectors_inv _ hfh hwrite
    rw [List.drop_zero] at hlen hlt
    refine ⟨⟨_, wh.heap, by rw [← hwh]⟩, ⟨_, by rw [← hwh, List.drop_zero], ?_⟩, hlen, hlt⟩
    rw [Nat.zero_mul, splice, List.take_zero, List.nil_append, List.take_append_of_le_length (by simp), List.take_take,
      Nat.min_self]

end Store

/-! ## Reading leaves the disk alone -/

/-- The disk is the same. -/
def SameDisk (w w' : World) : Prop := w'.disk = w.disk

instance : IsPreorder World SameDisk where
  refl _ := rfl
  trans _ _ _ h h' := Eq.trans h' h

theorem sameDisk_getFile (f : FileId) : (getFile f).Moves SameDisk := Moves.getState.bind fun _ => Moves.ofOption _

theorem sameDisk_modifyFile (f : FileId) (g : OpenFile → OpenFile) : (modifyFile f g).Moves SameDisk :=
  (sameDisk_getFile f).bind fun _ => Moves.modifyState fun _ => rfl

theorem sameDisk_fetchHdr (f : FileId) (s : Nat) : (fetchHdr f s).Moves SameDisk := by
  refine Moves.bind (fun w a w' hr => ?_) fun _ => sameDisk_modifyFile f _
  rw [(readSector_eq hr).2]
  exact refl w

theorem sameDisk_readAt (f : FileId) (n pos : Nat) : (readAt f n pos).Moves SameDisk :=
  (same_readAt f n pos).mono fun w _ h => by
    rw [← h]
    exact refl w

theorem sameDisk_readNext (f : FileId) (fuel : Nat) : ∀ next n into, (readNext f fuel next n into).Moves SameDisk := by
  induction fuel with
  | zero => exact fun _ _ _ => Moves.fail
  | succ fuel ih =>
    intro next n into
    refine Moves.ite ?_ (Moves.pure _)
    exact (sameDisk_modifyFile f _).bind fun _ => (sameDisk_fetchHdr f _).bind fun _ =>
      (sameDisk_getFile f).bind fun _ => (sameDisk_readAt f _ _).bind fun _ =>
        (sameDisk_modifyFile f _).bind fun _ => (sameDisk_getFile f).bind fun _ => ih _ _ _

theorem sameDisk_read (f : FileId) (n : Nat) (isDirectory : Bool) : (read f n isDirectory).Moves SameDisk := by
  have hrewind : (rewindRead f isDirectory).Moves SameDisk :=
    Moves.ite ((sameDisk_getFile f).bind fun _ => (sameDisk_fetchHdr f _).bind fun _ => sameDisk_modifyFile f _)
      (Moves.pure _)
  refine (Moves.assert _).bind fun _ => hrewind.bind fun _ => (sameDisk_getFile f).bind fun _ => Moves.ite ?_ ?_
  · exact (sameDisk_readAt f _ _).bind fun _ => (sameDisk_modifyFile f _).bind fun _ =>
      (sameDisk_getFile f).bind fun _ => sameDisk_readNext f _ _ _ _
  · exact (sameDisk_readAt f _ _).bind fun _ => (sameDisk_modifyFile f _).bind fun _ => Moves.pure _

/-! ## The constructor with any memory -/

/-- The bytes of a new table of the root. -/
def firstTable (heap : ByteMemory) : List UInt8 :=
  (List.range (numDirEntries * dirEntrySize)).map fun j =>
    if j % dirEntrySize = 0 ∨ j % dirEntrySize = 24 then 0 else heap j

/-- The sectors that get the beginning of the data. -/
def firstSectors (hdr : RawFileHeader) (data : List UInt8) : List Nat :=
  hdr.dataSectors.take (divRoundUp (min data.length hdr.numBytes) sectorSize)

/-- The disk after the constructor: the two headers, the free map `m2` and the first table. -/
structure WroteSystem (disk : Disk) (mapH dirH : RawFileHeader) (m2 : Bitmap) (table : List UInt8) (d : Disk)
    (buf1 buf2 : List UInt8) : Prop where
  disk_eq : d = storeAll (storeAll (Function.update (Function.update disk freeMapSector mapH.toSector) directorySector
    dirH.toSector) (firstSectors mapH (mapBytes m2)) buf1) (firstSectors dirH table) buf2
  map_eq : buf1.take (min (mapBytes m2).length mapH.numBytes) = (mapBytes m2).take (min (mapBytes m2).length mapH.numBytes)
  table_eq : buf2.take (min table.length dirH.numBytes) = table.take (min table.length dirH.numBytes)
  length_map : (firstSectors mapH (mapBytes m2)).length = divRoundUp (min (mapBytes m2).length mapH.numBytes) sectorSize
  length_table : (firstSectors dirH table).length = divRoundUp (min table.length dirH.numBytes) sectorSize
  lt_map : ∀ x ∈ firstSectors mapH (mapBytes m2), x < numSectors
  lt_table : ∀ x ∈ firstSectors dirH table, x < numSectors

/-- A header in new memory with what `Allocate` has made of it. -/
structure AllocatedHeader (heap : ByteMemory) (m : Bitmap) (size : Nat) (h : RawFileHeader) (m' : Bitmap) : Prop where
  run : ∃ h', (RawFileHeader.ofMemory heap).allocate m size = some (true, h', m') ∧ h = { h' with nextFileHeader := 0 }
  fits : h.Fits
  numBits_eq : m'.numBits = numSectors
  marks : ∀ x, m.test x = true → m'.test x = true

theorem allocatedHeader_of_run {heap : ByteMemory} {m m' : Bitmap} {size : Nat} {h : RawFileHeader}
    (hbits : m.numBits = numSectors) (hrun : allocateSystemFile heap m size = some (h, m')) :
    AllocatedHeader heap m size h m' := by
  obtain ⟨⟨success, h', m1⟩, halloc, hret⟩ := Option.bind_eq_some_iff.mp hrun
  cases success with
  | false => cases hret
  | true =>
    cases hret
    have hsearched := RawFileHeader.findSectors_searched _ hbits (RawFileHeader.allocate_inv halloc)
    have hmemory := RawFileHeader.fits_iff.mp (RawFileHeader.fits_ofMemory heap)
    have hu : ∀ n, u32 n < 2 ^ 32 := fun n => Nat.mod_lt n (Nat.two_pow_pos 32)
    have hround : ∀ n, n < 2 ^ 32 → divRoundUp n sectorSize < 2 ^ 32 := by
      intro n hn
      have hsz : sectorSize = 128 := rfl
      rw [hsz, divRoundUp]
      split <;> omega
    have hfits := RawFileHeader.fits_iff.mp (hsearched.fits (RawFileHeader.fits_iff.mpr
      ⟨hu _, hround _ (hu _), hmemory.2.2.1, hmemory.2.2.2⟩))
    exact ⟨⟨h', halloc, rfl⟩, RawFileHeader.fits_iff.mpr ⟨hfits.1, hfits.2.1, hfits.2.2.1, Nat.two_pow_pos 32⟩,
      hsearched.numBits_eq.trans hbits, hsearched.marks⟩

/-- What the constructor does with any two headers that are on the disk. -/
theorem formatRest_inv {w w' : World} {mapH dirH : RawFileHeader} {m : Bitmap} {dir : Directory}
    (hw : HeadersWritten w mapH dirH) (hrun : (formatRest m dir).run w = some ((), w')) :
    ∃ w4 w5 w6, w4.disk = w.disk ∧ WroteFirst mapH (mapBytes m) w4 w5 ∧ WroteFirst dirH dir.table w5 w6 ∧
      w'.disk = w6.disk := by
  rw [formatRest] at hrun
  obtain ⟨w1, hopen1, hat1⟩ := run_newOpenFile (s := freeMapSector) (by decide) w
  rw [run_bind, hopen1, Option.bind_some, run_bind, run_modifyState, Option.bind_some] at hrun
  generalize hw2 : ({ w1 with freeMapFile := w.nextFile } : World) = w2 at hrun
  obtain ⟨w3, hopen3, hat3⟩ := run_newOpenFile (s := directorySector) (by decide) w2
  rw [run_bind, hopen3, Option.bind_some, run_bind, run_modifyState, Option.bind_some] at hrun
  generalize hw4 : ({ w3 with directoryFile := w2.nextFile } : World) = w4 at hrun
  have hnext2 : w2.nextFile = 1 := by
    rw [← hw2]
    exact hat1.nextFile_eq.trans (by rw [hw.nextFile_eq])
  have hdisk2 : w2.disk = w.disk := by
    rw [← hw2]
    exact hat1.disk_eq
  have hdisk4 : w4.disk = w.disk := by
    rw [← hw4]
    exact hat3.disk_eq.trans hdisk2
  have hmapFile4 : w4.freeMapFile = 0 := by
    rw [← hw4]
    exact hat3.freeMapFile_eq.trans (by rw [← hw2, hw.nextFile_eq])
  have hfile0 : w4.files 0 =
      some { hdr := mapH, seekPosition := 0, sector := freeMapSector, currentSector := freeMapSector } := by
    rw [← hw4]
    show w3.files 0 = _
    rw [hat3.files_eq, hnext2, Function.update_of_ne (by decide), ← hw2, ← hw.map_eq]
    show w1.files 0 = _
    rw [hat1.files_eq, hw.nextFile_eq, Function.update_self]
  have hfile1 : w4.files 1 =
      some { hdr := dirH, seekPosition := 0, sector := directorySector, currentSector := directorySector } := by
    rw [← hw4]
    show w3.files 1 = _
    rw [hat3.files_eq, hnext2, Function.update_self, hdisk2, hw.directory_eq]
  obtain ⟨_, w5, hback, hrun5⟩ := run_bind_eq_some.mp hrun
  obtain ⟨_, w6, hfirst, hrun6⟩ := run_bind_eq_some.mp hrun5
  obtain ⟨bs, w7, hread, hset⟩ := run_bind_eq_some.mp hrun6
  rw [run_modifyState] at hset
  have hdisk7 : w'.disk = w7.disk := by
    cases hset
    rfl
  rw [writeBackFreeMap, run_bind, run_getState, Option.bind_some, hmapFile4] at hback
  obtain ⟨n, _, hwrite, hret⟩ := run_bind_eq_some.mp hback
  cases hret
  have hwrote := writeAt_first hfile0 hwrite
  rw [Directory.writeBackFirst, hnext2] at hfirst
  obtain ⟨n', _, hwrite', hret⟩ := run_bind_eq_some.mp hfirst
  cases hret
  have hfiles5 : w5.files 1 = w4.files 1 := by
    obtain ⟨D, heap, heq⟩ := hwrote.eq_with
    rw [heq]
  have hwrote' := writeAt_first (hfiles5.trans hfile1) hwrite'
  exact ⟨w4, w5, w6, hdisk4, hwrote, hwrote', hdisk7.trans (sameDisk_read _ _ _ _ _ _ hread)⟩

theorem format_inv {disk : Disk} {heap : HeapUse → Nat → ByteMemory} {w' : World}
    (hrun : format.run (World.initial disk heap) = some ((), w')) :
    ∃ mapH dirH m1 m2 buf1 buf2, AllocatedHeader (heap .header 0) firstMap freeMapFileSize mapH m1 ∧
      AllocatedHeader (heap .header 1) m1 directoryFileSize dirH m2 ∧
      WroteSystem disk mapH dirH m2 (firstTable (heap .table 0)) w'.disk buf1 buf2 := by
  rw [format_eq] at hrun
  obtain ⟨dir, w1, hnew, hrun1⟩ := run_bind_eq_some.mp hrun
  obtain ⟨mapHeap, w2, hmalloc, hrun2⟩ := run_bind_eq_some.mp hrun1
  obtain ⟨dirHeap, w3, hmalloc', hrun3⟩ := run_bind_eq_some.mp hrun2
  obtain ⟨⟨mapH, m1⟩, w4, halloc, hrun4⟩ := run_bind_eq_some.mp hrun3
  obtain ⟨⟨dirH, m2⟩, w5, halloc', hrun5⟩ := run_bind_eq_some.mp hrun4
  cases hnew
  cases hmalloc
  cases hmalloc'
  obtain ⟨hmap, hw4⟩ := run_ofOption_eq_some halloc
  obtain ⟨hdir, hw5⟩ := run_ofOption_eq_some halloc'
  have h1 : AllocatedHeader (heap .header 0) firstMap freeMapFileSize mapH m1 :=
    allocatedHeader_of_run firstMap_numBits hmap
  have h2 : AllocatedHeader (heap .header 1) m1 directoryFileSize dirH m2 := allocatedHeader_of_run h1.numBits_eq hdir
  rw [run_bind, run_writeSector (by decide), Option.bind_some, run_bind, run_writeSector (by decide),
    Option.bind_some] at hrun5
  have hwritten : HeadersWritten { w5 with
      disk := Function.update (Function.update w5.disk freeMapSector mapH.toSector) directorySector dirH.toSector }
      mapH dirH := by
    refine ⟨?_, ?_, by rw [hw5, hw4]; rfl⟩
    · rw [hdrAt]
      dsimp only
      rw [Function.update_of_ne (by decide), Function.update_self]
      exact RawFileHeader.ofSector_toSector h1.fits
    · rw [hdrAt]
      dsimp only
      rw [Function.update_self]
      exact RawFileHeader.ofSector_toSector h2.fits
  have hdisk5 : w5.disk = disk := by
    rw [hw5, hw4]
    rfl
  obtain ⟨w8, w9, w10, hdisk8, hwrote1, hwrote2, hdisk'⟩ := formatRest_inv hwritten hrun5
  obtain ⟨buf1, hdisk9, hbuf1⟩ := hwrote1.disk_eq
  obtain ⟨buf2, hdisk10, hbuf2⟩ := hwrote2.disk_eq
  refine ⟨mapH, dirH, m1, m2, buf1, buf2, h1, h2, ⟨?_, hbuf1, hbuf2, hwrote1.length_eq, hwrote2.length_eq,
    hwrote1.lt, hwrote2.lt⟩⟩
  rw [hdisk', hdisk10, hdisk9, hdisk8, hdisk5]
  rfl

/-! ## The first byte of a sector -/

section FirstByte

/-- The first byte that a sector holds. -/
def firstByte (s : Sector) : UInt8 := s.bytes.getD 0 0

theorem exists_cons_four {bs : List UInt8} (hlen : bs.length = sectorSize) : ∃ a b c e rest, bs = a :: b :: c :: e :: rest := by
  have hsz : sectorSize = 128 := rfl
  match bs, hlen with
  | a :: b :: c :: e :: rest, _ => exact ⟨a, b, c, e, rest, rfl⟩
  | [_, _, _], h | [_, _], h | [_], h | [], h =>
    simp only [List.length_cons, List.length_nil] at h
    omega

theorem ofLe32_mod (a b c e : UInt8) : ofLe32 a b c e % 256 = a.toNat := by
  have ha := a.toNat_lt
  rw [ofLe32]
  omega

/-- The first byte of a header is the low byte of its number of bytes. -/
theorem firstByte_hdrAt (d : Disk) (s : Nat) : (firstByte (d s)).toNat = (hdrAt d s).numBytes % 256 := by
  obtain ⟨a, b, c, e, rest, hbs⟩ := exists_cons_four (d s).length_bytes
  rw [firstByte, hdrAt, RawFileHeader.ofSector]
  dsimp only
  rw [hbs, unpackWords]
  exact (ofLe32_mod a b c e).symm

/-- The first eight bits of a bitmap stand in the first byte. -/
theorem test_overlayMap_low {b : Bitmap} {bs : List UInt8} (hb : b.numBits = numSectors)
    (hlen : bs.length = sectorSize) {x : Nat} (hx : x < 8) :
    (overlayMap b bs).test x = (bs.getD 0 0).toNat.testBit x := by
  obtain ⟨a, b1, c, e, rest, hbs⟩ := exists_cons_four hlen
  have hzero : x / bitsInWord = 0 := Nat.div_eq_of_lt (Nat.lt_of_lt_of_le hx (by decide))
  have hmod : x % bitsInWord = x := Nat.mod_eq_of_lt (Nat.lt_of_lt_of_le hx (by decide))
  have hword : (overlayMap b bs).map.getD 0 0 = BitVec.ofNat 32 (ofLe32 a b1 c e) := by
    rw [overlayMap]
    dsimp only
    rw [splice_of_length_eq (by rw [hlen, length_mapBytes hb]), length_map_of_numBits hb, hbs, unpackWords]
    rfl
  rw [Bitmap.test_eq, hzero, hmod, hword, BitVec.getLsbD_ofNat, hbs]
  have hlow : a.toNat.testBit x = (ofLe32 a b1 c e % 2 ^ 8).testBit x := by
    rw [show ofLe32 a b1 c e % 2 ^ 8 = a.toNat from ofLe32_mod a b1 c e]
  rw [Nat.testBit_mod_two_pow] at hlow
  simp only [hx, decide_true, Bool.true_and] at hlow
  rw [List.getD_cons_zero, hlow, decide_eq_true (Nat.lt_of_lt_of_le hx (by decide)), Bool.true_and]

theorem test_eq_mapBytes_low {m : Bitmap} (hm : m.numBits = numSectors) {x : Nat} (hx : x < 8) :
    m.test x = ((mapBytes m).getD 0 0).toNat.testBit x := by
  have h := test_overlayMap_low hm (length_mapBytes hm) hx
  rw [overlayMap_mapBytes rfl] at h
  exact h

end FirstByte

/-! ## What the headers hold -/

section Counters

variable {heap : ByteMemory} {m m' : Bitmap} {size k : Nat} {h : RawFileHeader}

theorem AllocatedHeader.numBytes_eq (ha : AllocatedHeader heap m size h m') (hbits : m.numBits = numSectors) :
    h.numBytes = u32 ((RawFileHeader.ofMemory heap).numBytes + size) := by
  obtain ⟨h', hrun, rfl⟩ := ha.run
  exact (RawFileHeader.findSectors_searched _ hbits (RawFileHeader.allocate_inv hrun)).numBytes_eq

theorem AllocatedHeader.numSectors_eq (ha : AllocatedHeader heap m size h m') (hbits : m.numBits = numSectors) :
    h.numSectors = divRoundUp h.numBytes sectorSize := by
  obtain ⟨h', hrun, rfl⟩ := ha.run
  have hsearched := RawFileHeader.findSectors_searched _ hbits (RawFileHeader.allocate_inv hrun)
  show h'.numSectors = divRoundUp h'.numBytes sectorSize
  rw [hsearched.numSectors_eq, hsearched.numBytes_eq]

/-- A header whose size is right had no bytes in its memory. -/
theorem AllocatedHeader.zero_of_size (ha : AllocatedHeader heap m size h m') (hbits : m.numBits = numSectors)
    (hbytes : h.numBytes = size) : (RawFileHeader.ofMemory heap).numBytes = 0 := by
  have hlt := (RawFileHeader.fits_iff.mp (RawFileHeader.fits_ofMemory heap)).1
  have heq := ha.numBytes_eq hbits
  rw [hbytes, u32] at heq
  omega

/-- Without bytes in the memory, the sectors behind those that the memory counts are the first free ones. -/
theorem AllocatedHeader.first (ha : AllocatedHeader heap m size h m') (hbits : m.numBits = numSectors)
    (hzero : (RawFileHeader.ofMemory heap).numBytes = 0) (hm : m.FirstMarked k) (hsize : size ≤ maxHeaderBytes)
    (hk : k + divRoundUp size sectorSize ≤ numSectors) :
    m'.FirstMarked (k + (divRoundUp size sectorSize - (RawFileHeader.ofMemory heap).numSectors)) ∧
      ∀ j, (RawFileHeader.ofMemory heap).numSectors ≤ j → j < divRoundUp size sectorSize →
        h.dataSectors[j]? = some (k + (j - (RawFileHeader.ofMemory heap).numSectors)) := by
  obtain ⟨h', hrun, rfl⟩ := ha.run
  have hmax : maxHeaderBytes < 2 ^ 32 := by decide
  have hdirect := divRoundUp_le_numDirect hsize
  have hsearch := RawFileHeader.allocate_inv hrun
  rw [hzero, Nat.zero_add, u32_of_lt (by omega)] at hsearch
  generalize hn : (RawFileHeader.ofMemory heap).numSectors = n at hsearch
  by_cases hle : n ≤ divRoundUp size sectorSize
  · obtain ⟨h1, m1, hfind, hm1, -, -, -, htake⟩ := RawFileHeader.findSectors_first
      (divRoundUp size sectorSize - n) (i := n)
      (h := { RawFileHeader.ofMemory heap with numBytes := size, numSectors := divRoundUp size sectorSize }) hm
      (by omega) (by omega)
    rw [hfind] at hsearch
    cases hsearch
    refine ⟨hm1, fun j hj hlt => ?_⟩
    have hlen : (List.take n (RawFileHeader.ofMemory heap).dataSectors).length = n := by
      rw [List.length_take, (RawFileHeader.ofMemory heap).length_dataSectors]
      omega
    rw [Nat.add_sub_cancel' hle] at htake
    have hget : (h'.dataSectors.take (divRoundUp size sectorSize))[j]? = some (k + (j - n)) := by
      rw [htake]
      show (List.take n (RawFileHeader.ofMemory heap).dataSectors ++ _)[j]? = _
      rw [List.getElem?_append_right (by omega), hlen, List.getElem?_range' (by omega)]
      simp
    rwa [List.getElem?_take_of_lt hlt] at hget
  · -- nothing is looked for
    have hnone : divRoundUp size sectorSize - n = 0 := by omega
    rw [hnone] at hsearch ⊢
    cases hsearch
    exact ⟨hm, fun j hj hlt => absurd hj (by omega)⟩

end Counters

/-! ## Where a table full of ones lands -/

theorem length_firstTable (heap : ByteMemory) : (firstTable heap).length = directoryFileSize := by
  rw [firstTable, List.length_map, List.length_range]
  rfl

theorem firstTable_getD (heap : ByteMemory) {j : Nat} (hj : j < directoryFileSize) :
    (firstTable heap).getD j 0 = if j % dirEntrySize = 0 ∨ j % dirEntrySize = 24 then 0 else heap j := by
  have hlt : j < numDirEntries * dirEntrySize := hj
  rw [firstTable, List.getD_eq_getElem?_getD, List.getElem?_map, List.getElem?_range hlt]
  rfl

/-- The first byte of a sector that got a piece of the data. -/
theorem firstByte_stored {d : Disk} {xs : List Nat} {buf data : List UInt8} {n x : Nat} (hn : n ≤ data.length)
    (hlen : xs.length = divRoundUp n sectorSize) (htake : buf.take n = data.take n) (hx : x ∈ xs) :
    ∃ k, xs[k]? = some x ∧ x ∉ xs.drop (k + 1) ∧ k * sectorSize < n ∧
      firstByte (storeAll d xs buf x) = data.getD (k * sectorSize) 0 := by
  obtain ⟨k, hk, hlast⟩ := exists_last hx
  have hsz : sectorSize = 128 := rfl
  obtain ⟨hklt, -⟩ := List.getElem?_eq_some_iff.mp hk
  have hkn : k * sectorSize < n := by
    rw [hlen, divRoundUp] at hklt
    rw [hsz] at hklt ⊢
    split at hklt <;> omega
  have hget : buf[k * sectorSize]? = data[k * sectorSize]? := by
    rw [← List.getElem?_take_of_lt hkn, htake, List.getElem?_take_of_lt hkn]
  have hbuf : k * sectorSize < buf.length := by
    by_contra hge
    rw [List.getElem?_eq_none (by omega), eq_comm, List.getElem?_eq_none_iff] at hget
    omega
  refine ⟨k, hk, hlast, hkn, ?_⟩
  have hdrop : 0 < (buf.drop (k * sectorSize)).length := by
    rw [List.length_drop]
    omega
  rw [storeAll_of_last xs hk hlast, firstByte, List.getD_eq_getElem?_getD, List.getD_eq_getElem?_getD, ← hget,
    Sector.ofBytes]
  dsimp only
  rw [List.getElem?_take_of_lt (by decide), List.getElem?_append_left hdrop, List.getElem?_drop, Nat.add_zero]

section Landing

variable {disk d : Disk} {mapH dirH : RawFileHeader} {m2 : Bitmap} {buf1 buf2 : List UInt8} {x : Nat}

/-- A table whose names are full of ones. -/
def fullTable : List UInt8 := firstTable fun _ => 255

/-- A sector of the table begins with a zero if it got the beginning of the table, otherwise with ones. -/
theorem WroteSystem.byte_table (hw : WroteSystem disk mapH dirH m2 fullTable d buf1 buf2)
    (hx : x ∈ firstSectors dirH fullTable) :
    ∃ k, (firstSectors dirH fullTable)[k]? = some x ∧ x ∉ (firstSectors dirH fullTable).drop (k + 1) ∧
      firstByte (d x) = if k = 0 then 0 else 255 := by
  obtain ⟨k, hk, hlast, hkn, hbyte⟩ := firstByte_stored (d := storeAll (Function.update (Function.update disk freeMapSector
    mapH.toSector) directorySector dirH.toSector) (firstSectors mapH (mapBytes m2)) buf1) (Nat.min_le_left _ _)
    hw.length_table hw.table_eq hx
  refine ⟨k, hk, hlast, ?_⟩
  have hlen : fullTable.length = directoryFileSize := length_firstTable _
  rw [hlen] at hkn
  have hkdir : k * sectorSize < directoryFileSize := Nat.lt_of_lt_of_le hkn (Nat.min_le_left _ _)
  rw [hw.disk_eq, hbyte, fullTable, firstTable_getD _ hkdir]
  -- the pieces begin at 0, 128 and 256
  have hcases : k = 0 ∨ k = 1 ∨ k = 2 := by
    have hsz : sectorSize = 128 := rfl
    have hdir : directoryFileSize = 280 := rfl
    rw [hsz, hdir] at hkdir
    omega
  rcases hcases with rfl | rfl | rfl <;> decide

/-- A sector of the free map begins with the marks of the first eight sectors. -/
theorem WroteSystem.byte_map (hw : WroteSystem disk mapH dirH m2 fullTable d buf1 buf2)
    (hm2 : m2.numBits = numSectors) (hx : x ∈ firstSectors mapH (mapBytes m2))
    (hnot : x ∉ firstSectors dirH fullTable) {i : Nat} (hi : i < 8) :
    (firstByte (d x)).toNat.testBit i = m2.test i := by
  obtain ⟨k, hk, -, hkn, hbyte⟩ := firstByte_stored (d := Function.update (Function.update disk freeMapSector
    mapH.toSector) directorySector dirH.toSector) (Nat.min_le_left _ _) hw.length_map hw.map_eq hx
  have hzero : k = 0 := by
    have hle := Nat.min_le_left sectorSize mapH.numBytes
    have hsz : sectorSize = 128 := rfl
    rw [length_mapBytes hm2] at hkn
    rw [hsz] at hkn hle
    omega
  rw [hw.disk_eq, storeAll_of_not_mem _ hnot, hbyte, hzero, Nat.zero_mul, test_eq_mapBytes_low hm2 hi]

/-- A header is not overwritten: its first byte is neither that of a piece of the table nor that of a map in which
the first two sectors are marked. -/
theorem WroteSystem.header_not_mem (hw : WroteSystem disk mapH dirH m2 fullTable d buf1 buf2)
    (hm2 : m2.numBits = numSectors) (hmark : m2.test 0 = true) {v : Nat} (hv : (hdrAt d x).numBytes % 256 = v)
    (hne : v ≠ 0) (hne' : v ≠ 255) (heven : v.testBit 0 = false) :
    x ∉ firstSectors mapH (mapBytes m2) ∧ x ∉ firstSectors dirH fullTable := by
  rw [← firstByte_hdrAt] at hv
  have hnot : x ∉ firstSectors dirH fullTable := by
    intro hx
    obtain ⟨k, -, -, hbyte⟩ := hw.byte_table hx
    rw [hbyte] at hv
    split at hv
    · exact hne hv.symm
    · exact hne' hv.symm
  refine ⟨fun hx => ?_, hnot⟩
  have hbit := hw.byte_map hm2 hx hnot (show 0 < 8 by decide)
  rw [hv, heven, hmark] at hbit
  cases hbit

/-- What a formatted disk says about the headers: they are on it, and their sizes are right. -/
structure HeadersStand (d : Disk) (mapH dirH : RawFileHeader) (m2 : Bitmap) : Prop where
  map_eq : hdrAt d freeMapSector = mapH
  directory_eq : hdrAt d directorySector = dirH
  map_sectors : firstSectors mapH (mapBytes m2) = mapH.dataOf
  directory_sectors : firstSectors dirH fullTable = dirH.dataOf
  length_map : mapH.dataOf.length = 1
  length_directory : dirH.dataOf.length = 3
  not_map : freeMapSector ∉ mapH.dataOf ∧ directorySector ∉ mapH.dataOf
  not_directory : freeMapSector ∉ dirH.dataOf ∧ directorySector ∉ dirH.dataOf

theorem firstSectors_eq {h : RawFileHeader} {data : List UInt8} (hsectors : h.numSectors = divRoundUp h.numBytes sectorSize)
    (hbytes : h.numBytes = data.length) : firstSectors h data = h.dataOf := by
  rw [firstSectors, RawFileHeader.dataOf, hsectors, hbytes, Nat.min_self]

theorem WroteSystem.headersStand (hw : WroteSystem disk mapH dirH m2 fullTable d buf1 buf2) (hd : FormattedDisk d)
    (hm2 : m2.numBits = numSectors) (hmark : m2.test 0 = true) (hmapFits : mapH.Fits) (hdirFits : dirH.Fits)
    (hmapSectors : mapH.numSectors = divRoundUp mapH.numBytes sectorSize)
    (hdirSectors : dirH.numSectors = divRoundUp dirH.numBytes sectorSize) : HeadersStand d mapH dirH m2 := by
  have hmapBytes := hd.freeMapFile.numBytes_eq
  have hdirBytes := hd.directoryFile.numBytes_eq
  have h0 := hw.header_not_mem (x := freeMapSector) (v := 128) hm2 hmark (by rw [hmapBytes]; rfl) (by decide) (by decide)
    (by decide)
  have h1 := hw.header_not_mem (x := directorySector) (v := 24) hm2 hmark (by rw [hdirBytes]; rfl) (by decide)
    (by decide) (by decide)
  have hmapEq : hdrAt d freeMapSector = mapH := by
    rw [hdrAt, hw.disk_eq, storeAll_of_not_mem _ h0.2, storeAll_of_not_mem _ h0.1, Function.update_of_ne (by decide),
      Function.update_self]
    exact RawFileHeader.ofSector_toSector hmapFits
  have hdirEq : hdrAt d directorySector = dirH := by
    rw [hdrAt, hw.disk_eq, storeAll_of_not_mem _ h1.2, storeAll_of_not_mem _ h1.1, Function.update_self]
    exact RawFileHeader.ofSector_toSector hdirFits
  rw [hmapEq] at hmapBytes
  rw [hdirEq] at hdirBytes
  have hmapData : firstSectors mapH (mapBytes m2) = mapH.dataOf :=
    firstSectors_eq hmapSectors (by rw [hmapBytes, length_mapBytes hm2]; rfl)
  have hdirData : firstSectors dirH fullTable = dirH.dataOf :=
    firstSectors_eq hdirSectors (by rw [hdirBytes, fullTable, length_firstTable])
  have hlen1 := hw.length_map
  have hlen2 := hw.length_table
  rw [hmapBytes, length_mapBytes hm2] at hlen1
  rw [hdirBytes, show fullTable.length = directoryFileSize from length_firstTable _] at hlen2
  rw [hmapData] at h0 h1 hlen1
  rw [hdirData] at h0 h1 hlen2
  exact ⟨hmapEq, hdirEq, hmapData, hdirData, hlen1, hlen2, ⟨h0.1, h1.1⟩, ⟨h0.2, h1.2⟩⟩

section Stand

variable {g : Nat}

theorem HeadersStand.sectors_map (hs : HeadersStand d mapH dirH m2) :
    sectorsOf d [freeMapSector] = freeMapSector :: mapH.dataOf := by
  rw [sectorsOf_cons, hs.map_eq]
  exact List.append_nil _

theorem HeadersStand.sectors_directory (hs : HeadersStand d mapH dirH m2) :
    sectorsOf d [directorySector] = directorySector :: dirH.dataOf := by
  rw [sectorsOf_cons, hs.directory_eq]
  exact List.append_nil _

/-- The free map is read from its only data sector. -/
theorem HeadersStand.storedFreeMap_eq (hs : HeadersStand d mapH dirH m2) (hd : FormattedDisk d)
    (hg : mapH.dataOf = [g]) : storedFreeMap d = overlayMap (Bitmap.new numSectors fun _ => 0) (d g).bytes := by
  have hbytes := hd.freeMapFile.numBytes_eq
  rw [hs.map_eq] at hbytes
  have hlen : (d g).bytes.length ≤ freeMapFileSize := Nat.le_of_eq (d g).length_bytes
  have hcontent : content d [freeMapSector] = (d g).bytes := by
    rw [content_cons, hs.map_eq, dataBytes, hg, hbytes, List.flatMap_singleton, List.take_of_length_le hlen]
    exact List.append_nil _
  rw [storedFreeMap, hcontent]

/-- The table has not landed on the free map: the map would mark too little or too much. -/
theorem WroteSystem.map_not_mem (hw : WroteSystem disk mapH dirH m2 fullTable d buf1 buf2)
    (hs : HeadersStand d mapH dirH m2) (hd : FormattedDisk d) (hg : mapH.dataOf = [g]) : g ∉ dirH.dataOf := by
  intro hmem
  obtain ⟨k, -, -, hbyte⟩ := hw.byte_table (x := g) (by rw [hs.directory_sectors]; exact hmem)
  have htest : ∀ i, i < 8 → (storedFreeMap d).test i = (firstByte (d g)).toNat.testBit i := by
    intro i hi
    rw [hs.storedFreeMap_eq hd hg]
    exact test_overlayMap_low (Bitmap.numBits_new _ _) (d g).length_bytes hi
  have hmarks := hd.marks
  rw [hs.sectors_map, hs.sectors_directory, hg] at hmarks
  by_cases hk : k = 0
  · -- the header of the map would be free
    have hzero := htest 0 (by decide)
    rw [hbyte, if_pos hk, (hmarks 0 (by decide)).mpr (Or.inl List.mem_cons_self)] at hzero
    cases hzero
  · -- the first eight sectors would be in use, more than there are
    have hall : ∀ i, i < 8 → i ∈ freeMapSector :: directorySector :: dirH.dataOf := by
      intro i hi
      have hone := htest i hi
      rw [hbyte, if_neg hk] at hone
      have hbit : (255 : UInt8).toNat.testBit i = true := by
        have hcases : i = 0 ∨ i = 1 ∨ i = 2 ∨ i = 3 ∨ i = 4 ∨ i = 5 ∨ i = 6 ∨ i = 7 := by omega
        rcases hcases with rfl | rfl | rfl | rfl | rfl | rfl | rfl | rfl <;> rfl
      rw [hbit] at hone
      rcases (hmarks i (Nat.lt_of_lt_of_le hi (by decide))).mp hone with h | h
      · rcases List.mem_cons.mp h with rfl | h
        · exact List.mem_cons_self
        · rw [List.mem_singleton.mp h]
          exact List.mem_cons_of_mem _ (List.mem_cons_of_mem _ hmem)
      · exact List.mem_cons_of_mem _ h
    have hsub : List.range 8 ⊆ freeMapSector :: directorySector :: dirH.dataOf :=
      fun i hi => hall i (List.mem_range.mp hi)
    have hle := (List.subperm_of_subset List.nodup_range hsub).length_le
    rw [List.length_range, List.length_cons, List.length_cons, hs.length_directory] at hle
    omega

/-- The free map on the disk is the one that the constructor has. -/
theorem WroteSystem.storedFreeMap_eq (hw : WroteSystem disk mapH dirH m2 fullTable d buf1 buf2)
    (hs : HeadersStand d mapH dirH m2) (hd : FormattedDisk d) (hm2 : m2.numBits = numSectors)
    (hg : mapH.dataOf = [g]) : storedFreeMap d = m2 := by
  have hnot := hw.map_not_mem hs hd hg
  have hbytes := hd.freeMapFile.numBytes_eq
  rw [hs.map_eq] at hbytes
  have hlen := length_mapBytes hm2
  have hmin : min (mapBytes m2).length mapH.numBytes = sectorSize := by
    rw [hlen, hbytes]
    rfl
  have hbuf := hw.map_eq
  rw [hmin, ← hlen, List.take_length] at hbuf
  have hbuf1 : sectorSize ≤ buf1.length := by
    have := congrArg List.length hbuf
    rw [List.length_take] at this
    omega
  have hdisk : d g = Sector.ofBytes buf1 := by
    rw [hw.disk_eq, storeAll_of_not_mem _ (by rw [hs.directory_sectors]; exact hnot), hs.map_sectors, hg, storeAll,
      storeAll, Function.update_self]
  rw [hs.storedFreeMap_eq hd hg, hdisk, Sector.bytes_ofBytes hbuf1, ← hlen, hbuf]
  exact overlayMap_mapBytes (by rw [Bitmap.numBits_new, hm2])

/-- The table has not landed twice on its first sector: the first entry would be in use. -/
theorem WroteSystem.first_not_mem (hw : WroteSystem disk mapH dirH m2 fullTable d buf1 buf2)
    (hs : HeadersStand d mapH dirH m2) (hd : FormattedDisk d) {e : Nat} {es : List Nat}
    (he : dirH.dataOf = e :: es) : e ∉ es := by
  intro hmem
  obtain ⟨k, -, hlast, hbyte⟩ := hw.byte_table (x := e) (by rw [hs.directory_sectors, he]; exact List.mem_cons_self)
  rw [hs.directory_sectors, he] at hlast
  have hk : k ≠ 0 := by
    rintro rfl
    exact hlast hmem
  rw [if_neg hk] at hbyte
  have hbytes := hd.directoryFile.numBytes_eq
  rw [hs.directory_eq] at hbytes
  refine hd.unused 0 ⟨by rw [hd.size_eq]; decide, ?_⟩
  have hfirst : (content d [directorySector]).getD 0 0 = firstByte (d e) := by
    have hpos : 0 < (d e).bytes.length := by
      rw [(d e).length_bytes]
      decide
    rw [content_cons, hs.directory_eq, dataBytes, he, hbytes, List.flatMap_cons, firstByte,
      List.getD_eq_getElem?_getD, List.getD_eq_getElem?_getD]
    rw [List.getElem?_append_left (by rw [List.length_take, List.length_append]; exact Nat.lt_min.mpr ⟨by decide, by omega⟩),
      List.getElem?_take_of_lt (by decide), List.getElem?_append_left hpos]
  rw [entryInUse, Nat.zero_mul, hfirst, hbyte]
  rfl

end Stand

end Landing

/-! ## Exactly when the old memory does not matter -/

/-- The memory of the objects: the two headers, a table whose names are full of ones, and zeros. -/
def fullNames (mapHeap dirHeap : ByteMemory) : HeapUse → Nat → ByteMemory
  | .header, 0 => mapHeap
  | .header, _ => dirHeap
  | .table, _ => fun _ => 255
  | _, _ => fun _ => 0

/-- No sectors were counted before: otherwise the sectors that are marked would not be enough for those of the
files. Here `g` is the sector of the map, `e` the first one of the table, and `n1` and `n2` are the counters. -/
theorem no_sectors_before {n1 n2 g e : Nat} {es : List Nat} (hg : 2 ≤ g) (he : 2 ≤ e)
    (hgk : g < 2 + (1 - n1) + (3 - n2)) (hek : e < 2 + (1 - n1) + (3 - n2)) (hge : g ∉ e :: es) (hes : e ∉ es)
    (hfirst : n1 = 0 → g = 2)
    (hget : ∀ j, n2 ≤ j → j < 3 → (e :: es)[j]? = some (2 + (1 - n1) + (j - n2))) : n1 = 0 ∧ n2 = 0 := by
  have h1 : n1 = 0 := by
    by_contra hne
    -- the sector of the map is among the new ones of the table
    have hnew := hget (n2 + (g - 2)) (by omega) (by omega)
    rw [show 2 + (1 - n1) + (n2 + (g - 2) - n2) = g by omega] at hnew
    exact hge (List.mem_of_getElem? hnew)
  refine ⟨h1, ?_⟩
  by_contra hne
  have hg2 := hfirst h1
  have hne2 : e ≠ 2 := by
    rintro rfl
    exact hge (hg2 ▸ List.mem_cons_self)
  -- the first sector of the table is among its new ones
  obtain ⟨j, hj⟩ : ∃ j, n2 + (e - 3) = j + 1 := ⟨n2 + (e - 3) - 1, by omega⟩
  have hnew := hget (j + 1) (by omega) (by omega)
  rw [show 2 + (1 - n1) + (j + 1 - n2) = e by omega, List.getElem?_cons_succ] at hnew
  exact hes (List.mem_of_getElem? hnew)

/-- A constructor that formats the disk with every other memory had no counters in that of its headers. -/
theorem zeroed_of_formatsWith {mapHeap dirHeap : ByteMemory} (hformat : FormatsWith mapHeap dirHeap) :
    Zeroed mapHeap ∧ Zeroed dirHeap := by
  obtain ⟨_, w', hrun, hd⟩ := hformat (fun _ => Sector.ofBytes []) (fullNames mapHeap dirHeap) rfl rfl
  obtain ⟨mapH, dirH, m1, m2, buf1, buf2, hmap, hdir, hw⟩ := format_inv hrun
  change AllocatedHeader mapHeap firstMap freeMapFileSize mapH m1 at hmap
  change AllocatedHeader dirHeap m1 directoryFileSize dirH m2 at hdir
  change WroteSystem _ mapH dirH m2 fullTable w'.disk buf1 buf2 at hw
  have hm2 := hdir.numBits_eq
  have hmark : m2.test 0 = true :=
    hdir.marks 0 (hmap.marks 0 (firstMap_firstMarked 0 (by rw [firstMap_numBits]; decide)))
  have hs := hw.headersStand hd hm2 hmark hmap.fits hdir.fits (hmap.numSectors_eq firstMap_numBits)
    (hdir.numSectors_eq hmap.numBits_eq)
  -- the bytes
  have hmapBytes := hd.freeMapFile.numBytes_eq
  have hdirBytes := hd.directoryFile.numBytes_eq
  rw [hs.map_eq] at hmapBytes
  rw [hs.directory_eq] at hdirBytes
  have hz1 := hmap.zero_of_size firstMap_numBits hmapBytes
  have hz2 := hdir.zero_of_size hmap.numBits_eq hdirBytes
  -- the sectors
  obtain ⟨g, hg⟩ := List.length_eq_one_iff.mp hs.length_map
  obtain ⟨e, es, he⟩ := List.exists_cons_of_length_pos (l := dirH.dataOf) (by rw [hs.length_directory]; decide)
  have hnotmap := hw.map_not_mem hs hd hg
  have hnotfirst := hw.first_not_mem hs hd he
  have hmarks := hd.marks
  rw [hw.storedFreeMap_eq hs hd hm2 hg, hs.sectors_map, hs.sectors_directory] at hmarks
  obtain ⟨hm1, hget1⟩ := hmap.first firstMap_numBits hz1 firstMap_firstMarked (by decide) (by decide)
  obtain ⟨hk2, hget2⟩ := hdir.first hmap.numBits_eq hz2 hm1 (by decide) (by
    have hsz : divRoundUp directoryFileSize sectorSize = 3 := rfl
    have hone : divRoundUp freeMapFileSize sectorSize = 1 := rfl
    have hnum : numSectors = 1024 := rfl
    omega)
  have hone : divRoundUp freeMapFileSize sectorSize = 1 := rfl
  have hthree : divRoundUp directoryFileSize sectorSize = 3 := rfl
  rw [hone] at hget1 hget2 hk2
  rw [hthree] at hget2 hk2
  have hmapGet : ∀ j, j < 1 → mapH.dataOf[j]? = mapH.dataSectors[j]? := by
    intro j hj
    rw [RawFileHeader.dataOf, hmap.numSectors_eq firstMap_numBits, hmapBytes, hone, List.getElem?_take_of_lt hj]
  have hdirGet : ∀ j, j < 3 → dirH.dataOf[j]? = dirH.dataSectors[j]? := by
    intro j hj
    rw [RawFileHeader.dataOf, hdir.numSectors_eq hmap.numBits_eq, hdirBytes, hthree, List.getElem?_take_of_lt hj]
  -- every sector of the files is one of the first ones
  have hbelow : ∀ x, x < numSectors → x ∈ mapH.dataOf ∨ x ∈ dirH.dataOf →
      x < 2 + (1 - (RawFileHeader.ofMemory mapHeap).numSectors) + (3 - (RawFileHeader.ofMemory dirHeap).numSectors) := by
    intro x hx hmem
    have htest := (hmarks x hx).mpr (hmem.imp (List.mem_cons_of_mem _) (List.mem_cons_of_mem _))
    rw [hk2 x (by rw [hm2]; exact hx)] at htest
    exact of_decide_eq_true htest
  have hgmem : g ∈ mapH.dataOf := by
    rw [hg]
    exact List.mem_cons_self
  have hemem : e ∈ dirH.dataOf := by
    rw [he]
    exact List.mem_cons_self
  have hgk := hbelow g (hw.lt_map g (by rw [hs.map_sectors]; exact hgmem)) (Or.inl hgmem)
  have hek := hbelow e (hw.lt_table e (by rw [hs.directory_sectors]; exact hemem)) (Or.inr hemem)
  have hzero : freeMapSector = 0 := rfl
  have hdirSector : directorySector = 1 := rfl
  have hg2 : 2 ≤ g := by
    have h0 : g ≠ 0 := by
      rintro rfl
      exact hs.not_map.1 hgmem
    have h1 : g ≠ 1 := by
      rintro rfl
      exact hs.not_map.2 hgmem
    omega
  have he2 : 2 ≤ e := by
    have h0 : e ≠ 0 := by
      rintro rfl
      exact hs.not_directory.1 hemem
    have h1 : e ≠ 1 := by
      rintro rfl
      exact hs.not_directory.2 hemem
    omega
  obtain ⟨hn1, hn2⟩ := no_sectors_before hg2 he2 hgk hek (by rw [← he]; exact hnotmap) hnotfirst
    (fun hn => by
      have hget := hget1 0 (Nat.le_of_eq hn) (by decide)
      rw [← hmapGet 0 (by decide), hg, hn] at hget
      exact Option.some.inj hget)
    fun j hj hlt => by
      rw [← he, hdirGet j hlt]
      exact hget2 j hj hlt
  exact ⟨⟨hz1, hn1⟩, ⟨hz2, hn2⟩⟩

/-- The constructor formats the disk whatever the rest of the memory and the disk held, exactly if the counters of
both headers are zero in their memory. -/
theorem formatsWith_iff (mapHeap dirHeap : ByteMemory) :
    FormatsWith mapHeap dirHeap ↔ Zeroed mapHeap ∧ Zeroed dirHeap :=
  ⟨zeroed_of_formatsWith, fun h => formatsWith_of_zeroed h.1 h.2⟩

end Filesys

end Nachos
