import Nachos.Filesys.Proofs.TransferProofs

/-!
# Proofs: the steps of `Write`

The invariant of a `Write` in progress, and what its three kinds of step do: extend a header, write a
chunk under a header, append a header. Each keeps the layout of the disk, gives free sectors to the
written file only and leaves everything else as it was.
-/

namespace Nachos.Filesys

open Foundations Resumption

/-! ## What a step leaves unchanged -/

/-- A step on the `OpenFile` object `f` changes at most the disk, that object and the supply of new
memory. -/
structure FileStep (f : FileId) (w w' : World) : Prop where
  table_eq : w'.table = w.table
  files_eq : ∀ g, g ≠ f → w'.files g = w.files g
  nextFile_eq : w'.nextFile = w.nextFile
  locks_eq : w'.locks = w.locks
  nextLock_eq : w'.nextLock = w.nextLock
  freeMapFile_eq : w'.freeMapFile = w.freeMapFile
  directoryFile_eq : w'.directoryFile = w.directoryFile
  directorySize_eq : w'.directorySize = w.directorySize
  removeChannel_eq : w'.removeChannel = w.removeChannel
  slot_eq : w'.heap .slot = w.heap .slot

theorem FileStep.refl (f : FileId) (w : World) : FileStep f w w :=
  ⟨rfl, fun _ _ => rfl, rfl, rfl, rfl, rfl, rfl, rfl, rfl, rfl⟩

theorem FileStep.trans {f : FileId} {w w' w'' : World} (h : FileStep f w w')
    (h' : FileStep f w' w'') : FileStep f w w'' where
  table_eq := h'.table_eq.trans h.table_eq
  files_eq := fun g hg => (h'.files_eq g hg).trans (h.files_eq g hg)
  nextFile_eq := h'.nextFile_eq.trans h.nextFile_eq
  locks_eq := h'.locks_eq.trans h.locks_eq
  nextLock_eq := h'.nextLock_eq.trans h.nextLock_eq
  freeMapFile_eq := h'.freeMapFile_eq.trans h.freeMapFile_eq
  directoryFile_eq := h'.directoryFile_eq.trans h.directoryFile_eq
  directorySize_eq := h'.directorySize_eq.trans h.directorySize_eq
  removeChannel_eq := h'.removeChannel_eq.trans h.removeChannel_eq
  slot_eq := h'.slot_eq.trans h.slot_eq

/-- A change of the object `f`. -/
theorem FileStep.setFile (f : FileId) (w : World) (o : Option OpenFile) :
    FileStep f w { w with files := Function.update w.files f o } where
  table_eq := rfl
  files_eq := fun _ hg => Function.update_of_ne hg _ _
  nextFile_eq := rfl
  locks_eq := rfl
  nextLock_eq := rfl
  freeMapFile_eq := rfl
  directoryFile_eq := rfl
  directorySize_eq := rfl
  removeChannel_eq := rfl
  slot_eq := rfl

/-- A change of the disk. -/
theorem FileStep.setDisk (f : FileId) (w : World) (D : Disk) : FileStep f w { w with disk := D } :=
  ⟨rfl, fun _ _ => rfl, rfl, rfl, rfl, rfl, rfl, rfl, rfl, rfl⟩

/-- A change of the disk and a piece of memory taken for a buffer. -/
theorem FileStep.setDiskBuffer (f : FileId) (w : World) (D : Disk) :
    FileStep f w { w with
      disk := D
      heap := Function.update w.heap .buffer fun n => w.heap .buffer (n + 1) } :=
  ⟨rfl, fun _ _ => rfl, rfl, rfl, rfl, rfl, rfl, rfl, rfl,
    by simp⟩

theorem FileStep.wroteMap {f : FileId} {w w' : World} {m : Bitmap} (h : WroteMap w m w') :
    FileStep f w w' := by
  obtain ⟨D, rfl⟩ := h.eq_with
  exact FileStep.setDiskBuffer f w D

theorem FileStep.mapFileOk {f : FileId} {w w' : World} (h : FileStep f w w')
    (hne : f ≠ w.freeMapFile) (hm : MapFileOk w) : MapFileOk w' := by
  obtain ⟨file, hfile, hmh⟩ := hm
  refine ⟨file, ?_, hmh⟩
  rw [h.freeMapFile_eq, h.files_eq _ hne.symm]
  exact hfile

/-- The ownership map after sectors were given to `s`. -/
structure Grown (s : Nat) (own own' : Nat → Option Nat) : Prop where
  other : ∀ x t, t ≠ s → (own' x = some t ↔ own x = some t)
  mono : ∀ x, own x = some s → own' x = some s

theorem Grown.refl (s : Nat) (own : Nat → Option Nat) : Grown s own own :=
  ⟨fun _ _ _ => Iff.rfl, fun _ h => h⟩

theorem Grown.trans {s : Nat} {own own' own'' : Nat → Option Nat} (h : Grown s own own')
    (h' : Grown s own' own'') : Grown s own own'' :=
  ⟨fun x t ht => (h'.other x t ht).trans (h.other x t ht), fun x hx => h'.mono x (h.mono x hx)⟩

theorem Grown.extendOwn {s : Nat} {own : Nat → Option Nat} {l : List Nat}
    (hfree : ∀ y ∈ l, own y = none) : Grown s own (extendOwn own l s) :=
  ⟨fun x _ ht => extendOwn_eq_iff hfree ht x, fun x hx => (extendOwn_self_iff x).mpr (Or.inl hx)⟩

/-- Nothing else was owned: what `s` does not own after it did not own before. -/
theorem Grown.none_of_none {s x : Nat} {own own' : Nat → Option Nat} (h : Grown s own own')
    (hx : own' x = none) : own x = none := by
  cases ho : own x with
  | none => rfl
  | some t =>
    by_cases ht : t = s
    · rw [h.mono x (ht ▸ ho)] at hx
      cases hx
    · rw [(h.other x t ht).mpr ho] at hx
      cases hx

/-- The header `new` is `old` with more bytes and data sectors, or with a header behind it. -/
structure HeaderGrown (old new : RawFileHeader) : Prop where
  numBytes_le : old.numBytes ≤ new.numBytes
  dataOf_prefix : old.dataOf <+: new.dataOf
  next : new.nextFileHeader = old.nextFileHeader ∨ old.nextFileHeader = 0

theorem HeaderGrown.refl (h : RawFileHeader) : HeaderGrown h h :=
  ⟨Nat.le_refl _, List.prefix_rfl, Or.inl rfl⟩

theorem HeaderGrown.trans {h h' h'' : RawFileHeader} (h1 : HeaderGrown h h') (h2 : HeaderGrown h' h'') :
    HeaderGrown h h'' := by
  refine ⟨Nat.le_trans h1.numBytes_le h2.numBytes_le, h1.dataOf_prefix.trans h2.dataOf_prefix, ?_⟩
  rcases h1.next with heq | hzero
  · rw [← heq]
    exact h2.next
  · exact Or.inr hzero

/-- The headers of the file `s` have grown, and there may be more behind them. -/
def HeadersGrown (s : Nat) (d : Disk) (own : Nat → Option Nat) (d' : Disk) (own' : Nat → Option Nat) : Prop :=
  ∀ c, FileOk d own s c →
    ∃ c', FileOk d' own' s c' ∧ c <+: c' ∧ ∀ x ∈ c, HeaderGrown (hdrAt d x) (hdrAt d' x)

theorem HeadersGrown.trans {s : Nat} {d d' d'' : Disk} {own own' own'' : Nat → Option Nat}
    (h : HeadersGrown s d own d' own') (h' : HeadersGrown s d' own' d'' own'') :
    HeadersGrown s d own d'' own'' := by
  intro c hc
  obtain ⟨c1, hc1, hpre1, hgrown1⟩ := h c hc
  obtain ⟨c2, hc2, hpre2, hgrown2⟩ := h' c1 hc1
  exact ⟨c2, hc2, hpre1.trans hpre2, fun x hx => (hgrown1 x hx).trans (hgrown2 x (hpre1.subset hx))⟩

/-- The headers of a file are known. -/
theorem HeadersGrown.of_file {s : Nat} {d d' : Disk} {own own' : Nat → Option Nat} {c c' : List Nat}
    (hc : FileOk d own s c) (hc' : FileOk d' own' s c') (hpre : c <+: c')
    (h : ∀ x ∈ c, HeaderGrown (hdrAt d x) (hdrAt d' x)) : HeadersGrown s d own d' own' := by
  intro c1 hc1
  rw [hc1.unique hc]
  exact ⟨c', hc', hpre, h⟩

/-- The header sectors did not change. -/
theorem HeadersGrown.congr {s : Nat} {d d' : Disk} {own : Nat → Option Nat}
    (h : ∀ c, FileOk d own s c → ∀ x ∈ c, d' x = d x) : HeadersGrown s d own d' own := by
  intro c hc
  refine ⟨c, hc.congr (h c hc) fun _ => Iff.rfl, List.prefix_rfl, fun x hx => ?_⟩
  rw [hdrAt_congr (h c hc x hx)]
  exact HeaderGrown.refl _

theorem HeadersGrown.refl (s : Nat) (d : Disk) (own : Nat → Option Nat) : HeadersGrown s d own d own :=
  HeadersGrown.congr fun _ _ _ _ => rfl

/-- A step of a `Write` on the file `s` through the object `f`, with the free map `m` before and `m'`
after it. -/
structure WStep (f : FileId) (s : Nat) (w : World) (own : Nat → Option Nat) (m : Bitmap) (w' : World)
    (own' : Nat → Option Nat) (m' : Bitmap) : Prop where
  world : FileStep f w w'
  grown : Grown s own own'
  disk : ∀ x, own' x ≠ some s → x ≠ freeMapDataSector → w'.disk x = w.disk x
  marks : ∀ x, m.test x = true → m'.test x = true
  headers : HeadersGrown s w.disk own w'.disk own'

theorem WStep.refl (f : FileId) (s : Nat) (w : World) (own : Nat → Option Nat) (m : Bitmap) :
    WStep f s w own m w own m :=
  ⟨FileStep.refl f w, Grown.refl s own, fun _ _ _ => rfl, fun _ h => h, HeadersGrown.refl s w.disk own⟩

/-- Nothing but the object `f` has changed. -/
theorem WStep.setFile (f : FileId) (s : Nat) (w : World) (own : Nat → Option Nat) (m : Bitmap)
    (o : Option OpenFile) : WStep f s w own m { w with files := Function.update w.files f o } own m :=
  ⟨FileStep.setFile f w o, Grown.refl s own, fun _ _ _ => rfl, fun _ h => h, HeadersGrown.refl s w.disk own⟩

theorem WStep.trans {f : FileId} {s : Nat} {w w' w'' : World} {own own' own'' : Nat → Option Nat}
    {m m' m'' : Bitmap} (h : WStep f s w own m w' own' m') (h' : WStep f s w' own' m' w'' own'' m'') :
    WStep f s w own m w'' own'' m'' where
  world := h.world.trans h'.world
  grown := h.grown.trans h'.grown
  disk := fun x hx h2 => (h'.disk x hx h2).trans (h.disk x (fun ho => hx (h'.grown.mono x ho)) h2)
  marks := fun x hx => h'.marks x (h.marks x hx)
  headers := h.headers.trans h'.headers

/-- The sectors marked since `m` belong to `s`. -/
def Tight (s : Nat) (m m' : Bitmap) (own' : Nat → Option Nat) : Prop :=
  ∀ x, m'.test x = true → m.test x = true ∨ own' x = some s

theorem Tight.refl (s : Nat) (m : Bitmap) (own : Nat → Option Nat) : Tight s m m own :=
  fun _ h => Or.inl h

theorem Tight.trans {s : Nat} {m m' m'' : Bitmap} {own' own'' : Nat → Option Nat}
    (h : Tight s m m' own') (h' : Tight s m' m'' own'') (hg : Grown s own' own'') :
    Tight s m m'' own'' := by
  intro x hx
  rcases h' x hx with hx' | hx'
  · rcases h x hx' with hx'' | hx''
    · exact Or.inl hx''
    · exact Or.inr (hg.mono x hx'')
  · exact Or.inr hx'

/-! ## The invariant -/

/-- A `Write` in progress on the file that starts at `s` and has the headers `c`: the disk is in
order, and `m` is the free map, in memory and on disk. -/
structure WriteInv (w : World) (own : Nat → Option Nat) (m : Bitmap) (f : FileId) (s : Nat)
    (c : List Nat) : Prop where
  layout : Layout w.disk own
  marked : Marked m own
  mapIs : MapIs w.disk m
  mapFile : MapFileOk w
  ne_map : f ≠ w.freeMapFile
  start_ne : s ≠ 0
  file : FileOk w.disk own s c

namespace WriteInv

variable {w : World} {own : Nat → Option Nat} {m : Bitmap} {f : FileId} {s : Nat} {c : List Nat}

/-- A free sector of the map is a sector that nobody owns. -/
theorem own_none (h : WriteInv w own m f s c) {x : Nat} (hx : m.test x = false) : own x = none := by
  cases ho : own x with
  | none => rfl
  | some t =>
    rw [h.marked x t ho] at hx
    cases hx

theorem header_lt (h : WriteInv w own m f s c) {x : Nat} (hx : x ∈ c) : x < numSectors :=
  h.layout.lt x s (h.file.own_of_mem hx)

theorem header_ne_mapData (h : WriteInv w own m f s c) {x : Nat} (hx : x ∈ c) :
    x ≠ freeMapDataSector :=
  h.layout.ne_mapData h.start_ne (h.file.own_of_mem hx)

theorem data_lt (h : WriteInv w own m f s c) {x y : Nat} (hx : x ∈ c)
    (hy : y ∈ (hdrAt w.disk x).dataOf) : y < numSectors :=
  h.layout.lt y s (h.file.own_of_data hx hy)

theorem data_ne_mapData (h : WriteInv w own m f s c) {x y : Nat} (hx : x ∈ c)
    (hy : y ∈ (hdrAt w.disk x).dataOf) : y ≠ freeMapDataSector :=
  h.layout.ne_mapData h.start_ne (h.file.own_of_data hx hy)

/-- Nothing but the object `f` has changed. -/
theorem setFile (h : WriteInv w own m f s c) (file : OpenFile) :
    WriteInv { w with files := Function.update w.files f (some file) } own m f s c where
  layout := h.layout
  marked := h.marked
  mapIs := h.mapIs
  mapFile := (FileStep.setFile f w (some file)).mapFileOk h.ne_map h.mapFile
  ne_map := h.ne_map
  start_ne := h.start_ne
  file := h.file

/-- The invariant after a step that changed the file `s`. -/
theorem of_step {w' : World} {own' : Nat → Option Nat} {m' : Bitmap} {c' : List Nat}
    (h : WriteInv w own m f s c) (hstep : WStep f s w own m w' own' m') (hmap : MapIs w'.disk m')
    (hfile : FileOk w'.disk own' s c') (hlt : ∀ x, own' x = some s → x < numSectors)
    (hmark : ∀ x, own' x = some s → m'.test x = true) : WriteInv w' own' m' f s c' where
  layout := by
    refine h.layout.update h.start_ne hstep.grown.other ?_ hlt (Or.inl ⟨c', hfile⟩)
    intro x t ht ho hx
    refine hstep.disk x ?_ hx
    intro hs
    rw [(hstep.grown.other x t ht).mpr ho] at hs
    exact ht (Option.some.inj hs)
  marked := by
    intro x t hx
    by_cases ht : t = s
    · exact hmark x (ht ▸ hx)
    · exact hstep.marks x (h.marked x t ((hstep.grown.other x t ht).mp hx))
  mapIs := hmap
  mapFile := hstep.world.mapFileOk h.ne_map h.mapFile
  ne_map := by rw [hstep.world.freeMapFile_eq]; exact h.ne_map
  start_ne := h.start_ne
  file := hfile

/-- The header that the object holds is in order. -/
theorem readable (h : WriteInv w own m f s c) {file : OpenFile} {x : Nat} (hx : x ∈ c)
    (hhdr : file.hdr = hdrAt w.disk x) : Readable file where
  ok := by rw [hhdr]; exact h.file.ok x hx
  lt := by
    intro y hy
    rw [hhdr] at hy
    exact h.data_lt hx hy

end WriteInv

/-! ## Extending a header -/

theorem dataBytes_take_extend {d d' : Disk} {h h' : RawFileHeader} {news : List Nat} (hok : h.Ok)
    (hle : h.numBytes ≤ h'.numBytes) (hdata : h'.dataOf = h.dataOf ++ news)
    (heq : ∀ x ∈ h.dataOf, d' x = d x) :
    (dataBytes d' h').take h.numBytes = dataBytes d h := by
  have hlen : h.numBytes ≤ (h.dataOf.flatMap fun x => (d' x).bytes).length := by
    rw [length_flatMap_bytes, hok.length_dataOf, hok.numSectors_eq]
    exact le_divRoundUp_mul _
  have hflat : (h.dataOf.flatMap fun x => (d' x).bytes) = h.dataOf.flatMap fun x => (d x).bytes :=
    List.flatMap_congr fun x hx => by rw [heq x hx]
  unfold dataBytes
  rw [List.take_take, Nat.min_eq_left hle, hdata, List.flatMap_append,
    List.take_append_of_le_length hlen, hflat]

/-- What is known after the header at `x` was made to cover `needed` bytes. -/
structure Extended (f : FileId) (s : Nat) (c : List Nat) (x : Nat) (file : OpenFile) (needed : Nat)
    (w : World) (own : Nat → Option Nat) (m : Bitmap) (w' : World) (own' : Nat → Option Nat)
    (m' : Bitmap) : Prop where
  inv : WriteInv w' own' m' f s c
  step : WStep f s w own m w' own' m'
  tight : Tight s m m' own'
  file_eq : w'.files f = some { file with hdr := hdrAt w'.disk x }
  numBytes_eq : (hdrAt w'.disk x).numBytes = max (hdrAt w.disk x).numBytes needed
  next_eq : (hdrAt w'.disk x).nextFileHeader = (hdrAt w.disk x).nextFileHeader
  others : ∀ y ∈ c, y ≠ x → hdrAt w'.disk y = hdrAt w.disk y ∧
    dataBytes w'.disk (hdrAt w.disk y) = dataBytes w.disk (hdrAt w.disk y)
  bytes : (dataBytes w'.disk (hdrAt w'.disk x)).take (hdrAt w.disk x).numBytes =
    dataBytes w.disk (hdrAt w.disk x)
  clear : m'.countClear + (hdrAt w.disk x).newSectors (needed - (hdrAt w.disk x).numBytes) =
    m.countClear

section Extend

variable {w : World} {own : Nat → Option Nat} {m : Bitmap} {f : FileId} {s x needed : Nat}
  {c : List Nat} {file : OpenFile}

/-- A header that already covers the bytes needs no sector. -/
theorem newSectors_zero {h : RawFileHeader} (hok : h.Ok) : h.newSectors 0 = 0 := by
  unfold RawFileHeader.newSectors
  rw [Nat.add_zero, ← hok.numSectors_eq, Nat.sub_self]

theorem run_extendHeader_covered (hf : w.files f = some file) (hneed : needed ≤ file.hdr.numBytes)
    (st : Writing) : (extendHeader f x needed st).run w = some ((true, st), w) := by
  simp only [extendHeader, run_bind, run_getFile hf, Option.bind_some]
  rw [if_neg (Nat.not_lt.mpr hneed)]
  rfl

theorem extended_covered (h : WriteInv w own m f s c) (hf : w.files f = some file) (hx : x ∈ c)
    (hhdr : file.hdr = hdrAt w.disk x) (hneed : needed ≤ file.hdr.numBytes) :
    Extended f s c x file needed w own m w own m where
  inv := h
  step := WStep.refl f s w own m
  tight := Tight.refl s m own
  file_eq := by rw [hf, ← hhdr]
  numBytes_eq := by rw [hhdr] at hneed; omega
  next_eq := rfl
  others := fun _ _ _ => ⟨rfl, rfl⟩
  bytes := by
    have hlen := length_dataBytes (d := w.disk) (h.file.ok x hx)
    rw [List.take_of_length_le (Nat.le_of_eq hlen)]
  clear := by
    rw [hhdr] at hneed
    rw [Nat.sub_eq_zero_of_le hneed, newSectors_zero (h.file.ok x hx), Nat.add_zero]

/-- Without enough free sectors only the header in memory changes. -/
theorem run_extendHeader_short (hf : w.files f = some file) (hok : file.hdr.Ok)
    (hlt : file.hdr.numBytes < needed) (hneed : needed ≤ maxHeaderBytes) (st : Writing)
    (hclear : st.freeMap.countClear < file.hdr.newSectors (needed - file.hdr.numBytes)) :
    ∃ hdr : RawFileHeader, hdr.numBytes ≤ maxHeaderBytes ∧
      hdr.nextFileHeader = file.hdr.nextFileHeader ∧
      (extendHeader f x needed st).run w = some ((false, st), { w with
        files := Function.update w.files f (some { file with hdr := hdr }) }) := by
  obtain ⟨hdr, halloc, hnb, hnx⟩ := RawFileHeader.allocate_short hok (by omega) hclear
  refine ⟨hdr, by rw [hnb]; omega, hnx, ?_⟩
  simp only [extendHeader, run_bind, run_getFile hf, Option.bind_some]
  rw [if_pos hlt]
  simp only [run_bind, halloc, run_ofOption_some, Option.bind_some, run_modifyFile hf]
  rfl

/-- With enough free sectors the header and the free map are extended, in memory and on disk. -/
theorem run_extendHeader_enough (h : WriteInv w own m f s c) (hf : w.files f = some file)
    (hx : x ∈ c) (hhdr : file.hdr = hdrAt w.disk x) (hlt : file.hdr.numBytes < needed)
    (hneed : needed ≤ maxHeaderBytes) (st : Writing) (hst : st.freeMap = m)
    (hclear : file.hdr.newSectors (needed - file.hdr.numBytes) ≤ m.countClear) :
    ∃ w' own' m', (extendHeader f x needed st).run w =
        some ((true, { st with freeMap := m' }), w') ∧
      Extended f s c x file needed w own m w' own' m' := by
  have hok : file.hdr.Ok := by rw [hhdr]; exact h.file.ok x hx
  obtain ⟨hdr, m', news, halloc, hall⟩ :=
    RawFileHeader.allocate_enough hok h.mapIs.numBits_eq (by omega) hclear
  have hfits : hdr.Fits := hall.fits (by rw [hhdr]; exact RawFileHeader.fits_ofSector _)
  -- the header in memory, then the free map, then the header on disk
  have hf1 : ({ w with files := Function.update w.files f (some { file with hdr := hdr }) } :
      World).files f = some { file with hdr := hdr } := Function.update_self ..
  have hstep1 := FileStep.setFile f w (some { file with hdr := hdr })
  generalize hw1 : ({ w with
    files := Function.update w.files f (some { file with hdr := hdr }) } : World) = w1 at hf1 hstep1
  have hd1 : w1.disk = w.disk := by rw [← hw1]
  obtain ⟨w2, hrun2, hmap2⟩ :=
    run_writeBackFreeMap (hstep1.mapFileOk h.ne_map h.mapFile) hall.numBits_eq
  have hstep2 : FileStep f w1 w2 := FileStep.wroteMap hmap2
  have hf2 : w2.files f = some { file with hdr := hdr } := by
    obtain ⟨D, rfl⟩ := hmap2.eq_with
    exact hf1
  have hstep3 := FileStep.setDisk f w2 (Function.update w2.disk x hdr.toSector)
  generalize hw3 : ({ w2 with disk := Function.update w2.disk x hdr.toSector } : World) = w3 at hstep3
  have hxd : hdrAt w3.disk x = hdr := by
    rw [← hw3, hdrAt]
    show RawFileHeader.ofSector (Function.update w2.disk x hdr.toSector x) = hdr
    rw [Function.update_self, RawFileHeader.ofSector_toSector hfits]
  have hd3 : ∀ y, y ≠ x → y ≠ freeMapDataSector → w3.disk y = w.disk y := by
    intro y hy hy2
    rw [← hw3, ← hd1, ← hmap2.disk_eq y hy2]
    exact Function.update_of_ne hy _ _
  have hmap3 : MapIs w3.disk m' := by
    refine hmap2.mapIs.congr ?_
    rw [← hw3]
    exact Function.update_of_ne (h.header_ne_mapData hx).symm _ _
  have hfree : ∀ y ∈ news, own y = none := fun y hy => h.own_none (hall.news_free y hy).2
  have hother : ∀ y ∈ c, y ≠ x → w3.disk y = w.disk y :=
    fun y hy hyx => hd3 y hyx (h.header_ne_mapData hy)
  have hdataeq : ∀ y ∈ c, ∀ z ∈ (hdrAt w.disk y).dataOf, w3.disk z = w.disk z := by
    intro y hy z hz
    refine hd3 z ?_ (h.data_ne_mapData hy hz)
    rintro rfl
    exact h.file.header_notMem_data hx hy hz
  have hfile : FileOk w3.disk (extendOwn own news s) s c := by
    refine h.file.extend hx ?_ ?_ ?_ hother hall.news_nodup hfree
    · rw [hxd]
      exact hall.ok
    · rw [hxd, hall.next_eq, hhdr]
    · rw [hxd, hall.dataOf_eq, hhdr]
  have hstep : WStep f s w own m w3 (extendOwn own news s) m' := by
    refine ⟨(hstep1.trans hstep2).trans hstep3, Grown.extendOwn hfree, ?_, ?_, ?_⟩
    · intro y hy hy2
      refine hd3 y ?_ hy2
      rintro rfl
      exact hy ((extendOwn_self_iff y).mpr (Or.inl (h.file.own_of_mem hx)))
    · intro y hy
      rw [hall.test_eq, hy, Bool.true_or]
    · refine HeadersGrown.of_file h.file hfile List.prefix_rfl fun y hy => ?_
      by_cases hyx : y = x
      · rw [hyx, hxd, ← hhdr]
        exact ⟨by rw [hall.numBytes_eq]; exact Nat.le_add_right _ _,
          by rw [hall.dataOf_eq]; exact List.prefix_append _ _, Or.inl hall.next_eq⟩
      · rw [hdrAt_congr (hother y hy hyx)]
        exact HeaderGrown.refl _
  refine ⟨w3, extendOwn own news s, m', ?_, ?_⟩
  · simp only [extendHeader, run_bind, run_getFile hf, Option.bind_some]
    rw [if_pos hlt]
    simp only [run_bind, hst, halloc, run_ofOption_some, Option.bind_some, run_modifyFile hf, if_true,
      hw1, hrun2, run_getFile hf2, run_writeSector (h.header_lt hx), hw3, run_pure]
  · refine ⟨h.of_step hstep hmap3 hfile ?_ ?_, hstep, ?_, ?_, ?_, ?_, ?_, ?_, ?_⟩
    · intro y hy
      rcases (extendOwn_self_iff y).mp hy with hy | hy
      · exact h.layout.lt y s hy
      · exact (hall.news_free y hy).1
    · intro y hy
      rw [hall.test_eq]
      rcases (extendOwn_self_iff y).mp hy with hy | hy
      · rw [h.marked y s hy, Bool.true_or]
      · simp [hy]
    · intro y hy
      rw [hall.test_eq, Bool.or_eq_true, decide_eq_true_eq] at hy
      exact hy.imp id fun hy => (extendOwn_self_iff y).mpr (Or.inr hy)
    · rw [hxd, ← hw3]
      exact hf2
    · rw [hxd, hall.numBytes_eq, ← hhdr]
      omega
    · rw [hxd, hall.next_eq, hhdr]
    · intro y hy hyx
      exact ⟨hdrAt_congr (hother y hy hyx), dataBytes_congr (hdataeq y hy)⟩
    · rw [hxd]
      refine dataBytes_take_extend (h.file.ok x hx) ?_ (by rw [hall.dataOf_eq, hhdr]) (hdataeq x hx)
      rw [hall.numBytes_eq, hhdr]
      exact Nat.le_add_right _ _
    · rw [← hhdr, ← hall.news_length]
      exact hall.countClear_eq

end Extend

/-! ## Writing under a header -/

section Chunk

variable {w : World} {own : Nat → Option Nat} {m : Bitmap} {f : FileId} {s x : Nat} {c : List Nat}
  {file : OpenFile}

/-- What is known after `n` bytes were written under the header at `x`. -/
structure Chunked (f : FileId) (s : Nat) (c : List Nat) (x : Nat) (file : OpenFile)
    (chunk : List UInt8) (w : World) (own : Nat → Option Nat) (m : Bitmap) (w' : World) : Prop where
  inv : WriteInv w' own m f s c
  step : WStep f s w own m w' own m
  file_eq : w'.files f = some { file with seekPosition := file.seekPosition + chunk.length }
  headers : ∀ y ∈ c, hdrAt w'.disk y = hdrAt w.disk y
  others : ∀ y ∈ c, y ≠ x →
    dataBytes w'.disk (hdrAt w.disk y) = dataBytes w.disk (hdrAt w.disk y)
  bytes : dataBytes w'.disk (hdrAt w.disk x) =
    splice (dataBytes w.disk (hdrAt w.disk x)) file.seekPosition chunk
  disk_eq : ∀ y, y ∉ (hdrAt w.disk x).dataOf → w'.disk y = w.disk y

theorem run_writeChunk (h : WriteInv w own m f s c) (hf : w.files f = some file) (hx : x ∈ c)
    (hhdr : file.hdr = hdrAt w.disk x) (st : Writing) {n : Nat} (hn : 0 < n)
    (hnl : n ≤ st.data.length) (hfit : file.seekPosition + n ≤ file.hdr.numBytes) :
    ∃ w', (writeChunk f n st).run w =
        some ({ st with data := st.data.drop n, result := st.result + n }, w') ∧
      Chunked f s c x file (st.data.take n) w own m w' := by
  have hr := h.readable hx hhdr
  have hmax : maxHeaderBytes = 3712 := rfl
  have hnb := hr.ok.numBytes_le
  have hlen : (st.data.take n).length = n := by rw [List.length_take]; omega
  obtain ⟨D, hrun, hout, hbytes⟩ := run_writeAt hf hr (by rw [hhdr]; exact h.file.nodup_data hx)
    (st.data.take n) file.seekPosition (by omega) (by omega) (by omega)
  rw [hlen, Nat.min_eq_left (by omega)] at hrun
  rw [List.take_of_length_le (by omega), hhdr] at hbytes
  have hstep1 := FileStep.setDiskBuffer f w D
  have hf1 : ({ w with
      disk := D
      heap := Function.update w.heap .buffer fun n => w.heap .buffer (n + 1) } : World).files f =
        some file := hf
  generalize hw1 : ({ w with
      disk := D
      heap := Function.update w.heap .buffer fun n => w.heap .buffer (n + 1) } : World) = w1
    at hrun hstep1 hf1
  have hd1 : w1.disk = D := by rw [← hw1]
  have hsame : ∀ y, y ∉ (hdrAt w.disk x).dataOf → D y = w.disk y := by
    intro y hy
    exact hout y (by rw [hhdr]; exact hy)
  have hu : u32 (file.seekPosition + n) = file.seekPosition + n := u32_of_lt (by omega)
  generalize hfile2 : ({ file with seekPosition := file.seekPosition + n } : OpenFile) = file2
  have hstep2 := FileStep.setFile f w1 (some file2)
  refine ⟨{ w1 with files := Function.update w1.files f (some file2) }, ?_, ?_⟩
  · simp only [writeChunk, run_bind, run_getFile hf, Option.bind_some, hrun, advanceSeek,
      run_modifyFile hf1, run_pure, hu, hfile2]
  have hheaders : ∀ y ∈ c, D y = w.disk y :=
    fun y hy => hsame y (h.file.header_notMem_data hy hx)
  have hstep : WStep f s w own m { w1 with files := Function.update w1.files f (some file2) }
      own m := by
    refine ⟨hstep1.trans hstep2, Grown.refl s own, ?_, fun _ hy => hy, HeadersGrown.congr ?_⟩
    · intro y hy _
      show w1.disk y = w.disk y
      rw [hd1]
      exact hsame y fun hmem => hy (h.file.own_of_data hx hmem)
    · intro c1 hc1 y hy
      show w1.disk y = w.disk y
      rw [hd1]
      exact hheaders y (hc1.unique h.file ▸ hy)
  refine ⟨h.of_step hstep ?_ ?_ ?_ ?_, hstep, ?_, ?_, ?_, ?_, ?_⟩
  · refine h.mapIs.congr ?_
    show w1.disk _ = _
    rw [hd1]
    exact hsame _ fun hmem => h.data_ne_mapData hx hmem rfl
  · refine h.file.congr ?_ fun _ => Iff.rfl
    intro y hy
    show w1.disk y = _
    rw [hd1]
    exact hheaders y hy
  · exact fun y hy => h.layout.lt y s hy
  · exact fun y hy => h.marked y s hy
  · show Function.update w1.files f _ f = _
    rw [Function.update_self, hlen, hfile2]
  · intro y hy
    show hdrAt w1.disk y = _
    rw [hd1]
    exact hdrAt_congr (hheaders y hy)
  · intro y hy hyx
    show dataBytes w1.disk _ = _
    rw [hd1]
    exact dataBytes_congr fun z hz => hsame z (h.file.data_disjoint hy hx hyx hz)
  · show dataBytes w1.disk _ = _
    rw [hd1]
    exact hbytes
  · intro y hy
    show w1.disk y = _
    rw [hd1]
    exact hsame y hy

/-- The sectors that are needed to write `n` bytes under the header `h` from position `seek` on. -/
def needHere (h : RawFileHeader) (seek n : Nat) : Nat :=
  if n = 0 then 0 else h.newSectors (seek + n - h.numBytes)

/-- What is known after the header at `x` was extended where necessary and `chunk` was written under
it from position `seek` on. -/
structure Here (f : FileId) (s : Nat) (c : List Nat) (x seek : Nat) (chunk : List UInt8) (w : World)
    (own : Nat → Option Nat) (m : Bitmap) (w' : World) (own' : Nat → Option Nat) (m' : Bitmap) :
    Prop where
  inv : WriteInv w' own' m' f s c
  step : WStep f s w own m w' own' m'
  tight : Tight s m m' own'
  numBytes_eq : chunk ≠ [] ∨ seek ≤ (hdrAt w.disk x).numBytes →
    (hdrAt w'.disk x).numBytes = max (hdrAt w.disk x).numBytes (seek + chunk.length)
  next_eq : (hdrAt w'.disk x).nextFileHeader = (hdrAt w.disk x).nextFileHeader
  others : ∀ y ∈ c, y ≠ x → hdrAt w'.disk y = hdrAt w.disk y ∧
    dataBytes w'.disk (hdrAt w.disk y) = dataBytes w.disk (hdrAt w.disk y)
  bytes : seek ≤ (hdrAt w.disk x).numBytes → dataBytes w'.disk (hdrAt w'.disk x) =
    splice (dataBytes w.disk (hdrAt w.disk x)) seek chunk
  clear : m'.countClear + needHere (hdrAt w.disk x) seek chunk.length = m.countClear

/-- An overlay that reaches the end of the extended bytes does not depend on what they were extended
by. -/
theorem splice_take_of_max {E old chunk : List UInt8} {seek : Nat} (hE : E.take old.length = old)
    (hlen : E.length = max old.length (seek + chunk.length)) (hseek : seek ≤ old.length) :
    splice E seek chunk = splice old seek chunk := by
  have htake : E.take seek = old.take seek := by
    rw [← hE, List.take_take, Nat.min_eq_left hseek]
  unfold splice
  rw [htake]
  congr 1
  by_cases hle : seek + chunk.length ≤ old.length
  · have : E = old := by rw [← hE, List.take_of_length_le (by omega)]
    rw [this]
  · rw [List.drop_eq_nil_of_le (by omega), List.drop_eq_nil_of_le (by omega)]

/-- An extension followed by a chunk. -/
theorem Extended.here {w1 w2 : World} {own1 : Nat → Option Nat} {m1 : Bitmap} {file1 : OpenFile}
    {needed : Nat} {chunk : List UInt8} (h : WriteInv w own m f s c) (hx : x ∈ c)
    (he : Extended f s c x file needed w own m w1 own1 m1)
    (hc : Chunked f s c x file1 chunk
      { w1 with files := Function.update w1.files f (some file1) } own1 m1 w2)
    (hneed : needed = file1.seekPosition + chunk.length) (hne : chunk ≠ []) :
    Here f s c x file1.seekPosition chunk w own m w2 own1 m1 := by
  have hset := WStep.setFile f s w1 own1 m1 (some file1)
  have hxh : hdrAt w2.disk x = hdrAt w1.disk x := hc.headers x hx
  refine ⟨hc.inv, (he.step.trans hset).trans hc.step, he.tight, ?_, ?_, ?_, ?_, ?_⟩
  · intro _
    rw [hxh, he.numBytes_eq, hneed]
  · rw [hxh, he.next_eq]
  · intro y hy hyx
    have heo := he.others y hy hyx
    have hco := hc.others y hy hyx
    have hch := hc.headers y hy
    simp only at hco hch
    rw [heo.1] at hco hch
    exact ⟨hch, hco.trans heo.2⟩
  · intro hseek
    have hb := hc.bytes
    simp only at hb
    rw [hxh, hb]
    have hlen := length_dataBytes (d := w.disk) (h.file.ok x hx)
    apply splice_take_of_max
    · rw [hlen]
      exact he.bytes
    · rw [length_dataBytes (he.inv.file.ok x hx), he.numBytes_eq, hneed, hlen]
    · rw [hlen]
      exact hseek
  · rw [needHere, if_neg (by simpa using hne), ← hneed]
    exact he.clear

/-- Nothing was to be written. -/
theorem here_nil (h : WriteInv w own m f s c) (seek : Nat) :
    Here f s c x seek [] w own m w own m where
  inv := h
  step := WStep.refl f s w own m
  tight := Tight.refl s m own
  numBytes_eq := by
    intro hs
    have hseek := hs.resolve_left (fun hne => hne rfl)
    simp only [List.length_nil]
    omega
  next_eq := rfl
  others := fun _ _ _ => ⟨rfl, rfl⟩
  bytes := fun _ => by rw [splice_nil]
  clear := by simp [needHere]

end Chunk

/-! ## Files that do not change -/

/-- The files other than `l` own and hold what they did. -/
structure OnlyFiles (l : List Nat) (d : Disk) (own : Nat → Option Nat) (d' : Disk)
    (own' : Nat → Option Nat) : Prop where
  own_iff : ∀ x t, t ∉ l → (own' x = some t ↔ own x = some t)
  disk_eq : ∀ x t, t ∉ l → own x = some t → x ≠ freeMapDataSector → d' x = d x

section OnlyFiles

variable {d d' d'' : Disk} {own own' own'' : Nat → Option Nat} {l l' : List Nat} {s t : Nat}
  {c : List Nat}

theorem OnlyFiles.refl (l : List Nat) (d : Disk) (own : Nat → Option Nat) : OnlyFiles l d own d own :=
  ⟨fun _ _ _ => Iff.rfl, fun _ _ _ _ _ => rfl⟩

theorem OnlyFiles.mono (h : OnlyFiles l d own d' own') (hl : l ⊆ l') : OnlyFiles l' d own d' own' :=
  ⟨fun x t ht => h.own_iff x t fun hm => ht (hl hm),
    fun x t ht => h.disk_eq x t fun hm => ht (hl hm)⟩

theorem OnlyFiles.trans (h : OnlyFiles l d own d' own') (h' : OnlyFiles l d' own' d'' own'') :
    OnlyFiles l d own d'' own'' where
  own_iff x t ht := (h'.own_iff x t ht).trans (h.own_iff x t ht)
  disk_eq x t ht hx hm :=
    (h'.disk_eq x t ht ((h.own_iff x t ht).mpr hx) hm).trans (h.disk_eq x t ht hx hm)

theorem WStep.onlyFiles {f : FileId} {w w' : World} {m m' : Bitmap}
    (h : WStep f s w own m w' own' m') : OnlyFiles [s] w.disk own w'.disk own' where
  own_iff x t ht := h.grown.other x t (by simpa using ht)
  disk_eq x t ht hx hm := by
    have hts : t ≠ s := by simpa using ht
    refine h.disk x ?_ hm
    rw [(h.grown.other x t hts).mpr hx]
    exact fun heq => hts (Option.some.inj heq)

/-- A file that is not among those has the same headers, data sectors and content. -/
theorem OnlyFiles.file (h : OnlyFiles l d own d' own') (hlayout : Layout d own) (ht : t ≠ 0)
    (hl : t ∉ l) (hf : FileOk d own t c) : FileOk d' own' t c ∧ content d' c = content d c :=
  hlayout.other_file ht hf (fun x => h.own_iff x t hl) fun x => h.disk_eq x t hl

theorem OnlyFiles.sectors (h : OnlyFiles l d own d' own') (hlayout : Layout d own) (ht : t ≠ 0)
    (hl : t ∉ l) (hf : FileOk d own t c) : ∀ x ∈ sectorsOf d c, d' x = d x := by
  intro x hx
  have hown := (hf.own_iff x).mpr hx
  exact h.disk_eq x t hl hown (hlayout.ne_mapData ht hown)

theorem OnlyFiles.headers (h : OnlyFiles l d own d' own') (hlayout : Layout d own) (ht : t ≠ 0)
    (hl : t ∉ l) (hf : FileOk d own t c) : ∀ x ∈ c, hdrAt d' x = hdrAt d x := by
  intro x hx
  exact hdrAt_congr (h.sectors hlayout ht hl hf x (mem_sectorsOf_of_mem hx))

theorem OnlyFiles.full (h : OnlyFiles l d own d' own') (hlayout : Layout d own) (ht : t ≠ 0)
    (hl : t ∉ l) (hf : FileOk d own t c) (hfull : Full d c) : Full d' c := by
  intro pre x post hc hpost
  have hx : x ∈ c := by
    rw [hc]
    exact List.mem_append_right _ List.mem_cons_self
  rw [h.headers hlayout ht hl hf x hx]
  exact hfull pre x post hc hpost

end OnlyFiles

end Nachos.Filesys
