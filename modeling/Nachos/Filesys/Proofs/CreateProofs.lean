import Nachos.Filesys.Proofs.RemoveProofs
import Nachos.Filesys.Proofs.HandleProofs
import Nachos.Filesys.Proofs.TableStepProofs

/-!
# Proofs: creating and opening a file

What is known when `Create` has made a file: it has one header with no data, and the directory has an
entry for it. `Open` finds it there.
-/

namespace Nachos.Filesys

open Foundations Resumption

section Create

variable {w w' : World} {own : Nat → Option Nat} {m : Bitmap} {s t : Nat} {c : List Nat} {me : Tid}
  {name : Name} {dir : Directory}

/-- The handle does not depend on the number of entries. -/
theorem DirHandle.setSize (h : DirHandle w own m s c) (size : Nat)
    (heap : HeapUse → Nat → ByteMemory) :
    DirHandle { w with heap := heap, directorySize := size } own m s c :=
  ⟨⟨h.inv.layout, h.inv.marked, h.inv.mapIs, h.inv.mapFile, h.inv.ne_map, h.inv.start_ne, h.inv.file⟩,
    h.full, h.handle⟩

/-- The handle depends on the disk, the objects of the free map and the directory, and on nothing else. -/
theorem DirHandle.sameObjects (h : DirHandle w own m s c) (hdisk : w'.disk = w.disk)
    (hmapFile : w'.freeMapFile = w.freeMapFile) (hdirectoryFile : w'.directoryFile = w.directoryFile)
    (hmap : w'.files w.freeMapFile = w.files w.freeMapFile)
    (hdir : w'.files w.directoryFile = w.files w.directoryFile) : DirHandle w' own m s c := by
  obtain ⟨file, hfile, hsector⟩ := h.handle
  obtain ⟨mapFile, hmapf, hmh⟩ := h.inv.mapFile
  refine ⟨⟨?_, h.inv.marked, ?_, ⟨mapFile, ?_, hmh⟩, ?_, h.inv.start_ne, ?_⟩, ?_, file, ?_, hsector⟩
  · rw [hdisk]
    exact h.inv.layout
  · rw [hdisk]
    exact h.inv.mapIs
  · rw [hmapFile, hmap]
    exact hmapf
  · rw [hdirectoryFile, hmapFile]
    exact h.inv.ne_map
  · rw [hdisk]
    exact h.inv.file
  · rw [hdisk]
    exact h.full
  · rw [hdirectoryFile, hdir]
    exact hfile

theorem DirHandle.opened (h : DirHandle w own m s c) (hdir : w.directoryFile < w.nextFile)
    (hmap : w.freeMapFile < w.nextFile) (hat : OpenedAt t w w') : DirHandle w' own m s c := by
  have hfiles : ∀ g, g < w.nextFile → w'.files g = w.files g := by
    intro g hg
    rw [hat.files_eq]
    exact Function.update_of_ne (Nat.ne_of_lt hg) _ _
  exact h.sameObjects hat.disk_eq hat.freeMapFile_eq hat.directoryFile_eq (hfiles _ hmap) (hfiles _ hdir)

/-! ## The new entry -/

/-- What `Add` answers when it succeeds: the name was new, and the directory has it now. -/
structure Added (w : World) (dir dir' : Directory) (name : Name) (t : Nat) (w' : World) : Prop where
  notFound : dir.findIndex name = none
  found : t < 2 ^ 31 → dir'.find name = t
  step : (∃ i, i < dir.tableSize ∧ entryInUse dir.table i = false) ∧ dir'.tableSize = dir.tableSize ∧
      w' = w ∨
    (∀ i, i < dir.tableSize → entryInUse dir.table i = true) ∧ dir'.tableSize = dir.tableSize + 1 ∧
      ∃ heap, w' = { w with heap := heap, directorySize := dir.tableSize + 1 }

theorem add_inv {dir' : Directory} {isDirectory : Bool}
    (hrun : (dir.add name t isDirectory).run w = some ((true, dir'), w')) :
    Added w dir dir' name t w' := by
  unfold Directory.add at hrun
  split at hrun
  · cases hrun
  · rename_i hfind
    have hnone : dir.findIndex name = none := by simpa using hfind
    cases hfree : dir.freeIndex with
    | some i =>
      rw [hfree] at hrun
      cases hrun
      obtain ⟨hi, huse⟩ := Directory.freeIndex_some hfree
      refine ⟨hnone, fun ht => ?_, Or.inl ⟨⟨i, hi, huse⟩, rfl, rfl⟩⟩
      exact Directory.find_set hi ht fun j hj _ => Directory.findIndex_none hnone hj
    | none =>
      rw [hfree] at hrun
      cases hrun
      refine ⟨hnone, fun ht => ?_, Or.inr ⟨fun i => Directory.freeIndex_none hfree, rfl, _, rfl⟩⟩
      exact Directory.find_set (Nat.lt_succ_self _) ht fun j hj hne =>
        Directory.notFound_grow _ hnone hj hne

/-! ## The new file -/

/-- The file `t` has one header, which has no data. -/
structure EmptyFile (w : World) (own : Nat → Option Nat) (t : Nat) : Prop where
  file : FileOk w.disk own t [t]
  start_ne : t ≠ 0
  empty : (hdrAt w.disk t).numBytes = 0

/-- What is known of a new file at `t` of one header, with the data sectors `news`. -/
structure NewHeader (m : Bitmap) (t : Nat) (hdr : RawFileHeader) (m' : Bitmap) (news : List Nat) :
    Prop where
  lt : t < numSectors
  free : m.test t = false
  ok : hdr.Ok
  fits : hdr.Fits
  next_eq : hdr.nextFileHeader = 0
  dataOf_eq : hdr.dataOf = news
  nodup : (t :: news).Nodup
  news_free : ∀ x ∈ news, x < numSectors ∧ m.test x = false
  test_eq : ∀ x, m'.test x = (m.test x || decide (x ∈ t :: news))

theorem NewHeader.lt_of_mem {m' : Bitmap} {hdr : RawFileHeader} {news : List Nat} {x : Nat}
    (hnew : NewHeader m t hdr m' news) (hx : x ∈ t :: news) : x < numSectors := by
  rcases List.mem_cons.mp hx with rfl | hx
  · exact hnew.lt
  · exact (hnew.news_free x hx).1

/-- The header of a new file and the free map with its sectors are written. -/
theorem DirHandle.newHeader {hdr : RawFileHeader} {m' : Bitmap} {news : List Nat}
    (h : DirHandle w own m s c) (hnew : NewHeader m t hdr m' news)
    (hw : WroteMap { w with disk := Function.update w.disk t hdr.toSector } m' w') :
    DirHandle w' (extendOwn own (t :: news) t) m' s c ∧ content w'.disk c = content w.disk c ∧
      FileOk w'.disk (extendOwn own (t :: news) t) t [t] ∧ hdrAt w'.disk t = hdr ∧ t ≠ 0 ∧ s ≠ t ∧
      OnlyFiles [t] w.disk own w'.disk (extendOwn own (t :: news) t) := by
  have hnews : ∀ y ∈ t :: news, own y = none := by
    intro y hy
    rcases List.mem_cons.mp hy with rfl | hy
    · exact h.inv.own_none hnew.free
    · exact h.inv.own_none (hnew.news_free y hy).2
  have hnone := hnews t List.mem_cons_self
  have hts : s ≠ t := by
    rintro rfl
    rw [h.inv.file.own_start] at hnone
    cases hnone
  have ht0 : t ≠ 0 := by
    rintro rfl
    rw [h.inv.layout.own_zero] at hnone
    cases hnone
  have ht2 : t ≠ freeMapDataSector := by
    rintro rfl
    rw [h.inv.layout.own_mapData] at hnone
    cases hnone
  have hhdr : hdrAt w'.disk t = hdr := by
    rw [hdrAt, hw.disk_eq t ht2]
    simp only [Function.update_self]
    exact RawFileHeader.ofSector_toSector hnew.fits
  have hsole : ∀ x, own x ≠ some t := by
    intro x hx
    rw [h.inv.layout.own_start hx] at hnone
    cases hnone
  have hfile : FileOk w'.disk (extendOwn own (t :: news) t) t [t] := by
    refine FileOk.single hsole ?_ ?_ ?_ hnew.nodup
    · rw [hhdr]
      exact hnew.ok
    · rw [hhdr]
      exact hnew.next_eq
    · rw [hhdr]
      exact hnew.dataOf_eq
  obtain ⟨D, hD⟩ := hw.eq_with
  have hsame : SameObjects w w' := by
    rw [hD]
    exact ⟨rfl, rfl, rfl, rfl, rfl⟩
  have hmarked : Marked m' (extendOwn own (t :: news) t) := by
    intro x t' hx
    rw [hnew.test_eq]
    by_cases hxt : x ∈ t :: news
    · simp [hxt]
    · rw [extendOwn_of_notMem hxt] at hx
      rw [h.inv.marked x t' hx]
      simp
  have hdisk : ∀ x t', t' ≠ t → own x = some t' → x ≠ freeMapDataSector → w'.disk x = w.disk x := by
    intro x t' _ hx hx2
    rw [hw.disk_eq x hx2]
    refine Function.update_of_ne ?_ _ _
    rintro rfl
    rw [hnone] at hx
    cases hx
  have hlt : ∀ x, extendOwn own (t :: news) t x = some t → x < numSectors := by
    intro x hx
    rcases (extendOwn_self_iff x).mp hx with hx | hx
    · exact absurd hx (hsole x)
    · exact hnew.lt_of_mem hx
  obtain ⟨h', hcontent⟩ := h.other_file hsame hts ht0 (fun x t' ht' => extendOwn_eq_iff hnews ht' x)
    hdisk hlt (Or.inl ⟨[t], hfile⟩) hmarked hw.mapIs
  refine ⟨h', hcontent, hfile, hhdr, ht0, hts, ?_⟩
  exact ⟨fun x t' ht' => extendOwn_eq_iff hnews (by simpa using ht') x,
    fun x t' ht' => hdisk x t' (by simpa using ht')⟩

/-- The header of a new file without data and the free map with its sector are written. -/
theorem DirHandle.newFile {heap : ByteMemory} (h : DirHandle w own m s c) (ht : t < numSectors)
    (hfree : m.test t = false)
    (hw : WroteMap { w with
      disk := Function.update w.disk t (RawFileHeader.empty heap).toSector } (m.mark t) w') :
    DirHandle w' (extendOwn own [t] t) (m.mark t) s c ∧ content w'.disk c = content w.disk c ∧
      EmptyFile w' (extendOwn own [t] t) t ∧ s ≠ t ∧
      OnlyFiles [t] w.disk own w'.disk (extendOwn own [t] t) := by
  have hnew : NewHeader m t (RawFileHeader.empty heap) (m.mark t) [] := by
    refine ⟨ht, hfree, RawFileHeader.ok_empty heap, RawFileHeader.fits_empty heap, rfl,
      RawFileHeader.dataOf_empty heap, by simp, by simp, fun x => ?_⟩
    rw [Bitmap.test_mark (by rw [h.inv.mapIs.numBits_eq]; exact ht)]
    simp [eq_comm, Bool.or_comm]
  obtain ⟨h', hcontent, hfile, hhdr, ht0, hts, honly⟩ := h.newHeader hnew hw
  exact ⟨h', hcontent, ⟨hfile, ht0, by rw [hhdr]; rfl⟩, hts, honly⟩

/-- A `Write` on the directory leaves an empty file as it is. -/
theorem EmptyFile.step {own' : Nat → Option Nat} {m' : Bitmap} {f : FileId} (h : EmptyFile w own t)
    (hlayout : Layout w.disk own) (hts : s ≠ t) (hstep : WStep f s w own m w' own' m') :
    EmptyFile w' own' t := by
  have hd : ∀ x, own x = some t → x ≠ freeMapDataSector → w'.disk x = w.disk x := by
    intro x hx hx2
    refine hstep.disk x ?_ hx2
    rw [(hstep.grown.other x t hts.symm).mpr hx]
    exact fun e => hts (Option.some.inj e).symm
  have hfile := (hlayout.other_file h.start_ne h.file (fun x => hstep.grown.other x t hts.symm) hd).1
  refine ⟨hfile, h.start_ne, ?_⟩
  rw [hdrAt_congr (hlayout.header_eq h.file hd t (List.mem_singleton.mpr rfl))]
  exact h.empty

theorem EmptyFile.quiet (h : EmptyFile w own t) (hq : Quiet w w') : EmptyFile w' own t := by
  refine ⟨?_, h.start_ne, ?_⟩
  · rw [hq.disk_eq]
    exact h.file
  · rw [hq.disk_eq]
    exact h.empty

/-- What is known after `Create` has made the file `t`. -/
structure Created (w : World) (own : Nat → Option Nat) (m : Bitmap) (s : Nat) (c : List Nat)
    (name : Name) (t : Nat) : Prop where
  dirFile : DirFile w own m s c
  file : EmptyFile w own t
  found : ∀ dir : Directory, dir.table = dirTable w c → dir.tableSize = w.directorySize →
    dir.find name = t
  count_eq : (w.table t).count = 0
  removing_eq : (w.table t).removing = false

/-- Two directories with the same table and number of entries answer alike. -/
theorem Directory.find_congr {d d' : Directory} (htable : d.table = d'.table)
    (hsize : d.tableSize = d'.tableSize) : d.find name = d'.find name := by
  unfold Directory.find Directory.findIndex
  rw [htable, hsize]

/-- The entry of the open-file table for a new file. -/
structure NewEntry (w : World) (t : Nat) (made : Bool) : Prop where
  count_eq : (w.table t).count = 0
  removing_eq : (w.table t).removing = false
  removed_eq : (w.table t).removed = false
  madeByCreate_eq : (w.table t).madeByCreate = made
  closeLock_eq : (w.table t).closeLock = none
  removeLock : ∃ l, (w.table t).removeLock = some l ∧ w.locks l = some { lockOwner := none }

theorem resetEntry_new {made : Bool} {u : Unit} (ht : t < numSectors)
    (hrun : (resetEntry t made).run w = some (u, w')) : NewEntry w' t made := by
  rw [resetEntry, run_bind, newLock, run_bind, run_getState, Option.bind_some, run_bind, run_modifyState,
    Option.bind_some, run_pure, Option.bind_some, run_modifyEntry ht] at hrun
  cases hrun
  refine ⟨by simp, by simp, by simp, by simp, by simp, w.nextLock, by simp, ?_⟩
  exact Function.update_self ..

/-- What is known after `Create` has written the header of the new file `t`, the free map and the
directory with this table. -/
structure NewFile (w : World) (own : Nat → Option Nat) (m : Bitmap) (s : Nat) (c : List Nat) (t : Nat)
    (table : List UInt8) (w' : World) (own' : Nat → Option Nat) (m' : Bitmap) (c' : List Nat) :
    Prop where
  dirFile : DirFile w' own' m' s c'
  size_eq : w'.directorySize = w.directorySize
  content_eq : content w'.disk c' = table ++ (content w.disk c).drop table.length
  only : OnlyFiles [s, t] w.disk own w'.disk own'
  fresh : own t = none
  ne : s ≠ t
  file : EmptyFile w' own' t
  isPrefix : c <+: c'
  marks : MarksOwned m own → MarksOwned m' own'
  entry : NewEntry w' t true

theorem MarksOwned.extend {m' : Bitmap} {l : List Nat} (h : MarksOwned m own)
    (htest : ∀ x, m'.test x = (m.test x || decide (x ∈ l))) (t : Nat) :
    MarksOwned m' (extendOwn own l t) := by
  intro x hx
  by_cases hxt : x ∈ l
  · rw [extendOwn_of_mem hxt]
    rfl
  · rw [extendOwn_of_notMem hxt]
    rw [htest] at hx
    refine h x ?_
    simpa [hxt] using hx

theorem MarksOwned.mark (h : MarksOwned m own) (ht : t < m.numBits) :
    MarksOwned (m.mark t) (extendOwn own [t] t) := by
  refine h.extend (fun x => ?_) t
  rw [Bitmap.test_mark ht]
  simp [eq_comm, Bool.or_comm]

/-- The new header, the free map and the directory with its new entry are flushed. -/
theorem flushNewFile_new {dir' : Directory} {u : Unit} (h : DirHandle w own m s c)
    (ht : t < numSectors) (hfree : m.test t = false)
    (hsize : dir'.tableSize = w.directorySize) (hpos : 0 < dir'.tableSize)
    (hneed : needChain w.disk c dir'.table.length = 0 ∨
      needChain w.disk c dir'.table.length + 1 ≤ m.countClear)
    (hrun : (flushNewFile me t (m.mark t) dir').run w = some (u, w')) :
    ∃ own' m' c', NewFile w own m s c t dir'.table w' own' m' c' := by
  have hbits := h.inv.mapIs.numBits_eq
  rw [flushNewFile] at hrun
  obtain ⟨heap, w1, hmalloc, hrun1⟩ := run_bind_eq_some.mp hrun
  have hq := quiet_malloc _ _ _ _ hmalloc
  have h1 := h.quiet hq
  rw [run_bind, run_writeSector ht, Option.bind_some] at hrun1
  obtain ⟨w2, hwrite, hwrote⟩ := run_writeBackFreeMap (m := m.mark t)
    (w := { w1 with disk := Function.update w1.disk t (RawFileHeader.empty heap).toSector })
    h1.inv.mapFile hbits
  rw [run_bind, hwrite, Option.bind_some] at hrun1
  obtain ⟨h2, hcontent, hfile, hts, honly⟩ := h1.newFile ht hfree hwrote
  have hsize2 : w2.directorySize = w.directorySize := by
    obtain ⟨D, hD⟩ := hwrote.eq_with
    rw [hD]
    exact hq.directorySize_eq
  obtain ⟨_, w3, hback, hrun2⟩ := run_bind_eq_some.mp hrun1
  rw [hq.disk_eq] at hcontent honly
  have hneed2 : needChain w2.disk c dir'.table.length ≤ (m.mark t).countClear := by
    have hcount := Bitmap.countClear_mark (b := m) (i := t) (by rw [hbits]; exact ht) hfree
    rw [needChain_congr (honly.headers h.inv.layout h.inv.start_ne (by simpa using hts) h.inv.file)]
    omega
  obtain ⟨own', m', c', hstep, h3, hcontent3, hextends, htight⟩ := h2.writeBack hpos hneed2 hback
  have hsize3 : w3.directorySize = dir'.tableSize := by
    rw [hstep.world.directorySize_eq, hsize2, hsize]
  have h3' : DirFile w3 own' m' s c' := by
    refine ⟨h3, by rw [hsize3]; exact hpos, ?_⟩
    rw [hcontent3, hsize3, List.length_append, ← dir'.length_table]
    omega
  have hq3 := quiet_resetEntry _ _ _ _ hrun2
  refine ⟨own', m', c', h3'.quiet hq3, ?_, ?_, ?_, h.inv.own_none hfree, hts,
    (hfile.step h2.inv.layout hts hstep).quiet hq3, hextends, fun hmarks => ?_, resetEntry_new ht hrun2⟩
  · rw [hq3.directorySize_eq, hsize3, hsize]
  · rw [hq3.disk_eq, hcontent3, hcontent]
  · rw [hq3.disk_eq]
    exact (honly.mono (by simp)).trans (hstep.onlyFiles.mono (by simp))
  · exact (hmarks.mark (by rw [hbits]; exact ht)).tight hstep.grown htight

theorem NewFile.created {dir' : Directory} {own' : Nat → Option Nat} {m' : Bitmap} {c' : List Nat}
    (h : NewFile w own m s c t dir'.table w' own' m' c') (hsize : dir'.tableSize = w.directorySize)
    (hfound : dir'.find name = t) : Created w' own' m' s c' name t := by
  refine ⟨h.dirFile, h.file, ?_, h.entry.count_eq, h.entry.removing_eq⟩
  intro dir htable hsize'
  rw [← hfound]
  have hlen : dir'.table.length = w'.directorySize * dirEntrySize := by
    rw [dir'.length_table, hsize, h.size_eq]
  refine Directory.find_congr ?_ ?_
  · rw [htable, dirTable, h.content_eq, ← hlen, List.take_left]
  · rw [hsize', h.size_eq, hsize]

/-- `Create` in the current directory, with a free entry or three free sectors: the new header, and a
sector or two for the directory to grow. -/
theorem createFile_created (h : DirFile w own m s c)
    (hroom : 3 ≤ m.countClear ∨
      ∃ i, i < w.directorySize ∧ entryInUse (dirTable w c) i = false)
    (hrun : (createFile me name).run w = some (true, w')) :
    ∃ own' m' c' t, Created w' own' m' s c' name t := by
  obtain ⟨dir, w1, hfetch, hsize, htable, hfetched⟩ := run_fetchDirectory h
  have h1 := h.fetched hfetched
  rw [createFile, run_bind, hfetch, Option.bind_some] at hrun
  dsimp only at hrun
  split at hrun
  · cases hrun
  · rw [run_bind, run_fetchFreeMap h1.inv.mapFile h1.inv.mapIs, Option.bind_some] at hrun
    dsimp only at hrun
    cases hfind : m.find with
    | mk found m1 =>
    rw [hfind] at hrun
    cases found with
    | none => cases hrun
    | some t =>
    obtain ⟨ht, hfree, -, rfl⟩ := Bitmap.find_some hfind
    rw [h1.inv.mapIs.numBits_eq] at ht
    obtain ⟨⟨added, dir'⟩, w2, hadd, hrun1⟩ := run_bind_eq_some.mp hrun
    cases added with
    | false => cases hrun1
    | true =>
    have hadded := add_inv hadd
    obtain ⟨_, w3, hflush, hret⟩ := run_bind_eq_some.mp hrun1
    cases hret
    have hfound := hadded.found (Nat.lt_trans ht (by decide))
    have hsize1 : dir.tableSize = w1.directorySize := by rw [hsize, hfetched.step.directorySize_eq]
    have hcontent := h1.size_le
    have hne : c ≠ [] := List.ne_nil_of_mem h1.inv.file.chain.start_mem
    have hneed := needChain_le h1.inv.file.ok h1.full hne
    rcases hadded.step with ⟨-, hgrow, rfl⟩ | ⟨hfull, hgrow, heap, rfl⟩
    · -- an entry that was not in use
      have hlen : dir'.table.length ≤ (content w2.disk c).length := by
        rw [dir'.length_table, hgrow, hsize1]
        exact hcontent
      obtain ⟨own', m', c', hnew⟩ := flushNewFile_new h1.toDirHandle ht hfree (hgrow.trans hsize1)
        (by rw [hgrow, hsize1]; exact h1.size_pos) (Or.inl ((hneed _ (by omega)).2 hlen)) hflush
      exact ⟨own', m', c', t, hnew.created (hgrow.trans hsize1) hfound⟩
    · -- all entries were in use
      have hlen : dir'.table.length ≤ (content w1.disk c).length + dirEntrySize := by
        rw [dir'.length_table, hgrow, Nat.succ_mul, hsize1]
        omega
      have hroom' : 3 ≤ m.countClear := by
        refine hroom.resolve_right ?_
        rintro ⟨i, hi, huse⟩
        rw [← htable, hfull i (by rw [hsize]; exact hi)] at huse
        cases huse
      have htwo : needChain w1.disk c dir'.table.length + 1 ≤ m.countClear := by
        have := (hneed _ hlen).1
        omega
      obtain ⟨own', m', c', hnew⟩ := flushNewFile_new
        (h1.toDirHandle.setSize (dir.tableSize + 1) heap) ht hfree hgrow
        (by rw [hgrow]; exact Nat.succ_pos _) (Or.inr htwo) hflush
      exact ⟨own', m', c', t, hnew.created hgrow hfound⟩

/-! ## Opening it -/

/-- `Create` of a relative path that returns true is `Create` in the current directory, with a lock
around it. -/
theorem create_relative {name : Name} (hname : name.head? ≠ some slash)
    (hrun : (create me name).run w = some (true, w')) :
    ∃ w1 w2, Quiet w w1 ∧ (createFile me name).run w1 = some (true, w2) ∧
      (release me (some filesysCreateLock)).run w2 = some ((), w') := by
  rw [Filesys.create, resolvePath_relative hname] at hrun
  obtain ⟨_, w1, hacq, hrun1⟩ := run_bind_eq_some.mp hrun
  obtain ⟨path, w2, hpath, hrun2⟩ := run_bind_eq_some.mp hrun1
  cases hpath
  obtain ⟨success, w3, hcreate, hrun3⟩ := run_bind_eq_some.mp hrun2
  obtain ⟨_, w4, hrestore, hrun4⟩ := run_bind_eq_some.mp hrun3
  cases hrestore
  obtain ⟨_, w5, hrelease, hret⟩ := run_bind_eq_some.mp hrun4
  cases hret
  exact ⟨_, _, quiet_acquire _ _ _ hacq, hcreate, hrelease⟩

/-- `Create` releases its lock. -/
theorem Created.release {l : Option LockId} {u : Unit} (h : Created w own m s c name t)
    (hrun : (release me l).run w = some (u, w')) : Created w' own m s c name t := by
  have hq := quiet_release _ _ _ hrun
  obtain ⟨locks, rfl⟩ := release_inv hrun
  exact ⟨h.dirFile.quiet hq, h.file.quiet hq, h.found, h.count_eq, h.removing_eq⟩

/-- `Open` of a file that `Create` has made: a new object, with the empty header in memory. -/
theorem openFile_created {o : Option FileId} (h : Created w own m s c name t)
    (hrun : (openFile name).run w = some (o, w')) :
    ∃ file, o = some w.nextFile ∧ w'.files w.nextFile = some file ∧ file.hdr.numBytes = 0 ∧
      w'.nextFile = w.nextFile + 1 ∧ w'.directoryFile = w.directoryFile := by
  obtain ⟨dir, w1, hfetch, hsize, htable, hfetched⟩ := run_fetchDirectory h.dirFile
  have ht : t < numSectors :=
    h.dirFile.inv.layout.lt t t (h.file.file.own_of_mem (List.mem_singleton.mpr rfl))
  have hfind : dir.find name = t := h.found dir htable hsize
  have hnext := hfetched.step.nextFile_eq
  have hremoving : (w1.table t).removing = false := by
    rw [hfetched.step.table_eq]
    exact h.removing_eq
  obtain ⟨w2, hopen, hat⟩ := run_newOpenFile ht w1
  rw [openFile, run_bind, hfetch, Option.bind_some] at hrun
  simp only [hfind, if_pos (Int.natCast_nonneg t), Int.toNat_natCast, openSector, run_bind,
    run_getEntry ht, Option.bind_some, hremoving, Bool.false_eq_true, if_false, hopen, run_pure] at hrun
  cases hrun
  refine ⟨{ hdr := hdrAt w1.disk t, seekPosition := 0, sector := t, currentSector := t }, by rw [hnext],
    ?_, ?_, ?_, ?_⟩
  · rw [hat.files_eq, hnext]
    exact Function.update_self ..
  · show (hdrAt w1.disk t).numBytes = 0
    rw [hfetched.disk_eq]
    exact h.file.empty
  · rw [hat.nextFile_eq, hnext]
  · rw [hat.directoryFile_eq, hfetched.step.directoryFile_eq]

end Create

/-! ## A fresh disk -/

section Sample

/-- The free map of a disk that was just formatted. -/
def freshMap : Bitmap :=
  ((((((Bitmap.new numSectors fun _ => 0).mark 0).mark 1).mark 2).mark 3).mark 4).mark 5

/-- The header of the root directory. -/
def dirHeader : RawFileHeader where
  numBytes := directoryFileSize
  numSectors := 3
  dataSectors := [3, 4, 5] ++ List.replicate 26 0
  nextFileHeader := 0
  length_dataSectors := rfl

/-- The disk as the constructor formats it. -/
def freshDisk : Disk := fun x =>
  if x = 0 then mapHeader.toSector
  else if x = directorySector then dirHeader.toSector
  else if x = freeMapDataSector then Sector.ofBytes (mapBytes freshMap)
  else Sector.ofBytes []

/-- A system with this disk, in which the free map and the root directory are open. -/
def freshWorld : World :=
  { World.initial freshDisk fun _ _ _ => 0 with
    table := Function.update (fun _ => OpenDirEntry.initial) directorySector
      { OpenDirEntry.initial with count := 1, writeLock := some 1 }
    files := Function.update
      (Function.update (fun _ => none) 0
        (some { hdr := mapHeader, seekPosition := 0, sector := 0, currentSector := 0 }))
      1 (some { hdr := dirHeader, seekPosition := 0, sector := 1, currentSector := 1 })
    nextFile := 2
    locks := Function.update
      (Function.update (fun _ => none) filesysCreateLock (some { lockOwner := none }))
      1 (some { lockOwner := none })
    nextLock := 2
    directoryFile := 1
    directorySize := numDirEntries }

theorem freshDisk_hdrAt_map : hdrAt freshDisk 0 = mapHeader := by
  rw [hdrAt, freshDisk, if_pos rfl]
  exact RawFileHeader.ofSector_toSector (RawFileHeader.fits_iff.mpr (by decide))

theorem freshDisk_hdrAt_dir : hdrAt freshDisk 1 = dirHeader := by
  rw [hdrAt, freshDisk, if_neg (by decide), if_pos (by decide)]
  exact RawFileHeader.ofSector_toSector (RawFileHeader.fits_iff.mpr (by decide))

theorem freshMap_numBits : freshMap.numBits = numSectors :=
  (Bitmap.firstMarked_marks (k := 6) (n := numSectors) (fun _ => 0) (by decide)).1

theorem freshMap_firstMarked : freshMap.FirstMarked 6 :=
  (Bitmap.firstMarked_marks (k := 6) (n := numSectors) (fun _ => 0) (by decide)).2

theorem freshMap_test {x : Nat} (hx : x < 6) : freshMap.test x = true :=
  freshMap_firstMarked.test_of_lt (by rw [freshMap_numBits]; decide) hx

theorem freshMap_mapIs : MapIs freshDisk freshMap where
  numBits_eq := freshMap_numBits
  bytes_eq := by
    have hlen := length_mapBytes freshMap_numBits
    rw [freshDisk, if_neg (by decide), if_neg (by decide), if_pos rfl,
      Sector.bytes_ofBytes (Nat.le_of_eq hlen.symm), ← hlen, List.take_length]

/-- Who owns the sectors of the fresh disk. -/
def freshOwner (x : Nat) : Option Nat :=
  if x = 0 ∨ x = freeMapDataSector then some 0
  else if x = 1 ∨ x = 3 ∨ x = 4 ∨ x = 5 then some 1
  else none

theorem freshOwner_cases {x t : Nat} (h : freshOwner x = some t) :
    (x = 0 ∨ x = freeMapDataSector) ∧ t = 0 ∨ (x = 1 ∨ x = 3 ∨ x = 4 ∨ x = 5) ∧ t = 1 := by
  unfold freshOwner at h
  split at h
  · exact Or.inl ⟨‹_›, (Option.some.inj h).symm⟩
  · split at h
    · exact Or.inr ⟨‹_›, (Option.some.inj h).symm⟩
    · cases h

theorem freshMap_fileOk : FileOk freshDisk freshOwner 0 [0] where
  chain := ⟨[], rfl, by rw [freshDisk_hdrAt_map]; rfl⟩
  ok := by
    intro x hx
    rw [List.mem_singleton] at hx
    rw [hx, freshDisk_hdrAt_map]
    exact ⟨rfl, by decide⟩
  nodup := by
    rw [sectorsOf_cons, freshDisk_hdrAt_map]
    decide
  own_iff := by
    intro x
    rw [sectorsOf_cons, freshDisk_hdrAt_map]
    constructor
    · intro h
      rcases freshOwner_cases h with ⟨rfl | rfl, -⟩ | ⟨-, h3⟩
      · decide
      · decide
      · cases h3
    · intro h
      have hx : x = 0 ∨ x = freeMapDataSector := by
        simpa [sectorsOf, RawFileHeader.dataOf, mapHeader] using h
      rw [freshOwner, if_pos hx]

theorem freshDir_fileOk : FileOk freshDisk freshOwner 1 [1] where
  chain := ⟨[], rfl, by rw [freshDisk_hdrAt_dir]; rfl⟩
  ok := by
    intro x hx
    rw [List.mem_singleton] at hx
    rw [hx, freshDisk_hdrAt_dir]
    exact ⟨by decide, by decide⟩
  nodup := by
    rw [sectorsOf_cons, freshDisk_hdrAt_dir]
    decide
  own_iff := by
    intro x
    rw [sectorsOf_cons, freshDisk_hdrAt_dir]
    constructor
    · intro h
      rcases freshOwner_cases h with ⟨-, h3⟩ | ⟨rfl | rfl | rfl | rfl, -⟩
      · cases h3
      all_goals decide
    · intro h
      have hx : x = 1 ∨ x = 3 ∨ x = 4 ∨ x = 5 := by
        simpa [sectorsOf, RawFileHeader.dataOf, dirHeader] using h
      rcases hx with rfl | rfl | rfl | rfl <;> decide

theorem freshDisk_layout : Layout freshDisk freshOwner where
  files := by
    intro x t h
    rcases freshOwner_cases h with ⟨-, rfl⟩ | ⟨-, rfl⟩
    · exact ⟨[0], freshMap_fileOk⟩
    · exact ⟨[1], freshDir_fileOk⟩
  lt := by
    intro x t h
    rcases freshOwner_cases h with ⟨rfl | rfl, -⟩ | ⟨rfl | rfl | rfl | rfl, -⟩ <;> decide
  own_zero := rfl
  mapHeader := by
    rw [freshDisk_hdrAt_map]
    exact ⟨rfl, rfl, rfl, rfl⟩

theorem freshDisk_content : content freshDisk [1] = List.replicate directoryFileSize 0 := by
  rw [content_cons, freshDisk_hdrAt_dir]
  decide +kernel

theorem freshWorld_dirFile : DirFile freshWorld freshOwner freshMap 1 [1] where
  inv :=
    { layout := freshDisk_layout
      marked := by
        intro x t h
        rcases freshOwner_cases h with ⟨rfl | rfl, -⟩ | ⟨rfl | rfl | rfl | rfl, -⟩ <;> exact freshMap_test (by decide)
      mapIs := freshMap_mapIs
      mapFile := ⟨_, rfl, rfl, rfl, rfl, rfl⟩
      ne_map := by decide
      start_ne := by decide
      file := freshDir_fileOk }
  full := by
    intro pre x post hc hpost
    have := congrArg List.length hc
    have := List.length_pos_iff.mpr hpost
    simp at *
    omega
  handle := ⟨_, rfl, rfl⟩
  size_pos := by decide
  size_le := by
    show _ ≤ (content freshDisk [1]).length
    rw [freshDisk_content, List.length_replicate]
    decide

/-- The file system on the fresh disk is in order. -/
theorem freshWorld_ready : FsReady freshWorld := by
  have hclear : 3 ≤ freshMap.countClear := by
    rw [freshMap_firstMarked.countClear_eq, freshMap_numBits]
    decide
  refine ⟨freshOwner, freshMap, 1, [1], freshWorld_dirFile, ?_, hclear, by decide⟩
  intro i hi huse
  have ht : dirTable freshWorld [1] = List.replicate directoryFileSize 0 := by
    show (content freshDisk [1]).take _ = _
    rw [freshDisk_content, List.take_replicate]
    rfl
  rw [ht, entryInUse] at huse
  simp at huse

end Sample

end Nachos.Filesys
