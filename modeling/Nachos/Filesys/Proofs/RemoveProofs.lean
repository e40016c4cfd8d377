import Nachos.Filesys.Proofs.DirectoryProofs

/-!
# Proofs: removing a file

What is known when `Remove` returns: either the directory is as it was, or the file is gone, its sectors
are free, and the directory has an entry that is not in use.
-/

namespace Nachos.Filesys

open Foundations Resumption

/-! ## Around the files -/

/-- The objects and the current directory are the same. -/
structure SameObjects (w w' : World) : Prop where
  files_eq : w'.files = w.files
  nextFile_eq : w'.nextFile = w.nextFile
  freeMapFile_eq : w'.freeMapFile = w.freeMapFile
  directoryFile_eq : w'.directoryFile = w.directoryFile
  directorySize_eq : w'.directorySize = w.directorySize

/-- The disk is the same, too; locks, the open-file table, the channels and the supply of new memory may
have changed. -/
structure Quiet (w w' : World) : Prop extends SameObjects w w' where
  disk_eq : w'.disk = w.disk

instance : IsPreorder World Quiet where
  refl w := ⟨⟨rfl, rfl, rfl, rfl, rfl⟩, rfl⟩
  trans _ _ _ h h' :=
    ⟨⟨h'.files_eq.trans h.files_eq, h'.nextFile_eq.trans h.nextFile_eq,
      h'.freeMapFile_eq.trans h.freeMapFile_eq, h'.directoryFile_eq.trans h.directoryFile_eq,
      h'.directorySize_eq.trans h.directorySize_eq⟩, h'.disk_eq.trans h.disk_eq⟩

section Quiet

variable {me : Tid} {l : Option LockId} {s : Nat}

theorem quiet_getEntry : (getEntry s).Moves Quiet :=
  (Moves.assert _).bind fun _ => Moves.getState.bind fun _ => Moves.pure _

theorem quiet_modifyEntry (g : OpenDirEntry → OpenDirEntry) : (modifyEntry s g).Moves Quiet :=
  quiet_getEntry.bind fun _ => Moves.modifyState fun _ => ⟨⟨rfl, rfl, rfl, rfl, rfl⟩, rfl⟩

theorem quiet_malloc (use : HeapUse) : (malloc use).Moves Quiet :=
  Moves.getState.bind fun _ =>
    (Moves.modifyState fun _ => ⟨⟨rfl, rfl, rfl, rfl, rfl⟩, rfl⟩).bind fun _ => Moves.pure _

theorem quiet_newLock : newLock.Moves Quiet :=
  Moves.getState.bind fun _ =>
    (Moves.modifyState fun _ => ⟨⟨rfl, rfl, rfl, rfl, rfl⟩, rfl⟩).bind fun _ => Moves.pure _

theorem quiet_acquire : (acquire me l).Moves Quiet :=
  (Moves.ofOption _).bind fun _ => Moves.getState.bind fun _ => (Moves.ofOption _).bind fun _ =>
    (Moves.assert _).bind fun _ => (Moves.awaitUntil _).bind fun _ =>
      Moves.modifyState fun _ => ⟨⟨rfl, rfl, rfl, rfl, rfl⟩, rfl⟩

theorem quiet_release : (release me l).Moves Quiet :=
  (Moves.ofOption _).bind fun _ => Moves.getState.bind fun _ => (Moves.ofOption _).bind fun _ =>
    (Moves.assert _).bind fun _ => Moves.modifyState fun _ => ⟨⟨rfl, rfl, rfl, rfl, rfl⟩, rfl⟩

theorem quiet_acquireRemove : (acquireRemove me l).Moves Quiet := by
  cases l with
  | none => exact Moves.pure _
  | some l => exact quiet_acquire

theorem quiet_releaseRemove : (releaseRemove me l).Moves Quiet := by
  cases l with
  | none => exact Moves.pure _
  | some l => exact quiet_release

theorem quiet_waitForClose : (waitForClose me s).Moves Quiet := by
  refine quiet_getEntry.bind fun _ => Moves.ite ?_ (Moves.pure _)
  refine Moves.bind ?_ fun _ => Moves.assert _
  exact (Moves.awaitUntil _).bind fun _ => Moves.getState.bind fun _ =>
    (Moves.modifyState fun _ => ⟨⟨rfl, rfl, rfl, rfl, rfl⟩, rfl⟩).bind fun _ => Moves.pure _

theorem quiet_resetEntry (madeByCreate : Bool) : (resetEntry s madeByCreate).Moves Quiet :=
  quiet_newLock.bind fun _ => quiet_modifyEntry _

variable {w w' : World} {own : Nat → Option Nat} {m : Bitmap} {c : List Nat}

theorem DirHandle.quiet (h : DirHandle w own m s c) (hq : Quiet w w') : DirHandle w' own m s c := by
  obtain ⟨file, hfile, hsector⟩ := h.handle
  obtain ⟨mapFile, hmap, hmh⟩ := h.inv.mapFile
  have hfile' : w'.files w'.directoryFile = some file := by
    rw [hq.files_eq, hq.directoryFile_eq]
    exact hfile
  refine ⟨⟨?_, h.inv.marked, ?_, ⟨mapFile, ?_, hmh⟩, ?_, h.inv.start_ne, ?_⟩, ?_, file, hfile', hsector⟩
  · rw [hq.disk_eq]
    exact h.inv.layout
  · rw [hq.disk_eq]
    exact h.inv.mapIs
  · rw [hq.files_eq, hq.freeMapFile_eq]
    exact hmap
  · rw [hq.directoryFile_eq, hq.freeMapFile_eq]
    exact h.inv.ne_map
  · rw [hq.disk_eq]
    exact h.inv.file
  · rw [hq.disk_eq]
    exact h.full

theorem DirFile.quiet (h : DirFile w own m s c) (hq : Quiet w w') : DirFile w' own m s c := by
  refine ⟨h.toDirHandle.quiet hq, ?_, ?_⟩
  · rw [hq.directorySize_eq]
    exact h.size_pos
  · rw [hq.directorySize_eq, hq.disk_eq]
    exact h.size_le

theorem Quiet.dirTable_eq (hq : Quiet w w') : dirTable w' c = dirTable w c := by
  rw [dirTable, hq.disk_eq, hq.directorySize_eq, dirTable]

end Quiet

/-- The directory does not notice a change of another file `t`, which is in order or gone afterwards. -/
theorem DirHandle.other_file {w w' : World} {own own' : Nat → Option Nat} {m m' : Bitmap} {s t : Nat}
    {c : List Nat} (h : DirHandle w own m s c) (hsame : SameObjects w w') (hts : s ≠ t) (ht : t ≠ 0)
    (hown : ∀ x t', t' ≠ t → (own' x = some t' ↔ own x = some t'))
    (hd : ∀ x t', t' ≠ t → own x = some t' → x ≠ freeMapDataSector → w'.disk x = w.disk x)
    (hlt : ∀ x, own' x = some t → x < numSectors)
    (hfile : (∃ c', FileOk w'.disk own' t c') ∨ ∀ x, own' x ≠ some t) (hmarked : Marked m' own')
    (hmap : MapIs w'.disk m') :
    DirHandle w' own' m' s c ∧ content w'.disk c = content w.disk c := by
  obtain ⟨file, hf, hsector⟩ := h.handle
  obtain ⟨mapFile, hmapf, hmh⟩ := h.inv.mapFile
  obtain ⟨hok, hcontent⟩ := h.inv.layout.other_file h.inv.start_ne h.inv.file
    (fun x => hown x s hts) fun x => hd x s hts
  have hhdr : ∀ x ∈ c, hdrAt w'.disk x = hdrAt w.disk x := fun x hx =>
    hdrAt_congr (h.inv.layout.header_eq h.inv.file (fun x => hd x s hts) x hx)
  refine ⟨⟨⟨h.inv.layout.update ht hown hd hlt hfile, hmarked, hmap, ⟨mapFile, ?_, hmh⟩, ?_,
    h.inv.start_ne, hok⟩, ?_, file, ?_, hsector⟩, hcontent⟩
  · rw [hsame.files_eq, hsame.freeMapFile_eq]
    exact hmapf
  · rw [hsame.directoryFile_eq, hsame.freeMapFile_eq]
    exact h.inv.ne_map
  · intro pre x post hc hpost
    rw [hhdr x (by rw [hc]; simp)]
    exact h.full pre x post hc hpost
  · rw [hsame.files_eq, hsame.directoryFile_eq]
    exact hf

/-! ## Freeing the sectors -/

section Free

variable {w w' : World} {m m' : Bitmap}

theorem readSector_eq {s : Nat} {sector : Sector} (h : (readSector s).run w = some (sector, w')) :
    sector = w.disk s ∧ w' = w := by
  by_cases hs : s < numSectors
  · rw [run_readSector hs] at h
    cases h
    exact ⟨rfl, rfl⟩
  · simp [readSector, run_assert, hs] at h

theorem foldlM_deallocateSector {l : List Nat}
    (h : l.foldlM RawFileHeader.deallocateSector m = some m') : m' = l.foldl Bitmap.clear m := by
  induction l generalizing m with
  | nil => exact (Option.some.inj h).symm
  | cons x l ih =>
    rw [List.foldlM_cons] at h
    obtain ⟨m1, h1, h2⟩ := Option.bind_eq_some_iff.mp h
    unfold RawFileHeader.deallocateSector at h1
    split at h1
    · rw [List.foldl_cons, Option.some.inj h1]
      exact ih h2
    · cases h1

theorem deallocate_eq {h : RawFileHeader} (hd : h.deallocate m = some m') :
    m' = h.dataOf.foldl Bitmap.clear m := by
  unfold RawFileHeader.deallocate at hd
  split at hd
  · exact foldlM_deallocateSector hd
  · cases hd

/-- The headers of a chain are freed with their data sectors, and nothing else. -/
theorem freeHeaders_eq {fuel : Nat} : ∀ {s : Nat} {c : List Nat} {m : Bitmap},
    (freeHeaders fuel s (hdrAt w.disk s) m).run w = some (m', w') → HeaderChain w.disk s c →
    w' = w ∧ m'.numBits = m.numBits ∧
      ∀ x, m'.test x = true ↔ m.test x = true ∧ x ∉ sectorsOf w.disk c := by
  induction fuel with
  | zero =>
    intro s c m hrun _
    cases hrun
  | succ fuel ih =>
    intro s c m hrun hchain
    obtain ⟨l, rfl, hf⟩ := hchain
    rw [freeHeaders] at hrun
    obtain ⟨m1, w1, hdealloc, hrun⟩ := run_bind_eq_some.mp hrun
    cases hd : (hdrAt w.disk s).deallocate m with
    | none =>
      rw [hd] at hdealloc
      cases hdealloc
    | some m2 =>
    rw [hd] at hdealloc
    cases hdealloc
    have hm1 := deallocate_eq hd
    have hbits : (m1.clear s).numBits = m.numBits := by
      rw [Bitmap.numBits_clear, hm1, Bitmap.numBits_foldl_clear]
    have htest : ∀ x, (m1.clear s).test x = true ↔
        m.test x = true ∧ x ∉ s :: (hdrAt w.disk s).dataOf := by
      intro x
      rw [Bitmap.test_clear, hm1, Bitmap.test_foldl_clear, List.mem_cons, eq_comm (a := x)]
      simp only [Bool.and_eq_true, Bool.not_eq_true', decide_eq_false_iff_not]
      tauto
    split at hrun
    · -- the next header is read and freed in turn
      rename_i hnext
      cases l with
      | nil => exact absurd hf hnext
      | cons y l =>
      obtain ⟨-, rfl, hf⟩ := hf
      obtain ⟨sec, w2, hread, hrun⟩ := run_bind_eq_some.mp hrun
      obtain ⟨rfl, rfl⟩ := readSector_eq hread
      obtain ⟨hw, hbits', htest'⟩ := ih hrun ⟨l, rfl, hf⟩
      refine ⟨hw, hbits'.trans hbits, ?_⟩
      intro x
      rw [htest', htest, sectorsOf_cons _ s, List.mem_append]
      tauto
    · rename_i hnext
      cases l with
      | cons y l => exact absurd hf.1 hnext
      | nil =>
      cases hrun
      refine ⟨rfl, hbits, ?_⟩
      intro x
      rw [htest, sectorsOf_cons]
      simp [sectorsOf]

end Free

/-! ## `Remove` -/

/-- The ownership map without the file `t`. -/
def dropOwn (own : Nat → Option Nat) (t : Nat) : Nat → Option Nat :=
  fun x => if own x = some t then none else own x

theorem dropOwn_eq_iff {own : Nat → Option Nat} {t : Nat} (x : Nat) {t' : Nat} (ht : t' ≠ t) :
    dropOwn own t x = some t' ↔ own x = some t' := by
  unfold dropOwn
  split
  · rename_i h
    rw [h]
    simp [ht.symm]
  · rfl

theorem dropOwn_ne (own : Nat → Option Nat) (t x : Nat) : dropOwn own t x ≠ some t := by
  unfold dropOwn
  split
  · simp
  · assumption

section Remove

variable {w w' : World} {own : Nat → Option Nat} {m : Bitmap} {s t : Nat} {c c' : List Nat} {me : Tid}
  {name : Name} {dir : Directory}

/-- The free map without the sectors of a file is written back. -/
theorem DirHandle.wroteMap_freed {m' : Bitmap} (h : DirHandle w own m s c) (hfile : FileOk w.disk own t c')
    (hts : s ≠ t) (ht : t ≠ 0)
    (htest : ∀ x, m'.test x = true ↔ m.test x = true ∧ x ∉ sectorsOf w.disk c')
    (hw : WroteMap w m' w') :
    DirHandle w' (dropOwn own t) m' s c ∧ content w'.disk c = content w.disk c ∧
      OnlyFiles [t] w.disk own w'.disk (dropOwn own t) := by
  obtain ⟨D, hD⟩ := hw.eq_with
  have hsame : SameObjects w w' := by
    rw [hD]
    exact ⟨rfl, rfl, rfl, rfl, rfl⟩
  have honly : OnlyFiles [t] w.disk own w'.disk (dropOwn own t) :=
    ⟨fun x t' ht' => dropOwn_eq_iff x (by simpa using ht'), fun x _ _ _ hx => hw.disk_eq x hx⟩
  suffices hother : DirHandle w' (dropOwn own t) m' s c ∧ content w'.disk c = content w.disk c from
    ⟨hother.1, hother.2, honly⟩
  refine h.other_file hsame hts ht (fun x t' => dropOwn_eq_iff x) (fun x _ _ _ hx => hw.disk_eq x hx)
    (fun x hx => absurd hx (dropOwn_ne own t x)) (Or.inr (dropOwn_ne own t)) ?_ hw.mapIs
  intro x t' hx
  have ht' : t' ≠ t := by
    rintro rfl
    exact dropOwn_ne own t' x hx
  have hown := (dropOwn_eq_iff x ht').mp hx
  refine (htest x).mpr ⟨h.inv.marked x t' hown, fun hmem => ht' ?_⟩
  rw [(hfile.own_iff x).mpr hmem] at hown
  exact (Option.some.inj hown).symm

/-- Every marked sector belongs to a file. -/
def MarksOwned (m : Bitmap) (own : Nat → Option Nat) : Prop := ∀ x, m.test x = true → (own x).isSome

theorem MarksOwned.tight {own' : Nat → Option Nat} {m' : Bitmap} (h : MarksOwned m own)
    (hgrown : Grown s own own') (htight : Tight s m m' own') : MarksOwned m' own' := by
  intro x hx
  rcases htight x hx with hx | hx
  · cases ho : own' x with
    | none =>
      have := h x hx
      rw [hgrown.none_of_none ho] at this
      cases this
    | some t => rfl
  · rw [hx]
    rfl

theorem MarksOwned.freed {m' : Bitmap} (h : MarksOwned m own) (hfile : FileOk w.disk own t c')
    (htest : ∀ x, m'.test x = true ↔ m.test x = true ∧ x ∉ sectorsOf w.disk c') :
    MarksOwned m' (dropOwn own t) := by
  intro x hx
  obtain ⟨hm, hmem⟩ := (htest x).mp hx
  rw [dropOwn, if_neg (fun ho => hmem ((hfile.own_iff x).mp ho))]
  exact h x hm

/-- The table as long as it was is written back without new sectors. -/
theorem DirFile.writeBack {u : Unit} (h : DirFile w own m s c) (hsize : dir.tableSize = w.directorySize)
    (hrun : (writeBackDirectory me dir).run w = some (u, w')) :
    ∃ own' m' c', WStep w.directoryFile s w own m w' own' m' ∧ DirFile w' own' m' s c' ∧
      content w'.disk c' = dir.table ++ (content w.disk c).drop dir.table.length ∧ c <+: c' ∧
      Tight s m m' own' := by
  have hlen : dir.table.length = w.directorySize * dirEntrySize := by rw [dir.length_table, hsize]
  have hne : c ≠ [] := List.ne_nil_of_mem h.inv.file.chain.start_mem
  have hneed := (needChain_le h.inv.file.ok h.full hne dir.table.length
    (by have := h.size_le; omega)).2 (by rw [hlen]; exact h.size_le)
  obtain ⟨own', m', c', hstep, h', hcontent, hrest⟩ := h.toDirHandle.writeBack
    (by rw [hsize]; exact h.size_pos) (by rw [hneed]; exact Nat.zero_le _) hrun
  have hsize' := hstep.world.directorySize_eq
  refine ⟨own', m', c', hstep, ⟨h', by rw [hsize']; exact h.size_pos, ?_⟩, hcontent, hrest⟩
  rw [hcontent, List.length_append, hlen, hsize']
  omega

/-- What is known after `Remove` of the file `t` has written back the directory with this table. -/
structure RemovedFile (w : World) (own : Nat → Option Nat) (m : Bitmap) (s : Nat) (c : List Nat)
    (t : Nat) (table : List UInt8) (w' : World) (own' : Nat → Option Nat) (m' : Bitmap)
    (c' : List Nat) : Prop where
  dirFile : DirFile w' own' m' s c'
  size_eq : w'.directorySize = w.directorySize
  content_eq : content w'.disk c' = table ++ (content w.disk c).drop table.length
  only : OnlyFiles [s, t] w.disk own w'.disk own'
  gone : ∀ x, own' x ≠ some t
  isPrefix : c <+: c'
  marks : MarksOwned m own → MarksOwned m' own'

theorem RemovedFile.dirTable_eq {table : List UInt8} {own' : Nat → Option Nat} {m' : Bitmap}
    (h : RemovedFile w own m s c t table w' own' m' c')
    (hlen : table.length = w.directorySize * dirEntrySize) : dirTable w' c' = table := by
  rw [dirTable, h.content_eq, h.size_eq, ← hlen, List.take_left]

/-- The removal of the file `t`. -/
theorem removeSector_removed {u : Unit} (h : DirFile w own m s c) (hfile : FileOk w.disk own t c')
    (hts : s ≠ t) (ht : t ≠ 0) (hsize : dir.tableSize = w.directorySize)
    (hrun : (removeSector me t name dir).run w = some (u, w')) :
    ∃ own' m' c', RemovedFile w own m s c t (dir.remove name).table w' own' m' c' := by
  rw [removeSector] at hrun
  obtain ⟨sec, w1, hread, hrun1⟩ := run_bind_eq_some.mp hrun
  obtain ⟨rfl, rfl⟩ := readSector_eq hread
  rw [run_bind, run_fetchFreeMap h.inv.mapFile h.inv.mapIs, Option.bind_some] at hrun1
  obtain ⟨_, w2, hmodify, hrun2⟩ := run_bind_eq_some.mp hrun1
  obtain ⟨_, w3, hwait, hrun3⟩ := run_bind_eq_some.mp hrun2
  obtain ⟨m2, w4, hfree, hrun4⟩ := run_bind_eq_some.mp hrun3
  have hq : Quiet w1 w3 := IsTrans.trans _ _ _ (quiet_modifyEntry _ _ _ _ hmodify)
    (quiet_waitForClose _ _ _ hwait)
  have hdisk := hq.disk_eq
  have h3 := h.quiet hq
  rw [← hdisk] at hfile hfree
  obtain ⟨hw4, hbits, htest⟩ := freeHeaders_eq hfree hfile.chain
  rw [hw4] at hrun4
  obtain ⟨w5, hwrite, hwrote⟩ := run_writeBackFreeMap (m := m2) h3.inv.mapFile
    (hbits.trans h3.inv.mapIs.numBits_eq)
  rw [run_bind, hwrite, Option.bind_some] at hrun4
  obtain ⟨h5, hcontent, honly⟩ := h3.toDirHandle.wroteMap_freed hfile hts ht htest hwrote
  have hsize5 : w5.directorySize = w1.directorySize := by
    obtain ⟨D, hD⟩ := hwrote.eq_with
    rw [hD]
    exact hq.directorySize_eq
  have h5' : DirFile w5 (dropOwn own t) m2 s c := by
    refine ⟨h5, by rw [hsize5]; exact h.size_pos, ?_⟩
    rw [hsize5, hcontent, hdisk]
    exact h.size_le
  obtain ⟨_, w6, hback, hrun5⟩ := run_bind_eq_some.mp hrun4
  have hsize' : (dir.remove name).tableSize = w5.directorySize := by
    rw [hsize5, ← hsize]
    unfold Directory.remove
    split <;> rfl
  obtain ⟨own', m', c2, hstep, h6, hcontent6, hextends, htight⟩ := h5'.writeBack hsize' hback
  -- what follows concerns the open-file table and the remove lock
  have hq' : Quiet w6 w' := by
    obtain ⟨_, w7, h7, hrun6⟩ := run_bind_eq_some.mp hrun5
    obtain ⟨e, w8, h8, hrun7⟩ := run_bind_eq_some.mp hrun6
    obtain ⟨_, w9, h9, hrun8⟩ := run_bind_eq_some.mp hrun7
    exact IsTrans.trans _ _ _ (quiet_modifyEntry _ _ _ _ h7) (IsTrans.trans _ _ _
      (quiet_getEntry _ _ _ h8) (IsTrans.trans _ _ _ (quiet_releaseRemove _ _ _ h9)
        (quiet_modifyEntry _ _ _ _ hrun8)))
  refine ⟨own', m', c2, h6.quiet hq', ?_, ?_, ?_, ?_, hextends, fun hmarks => ?_⟩
  · rw [hq'.directorySize_eq, hstep.world.directorySize_eq, hsize5]
  · rw [hq'.disk_eq, hcontent6, hcontent, hdisk]
  · rw [hq'.disk_eq]
    rw [hdisk] at honly
    exact (honly.mono (by simp)).trans (hstep.onlyFiles.mono (by simp))
  · intro x hx
    exact dropOwn_ne own t x ((hstep.grown.other x t hts.symm).mp hx)
  · exact (hmarks.freed hfile htest).tight hstep.grown htight

theorem toInt_emod {n : Nat} (h : n < 2 ^ 32) : (Directory.toInt n % 2 ^ 32).toNat = n := by
  unfold Directory.toInt
  split <;> omega

/-- `Remove` in the current directory. -/
theorem removeFile_dirFile {b : Bool} (h : DirFile w own m s c)
    (hentries : EntriesOk own s (dirTable w c) w.directorySize)
    (hrun : (removeFile me none name).run w = some (b, w')) :
    ∃ own' m' c', DirFile w' own' m' s c' ∧
      (m' = m ∨ ∃ i, i < w'.directorySize ∧ entryInUse (dirTable w' c') i = false) := by
  obtain ⟨dir, w1, hfetch, hsize, htable, hfetched⟩ := run_fetchDirectory h
  have h1 := h.fetched hfetched
  rw [removeFile, run_bind, hfetch, Option.bind_some] at hrun
  dsimp only at hrun
  split at hrun
  · -- there is no such file
    cases hrun
    exact ⟨own, m, c, h1, Or.inl rfl⟩
  · rename_i hfound
    cases hindex : dir.findIndex name with
    | none =>
      refine absurd ?_ hfound
      simp only [Directory.find, hindex]
    | some i =>
    obtain ⟨hi, huse, -⟩ := Directory.findIndex_some hindex
    rw [hsize] at hi
    rw [htable] at huse
    obtain ⟨hown, hts, ht0⟩ := hentries i hi huse
    have hsector : (dir.find name % 2 ^ 32).toNat = entrySector (dirTable w c) i := by
      simp only [Directory.find, hindex, htable]
      exact toInt_emod (ofLe32_lt ..)
    simp only [hsector] at hrun
    generalize entrySector (dirTable w c) i = t at hrun hown hts ht0
    obtain ⟨e, w2, hget, hrun1⟩ := run_bind_eq_some.mp hrun
    obtain ⟨_, w3, hacq, hrun2⟩ := run_bind_eq_some.mp hrun1
    obtain ⟨e', w4, hget', hrun3⟩ := run_bind_eq_some.mp hrun2
    have hq : Quiet w1 w4 := IsTrans.trans _ _ _ (quiet_getEntry _ _ _ hget) (IsTrans.trans _ _ _
      (quiet_acquireRemove _ _ _ hacq) (quiet_getEntry _ _ _ hget'))
    have h4 := h1.quiet hq
    split at hrun3
    · -- another thread has removed it
      obtain ⟨_, w5, hret, hrun4⟩ := run_bind_eq_some.mp hrun3
      cases hret
      obtain ⟨e'', w6, hget'', hrun5⟩ := run_bind_eq_some.mp hrun4
      obtain ⟨_, w7, hrel, hret⟩ := run_bind_eq_some.mp hrun5
      cases hret
      exact ⟨own, m, c, h4.quiet (IsTrans.trans _ _ _ (quiet_getEntry _ _ _ hget'')
        (quiet_release _ _ _ hrel)), Or.inl rfl⟩
    · obtain ⟨c2, hfile⟩ := h4.inv.layout.fileOk hown
      obtain ⟨_, w5, hremove, hret⟩ := run_bind_eq_some.mp hrun3
      cases hret
      have hsize4 : dir.tableSize = w4.directorySize := by
        rw [hsize, hq.directorySize_eq, hfetched.step.directorySize_eq]
      obtain ⟨own', m', c', h'⟩ := removeSector_removed h4 hfile hts.symm ht0 hsize4 hremove
      have hlen : (dir.remove name).table.length = w4.directorySize * dirEntrySize := by
        rw [(dir.remove name).length_table, ← hsize4]
        unfold Directory.remove
        split <;> rfl
      refine ⟨own', m', c', h'.dirFile, Or.inr ⟨i, ?_, ?_⟩⟩
      · rw [h'.size_eq, ← hsize4, hsize]
        exact hi
      · rw [h'.dirTable_eq hlen, Directory.remove, hindex]
        exact clearEntry_inUse _ _

end Remove

end Nachos.Filesys
