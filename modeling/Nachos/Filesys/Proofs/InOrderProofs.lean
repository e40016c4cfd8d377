import Nachos.Filesys.Proofs.CreateProofs
import Nachos.Filesys.Proofs.OpenCountsProofs
import Nachos.Filesys.Proofs.TidyProofs
import Nachos.Filesys.Proofs.TreeProofs

/-!
# Proofs: the file system in order

A file system in order stays so when files are opened and closed and when the current directory changes:
nothing of this touches the disk.
-/

namespace Nachos.Filesys

open Foundations Resumption

theorem CurrentIs.sameBooks {w w' : World} {s : Nat} {c : List Nat} (h : CurrentIs w s c)
    (hdisk : w'.disk = w.disk) (hbooks : SameBooks w w')
    (hsize : w'.directorySize = w.directorySize) : CurrentIs w' s c := by
  have hdir : w'.directoryFile = w.directoryFile := congrArg Books.directoryFile hbooks.books_eq
  refine ⟨?_, ?_, ?_⟩
  · rw [hbooks.books_eq, hdir]
    exact h.object
  · rw [hdisk]
    exact h.chain
  · rw [hdisk, hsize]
    exact h.size_eq

/-- What is known after the current directory was fetched. -/
structure FetchedTable (w : World) (own : Nat → Option Nat) (m : Bitmap) (K : Nat → Prop)
    (objs : List FileId) (s : Nat) (c : List Nat) (dir : Directory) (w' : World) : Prop where
  inOrder : InOrder w' own m K objs
  current : CurrentIs w' s c
  fetched : Fetched w w'
  table_eq : dir.table = content w.disk c
  size_eq : dir.tableSize = numEntries (content w.disk c)
  size_pos : 0 < dir.tableSize

theorem CurrentIs.opened {w w' : World} {s t : Nat} {c : List Nat} (h : CurrentIs w s c)
    (hlt : w.directoryFile < w.nextFile) (hbooks : books w' = (books w).opened t)
    (hat : OpenedAt t w w') : CurrentIs w' s c := by
  refine ⟨?_, ?_, ?_⟩
  · rw [hat.directoryFile_eq, hbooks, Books.sectors_opened_of_lt hlt]
    exact h.object
  · rw [hat.disk_eq]
    exact h.chain
  · rw [hat.disk_eq, hat.directorySize_eq]
    exact h.size_eq

/-- What is known after `Open` has returned the object `f` for an entry of the current directory. -/
structure OpenedFile (w : World) (own : Nat → Option Nat) (m : Bitmap) (K : Nat → Prop)
    (objs : List FileId) (s : Nat) (c : List Nat) (name : Name) (f : FileId) (w' : World) : Prop where
  inOrder : InOrder w' own m K (f :: objs)
  current : CurrentIs w' s c
  disk_eq : w'.disk = w.disk
  directoryFile_eq : w'.directoryFile = w.directoryFile
  entry : ∃ i, Used (content w.disk c) i ∧ entryHasName (content w.disk c) i name = true ∧
    w'.files f = some
      { hdr := hdrAt w.disk (entrySector (content w.disk c) i)
        seekPosition := 0
        sector := entrySector (content w.disk c) i
        currentSector := entrySector (content w.disk c) i }

/-! ## Closing -/

section Close

variable {w w' : World} {me : Tid} {f : FileId} {s : Nat}

theorem quiet_deleteLock (l : Option LockId) : (deleteLock l).Moves Quiet := by
  cases l with
  | none => exact Moves.pure _
  | some x =>
    exact Moves.getState.bind fun _ => (Moves.assert _).bind fun _ =>
      Moves.modifyState fun _ => ⟨⟨rfl, rfl, rfl, rfl, rfl⟩, rfl⟩

theorem quiet_closeLast : (closeLast s).Moves Quiet := by
  refine quiet_getEntry.bind fun _ => Moves.ite (Moves.bind (Moves.ite ?_ (Moves.pure _)) fun _ => ?_)
    (Moves.pure _)
  · intro w a w' hr
    rw [run_channelSend] at hr
    cases hr
  · exact quiet_getEntry.bind fun _ => quiet_deleteLock _

/-- What a close leaves alone: everything but the open-file table, the locks and the object. -/
structure ClosedAt (f : FileId) (w w' : World) : Prop where
  disk_eq : w'.disk = w.disk
  files_eq : w'.files = Function.update w.files f none
  nextFile_eq : w'.nextFile = w.nextFile
  freeMapFile_eq : w'.freeMapFile = w.freeMapFile
  directoryFile_eq : w'.directoryFile = w.directoryFile
  directorySize_eq : w'.directorySize = w.directorySize

theorem Quiet.closedAt {w1 : World} (hq : Quiet w w1) (hr : (forgetFile f).run w1 = some ((), w')) :
    ClosedAt f w w' := by
  cases (run_forgetFile w1 f).symm.trans hr
  refine ⟨hq.disk_eq, ?_, hq.nextFile_eq, hq.freeMapFile_eq, hq.directoryFile_eq, hq.directorySize_eq⟩
  show Function.update w1.files f none = _
  rw [hq.files_eq]

theorem closedAt_deleteOpenFile (hr : (deleteOpenFile me f).run w = some ((), w')) : ClosedAt f w w' := by
  obtain ⟨file, w1, hfile, hr⟩ := run_bind_eq_some.mp hr
  rw [(run_getFile_eq hfile).1] at hr
  obtain ⟨e, w2, he, hr⟩ := run_bind_eq_some.mp hr
  obtain ⟨_, w3, hacquire, hr⟩ := run_bind_eq_some.mp hr
  obtain ⟨e', w4, he', hr⟩ := run_bind_eq_some.mp hr
  have hq4 : Quiet w w4 := IsTrans.trans _ _ _ (quiet_getEntry _ _ _ he) (IsTrans.trans _ _ _
    (quiet_acquire _ _ _ hacquire) (quiet_getEntry _ _ _ he'))
  split at hr
  · obtain ⟨_, w5, hentry, hr⟩ := run_bind_eq_some.mp hr
    obtain ⟨_, w6, hrelease, hr⟩ := run_bind_eq_some.mp hr
    obtain ⟨_, w7, hlast, hr⟩ := run_bind_eq_some.mp hr
    have hq7 : Quiet w4 w7 := IsTrans.trans _ _ _ (quiet_modifyEntry _ _ _ _ hentry)
      (IsTrans.trans _ _ _ (quiet_release _ _ _ hrelease) (quiet_closeLast _ _ _ hlast))
    exact (IsTrans.trans _ _ _ hq4 hq7 : Quiet w w7).closedAt hr
  · obtain ⟨_, w5, hrelease, hr⟩ := run_bind_eq_some.mp hr
    exact (IsTrans.trans _ _ _ hq4 (quiet_release _ _ _ hrelease) : Quiet w w5).closedAt hr

end Close

/-- What is known after the object `f` for the directory `s` took the place of the current directory. -/
structure Switched (w : World) (own : Nat → Option Nat) (m : Bitmap) (K : Nat → Prop)
    (objs : List FileId) (f : FileId) (s : Nat) (w' : World) : Prop where
  inOrder : InOrder w' own m K objs
  current : ∃ c, CurrentIs w' s c
  disk_eq : w'.disk = w.disk
  directoryFile_eq : w'.directoryFile = f
  files_eq : ∀ g, g ≠ f → g ≠ w.directoryFile → w'.files g = w.files g
  sectors_eq : ∀ g, g ≠ w.directoryFile → (books w').sectors g = (books w).sectors g

namespace InOrder

variable {w w' : World} {own : Nat → Option Nat} {m : Bitmap} {K K' : Nat → Prop}
  {objs objs' : List FileId} {s : Nat} {c : List Nat} {me : Tid} {name : Name} {f : FileId}

/-! ## The objects -/

theorem ne_freeMapFile (h : InOrder w own m K objs) (hf : f ∈ w.directoryFile :: objs) :
    f ≠ w.freeMapFile := by
  rintro rfl
  exact (List.nodup_cons.mp h.exact.nodup).1 hf

theorem lt_nextFile (h : InOrder w own m K objs) (hf : f ∈ w.directoryFile :: objs) : f < w.nextFile :=
  h.exact.lt_next f (List.mem_cons_of_mem _ hf)

theorem root (_ : InOrder w own m K objs) : IsDirectory w.disk (Roots w K) directorySector :=
  IsDirectory.root (Or.inl rfl)

theorem currentDirectory (_ : InOrder w own m K objs) (hcur : CurrentIs w s c) :
    IsDirectory w.disk (Roots w K) s :=
  IsDirectory.root (Or.inr (Or.inl hcur.object))

/-- The rule for a step that does not touch the disk. -/
theorem sameDisk (h : InOrder w own m K objs) (hdisk : w'.disk = w.disk)
    (hmap : w'.files w'.freeMapFile = w.files w.freeMapFile)
    (hroots : ∀ s, Roots w' K' s → IsDirectory w.disk (Roots w K) s)
    (hkept : ∀ s, K' s → ∃ f ∈ objs', (books w').sectors f = some s)
    (hexact : (books w').Exact (w'.freeMapFile :: w'.directoryFile :: objs'))
    (hobjects : ∀ f ∈ w'.directoryFile :: objs', ObjectOk w' own f) (htidy : Tidy w')
    (hcurrent : ∃ s c, CurrentIs w' s c) : InOrder w' own m K' objs' where
  layout := by
    rw [hdisk]
    exact h.layout
  marked := h.marked
  mapIs := by
    rw [hdisk]
    exact h.mapIs
  mapFile := by
    rw [MapFileOk, hmap]
    exact h.mapFile
  mapSector := by
    show (w'.files w'.freeMapFile).map OpenFile.sector = _
    rw [hmap]
    exact h.mapSector
  tree := by
    rw [hdisk]
    exact h.tree.reroot hroots
  kept := hkept
  exact := hexact
  objects := hobjects
  tidy := htidy
  current := hcurrent

/-- The rule for a step that does not touch the books either. -/
theorem sameBooks (h : InOrder w own m K objs) (hdisk : w'.disk = w.disk) (hbooks : SameBooks w w')
    (hmap : w'.files w.freeMapFile = w.files w.freeMapFile) (htidy : KeepsTidy w w')
    (hsize : w'.directorySize = w.directorySize) : InOrder w' own m K objs := by
  have hfree : w'.freeMapFile = w.freeMapFile := congrArg Books.freeMapFile hbooks.books_eq
  have hdir : w'.directoryFile = w.directoryFile := congrArg Books.directoryFile hbooks.books_eq
  refine h.sameDisk hdisk (by rw [hfree]; exact hmap) ?_ ?_ ?_ ?_ (htidy.tidy h.tidy) ?_
  · intro s hs
    rw [Roots, hbooks.books_eq, hdir] at hs
    exact IsDirectory.root hs
  · rw [hbooks.books_eq]
    exact h.kept
  · rw [hbooks.books_eq, hfree, hdir]
    exact h.exact
  · intro f hf
    rw [hdir] at hf
    rw [ObjectOk, hbooks.books_eq]
    exact h.objects f hf
  · obtain ⟨s, c, hcur⟩ := h.current
    exact ⟨s, c, hcur.sameBooks hdisk hbooks hsize⟩

theorem quiet (h : InOrder w own m K objs) (hq : Quiet w w') (hbooks : SameBooks w w')
    (htidy : KeepsTidy w w') : InOrder w' own m K objs :=
  h.sameBooks hq.disk_eq hbooks (by rw [hq.files_eq]) htidy hq.directorySize_eq

/-! ## Reading the current directory -/

theorem directoryOk (h : InOrder w own m K objs) (hcur : CurrentIs w s c) :
    DirectoryOk w.disk own s c :=
  h.tree.directoryOk (h.currentDirectory hcur) hcur.chain

theorem dirHandle (h : InOrder w own m K objs) (hcur : CurrentIs w s c) : DirHandle w own m s c := by
  have hok := h.directoryOk hcur
  obtain ⟨file, hfile, hsector⟩ := Option.map_eq_some_iff.mp hcur.object
  exact ⟨⟨h.layout, h.marked, h.mapIs, h.mapFile, h.ne_freeMapFile List.mem_cons_self, hok.start_ne,
    hok.file⟩, hok.full, file, hfile, hsector⟩

theorem dirFile (h : InOrder w own m K objs) (hcur : CurrentIs w s c) (hpos : 0 < w.directorySize) :
    DirFile w own m s c := by
  refine ⟨h.dirHandle hcur, hpos, ?_⟩
  rw [hcur.size_eq, ← (h.directoryOk hcur).table.length_eq]

/-- The whole file is the table. -/
theorem dirTable_eq (h : InOrder w own m K objs) (hcur : CurrentIs w s c) :
    dirTable w c = content w.disk c := by
  rw [dirTable, hcur.size_eq, ← (h.directoryOk hcur).table.length_eq, List.take_length]

theorem fetchDirectory {dir : Directory} (h : InOrder w own m K objs) (hcur : CurrentIs w s c)
    (hrun : fetchDirectory.run w = some (dir, w')) : FetchedTable w own m K objs s c dir w' := by
  have hpos : 0 < w.directorySize := by
    obtain ⟨_, _, hget, hrun⟩ := run_bind_eq_some.mp hrun
    cases hget
    obtain ⟨_, w1, hnew, -⟩ := run_bind_eq_some.mp hrun
    obtain ⟨_, w2, hassert, -⟩ := run_bind_eq_some.mp hnew
    simpa using (run_assert_eq_some hassert).1
  have hbooks := sameBooks_fetchDirectory _ _ _ hrun
  have htidy := tidy_fetchDirectory _ _ _ hrun
  obtain ⟨dir', w1, hrun', hsize, htable, hfetched⟩ := run_fetchDirectory (h.dirFile hcur hpos)
  rw [hrun] at hrun'
  cases hrun'
  have hmap : w'.files w.freeMapFile = w.files w.freeMapFile :=
    hfetched.step.files_eq _ (h.ne_freeMapFile List.mem_cons_self).symm
  refine ⟨h.sameBooks hfetched.disk_eq hbooks hmap htidy hfetched.step.directorySize_eq,
    hcur.sameBooks hfetched.disk_eq hbooks hfetched.step.directorySize_eq, hfetched, ?_, ?_, ?_⟩
  · rw [htable, h.dirTable_eq hcur]
  · rw [hsize, hcur.size_eq]
  · rw [hsize]
    exact hpos

/-- The answer of `Find` in the table of a directory. -/
theorem find_cases {dir : Directory} (h : InOrder w own m K objs) (hcur : CurrentIs w s c)
    (htable : dir.table = content w.disk c) (hsize : dir.tableSize = numEntries (content w.disk c))
    (name : Name) :
    (dir.find name = -1 ∧ dir.findIndex name = none ∧
      ∀ i, Used (content w.disk c) i → entryHasName (content w.disk c) i name = false) ∨
    ∃ i, Used (content w.disk c) i ∧ entryHasName (content w.disk c) i name = true ∧
      dir.findIndex name = some i ∧ dir.find name = (entrySector (content w.disk c) i : Int) ∧
      entrySector (content w.disk c) i < numSectors := by
  cases hindex : dir.findIndex name with
  | none =>
    refine Or.inl ⟨by simp only [Directory.find, hindex], rfl, fun i hi => ?_⟩
    have hnot := Directory.findIndex_none hindex (i := i) (by rw [hsize]; exact hi.lt)
    rw [htable] at hnot
    exact Bool.eq_false_iff.mpr fun hname => hnot ⟨hi.inUse, hname⟩
  | some i =>
    obtain ⟨hi, huse, hname⟩ := Directory.findIndex_some hindex
    rw [hsize] at hi
    rw [htable] at huse hname
    have hused : Used (content w.disk c) i := ⟨hi, huse⟩
    have hlt : entrySector (content w.disk c) i < numSectors :=
      h.layout.lt _ _ ((h.directoryOk hcur).table.entries i hused).1
    refine Or.inr ⟨i, hused, hname, rfl, ?_, hlt⟩
    simp only [Directory.find, hindex, htable]
    rw [Directory.toInt, if_pos (Nat.lt_trans hlt (by decide))]

/-! ## Opening -/

/-- A new object for a file of the layout. -/
theorem opened (h : InOrder w own m K objs) (hs0 : s ≠ 0) (hs : own s = some s)
    (hrun : (newOpenFile s).run w = some (f, w')) : InOrder w' own m K (f :: objs) ∧ OpenedAt s w w' := by
  obtain ⟨w1, hrun', hat⟩ := run_newOpenFile (h.layout.lt s s hs) w
  obtain ⟨hf, hbooks⟩ := books_newOpenFile hrun
  have htidy := (tidy_newOpenFile s _ _ _ hrun).tidy h.tidy
  rw [hrun] at hrun'
  cases hrun'
  have hsectors : ∀ g ∈ w.directoryFile :: objs, (books w').sectors g = (books w).sectors g := by
    intro g hg
    rw [hbooks]
    exact Books.sectors_opened_of_lt (h.lt_nextFile hg)
  have hnew : (books w').sectors w.nextFile = some s := by
    rw [hbooks]
    exact Function.update_self ..
  refine ⟨h.sameDisk hat.disk_eq ?_ ?_ ?_ ?_ ?_ htidy ?_, hat⟩
  · rw [hat.freeMapFile_eq, hat.files_eq]
    exact Function.update_of_ne
      (Nat.ne_of_lt (h.exact.lt_next _ List.mem_cons_self)) _ _
  · intro x hx
    rw [Roots, hat.directoryFile_eq, hsectors _ List.mem_cons_self] at hx
    exact IsDirectory.root hx
  · intro x hx
    obtain ⟨g, hg, hgx⟩ := h.kept x hx
    refine ⟨g, List.mem_cons_of_mem _ hg, ?_⟩
    rw [hsectors g (List.mem_cons_of_mem _ hg)]
    exact hgx
  · rw [hbooks, hat.freeMapFile_eq, hat.directoryFile_eq]
    exact (h.exact.opened s).perm ((List.Perm.swap _ _ _).trans ((List.Perm.swap _ _ _).cons _))
  · intro g hg
    rw [hat.directoryFile_eq] at hg
    by_cases hgw : g = w.nextFile
    · rw [hgw]
      exact ⟨s, hnew, hs0, hs⟩
    · have hg' : g ∈ w.directoryFile :: objs := by
        simp only [List.mem_cons] at hg ⊢
        tauto
      rw [ObjectOk, hsectors g hg']
      exact h.objects g hg'
  · obtain ⟨x, b, hcur⟩ := h.current
    exact ⟨x, b, hcur.opened (h.lt_nextFile List.mem_cons_self) hbooks hat⟩

/-- `Open` in the current directory. -/
theorem openFile {o : Option FileId} (h : InOrder w own m K objs) (hcur : CurrentIs w s c)
    (hrun : (openFile name).run w = some (o, w')) :
    (o = none ∧ InOrder w' own m K objs ∧ CurrentIs w' s c ∧ w'.disk = w.disk ∧
      w'.directoryFile = w.directoryFile) ∨
    ∃ f, o = some f ∧ OpenedFile w own m K objs s c name f w' := by
  obtain ⟨dir, w1, hfetch, hrun⟩ := run_bind_eq_some.mp hrun
  have h1 := h.fetchDirectory hcur hfetch
  have hdisk1 := h1.fetched.disk_eq
  have hdir1 := h1.fetched.step.directoryFile_eq
  dsimp only at hrun
  rcases h.find_cases hcur h1.table_eq h1.size_eq name with ⟨hfind, -, -⟩ |
    ⟨i, hi, hname, -, hfind, hlt⟩
  · rw [hfind, if_neg (by decide)] at hrun
    cases hrun
    exact Or.inl ⟨rfl, h1.inOrder, h1.current, hdisk1, hdir1⟩
  · obtain ⟨hown, hne, -⟩ := (h.directoryOk hcur).table.entries i hi
    rw [hfind, if_pos (Int.natCast_nonneg _), Int.toNat_natCast, openSector, run_bind, run_getEntry hlt,
      Option.bind_some] at hrun
    dsimp only at hrun
    split at hrun
    · cases hrun
      exact Or.inl ⟨rfl, h1.inOrder, h1.current, hdisk1, hdir1⟩
    · obtain ⟨f, w2, hnew, hrun⟩ := run_bind_eq_some.mp hrun
      cases hrun
      obtain ⟨h2, hat⟩ := h1.inOrder.opened hne hown hnew
      obtain ⟨hf, hbooks⟩ := books_newOpenFile hnew
      refine Or.inr ⟨f, rfl, h2, h1.current.opened (h1.inOrder.lt_nextFile List.mem_cons_self) hbooks hat,
        hat.disk_eq.trans hdisk1, hat.directoryFile_eq.trans hdir1, i, hi, hname, ?_⟩
      rw [hf, hat.files_eq, hdisk1]
      exact Function.update_self ..

/-! ## Closing and changing the directory -/

/-- An object is closed. -/
theorem closed (h : InOrder w own m K (f :: objs)) (hK : ∀ s, K' s → K s)
    (hkept : ∀ s, K' s → ∃ g ∈ objs, (books w).sectors g = some s)
    (hrun : (deleteOpenFile me f).run w = some ((), w')) :
    InOrder w' own m K' objs ∧ ClosedAt f w w' := by
  have hat := closedAt_deleteOpenFile hrun
  obtain ⟨s, hs, hbooks⟩ := books_deleteOpenFile hrun
  have hnodup := h.exact.nodup
  simp only [List.nodup_cons, List.mem_cons, not_or] at hnodup
  obtain ⟨⟨-, hmapf, -⟩, ⟨hdirf, -⟩, hfobjs, -⟩ := hnodup
  have hsectors : ∀ g, g ≠ f → (books w').sectors g = (books w).sectors g := by
    intro g hg
    rw [hbooks]
    exact Function.update_of_ne hg _ _
  have hne : ∀ g ∈ objs, g ≠ f := by
    rintro g hg rfl
    exact hfobjs hg
  refine ⟨h.sameDisk hat.disk_eq ?_ ?_ ?_ ?_ ?_ ((tidy_deleteOpenFile f _ _ _ hrun).tidy h.tidy) ?_, hat⟩
  · rw [hat.freeMapFile_eq, hat.files_eq]
    exact Function.update_of_ne hmapf _ _
  · intro x hx
    rw [Roots, hat.directoryFile_eq, hsectors _ hdirf] at hx
    exact IsDirectory.root (hx.imp id fun hx => hx.imp id fun hx => hK x hx)
  · intro x hx
    obtain ⟨g, hg, hgx⟩ := hkept x hx
    exact ⟨g, hg, by rw [hsectors g (hne g hg)]; exact hgx⟩
  · rw [hbooks, hat.freeMapFile_eq, hat.directoryFile_eq]
    exact (h.exact.perm (((List.Perm.swap _ _ _).cons _).trans (List.Perm.swap _ _ _))).closed hs
  · intro g hg
    rw [hat.directoryFile_eq] at hg
    have hgf : g ≠ f := by
      rcases List.mem_cons.mp hg with rfl | hg
      · exact hdirf
      · exact hne g hg
    have hg' : g ∈ w.directoryFile :: f :: objs := by
      simp only [List.mem_cons] at hg ⊢
      tauto
    rw [ObjectOk, hsectors g hgf]
    exact h.objects g hg'
  · obtain ⟨x, b, hcur⟩ := h.current
    refine ⟨x, b, ?_, ?_, ?_⟩
    · rw [hat.directoryFile_eq, hsectors _ hdirf]
      exact hcur.object
    · rw [hat.disk_eq]
      exact hcur.chain
    · rw [hat.disk_eq, hat.directorySize_eq]
      exact hcur.size_eq

/-- The number of entries that a directory reads back. -/
theorem fetchTableSize {n : Nat} {b : List Nat} (h : InOrder w own m K objs)
    (hs : IsDirectory w.disk (Roots w K) s) (hb : HeaderChain w.disk s b) {w1 : World}
    (hdisk : w1.disk = w.disk) (hf : (books w1).sectors f = some s)
    (hrun : (Directory.fetchTableSize f).run w1 = some (n, w')) :
    n = numEntries (content w.disk b) ∧
      ∃ file, w' = { w1 with files := Function.update w1.files f (some file) } ∧ file.sector = s := by
  have hok := h.tree.directoryOk hs hb
  obtain ⟨file, hfile, hsector⟩ := Option.map_eq_some_iff.mp hf
  have hlayout : Layout w1.disk own := by
    rw [hdisk]
    exact h.layout
  have hfileOk : FileOk w1.disk own s b := by
    rw [hdisk]
    exact hok.file
  obtain ⟨file', hread, hsector'⟩ := run_readTable (n := maxDirEntries * dirEntrySize) hlayout hfileOk
    hfile hsector (by decide) (by decide)
  rw [Directory.fetchTableSize, run_bind, hread, Option.bind_some] at hrun
  cases hrun
  refine ⟨?_, file', rfl, hsector'⟩
  rw [hdisk, List.take_of_length_le, numEntries]
  have hlen := hok.table.length_eq
  have hle := Nat.mul_le_mul_right dirEntrySize hok.table.size_le
  rw [hlen]
  exact Nat.le_trans hle (by decide)

theorem switchDirectory (h : InOrder w own m K (f :: objs)) (hf : (books w).sectors f = some s)
    (hs : IsDirectory w.disk (Roots w K) s) (hK : ∀ x, K' x → IsDirectory w.disk (Roots w K) x)
    (hkept : ∀ x, K' x → ∃ g ∈ objs, (books w).sectors g = some x)
    (hrun : (switchDirectory me f w.directoryFile).run w = some ((), w')) :
    Switched w own m K' objs f s w' := by
  have hbalanced : Balanced w' objs := balanced_switchDirectory h.exact hrun
  obtain ⟨b, hb⟩ := h.tree.directory s hs
  have hnodup := h.exact.nodup
  simp only [List.nodup_cons, List.mem_cons, not_or] at hnodup
  obtain ⟨⟨hmapd, hmapf, -⟩, ⟨hdirf, hdirobjs⟩, -, -⟩ := hnodup
  obtain ⟨_, _, hset, hrun⟩ := run_bind_eq_some.mp hrun
  cases hset
  obtain ⟨_, w1, hdelete, hrun⟩ := run_bind_eq_some.mp hrun
  obtain ⟨_, _, hget, hrun⟩ := run_bind_eq_some.mp hrun
  cases hget
  obtain ⟨n, w2, hsize, hrun⟩ := run_bind_eq_some.mp hrun
  cases hrun
  have hat := closedAt_deleteOpenFile hdelete
  have htidy1 := (tidy_deleteOpenFile w.directoryFile _ _ _ hdelete).tidy ⟨h.tidy.idle, h.tidy.fresh⟩
  have htidy2 := (tidy_fetchTableSize _ _ _ _ hsize).tidy htidy1
  obtain ⟨s', hs', hbooks1⟩ := books_deleteOpenFile hdelete
  have hbooks2 := (sameBooks_fetchTableSize _ _ _ _ hsize).books_eq
  have hdir : w1.directoryFile = f := hat.directoryFile_eq
  have hsectors1 : ∀ g, g ≠ w.directoryFile → (books w1).sectors g = (books w).sectors g := by
    intro g hg
    rw [hbooks1]
    exact Function.update_of_ne hg _ _
  have hsectors : ∀ g, g ≠ w.directoryFile →
      (books { w2 with directorySize := n }).sectors g = (books w).sectors g := by
    intro g hg
    have : (books { w2 with directorySize := n }).sectors g = (books w1).sectors g :=
      congrFun (congrArg Books.sectors hbooks2) g
    rw [this, hsectors1 g hg]
  have hfw1 : (books w1).sectors w1.directoryFile = some s := by
    rw [hdir, hsectors1 f (Ne.symm hdirf)]
    exact hf
  obtain ⟨hn, file, hw2, hfile⟩ := h.fetchTableSize hs hb.file.chain hat.disk_eq hfw1 hsize
  have hdisk2 : w2.disk = w.disk := by
    rw [hw2]
    exact hat.disk_eq
  have hdir2 : w2.directoryFile = f := by
    rw [hw2]
    exact hdir
  have hmap2 : w2.freeMapFile = w.freeMapFile := by
    rw [hw2]
    exact hat.freeMapFile_eq
  have hfiles2 : ∀ g, g ≠ f → g ≠ w.directoryFile → w2.files g = w.files g := by
    intro g hgf hgd
    rw [hw2]
    show Function.update w1.files w1.directoryFile (some file) g = _
    rw [hdir, Function.update_of_ne hgf, hat.files_eq]
    exact Function.update_of_ne hgd _ _
  have hcur : CurrentIs { w2 with directorySize := n } s b := by
    refine ⟨?_, ?_, ?_⟩
    · have hobject := congrArg (books { w2 with directorySize := n }).sectors hdir2
      exact hobject.trans ((hsectors f (Ne.symm hdirf)).trans hf)
    · show HeaderChain w2.disk s b
      rw [hdisk2]
      exact hb.file.chain
    · show n = numEntries (content w2.disk b)
      rw [hdisk2]
      exact hn
  refine ⟨h.sameDisk hdisk2 ?_ ?_ ?_ hbalanced ?_ ⟨htidy2.idle, htidy2.fresh⟩ ⟨s, b, hcur⟩, ⟨b, hcur⟩,
    hdisk2, hdir2, hfiles2, hsectors⟩
  · show w2.files w2.freeMapFile = _
    rw [hmap2]
    exact hfiles2 _ hmapf hmapd
  · rintro x (hx | hx | hx)
    · exact IsDirectory.root (Or.inl hx)
    · obtain rfl := Option.some.inj (hcur.object.symm.trans hx)
      exact hs
    · exact hK x hx
  · intro x hx
    obtain ⟨g, hg, hgx⟩ := hkept x hx
    refine ⟨g, hg, ?_⟩
    rw [hsectors g (by rintro rfl; exact hdirobjs hg)]
    exact hgx
  · intro g hg
    have hg' : g ∈ f :: objs := by
      rw [← hdir2]
      exact hg
    rw [ObjectOk, hsectors g (by rintro rfl; exact (List.mem_cons.mp hg').elim hdirf hdirobjs)]
    exact h.objects g (List.mem_cons_of_mem _ hg')

end InOrder

end Nachos.Filesys
