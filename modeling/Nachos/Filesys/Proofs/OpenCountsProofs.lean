import Nachos.Filesys.OpenCounts
import Nachos.Filesys.Proofs.FrameProofs
import Nachos.Lib.Proofs.BitmapProofs

/-!
# Proofs: open counts

Every piece of the calls either leaves the books alone, opens an object, closes one, or resets the count
of the sector of a new header. From these the books stay exact along every call, and along every session
whose calls keep them.
-/

namespace Nachos.Filesys

open Foundations Resumption

/-! ## Books -/

namespace Books

variable {b : Books} {l l' : List FileId} {f : FileId} {s : Nat}

theorem Exact.perm (h : b.Exact l) (hl : l.Perm l') : b.Exact l' where
  counts_eq s := (h.counts_eq s).trans (hl.countP_eq _)
  nodup := hl.nodup_iff.mp h.nodup
  exists_sector f hf := h.exists_sector f (hl.mem_iff.mpr hf)
  lt_next f hf := h.lt_next f (hl.mem_iff.mpr hf)

/-- An object of the list counts for its own sector. -/
theorem Exact.counts_cons (h : b.Exact (f :: l)) (hf : b.sectors f = some s) (x : Nat) :
    b.counts x = (l.countP fun g => b.sectors g = some x) + if s = x then 1 else 0 := by
  rw [h.counts_eq x, List.countP_cons]
  simp [hf]

theorem sectors_opened_of_lt (hf : f < b.next) : (b.opened s).sectors f = b.sectors f :=
  Function.update_of_ne (Nat.ne_of_lt hf) _ _

/-- The objects that were there before still count for their sectors. -/
theorem Exact.countP_opened (h : b.Exact l) (s x : Nat) :
    (l.countP fun f => (b.opened s).sectors f = some x) = b.counts x := by
  rw [h.counts_eq x]
  refine List.countP_congr fun f hf => ?_
  rw [sectors_opened_of_lt (h.lt_next f hf)]

theorem Exact.opened (h : b.Exact l) (s : Nat) : (b.opened s).Exact (b.next :: l) where
  counts_eq := by
    intro x
    have hnew : (b.opened s).sectors b.next = some s := Function.update_self ..
    rw [List.countP_cons, h.countP_opened, hnew]
    show Function.update b.counts s (b.counts s + 1) x = _
    by_cases hx : x = s
    · subst hx
      simp
    · simp [Function.update_of_ne hx, Ne.symm hx]
  nodup := List.nodup_cons.mpr ⟨fun hmem => Nat.lt_irrefl _ (h.lt_next _ hmem), h.nodup⟩
  exists_sector := by
    intro f hf
    rcases List.mem_cons.mp hf with rfl | hf
    · simp [Books.opened]
    · rw [sectors_opened_of_lt (h.lt_next f hf)]
      exact h.exists_sector f hf
  lt_next := by
    intro f hf
    rcases List.mem_cons.mp hf with rfl | hf
    · exact Nat.lt_succ_self _
    · exact Nat.lt_succ_of_lt (h.lt_next f hf)

theorem Exact.closed (h : b.Exact (f :: l)) (hf : b.sectors f = some s) : (b.closed f s).Exact l := by
  obtain ⟨hfl, hl⟩ := List.nodup_cons.mp h.nodup
  have hother : ∀ g ∈ l, (b.closed f s).sectors g = b.sectors g := fun g hg =>
    Function.update_of_ne (by rintro rfl; exact hfl hg) _ _
  refine ⟨fun x => ?_, hl, fun g hg => ?_, fun g hg => h.lt_next g (List.mem_cons_of_mem f hg)⟩
  · have hcount : (l.countP fun g => (b.closed f s).sectors g = some x) =
        l.countP fun g => b.sectors g = some x :=
      List.countP_congr fun g hg => by rw [hother g hg]
    rw [hcount]
    show Function.update b.counts s (b.counts s - 1) x = _
    by_cases hx : x = s
    · subst hx
      rw [Function.update_self, h.counts_cons hf x, if_pos rfl, Nat.add_sub_cancel]
    · rw [Function.update_of_ne hx, h.counts_cons hf x, if_neg (Ne.symm hx), Nat.add_zero]
  · rw [hother g hg]
    exact h.exists_sector g (List.mem_cons_of_mem f hg)

/-- The count of a file that nobody has open may be reset. -/
theorem reset_of_counts_eq_zero (hs : b.counts s = 0) : b.reset s = b := by
  have hcounts : Function.update b.counts s 0 = b.counts := by
    rw [← hs]
    exact Function.update_eq_self s b.counts
  rw [reset, hcounts]

/-- `CreateDir` forgets the object of the new directory. -/
theorem Exact.opened_reset (h : b.Exact l) (hs : b.counts s = 0) : ((b.opened s).reset s).Exact l where
  counts_eq := by
    intro x
    show Function.update (b.opened s).counts s 0 x = (l.countP fun f => (b.opened s).sectors f = some x)
    rw [h.countP_opened]
    by_cases hx : x = s
    · rw [hx, Function.update_self, hs]
    · rw [Function.update_of_ne hx]
      exact Function.update_of_ne hx _ _
  nodup := h.nodup
  exists_sector := by
    intro f hf
    show ((b.opened s).sectors f).isSome
    rw [sectors_opened_of_lt (h.lt_next f hf)]
    exact h.exists_sector f hf
  lt_next f hf := Nat.lt_succ_of_lt (h.lt_next f hf)

/-- It does not matter which of the objects is the current directory. -/
theorem Exact.setDirectory (h : b.Exact l) (f : FileId) : Exact { b with directoryFile := f } l :=
  ⟨h.counts_eq, h.nodup, h.exists_sector, h.lt_next⟩

end Books

/-! ## Code that keeps the books -/

/-- The books have not changed. -/
structure SameBooks (w w' : World) : Prop where
  books_eq : books w' = books w

instance : IsPreorder World SameBooks where
  refl _ := ⟨rfl⟩
  trans _ _ _ h h' := ⟨h'.books_eq.trans h.books_eq⟩

/-- An object may be replaced by one for the same sector. -/
theorem sectors_update_file {w : World} {f : FileId} {file file' : OpenFile} (hfile : w.files f = some file)
    (hsector : file'.sector = file.sector) :
    (fun g => (Function.update w.files f (some file') g).map OpenFile.sector) =
      fun g => (w.files g).map OpenFile.sector := by
  funext g
  by_cases hg : g = f
  · subst hg
    rw [Function.update_self, hfile, Option.map_some, Option.map_some, hsector]
  · rw [Function.update_of_ne hg]

theorem allows_sameBooks (f : FileId) : Allows f SameBooks where
  disk _ _ := ⟨rfl⟩
  heap _ _ := ⟨rfl⟩
  file _ _ _ hfile hsector := ⟨by simp only [books, sectors_update_file hfile hsector]⟩

/-- An entry may be replaced by one with the same count. -/
theorem counts_update_entry (w : World) (s : Nat) (e : OpenDirEntry) :
    (fun x => (Function.update w.table s e x).count) =
      Function.update (fun x => (w.table x).count) s e.count := by
  funext x
  by_cases hx : x = s
  · subst hx
    rw [Function.update_self, Function.update_self]
  · rw [Function.update_of_ne hx, Function.update_of_ne hx]

theorem run_getEntry_eq {w w' : World} {s : Nat} {e : OpenDirEntry}
    (hr : (getEntry s).run w = some (e, w')) : w' = w ∧ e = w.table s := by
  obtain ⟨_, w1, hassert, hget⟩ := run_bind_eq_some.mp hr
  rw [(run_assert_eq_some hassert).2] at hget
  cases hget
  exact ⟨rfl, rfl⟩

theorem run_getFile_eq {w w' : World} {f : FileId} {file : OpenFile}
    (hr : (getFile f).run w = some (file, w')) : w' = w ∧ w.files f = some file := by
  obtain ⟨w1, w2, hstate, hopt⟩ := run_bind_eq_some.mp hr
  cases hstate
  exact ⟨(run_ofOption_eq_some hopt).2, (run_ofOption_eq_some hopt).1⟩

/-- The books after the change of an entry. -/
theorem books_modifyEntry {w w' : World} {s : Nat} {g : OpenDirEntry → OpenDirEntry}
    (hr : (modifyEntry s g).run w = some ((), w')) :
    books w' = { books w with
      counts := Function.update (books w).counts s (g (w.table s)).count } := by
  obtain ⟨e, w1, hget, hset⟩ := run_bind_eq_some.mp hr
  obtain ⟨rfl, rfl⟩ := run_getEntry_eq hget
  cases hset
  simp only [books, counts_update_entry]

section SameBooks

variable {me : Tid} {name : Name}

theorem sameBooks_getEntry (s : Nat) : (getEntry s).Moves SameBooks :=
  (Moves.assert _).bind fun _ => Moves.getState.bind fun _ => Moves.pure _

theorem sameBooks_modifyEntry (s : Nat) {g : OpenDirEntry → OpenDirEntry}
    (hg : ∀ e, (g e).count = e.count) : (modifyEntry s g).Moves SameBooks := by
  intro w _ w' hr
  refine ⟨?_⟩
  rw [books_modifyEntry hr, hg]
  exact congrArg (fun counts => { books w with counts := counts }) (Function.update_eq_self s _)

theorem sameBooks_newLock : newLock.Moves SameBooks :=
  Moves.getState.bind fun _ => (Moves.modifyState fun _ => ⟨rfl⟩).bind fun _ => Moves.pure _

theorem sameBooks_acquire (me : Tid) (l : Option LockId) : (acquire me l).Moves SameBooks :=
  (Moves.ofOption _).bind fun _ => Moves.getState.bind fun _ => (Moves.ofOption _).bind fun _ =>
    (Moves.assert _).bind fun _ => (Moves.awaitUntil _).bind fun _ => Moves.modifyState fun _ => ⟨rfl⟩

theorem sameBooks_release (me : Tid) (l : Option LockId) : (release me l).Moves SameBooks :=
  (Moves.ofOption _).bind fun _ => Moves.getState.bind fun _ => (Moves.ofOption _).bind fun _ =>
    (Moves.assert _).bind fun _ => Moves.modifyState fun _ => ⟨rfl⟩

theorem sameBooks_deleteLock (l : Option LockId) : (deleteLock l).Moves SameBooks := by
  cases l with
  | none => exact Moves.pure _
  | some l => exact Moves.getState.bind fun _ => (Moves.assert _).bind fun _ => Moves.modifyState fun _ => ⟨rfl⟩

theorem sameBooks_malloc (use : HeapUse) : (malloc use).Moves SameBooks :=
  (along_malloc (allows_sameBooks 0) use).moves

theorem sameBooks_readSector (s : Nat) : (readSector s).Moves SameBooks :=
  (along_readSector (allows_sameBooks 0) s).moves

theorem sameBooks_writeSector (s : Nat) (data : Sector) : (writeSector s data).Moves SameBooks :=
  (along_writeSector (allows_sameBooks 0) s data).moves

theorem sameBooks_fetchFreeMap : fetchFreeMap.Moves SameBooks :=
  (along_fetchFreeMap (allows_sameBooks 0)).moves

theorem sameBooks_writeBackFreeMap (m : Bitmap) : (writeBackFreeMap m).Moves SameBooks :=
  (along_writeBackFreeMap (allows_sameBooks 0) m).moves

theorem sameBooks_read (f : FileId) (n : Nat) (isDirectory : Bool) :
    (read f n isDirectory).Moves SameBooks :=
  (along_read (allows_sameBooks f) n isDirectory).moves

theorem sameBooks_write (f : FileId) (data : List UInt8) (isDirectory : Bool) :
    (write me f data isDirectory).Moves SameBooks := by
  have hf := allows_sameBooks f
  refine (Moves.assert _).bind fun _ => (along_getFile hf f).moves.bind fun _ =>
    (sameBooks_getEntry _).bind fun _ => (sameBooks_acquire me _).bind fun _ => ?_
  exact (along_rewindWrite hf _).moves.bind fun _ => (along_getFile hf f).moves.bind fun _ =>
    (along_fetchHdr hf _).moves.bind fun _ => (along_getFile hf f).moves.bind fun _ =>
      (along_fetchFreeMap hf).moves.bind fun _ => (along_writeBody hf _ _).moves.bind fun _ =>
        (sameBooks_getEntry _).bind fun _ => (sameBooks_release me _).bind fun _ => Moves.pure _

theorem sameBooks_newDirectory (size : Nat) : (Directory.new size).Moves SameBooks :=
  (Moves.assert _).bind fun _ => (sameBooks_malloc _).bind fun _ => Moves.pure _

theorem sameBooks_fetchFrom (dir : Directory) (f : FileId) : (dir.fetchFrom f).Moves SameBooks :=
  (sameBooks_read f _ _).bind fun _ => Moves.pure _

theorem sameBooks_fetchTableSize (f : FileId) : (Directory.fetchTableSize f).Moves SameBooks :=
  (sameBooks_read f _ _).bind fun _ => Moves.pure _

theorem sameBooks_writeBackFirst (dir : Directory) (f : FileId) : (dir.writeBackFirst f).Moves SameBooks :=
  (along_writeAt (allows_sameBooks f) f _ _).moves.bind fun _ => Moves.pure _

theorem sameBooks_fetchDirectory : fetchDirectory.Moves SameBooks :=
  Moves.getState.bind fun _ => (sameBooks_newDirectory _).bind fun _ => Moves.getState.bind fun _ =>
    sameBooks_fetchFrom _ _

theorem sameBooks_writeBackDirectory (dir : Directory) : (writeBackDirectory me dir).Moves SameBooks :=
  Moves.getState.bind fun _ => (sameBooks_write _ _ _).bind fun _ => Moves.pure _

theorem sameBooks_add (dir : Directory) (s : Nat) (isDirectory : Bool) :
    (dir.add name s isDirectory).Moves SameBooks := by
  refine Moves.ite (Moves.pure _) ?_
  split
  · exact Moves.pure _
  · exact (sameBooks_malloc _).bind fun _ => (Moves.modifyState fun _ => ⟨rfl⟩).bind fun _ => Moves.pure _

theorem sameBooks_ensureLock (o : Option LockId) : (ensureLock o).Moves SameBooks := by
  cases o with
  | none => exact sameBooks_newLock.bind fun _ => Moves.pure _
  | some l => exact Moves.pure _

theorem sameBooks_initLocks (s : Nat) (e : OpenDirEntry) : (initLocks s e).Moves SameBooks :=
  Moves.ite (sameBooks_newLock.bind fun _ => (sameBooks_ensureLock _).bind fun _ =>
    (sameBooks_ensureLock _).bind fun _ => sameBooks_modifyEntry _ (by intro _; rfl)) (Moves.pure _)

theorem sameBooks_closeLast (s : Nat) : (closeLast s).Moves SameBooks := by
  refine (sameBooks_getEntry s).bind fun _ => Moves.ite (Moves.bind ?_ fun _ => ?_) (Moves.pure _)
  · refine Moves.ite ?_ (Moves.pure _)
    exact (Moves.modifyState fun _ => ⟨rfl⟩).bind fun _ => Moves.awaitUntil _
  · exact (sameBooks_getEntry s).bind fun _ => sameBooks_deleteLock _

theorem sameBooks_waitForClose (s : Nat) : (waitForClose me s).Moves SameBooks := by
  refine (sameBooks_getEntry s).bind fun _ => Moves.ite ?_ (Moves.pure _)
  refine Moves.bind ?_ fun _ => Moves.assert _
  exact (Moves.awaitUntil _).bind fun _ => Moves.getState.bind fun _ =>
    (Moves.modifyState fun _ => ⟨rfl⟩).bind fun _ => Moves.pure _

theorem sameBooks_freeHeaders (fuel : Nat) : ∀ s h m, (freeHeaders fuel s h m).Moves SameBooks := by
  induction fuel with
  | zero => exact fun _ _ _ => Moves.fail
  | succ fuel ih =>
    intro s h m
    refine (Moves.ofOption _).bind fun _ => Moves.ite ?_ (Moves.pure _)
    exact (sameBooks_readSector _).bind fun _ => ih _ _ _

theorem sameBooks_acquireRemove (l : Option LockId) : (acquireRemove me l).Moves SameBooks := by
  cases l with
  | none => exact Moves.pure _
  | some l => exact sameBooks_acquire _ _

theorem sameBooks_releaseRemove (l : Option LockId) : (releaseRemove me l).Moves SameBooks := by
  cases l with
  | none => exact Moves.pure _
  | some l => exact sameBooks_release _ _

theorem sameBooks_removeSector (s : Nat) (dir : Directory) :
    (removeSector me s name dir).Moves SameBooks :=
  (sameBooks_readSector s).bind fun _ => sameBooks_fetchFreeMap.bind fun _ =>
    (sameBooks_modifyEntry _ (by intro _; rfl)).bind fun _ => (sameBooks_waitForClose _).bind fun _ =>
      (sameBooks_freeHeaders _ _ _ _).bind fun _ => (sameBooks_writeBackFreeMap _).bind fun _ =>
        (sameBooks_writeBackDirectory _).bind fun _ => (sameBooks_modifyEntry _ (by intro _; rfl)).bind fun _ =>
          (sameBooks_getEntry _).bind fun _ => (sameBooks_releaseRemove _).bind fun _ =>
            sameBooks_modifyEntry _ (by intro _; rfl)

end SameBooks

/-! ## Opening, closing and resetting -/

section Objects

variable {me : Tid} {name : Name} {w w' : World} {f : FileId} {s : Nat}

/-- The constructor makes the next object and counts it. -/
theorem books_newOpenFile (hr : (newOpenFile s).run w = some (f, w')) :
    f = (books w).next ∧ books w' = (books w).opened s := by
  obtain ⟨hdr, w1, hread, hr⟩ := run_bind_eq_some.mp hr
  obtain ⟨e, w2, hget, hr⟩ := run_bind_eq_some.mp hr
  obtain ⟨_, w3, hinit, hr⟩ := run_bind_eq_some.mp hr
  obtain ⟨_, w4, hentry, hr⟩ := run_bind_eq_some.mp hr
  have hw3 : books w3 = books w :=
    ((sameBooks_initLocks s e _ _ _ hinit).books_eq.trans
      (sameBooks_getEntry s _ _ _ hget).books_eq).trans (sameBooks_readSector s _ _ _ hread).books_eq
  have hw4 := books_modifyEntry hentry
  have hcount : (w3.table s).count = (books w).counts s := congrFun (congrArg Books.counts hw3) s
  rw [hw3, hcount] at hw4
  cases hr
  refine ⟨congrArg Books.next hw4, ?_⟩
  have hnext : w4.nextFile = (books w).next := congrArg Books.next hw4
  have hsectors : ∀ g, (w4.files g).map OpenFile.sector = (books w).sectors g :=
    congrFun (congrArg Books.sectors hw4)
  have hcounts : (books w4).counts = _ := congrArg Books.counts hw4
  have hfreeMap : (books w4).freeMapFile = _ := congrArg Books.freeMapFile hw4
  have hdirectory : (books w4).directoryFile = _ := congrArg Books.directoryFile hw4
  refine Books.ext hcounts ?_ ?_ hfreeMap hdirectory
  · funext g
    show (Function.update w4.files w4.nextFile _ g).map OpenFile.sector =
      Function.update (books w).sectors (books w).next (some s) g
    rw [hnext]
    by_cases hg : g = (books w).next
    · rw [hg, Function.update_self, Function.update_self]
      rfl
    · rw [Function.update_of_ne hg, Function.update_of_ne hg, hsectors g]
  · exact congrArg (· + 1) hnext

theorem run_forgetFile (w : World) (f : FileId) :
    (forgetFile f).run w = some ((), { w with files := Function.update w.files f none }) := rfl

/-- The books after the object is gone. -/
theorem books_forgetFile (w : World) (f : FileId) :
    books { w with files := Function.update w.files f none } =
      { books w with sectors := Function.update (books w).sectors f none } := by
  refine Books.ext rfl ?_ rfl rfl rfl
  funext g
  show (Function.update w.files f none g).map OpenFile.sector = Function.update (books w).sectors f none g
  by_cases hg : g = f
  · rw [hg, Function.update_self, Function.update_self]
    rfl
  · rw [Function.update_of_ne hg, Function.update_of_ne hg]
    rfl

/-- The destructor counts the object out, also when its count was 0 before: then the count stays. -/
theorem books_deleteOpenFile (hr : (deleteOpenFile me f).run w = some ((), w')) :
    ∃ s, (books w).sectors f = some s ∧ books w' = (books w).closed f s := by
  obtain ⟨file, w1, hfile, hr⟩ := run_bind_eq_some.mp hr
  obtain ⟨hw1, hget⟩ := run_getFile_eq hfile
  rw [hw1] at hr
  refine ⟨file.sector, congrArg (Option.map OpenFile.sector) hget, ?_⟩
  obtain ⟨e, w2, he, hr⟩ := run_bind_eq_some.mp hr
  obtain ⟨_, w3, hacquire, hr⟩ := run_bind_eq_some.mp hr
  obtain ⟨e', w4, he', hr⟩ := run_bind_eq_some.mp hr
  have hw3 : books w3 = books w := (sameBooks_acquire me _ _ _ _ hacquire).books_eq.trans
    (sameBooks_getEntry _ _ _ _ he).books_eq
  obtain ⟨rfl, rfl⟩ := run_getEntry_eq he'
  have hcount : (w4.table file.sector).count = (books w).counts file.sector :=
    congrFun (congrArg Books.counts hw3) _
  split at hr
  · obtain ⟨_, w5, hentry, hr⟩ := run_bind_eq_some.mp hr
    obtain ⟨_, w6, hrelease, hr⟩ := run_bind_eq_some.mp hr
    obtain ⟨_, w7, hlast, hr⟩ := run_bind_eq_some.mp hr
    have hw5 := books_modifyEntry hentry
    have hw7 : books w7 = books w5 := (sameBooks_closeLast _ _ _ _ hlast).books_eq.trans
      (sameBooks_release me _ _ _ _ hrelease).books_eq
    cases (run_forgetFile w7 f).symm.trans hr
    rw [books_forgetFile w7 f, hw7, hw5, hw3, hcount]
    rfl
  · rename_i hzero
    obtain ⟨_, w5, hrelease, hr⟩ := run_bind_eq_some.mp hr
    have hw5 : books w5 = books w := (sameBooks_release me _ _ _ _ hrelease).books_eq.trans hw3
    cases (run_forgetFile w5 f).symm.trans hr
    rw [books_forgetFile w5 f, hw5]
    have hcounts : Function.update (books w).counts file.sector ((books w).counts file.sector - 1) =
        (books w).counts := by
      have hzero' : (books w).counts file.sector - 1 = (books w).counts file.sector := by omega
      rw [hzero']
      exact Function.update_eq_self _ _
    rw [Books.closed, hcounts]

theorem books_resetEntry {made : Bool} (hr : (resetEntry s made).run w = some ((), w')) :
    books w' = (books w).reset s := by
  obtain ⟨l, w1, hlock, hr⟩ := run_bind_eq_some.mp hr
  rw [books_modifyEntry hr, (sameBooks_newLock _ _ _ hlock).books_eq]
  rfl

/-- `Open` opens an object if it returns one. -/
theorem books_openFile {opened : Option FileId} (hr : (openFile name).run w = some (opened, w')) :
    (opened = none ∧ books w' = books w) ∨
      ∃ s, opened = some (books w).next ∧ books w' = (books w).opened s := by
  obtain ⟨dir, w1, hfetch, hr⟩ := run_bind_eq_some.mp hr
  have hw1 := (sameBooks_fetchDirectory _ _ _ hfetch).books_eq
  dsimp only at hr
  split at hr
  · obtain ⟨e, w2, he, hr⟩ := run_bind_eq_some.mp hr
    obtain ⟨rfl, rfl⟩ := run_getEntry_eq he
    split at hr
    · cases hr
      exact Or.inl ⟨rfl, hw1⟩
    · obtain ⟨f, w3, hnew, hr⟩ := run_bind_eq_some.mp hr
      cases hr
      obtain ⟨rfl, hw3⟩ := books_newOpenFile hnew
      rw [hw1] at hw3 ⊢
      exact Or.inr ⟨_, rfl, hw3⟩
  · cases hr
    exact Or.inl ⟨rfl, hw1⟩

end Objects

/-! ## The current directory -/

/-- The objects in use are those of the free map, the current directory and `l`. -/
def Balanced (w : World) (l : List FileId) : Prop :=
  (books w).Exact ((books w).freeMapFile :: (books w).directoryFile :: l)

section Calls

variable {me : Tid} {name : Name} {w w' : World} {f : FileId} {l : List FileId}

theorem Balanced.same (h : Balanced w l) (hw : SameBooks w w') : Balanced w' l := by
  rw [Balanced, hw.books_eq]
  exact h

/-- A new directory takes the place of the current one, which is deleted. -/
theorem balanced_switchDirectory (h : (books w).Exact ((books w).freeMapFile :: w.directoryFile :: f :: l))
    (hr : (switchDirectory me f w.directoryFile).run w = some ((), w')) :
    Balanced w' l := by
  obtain ⟨_, w1, hset, hr⟩ := run_bind_eq_some.mp hr
  cases hset
  obtain ⟨_, w2, hdelete, hr⟩ := run_bind_eq_some.mp hr
  obtain ⟨_, _, hget, hr⟩ := run_bind_eq_some.mp hr
  cases hget
  obtain ⟨n, w3, hsize, hr⟩ := run_bind_eq_some.mp hr
  cases hr
  have hw3 : books w3 = books w2 := (sameBooks_fetchTableSize _ _ _ _ hsize).books_eq
  obtain ⟨s, hs, hw2⟩ := books_deleteOpenFile hdelete
  have hbooks : books { w3 with directorySize := n } = books w2 := hw3
  rw [Balanced, hbooks, hw2]
  exact ((h.perm (List.Perm.swap _ _ _)).setDirectory f).closed hs

/-- `Open` of a directory to go into it. -/
theorem exact_openFile {opened : Option FileId} (h : Balanced w l)
    (hr : (openFile name).run w = some (opened, w')) (hf : opened = some f) :
    (books w').Exact ((books w').freeMapFile :: w'.directoryFile :: f :: l) ∧
      w'.directoryFile = w.directoryFile := by
  subst hf
  rcases books_openFile hr with ⟨hnone, _⟩ | ⟨s, hsome, hw'⟩
  · cases hnone
  cases hsome
  have hdir : w'.directoryFile = w.directoryFile := congrArg Books.directoryFile hw'
  refine ⟨?_, hdir⟩
  rw [hw', hdir]
  refine (h.opened s).perm ?_
  exact (List.Perm.swap _ _ _).trans ((List.Perm.swap _ _ _).cons _)

theorem balanced_enterDirectory {dir : Directory} (h : Balanced w l)
    (hr : (Session.enterDirectory me name).run w = some (dir, w')) : Balanced w' l := by
  obtain ⟨_, w1, hget, hr⟩ := run_bind_eq_some.mp hr
  cases hget
  obtain ⟨opened, w2, hopen, hr⟩ := run_bind_eq_some.mp hr
  obtain ⟨f, w3, hsome, hr⟩ := run_bind_eq_some.mp hr
  obtain ⟨_, w4, hswitch, hfetch⟩ := run_bind_eq_some.mp hr
  obtain ⟨hopened, rfl⟩ := run_ofOption_eq_some hsome
  obtain ⟨hexact, hdir⟩ := exact_openFile h hopen hopened
  rw [← hdir] at hswitch
  exact (balanced_switchDirectory hexact hswitch).same (sameBooks_fetchDirectory _ _ _ hfetch)

/-- A round of the walk is to enter a directory. -/
theorem run_walkPath_cons (names : List Name) {currDir : Directory} (hfind : currDir.findDir name = true) :
    (walkPath me (name :: names) currDir).run w =
      (Session.enterDirectory me name >>= walkPath me names).run w := by
  simp only [walkPath, hfind, if_true, Session.enterDirectory, run_bind, Option.bind_assoc]

/-- The walk keeps one object for the current directory; it does not stop where the path goes on. -/
theorem balanced_walkPath (names : List Name) :
    ∀ {currDir : Directory} {w w' : World} {success : Bool}, Balanced w l →
      (walkPath me names currDir).run w = some (success, w') →
      Balanced w' l ∧ (Session.Walks me names currDir w → success = true) := by
  induction names with
  | nil =>
    intro currDir w w' success h hr
    cases hr
    exact ⟨h, fun _ => rfl⟩
  | cons name names ih =>
    intro currDir w w' success h hr
    cases hfind : currDir.findDir name with
    | true =>
      rw [run_walkPath_cons names hfind] at hr
      obtain ⟨dir, w1, henter, hr⟩ := run_bind_eq_some.mp hr
      obtain ⟨hw', hsuccess⟩ := ih (balanced_enterDirectory h henter) hr
      exact ⟨hw', fun hwalks => hsuccess (hwalks.2 dir w1 henter)⟩
    | false =>
      rw [walkPath, hfind] at hr
      cases hr
      exact ⟨h, fun hwalks => by simp [Session.Walks, hfind] at hwalks⟩

theorem balanced_enterRoot {dir : Directory} (h : Balanced w l)
    (hr : Session.enterRoot.run w = some (dir, w')) : Balanced w' (w.directoryFile :: l) := by
  obtain ⟨root, w1, hnew, hr⟩ := run_bind_eq_some.mp hr
  obtain ⟨n, w2, hsize, hr⟩ := run_bind_eq_some.mp hr
  obtain ⟨dir1, w3, hdir, hr⟩ := run_bind_eq_some.mp hr
  obtain ⟨dir2, w4, hfetch, hr⟩ := run_bind_eq_some.mp hr
  cases hr
  obtain ⟨rfl, hw1⟩ := books_newOpenFile hnew
  have hw4 : books w4 = (books w).opened directorySector :=
    (((sameBooks_fetchFrom _ _ _ _ _ hfetch).books_eq.trans
      (sameBooks_newDirectory _ _ _ _ hdir).books_eq).trans
        (sameBooks_fetchTableSize _ _ _ _ hsize).books_eq).trans hw1
  have hbooks : books { w4 with directoryFile := (books w).next, directorySize := n } =
      { books w4 with directoryFile := (books w).next } := rfl
  show (books { w4 with directoryFile := (books w).next, directorySize := n }).Exact _
  rw [hbooks, hw4]
  exact ((h.opened directorySector).setDirectory _).perm (List.Perm.swap _ _ _)

/-- `ChangeDirRootPath` is to enter the root and to walk on. -/
theorem run_changeDirRootPath {onlyChange success : Bool}
    (hr : (changeDirRootPath me name onlyChange).run w = some (success, w')) :
    ∃ dir w1 walked w2, Session.enterRoot.run w = some (dir, w1) ∧
      (walkPath me (separateDir name.tail).dropLast dir).run w1 = some (walked, w2) ∧
      success = walked ∧
      (walked = true → (dropBackup me w.directoryFile onlyChange).run w2 = some ((), w')) ∧
      (walked = false → w' = { w2 with
        directoryFile := w.directoryFile, directorySize := w.directorySize }) := by
  obtain ⟨_, w1, hassert, hr⟩ := run_bind_eq_some.mp hr
  rw [(run_assert_eq_some hassert).2] at hr
  obtain ⟨_, _, hget, hr⟩ := run_bind_eq_some.mp hr
  cases hget
  obtain ⟨root, w1, hnew, hr⟩ := run_bind_eq_some.mp hr
  obtain ⟨n, w2, hsize, hr⟩ := run_bind_eq_some.mp hr
  obtain ⟨dir1, w3, hdir, hr⟩ := run_bind_eq_some.mp hr
  obtain ⟨dir2, w4, hfetch, hr⟩ := run_bind_eq_some.mp hr
  obtain ⟨_, w5, hset, hr⟩ := run_bind_eq_some.mp hr
  obtain ⟨walked, w6, hwalk, hr⟩ := run_bind_eq_some.mp hr
  have henter : Session.enterRoot.run w = some (dir2, w5) := by
    refine run_bind_eq_some.mpr ⟨root, w1, hnew, run_bind_eq_some.mpr ⟨n, w2, hsize, ?_⟩⟩
    refine run_bind_eq_some.mpr ⟨dir1, w3, hdir, run_bind_eq_some.mpr ⟨dir2, w4, hfetch, ?_⟩⟩
    exact run_bind_eq_some.mpr ⟨(), w5, hset, rfl⟩
  refine ⟨dir2, w5, walked, w6, henter, hwalk, ?_⟩
  cases walked with
  | true =>
    obtain ⟨_, w7, hdrop, hr⟩ := run_bind_eq_some.mp hr
    cases hr
    exact ⟨rfl, fun _ => hdrop, fun hwalked => by cases hwalked⟩
  | false =>
    cases hr
    exact ⟨rfl, (fun hwalked => by cases hwalked), fun _ => rfl⟩

/-- An absolute path that exists is reached, and the directory before the call is still in use if the
call is not only to change it. -/
theorem balanced_changeDirRootPath {onlyChange success : Bool} (h : Balanced w l)
    (hpath : Session.PathExists me name w)
    (hr : (changeDirRootPath me name onlyChange).run w = some (success, w')) :
    success = true ∧ Balanced w' (if onlyChange then l else w.directoryFile :: l) := by
  obtain ⟨dir, w1, walked, w2, henter, hwalk, rfl, hdrop, -⟩ := run_changeDirRootPath hr
  obtain ⟨hw2, hwalked⟩ := balanced_walkPath _ (balanced_enterRoot h henter) hwalk
  have hsuccess := hwalked (hpath dir w1 henter)
  refine ⟨hsuccess, ?_⟩
  have hdrop := hdrop hsuccess
  cases onlyChange with
  | false =>
    cases hdrop
    exact hw2
  | true =>
    obtain ⟨s, hs, hw'⟩ := books_deleteOpenFile hdrop
    rw [Balanced, hw']
    refine Books.Exact.closed (hw2.perm ?_) hs
    exact ((List.Perm.swap _ _ _).cons _).trans (List.Perm.swap _ _ _)

theorem balanced_changeDirRelativePath {success : Bool} (h : Balanced w l)
    (hr : (changeDirRelativePath me name).run w = some (success, w')) : Balanced w' l := by
  obtain ⟨dir, w1, hfetch, hr⟩ := run_bind_eq_some.mp hr
  have h1 := h.same (sameBooks_fetchDirectory _ _ _ hfetch)
  split at hr
  · obtain ⟨opened, w2, hopen, hr⟩ := run_bind_eq_some.mp hr
    obtain ⟨f, w3, hsome, hr⟩ := run_bind_eq_some.mp hr
    obtain ⟨hopened, hw3⟩ := run_ofOption_eq_some hsome
    rw [hw3] at hr
    obtain ⟨_, _, hget, hr⟩ := run_bind_eq_some.mp hr
    cases hget
    obtain ⟨_, w4, hswitch, hr⟩ := run_bind_eq_some.mp hr
    cases hr
    exact balanced_switchDirectory (exact_openFile h1 hopen hopened).1 hswitch
  · cases hr
    exact h1

theorem head?_directoryPart (hname : name.head? = some slash) :
    (Session.directoryPart name).head? = some slash := by
  rw [Session.directoryPart]
  split
  · rfl
  · rename_i hlast
    rw [List.head?_take, if_neg hlast, hname]

/-- The objects that are in use while a path is resolved. -/
def withBackup (backup : Option FileId) (l : List FileId) : List FileId := backup.toList ++ l

/-- The path of a file leads to its directory. -/
theorem balanced_resolvePath {path : Option (Option FileId × Name)} (h : Balanced w l)
    (hpath : Session.DirectoryExists me name w)
    (hr : (resolvePath me name).run w = some (path, w')) :
    match path with
    | none => Balanced w' l
    | some (backup, _) => Balanced w' (withBackup backup l) ∧
        (backup.isSome → name.head? = some slash) := by
  rw [resolvePath] at hr
  split at hr
  · rename_i habs
    split at hr
    · cases hr
      exact h
    · rename_i hne
      obtain ⟨_, w1, hassert, hr⟩ := run_bind_eq_some.mp hr
      rw [(run_assert_eq_some hassert).2] at hr
      obtain ⟨_, _, hget, hr⟩ := run_bind_eq_some.mp hr
      cases hget
      obtain ⟨success, w2, hchange, hr⟩ := run_bind_eq_some.mp hr
      change (changeDir me (Session.directoryPart name) false).run w = some (success, w2) at hchange
      rw [changeDir, if_pos (head?_directoryPart habs)] at hchange
      obtain ⟨rfl, hw2⟩ := balanced_changeDirRootPath h (hpath habs hne) hchange
      cases hr
      exact ⟨hw2, fun _ => habs⟩
  · cases hr
    exact ⟨h, fun hsome => by cases hsome⟩

/-- The directory before the call is current again. -/
theorem balanced_restoreDirectory {backup : Option FileId} (h : Balanced w (withBackup backup l))
    (hr : (restoreDirectory me backup).run w = some ((), w')) : Balanced w' l := by
  cases backup with
  | none =>
    cases hr
    exact h
  | some f =>
    obtain ⟨_, _, hget, hr⟩ := run_bind_eq_some.mp hr
    cases hget
    exact balanced_switchDirectory h hr

end Calls

/-! ## Creating and removing -/

section Create

variable {me : Tid} {name : Name} {w w' : World} {l : List FileId}

/-- The count of a sector is in the books. -/
theorem SameBooks.count_eq (h : SameBooks w w') (s : Nat) : (w'.table s).count = (w.table s).count :=
  congrFun (congrArg Books.counts h.books_eq) s

/-- The count of a new header that nobody has open is reset. -/
theorem balanced_resetEntry {made : Bool} {s : Nat} (h : Balanced w l) (hs : (w.table s).count = 0)
    (hr : (resetEntry s made).run w = some ((), w')) : Balanced w' l := by
  have hw' := (books_resetEntry hr).trans (Books.reset_of_counts_eq_zero hs)
  exact h.same ⟨hw'⟩

theorem balanced_createFile {success : Bool} (h : Balanced w l)
    (hnew : ∀ s m, Session.NewSector w s m → (w.table s).count = 0)
    (hr : (createFile me name).run w = some (success, w')) : Balanced w' l := by
  obtain ⟨dir, w1, hdir, hr⟩ := run_bind_eq_some.mp hr
  have hw1 := sameBooks_fetchDirectory _ _ _ hdir
  split at hr
  · cases hr
    exact h.same hw1
  obtain ⟨m, w2, hmap, hr⟩ := run_bind_eq_some.mp hr
  have hw2 : SameBooks w w2 := IsTrans.trans _ _ _ hw1 (sameBooks_fetchFreeMap _ _ _ hmap)
  split at hr
  · cases hr
    exact h.same hw2
  rename_i s freeMap hfind
  obtain ⟨⟨added, dir'⟩, w3, hadd, hr⟩ := run_bind_eq_some.mp hr
  have hw3 : SameBooks w w3 := IsTrans.trans _ _ _ hw2 (sameBooks_add _ _ _ _ _ _ hadd)
  dsimp only at hr
  split at hr
  · obtain ⟨_, w4, hflush, hr⟩ := run_bind_eq_some.mp hr
    cases hr
    obtain ⟨heap, w5, hmalloc, hflush⟩ := run_bind_eq_some.mp hflush
    obtain ⟨_, w6, hheader, hflush⟩ := run_bind_eq_some.mp hflush
    obtain ⟨_, w7, hback, hflush⟩ := run_bind_eq_some.mp hflush
    obtain ⟨_, w8, hdirectory, hreset⟩ := run_bind_eq_some.mp hflush
    have hw6 : SameBooks w w6 := IsTrans.trans _ _ _ hw3
      (IsTrans.trans _ _ _ (sameBooks_malloc _ _ _ _ hmalloc) (sameBooks_writeSector _ _ _ _ _ hheader))
    have hw8 : SameBooks w w8 := IsTrans.trans _ _ _ hw6 (IsTrans.trans _ _ _
      (sameBooks_writeBackFreeMap _ _ _ _ hback) (sameBooks_writeBackDirectory _ _ _ _ hdirectory))
    refine balanced_resetEntry (h.same hw8) ?_ hreset
    rw [hw8.count_eq]
    exact hnew s freeMap ⟨dir, w1, m, w2, hdir, hmap, hfind⟩
  · cases hr
    exact h.same hw3

/-- The sectors of a new directory are found if there are as many. -/
theorem allocate_directory {heap : ByteMemory} {m m' : Bitmap} {hdr : RawFileHeader} {success : Bool}
    (hspace : divRoundUp directoryFileSize sectorSize ≤ m.countClear)
    (hr : (RawFileHeader.empty heap).allocate m directoryFileSize = some (success, hdr, m')) :
    success = true := by
  have hsectors : divRoundUp (u32 (0 + directoryFileSize)) sectorSize =
      divRoundUp directoryFileSize sectorSize := by decide
  have hnew : u32 (divRoundUp directoryFileSize sectorSize + 2 ^ 32 - 0) =
      divRoundUp directoryFileSize sectorSize := by decide
  simp only [RawFileHeader.allocate, RawFileHeader.empty, hsectors, hnew] at hr
  rw [if_neg (fun hlt => Nat.lt_irrefl _ (Nat.lt_of_lt_of_le hlt.2 hspace)), Option.map_eq_some_iff] at hr
  obtain ⟨r, _, hr⟩ := hr
  cases hr
  rfl

/-- The object of the new directory is forgotten with its count. -/
theorem balanced_flushNewDirectory {s : Nat} {hdr : RawFileHeader} {m : Bitmap} {dir : Directory}
    (h : Balanced w l) (hs : (w.table s).count = 0)
    (hr : (flushNewDirectory me s hdr m dir).run w = some ((), w')) : Balanced w' l := by
  obtain ⟨_, w1, hheader, hr⟩ := run_bind_eq_some.mp hr
  obtain ⟨_, w2, hback, hr⟩ := run_bind_eq_some.mp hr
  obtain ⟨newDir, w3, hdir, hr⟩ := run_bind_eq_some.mp hr
  obtain ⟨f, w4, hnew, hr⟩ := run_bind_eq_some.mp hr
  obtain ⟨_, w5, hfirst, hr⟩ := run_bind_eq_some.mp hr
  obtain ⟨_, w6, hdirectory, hreset⟩ := run_bind_eq_some.mp hr
  have hw3 : SameBooks w w3 := IsTrans.trans _ _ _ (sameBooks_writeSector _ _ _ _ _ hheader)
    (IsTrans.trans _ _ _ (sameBooks_writeBackFreeMap _ _ _ _ hback) (sameBooks_newDirectory _ _ _ _ hdir))
  have hw6 : books w6 = books w4 := (sameBooks_writeBackDirectory _ _ _ _ hdirectory).books_eq.trans
    (sameBooks_writeBackFirst _ _ _ _ _ hfirst).books_eq
  have hw' : books w' = ((books w).opened s).reset s := by
    rw [books_resetEntry hreset, hw6, (books_newOpenFile hnew).2, hw3.books_eq]
  rw [Balanced, hw']
  exact Books.Exact.opened_reset h hs

/-- `CreateDir` in the current directory; it returns at once only without enough space. -/
theorem balanced_createDirectory {result : Option Bool} (h : Balanced w l)
    (hnew : ∀ s m, Session.NewSector w s m → (w.table s).count = 0)
    (hr : (createDirectory me name).run w = some (result, w')) :
    Balanced w' l ∧ ((∀ s m, Session.NewSector w s m →
      divRoundUp directoryFileSize sectorSize ≤ m.countClear) → result.isSome) := by
  obtain ⟨dir, w1, hdir, hr⟩ := run_bind_eq_some.mp hr
  have hw1 := sameBooks_fetchDirectory _ _ _ hdir
  split at hr
  · cases hr
    exact ⟨h.same hw1, fun _ => rfl⟩
  obtain ⟨m, w2, hmap, hr⟩ := run_bind_eq_some.mp hr
  have hw2 : SameBooks w w2 := IsTrans.trans _ _ _ hw1 (sameBooks_fetchFreeMap _ _ _ hmap)
  dsimp only at hr
  obtain ⟨⟨added, dir'⟩, w3, hadd, hr⟩ := run_bind_eq_some.mp hr
  have hw3 : SameBooks w w3 := IsTrans.trans _ _ _ hw2 (sameBooks_add _ _ _ _ _ _ hadd)
  dsimp only at hr
  split at hr
  · rename_i s freeMap hfind
    have hsector : Session.NewSector w s freeMap := ⟨dir, w1, m, w2, hdir, hmap, hfind⟩
    obtain ⟨heap, w4, hmalloc, hr⟩ := run_bind_eq_some.mp hr
    have hw4 : SameBooks w w4 := IsTrans.trans _ _ _ hw3 (sameBooks_malloc _ _ _ _ hmalloc)
    obtain ⟨⟨success, hdr, freeMap'⟩, w5, halloc, hr⟩ := run_bind_eq_some.mp hr
    obtain ⟨halloc', hw5⟩ := run_ofOption_eq_some halloc
    rw [hw5] at hr
    change Resumption.run (if success = true then _ else _) w4 = _ at hr
    split at hr
    · obtain ⟨_, w6, hflush, hr⟩ := run_bind_eq_some.mp hr
      cases hr
      refine ⟨balanced_flushNewDirectory (h.same hw4) ?_ hflush, fun _ => rfl⟩
      rw [hw4.count_eq]
      exact hnew s freeMap hsector
    · rename_i hfail
      cases hr
      exact ⟨h.same hw4, fun hspace => absurd (allocate_directory (hspace s freeMap hsector) halloc') hfail⟩
  · cases hr
    exact ⟨h.same hw3, fun _ => rfl⟩

theorem balanced_removeFile {backup : Option FileId} {success : Bool} (h : Balanced w (withBackup backup l))
    (hr : (removeFile me backup name).run w = some (success, w')) : Balanced w' l := by
  obtain ⟨dir, w1, hdir, hr⟩ := run_bind_eq_some.mp hr
  have hw1 := sameBooks_fetchDirectory _ _ _ hdir
  dsimp only at hr
  split at hr
  · obtain ⟨_, w2, hrestore, hr⟩ := run_bind_eq_some.mp hr
    cases hr
    exact balanced_restoreDirectory (h.same hw1) hrestore
  obtain ⟨e, w2, hentry, hr⟩ := run_bind_eq_some.mp hr
  obtain ⟨_, w3, hacquire, hr⟩ := run_bind_eq_some.mp hr
  obtain ⟨e', w4, hentry', hr⟩ := run_bind_eq_some.mp hr
  have hw3 : SameBooks w w3 := IsTrans.trans _ _ _ hw1 (IsTrans.trans _ _ _
    (sameBooks_getEntry _ _ _ _ hentry) (sameBooks_acquireRemove _ _ _ _ hacquire))
  have hw4 : SameBooks w w4 := IsTrans.trans _ _ _ hw3 (sameBooks_getEntry _ _ _ _ hentry')
  split at hr
  · obtain ⟨_, w5, hrestore, hr⟩ := run_bind_eq_some.mp hr
    have hw5 := balanced_restoreDirectory (h.same hw4) hrestore
    obtain ⟨e'', w6, hentry'', hr⟩ := run_bind_eq_some.mp hr
    obtain ⟨_, w7, hrelease, hr⟩ := run_bind_eq_some.mp hr
    cases hr
    exact hw5.same (IsTrans.trans _ _ _ (sameBooks_getEntry _ _ _ _ hentry'')
      (sameBooks_release _ _ _ _ _ hrelease))
  · obtain ⟨_, w5, hremove, hr⟩ := run_bind_eq_some.mp hr
    obtain ⟨_, w6, hrestore, hr⟩ := run_bind_eq_some.mp hr
    cases hr
    exact balanced_restoreDirectory (h.same (IsTrans.trans _ _ _ hw4
      (sameBooks_removeSector _ _ _ _ _ hremove))) hrestore

end Create

/-! ## Sessions -/

namespace Session

variable {me : Tid} {name : Name} {w w' : World} {l : List FileId}

theorem balanced_create {success : Bool} (h : Balanced w l)
    (hpath : ∀ w1, (acquire me (some filesysCreateLock)).run w = some ((), w1) →
      DirectoryExists me name w1)
    (hnew : ∀ w1 s m, ResolvedTo me name w w1 → NewSector w1 s m → (w1.table s).count = 0)
    (hr : (create me name).run w = some (success, w')) : Balanced w' l := by
  obtain ⟨_, w1, hacquire, hr⟩ := run_bind_eq_some.mp hr
  have hw1 := h.same (sameBooks_acquire _ _ _ _ _ hacquire)
  obtain ⟨path, w2, hresolve, hr⟩ := run_bind_eq_some.mp hr
  have hw2 := balanced_resolvePath hw1 (hpath w1 hacquire) hresolve
  match path with
  | none =>
    obtain ⟨_, w3, hrelease, hr⟩ := run_bind_eq_some.mp hr
    cases hr
    exact hw2.same (sameBooks_release _ _ _ _ _ hrelease)
  | some (backup, last) =>
    obtain ⟨_, w3, hcreate, hr⟩ := run_bind_eq_some.mp hr
    obtain ⟨_, w4, hrestore, hr⟩ := run_bind_eq_some.mp hr
    obtain ⟨_, w5, hrelease, hr⟩ := run_bind_eq_some.mp hr
    cases hr
    have hw3 := balanced_createFile hw2.1
      (fun s m => hnew w2 s m ⟨w1, (backup, last), hacquire, hresolve⟩) hcreate
    exact (balanced_restoreDirectory hw3 hrestore).same (sameBooks_release _ _ _ _ _ hrelease)

theorem balanced_createDir {success : Bool} (h : Balanced w l)
    (hpath : ∀ w1, (acquire me (some filesysCreateLock)).run w = some ((), w1) →
      DirectoryExists me name w1)
    (hnew : ∀ w1 s m, ResolvedTo me name w w1 → NewSector w1 s m → (w1.table s).count = 0)
    (hspace : name.head? = some slash → ∀ w1 s m, ResolvedTo me name w w1 → NewSector w1 s m →
      divRoundUp directoryFileSize sectorSize ≤ m.countClear)
    (hr : (createDir me name).run w = some (success, w')) : Balanced w' l := by
  obtain ⟨_, w1, hacquire, hr⟩ := run_bind_eq_some.mp hr
  have hw1 := h.same (sameBooks_acquire _ _ _ _ _ hacquire)
  obtain ⟨path, w2, hresolve, hr⟩ := run_bind_eq_some.mp hr
  have hw2 := balanced_resolvePath hw1 (hpath w1 hacquire) hresolve
  match path with
  | none =>
    obtain ⟨_, w3, hrelease, hr⟩ := run_bind_eq_some.mp hr
    cases hr
    exact hw2.same (sameBooks_release _ _ _ _ _ hrelease)
  | some (backup, last) =>
    have hresolved : ResolvedTo me name w w2 := ⟨w1, (backup, last), hacquire, hresolve⟩
    obtain ⟨result, w3, hcreate, hr⟩ := run_bind_eq_some.mp hr
    obtain ⟨hw3, hsome⟩ := balanced_createDirectory hw2.1 (fun s m => hnew w2 s m hresolved) hcreate
    match result with
    | none =>
      obtain ⟨_, w4, hrelease, hr⟩ := run_bind_eq_some.mp hr
      cases hr
      -- without space, the directory that was current before must not have changed
      cases backup with
      | none => exact hw3.same (sameBooks_release _ _ _ _ _ hrelease)
      | some f =>
        have hresult := hsome fun s m => hspace (hw2.2 rfl) w2 s m hresolved
        cases hresult
    | some success =>
      obtain ⟨_, w4, hrestore, hr⟩ := run_bind_eq_some.mp hr
      obtain ⟨_, w5, hrelease, hr⟩ := run_bind_eq_some.mp hr
      cases hr
      exact (balanced_restoreDirectory hw3 hrestore).same (sameBooks_release _ _ _ _ _ hrelease)

theorem balanced_changeDir {success : Bool} (h : Balanced w l)
    (hpath : name.head? = some slash → PathExists me name w)
    (hr : (changeDir me name true).run w = some (success, w')) : Balanced w' l := by
  rw [changeDir] at hr
  split at hr
  · rename_i habs
    exact (balanced_changeDirRootPath h (hpath habs) hr).2
  · exact balanced_changeDirRelativePath h hr

theorem balanced_remove {success : Bool} (h : Balanced w l) (hpath : DirectoryExists me name w)
    (hr : (remove me name).run w = some (success, w')) : Balanced w' l := by
  obtain ⟨path, w1, hresolve, hr⟩ := run_bind_eq_some.mp hr
  have hw1 := balanced_resolvePath h hpath hresolve
  match path with
  | none =>
    cases hr
    exact hw1
  | some (backup, last) => exact balanced_removeFile hw1.1 hr

/-- A call of the session that leaves the handles alone. -/
theorem call_eq_some {α : Type} {m : Fs α} {s s' : Session} (hr : s.call m = some s') :
    ∃ a w, m.run s.world = some (a, w) ∧ s' = { s with world := w } := by
  obtain ⟨⟨a, w⟩, hm, hr⟩ := Option.bind_eq_some_iff.mp hr
  cases hr
  exact ⟨a, w, hm, rfl⟩

/-- One call. -/
theorem balanced_step {s s' : Session} {c : FsCall} (h : Balanced s.world s.handles)
    (hc : KeepsBooks me s c) (hr : s.step me c = some s') : Balanced s'.world s'.handles := by
  cases c with
  | create name =>
    obtain ⟨a, w, hm, rfl⟩ := call_eq_some hr
    exact balanced_create h hc.1 hc.2 hm
  | createDir name =>
    obtain ⟨a, w, hm, rfl⟩ := call_eq_some hr
    exact balanced_createDir h hc.1 hc.2.1 hc.2.2 hm
  | «open» name =>
    obtain ⟨⟨opened, w⟩, hm, hr⟩ := Option.bind_eq_some_iff.mp hr
    cases hr
    cases opened with
    | none =>
      rcases books_openFile hm with ⟨_, hw⟩ | ⟨x, hsome, _⟩
      · exact h.same ⟨hw⟩
      · cases hsome
    | some f => exact (exact_openFile h hm rfl).1
  | close f =>
    obtain ⟨_, hf, hr⟩ := Option.bind_eq_some_iff.mp hr
    obtain ⟨⟨_, w⟩, hm, hr⟩ := Option.bind_eq_some_iff.mp hr
    cases hr
    have hf : f ∈ s.handles := by
      by_contra hne
      rw [guard, if_neg hne] at hf
      cases hf
    obtain ⟨x, hx, hw⟩ := books_deleteOpenFile hm
    show (books w).Exact _
    rw [hw]
    refine Books.Exact.closed (Books.Exact.perm h ?_) hx
    exact (((List.perm_cons_erase hf).cons _).cons _).trans
      (((List.Perm.swap _ _ _).cons _).trans (List.Perm.swap _ _ _))
  | changeDir name =>
    obtain ⟨a, w, hm, rfl⟩ := call_eq_some hr
    exact balanced_changeDir h hc hm
  | remove name =>
    obtain ⟨a, w, hm, rfl⟩ := call_eq_some hr
    exact balanced_remove h hc hm

/-- Before the file system is made, nothing is open. -/
theorem exact_initial (disk : Nat → Sector) (heap : HeapUse → Nat → ByteMemory) :
    (books (World.initial disk heap)).Exact [] :=
  ⟨fun _ => rfl, List.nodup_nil, fun _ hf => absurd hf List.not_mem_nil,
    fun _ hf => absurd hf List.not_mem_nil⟩

/-- The constructors open the free map and the root directory. -/
theorem balanced_systemFiles {m : Fs Unit} {w1 w2 w3 : World} {f g : FileId}
    (h : (books w).Exact []) (hmap : (newOpenFile freeMapSector).run w = some (f, w1))
    (hdir : (newOpenFile directorySector).run { w1 with freeMapFile := f } = some (g, w2))
    (hm : m.Moves SameBooks) (hr : m.run { w2 with directoryFile := g } = some ((), w3)) :
    Balanced w3 [] := by
  obtain ⟨rfl, hw1⟩ := books_newOpenFile hmap
  obtain ⟨rfl, hw2⟩ := books_newOpenFile hdir
  have hfirst : (books w1).Exact [(books w).next] := by
    rw [hw1]
    exact h.opened freeMapSector
  have hfirst' : (books { w1 with freeMapFile := (books w).next }).Exact [(books w).next] :=
    ⟨hfirst.counts_eq, hfirst.nodup, hfirst.exists_sector, hfirst.lt_next⟩
  have hsecond := (hfirst'.opened directorySector).perm (List.Perm.swap _ _ _)
  rw [← hw2] at hsecond
  have hfreeMap : w2.freeMapFile = (books w).next := congrArg Books.freeMapFile hw2
  have hbalanced : Balanced { w2 with directoryFile := (books w1).next } [] := by
    refine Books.Exact.setDirectory (b := books w2) ?_ _
    show (books w2).Exact [w2.freeMapFile, (books w1).next]
    rw [hfreeMap]
    exact hsecond
  exact hbalanced.same (hm _ _ _ hr)

theorem balanced_format {disk : Nat → Sector} {heap : HeapUse → Nat → ByteMemory}
    (hr : format.run (World.initial disk heap) = some ((), w)) : Balanced w [] := by
  dsimp only [format] at hr
  obtain ⟨dir, w1, hnew, hr⟩ := run_bind_eq_some.mp hr
  obtain ⟨mapHeap, w2, hmalloc, hr⟩ := run_bind_eq_some.mp hr
  obtain ⟨dirHeap, w3, hmalloc', hr⟩ := run_bind_eq_some.mp hr
  obtain ⟨⟨mapH, m1⟩, w4, halloc, hr⟩ := run_bind_eq_some.mp hr
  obtain ⟨⟨dirH, m2⟩, w5, halloc', hr⟩ := run_bind_eq_some.mp hr
  obtain ⟨_, w6, hwrite, hr⟩ := run_bind_eq_some.mp hr
  obtain ⟨_, w7, hwrite', hr⟩ := run_bind_eq_some.mp hr
  have hw3 : SameBooks (World.initial disk heap) w3 := IsTrans.trans _ _ _
    (sameBooks_newDirectory _ _ _ _ hnew)
    (IsTrans.trans _ _ _ (sameBooks_malloc _ _ _ _ hmalloc) (sameBooks_malloc _ _ _ _ hmalloc'))
  have hw5 : SameBooks w3 w5 := IsTrans.trans _ _ _ (Moves.ofOption _ _ _ _ halloc)
    (Moves.ofOption _ _ _ _ halloc')
  have hw7 : SameBooks w5 w7 := IsTrans.trans _ _ _ (sameBooks_writeSector _ _ _ _ _ hwrite)
    (sameBooks_writeSector _ _ _ _ _ hwrite')
  have hexact : (books w7).Exact [] := by
    rw [hw7.books_eq, hw5.books_eq, hw3.books_eq]
    exact exact_initial disk heap
  obtain ⟨f, w8, hmap, hr⟩ := run_bind_eq_some.mp hr
  obtain ⟨_, _, hset, hr⟩ := run_bind_eq_some.mp hr
  cases hset
  obtain ⟨g, w9, hdir, hr⟩ := run_bind_eq_some.mp hr
  obtain ⟨_, _, hset, hr⟩ := run_bind_eq_some.mp hr
  cases hset
  refine balanced_systemFiles hexact hmap hdir ?_ hr
  exact (sameBooks_writeBackFreeMap _).bind fun _ => (sameBooks_writeBackFirst _ _).bind fun _ =>
    (sameBooks_read _ _ _).bind fun _ => Moves.modifyState fun _ => ⟨rfl⟩

theorem balanced_mount {disk : Nat → Sector} {heap : HeapUse → Nat → ByteMemory}
    (hr : mount.run (World.initial disk heap) = some ((), w)) : Balanced w [] := by
  obtain ⟨f, w1, hmap, hr⟩ := run_bind_eq_some.mp hr
  obtain ⟨_, _, hset, hr⟩ := run_bind_eq_some.mp hr
  cases hset
  obtain ⟨g, w2, hdir, hr⟩ := run_bind_eq_some.mp hr
  obtain ⟨_, _, hset, hr⟩ := run_bind_eq_some.mp hr
  cases hset
  refine balanced_systemFiles (exact_initial disk heap) hmap hdir ?_ hr
  exact (sameBooks_fetchTableSize _).bind fun _ => Moves.modifyState fun _ => ⟨rfl⟩

theorem Fresh.balanced {s : Session} (h : s.Fresh) : Balanced s.world s.handles := by
  obtain ⟨disk, heap, start, hstart, hr, hhandles⟩ := h
  rw [hhandles]
  rcases hstart with rfl | rfl
  · exact balanced_format hr
  · exact balanced_mount hr

/-- In every session from a fresh start whose calls keep the books, the count of every sector is the
number of its objects in use. -/
theorem counts_exact {s0 s : Session} {calls : List (Tid × FsCall)} (h0 : s0.Fresh)
    (hcalls : AllSteps stepBy KeepsBooksBy s0 calls) (hr : runs stepBy s0 calls = some s) :
    s.CountsExact := by
  have hbalanced : Balanced s.world s.handles :=
    runs_inv (I := fun s => Balanced s.world s.handles)
      (fun _ _ _ h hc hstep => balanced_step h hc hstep) h0.balanced hcalls hr
  exact hbalanced.counts_eq

/-! ## A new disk -/

/-- A disk of zeros. -/
def blankWorld : World := World.initial (fun _ => Sector.ofBytes []) fun _ _ _ => 0

/-- The count of the sector that `Create` would give to a new file. -/
def newSectorCount : Fs (Option Nat) :=
  acquire 0 (some filesysCreateLock) >>= fun _ => getState >>= fun w =>
    fetchDirectory >>= fun _ => fetchFreeMap >>= fun freeMap =>
      pure (freeMap.find.1.map fun s => (w.table s).count)

/-- The three uses of the formatted disk below, computed together. -/
theorem format_runs :
    (format.run blankWorld).map (fun r => ((newSectorCount.run r.2).map Prod.fst,
      (runs stepBy ⟨r.2, []⟩ [(0, .create [97]), (0, .open [97])]).map handles,
      (runs stepBy ⟨r.2, []⟩ [(0, .changeDir [slash, 120])]).map
        (fun s => ((s.world.table 1).count,
          s.inUse.countP fun f => (s.world.files f).map OpenFile.sector = some 1)))) =
      some (some (some 0), some [2], some (2, 1)) := by
  -- clearing the bits of the new free map one by one would take most of the time
  unfold format newSectorCount fetchFreeMap
  rw [Bitmap.new_zero]
  decide +kernel

theorem isSome_format : (format.run blankWorld).isSome := by
  obtain ⟨r, hr, -⟩ := Option.map_eq_some_iff.mp format_runs
  rw [hr]
  rfl

/-- The session after formatting. -/
def formatted : Session where
  world := ((format.run blankWorld).get isSome_format).2
  handles := []

theorem formatted_fresh : formatted.Fresh := by
  refine ⟨fun _ => Sector.ofBytes [], fun _ _ _ => 0, format, Or.inl rfl, ?_, rfl⟩
  obtain ⟨⟨_, w⟩, hw⟩ := Option.isSome_iff_exists.mp isSome_format
  simp only [formatted, hw, Option.get_some]
  exact hw

theorem formatted_runs :
    (newSectorCount.run formatted.world).map Prod.fst = some (some 0) ∧
    (runs stepBy formatted [(0, .create [97]), (0, .open [97])]).map handles = some [2] ∧
    (runs stepBy formatted [(0, .changeDir [slash, 120])]).map
      (fun s => ((s.world.table 1).count,
        s.inUse.countP fun f => (s.world.files f).map OpenFile.sector = some 1)) = some (2, 1) := by
  obtain ⟨⟨_, w⟩, hw⟩ := Option.isSome_iff_exists.mp isSome_format
  have hruns := format_runs
  simp only [hw, Option.map_some, Option.some.injEq, Prod.mk.injEq] at hruns
  simp only [formatted, hw, Option.get_some]
  exact hruns

/-- Nobody has the first free sector open. -/
theorem formatted_newSector : ∀ w s m, ResolvedTo 0 [97] formatted.world w → NewSector w s m →
    (w.table s).count = 0 := by
  rintro w s m ⟨w1, path, hacquire, hresolve⟩ ⟨dir, w2, freeMap, w3, hdir, hmap, hfind⟩
  have heval := formatted_runs.1
  cases hresolve
  simp only [newSectorCount, run_bind, hacquire, hdir, hmap, Option.bind_some, run_getState, run_pure, hfind,
    Option.map_some] at heval
  exact Option.some.inj (Option.some.inj heval)

/-- A file is made and opened. -/
theorem counts_exact_open : ∃ s, runs stepBy formatted [(0, .create [97]), (0, .open [97])] = some s ∧
    s.handles = [2] ∧ s.CountsExact := by
  obtain ⟨s, hs, hhandles⟩ := Option.map_eq_some_iff.mp formatted_runs.2.1
  refine ⟨s, hs, hhandles, counts_exact formatted_fresh ?_ hs⟩
  exact ⟨⟨fun _ _ habs => (by cases habs), formatted_newSector⟩, fun _ _ => ⟨True.intro, fun _ _ => True.intro⟩⟩

/-- A path over a directory that does not exist: the object of the root is never deleted. -/
theorem failed_walk_leaves_object : ∃ s0 s : Session, s0.Fresh ∧
    runs stepBy s0 [(0, .changeDir [slash, 120])] = some s ∧ ¬ s.CountsExact := by
  obtain ⟨s, hs, hcounts⟩ := Option.map_eq_some_iff.mp formatted_runs.2.2
  refine ⟨formatted, s, formatted_fresh, hs, fun hexact => ?_⟩
  obtain ⟨hcount, huse⟩ := Prod.mk.inj hcounts
  have hone := hexact 1
  rw [hcount, huse] at hone
  cases hone

end Session

end Nachos.Filesys
