import Nachos.Filesys.Paths
import Nachos.Filesys.Proofs.ReadProofs
import Nachos.Filesys.Proofs.TidyProofs

/-!
# Proofs: the locks of the open-file table

With the locks of the open-file table free, the constructor and the destructor of `OpenFile` return, and the locks
are free again.
-/

namespace Nachos.Filesys

open Foundations Resumption

section FileLocks

variable {w w' : World} {me : Tid} {f : FileId} {s : Nat} {file : OpenFile}

/-! ## Closing -/

/-- No entry gets other locks or is opened, and the locks in use stay as they are. -/
theorem FileLocksOk.mono (h : FileLocksOk w) (hremoving : ∀ s, (w'.table s).removing = (w.table s).removing)
    (hclose : ∀ s, (w'.table s).closeLock = (w.table s).closeLock)
    (hwrite : ∀ s, (w'.table s).writeLock = (w.table s).writeLock)
    (hcount : ∀ s, (w'.table s).count ≠ 0 → (w.table s).count ≠ 0)
    (hlocks : ∀ l, (∃ s, (w.table s).closeLock = some l ∨
      (w'.table s).count ≠ 0 ∧ (w.table s).writeLock = some l) → w'.locks l = w.locks l) : FileLocksOk w' where
  removing s := (hremoving s).trans (h.removing s)
  close s l hl := by
    rw [hclose s] at hl
    rw [hlocks l ⟨s, Or.inl hl⟩]
    exact h.close s l hl
  hasClose s hs := by
    rw [hclose s]
    exact h.hasClose s (hcount s hs)
  write s hs := by
    obtain ⟨l, hl, hfree⟩ := h.write s (hcount s hs)
    exact ⟨l, (hwrite s).trans hl, by rw [hlocks l ⟨s, Or.inr ⟨hs, hl⟩⟩, hfree]⟩
  write_ne_close s s' l hs hl := by
    rw [hclose s']
    exact h.write_ne_close s s' l (hcount s hs) ((hwrite s).symm.trans hl)
  write_inj s s' l hs hs' hl hl' :=
    h.write_inj s s' l (hcount s hs) (hcount s' hs') ((hwrite s).symm.trans hl) ((hwrite s').symm.trans hl')

theorem FileLocksOk.congr (h : FileLocksOk w) (htable : w'.table = w.table) (hlocks : w'.locks = w.locks) :
    FileLocksOk w' := by
  refine h.mono ?_ ?_ ?_ ?_ fun l _ => by rw [hlocks]
  all_goals
    intro s
    rw [htable]
  exact fun hs => hs

/-- The destructor up to the point where it has counted itself out. -/
theorem run_deleteOpenFile_count (hf : w.files f = some file) (hs : file.sector < numSectors)
    (hcount : (w.table file.sector).count ≠ 0) {l : LockId} (hl : (w.table file.sector).closeLock = some l)
    (hfree : w.locks l = some { lockOwner := none }) :
    (deleteOpenFile me f).run w = ((do closeLast file.sector; forgetFile f) : Fs Unit).run { w with
      table := Function.update w.table file.sector { w.table file.sector with
        count := (w.table file.sector).count - 1 } } := by
  have hback : Function.update (Function.update w.locks l (some { lockOwner := some me })) l
      (some { lockOwner := none }) = w.locks := by
    rw [Function.update_idem, ← hfree, Function.update_eq_self]
  rw [deleteOpenFile]
  simp only [run_bind, run_getFile hf, run_getEntry hs, Option.bind_some, hl, run_acquire hfree, World.setLocks]
  rw [if_pos (Nat.pos_of_ne_zero hcount)]
  simp only [run_bind, run_modifyEntry hs, Option.bind_some, hl]
  rw [run_release (Function.update_self ..)]
  simp only [World.setLocks, Option.bind_some, hback]

/-- The end of the destructor: with the last object the write lock goes. -/
theorem FileLocksOk.run_closeLast (h : FileLocksOk w) (hs : s < numSectors) (hcount : (w.table s).count ≠ 0)
    (hw' : w' = { w with table := Function.update w.table s { w.table s with count := (w.table s).count - 1 } }) :
    ∃ locks, (closeLast s).run w' = some ((), { w' with locks := locks }) ∧ FileLocksOk { w' with locks := locks } := by
  have htable : w'.table s = { w.table s with count := (w.table s).count - 1 } := by
    rw [hw']
    exact Function.update_self ..
  have hother : ∀ t, t ≠ s → w'.table t = w.table t := by
    intro t ht
    rw [hw']
    exact Function.update_of_ne ht _ _
  have hsame : ∀ t, (w'.table t).removing = (w.table t).removing ∧ (w'.table t).closeLock = (w.table t).closeLock ∧
      (w'.table t).writeLock = (w.table t).writeLock := by
    intro t
    by_cases ht : t = s
    · rw [ht, htable]
      exact ⟨rfl, rfl, rfl⟩
    · rw [hother t ht]
      exact ⟨rfl, rfl, rfl⟩
  have hcounts : ∀ t, (w'.table t).count ≠ 0 → (w.table t).count ≠ 0 := by
    intro t ht
    by_cases hts : t = s
    · rw [hts]
      exact hcount
    · rw [hother t hts] at ht
      exact ht
  have hlocks : w'.locks = w.locks := by rw [hw']
  by_cases hlast : (w'.table s).count = 0
  · obtain ⟨l, hl, hfree⟩ := h.write s hcount
    have hl' : (w'.table s).writeLock = some l := (hsame s).2.2.trans hl
    have hremoving : (w'.table s).removing = false := (hsame s).1.trans (h.removing s)
    refine ⟨Function.update w'.locks l none, ?_, ?_⟩
    · rw [closeLast, run_bind, run_getEntry hs, Option.bind_some, if_pos hlast]
      simp only [run_bind, notifyRemover, hremoving, Bool.false_eq_true, if_false, run_pure, Option.bind_some,
        run_getEntry hs, hl', deleteLock, run_getState, hlocks, hfree, Option.isSome_some, run_assert, if_true,
        run_modifyState]
    · refine h.mono (fun t => (hsame t).1) (fun t => (hsame t).2.1) (fun t => (hsame t).2.2) hcounts ?_
      rintro l' ⟨t, hclose | ⟨ht, hwrite⟩⟩
      · have hne : l' ≠ l := by
          rintro rfl
          exact h.write_ne_close s t l' hcount hl hclose
        rw [← hlocks]
        exact Function.update_of_ne hne _ _
      · have hne : l' ≠ l := by
          rintro rfl
          have hts := h.write_inj t s l' (hcounts t ht) hcount hwrite hl
          rw [hts] at ht
          exact ht hlast
        rw [← hlocks]
        exact Function.update_of_ne hne _ _
  · refine ⟨w'.locks, ?_, h.mono (fun t => (hsame t).1) (fun t => (hsame t).2.1) (fun t => (hsame t).2.2) hcounts
      fun l _ => by rw [hlocks]⟩
    rw [closeLast, run_bind, run_getEntry hs, Option.bind_some, if_neg hlast]
    rfl

/-- The destructor returns, for an object that the open-file table counts. -/
theorem FileLocksOk.run_deleteOpenFile (h : FileLocksOk w) (me : Tid) (hf : w.files f = some file)
    (hs : file.sector < numSectors) (hcount : (w.table file.sector).count ≠ 0) :
    ∃ w', (deleteOpenFile me f).run w = some ((), w') ∧ FileLocksOk w' := by
  obtain ⟨l, hl⟩ := Option.ne_none_iff_exists'.mp (h.hasClose _ hcount)
  obtain ⟨locks, hlast, hok⟩ := h.run_closeLast hs hcount rfl
  refine ⟨{ w with
      table := Function.update w.table file.sector { w.table file.sector with
        count := (w.table file.sector).count - 1 }
      locks := locks
      files := Function.update w.files f none }, ?_, hok.congr rfl rfl⟩
  rw [run_deleteOpenFile_count hf hs hcount hl (h.close _ l hl), run_bind, hlast]
  rfl

/-! ## Opening -/

theorem fresh_newLock {l : LockId} (hrun : newLock.run w = some (l, w'))
    (hfresh : ∀ l, w.nextLock ≤ l → w.locks l = none) : ∀ l, w'.nextLock ≤ l → w'.locks l = none := by
  cases hrun
  intro x hx
  have hlt : w.nextLock < x := Nat.lt_of_succ_le hx
  show Function.update w.locks w.nextLock _ x = none
  rw [Function.update_of_ne (Nat.ne_of_gt hlt)]
  exact hfresh x (Nat.le_of_lt hlt)

/-- A lock that is there already, or a new one. -/
theorem run_ensureLock_eq (o : Option LockId) (w : World) :
    ∃ l w', (ensureLock o).run w = some (some l, w') ∧ NewLocks w w' ∧
      ((∀ l, w.nextLock ≤ l → w.locks l = none) → ∀ l, w'.nextLock ≤ l → w'.locks l = none) ∧
      (o = some l ∨ w.nextLock ≤ l ∧ l < w'.nextLock ∧ w'.locks l = some { lockOwner := none }) := by
  cases o with
  | some l => exact ⟨l, w, rfl, NewLocks.refl w, fun h => h, Or.inl rfl⟩
  | none =>
    obtain ⟨w', hrun, hnew, hfree, hlt⟩ := run_newLock w
    refine ⟨w.nextLock, w', ?_, hnew, fresh_newLock hrun, Or.inr ⟨Nat.le_refl _, hlt, hfree⟩⟩
    rw [ensureLock, run_bind, hrun]
    rfl

/-- The locks of an entry that is opened first: the write lock `lw` is new, the remove lock `lr` and the close lock
`lc` were there or are new too. -/
structure FirstLocks (s : Nat) (w : World) (lw lr lc : LockId) (w' : World) : Prop where
  table_eq : w'.table = Function.update w.table s { w.table s with
    writeLock := some lw, removeLock := some lr, closeLock := some lc, count := (w.table s).count + 1 }
  nextLock_le : w.nextLock ≤ w'.nextLock
  fresh : (∀ l, w.nextLock ≤ l → w.locks l = none) → ∀ l, w'.nextLock ≤ l → w'.locks l = none
  locks_eq : ∀ l, l < w.nextLock → w'.locks l = w.locks l
  lw_eq : lw = w.nextLock
  lw_free : w'.locks lw = some { lockOwner := none }
  lr_free : (w.table s).removeLock = some lr ∨ w.nextLock < lr ∧ w'.locks lr = some { lockOwner := none }
  lc_free : (w.table s).closeLock = some lc ∨ w.nextLock < lc ∧ w'.locks lc = some { lockOwner := none }

theorem run_newOpenFile_first (hs : s < numSectors) (hcount : (w.table s).count = 0) :
    ∃ lw lr lc w', (newOpenFile s).run w = some (w.nextFile, w') ∧ FirstLocks s w lw lr lc w' := by
  obtain ⟨w1, hrun1, hnew1, hfree1, hlt1⟩ := run_newLock w
  obtain ⟨lr, w2, hrun2, hnew2, hfresh2, hlr⟩ := run_ensureLock_eq (w.table s).removeLock w1
  obtain ⟨lc, w3, hrun3, hnew3, hfresh3, hlc⟩ := run_ensureLock_eq (w.table s).closeLock w2
  have hnew := (hnew1.trans hnew2).trans hnew3
  obtain ⟨locks, nextLock, hw3⟩ := hnew.eq_with
  have hlwfree : w3.locks w.nextLock = some { lockOwner := none } := by
    rw [(hnew2.trans hnew3).locks_eq _ hlt1, hfree1]
  generalize he : ({ w.table s with
      writeLock := some w.nextLock, removeLock := some lr, closeLock := some lc,
      count := (w.table s).count + 1 } : OpenDirEntry) = e
  refine ⟨w.nextLock, lr, lc, { w3 with
      table := Function.update w.table s e
      files := Function.update w.files w.nextFile (some
        { hdr := hdrAt w.disk s, seekPosition := 0, sector := s, currentSector := s })
      nextFile := w.nextFile + 1 }, ?_, ?_, hnew.nextLock_le, ?_, hnew.locks_eq, rfl, hlwfree, ?_, ?_⟩
  · rw [newOpenFile]
    simp only [run_bind, run_readSector hs, Option.bind_some, run_getEntry hs, initLocks, if_pos hcount, hrun1,
      hrun2, hrun3, run_modifyEntry hs, run_getState, run_modifyState, run_pure]
    rw [hw3, ← he]
    simp only [Function.update_self, Function.update_idem]
    rfl
  · rw [he]
  · intro hfresh
    exact hfresh3 (hfresh2 (fresh_newLock hrun1 hfresh))
  · refine hlr.imp id fun hnewlr => ⟨Nat.lt_of_lt_of_le hlt1 hnewlr.1, ?_⟩
    rw [hnew3.locks_eq _ hnewlr.2.1]
    exact hnewlr.2.2
  · refine hlc.imp id fun hnewlc => ⟨?_, hnewlc.2.2⟩
    exact Nat.lt_of_lt_of_le hlt1 (Nat.le_trans hnew2.nextLock_le hnewlc.1)

/-- The locks in order are older than the locks to come. -/
theorem lt_nextLock_of_free (hfresh : ∀ l, w.nextLock ≤ l → w.locks l = none) {l : LockId}
    (hl : w.locks l = some { lockOwner := none }) : l < w.nextLock := by
  by_contra hge
  rw [hfresh l (Nat.le_of_not_lt hge)] at hl
  cases hl

theorem FileLocksOk.first (h : FileLocksOk w) (hfresh : ∀ l, w.nextLock ≤ l → w.locks l = none) {lw lr lc : LockId}
    (hf : FirstLocks s w lw lr lc w') : FileLocksOk w' := by
  have hs : w'.table s = { w.table s with
      writeLock := some lw, removeLock := some lr, closeLock := some lc, count := (w.table s).count + 1 } := by
    rw [hf.table_eq]
    exact Function.update_self ..
  have hother : ∀ t, t ≠ s → w'.table t = w.table t := by
    intro t ht
    rw [hf.table_eq]
    exact Function.update_of_ne ht _ _
  have hold : ∀ l, w.locks l = some { lockOwner := none } →
      l < w.nextLock ∧ w'.locks l = some { lockOwner := none } := by
    intro l hl
    have hlt := lt_nextLock_of_free hfresh hl
    exact ⟨hlt, by rw [hf.locks_eq l hlt, hl]⟩
  have hclose : ∀ t l, (w'.table t).closeLock = some l →
      w'.locks l = some { lockOwner := none } ∧ ((w.table t).closeLock = some l ∨ w.nextLock < l) := by
    intro t l hl
    by_cases ht : t = s
    · rw [ht, hs] at hl
      cases hl
      rcases hf.lc_free with hlc | ⟨hlt, hfree⟩
      · rw [ht]
        exact ⟨(hold lc (h.close s lc hlc)).2, Or.inl hlc⟩
      · exact ⟨hfree, Or.inr hlt⟩
    · rw [hother t ht] at hl
      exact ⟨(hold l (h.close t l hl)).2, Or.inl hl⟩
  have hwrite : ∀ t l, (w'.table t).count ≠ 0 → (w'.table t).writeLock = some l →
      t = s ∧ l = w.nextLock ∨ t ≠ s ∧ (w.table t).count ≠ 0 ∧ (w.table t).writeLock = some l ∧ l < w.nextLock := by
    intro t l hcount hl
    by_cases ht : t = s
    · rw [ht, hs] at hl
      cases hl
      exact Or.inl ⟨ht, hf.lw_eq⟩
    · rw [hother t ht] at hcount hl
      obtain ⟨l', hl', hfree⟩ := h.write t hcount
      cases hl.symm.trans hl'
      exact Or.inr ⟨ht, hcount, hl, (hold l hfree).1⟩
  refine ⟨fun t => ?_, fun t l hl => (hclose t l hl).1, fun t ht => ?_, fun t ht => ?_, ?_, ?_⟩
  · by_cases ht : t = s
    · rw [ht, hs]
      exact h.removing s
    · rw [hother t ht]
      exact h.removing t
  · by_cases hts : t = s
    · rw [hts, hs]
      exact Option.some_ne_none lc
    · rw [hother t hts] at ht ⊢
      exact h.hasClose t ht
  · by_cases hts : t = s
    · exact ⟨lw, by rw [hts, hs], hf.lw_free⟩
    · rw [hother t hts] at ht ⊢
      obtain ⟨l, hl, hfree⟩ := h.write t ht
      exact ⟨l, hl, (hold l hfree).2⟩
  · intro t t' l ht hl hl'
    rcases hwrite t l ht hl with ⟨-, hnew⟩ | ⟨-, hcount, hlw, hlt⟩
    · rcases (hclose t' l hl').2 with holdc | hgt
      · exact Nat.ne_of_lt (hold l (h.close t' l holdc)).1 hnew
      · exact Nat.ne_of_gt hgt hnew
    · rcases (hclose t' l hl').2 with holdc | hgt
      · exact h.write_ne_close t t' l hcount hlw holdc
      · exact Nat.lt_asymm hlt hgt
  · intro t t' l ht ht' hl hl'
    rcases hwrite t l ht hl with ⟨hts, hnew⟩ | ⟨-, hcount, hlw, hlt⟩
    · rcases hwrite t' l ht' hl' with ⟨hts', -⟩ | ⟨-, -, -, hlt'⟩
      · rw [hts, hts']
      · exact absurd hnew (Nat.ne_of_lt hlt')
    · rcases hwrite t' l ht' hl' with ⟨-, hnew'⟩ | ⟨-, hcount', hlw', -⟩
      · exact absurd hnew' (Nat.ne_of_lt hlt)
      · exact h.write_inj t t' l hcount hcount' hlw hlw'

/-- The constructor keeps the locks in order. -/
theorem FileLocksOk.newOpenFile (h : FileLocksOk w) (hfresh : ∀ l, w.nextLock ≤ l → w.locks l = none)
    (hs : s < numSectors) (hrun : (newOpenFile s).run w = some (f, w')) : FileLocksOk w' := by
  by_cases hcount : (w.table s).count = 0
  · obtain ⟨lw, lr, lc, w1, hrun1, hfirst⟩ := run_newOpenFile_first hs hcount
    rw [hrun1] at hrun
    cases hrun
    exact h.first hfresh hfirst
  · -- the entry has its locks, and only counts one more object
    rw [Filesys.newOpenFile] at hrun
    simp only [run_bind, run_readSector hs, Option.bind_some, run_getEntry hs, initLocks, if_neg hcount, run_pure,
      run_modifyEntry hs, run_getState, run_modifyState] at hrun
    cases hrun
    have hentry : ∀ t, Function.update w.table s { w.table s with count := (w.table s).count + 1 } t =
        { w.table t with count := if t = s then (w.table s).count + 1 else (w.table t).count } := by
      intro t
      by_cases ht : t = s
      · rw [ht, Function.update_self, if_pos rfl]
      · rw [Function.update_of_ne ht, if_neg ht]
    refine h.mono ?_ ?_ ?_ ?_ fun _ _ => rfl
    all_goals
      intro t
      simp only [hentry]
    intro ht
    split at ht
    · rename_i hts
      rw [hts]
      exact hcount
    · exact ht

end FileLocks

end Nachos.Filesys
