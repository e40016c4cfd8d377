import Nachos.Filesys.DirectoryTree
import Nachos.Filesys.Proofs.FrameProofs
import Nachos.Filesys.Proofs.WriteCallProofs

/-!
# Proofs: a call leaves no message behind

A call that returns, with no other thread around, leaves no message in a channel, and it makes its locks
in order. No other assumption on the state is made.
-/

namespace Nachos.Filesys

open Foundations Resumption

/-- If the state is tidy before, it is after. -/
structure KeepsTidy (w w' : World) : Prop where
  tidy : Tidy w → Tidy w'

instance : IsPreorder World KeepsTidy where
  refl _ := ⟨fun h => h⟩
  trans _ _ _ h h' := ⟨fun hw => h'.tidy (h.tidy hw)⟩

/-- Channels and locks are the same. -/
theorem KeepsTidy.of_eq {w w' : World} (hchannel : w'.removeChannel = w.removeChannel)
    (hlocks : w'.locks = w.locks) (hnext : w'.nextLock = w.nextLock) : KeepsTidy w w' where
  tidy h := by
    refine ⟨?_, ?_⟩
    · rw [hchannel]
      exact h.idle
    · rw [hlocks, hnext]
      exact h.fresh

theorem allows_keepsTidy (f : FileId) : Allows f KeepsTidy where
  disk _ _ := KeepsTidy.of_eq rfl rfl rfl
  heap _ _ := KeepsTidy.of_eq rfl rfl rfl
  file _ _ _ _ _ := KeepsTidy.of_eq rfl rfl rfl

/-! ## Locks and channels -/

section Locks

variable {me : Tid} {s : Nat} {l : Option LockId}

theorem tidy_getEntry : (getEntry s).Moves KeepsTidy :=
  (Moves.assert _).bind fun _ => Moves.getState.bind fun _ => Moves.pure _

theorem tidy_modifyEntry (g : OpenDirEntry → OpenDirEntry) : (modifyEntry s g).Moves KeepsTidy :=
  tidy_getEntry.bind fun _ => Moves.modifyState fun _ => KeepsTidy.of_eq rfl rfl rfl

theorem tidy_newLock : newLock.Moves KeepsTidy := by
  refine Moves.getState.bind fun _ => (Moves.modifyState fun w => ⟨fun h => ?_⟩).bind fun _ => Moves.pure _
  refine ⟨h.idle, fun x hx => ?_⟩
  have hlt : w.nextLock < x := Nat.lt_of_succ_le hx
  show Function.update w.locks w.nextLock _ x = none
  rw [Function.update_of_ne (Nat.ne_of_gt hlt)]
  exact h.fresh x (Nat.le_of_lt hlt)

/-- A lock that exists may change its owner. -/
theorem Tidy.setLock {w : World} {x : LockId} {lock : Lock} (h : Tidy w) (hx : w.locks x = some lock)
    (o : Option Lock) : Tidy { w with locks := Function.update w.locks x o } where
  idle := h.idle
  fresh := by
    intro y hy
    have hyx : y ≠ x := by
      rintro rfl
      rw [h.fresh y hy] at hx
      cases hx
    show Function.update w.locks x o y = none
    rw [Function.update_of_ne hyx]
    exact h.fresh y hy

theorem tidy_acquire : (acquire me l).Moves KeepsTidy := by
  intro w _ w' hr
  obtain ⟨x, -, hfree, rfl⟩ := acquire_inv hr
  exact ⟨fun h => h.setLock hfree _⟩

theorem tidy_release : (release me l).Moves KeepsTidy := by
  intro w _ w' hr
  obtain ⟨x, w1, hl, hr⟩ := run_bind_eq_some.mp hr
  obtain ⟨-, hw1⟩ := run_ofOption_eq_some hl
  rw [hw1, run_bind, run_getState, Option.bind_some] at hr
  obtain ⟨lock, w2, hlock, hr⟩ := run_bind_eq_some.mp hr
  obtain ⟨hlock, hw2⟩ := run_ofOption_eq_some hlock
  rw [hw2] at hr
  obtain ⟨_, w3, hassert, hr⟩ := run_bind_eq_some.mp hr
  obtain ⟨-, hw3⟩ := run_assert_eq_some hassert
  rw [hw3] at hr
  cases hr
  exact ⟨fun h => h.setLock hlock _⟩

theorem tidy_deleteLock : (deleteLock l).Moves KeepsTidy := by
  cases l with
  | none => exact Moves.pure _
  | some x =>
    refine Moves.getState.bind fun _ => (Moves.assert _).bind fun _ => Moves.modifyState fun w => ⟨fun h => ?_⟩
    refine ⟨h.idle, fun y hy => ?_⟩
    show Function.update w.locks x none y = none
    by_cases hyx : y = x
    · rw [hyx, Function.update_self]
    · rw [Function.update_of_ne hyx]
      exact h.fresh y hy

/-- Alone, the sender of a message waits for ever. -/
theorem run_channelSend (w : World) (t : Tid) : (channelSend t).run w = none := by
  simp only [channelSend, run_bind, run_modifyState, Option.bind_some, run_awaitUntil,
    Function.update_self]
  rw [if_neg]
  simp

theorem tidy_channelSend (t : Tid) : (channelSend t).Moves KeepsTidy := by
  intro w _ w' hr
  rw [run_channelSend] at hr
  cases hr

/-- Without a message, the receiver waits for ever. -/
theorem run_channelReceive {w : World} (h : w.removeChannel me = []) :
    (channelReceive me).run w = none := by
  simp [channelReceive, run_awaitUntil, h]

theorem tidy_channelReceive : (channelReceive me).Moves KeepsTidy := by
  intro w _ w' hr
  refine ⟨fun h => ?_⟩
  rw [run_channelReceive (h.idle me)] at hr
  cases hr

/-- When `Remove` goes on, the file is not open. -/
theorem waitForClose_count {w w' : World} (h : Tidy w)
    (hr : (waitForClose me s).run w = some ((), w')) : (w.table s).count = 0 ∧ w' = w := by
  obtain ⟨e, w1, hget, hr⟩ := run_bind_eq_some.mp hr
  obtain ⟨_, w2, hassert, hstate⟩ := run_bind_eq_some.mp hget
  obtain ⟨-, hw2⟩ := run_assert_eq_some hassert
  rw [hw2] at hstate
  cases hstate
  split at hr
  · obtain ⟨msg, w3, hreceive, -⟩ := run_bind_eq_some.mp hr
    rw [run_channelReceive (h.idle me)] at hreceive
    cases hreceive
  · rename_i hcount
    cases hr
    exact ⟨Nat.eq_zero_of_not_pos hcount, rfl⟩

end Locks

/-! ## Objects and transfers -/

section Objects

variable {me : Tid} {name : Name}

theorem tidy_malloc (use : HeapUse) : (malloc use).Moves KeepsTidy :=
  (along_malloc (allows_keepsTidy 0) use).moves

theorem tidy_readSector (s : Nat) : (readSector s).Moves KeepsTidy :=
  (along_readSector (allows_keepsTidy 0) s).moves

theorem tidy_writeSector (s : Nat) (data : Sector) : (writeSector s data).Moves KeepsTidy :=
  (along_writeSector (allows_keepsTidy 0) s data).moves

theorem tidy_fetchFreeMap : fetchFreeMap.Moves KeepsTidy := (along_fetchFreeMap (allows_keepsTidy 0)).moves

theorem tidy_writeBackFreeMap (m : Bitmap) : (writeBackFreeMap m).Moves KeepsTidy :=
  (along_writeBackFreeMap (allows_keepsTidy 0) m).moves

theorem tidy_read (f : FileId) (n : Nat) (isDirectory : Bool) : (read f n isDirectory).Moves KeepsTidy :=
  (along_read (allows_keepsTidy f) n isDirectory).moves

theorem tidy_write (f : FileId) (data : List UInt8) (isDirectory : Bool) :
    (write me f data isDirectory).Moves KeepsTidy := by
  have hf := allows_keepsTidy f
  refine (Moves.assert _).bind fun _ => (along_getFile hf f).moves.bind fun _ =>
    tidy_getEntry.bind fun _ => tidy_acquire.bind fun _ => ?_
  exact (along_rewindWrite hf _).moves.bind fun _ => (along_getFile hf f).moves.bind fun _ =>
    (along_fetchHdr hf _).moves.bind fun _ => (along_getFile hf f).moves.bind fun _ =>
      (along_fetchFreeMap hf).moves.bind fun _ => (along_writeBody hf _ _).moves.bind fun _ =>
        tidy_getEntry.bind fun _ => tidy_release.bind fun _ => Moves.pure _

theorem tidy_newDirectory (size : Nat) : (Directory.new size).Moves KeepsTidy :=
  (Moves.assert _).bind fun _ => (tidy_malloc _).bind fun _ => Moves.pure _

theorem tidy_fetchFrom (dir : Directory) (f : FileId) : (dir.fetchFrom f).Moves KeepsTidy :=
  (tidy_read f _ _).bind fun _ => Moves.pure _

theorem tidy_fetchTableSize (f : FileId) : (Directory.fetchTableSize f).Moves KeepsTidy :=
  (tidy_read f _ _).bind fun _ => Moves.pure _

theorem tidy_writeBackFirst (dir : Directory) (f : FileId) : (dir.writeBackFirst f).Moves KeepsTidy :=
  (along_writeAt (allows_keepsTidy f) f _ _).moves.bind fun _ => Moves.pure _

theorem tidy_fetchDirectory : fetchDirectory.Moves KeepsTidy :=
  Moves.getState.bind fun _ => (tidy_newDirectory _).bind fun _ => Moves.getState.bind fun _ =>
    tidy_fetchFrom _ _

theorem tidy_writeBackDirectory (dir : Directory) : (writeBackDirectory me dir).Moves KeepsTidy :=
  Moves.getState.bind fun _ => (tidy_write _ _ _).bind fun _ => Moves.pure _

theorem tidy_ensureLock (o : Option LockId) : (ensureLock o).Moves KeepsTidy := by
  cases o with
  | none => exact tidy_newLock.bind fun _ => Moves.pure _
  | some l => exact Moves.pure _

theorem tidy_newOpenFile (s : Nat) : (newOpenFile s).Moves KeepsTidy := by
  refine (tidy_readSector s).bind fun _ => tidy_getEntry.bind fun _ => Moves.bind ?_ fun _ =>
    (tidy_modifyEntry _).bind fun _ => Moves.getState.bind fun _ =>
      (Moves.modifyState fun _ => ⟨fun h => ⟨h.idle, h.fresh⟩⟩).bind fun _ => Moves.pure _
  exact Moves.ite (tidy_newLock.bind fun _ => (tidy_ensureLock _).bind fun _ =>
    (tidy_ensureLock _).bind fun _ => tidy_modifyEntry _) (Moves.pure _)

theorem tidy_forgetFile (f : FileId) : (forgetFile f).Moves KeepsTidy :=
  Moves.modifyState fun _ => KeepsTidy.of_eq rfl rfl rfl

theorem tidy_deleteOpenFile (f : FileId) : (deleteOpenFile me f).Moves KeepsTidy := by
  refine (along_getFile (allows_keepsTidy f) f).moves.bind fun _ => tidy_getEntry.bind fun _ =>
    tidy_acquire.bind fun _ => tidy_getEntry.bind fun _ => Moves.ite ?_ ?_
  · refine (tidy_modifyEntry _).bind fun _ => tidy_release.bind fun _ => Moves.bind ?_ fun _ =>
      tidy_forgetFile f
    refine tidy_getEntry.bind fun _ => Moves.ite (Moves.bind ?_ fun _ => ?_) (Moves.pure _)
    · exact Moves.ite (tidy_channelSend _) (Moves.pure _)
    · exact tidy_getEntry.bind fun _ => tidy_deleteLock
  · exact tidy_release.bind fun _ => tidy_forgetFile f

theorem tidy_openFile : (openFile name).Moves KeepsTidy := by
  refine tidy_fetchDirectory.bind fun _ => Moves.ite ?_ (Moves.pure _)
  refine tidy_getEntry.bind fun _ => Moves.ite (Moves.pure _) ?_
  exact (tidy_newOpenFile _).bind fun _ => Moves.pure _

theorem tidy_resetEntry (s : Nat) (made : Bool) : (resetEntry s made).Moves KeepsTidy :=
  tidy_newLock.bind fun _ => tidy_modifyEntry _

theorem tidy_add (dir : Directory) (s : Nat) (isDirectory : Bool) :
    (dir.add name s isDirectory).Moves KeepsTidy := by
  refine Moves.ite (Moves.pure _) ?_
  split
  · exact Moves.pure _
  · exact (tidy_malloc _).bind fun _ =>
      (Moves.modifyState fun _ => ⟨fun h => ⟨h.idle, h.fresh⟩⟩).bind fun _ => Moves.pure _

end Objects

/-! ## Calls -/

section Calls

variable {me : Tid} {name : Name}

theorem tidy_createFile : (createFile me name).Moves KeepsTidy := by
  refine tidy_fetchDirectory.bind fun _ => Moves.ite (Moves.pure _) (tidy_fetchFreeMap.bind fun _ => ?_)
  split
  · exact Moves.pure _
  · refine (tidy_add _ _ _).bind fun _ => Moves.ite (Moves.bind ?_ fun _ => Moves.pure _) (Moves.pure _)
    exact (tidy_malloc _).bind fun _ => (tidy_writeSector _ _).bind fun _ =>
      (tidy_writeBackFreeMap _).bind fun _ => (tidy_writeBackDirectory _).bind fun _ => tidy_resetEntry _ _

theorem tidy_createDirectory : (createDirectory me name).Moves KeepsTidy := by
  refine tidy_fetchDirectory.bind fun _ => Moves.ite (Moves.pure _) (tidy_fetchFreeMap.bind fun _ => ?_)
  refine (tidy_add _ _ _).bind fun r => ?_
  obtain ⟨added, dir⟩ := r
  dsimp only
  split
  · refine (tidy_malloc _).bind fun _ => (Moves.ofOption _).bind fun _ => ?_
    refine Moves.ite (Moves.bind ?_ fun _ => Moves.pure _) (Moves.pure _)
    exact (tidy_writeSector _ _).bind fun _ => (tidy_writeBackFreeMap _).bind fun _ =>
      (tidy_newDirectory _).bind fun _ => (tidy_newOpenFile _).bind fun _ =>
        (tidy_writeBackFirst _ _).bind fun _ => (tidy_writeBackDirectory _).bind fun _ =>
          tidy_resetEntry _ _
  · exact Moves.pure _

theorem tidy_waitForClose (s : Nat) : (waitForClose me s).Moves KeepsTidy :=
  tidy_getEntry.bind fun _ => Moves.ite (tidy_channelReceive.bind fun _ => Moves.assert _) (Moves.pure _)

theorem tidy_freeHeaders (fuel : Nat) : ∀ s h m, (freeHeaders fuel s h m).Moves KeepsTidy := by
  induction fuel with
  | zero => exact fun _ _ _ => Moves.fail
  | succ fuel ih =>
    intro s h m
    refine (Moves.ofOption _).bind fun _ => Moves.ite ?_ (Moves.pure _)
    exact (tidy_readSector _).bind fun _ => ih _ _ _

theorem tidy_acquireRemove (l : Option LockId) : (acquireRemove me l).Moves KeepsTidy := by
  cases l with
  | none => exact Moves.pure _
  | some l => exact tidy_acquire

theorem tidy_releaseRemove (l : Option LockId) : (releaseRemove me l).Moves KeepsTidy := by
  cases l with
  | none => exact Moves.pure _
  | some l => exact tidy_release

theorem tidy_removeSector (s : Nat) (dir : Directory) : (removeSector me s name dir).Moves KeepsTidy :=
  (tidy_readSector s).bind fun _ => tidy_fetchFreeMap.bind fun _ =>
    (tidy_modifyEntry _).bind fun _ => (tidy_waitForClose _).bind fun _ =>
      (tidy_freeHeaders _ _ _ _).bind fun _ => (tidy_writeBackFreeMap _).bind fun _ =>
        (tidy_writeBackDirectory _).bind fun _ => (tidy_modifyEntry _).bind fun _ =>
          tidy_getEntry.bind fun _ => (tidy_releaseRemove _).bind fun _ => tidy_modifyEntry _

end Calls

end Nachos.Filesys
