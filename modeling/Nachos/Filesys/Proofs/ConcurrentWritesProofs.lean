import Nachos.Filesys.ConcurrentWrites
import Nachos.Filesys.Proofs.FrameProofs
import Nachos.Filesys.Proofs.HandleProofs

/-!
# Proofs: concurrent writes to one file

`Write` reads nothing but the sector of its object before it has the write lock, and it reads and writes
everything else inside. So its calls are critical sections of the lock.
-/

namespace Nachos.Filesys

open Foundations Resumption

section Section

variable {handle : Tid → FileId} {s : Nat} {l : LockId} {A : Tid → Prop} {w w' : World}

/-- `Write` from where it has the write lock on. -/
def writeLocked (me : Tid) (f : FileId) (data : List UInt8) (isDirectory : Bool) : Fs Nat := do
  rewindWrite f isDirectory
  let file ← getFile f
  fetchHdr f file.currentSector
  let file ← getFile f
  let maxBytesToWrite := u32 (maxHeaderBytes + 2 ^ 32 - file.seekPosition)
  let bytesToWrite := min data.length maxBytesToWrite
  let freeMap ← fetchFreeMap
  let st ← writeBody f bytesToWrite { freeMap := freeMap, data := data, result := 0 }
  let e ← getEntry file.sector
  release me e.writeLock
  return st.result

/-- `Write` from where it stops waiting for the write lock `l`. -/
def enterWrite (l : LockId) (me : Tid) (f : FileId) (data : List UInt8) (isDirectory : Bool) : Fs Nat := do
  modifyState fun w => { w with locks := Function.update w.locks l (some { lockOwner := some me }) }
  writeLocked me f data isDirectory

/-- What every thread can rely on before its `Write` has the lock. -/
structure Sharing (A : Tid → Prop) (handle : Tid → FileId) (s : Nat) (l : LockId) (w : World) : Prop where
  handle : ∀ t, A t → ∃ file, w.files (handle t) = some file ∧ file.sector = s
  lock : (w.table s).writeLock = some l
  exists_lock : ∃ lock, w.locks l = some lock

/-- What `Write` does inside: the table and the locks stay, and the objects keep their sectors. -/
structure InWrite (w w' : World) : Prop where
  sector_eq : ∀ f file, w.files f = some file → ∃ file', w'.files f = some file' ∧ file'.sector = file.sector
  table_eq : w'.table = w.table
  locks_eq : w'.locks = w.locks

theorem InWrite.trans {w w' w'' : World} (h : InWrite w w') (h' : InWrite w' w'') : InWrite w w'' := by
  refine ⟨fun f file hf => ?_, h'.table_eq.trans h.table_eq, h'.locks_eq.trans h.locks_eq⟩
  obtain ⟨file1, hf1, hs1⟩ := h.sector_eq f file hf
  obtain ⟨file2, hf2, hs2⟩ := h'.sector_eq f file1 hf1
  exact ⟨file2, hf2, hs2.trans hs1⟩

instance : IsPreorder World InWrite where
  refl _ := ⟨fun _ file hf => ⟨file, hf, rfl⟩, rfl, rfl⟩
  trans _ _ _ := InWrite.trans

theorem allows_inWrite (f : FileId) : Allows f InWrite where
  disk _ _ := ⟨fun _ file hf => ⟨file, hf, rfl⟩, rfl, rfl⟩
  heap _ _ := ⟨fun _ file hf => ⟨file, hf, rfl⟩, rfl, rfl⟩
  file w file file' hf hsec := by
    refine ⟨fun g file1 hg => ?_, rfl, rfl⟩
    by_cases hgf : g = f
    · subst hgf
      rw [hf] at hg
      cases hg
      exact ⟨file', Function.update_self .., hsec⟩
    · exact ⟨file1, (Function.update_of_ne hgf _ _).trans hg, rfl⟩

namespace Sharing

theorem free_iff (h : Sharing A handle s l w) : lockFree l w = true ↔ lockHolder l w = none := by
  obtain ⟨⟨owner⟩, hl⟩ := h.exists_lock
  simp only [lockFree, lockHolder, hl, Option.bind_some, beq_iff_eq, Option.some.injEq, Lock.mk.injEq]

theorem inWrite (h : Sharing A handle s l w) (hstep : InWrite w w') : Sharing A handle s l w' where
  handle := by
    intro t ht
    obtain ⟨file, hf, hs⟩ := h.handle t ht
    obtain ⟨file', hf', hs'⟩ := hstep.sector_eq _ file hf
    exact ⟨file', hf', hs'.trans hs⟩
  lock := by
    rw [hstep.table_eq]
    exact h.lock
  exists_lock := by
    rw [hstep.locks_eq]
    exact h.exists_lock

theorem setLock (h : Sharing A handle s l w) (lock : Lock) :
    Sharing A handle s l { w with locks := Function.update w.locks l (some lock) } :=
  ⟨h.handle, h.lock, lock, Function.update_self ..⟩

end Sharing

theorem advance_getFile {f : FileId} {file : OpenFile} (hf : w.files f = some file) :
    (getFile f).advance w = (ret file, w) := by
  show (ofOption (w.files f)).advance w = _
  rw [hf]
  rfl

theorem advance_getEntry (hs : s < numSectors) : (getEntry s).advance w = (ret (w.table s), w) := by
  unfold getEntry
  rw [decide_eq_true hs]
  rfl

/-- Before it has the lock, `Write` changes nothing and comes as far as waiting for it. -/
theorem write_outside (hs : s < numSectors) (h : Sharing A handle s l w) {t : Tid} (ht : A t)
    (hne : lockHolder l w ≠ some t) (call : WriteCall) :
    (writeCall handle t call).advance w =
      (await (lockFree l) (enterWrite l t (handle t) call.data call.isDirectory), w) := by
  obtain ⟨file, hf, rfl⟩ := h.handle t ht
  obtain ⟨⟨owner⟩, hl⟩ := h.exists_lock
  have howner : (owner != some t) = true := by
    rw [lockHolder, hl] at hne
    simpa using hne
  have hdata : decide (0 < call.data.length) = true := by
    simpa using List.length_pos_iff.mpr call.data_ne
  unfold writeCall write
  rw [hdata]
  refine (advance_bind_ret (show (assert true : Fs Unit).advance w = (ret (), w) from rfl)).trans ?_
  refine (advance_bind_ret (advance_getFile hf)).trans ?_
  refine (advance_bind_ret (advance_getEntry hs)).trans ?_
  rw [h.lock]
  have hacquire : acquire t (some l) = (getState >>= fun w => ofOption (w.locks l) >>= fun lock =>
      assert (lock.lockOwner != some t) >>= fun _ => awaitUntil (lockFree l) >>= fun _ =>
        modifyState fun w =>
          { w with locks := Function.update w.locks l (some { lockOwner := some t }) }) := rfl
  rw [hacquire]
  show ((ofOption (w.locks l) >>= fun lock => assert (lock.lockOwner != some t) >>= fun _ =>
    awaitUntil (lockFree l) >>= fun _ => modifyState _) >>= fun _ => _).advance w = _
  rw [hl]
  show ((assert (owner != some t) >>= fun _ =>
    awaitUntil (lockFree l) >>= fun _ => modifyState _) >>= fun _ => _).advance w = _
  rw [howner]
  rfl

theorem advance_rewindWrite {f : FileId} {file : OpenFile} (hf : w.files f = some file)
    (isDirectory : Bool) : ∃ w' file', (rewindWrite f isDirectory).advance w = (ret (), w') ∧
      w'.files f = some file' ∧ w'.locks = w.locks := by
  cases isDirectory with
  | false => exact ⟨w, file, rfl, hf, rfl⟩
  | true =>
    refine ⟨{ w with
      files := Function.update w.files f
        (some { file with seekPosition := 0, currentSector := file.sector }) }, _, ?_,
      Function.update_self .., rfl⟩
    exact advance_bind_ret (advance_getFile hf)

/-- The thread has the lock when it waits for the disk for the first time. -/
theorem write_entered {f : FileId} {file : OpenFile} (hf : w.files f = some file) (t : Tid)
    (data : List UInt8) (isDirectory : Bool) :
    lockHolder l ((enterWrite l t f data isDirectory).advance w).2 = some t := by
  generalize hw1 : { w with locks := Function.update w.locks l (some { lockOwner := some t }) } = w1
  have hf1 : w1.files f = some file := by
    rw [← hw1]
    exact hf
  have hl1 : w1.locks l = some { lockOwner := some t } := by
    rw [← hw1]
    exact Function.update_self ..
  obtain ⟨w2, file2, hrewind, hf2, hl2⟩ := advance_rewindWrite hf1 isDirectory
  have hadv : (enterWrite l t f data isDirectory).advance w = (writeLocked t f data isDirectory).advance w1 := by
    rw [← hw1]
    rfl
  have hstate : ((writeLocked t f data isDirectory).advance w1).2 = w2 := by
    unfold writeLocked
    rw [advance_bind_ret hrewind, advance_bind_ret (advance_getFile hf2)]
    rfl
  rw [hadv, hstate, lockHolder, hl2, hl1]
  rfl

/-- The end of `Write` does not wait. -/
theorem unlock_along {P : World → Prop} (me : Tid) (s r : Nat) :
    (getEntry s >>= fun e => release me e.writeLock >>= fun _ => (pure r : Fs Nat)).Along P w := by
  refine Along.bind ?_ fun e w1 _ => Along.bind ?_ fun _ _ _ => True.intro
  · unfold getEntry assert
    split <;> exact True.intro
  · cases e.writeLock with
    | none => exact True.intro
    | some l =>
      show (ofOption (w1.locks l) >>= fun lock => assert (lock.lockOwner == some me) >>= fun _ =>
        modifyState _).Along P w1
      cases w1.locks l with
      | none => exact True.intro
      | some lock =>
        show (assert (lock.lockOwner == some me) >>= fun _ => modifyState _).Along P w1
        unfold assert
        split <;> exact True.intro

/-- Inside, the thread has the lock wherever it waits, and the others can rely on what they rely on. -/
theorem write_inside (h : Sharing A handle s l w) (t : Tid) (f : FileId) (data : List UInt8)
    (isDirectory : Bool) : (enterWrite l t f data isDirectory).Along
      (fun w' => Sharing A handle s l w' ∧ lockHolder l w' = some t) w := by
  have hI := allows_inWrite f
  generalize hw1 : { w with locks := Function.update w.locks l (some { lockOwner := some t }) } = w1
  have h1 : Sharing A handle s l w1 := by
    rw [← hw1]
    exact h.setLock _
  have hheld : lockHolder l w1 = some t := by
    rw [← hw1]
    simp [lockHolder]
  have hlocked : (writeLocked t f data isDirectory).Along (InWrite w1) w1 := by
    refine (along_rewindWrite hI _).bind_along (refl w1) fun _ w2 _ h2 => ?_
    refine (along_getFile hI f).bind_along h2 fun file w3 _ h3 => ?_
    refine (along_fetchHdr hI _).bind_along h3 fun _ w4 _ h4 => ?_
    refine (along_getFile hI f).bind_along h4 fun file w5 _ h5 => ?_
    -- `fetchFreeMap` has no arguments: it is generalised, lest it be evaluated
    generalize hfetch : fetchFreeMap = fetch
    have hmap : fetch.MovesAlong InWrite := hfetch ▸ along_fetchFreeMap hI
    refine hmap.bind_along h5 fun freeMap w6 _ h6 => ?_
    refine (along_writeBody hI _ _).bind_along h6 fun st w7 _ _ => ?_
    exact unlock_along t file.sector st.result
  have henter : (enterWrite l t f data isDirectory).Along (InWrite w1) w := by
    show (writeLocked t f data isDirectory).Along (InWrite w1)
      { w with locks := Function.update w.locks l (some { lockOwner := some t }) }
    rw [hw1]
    exact hlocked
  refine henter.mono fun w' hstep => ⟨h1.inWrite hstep, ?_⟩
  rw [lockHolder, hstep.locks_eq]
  exact hheld

/-- At its end `Write` has released the lock. -/
theorem write_leave (hs : s < numSectors) (h : Sharing A handle s l w) {t : Tid} (ht : A t) {data : List UInt8}
    {isDirectory : Bool} {r : Nat} (hrun : (enterWrite l t (handle t) data isDirectory).run w = some (r, w')) :
    Sharing A handle s l w' ∧ lockHolder l w' = none := by
  have hI := allows_inWrite (handle t)
  generalize hw1 : { w with locks := Function.update w.locks l (some { lockOwner := some t }) } = w1
  have h1 : Sharing A handle s l w1 := by
    rw [← hw1]
    exact h.setLock _
  have hrun1 : (writeLocked t (handle t) data isDirectory).run w1 = some (r, w') := by
    rw [← hw1]
    exact hrun
  obtain ⟨_, w2, hrewind, hrun2⟩ := run_bind_eq_some.mp hrun1
  obtain ⟨file0, w3, hget0, hrun3⟩ := run_bind_eq_some.mp hrun2
  obtain ⟨_, w4, hfetch, hrun4⟩ := run_bind_eq_some.mp hrun3
  obtain ⟨file, w5, hget, hrun5⟩ := run_bind_eq_some.mp hrun4
  obtain ⟨freeMap, w6, hmap, hrun6⟩ := run_bind_eq_some.mp hrun5
  obtain ⟨st, w7, hbody, hrun7⟩ := run_bind_eq_some.mp hrun6
  have h4 : InWrite w1 w4 := ((along_rewindWrite hI _).moves w1 _ w2 hrewind).trans
    (((along_getFile hI _).moves w2 _ w3 hget0).trans ((along_fetchHdr hI _).moves w3 _ w4 hfetch))
  have h7 : InWrite w4 w7 := ((along_getFile hI _).moves w4 _ w5 hget).trans
    (((along_fetchFreeMap hI).moves w5 _ w6 hmap).trans ((along_writeBody hI _ _).moves w6 _ w7 hbody))
  have hs7 := h1.inWrite (h4.trans h7)
  -- the sector of the object is still that of the file
  obtain ⟨file1, hf1, hsec1⟩ := (h1.inWrite h4).handle t ht
  rw [run_getFile hf1] at hget
  cases hget
  have hheld : w7.locks l = some { lockOwner := some t } := by
    rw [(h4.trans h7).locks_eq, ← hw1]
    exact Function.update_self ..
  rw [hsec1] at hrun7
  obtain ⟨e, w8, hentry, hrun8⟩ := run_bind_eq_some.mp hrun7
  rw [run_getEntry hs] at hentry
  cases hentry
  obtain ⟨_, w9, hrelease, hret⟩ := run_bind_eq_some.mp hrun8
  rw [hs7.lock, run_release hheld] at hrelease
  cases hrelease
  cases hret
  refine ⟨hs7.setLock _, ?_⟩
  simp [lockHolder, World.setLocks]

/-- The calls of `Write` are critical sections of the write lock. -/
theorem write_guarded (handle : Tid → FileId) (hs : s < numSectors) :
    Guarded A (writeCall handle) (fun t call => enterWrite l t (handle t) call.data call.isDirectory)
      (lockHolder l) (lockFree l) (Sharing A handle s l) where
  free_iff _ h := h.free_iff
  outside _ call _ ht h hne := write_outside hs h ht hne call
  entered t call w ht h _ := by
    obtain ⟨file, hf, -⟩ := h.handle t ht
    exact write_entered hf t call.data call.isDirectory
  inside t call _ _ h _ := write_inside h t (handle t) call.data call.isDirectory
  leave _ _ _ _ _ ht h _ hrun := write_leave hs h ht hrun

end Section

/-- However the calls of `Write` of any threads on objects of one file interleave: when all have
returned, the disk with the rest of the state and the answers of all calls are those of the calls made
one after another, in the order in which they got the write lock; and until then a thread can go on,
unless a call that got the lock does not return when they are made one after another. -/
theorem writes_serialisable {handle : Tid → FileId} {calls : Tid → List WriteCall} {s : Nat} {l : LockId}
    {w : World} (h : WriteHandles handle calls s l w) {schedule : List Tid} {cfg : Config Tid World Nat}
    (hrun : runs (Config.step (lockHolder l)) (Config.start (writeCall handle) calls w) schedule =
      some cfg) :
    (∀ answers : Tid → List Nat, (∀ t, cfg.threads t = ret (answers t)) →
      runs (Serial.step (writeCall handle)) (Serial.start calls w) cfg.order =
        some { state := cfg.state, calls := fun _ => [], answers := answers }) ∧
    ((∃ answers : Tid → List Nat, ∀ t, cfg.threads t = ret (answers t)) ∨
      (∃ t, (cfg.step (lockHolder l) t).isSome) ∨
      runs (Serial.step (writeCall handle)) (Serial.start calls w) cfg.order = none) := by
  have hguarded := write_guarded (A := fun t => calls t ≠ []) (l := l) handle h.sector_lt
  have hsharing : Sharing (fun t => calls t ≠ []) handle s l w := ⟨h.handle, h.lock, _, h.lock_free⟩
  have hfree : lockHolder l w = none := by rw [lockHolder, h.lock_free]; rfl
  exact ⟨fun answers hdone => hguarded.serialisable (fun _ ht => ht) hsharing hfree hrun hdone,
    hguarded.progress (fun _ ht => ht) hsharing hfree hrun⟩

section Sample

/-- An `OpenFile` object of the file of the small disk. -/
def smallObject : OpenFile where
  hdr := RawFileHeader.empty fun _ => 0
  seekPosition := 0
  sector := 3
  currentSector := 3

/-- The small disk, with two objects of its file. -/
def twoObjects : World :=
  { smallWorld with
    table := Function.update smallWorld.table 3
      { OpenDirEntry.initial with count := 2, writeLock := some 1 }
    files := Function.update (Function.update smallWorld.files 1 (some smallObject)) 2 (some smallObject)
    nextFile := 3
    locks := Function.update smallWorld.locks 1 (some { lockOwner := none })
    nextLock := 2 }

/-- Two threads write one byte each. -/
def twoWrites (t : Tid) : List WriteCall :=
  if t = 0 then [⟨[7], false, by simp⟩] else if t = 1 then [⟨[8], false, by simp⟩] else []

theorem twoObjects_handles : WriteHandles (· + 1) twoWrites 3 1 twoObjects where
  sector_lt := by decide
  handle := by
    intro t ht
    unfold twoWrites at ht
    split at ht
    · subst t
      exact ⟨smallObject, rfl, rfl⟩
    · split at ht
      · subst t
        exact ⟨smallObject, rfl, rfl⟩
      · exact absurd rfl ht
  lock := rfl
  lock_free := rfl

/-- The thread 1 calls first, but the thread 0 gets the lock before it: its byte is overwritten. -/
theorem writes_serialisable_twoWrites : ∃ cfg : Config Tid World Nat,
    runs (Config.step (lockHolder 1)) (Config.start (writeCall (· + 1)) twoWrites twoObjects)
      ([1, 0] ++ List.replicate 13 0 ++ List.replicate 9 1) = some cfg ∧ cfg.order = [0, 1] ∧
    runs (Serial.step (writeCall (· + 1))) (Serial.start twoWrites twoObjects) cfg.order =
      some { state := cfg.state, calls := fun _ => [], answers := fun t => (twoWrites t).map fun _ => 1 } := by
  have hview : ((runs (Config.step (lockHolder 1)) (Config.start (writeCall (· + 1)) twoWrites twoObjects)
      ([1, 0] ++ List.replicate 13 0 ++ List.replicate 9 1)).map fun cfg =>
        ((cfg.threads 0).answer, (cfg.threads 1).answer, cfg.order)) =
      some (some [1], some [1], [0, 1]) := by decide +kernel
  obtain ⟨cfg, hcfg, hvals⟩ := Option.map_eq_some_iff.mp hview
  simp only [Prod.mk.injEq] at hvals
  obtain ⟨h0, h1, horder⟩ := hvals
  refine ⟨cfg, hcfg, horder, (writes_serialisable twoObjects_handles hcfg).1 _ fun t => ?_⟩
  by_cases ht0 : t = 0
  · subst ht0
    exact eq_ret_of_answer h0
  · by_cases ht1 : t = 1
    · subst ht1
      exact eq_ret_of_answer h1
    · have hcalls : twoWrites t = [] := by rw [twoWrites, if_neg ht0, if_neg ht1]
      rw [Config.threads_of_notMem (by simp [ht0, ht1]) hcfg, hcalls]
      show callAll _ (twoWrites t) = _
      rw [hcalls]
      rfl

end Sample

end Nachos.Filesys
