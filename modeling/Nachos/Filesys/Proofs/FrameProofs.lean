import Nachos.Filesys.FileSystem

/-!
# Proofs: what the calls leave alone

`Read` and `Write` change no other `OpenFile` object than the one they are called on, and `Create`,
`Open` and `Remove` in the current directory change only the object of the directory and make new ones.
No assumption on the state is made.
-/

namespace Nachos.Filesys

open Foundations Resumption

/-! ## Transfers

The code of `ReadAt`, `WriteAt`, `Read` and the body of `Write`, for every relation that allows what it
does: to change the disk and the memories, and the object that it is called on. -/

/-- The relation allows to change the disk, the memories, and the object `f` up to its sector. -/
structure Allows (f : FileId) (R : World → World → Prop) : Prop where
  disk : ∀ w disk, R w { w with disk := disk }
  heap : ∀ w heap, R w { w with heap := heap }
  file : ∀ w file file', w.files f = some file → file'.sector = file.sector →
    R w { w with files := Function.update w.files f (some file') }

section Transfers

variable {f : FileId} {R : World → World → Prop} [IsPreorder World R] (hR : Allows f R)

include hR

theorem along_readSector (s : Nat) : (readSector s).MovesAlong R :=
  (MovesAlong.awaitUntil _).bind fun _ => (MovesAlong.assert _).bind fun _ =>
    MovesAlong.getState.bind fun _ => (MovesAlong.awaitUntil _).bind fun _ => MovesAlong.pure _

theorem along_writeSector (s : Nat) (data : Sector) : (writeSector s data).MovesAlong R :=
  (MovesAlong.awaitUntil _).bind fun _ => (MovesAlong.assert _).bind fun _ =>
    (MovesAlong.modifyState fun w => hR.disk w _).bind fun _ => MovesAlong.awaitUntil _

theorem along_malloc (use : HeapUse) : (malloc use).MovesAlong R :=
  MovesAlong.getState.bind fun _ =>
    (MovesAlong.modifyState fun w => hR.heap w _).bind fun _ => MovesAlong.pure _

theorem along_getFile (g : FileId) : (getFile g).MovesAlong R :=
  MovesAlong.getState.bind fun _ => MovesAlong.ofOption _

theorem along_modifyFile {g : OpenFile → OpenFile}
    (hg : ∀ file, (g file).sector = file.sector) :
    (modifyFile f g).MovesAlong R where
  moves := by
    intro w a w' hr
    obtain ⟨file, w1, hget, hset⟩ := run_bind_eq_some.mp hr
    obtain ⟨w2, w3, hstate, hopt⟩ := run_bind_eq_some.mp hget
    cases hstate
    cases hfile : w.files f with
    | none =>
      rw [hfile] at hopt
      cases hopt
    | some file' =>
      rw [hfile] at hopt
      cases hopt
      cases hset
      exact hR.file w file (g file) hfile (hg file)
  along := by
    intro w
    refine ((along_getFile hR f).along w).bind fun file w1 _ => ?_
    exact True.intro

theorem along_fetchHdr (s : Nat) : (fetchHdr f s).MovesAlong R :=
  (along_readSector hR s).bind fun _ => along_modifyFile hR (by intro _; rfl)

/-! `ReadAt` and `WriteAt` change no object at all: `g` may be any. -/

theorem along_readSectors (g : FileId) (count : Nat) :
    ∀ i, (readSectors g count i).MovesAlong R := by
  induction count with
  | zero => exact fun i => MovesAlong.pure _
  | succ count ih =>
    exact fun i => (along_getFile hR g).bind fun _ => (MovesAlong.ofOption _).bind fun _ =>
      (along_readSector hR _).bind fun _ => (ih (i + 1)).bind fun _ => MovesAlong.pure _

theorem along_readAt (g : FileId) (n pos : Nat) : (readAt g n pos).MovesAlong R := by
  refine (MovesAlong.assert _).bind fun _ => (along_getFile hR g).bind fun _ => MovesAlong.ite (MovesAlong.pure _) ?_
  exact (MovesAlong.assert _).bind fun _ => (along_readSectors hR g _ _).bind fun _ => MovesAlong.pure _

theorem along_writeSectors (g : FileId) (count : Nat) :
    ∀ i buf, (writeSectors g count i buf).MovesAlong R := by
  induction count with
  | zero => exact fun i buf => MovesAlong.pure _
  | succ count ih =>
    exact fun i buf => (along_getFile hR g).bind fun _ => (MovesAlong.ofOption _).bind fun _ =>
      (along_writeSector hR _ _).bind fun _ => ih _ _

theorem along_fillSector (g : FileId) (needed : Bool) (firstSector i : Nat) (buf : List UInt8) :
    (fillSector g needed firstSector i buf).MovesAlong R :=
  MovesAlong.ite ((along_readAt hR g _ _).bind fun _ => MovesAlong.pure _) (MovesAlong.pure _)

theorem along_writeAt (g : FileId) (data : List UInt8) (pos : Nat) :
    (writeAt g data pos).MovesAlong R := by
  refine (MovesAlong.assert _).bind fun _ => (along_getFile hR g).bind fun _ => MovesAlong.ite (MovesAlong.pure _) ?_
  exact (MovesAlong.assert _).bind fun _ => (along_malloc hR _).bind fun _ =>
    (along_fillSector hR g _ _ _ _).bind fun _ => (along_fillSector hR g _ _ _ _).bind fun _ =>
      (along_writeSectors hR g _ _ _).bind fun _ => MovesAlong.pure _

theorem along_fetchFreeMap : fetchFreeMap.MovesAlong R :=
  MovesAlong.getState.bind fun _ => (along_readAt hR _ _ _).bind fun _ => MovesAlong.pure _

theorem along_writeBackFreeMap (m : Bitmap) : (writeBackFreeMap m).MovesAlong R :=
  MovesAlong.getState.bind fun _ => (along_writeAt hR _ _ _).bind fun _ => MovesAlong.pure _

/-! ## `Read` and `Write` -/

theorem along_advanceSeek (n : Nat) : (advanceSeek f n).MovesAlong R := along_modifyFile hR (by intro _; rfl)

theorem along_readNext (fuel : Nat) :
    ∀ next n into, (readNext f fuel next n into).MovesAlong R := by
  induction fuel with
  | zero => exact fun _ _ _ => MovesAlong.fail
  | succ fuel ih =>
    intro next n into
    refine MovesAlong.ite ?_ (MovesAlong.pure _)
    exact (along_modifyFile hR (by intro _; rfl)).bind fun _ => (along_fetchHdr hR _).bind fun _ =>
      (along_getFile hR f).bind fun _ => (along_readAt hR f _ _).bind fun _ =>
        (along_advanceSeek hR _).bind fun _ => (along_getFile hR f).bind fun _ => ih _ _ _

theorem along_rewindRead (isDirectory : Bool) : (rewindRead f isDirectory).MovesAlong R :=
  MovesAlong.ite ((along_getFile hR f).bind fun _ => (along_fetchHdr hR _).bind fun _ =>
    along_modifyFile hR (by intro _; rfl)) (MovesAlong.pure _)

theorem along_read (n : Nat) (isDirectory : Bool) : (read f n isDirectory).MovesAlong R := by
  refine (MovesAlong.assert _).bind fun _ => (along_rewindRead hR _).bind fun _ =>
    (along_getFile hR f).bind fun _ => MovesAlong.ite ?_ ?_
  · exact (along_readAt hR f _ _).bind fun _ => (along_advanceSeek hR _).bind fun _ =>
      (along_getFile hR f).bind fun _ => along_readNext hR _ _ _ _
  · exact (along_readAt hR f _ _).bind fun _ => (along_advanceSeek hR _).bind fun _ => MovesAlong.pure _

theorem along_extendHeader (s needed : Nat) (st : Writing) :
    (extendHeader f s needed st).MovesAlong R := by
  refine (along_getFile hR f).bind fun _ => MovesAlong.ite ?_ (MovesAlong.pure _)
  refine (MovesAlong.ofOption _).bind fun _ => (along_modifyFile hR (by intro _; rfl)).bind fun _ =>
    MovesAlong.ite ?_ (MovesAlong.pure _)
  exact (along_writeBackFreeMap hR _).bind fun _ => (along_getFile hR f).bind fun _ =>
    (along_writeSector hR _ _).bind fun _ => MovesAlong.pure _

theorem along_writeChunk (n : Nat) (st : Writing) : (writeChunk f n st).MovesAlong R :=
  (along_getFile hR f).bind fun _ => (along_writeAt hR f _ _).bind fun _ =>
    (along_advanceSeek hR _).bind fun _ => MovesAlong.pure _

theorem along_writeCurrent (n : Nat) (st : Writing) : (writeCurrent f n st).MovesAlong R := by
  refine MovesAlong.ite ?_ (MovesAlong.pure _)
  refine (along_getFile hR f).bind fun _ => (along_extendHeader hR _ _ _).bind fun _ =>
    MovesAlong.ite ?_ (MovesAlong.pure _)
  exact (along_writeChunk hR _ _).bind fun _ => MovesAlong.pure _

theorem along_writeNext (fuel : Nat) :
    ∀ next st, (writeNext f fuel next st).MovesAlong R := by
  induction fuel with
  | zero => exact fun _ _ => MovesAlong.fail
  | succ fuel ih =>
    intro next st
    refine MovesAlong.ite ?_ (MovesAlong.pure _)
    refine (along_fetchHdr hR _).bind fun _ => (along_extendHeader hR _ _ _).bind fun _ =>
      MovesAlong.ite ?_ (MovesAlong.pure _)
    exact (along_modifyFile hR (by intro _; rfl)).bind fun _ => (along_writeChunk hR _ _).bind fun _ =>
      (along_getFile hR f).bind fun _ => ih _ _

theorem along_findHeaderSectors (count : Nat) :
    ∀ sectors m, (findHeaderSectors count sectors m).MovesAlong R := by
  induction count with
  | zero => exact fun _ _ => MovesAlong.pure _
  | succ count ih => exact fun _ _ => (along_writeBackFreeMap hR _).bind fun _ => ih _ _

theorem along_linkHeader (prev s : Nat) (hdr : RawFileHeader) (m : Bitmap) :
    (linkHeader f prev s hdr m).MovesAlong R :=
  (along_writeBackFreeMap hR _).bind fun _ => (along_writeSector hR _ _).bind fun _ =>
    (along_modifyFile hR (by intro _; rfl)).bind fun _ => (along_getFile hR f).bind fun _ =>
      (along_writeSector hR _ _).bind fun _ => along_modifyFile hR (by intro _; rfl)

theorem along_writeMore (sectors : List Nat) :
    ∀ prev st, (writeMore f prev sectors st).MovesAlong R := by
  induction sectors with
  | nil => exact fun _ _ => MovesAlong.pure _
  | cons s sectors ih =>
    intro prev st
    refine (along_malloc hR _).bind fun _ => MovesAlong.ite ?_ (MovesAlong.pure _)
    refine (MovesAlong.ofOption _).bind fun _ => MovesAlong.ite ?_ (MovesAlong.pure _)
    exact (along_linkHeader hR _ _ _ _).bind fun _ => (along_writeChunk hR _ _).bind fun _ => ih _ _

theorem along_writeAppend (st : Writing) : (writeAppend f st).MovesAlong R := by
  refine MovesAlong.ite (MovesAlong.pure _) ?_
  refine (along_findHeaderSectors hR _ _ _).bind fun _ => (along_malloc hR _).bind fun _ =>
    (MovesAlong.ofOption _).bind fun _ => MovesAlong.ite ?_ (MovesAlong.pure _)
  exact (MovesAlong.ofOption _).bind fun _ => (along_getFile hR f).bind fun _ =>
    (along_linkHeader hR _ _ _ _).bind fun _ => (along_writeChunk hR _ _).bind fun _ =>
      (along_writeMore hR _ _ _).bind fun _ => (along_modifyFile hR (by intro _; rfl)).bind fun _ => MovesAlong.pure _

theorem along_writeBody (n : Nat) (st : Writing) : (writeBody f n st).MovesAlong R := by
  refine (along_writeCurrent hR _ _).bind fun _ => MovesAlong.ite ?_ (MovesAlong.pure _)
  refine (along_getFile hR f).bind fun _ => (along_writeNext hR _ _ _).bind fun _ => ?_
  exact MovesAlong.ite (along_writeAppend hR _) (MovesAlong.pure _)

theorem along_rewindWrite (isDirectory : Bool) : (rewindWrite f isDirectory).MovesAlong R :=
  MovesAlong.ite (along_modifyFile hR (by intro _; rfl)) (MovesAlong.pure _)

end Transfers

/-! ## One object -/

/-- At most the object `f` has changed. -/
structure OnlyFile (f : FileId) (w w' : World) : Prop where
  files_eq : ∀ g, g ≠ f → w'.files g = w.files g
  directoryFile_eq : w'.directoryFile = w.directoryFile
  freeMapFile_eq : w'.freeMapFile = w.freeMapFile
  nextFile_eq : w'.nextFile = w.nextFile

instance (f : FileId) : IsPreorder World (OnlyFile f) where
  refl w := ⟨fun _ _ => rfl, rfl, rfl, rfl⟩
  trans _ _ _ h h' :=
    ⟨fun g hg => (h'.files_eq g hg).trans (h.files_eq g hg),
      h'.directoryFile_eq.trans h.directoryFile_eq, h'.freeMapFile_eq.trans h.freeMapFile_eq,
      h'.nextFile_eq.trans h.nextFile_eq⟩

theorem allows_onlyFile (f : FileId) : Allows f (OnlyFile f) where
  disk _ _ := ⟨fun _ _ => rfl, rfl, rfl, rfl⟩
  heap _ _ := ⟨fun _ _ => rfl, rfl, rfl, rfl⟩
  file _ _ _ _ _ := ⟨fun _ hg => Function.update_of_ne hg _ _, rfl, rfl, rfl⟩

section OnlyFile

variable {f : FileId}

theorem onlyFile_getEntry (s : Nat) : (getEntry s).Moves (OnlyFile f) :=
  (Moves.assert _).bind fun _ => Moves.getState.bind fun _ => Moves.pure _

theorem onlyFile_modifyEntry (s : Nat) (g : OpenDirEntry → OpenDirEntry) :
    (modifyEntry s g).Moves (OnlyFile f) :=
  (onlyFile_getEntry s).bind fun _ => Moves.modifyState fun _ => ⟨fun _ _ => rfl, rfl, rfl, rfl⟩

theorem onlyFile_newLock : newLock.Moves (OnlyFile f) :=
  Moves.getState.bind fun _ =>
    (Moves.modifyState fun _ => ⟨fun _ _ => rfl, rfl, rfl, rfl⟩).bind fun _ => Moves.pure _

theorem onlyFile_acquire (me : Tid) (l : Option LockId) : (acquire me l).Moves (OnlyFile f) :=
  (Moves.ofOption _).bind fun _ => Moves.getState.bind fun _ => (Moves.ofOption _).bind fun _ =>
    (Moves.assert _).bind fun _ => (Moves.awaitUntil _).bind fun _ =>
      Moves.modifyState fun _ => ⟨fun _ _ => rfl, rfl, rfl, rfl⟩

theorem onlyFile_release (me : Tid) (l : Option LockId) : (release me l).Moves (OnlyFile f) :=
  (Moves.ofOption _).bind fun _ => Moves.getState.bind fun _ => (Moves.ofOption _).bind fun _ =>
    (Moves.assert _).bind fun _ => Moves.modifyState fun _ => ⟨fun _ _ => rfl, rfl, rfl, rfl⟩

theorem onlyFile_write (me : Tid) (data : List UInt8) (isDirectory : Bool) :
    (write me f data isDirectory).Moves (OnlyFile f) := by
  have hf := allows_onlyFile f
  refine (Moves.assert _).bind fun _ => (along_getFile hf f).moves.bind fun _ =>
    (onlyFile_getEntry _).bind fun _ => (onlyFile_acquire me _).bind fun _ => ?_
  exact (along_rewindWrite hf _).moves.bind fun _ => (along_getFile hf f).moves.bind fun _ =>
    (along_fetchHdr hf _).moves.bind fun _ => (along_getFile hf f).moves.bind fun _ =>
      (along_fetchFreeMap hf).moves.bind fun _ => (along_writeBody hf _ _).moves.bind fun _ =>
        (onlyFile_getEntry _).bind fun _ => (onlyFile_release me _).bind fun _ => Moves.pure _

end OnlyFile

/-! ## Calls in the current directory -/

/-- At most the object of the current directory has changed, and objects were made. -/
structure DirStep (w w' : World) : Prop where
  files_eq : ∀ g, g ≠ w.directoryFile → g < w.nextFile → w'.files g = w.files g
  directoryFile_eq : w'.directoryFile = w.directoryFile
  freeMapFile_eq : w'.freeMapFile = w.freeMapFile
  nextFile_le : w.nextFile ≤ w'.nextFile

instance : IsPreorder World DirStep where
  refl w := ⟨fun _ _ _ => rfl, rfl, rfl, Nat.le_refl _⟩
  trans w w' w'' h h' := by
    refine ⟨fun g hg hlt => ?_, h'.directoryFile_eq.trans h.directoryFile_eq,
      h'.freeMapFile_eq.trans h.freeMapFile_eq, Nat.le_trans h.nextFile_le h'.nextFile_le⟩
    rw [h'.files_eq g (by rw [h.directoryFile_eq]; exact hg) (Nat.lt_of_lt_of_le hlt h.nextFile_le),
      h.files_eq g hg hlt]

theorem OnlyFile.dirStep {w w' : World} (h : OnlyFile w.directoryFile w w') : DirStep w w' :=
  ⟨fun g hg _ => h.files_eq g hg, h.directoryFile_eq, h.freeMapFile_eq, Nat.le_of_eq h.nextFile_eq.symm⟩

/-- Code that changes no object. -/
theorem dirStep_of_onlyFile {α : Type} {m : Fs α} (h : ∀ f, m.Moves (OnlyFile f)) : m.Moves DirStep :=
  fun w a w' hr => (h w.directoryFile w a w' hr).dirStep

section DirStep

variable {me : Tid} {name : Name}

theorem dirStep_getEntry (s : Nat) : (getEntry s).Moves DirStep :=
  dirStep_of_onlyFile fun _ => onlyFile_getEntry s

theorem dirStep_modifyEntry (s : Nat) (g : OpenDirEntry → OpenDirEntry) :
    (modifyEntry s g).Moves DirStep :=
  dirStep_of_onlyFile fun _ => onlyFile_modifyEntry s g

theorem dirStep_acquire (me : Tid) (l : Option LockId) : (acquire me l).Moves DirStep :=
  dirStep_of_onlyFile fun _ => onlyFile_acquire me l

theorem dirStep_release (me : Tid) (l : Option LockId) : (release me l).Moves DirStep :=
  dirStep_of_onlyFile fun _ => onlyFile_release me l

theorem dirStep_newLock : newLock.Moves DirStep := dirStep_of_onlyFile fun _ => onlyFile_newLock

theorem dirStep_malloc (use : HeapUse) : (malloc use).Moves DirStep :=
  dirStep_of_onlyFile fun f => (along_malloc (allows_onlyFile f) use).moves

theorem dirStep_readSector (s : Nat) : (readSector s).Moves DirStep :=
  dirStep_of_onlyFile fun f => (along_readSector (allows_onlyFile f) s).moves

theorem dirStep_writeSector (s : Nat) (data : Sector) : (writeSector s data).Moves DirStep :=
  dirStep_of_onlyFile fun f => (along_writeSector (allows_onlyFile f) s data).moves

theorem dirStep_fetchFreeMap : fetchFreeMap.Moves DirStep :=
  dirStep_of_onlyFile fun f => (along_fetchFreeMap (allows_onlyFile f)).moves

theorem dirStep_writeBackFreeMap (m : Bitmap) : (writeBackFreeMap m).Moves DirStep :=
  dirStep_of_onlyFile fun f => (along_writeBackFreeMap (allows_onlyFile f) m).moves

theorem dirStep_fetchDirectory : fetchDirectory.Moves DirStep := by
  refine Moves.getState.bind fun _ => ?_
  refine ((Moves.assert _).bind fun _ => (dirStep_malloc _).bind fun _ => Moves.pure _).bind fun dir => ?_
  refine Moves.getState_bind fun w a w' hr => ?_
  obtain ⟨bs, w1, hread, hret⟩ := run_bind_eq_some.mp hr
  cases hret
  exact ((along_read (allows_onlyFile _) _ _).moves w bs w' hread).dirStep

theorem dirStep_writeBackDirectory (dir : Directory) : (writeBackDirectory me dir).Moves DirStep := by
  refine Moves.getState_bind fun w a w' hr => ?_
  obtain ⟨n, w1, hwrite, hret⟩ := run_bind_eq_some.mp hr
  cases hret
  exact (onlyFile_write me _ _ w n w' hwrite).dirStep

theorem dirStep_ensureLock (o : Option LockId) : (ensureLock o).Moves DirStep := by
  cases o with
  | none => exact dirStep_newLock.bind fun _ => Moves.pure _
  | some l => exact Moves.pure _

theorem dirStep_initLocks (s : Nat) (e : OpenDirEntry) : (initLocks s e).Moves DirStep :=
  Moves.ite (dirStep_newLock.bind fun _ => (dirStep_ensureLock _).bind fun _ =>
    (dirStep_ensureLock _).bind fun _ => dirStep_modifyEntry _ _) (Moves.pure _)

theorem dirStep_newOpenFile (s : Nat) : (newOpenFile s).Moves DirStep := by
  refine (dirStep_readSector s).bind fun _ => (dirStep_getEntry s).bind fun _ =>
    (dirStep_initLocks _ _).bind fun _ => (dirStep_modifyEntry _ _).bind fun _ => ?_
  refine Moves.getState.bind fun _ => (Moves.modifyState fun w => ?_).bind fun _ => Moves.pure _
  exact ⟨fun g _ hlt => Function.update_of_ne (Nat.ne_of_lt hlt) _ _, rfl, rfl, Nat.le_succ _⟩

/-- `Open`. -/
theorem dirStep_openFile : (openFile name).Moves DirStep := by
  refine dirStep_fetchDirectory.bind fun _ => Moves.ite ?_ (Moves.pure _)
  refine (dirStep_getEntry _).bind fun _ => Moves.ite (Moves.pure _) ?_
  exact (dirStep_newOpenFile _).bind fun _ => Moves.pure _

theorem dirStep_resetEntry (s : Nat) (madeByCreate : Bool) : (resetEntry s madeByCreate).Moves DirStep :=
  dirStep_newLock.bind fun _ => dirStep_modifyEntry _ _

theorem dirStep_add (dir : Directory) (s : Nat) (isDirectory : Bool) :
    (dir.add name s isDirectory).Moves DirStep := by
  refine Moves.ite (Moves.pure _) ?_
  split
  · exact Moves.pure _
  · exact (dirStep_malloc _).bind fun _ =>
      (Moves.modifyState fun _ => ⟨fun _ _ _ => rfl, rfl, rfl, Nat.le_refl _⟩).bind fun _ => Moves.pure _

theorem dirStep_flushNewFile (s : Nat) (m : Bitmap) (dir : Directory) :
    (flushNewFile me s m dir).Moves DirStep :=
  (dirStep_malloc _).bind fun _ => (dirStep_writeSector _ _).bind fun _ =>
    (dirStep_writeBackFreeMap _).bind fun _ => (dirStep_writeBackDirectory _).bind fun _ =>
      dirStep_resetEntry _ _

theorem dirStep_createFile : (createFile me name).Moves DirStep := by
  refine dirStep_fetchDirectory.bind fun _ => Moves.ite (Moves.pure _) ?_
  refine dirStep_fetchFreeMap.bind fun _ => ?_
  split
  · exact Moves.pure _
  · refine (dirStep_add _ _ _).bind fun _ => Moves.ite ?_ (Moves.pure _)
    exact (dirStep_flushNewFile _ _ _).bind fun _ => Moves.pure _

/-- A name that is not an absolute path stands for an entry of the current directory. -/
theorem resolvePath_relative (hname : name.head? ≠ some slash) :
    resolvePath me name = pure (some (none, name)) := by
  rw [resolvePath, if_neg hname]

/-- `Create`. -/
theorem dirStep_flushNewDirectory (s : Nat) (hdr : RawFileHeader) (m : Bitmap) (dir : Directory) :
    (flushNewDirectory me s hdr m dir).Moves DirStep := by
  refine (dirStep_writeSector _ _).bind fun _ => (dirStep_writeBackFreeMap _).bind fun _ => ?_
  refine ((Moves.assert _).bind fun _ => (dirStep_malloc _).bind fun _ => Moves.pure _).bind fun _ => ?_
  refine (dirStep_newOpenFile _).bind fun _ => Moves.bind ?_ fun _ => ?_
  · exact (dirStep_of_onlyFile fun f => (along_writeAt (allows_onlyFile f) _ _ _).moves).bind fun _ =>
      Moves.pure _
  · exact (dirStep_writeBackDirectory _).bind fun _ => dirStep_resetEntry _ _

theorem dirStep_createDirectory : (createDirectory me name).Moves DirStep := by
  refine dirStep_fetchDirectory.bind fun _ => Moves.ite (Moves.pure _) ?_
  refine dirStep_fetchFreeMap.bind fun _ => (dirStep_add _ _ _).bind fun r => ?_
  obtain ⟨added, dir⟩ := r
  dsimp only
  split
  · refine (dirStep_malloc _).bind fun _ => (Moves.ofOption _).bind fun _ => ?_
    exact Moves.ite ((dirStep_flushNewDirectory _ _ _ _).bind fun _ => Moves.pure _) (Moves.pure _)
  · exact Moves.pure _

theorem dirStep_create (hname : name.head? ≠ some slash) : (create me name).Moves DirStep := by
  rw [create, resolvePath_relative hname]
  refine (dirStep_acquire _ _).bind fun _ => ?_
  show (createFile me name >>= fun success => pure () >>= fun _ =>
    release me (some filesysCreateLock) >>= fun _ => pure success).Moves DirStep
  exact dirStep_createFile.bind fun _ => (Moves.pure _).bind fun _ =>
    (dirStep_release _ _).bind fun _ => Moves.pure _

theorem dirStep_waitForClose (s : Nat) : (waitForClose me s).Moves DirStep := by
  refine (dirStep_getEntry s).bind fun _ => Moves.ite ?_ (Moves.pure _)
  refine Moves.bind ?_ fun _ => Moves.assert _
  exact (Moves.awaitUntil _).bind fun _ => Moves.getState.bind fun _ =>
    (Moves.modifyState fun _ => ⟨fun _ _ _ => rfl, rfl, rfl, Nat.le_refl _⟩).bind fun _ => Moves.pure _

theorem dirStep_freeHeaders (fuel : Nat) :
    ∀ s h m, (freeHeaders fuel s h m).Moves DirStep := by
  induction fuel with
  | zero => exact fun _ _ _ => Moves.fail
  | succ fuel ih =>
    intro s h m
    refine (Moves.ofOption _).bind fun _ => Moves.ite ?_ (Moves.pure _)
    exact (dirStep_readSector _).bind fun _ => ih _ _ _

theorem dirStep_acquireRemove (l : Option LockId) : (acquireRemove me l).Moves DirStep := by
  cases l with
  | none => exact Moves.pure _
  | some l => exact dirStep_acquire _ _

theorem dirStep_releaseRemove (l : Option LockId) : (releaseRemove me l).Moves DirStep := by
  cases l with
  | none => exact Moves.pure _
  | some l => exact dirStep_release _ _

theorem dirStep_removeSector (s : Nat) (dir : Directory) : (removeSector me s name dir).Moves DirStep :=
  (dirStep_readSector s).bind fun _ => dirStep_fetchFreeMap.bind fun _ =>
    (dirStep_modifyEntry _ _).bind fun _ => (dirStep_waitForClose _).bind fun _ =>
      (dirStep_freeHeaders _ _ _ _).bind fun _ => (dirStep_writeBackFreeMap _).bind fun _ =>
        (dirStep_writeBackDirectory _).bind fun _ => (dirStep_modifyEntry _ _).bind fun _ =>
          (dirStep_getEntry _).bind fun _ => (dirStep_releaseRemove _).bind fun _ =>
            dirStep_modifyEntry _ _

theorem dirStep_removeFile : (removeFile me none name).Moves DirStep := by
  refine dirStep_fetchDirectory.bind fun _ => Moves.ite ?_ ?_
  · exact (Moves.pure _).bind fun _ => Moves.pure _
  refine (dirStep_getEntry _).bind fun _ => (dirStep_acquireRemove _).bind fun _ =>
    (dirStep_getEntry _).bind fun _ => Moves.ite ?_ ?_
  · exact (Moves.pure _).bind fun _ => (dirStep_getEntry _).bind fun _ =>
      (dirStep_release _ _).bind fun _ => Moves.pure _
  · exact (dirStep_removeSector _ _).bind fun _ => (Moves.pure _).bind fun _ => Moves.pure _

/-- `Remove`. -/
theorem dirStep_remove (hname : name.head? ≠ some slash) : (remove me name).Moves DirStep := by
  rw [remove, resolvePath_relative hname]
  exact dirStep_removeFile

end DirStep

end Nachos.Filesys
