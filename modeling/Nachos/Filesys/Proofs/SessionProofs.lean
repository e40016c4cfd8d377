import Nachos.Filesys.Ownership
import Nachos.Filesys.Proofs.FormatMemoryProofs
import Nachos.Filesys.Proofs.SoundPathProofs

/-!
# Proofs: sessions

A formatted disk is a sound file system, and every call of a session keeps it sound: the calls on names with any
path, `Open`, the closing of a handle, `Read`, and `Write` on a file made by `Create`.
-/

namespace Nachos.Filesys

open Foundations Resumption

/-! ## The formatted disk -/

section Format

variable {w : World} {disk : Disk} {heap : HeapUse → Nat → ByteMemory}

/-- The constructor makes only steps of the kinds that `R` allows. -/
theorem moves_format {R : World → World → Prop} [IsPreorder World R] (hR : ∀ f, Allows f R)
    (hopen : ∀ s, (newOpenFile s).Moves R)
    (hset : ∀ (w : World) a b n, R w { w with freeMapFile := a, directoryFile := b, directorySize := n }) :
    format.Moves R := by
  have hmalloc := fun use => (along_malloc (hR 0) use).moves
  have hwrite := fun s data => (along_writeSector (hR 0) s data).moves
  refine Moves.bind ((Moves.assert _).bind fun _ => (hmalloc _).bind fun _ => Moves.pure _) fun _ => ?_
  refine (hmalloc _).bind fun _ => (hmalloc _).bind fun _ => (Moves.ofOption _).bind fun _ => ?_
  refine (Moves.ofOption _).bind fun _ => (hwrite _ _).bind fun _ => (hwrite _ _).bind fun _ => ?_
  refine (hopen _).bind fun f => (Moves.modifyState fun w => hset w f w.directoryFile w.directorySize).bind fun _ => ?_
  refine (hopen _).bind fun g => (Moves.modifyState fun w => hset w w.freeMapFile g w.directorySize).bind fun _ => ?_
  refine (along_writeBackFreeMap (hR 0) _).moves.bind fun _ => ?_
  refine Moves.bind ((along_writeAt (hR 0) g _ _).moves.bind fun _ => Moves.pure _) fun _ => ?_
  exact (along_read (hR g) _ _).moves.bind fun _ => Moves.modifyState fun w => hset w w.freeMapFile w.directoryFile _

theorem tidy_format : format.Moves KeepsTidy :=
  moves_format allows_keepsTidy tidy_newOpenFile fun _ _ _ _ => KeepsTidy.of_eq rfl rfl rfl

/-- No entry of the open-file table gets other flags. -/
structure KeepsFlags (w w' : World) : Prop where
  flags : ∀ x, SameFlags (w.table x) (w'.table x)

instance : IsPreorder World KeepsFlags where
  refl _ := ⟨fun _ => ⟨rfl, rfl, rfl⟩⟩
  trans _ _ _ h h' := ⟨fun x => ⟨(h'.flags x).removing_eq.trans (h.flags x).removing_eq,
    (h'.flags x).removed_eq.trans (h.flags x).removed_eq,
    (h'.flags x).madeByCreate_eq.trans (h.flags x).madeByCreate_eq⟩⟩

/-- No entry of the open-file table has a flag after the constructor. -/
theorem flags_format (hrun : format.run (World.initial disk heap) = some ((), w)) (x : Nat) :
    (w.table x).removing = false ∧ (w.table x).removed = false ∧ (w.table x).madeByCreate = false := by
  have hallows : ∀ f, Allows f KeepsFlags := fun f =>
    ⟨fun _ _ => ⟨fun _ => ⟨rfl, rfl, rfl⟩⟩, fun _ _ => ⟨fun _ => ⟨rfl, rfl, rfl⟩⟩,
      fun _ _ _ _ _ => ⟨fun _ => ⟨rfl, rfl, rfl⟩⟩⟩
  have hopen : ∀ s, (newOpenFile s).Moves KeepsFlags := fun s _ _ _ hr =>
    ⟨sameFlags_of_moves tableStep_newOpenFile hr⟩
  obtain ⟨hremoving, hremoved, hmade⟩ :=
    (moves_format hallows hopen (fun _ _ _ _ => ⟨fun _ => ⟨rfl, rfl, rfl⟩⟩) _ _ _ hrun).flags x
  exact ⟨hremoving, hremoved, hmade⟩

/-- In a formatted file system only the root is a directory. -/
theorem AfterFormat.directory_eq {x : Nat} (h : AfterFormat w)
    (hx : IsDirectory w.disk (Roots w fun _ => False) x) : x = directorySector := by
  obtain ⟨dir, -, hcontent, hunused, -⟩ := h.table
  induction hx with
  | root hs =>
    rcases hs with hs | hs | hs
    · exact hs
    · exact (Option.some.inj (h.directorySector_eq.symm.trans hs)).symm
    · exact hs.elim
  | entry _ hc hi _ ih =>
    subst ih
    obtain rfl := hc.unique h.headers.directory_fileOk.chain
    rw [hcontent] at hi
    exact absurd hi (hunused _)

/-- A formatted file system is in order. -/
theorem AfterFormat.inOrder (h : AfterFormat w) (hbalanced : Balanced w []) (htidy : Tidy w) :
    ∃ m, InOrder w freshOwner m (fun _ => False) [] := by
  obtain ⟨m, hmap, hmarked⟩ := h.freeMap
  obtain ⟨dir, hsize, hcontent, hunused, -⟩ := h.table
  have hlen : (content w.disk [directorySector]).length = numDirEntries * dirEntrySize := by
    rw [hcontent, dir.length_table, hsize]
  have hnot : ∀ i, ¬ Used (content w.disk [directorySector]) i := by
    rw [hcontent]
    exact hunused
  have hfile := h.headers.directory_fileOk
  have hok : DirectoryOk w.disk freshOwner directorySector [directorySector] := by
    refine ⟨by decide, hfile, ?_, TableOk.unused hlen (by decide) hnot⟩
    intro pre x post hc hpost
    have hlength := congrArg List.length hc
    have hpos := List.length_pos_iff.mpr hpost
    simp only [List.length_cons, List.length_append, List.length_nil] at hlength
    omega
  refine ⟨m, ⟨h.headers.layout, fun x s hx => ?_, hmap, h.mapFile, h.mapSector, ⟨fun x hx => ?_, ?_⟩,
    fun _ hfalse => hfalse.elim, hbalanced, fun f hf => ?_, htidy, directorySector, [directorySector],
    h.directorySector_eq, hfile.chain, ?_⟩⟩
  · have hlt := h.headers.layout.lt x s hx
    rw [hmarked x (by rw [hmap.numBits_eq]; exact hlt), decide_eq_true_iff]
    rcases freshOwner_cases hx with ⟨rfl | rfl, -⟩ | ⟨rfl | rfl | rfl | rfl, -⟩ <;> decide
  · obtain rfl := h.directory_eq hx
    exact ⟨_, hok⟩
  · intro s s' c c' i j hs _ hc _ hi
    obtain rfl := h.directory_eq hs
    obtain rfl := hc.unique hfile.chain
    exact absurd hi (hnot i)
  · rw [List.mem_singleton.mp hf]
    exact ⟨directorySector, h.directorySector_eq, by decide, hfile.own_start⟩
  · rw [h.directorySize_eq, numEntries, hlen]
    rfl

/-- A disk that was formatted with clean memory is a sound file system. -/
theorem sound_format (hmap : Zeroed (heap .header 0)) (hdir : Zeroed (heap .header 1))
    (hrun : format.run (World.initial disk heap) = some ((), w)) :
    ∃ m, Sound w freshOwner m (fun _ => False) [] [] := by
  obtain ⟨w1, hrun1, hafter⟩ : ∃ w1, format.run (World.initial disk heap) = some ((), w1) ∧ AfterFormat w1 :=
    run_format hmap hdir
  rw [hrun] at hrun1
  cases hrun1
  have htidy : Tidy w := by
    refine (tidy_format _ _ _ hrun).tidy ⟨fun _ => rfl, fun l hl => ?_⟩
    have hne : l ≠ filesysCreateLock := Nat.ne_of_gt hl
    show Function.update (fun _ => none) filesysCreateLock _ l = none
    rw [Function.update_of_ne hne]
  obtain ⟨m, hin⟩ := hafter.inOrder (Session.balanced_format hrun) htidy
  refine ⟨m, hin, fun x _ => (flags_format hrun x).2.2, fun x c hx hc => ?_, fun x _ => (flags_format hrun x).2.1,
    fun x => (flags_format hrun x).1, List.nodup_nil, fun f hf => ?_, fun f hf => ?_, fun f hf => ?_⟩
  · obtain rfl := hafter.directory_eq hx
    obtain rfl := hc.unique hafter.headers.directory_fileOk.chain
    obtain ⟨dir, -, hcontent, -, hclean⟩ := hafter.table
    rw [hcontent]
    exact hclean
  · cases hf
  · cases hf
  · cases hf

end Format

/-! ## What a call does to the files -/

/-- What is known after a call that may change the file in `P`. It takes no sector in vain and frees no directory
that has entries, if `F`. -/
structure Stepped (P : Nat → Prop) (F : Prop) (handles' : List FileId) (w : World) (own : Nat → Option Nat)
    (m : Bitmap) (w' : World) (own' : Nat → Option Nat) (m' : Bitmap) : Prop where
  sound : ∃ objs', Sound w' own' m' (fun _ => False) objs' handles'
  touched : Touched P w.disk own w'.disk own'
  kept : ∀ x c c', IsDirectory w.disk (Roots w fun _ => False) x → own' x = some x → HeaderChain w.disk x c →
    HeaderChain w'.disk x c' → EntriesKept (content w.disk c) own' (content w'.disk c')
  news : ∀ y, own y ≠ some y → own' y = some y → ∃ x c' i, IsDirectory w.disk (Roots w fun _ => False) x ∧
    own' x = some x ∧ HeaderChain w'.disk x c' ∧ Used (content w'.disk c') i ∧ entrySector (content w'.disk c') i = y
  roots : ∀ x, Roots w' (fun _ => False) x → IsDirectory w.disk (Roots w fun _ => False) x
  marks : F → MarksOwned m own → MarksOwned m' own'
  gone : F → ∀ x c, IsDirectory w.disk (Roots w fun _ => False) x → HeaderChain w.disk x c → own' x ≠ some x →
    ∀ j, ¬ Used (content w.disk c) j

section Stepped

variable {w w1 w' : World} {own own' : Nat → Option Nat} {m m' : Bitmap} {K : Nat → Prop}
  {objs objs' objs'' handles handles' : List FileId} {s : Nat} {c c' : List Nat} {name : Name} {P : Nat → Prop}
  {F : Prop}

/-- A call that does not touch the disk. -/
theorem Sound.stepped (h : Sound w own m (fun _ => False) objs handles)
    (h' : Sound w' own m (fun _ => False) objs' handles') (hdisk : w'.disk = w.disk)
    (hroots : ∀ x, Roots w' (fun _ => False) x → IsDirectory w.disk (Roots w fun _ => False) x) :
    Stepped P F handles' w own m w' own m := by
  refine ⟨⟨objs', h'⟩, ?_, fun x b b' _ _ hb hb' j hj _ => ?_, fun y hy hy' => ?_, hroots, fun _ => id,
    fun _ x b hx _ hx' => absurd (h.own_directory hx) hx'⟩
  · rw [hdisk]
    exact Touched.refl _ _ _
  · rw [hdisk] at hb' ⊢
    rw [hb'.unique hb]
    exact ⟨hj, fun _ _ => rfl⟩
  · exact absurd hy' hy

theorem IsDirectory.cases_entry {d : Disk} {R : Nat → Prop} {x : Nat} (h : IsDirectory d R x) :
    R x ∨ ∃ s c i, IsDirectory d R s ∧ HeaderChain d s c ∧ Used (content d c) i ∧
      entryIsDirectory (content d c) i = true ∧ entrySector (content d c) i = x := by
  cases h with
  | root hs => exact Or.inl hs
  | entry hs hc hi hdir => exact Or.inr ⟨_, _, _, hs, hc, hi, hdir, rfl⟩

/-- A directory that stays as it is keeps its entries. -/
theorem Touched.entriesKept {x : Nat} (h : Touched P w.disk own w'.disk own') (hs : Sound w own m K objs handles)
    (hdir : IsDirectory w.disk (Roots w K) x) (hx : ¬ P x) (hx' : own' x = some x) (hc : HeaderChain w.disk x c)
    (hc' : HeaderChain w'.disk x c') : EntriesKept (content w.disk c) own' (content w'.disk c') := by
  obtain ⟨l, honly, hl⟩ := h.onlyFiles hx (hs.own_directory hdir) hx'
  obtain ⟨b, hb, hfile, -, hcontent⟩ := hs.tree.unchanged hs.layout honly hdir hl
  rw [hc'.unique hfile.chain, hc.unique hb.file.chain, hcontent]
  exact fun j hj _ => ⟨hj, fun _ _ => rfl⟩

/-- A call that changes the directory at `s`, which it has reached in the state `w1`. -/
theorem TouchedDirectory.stepped (ht : TouchedDirectory K s name w1 own m w'.disk own' m')
    (h : Sound w own m (fun _ => False) objs handles) (h1 : Sound w1 own m K objs' handles)
    (hdisk : w1.disk = w.disk) (hcur : CurrentIs w1 s c) (h' : Sound w' own' m' (fun _ => False) objs'' handles)
    (hs' : own' s = some s) (hroots : ∀ x, Roots w (fun _ => False) x → Roots w1 K x)
    (hroots1 : ∀ x, Roots w1 K x → IsDirectory w.disk (Roots w fun _ => False) x)
    (hroots' : ∀ x, Roots w' (fun _ => False) x → IsDirectory w.disk (Roots w fun _ => False) x) (hP : P s)
    (hF : F → ∀ i b, Used (content w1.disk c) i → entryHasName (content w1.disk c) i name = true →
      entryIsDirectory (content w1.disk c) i = true → HeaderChain w1.disk (entrySector (content w1.disk c) i) b →
      own' (entrySector (content w1.disk c) i) ≠ some (entrySector (content w1.disk c) i) →
      ∀ j, ¬ Used (content w1.disk b) j) :
    Stepped P F handles w own m w' own' m' := by
  have htouched := ht.toTouched
  rw [hdisk] at htouched
  have hs : IsDirectory w.disk (Roots w fun _ => False) s := hroots1 s (Or.inr (Or.inl hcur.object))
  obtain ⟨c', hfile'⟩ := h'.layout.fileOk hs'
  refine ⟨⟨objs'', h'⟩, htouched.mono ?_, fun x b b' hx hx' hb hb' => ?_, fun y hy hy' => ?_, hroots', fun _ => ht.marks,
    fun hf x b hx hb hx' => ?_⟩
  · rintro x rfl
    exact hP
  · by_cases hxs : x = s
    · rw [hxs] at hb hb'
      rw [← hdisk] at hb ⊢
      exact ht.kept b b' hb hb'
    · exact htouched.entriesKept h hx hxs hx' hb hb'
  · obtain ⟨i, hi, hsector⟩ := ht.news c' y hfile'.chain hy hy'
    exact ⟨s, c', i, hs, hs', hfile'.chain, hi, hsector⟩
  · obtain ⟨i, hi, hname, hsector, hnot⟩ := ht.gone c x hcur.chain (h.own_directory hx) hx'
    have hx1 : IsDirectory w1.disk (Roots w1 K) x := by
      rw [hdisk]
      exact hx.reroot fun y hy => IsDirectory.root (hroots y hy)
    rcases hx1.cases_entry with hroot | ⟨s2, c2, i2, hs2, hc2, hi2, hdir, hsector2⟩
    · exact absurd hroot hnot
    · -- the file has one entry only
      obtain ⟨rfl, rfl⟩ := h1.tree.sole hs2 (h1.currentDirectory hcur) hc2 hcur.chain hi2 hi
        (hsector2.trans hsector.symm)
      rw [hc2.unique hcur.chain] at hdir
      rw [← hsector] at hb hx'
      rw [← hdisk] at hb ⊢
      exact hF hf i2 b hi hname hdir hb hx'

end Stepped

/-! ## Creating and removing with a path -/

section Named

variable {w w' : World} {own : Nat → Option Nat} {m : Bitmap} {K F : Nat → Prop} {objs handles : List FileId}
  {me : Tid} {name : Name} {l : Option LockId}

theorem Sound.acquire (h : Sound w own m K objs handles) (hrun : (acquire me l).run w = some ((), w')) :
    Sound w' own m K objs handles := by
  refine h.quiet (quiet_acquire _ _ _ hrun) (sameBooks_acquire _ _ _ _ _ hrun) (tidy_acquire _ _ _ hrun) fun x => ?_
  obtain ⟨_, -, -, rfl⟩ := acquire_inv hrun
  exact ⟨rfl, rfl, rfl⟩

theorem Sound.release (h : Sound w own m K objs handles) (hrun : (release me l).run w = some ((), w')) :
    Sound w' own m K objs handles := by
  refine h.quiet (quiet_release _ _ _ hrun) (sameBooks_release _ _ _ _ _ hrun) (tidy_release _ _ _ hrun) fun x => ?_
  obtain ⟨_, _, -, -, rfl⟩ := release_eq hrun
  exact ⟨rfl, rfl, rfl⟩

theorem CurrentIs.acquire {s : Nat} {c : List Nat} (h : CurrentIs w s c)
    (hrun : (acquire me l).run w = some ((), w')) : CurrentIs w' s c :=
  h.sameBooks (quiet_acquire _ _ _ hrun).disk_eq (sameBooks_acquire _ _ _ _ _ hrun)
    (quiet_acquire _ _ _ hrun).directorySize_eq

theorem Stepped.before {w1 : World} {P : Nat → Prop} {F : Prop} {handles' : List FileId} {own' : Nat → Option Nat}
    {m' : Bitmap} (hsame : SameTree w w1) (h : Stepped P F handles' w1 own m w' own' m') :
    Stepped P F handles' w own m w' own' m' := by
  have hdir : ∀ x, IsDirectory w1.disk (Roots w1 fun _ => False) x ↔ IsDirectory w.disk (Roots w fun _ => False) x :=
    fun x => hsame.isDirectory
  obtain ⟨hsound, htouched, hkept, hnews, hroots, hmarks, hgone⟩ := h
  simp only [hdir] at hkept hnews hroots hgone
  rw [hsame.disk_eq] at htouched hkept hgone
  exact ⟨hsound, htouched, hkept, hnews, hroots, hmarks, hgone⟩

theorem sameTree_acquire (hrun : (acquire me l).run w = some ((), w')) : SameTree w w' := by
  have hq := quiet_acquire _ _ _ hrun
  refine ⟨hq.disk_eq, ?_⟩
  rw [(sameBooks_acquire _ _ _ _ _ hrun).books_eq, hq.directoryFile_eq]

theorem sameTree_release (hrun : (release me l).run w = some ((), w')) : SameTree w w' := by
  have hq := quiet_release _ _ _ hrun
  refine ⟨hq.disk_eq, ?_⟩
  rw [(sameBooks_release _ _ _ _ _ hrun).books_eq, hq.directoryFile_eq]

/-- The path led to the directory at `t`, from the directory at `s` to which `backup` leads back. -/
structure OnTheWay (w : World) (own : Nat → Option Nat) (m : Bitmap) (objs handles : List FileId) (s t : Nat)
    (c : List Nat) (backup : Option FileId) (K : Nat → Prop) (objs' : List FileId) (w' : World) : Prop where
  disk_eq : w'.disk = w.disk
  sound : Sound w' own m K objs' handles
  current : CurrentIs w' t c
  back : WayBack objs handles w' s backup K objs'
  roots : ∀ x, Roots w (fun _ => False) x → Roots w' K x
  reached : ∀ x, Roots w' K x → IsDirectory w.disk (Roots w fun _ => False) x

/-- The path leads nowhere. -/
theorem stepped_of_resolve_none {w1 : World} {s : Nat} {c : List Nat} {P : Nat → Prop} {F : Prop}
    (h : Sound w own m (fun _ => False) objs handles) (hcur : CurrentIs w s c)
    (hrun : (resolvePath me name).run w = some (none, w1)) (hsame : SameTree w1 w')
    (hsound : ∀ objs', Sound w1 own m (fun _ => False) objs' handles → Sound w' own m (fun _ => False) objs' handles) :
    Stepped P F handles w own m w' own m := by
  obtain ⟨hdisk, hcases⟩ := h.resolvePath hcur hrun
  rcases hcases with ⟨-, hroots, lost, h1⟩ | ⟨_, _, _, _, hpath, -⟩
  · exact h.stepped (hsound _ h1) (hsame.disk_eq.trans hdisk) fun x hx => hroots x (hsame.roots.mp hx)
  · cases hpath

/-- The path leads somewhere. -/
theorem onTheWay_of_resolve_some {w1 : World} {s : Nat} {c : List Nat} {backup : Option FileId} {piece : Name}
    (h : Sound w own m (fun _ => False) objs handles) (hcur : CurrentIs w s c)
    (hrun : (resolvePath me name).run w = some (some (backup, piece), w1)) :
    piece.head? ≠ some slash ∧ ∃ t b K objs', OnTheWay w own m objs handles s t b backup K objs' w1 := by
  obtain ⟨hdisk, hcases⟩ := h.resolvePath hcur hrun
  rcases hcases with ⟨hpath, -⟩ | ⟨_, _, K, objs', hpath, hpiece, h1, hback, hroots⟩
  · cases hpath
  · cases hpath
    obtain ⟨t, b, hcur1⟩ := h1.current
    exact ⟨hpiece, t, b, K, objs', hdisk, h1, hcur1, hback, fun x hx => hback.roots hcur.object hx, hroots⟩

/-- A call was made in the directory to which the path led, and then the way back. -/
theorem OnTheWay.stepped {w1 w2 w3 : World} {s t : Nat} {c : List Nat} {backup : Option FileId} {piece : Name}
    {K : Nat → Prop} {objs' : List FileId} {own' : Nat → Option Nat} {m' : Bitmap} {P : Nat → Prop} {F : Prop}
    (hon : OnTheWay w own m objs handles s t c backup K objs' w1) (h : Sound w own m (fun _ => False) objs handles)
    (hs : (books w).sectors w.directoryFile = some s) (h2 : Sound w2 own' m' K objs' handles)
    (ht : TouchedDirectory K t piece w1 own m w2.disk own' m') (hcur2 : ∃ c', CurrentIs w2 t c')
    (hfiles : ∀ f ∈ objs', w2.files f = w1.files f) (hrestore : (restoreDirectory me backup).run w2 = some ((), w3))
    (hsame : SameTree w3 w')
    (hsound : ∀ objs, Sound w3 own' m' (fun _ => False) objs handles → Sound w' own' m' (fun _ => False) objs handles)
    (hP : P t)
    (hF : F → ∀ i b, Used (content w1.disk c) i → entryHasName (content w1.disk c) i piece = true →
      entryIsDirectory (content w1.disk c) i = true → HeaderChain w1.disk (entrySector (content w1.disk c) i) b →
      own' (entrySector (content w1.disk c) i) ≠ some (entrySector (content w1.disk c) i) →
      ∀ j, ¬ Used (content w1.disk b) j) :
    Stepped P F handles w own m w' own' m' := by
  obtain ⟨c2, hcur2⟩ := hcur2
  have hback := hon.back.step hfiles hon.current.object hcur2.object
  obtain ⟨h3, hdisk3, hs3⟩ := h2.restoreDirectory hback hrestore
  have hdisk : w'.disk = w2.disk := hsame.disk_eq.trans hdisk3
  rw [← hdisk] at ht
  refine ht.stepped h hon.sound hon.disk_eq hon.current (hsound _ h3)
    (h2.own_directory (h2.currentDirectory hcur2)) hon.roots hon.reached (fun x hx => ?_) hP hF
  refine IsDirectory.root ?_
  rw [Roots, hsame.current_eq, hs3, ← hs] at hx
  exact hx

/-- `Create`. -/
theorem Sound.create {F : Prop} {success : Bool} (h : Sound w own m (fun _ => False) objs handles)
    (hfits : ∀ piece w1, Session.Resolves me name w piece w1 → CreateFits w1 piece)
    (hrun : (create me name).run w = some (success, w')) :
    ∃ own' m', Stepped (Session.CreatesIn me name w) F handles w own m w' own' m' := by
  obtain ⟨s, c, hcur⟩ := h.current
  obtain ⟨_, w1, hacquire, hrun1⟩ := run_bind_eq_some.mp hrun
  obtain ⟨path, w2, hresolve, hrun2⟩ := run_bind_eq_some.mp hrun1
  have hsame := sameTree_acquire hacquire
  have h1 := h.acquire hacquire
  have hcur1 := hcur.acquire hacquire
  cases path with
  | none =>
    obtain ⟨_, w3, hrelease, hret⟩ := run_bind_eq_some.mp hrun2
    cases hret
    exact ⟨own, m, (stepped_of_resolve_none h1 hcur1 hresolve (sameTree_release hrelease)
      fun _ h2 => h2.release hrelease).before hsame⟩
  | some way =>
    obtain ⟨backup, piece⟩ := way
    obtain ⟨hpiece, t, b, K, objs', hon⟩ := onTheWay_of_resolve_some h1 hcur1 hresolve
    obtain ⟨made, w3, hcreate, hrun3⟩ := run_bind_eq_some.mp hrun2
    obtain ⟨_, w4, hrestore, hrun4⟩ := run_bind_eq_some.mp hrun3
    obtain ⟨_, w5, hrelease, hret⟩ := run_bind_eq_some.mp hrun4
    cases hret
    have hpath : Session.Resolves me name w piece w2 := ⟨w1, backup, hacquire, hresolve⟩
    obtain ⟨own', m', h3, htouched, hcur3, hstays⟩ := hon.sound.createFile hon.current hpiece
      (hfits piece w2 hpath) hcreate
    refine ⟨own', m', (hon.stepped h1 hcur1.object h3 htouched hcur3
      (fun f hf => hon.sound.sectors_eq (dirStep_createFile _ _ _ hcreate) hf) hrestore (sameTree_release hrelease)
      (fun _ h4 => h4.release hrelease) ⟨piece, w2, hpath, hon.current.object⟩ fun _ i b hi _ _ _ hgone => ?_).before
        hsame⟩
    exact absurd (hstays _ ((hon.sound.directoryOk hon.current).table.entries i hi).1) hgone

/-- `CreateDir`; when there is not enough space, it stays in the directory of the path. -/
theorem Sound.createDir {F : Prop} {success : Bool} (h : Sound w own m (fun _ => False) objs handles)
    (hfits : ∀ piece w1, Session.Resolves me name w piece w1 → CreateDirFits w1 piece)
    (hrun : (createDir me name).run w = some (success, w')) :
    ∃ own' m', Stepped (Session.CreatesIn me name w) F handles w own m w' own' m' := by
  obtain ⟨s, c, hcur⟩ := h.current
  obtain ⟨_, w1, hacquire, hrun1⟩ := run_bind_eq_some.mp hrun
  obtain ⟨path, w2, hresolve, hrun2⟩ := run_bind_eq_some.mp hrun1
  have hsame := sameTree_acquire hacquire
  have h1 := h.acquire hacquire
  have hcur1 := hcur.acquire hacquire
  cases path with
  | none =>
    obtain ⟨_, w3, hrelease, hret⟩ := run_bind_eq_some.mp hrun2
    cases hret
    exact ⟨own, m, (stepped_of_resolve_none h1 hcur1 hresolve (sameTree_release hrelease)
      fun _ h2 => h2.release hrelease).before hsame⟩
  | some way =>
    obtain ⟨backup, piece⟩ := way
    obtain ⟨hpiece, t, b, K, objs', hon⟩ := onTheWay_of_resolve_some h1 hcur1 hresolve
    obtain ⟨result, w3, hcreate, hrun3⟩ := run_bind_eq_some.mp hrun2
    have hpath : Session.Resolves me name w piece w2 := ⟨w1, backup, hacquire, hresolve⟩
    obtain ⟨own', m', h3, htouched, hcur3, hstays⟩ := hon.sound.createDirectory hon.current hpiece
      (hfits piece w2 hpath) hcreate
    have hentries : ∀ i, Used (content w2.disk b) i →
        own' (entrySector (content w2.disk b) i) = some (entrySector (content w2.disk b) i) := fun i hi =>
      hstays _ ((hon.sound.directoryOk hon.current).table.entries i hi).1
    cases result with
    | none =>
      obtain ⟨_, w4, hrelease, hret⟩ := run_bind_eq_some.mp hrun3
      cases hret
      have h4 := h3.forget.release hrelease
      have hsame4 := sameTree_release hrelease
      rw [← hsame4.disk_eq] at htouched
      obtain ⟨c3, hcur3⟩ := hcur3
      refine ⟨own', m', (htouched.stepped h1 hon.sound hon.disk_eq hon.current h4
        (h3.own_directory (h3.currentDirectory hcur3)) hon.roots hon.reached (fun x hx => ?_)
        ⟨piece, w2, hpath, hon.current.object⟩ fun _ i _ hi _ _ _ hgone => absurd (hentries i hi) hgone).before hsame⟩
      refine hon.reached x (hx.imp id fun hx => Or.inl ?_)
      rw [hsame4.current_eq] at hx
      exact hon.current.object.trans (hcur3.object.symm.trans (hx.resolve_right id))
    | some made =>
      obtain ⟨_, w4, hrestore, hrun4⟩ := run_bind_eq_some.mp hrun3
      obtain ⟨_, w5, hrelease, hret⟩ := run_bind_eq_some.mp hrun4
      cases hret
      exact ⟨own', m', (hon.stepped h1 hcur1.object h3 htouched hcur3
        (fun f hf => hon.sound.sectors_eq (dirStep_createDirectory _ _ _ hcreate) hf) hrestore
        (sameTree_release hrelease) (fun _ h4 => h4.release hrelease) ⟨piece, w2, hpath, hon.current.object⟩
        fun _ i _ hi _ _ _ hgone => absurd (hentries i hi) hgone).before hsame⟩

/-- `Remove`. -/
theorem Sound.remove {success : Bool} (h : Sound w own m (fun _ => False) objs handles)
    (hrun : (remove me name).run w = some (success, w')) :
    ∃ own' m', Stepped (Session.RemovesIn me name w) (Session.RemovesNoEntries me name w) handles w own m w' own' m' := by
  obtain ⟨s, c, hcur⟩ := h.current
  obtain ⟨path, w1, hresolve, hrun1⟩ := run_bind_eq_some.mp hrun
  cases path with
  | none =>
    cases hrun1
    exact ⟨own, m, stepped_of_resolve_none h hcur hresolve ⟨rfl, rfl⟩ fun _ h1 => h1⟩
  | some way =>
    obtain ⟨backup, piece⟩ := way
    obtain ⟨-, t, b, K, objs', hon⟩ := onTheWay_of_resolve_some h hcur hresolve
    obtain ⟨w2, own', m', h2, htouched, hcur2, hfiles, hrestore⟩ := hon.sound.removeFile hon.current hrun1
    refine ⟨own', m', hon.stepped h hcur.object h2 htouched hcur2 hfiles hrestore ⟨rfl, rfl⟩ (fun _ h3 => h3)
      ⟨backup, piece, w1, hresolve, hon.current.object⟩ fun hempty i b' hi hname hdir hb _ => ?_⟩
    exact hempty backup piece w1 hresolve t b i b' hon.current hi hname hdir hb

end Named

/-! ## Reading -/

section Reading

variable {w w0 w' : World} {own : Nat → Option Nat} {m : Bitmap} {K : Nat → Prop} {objs handles : List FileId}
  {f : FileId} {s x n : Nat} {c : List Nat} {file : OpenFile} {bs : List UInt8}

/-- What `ReadAt` returns lies behind the position and under the header in memory. -/
theorem readAt_eq (hf : w.files f = some file) (hrun : (readAt f n x).run w = some (bs, w')) :
    w' = w ∧ bs.length ≤ file.hdr.numBytes - x := by
  refine ⟨(same_readAt f n x _ _ _ hrun).symm, ?_⟩
  obtain ⟨_, w1, hassert, hrun⟩ := run_bind_eq_some.mp hrun
  rw [(run_assert_eq_some hassert).2, run_bind, run_getFile hf, Option.bind_some] at hrun
  dsimp only at hrun
  split at hrun
  · cases hrun
    exact Nat.zero_le _
  · obtain ⟨_, w2, -, hrun⟩ := run_bind_eq_some.mp hrun
    obtain ⟨buf, w3, -, hret⟩ := run_bind_eq_some.mp hrun
    cases hret
    rw [List.length_take]
    omega

/-- The object `f` may stand somewhere else in the file with the headers `c`; nothing else has changed. -/
structure Strolled (f : FileId) (c : List Nat) (s : Nat) (w w' : World) : Prop where
  moved : ∃ file, w' = { w with files := Function.update w.files f (some file) } ∧ file.sector = s ∧ HandleIn c file

/-- The object is changed once more. -/
theorem Strolled.modify {g : OpenFile → OpenFile} {u : Unit} (h : Strolled f c s w0 w)
    (hrun : (modifyFile f g).run w = some (u, w')) (hsector : ∀ file, (g file).sector = file.sector)
    (hg : ∀ file, w.files f = some file → HandleIn c file → HandleIn c (g file)) : Strolled f c s w0 w' := by
  obtain ⟨file, rfl, hs, hin⟩ := h.moved
  rw [run_modifyFile (Function.update_self ..)] at hrun
  cases hrun
  refine ⟨g file, ?_, (hsector file).trans hs, hg file (Function.update_self ..) hin⟩
  simp

/-- The object fetches a header of the file. -/
theorem Strolled.fetchHdr {u : Unit} (h : Strolled f c s w0 w) (hfile : FileOk w0.disk own s c) (hx : x ∈ c)
    (hrun : (fetchHdr f x).run w = some (u, w')) : Strolled f c s w0 w' := by
  obtain ⟨sector, w1, hread, hrun⟩ := run_bind_eq_some.mp hrun
  obtain ⟨rfl, rfl⟩ := readSector_eq hread
  have hdisk : w1.disk = w0.disk := by
    obtain ⟨file, rfl, -⟩ := h.moved
    rfl
  refine h.modify hrun (fun _ => rfl) fun file _ hin => ⟨hin.current_mem, hin.seek_le, ?_, ?_⟩
  · rw [hdisk]
    exact (hfile.ok x hx).numBytes_le
  · rw [hdisk]
    exact next_mem_of_chain hfile hx

/-- The object advances by what was read. -/
theorem Strolled.advanceSeek {u : Unit} {k : Nat} (h : Strolled f c s w0 w)
    (hk : ∀ file, w.files f = some file → k ≤ file.hdr.numBytes - file.seekPosition)
    (hrun : (advanceSeek f k).run w = some (u, w')) : Strolled f c s w0 w' := by
  refine h.modify hrun (fun _ => rfl) fun file hf hin => ⟨hin.current_mem, ?_, hin.numBytes_le, hin.next_mem⟩
  have hle := hk file hf
  have hseek := hin.seek_le
  have hbytes := hin.numBytes_le
  have hu : u32 (file.seekPosition + k) ≤ file.seekPosition + k := Nat.mod_le _ _
  show u32 (file.seekPosition + k) ≤ maxHeaderBytes
  omega

theorem Strolled.exists_file (h : Strolled f c s w0 w) : ∃ file, w.files f = some file ∧ HandleIn c file := by
  obtain ⟨file, rfl, -, hin⟩ := h.moved
  exact ⟨file, Function.update_self .., hin⟩

/-- The loop of `Read` over the further headers, by induction over its rounds. -/
theorem Strolled.readNext (hfile : FileOk w0.disk own s c) (fuel : Nat) :
    ∀ {w w' : World} {next n : Nat} {into bs : List UInt8}, Strolled f c s w0 w → (next = 0 ∨ next ∈ c) →
      (readNext f fuel next n into).run w = some (bs, w') → Strolled f c s w0 w' := by
  induction fuel with
  | zero =>
    intro w w' next n into bs _ _ hrun
    cases hrun
  | succ fuel ih =>
    intro w w' next n into bs h hnext hrun
    rw [Nachos.Filesys.readNext] at hrun
    split at hrun
    · rename_i hmore
      obtain ⟨_, w1, hrewind, hrun⟩ := run_bind_eq_some.mp hrun
      have h1 : Strolled f c s w0 w1 := h.modify hrewind (fun _ => rfl) fun file _ hin =>
        ⟨hin.current_mem, Nat.zero_le _, hin.numBytes_le, hin.next_mem⟩
      obtain ⟨_, w2, hfetch, hrun⟩ := run_bind_eq_some.mp hrun
      have h2 := h1.fetchHdr hfile (hnext.resolve_left hmore.1) hfetch
      obtain ⟨file2, hf2, -⟩ := h2.exists_file
      rw [run_bind, run_getFile hf2, Option.bind_some] at hrun
      obtain ⟨piece, w3, hread, hrun3⟩ := run_bind_eq_some.mp hrun
      obtain ⟨rfl, hlen⟩ := readAt_eq hf2 hread
      obtain ⟨_, w4, hadvance, hrun4⟩ := run_bind_eq_some.mp hrun3
      have h4 := h2.advanceSeek (fun file hf => by
        rw [hf2] at hf
        cases hf
        exact hlen) hadvance
      obtain ⟨file4, hf4, hin4⟩ := h4.exists_file
      rw [run_bind, run_getFile hf4, Option.bind_some] at hrun4
      exact ih h4 hin4.next_mem hrun4
    · cases hrun
      exact h

/-- `Read`. -/
theorem strolled_read (hfile : FileOk w.disk own s c) (hf : w.files f = some file) (hs : file.sector = s)
    (hin : HandleIn c file) (hrun : (read f n false).run w = some (bs, w')) : Strolled f c s w w' := by
  have h0 : Strolled f c s w w := by
    refine ⟨file, ?_, hs, hin⟩
    rw [← hf, Function.update_eq_self]
  obtain ⟨_, w1, hassert, hrun⟩ := run_bind_eq_some.mp hrun
  rw [(run_assert_eq_some hassert).2] at hrun
  obtain ⟨_, w2, hrewind, hrun⟩ := run_bind_eq_some.mp hrun
  cases hrewind
  rw [run_bind, run_getFile hf, Option.bind_some] at hrun
  split at hrun
  all_goals
    obtain ⟨piece, w3, hread, hrun1⟩ := run_bind_eq_some.mp hrun
    obtain ⟨rfl, hlen⟩ := readAt_eq hf hread
    obtain ⟨_, w4, hadvance, hrun2⟩ := run_bind_eq_some.mp hrun1
    have h4 := h0.advanceSeek (fun file' hf' => by
      rw [hf] at hf'
      cases hf'
      exact hlen) hadvance
  · obtain ⟨file4, hf4, hin4⟩ := h4.exists_file
    rw [run_bind, run_getFile hf4, Option.bind_some] at hrun2
    exact h4.readNext hfile _ hin4.next_mem hrun2
  · cases hrun2
    exact h4

theorem Strolled.books_eq (h : Strolled f c s w w') (hs : (books w).sectors f = some s) : books w' = books w := by
  obtain ⟨file, rfl, hsector, -⟩ := h.moved
  refine Books.ext rfl (funext fun g => ?_) rfl rfl rfl
  show (Function.update w.files f (some file) g).map OpenFile.sector = (w.files g).map OpenFile.sector
  by_cases hg : g = f
  · subst hg
    rw [Function.update_self, Option.map_some, hsector]
    exact hs.symm
  · rw [Function.update_of_ne hg]

/-- A handle has moved. -/
theorem Sound.strolled {P : Nat → Prop} {F : Prop} (h : Sound w own m (fun _ => False) objs handles) (hf : f ∈ handles)
    (hst : Strolled f c s w w') (hs : (books w).sectors f = some s) (hc : HeaderChain w.disk s c) :
    Stepped P F handles w own m w' own m := by
  have hbooks := hst.books_eq hs
  have hobj := h.handles_mem f hf
  obtain ⟨file, rfl, hsector, hin⟩ := hst.moved
  have hmap : w.freeMapFile ≠ f := (h.ne_freeMapFile (List.mem_cons_of_mem _ hobj)).symm
  have hdir : w.directoryFile ≠ f := (h.ne_directoryFile hobj).symm
  have hroots : ∀ x, Roots { w with files := Function.update w.files f (some file) } (fun _ => False) x →
      IsDirectory w.disk (Roots w fun _ => False) x := by
    intro x hx
    rw [Roots, hbooks] at hx
    exact IsDirectory.root hx
  obtain ⟨x, b, hcur⟩ := h.current
  have hin' : InOrder { w with files := Function.update w.files f (some file) } own m (fun _ => False) objs := by
    refine h.toInOrder.sameDisk rfl (Function.update_of_ne hmap _ _) hroots ?_ ?_ (fun g hg => ?_)
      ⟨h.tidy.idle, h.tidy.fresh⟩ ⟨x, b, ?_, hcur.chain, hcur.size_eq⟩
    · rw [hbooks]
      exact h.kept
    · rw [hbooks]
      exact h.exact
    · rw [ObjectOk, hbooks]
      exact h.objects g hg
    · rw [hbooks]
      exact hcur.object
  refine h.stepped (h.sameDisk hin' rfl hroots (fun _ => ⟨rfl, rfl, rfl⟩) h.nodup h.handles_mem (fun g hg => ?_)
    fun g hg hng => Or.inl ⟨hg, hng, by rw [hbooks]⟩) rfl hroots
  by_cases hgf : g = f
  · subst hgf
    exact ⟨file, c, Function.update_self .., by rw [hsector]; exact hc, hin⟩
  · exact (h.handlesOk g hg).sameDisk rfl (Function.update_of_ne hgf _ _)

/-- The file of a handle. -/
theorem Sound.handleFile (h : Sound w own m K objs handles) (hf : f ∈ handles) :
    ∃ file c, w.files f = some file ∧ HandleIn c file ∧ FileOk w.disk own file.sector c ∧ file.sector ≠ 0 ∧
      (books w).sectors f = some file.sector := by
  obtain ⟨file, c, hfile, hc, hin⟩ := h.handlesOk f hf
  have hs : (books w).sectors f = some file.sector := by
    show (w.files f).map OpenFile.sector = _
    rw [hfile, Option.map_some]
  obtain ⟨s, hs', hne, hown⟩ := h.objects f (List.mem_cons_of_mem _ (h.handles_mem f hf))
  obtain rfl := Option.some.inj (hs.symm.trans hs')
  obtain ⟨c', hok⟩ := h.layout.fileOk hown
  obtain rfl := hc.unique hok.chain
  exact ⟨file, c, hfile, hin, hok, hne, hs⟩

/-- `Read` through a handle. -/
theorem Sound.read {P : Nat → Prop} {F : Prop} (h : Sound w own m (fun _ => False) objs handles) (hf : f ∈ handles)
    (hrun : (read f n false).run w = some (bs, w')) : Stepped P F handles w own m w' own m := by
  obtain ⟨file, c, hfile, hin, hok, -, hs⟩ := h.handleFile hf
  exact h.strolled hf (strolled_read hok hfile rfl hin hrun) hs hok.chain

end Reading

/-! ## Writing -/

section Writing

variable {w w' : World} {own own' : Nat → Option Nat} {m m' : Bitmap} {K : Nat → Prop} {objs handles : List FileId}
  {me : Tid} {f : FileId} {s n r : Nat} {c c' : List Nat} {file file' : OpenFile} {data : List UInt8}

/-- What is known after a `Write` through the handle `f` of the file `s`. -/
structure WroteFile (f : FileId) (s : Nat) (c : List Nat) (numBytes : Nat) (w : World) (own : Nat → Option Nat) (m : Bitmap)
    (c' : List Nat) (file' : OpenFile) (w' : World) (own' : Nat → Option Nat) (m' : Bitmap) : Prop where
  inv : WriteInv w' own' m' f s c'
  step : WStep f s w own m w' own' m'
  isPrefix : c <+: c'
  file_eq : w'.files f = some file'
  sector_eq : file'.sector = s
  handle : HandleIn c' file'
  tight : Session.WritesFit f numBytes w → Tight s m m' own'

theorem WroteFile.books_eq (h : WroteFile f s c n w own m c' file' w' own' m') (hs : (books w).sectors f = some s) :
    books w' = books w := by
  have hw := h.step.world
  refine Books.ext ?_ (funext fun g => ?_) hw.nextFile_eq hw.freeMapFile_eq hw.directoryFile_eq
  · show (fun x => (w'.table x).count) = fun x => (w.table x).count
    rw [hw.table_eq]
  · show (w'.files g).map OpenFile.sector = (w.files g).map OpenFile.sector
    by_cases hg : g = f
    · subst hg
      rw [h.file_eq, Option.map_some, h.sector_eq]
      exact hs.symm
    · rw [hw.files_eq g hg]

/-- A file that is no directory was written. -/
theorem Sound.wrote (h : Sound w own m (fun _ => False) objs handles) (hf : f ∈ handles)
    (hs : (books w).sectors f = some s) (hown : own s = some s)
    (hnot : ¬ IsDirectory w.disk (Roots w fun _ => False) s) (hc : HeaderChain w.disk s c)
    (hw : WroteFile f s c n w own m c' file' w' own' m') :
    Stepped (fun x => (books w).sectors f = some x) (Session.WritesFit f n w) handles w own m w' own' m' := by
  have hbooks := hw.books_eq hs
  have hobj := h.handles_mem f hf
  have hworld := hw.step.world
  have honly := hw.step.onlyFiles
  have hfiles : ∀ g, g ≠ f → w'.files g = w.files g := hworld.files_eq
  have hmap : w.freeMapFile ≠ f := (h.ne_freeMapFile (List.mem_cons_of_mem _ hobj)).symm
  have hown' : ∀ x, own x = some x → own' x = some x := by
    intro x hx
    by_cases hxs : x = s
    · rw [hxs] at hx ⊢
      exact hw.step.grown.mono s hx
    · exact (hw.step.grown.other x x hxs).mpr hx
  have hback : ∀ x, own' x = some x → own x = some x := by
    intro x hx
    by_cases hxs : x = s
    · rw [hxs]
      exact hown
    · exact (hw.step.grown.other x x hxs).mp hx
  obtain ⟨htree, hdirs⟩ := h.tree.other h.layout honly hnot (hown' s hown)
  have hroots : ∀ x, Roots w' (fun _ => False) x ↔ Roots w (fun _ => False) x := by
    intro x
    rw [Roots, Roots, hbooks, hworld.directoryFile_eq]
  have hdirs' : ∀ x, IsDirectory w'.disk (Roots w' fun _ => False) x →
      IsDirectory w.disk (Roots w fun _ => False) x := fun x hx =>
    hdirs x (hx.reroot fun y hy => IsDirectory.root ((hroots y).mp hy))
  have hne : ∀ x, IsDirectory w.disk (Roots w fun _ => False) x → x ∉ [s] := by
    intro x hx hmem
    rw [List.mem_singleton] at hmem
    rw [hmem] at hx
    exact hnot hx
  -- the current directory is another file
  obtain ⟨x, b, hcur⟩ := h.current
  have hcurDir := h.currentDirectory hcur
  obtain ⟨b', hb', hfile', -, hcontent⟩ := h.tree.unchanged h.layout honly hcurDir (hne x hcurDir)
  obtain rfl := hcur.chain.unique hb'.file.chain
  have hin : InOrder w' own' m' (fun _ => False) objs := by
    refine ⟨hw.inv.layout, hw.inv.marked, hw.inv.mapIs, hw.inv.mapFile, ?_,
      htree.reroot fun y hy => IsDirectory.root ((hroots y).mp hy), ?_, ?_, fun g hg => ?_, ?_,
      x, b, ?_, hfile'.chain, ?_⟩
    · rw [hbooks, hworld.freeMapFile_eq]
      exact h.mapSector
    · rw [hbooks]
      exact h.kept
    · rw [hbooks, hworld.freeMapFile_eq, hworld.directoryFile_eq]
      exact h.exact
    · rw [hworld.directoryFile_eq] at hg
      obtain ⟨y, hy, hy0, hyown⟩ := h.objects g hg
      exact ⟨y, by rw [hbooks]; exact hy, hy0, hown' y hyown⟩
    · refine ⟨fun t => ?_, fun l hl => ?_⟩
      · rw [hworld.removeChannel_eq]
        exact h.tidy.idle t
      · rw [hworld.locks_eq]
        exact h.tidy.fresh l (by rw [← hworld.nextLock_eq]; exact hl)
    · rw [hbooks, hworld.directoryFile_eq]
      exact hcur.object
    · rw [hworld.directorySize_eq, hcur.size_eq, hcontent]
  have htouched : Touched (fun x => (books w).sectors f = some x) w.disk own w'.disk own' := by
    refine ⟨[s], honly, fun x hx => Or.inl ?_⟩
    rw [List.mem_singleton.mp hx]
    exact hs
  refine ⟨⟨objs, hin, fun y hy => ?_, fun y b' hy hb => ?_, fun y hy => ?_, fun y => ?_, h.nodup, h.handles_mem,
    fun g hg => ?_, fun g hg hng y hy => ?_⟩, htouched, fun y b1 b2 hy hy' hb1 hb2 => ?_, fun y hy hy' => ?_,
    fun y hy => IsDirectory.root ((hroots y).mp hy), fun hfits hmarks => hmarks.tight hw.step.grown (hw.tight hfits),
    fun _ y b1 hy _ hy' => absurd (hown' y (h.own_directory hy)) hy'⟩
  · rw [hworld.table_eq]
    exact h.plain y (hdirs' y hy)
  · exact h.clean_other honly (hdirs' y hy) (hne y (hdirs' y hy)) hb
  · rw [hworld.table_eq]
    exact h.live y (hback y hy)
  · rw [hworld.table_eq]
    exact h.idle y
  · by_cases hgf : g = f
    · subst hgf
      exact ⟨file', c', hw.file_eq, by rw [hw.sector_eq]; exact hw.inv.file.chain, hw.handle⟩
    · refine (h.handlesOk g hg).grown h.layout (h.objects g (List.mem_cons_of_mem _ (h.handles_mem g hg))) honly
        (hfiles g hgf) fun y b' hy _ hb => ?_
      rw [List.mem_singleton] at hy
      subst hy
      obtain rfl := hb.unique hc
      exact ⟨c', hw.inv.file.chain, hw.isPrefix⟩
  · rw [hbooks] at hy
    rw [hworld.table_eq]
    exact h.others g hg hng y hy
  · refine htouched.entriesKept h hy (fun hP => ?_) hy' hb1 hb2
    rw [hs] at hP
    cases hP
    exact hnot hy
  · exact absurd (hback y hy') hy

/-- A `Write` that returns has had something to write. -/
theorem write_data_ne_nil (hrun : (write me f data false).run w = some (r, w')) : data ≠ [] := by
  obtain ⟨_, w1, hassert, -⟩ := run_bind_eq_some.mp hrun
  obtain ⟨hpos, rfl⟩ := run_assert_eq_some hassert
  rintro rfl
  simp at hpos

/-- `Write` through a handle. -/
theorem Sound.writeFile (h : Sound w own m K objs handles) (hf : f ∈ handles) (hfile : w.files f = some file)
    (hok : FileOk w.disk own file.sector c) (hrun : (write me f data false).run w = some (r, w')) :
    ∃ own' m' c' file', WroteFile f file.sector c data.length w own m c' file' w' own' m' := by
  obtain ⟨file1, c1, hfile1, hin, hok1, hne, hs⟩ := h.handleFile hf
  obtain rfl := Option.some.inj (hfile.symm.trans hfile1)
  obtain rfl := hok.chain.unique hok1.chain
  obtain ⟨pre, post, hc⟩ := List.append_of_mem hin.current_mem
  have hinv : WriteInv w own m f file.sector c := ⟨h.layout, h.marked, h.mapIs, h.mapFile,
    h.ne_freeMapFile (List.mem_cons_of_mem _ (h.handles_mem f hf)), hne, hok⟩
  have hlt := hinv.header_lt hok.chain.start_mem
  obtain ⟨l, hl, hfree⟩ := write_lock hrun hfile hlt
  rw [hc] at hinv
  obtain ⟨w1, own', m', c', file', r', hrun', hw⟩ := run_write me false hinv hfile rfl rfl hin.seek_le hlt hl hfree
    (write_data_ne_nil hrun)
  rw [hrun] at hrun'
  cases hrun'
  refine ⟨own', m', c', file', hw.inv, hw.step, by rw [hc]; exact hw.isPrefix, hw.file_eq, hw.sector_eq, hw.handle,
    fun hfits => hw.tight (hfits file pre post m hfile ?_ h.mapIs)⟩
  rw [← hc]
  exact hok.chain

/-- `Write` on a file made by `Create`. -/
theorem Sound.write (h : Sound w own m (fun _ => False) objs handles) (hf : f ∈ handles)
    (hmade : ∀ file, w.files f = some file → (w.table file.sector).madeByCreate = true)
    (hrun : (write me f data false).run w = some (r, w')) :
    ∃ own' m', Stepped (fun x => (books w).sectors f = some x) (Session.WritesFit f data.length w) handles
      w own m w' own' m' := by
  obtain ⟨file, c, hfile, -, hok, -, hs⟩ := h.handleFile hf
  obtain ⟨own', m', c', file', hw⟩ := h.writeFile hf hfile hok hrun
  refine ⟨own', m', h.wrote hf hs hok.own_start (fun hdir => ?_) hok.chain hw⟩
  have hplain := h.plain _ hdir
  rw [hmade file hfile] at hplain
  cases hplain

end Writing

/-! ## Calls -/

namespace Session

variable {s s' : Session} {own : Nat → Option Nat} {m : Bitmap} {objs : List FileId} {me : Tid} {c : FileCall}

theorem of_guard {f : FileId} {u : Unit} (h : (guard (f ∈ s.handles) : Option Unit) = some u) : f ∈ s.handles := by
  by_contra hne
  rw [guard, if_neg hne] at h
  cases h

/-- A call on names. -/
theorem stepped_named {c : FsCall} (h : Sound s.world own m (fun _ => False) objs s.handles)
    (hfits : Fits me s (.named c)) (hstep : s.step me c = some s') :
    ∃ own' m', Stepped (Changes me s (.named c)) (LosesNothing me s (.named c)) s'.handles s.world own m
      s'.world own' m' := by
  cases c with
  | create name =>
    obtain ⟨success, w, hrun, rfl⟩ := call_eq_some hstep
    exact h.create hfits hrun
  | createDir name =>
    obtain ⟨success, w, hrun, rfl⟩ := call_eq_some hstep
    exact h.createDir hfits hrun
  | «open» name =>
    obtain ⟨⟨opened, w⟩, hrun, hret⟩ := Option.bind_eq_some_iff.mp hstep
    cases hret
    obtain ⟨h', hsame⟩ := h.openFile hrun
    exact ⟨own, m, h.stepped h' hsame.disk_eq fun x hx => IsDirectory.root (hsame.roots.mp hx)⟩
  | close f =>
    obtain ⟨_, hguard, hstep⟩ := Option.bind_eq_some_iff.mp hstep
    obtain ⟨⟨_, w⟩, hrun, hret⟩ := Option.bind_eq_some_iff.mp hstep
    cases hret
    obtain ⟨h', hsame⟩ := h.close (of_guard hguard) hrun
    exact ⟨own, m, h.stepped h' hsame.disk_eq fun x hx => IsDirectory.root (hsame.roots.mp hx)⟩
  | changeDir name =>
    obtain ⟨success, w, hrun, rfl⟩ := call_eq_some hstep
    obtain ⟨lost, h', hdisk, hroots⟩ := h.changeDir hrun
    exact ⟨own, m, h.stepped h' hdisk hroots⟩
  | remove name =>
    obtain ⟨success, w, hrun, rfl⟩ := call_eq_some hstep
    exact h.remove hrun

/-- A call. -/
theorem stepped {call : Tid × FileCall} (h : Sound s.world own m (fun _ => False) objs s.handles)
    (hproper : s.Proper call) (hstep : s.fileStepBy call = some s') :
    ∃ own' m', Stepped (Changes call.1 s call.2) (LosesNothing call.1 s call.2) s'.handles s.world own m
      s'.world own' m' := by
  obtain ⟨me, c⟩ := call
  obtain ⟨hplain, hfits⟩ := hproper
  cases c with
  | named c => exact stepped_named h hfits hstep
  | read f n =>
    obtain ⟨_, hguard, hstep⟩ := Option.bind_eq_some_iff.mp hstep
    obtain ⟨bs, w, hrun, rfl⟩ := call_eq_some hstep
    exact ⟨own, m, h.read (of_guard hguard) hrun⟩
  | write f data =>
    obtain ⟨_, hguard, hstep⟩ := Option.bind_eq_some_iff.mp hstep
    obtain ⟨r, w, hrun, rfl⟩ := call_eq_some hstep
    exact h.write (of_guard hguard) hplain hrun

end Session

end Nachos.Filesys
