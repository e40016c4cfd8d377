import Nachos.Filesys.Proofs.SoundProofs

/-!
# Proofs: sound file systems, opening files and following paths

`Open`, the closing of a handle and `ChangeDir` keep a file system sound, and so does the way of `Create`,
`CreateDir` and `Remove` to the directory of a path and back.
-/

namespace Nachos.Filesys

open Foundations Resumption

section SoundPath

variable {w w' : World} {own : Nat → Option Nat} {m : Bitmap} {K : Nat → Prop}
  {objs handles : List FileId} {s : Nat} {c : List Nat} {me : Tid} {name : Name} {f : FileId}

/-- The disk and the current directory are the same. -/
structure SameTree (w w' : World) : Prop where
  disk_eq : w'.disk = w.disk
  current_eq : (books w').sectors w'.directoryFile = (books w).sectors w.directoryFile

theorem SameTree.roots {x : Nat} (h : SameTree w w') : Roots w' K x ↔ Roots w K x := by
  rw [Roots, Roots, h.current_eq]

theorem SameTree.isDirectory {x : Nat} (h : SameTree w w') :
    IsDirectory w'.disk (Roots w' K) x ↔ IsDirectory w.disk (Roots w K) x := by
  rw [h.disk_eq]
  exact ⟨fun hx => hx.reroot fun y hy => IsDirectory.root (h.roots.mp hy),
    fun hx => hx.reroot fun y hy => IsDirectory.root (h.roots.mpr hy)⟩

/-- No entry of the open-file table gets other flags. -/
theorem sameFlags_of_moves {α : Type} {p : Fs α} {a : α}
    (hp : p.Moves (TableStep (fun _ => True) fun _ => False)) (hrun : p.run w = some (a, w')) :
    ∀ x, SameFlags (w.table x) (w'.table x) :=
  fun x => (hp w a w' hrun).flags x not_false

/-! ## Opening and closing -/

/-- A new object stands at the beginning of its file. -/
theorem handleOk_new {t : Nat} (hlayout : Layout w.disk own) (ht : own t = some t)
    (hf : w.files f = some { hdr := hdrAt w.disk t, seekPosition := 0, sector := t, currentSector := t }) :
    HandleOk w f := by
  obtain ⟨c, hc⟩ := hlayout.fileOk ht
  have hmem := hc.chain.start_mem
  exact ⟨_, c, hf, hc.chain, hmem, Nat.zero_le _, (hc.ok t hmem).numBytes_le, next_mem_of_chain hc hmem⟩

/-- `Open` in the current directory. -/
theorem Sound.openFile {o : Option FileId} (h : Sound w own m K objs handles)
    (hrun : (openFile name).run w = some (o, w')) :
    Sound w' own m K (o.toList ++ objs) (o.toList ++ handles) ∧ SameTree w w' := by
  obtain ⟨s, c, hcur⟩ := h.current
  have hflags := sameFlags_of_moves tableStep_openFile hrun
  have hstep := dirStep_openFile _ _ _ hrun
  have hfiles : ∀ g ∈ objs, w'.files g = w.files g := fun g hg => h.sectors_eq hstep hg
  have hold : ∀ g ∈ objs, g ∉ handles → OldOrDirectory w K objs handles w' g :=
    fun g hg hnot => Or.inl ⟨hg, hnot, sectors_congr (hfiles g hg)⟩
  rcases h.toInOrder.openFile hcur hrun with ⟨rfl, hin, hcur', hdisk, -⟩ | ⟨f, rfl, hopened⟩
  · exact ⟨h.relocated hin hdisk (fun x hx => IsDirectory.root (hx.of_current hcur hcur')) hflags
      (fun g hg => hfiles g (h.handles_mem g hg)) h.handles_mem hold, hdisk, hcur'.object.trans hcur.object.symm⟩
  · have hnot : f ∉ objs := by
      have hnodup := (List.nodup_cons.mp (List.nodup_cons.mp hopened.inOrder.exact.nodup).2).2
      exact (List.nodup_cons.mp hnodup).1
    refine ⟨h.sameDisk hopened.inOrder hopened.disk_eq
      (fun x hx => IsDirectory.root (hx.of_current hcur hopened.current)) hflags
      (List.nodup_cons.mpr ⟨fun hf => hnot (h.handles_mem f hf), h.nodup⟩) (fun g hg => ?_) (fun g hg => ?_)
      fun g hg hng => ?_, hopened.disk_eq, hopened.current.object.trans hcur.object.symm⟩
    · exact List.mem_cons.mpr ((List.mem_cons.mp hg).imp id (h.handles_mem g))
    · rcases List.mem_cons.mp hg with rfl | hg
      · obtain ⟨i, hi, -, hfile⟩ := hopened.entry
        rw [← hopened.disk_eq] at hi hfile
        have hok := hopened.inOrder.directoryOk hopened.current
        exact handleOk_new hopened.inOrder.layout (hok.table.entries i hi).1 hfile
      · exact (h.handlesOk g hg).sameDisk hopened.disk_eq (hfiles g (h.handles_mem g hg))
    · have hgf : g ≠ f := by
        rintro rfl
        exact hng List.mem_cons_self
      exact hold g ((List.mem_cons.mp hg).resolve_left hgf) fun hmem => hng (List.mem_cons_of_mem _ hmem)

theorem InOrder.perm {objs' : List FileId} (h : InOrder w own m K objs) (hperm : objs.Perm objs') :
    InOrder w own m K objs' := by
  refine { h with kept := fun x hx => ?_, exact := ?_, objects := fun g hg => ?_ }
  · obtain ⟨g, hg, hgx⟩ := h.kept x hx
    exact ⟨g, hperm.mem_iff.mp hg, hgx⟩
  · exact h.exact.perm ((hperm.cons _).cons _)
  · exact h.objects g ((hperm.cons _).mem_iff.mpr hg)

/-- A handle is closed. -/
theorem Sound.close (h : Sound w own m (fun _ => False) objs handles) (hf : f ∈ handles)
    (hrun : (deleteOpenFile me f).run w = some ((), w')) :
    Sound w' own m (fun _ => False) (objs.erase f) (handles.erase f) ∧ SameTree w w' := by
  have hobj := h.handles_mem f hf
  obtain ⟨hin, hat⟩ := (h.toInOrder.perm (List.perm_cons_erase hobj)).closed (fun _ hfalse => hfalse)
    (fun _ hfalse => hfalse.elim) hrun
  have hnodup : objs.Nodup := (List.nodup_cons.mp (List.nodup_cons.mp h.exact.nodup).2).2
  have hfiles : ∀ g, g ≠ f → w'.files g = w.files g := by
    intro g hg
    rw [hat.files_eq, Function.update_of_ne hg]
  have hdir : w'.directoryFile ≠ f := by
    rw [hat.directoryFile_eq]
    exact (h.ne_directoryFile hobj).symm
  refine ⟨h.sameDisk hin hat.disk_eq (fun x hx => IsDirectory.root ?_)
    (sameFlags_of_moves (tableStep_deleteOpenFile f) hrun) (h.nodup.erase f) (fun g hg => ?_) (fun g hg => ?_)
    fun g hg hng => ?_, hat.disk_eq, (sectors_congr (hfiles _ hdir)).trans (by rw [hat.directoryFile_eq])⟩
  · rw [Roots, sectors_congr (hfiles _ hdir), hat.directoryFile_eq] at hx
    exact hx
  · rw [h.nodup.mem_erase_iff] at hg
    exact hnodup.mem_erase_iff.mpr ⟨hg.1, h.handles_mem g hg.2⟩
  · rw [h.nodup.mem_erase_iff] at hg
    exact (h.handlesOk g hg.2).sameDisk hat.disk_eq (hfiles g hg.1)
  · rw [hnodup.mem_erase_iff] at hg
    rw [h.nodup.mem_erase_iff] at hng
    exact Or.inl ⟨hg.2, fun hmem => hng ⟨hg.1, hmem⟩, sectors_congr (hfiles g hg.1)⟩

/-! ## Paths -/

/-- A change of the current directory that may leave objects of directories open. -/
theorem Sound.lost {lost : List FileId} (h : Sound w own m K objs handles)
    (hrel : Relocated w own m K objs (lost ++ objs) w') (hlost : AreDirectories w K lost w')
    (hflags : ∀ x, SameFlags (w.table x) (w'.table x)) : Sound w' own m K (lost ++ objs) handles := by
  refine h.relocated hrel.inOrder hrel.disk_eq hrel.roots hflags
    (fun f hf => hrel.files_eq f (h.handles_mem f hf))
    (fun f hf => List.mem_append_right _ (h.handles_mem f hf)) fun f hf hnot => ?_
  rcases List.mem_append.mp hf with hf | hf
  · exact Or.inr (hlost f hf)
  · exact Or.inl ⟨hf, hnot, sectors_congr (hrel.files_eq f hf)⟩

/-- `ChangeDir`. -/
theorem Sound.changeDir {success : Bool} (h : Sound w own m K objs handles)
    (hrun : (changeDir me name true).run w = some (success, w')) :
    ∃ lost, Sound w' own m K (lost ++ objs) handles ∧ w'.disk = w.disk ∧
      ∀ x, Roots w' K x → IsDirectory w.disk (Roots w K) x := by
  obtain ⟨lost, hrel, hlost⟩ := relocated_changeDir h.toInOrder hrun
  exact ⟨lost, h.lost hrel hlost (sameFlags_of_moves (tableStep_changeDir _) hrun), hrel.disk_eq, hrel.roots⟩

/-- `LastSlash` is the last one. -/
theorem le_lastSlash {i : Nat} (hi : 0 < i) (hslash : name[i]? = some slash) : i ≤ lastSlash name := by
  have hlt : i < name.length := (List.getElem?_eq_some_iff.mp hslash).1
  have hfold : ∀ n, i < n → i ≤ (List.range n).foldl
      (fun last j => if 0 < j ∧ name[j]? = some slash then j else last) 0 := by
    intro n
    induction n with
    | zero => exact fun hn => absurd hn (Nat.not_lt_zero i)
    | succ n ih =>
      intro hn
      rw [List.range_succ, List.foldl_append]
      simp only [List.foldl_cons, List.foldl_nil]
      by_cases hin : i = n
      · rw [hin] at hi hslash ⊢
        rw [if_pos ⟨hi, hslash⟩]
      · split
        · omega
        · exact ih (by omega)
  exact hfold name.length hlt

/-- The last piece of a path is no absolute path. -/
theorem head?_drop_lastSlash (name : Name) : (name.drop (lastSlash name + 1)).head? ≠ some slash := by
  intro hhead
  rw [List.head?_drop] at hhead
  have := le_lastSlash (Nat.succ_pos _) hhead
  omega

/-- The object to go back to, which is for the directory at `s`, `objs` and the object are those in use, and `K`
are the directories of those that are kept. -/
inductive WayBack (objs handles : List FileId) (w : World) (s : Nat) :
    Option FileId → (Nat → Prop) → List FileId → Prop where
  | here (hs : (books w).sectors w.directoryFile = some s) : WayBack objs handles w s none (fun _ => False) objs
  | back {f : FileId} {K : Nat → Prop} (hs : K s) (hf : (books w).sectors f = some s) (hnot : f ∉ handles) :
      WayBack objs handles w s (some f) K (f :: objs)

theorem WayBack.step {objs' : List FileId} {backup : Option FileId} {t : Nat}
    (h : WayBack objs handles w s backup K objs') (hfiles : ∀ f ∈ objs', w'.files f = w.files f)
    (ht : (books w).sectors w.directoryFile = some t) (ht' : (books w').sectors w'.directoryFile = some t) :
    WayBack objs handles w' s backup K objs' := by
  cases h with
  | here hs =>
    rw [ht] at hs
    exact WayBack.here (ht'.trans hs)
  | back hs hf hnot => exact WayBack.back hs ((sectors_congr (hfiles _ List.mem_cons_self)).trans hf) hnot

/-- The directories that were reached before are reached on the way, too. -/
theorem WayBack.roots {objs' : List FileId} {backup : Option FileId} {x : Nat}
    (h : WayBack objs handles w' s backup K objs') (hs : (books w).sectors w.directoryFile = some s)
    (hx : Roots w (fun _ => False) x) : Roots w' K x := by
  rcases hx with hx | hx | hx
  · exact Or.inl hx
  · rw [hs] at hx
    cases hx
    cases h with
    | here hs' => exact Or.inr (Or.inl hs')
    | back hK _ _ => exact Or.inr (Or.inr hK)
  · exact hx.elim

/-- `ChangeDir` of `Create`, `CreateDir` and `Remove` to a directory that exists. -/
theorem Sound.changeDirRootPath (h : Sound w own m (fun _ => False) objs handles) (hcur : CurrentIs w s c)
    (hrun : (changeDirRootPath me name false).run w = some (true, w')) :
    w'.disk = w.disk ∧ ∃ K objs', Sound w' own m K objs' handles ∧
      WayBack objs handles w' s (some w.directoryFile) K objs' ∧
      ∀ x, Roots w' K x → IsDirectory w.disk (Roots w fun _ => False) x := by
  have hrel := relocated_changeDirRootPath h.toInOrder hrun
  have hflags := sameFlags_of_moves (tableStep_changeDirRootPath _) hrun
  have hsector : (books w').sectors w.directoryFile = some s :=
    (sectors_congr (hrel.files_eq _ List.mem_cons_self)).trans hcur.object
  refine ⟨hrel.disk_eq, _, _, h.relocated hrel.inOrder hrel.disk_eq (fun x hx => (hrel.roots x hx).of_keeping) hflags
    (fun f hf => hrel.files_eq f (List.mem_cons_of_mem _ (h.handles_mem f hf)))
    (fun f hf => List.mem_cons_of_mem _ (h.handles_mem f hf)) (fun f hf hnot => ?_),
    WayBack.back (Or.inr hcur.object) hsector fun hmem => ?_, fun x hx => (hrel.roots x hx).of_keeping⟩
  · rcases List.mem_cons.mp hf with rfl | hf
    · exact Or.inr ⟨s, hsector, h.currentDirectory hcur⟩
    · exact Or.inl ⟨hf, hnot, sectors_congr (hrel.files_eq f (List.mem_cons_of_mem _ hf))⟩
  · exact h.ne_directoryFile (h.handles_mem _ hmem) rfl

/-- The beginning of `Create`, `CreateDir` and `Remove`. -/
theorem Sound.resolvePath {path : Option (Option FileId × Name)} (h : Sound w own m (fun _ => False) objs handles)
    (hcur : CurrentIs w s c) (hrun : (resolvePath me name).run w = some (path, w')) :
    w'.disk = w.disk ∧
      ((path = none ∧ (∀ x, Roots w' (fun _ => False) x → IsDirectory w.disk (Roots w fun _ => False) x) ∧
        ∃ lost, Sound w' own m (fun _ => False) (lost ++ objs) handles) ∨
        ∃ backup piece K objs', path = some (backup, piece) ∧ piece.head? ≠ some slash ∧
          Sound w' own m K objs' handles ∧ WayBack objs handles w' s backup K objs' ∧
          ∀ x, Roots w' K x → IsDirectory w.disk (Roots w fun _ => False) x) := by
  rw [Nachos.Filesys.resolvePath] at hrun
  split at hrun
  · rename_i habsolute
    split at hrun
    · cases hrun
      exact ⟨rfl, Or.inl ⟨rfl, fun x hx => IsDirectory.root hx, [], h⟩⟩
    · obtain ⟨_, w1, hassert, hrun⟩ := run_bind_eq_some.mp hrun
      rw [(run_assert_eq_some hassert).2] at hrun
      obtain ⟨_, _, hget, hrun⟩ := run_bind_eq_some.mp hrun
      cases hget
      obtain ⟨success, w2, hchange, hrun⟩ := run_bind_eq_some.mp hrun
      have hhead : (if lastSlash name = 0 then [slash] else name.take (lastSlash name)).head? = some slash := by
        split
        · rfl
        · rename_i hlast
          rw [List.head?_take, if_neg hlast]
          exact habsolute
      rw [Nachos.Filesys.changeDir, if_pos hhead] at hchange
      cases success with
      | true =>
        cases hrun
        obtain ⟨hdisk, K, objs', hsound, hback, hroots⟩ := h.changeDirRootPath hcur hchange
        exact ⟨hdisk, Or.inr ⟨_, _, K, objs', rfl, head?_drop_lastSlash name, hsound, hback, hroots⟩⟩
      | false =>
        cases hrun
        obtain ⟨lost, x, hrel, hx, hdir⟩ := relocated_notFound h.toInOrder hchange
        refine ⟨hrel.disk_eq, Or.inl ⟨rfl, hrel.roots, [lost], h.lost hrel (fun f hf => ?_)
          (sameFlags_of_moves (tableStep_changeDirRootPath _) hchange)⟩⟩
        rw [List.mem_singleton.mp hf]
        exact ⟨x, hx, hdir⟩
  · rename_i hrelative
    cases hrun
    exact ⟨rfl, Or.inr ⟨none, name, _, objs, rfl, hrelative, h, WayBack.here hcur.object,
      fun x hx => IsDirectory.root hx⟩⟩

/-- The directories that were kept are not needed any more. -/
theorem Sound.forget (h : Sound w own m K objs handles) : Sound w own m (fun _ => False) objs handles := by
  have hroots : ∀ x, Roots w (fun _ => False) x → IsDirectory w.disk (Roots w K) x :=
    fun x hx => IsDirectory.root (hx.imp id fun hx => hx.imp id False.elim)
  refine h.relocated (h.toInOrder.sameDisk rfl rfl hroots (fun _ hfalse => hfalse.elim) h.exact h.objects h.tidy
    h.current) rfl hroots (fun x => ⟨rfl, rfl, rfl⟩) (fun _ _ => rfl) h.handles_mem
    fun f hf hnot => Or.inl ⟨hf, hnot, rfl⟩

/-- The way back. -/
theorem Sound.restoreDirectory {objs' : List FileId} {backup : Option FileId} (h : Sound w own m K objs' handles)
    (hback : WayBack objs handles w s backup K objs') (hrun : (restoreDirectory me backup).run w = some ((), w')) :
    Sound w' own m (fun _ => False) objs handles ∧ w'.disk = w.disk ∧
      (books w').sectors w'.directoryFile = some s := by
  have hflags := sameFlags_of_moves (tableStep_restoreDirectory backup) hrun
  cases hback with
  | here hs =>
    cases hrun
    exact ⟨h, rfl, hs⟩
  | @back f K hs hf hnot =>
    obtain ⟨_, _, hget, hswitch⟩ := run_bind_eq_some.mp hrun
    cases hget
    have hdir : IsDirectory w.disk (Roots w K) s := IsDirectory.root (Or.inr (Or.inr hs))
    have h1 : Switched w own m (fun _ => False) objs f s w' :=
      h.switchDirectory hf hdir (fun _ hfalse => hfalse.elim) (fun _ hfalse => hfalse.elim) hswitch
    obtain ⟨c, hcur⟩ := h1.current
    have hne : ∀ g ∈ f :: objs, g ≠ w.directoryFile := fun g hg => h.ne_directoryFile hg
    have hmem : ∀ g ∈ handles, g ∈ objs ∧ g ≠ f := by
      intro g hg
      have hgf : g ≠ f := by
        rintro rfl
        exact hnot hg
      exact ⟨(List.mem_cons.mp (h.handles_mem g hg)).resolve_left hgf, hgf⟩
    refine ⟨h.relocated h1.inOrder h1.disk_eq ?_ hflags (fun g hg => ?_) (fun g hg => (hmem g hg).1)
      fun g hg hng => Or.inl ⟨List.mem_cons_of_mem _ hg, hng, ?_⟩, h1.disk_eq, hcur.object⟩
    · exact roots_of_current hcur h.root hdir fun _ hfalse => hfalse.elim
    · exact h1.files_eq g (hmem g hg).2 (hne g (h.handles_mem g hg))
    · exact h1.sectors_eq g (hne g (List.mem_cons_of_mem _ hg))

end SoundPath

end Nachos.Filesys
