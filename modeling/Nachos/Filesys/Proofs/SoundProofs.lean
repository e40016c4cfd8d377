import Nachos.Filesys.Proofs.NewDirectoryProofs
import Nachos.Filesys.Proofs.UnlinkProofs

/-!
# Proofs: sound file systems

A file system in order in which the open-file table is right, too: the directories are not files made by
`Create`, no file of the disk counts as removed, and a handle stands in its file. The calls in the current
directory keep it so, and so does `Write` on a file made by `Create`.
-/

namespace Nachos.Filesys

open Foundations Resumption

/-- The object `f` stands in its file. -/
def HandleOk (w : World) (f : FileId) : Prop :=
  ∃ file c, w.files f = some file ∧ HeaderChain w.disk file.sector c ∧ HandleIn c file

/-- The file system is sound. The objects `handles` are those that can be read and written; the other
objects in use are those of directories. -/
structure Sound (w : World) (own : Nat → Option Nat) (m : Bitmap) (K : Nat → Prop)
    (objs handles : List FileId) : Prop extends InOrder w own m K objs where
  plain : ∀ x, IsDirectory w.disk (Roots w K) x → (w.table x).madeByCreate = false
  clean : ∀ x c, IsDirectory w.disk (Roots w K) x → HeaderChain w.disk x c → Clean (content w.disk c)
  live : ∀ x, own x = some x → (w.table x).removed = false
  idle : ∀ x, (w.table x).removing = false
  nodup : handles.Nodup
  handles_mem : ∀ f ∈ handles, f ∈ objs
  handlesOk : ∀ f ∈ handles, HandleOk w f
  others : ∀ f ∈ objs, f ∉ handles → ∀ x, (books w).sectors f = some x → (w.table x).madeByCreate = false

section Sound

variable {w w' : World} {own own' : Nat → Option Nat} {m m' : Bitmap} {K K' : Nat → Prop}
  {objs objs' handles handles' : List FileId} {s t : Nat} {c c' : List Nat} {me : Tid} {name : Name} {f : FileId}

/-! ## Steps that do not touch the disk -/

theorem HandleOk.sameDisk (h : HandleOk w f) (hdisk : w'.disk = w.disk) (hfile : w'.files f = w.files f) :
    HandleOk w' f := by
  obtain ⟨file, c, hf, hc, hin⟩ := h
  refine ⟨file, c, hfile.trans hf, ?_, hin⟩
  rw [hdisk]
  exact hc

/-- The object `f` was in use before and no handle, or it is that of a directory. -/
def OldOrDirectory (w : World) (K : Nat → Prop) (objs handles : List FileId) (w' : World) (f : FileId) : Prop :=
  (f ∈ objs ∧ f ∉ handles ∧ (books w').sectors f = (books w).sectors f) ∨
    ∃ x, (books w').sectors f = some x ∧ IsDirectory w.disk (Roots w K) x

/-- The rule for a step that does not touch the disk. -/
theorem Sound.sameDisk (h : Sound w own m K objs handles) (hin : InOrder w' own m K' objs')
    (hdisk : w'.disk = w.disk) (hroots : ∀ x, Roots w' K' x → IsDirectory w.disk (Roots w K) x)
    (hflags : ∀ x, SameFlags (w.table x) (w'.table x)) (hnodup : handles'.Nodup)
    (hmem : ∀ f ∈ handles', f ∈ objs') (hhandles : ∀ f ∈ handles', HandleOk w' f)
    (hobjs : ∀ f ∈ objs', f ∉ handles' → OldOrDirectory w K objs handles w' f) :
    Sound w' own m K' objs' handles' := by
  have hdirs : ∀ x, IsDirectory w'.disk (Roots w' K') x → IsDirectory w.disk (Roots w K) x := by
    intro x hx
    rw [hdisk] at hx
    exact hx.reroot hroots
  refine ⟨hin, fun x hx => ?_, fun x c hx hc => ?_, fun x hx => ?_, fun x => ?_, hnodup, hmem, hhandles,
    fun f hf hnot x hx => ?_⟩
  · rw [(hflags x).madeByCreate_eq]
    exact h.plain x (hdirs x hx)
  · rw [hdisk] at hc ⊢
    exact h.clean x c (hdirs x hx) hc
  · rw [(hflags x).removed_eq]
    exact h.live x hx
  · rw [(hflags x).removing_eq]
    exact h.idle x
  · rw [(hflags x).madeByCreate_eq]
    rcases hobjs f hf hnot with ⟨hold, hother, hsame⟩ | ⟨y, hy, hdir⟩
    · exact h.others f hold hother x (hsame.symm.trans hx)
    · obtain rfl := Option.some.inj (hy.symm.trans hx)
      exact h.plain y hdir

/-- The rule for a step that leaves the handles alone, too. -/
theorem Sound.relocated (h : Sound w own m K objs handles) (hin : InOrder w' own m K' objs')
    (hdisk : w'.disk = w.disk) (hroots : ∀ x, Roots w' K' x → IsDirectory w.disk (Roots w K) x)
    (hflags : ∀ x, SameFlags (w.table x) (w'.table x)) (hfiles : ∀ f ∈ handles, w'.files f = w.files f)
    (hmem : ∀ f ∈ handles, f ∈ objs')
    (hobjs : ∀ f ∈ objs', f ∉ handles → OldOrDirectory w K objs handles w' f) :
    Sound w' own m K' objs' handles :=
  h.sameDisk hin hdisk hroots hflags h.nodup hmem
    (fun f hf => (h.handlesOk f hf).sameDisk hdisk (hfiles f hf)) hobjs

theorem sectors_congr (hfile : w'.files f = w.files f) : (books w').sectors f = (books w).sectors f := by
  show (w'.files f).map OpenFile.sector = (w.files f).map OpenFile.sector
  rw [hfile]

/-- A step that touches neither the disk nor the objects. -/
theorem Sound.quiet (h : Sound w own m K objs handles) (hq : Quiet w w') (hbooks : SameBooks w w')
    (htidy : KeepsTidy w w') (hflags : ∀ x, SameFlags (w.table x) (w'.table x)) :
    Sound w' own m K objs handles := by
  refine h.relocated (h.toInOrder.quiet hq hbooks htidy) hq.disk_eq (fun x hx => ?_) hflags
    (fun f _ => by rw [hq.files_eq]) h.handles_mem fun f hf hnot => Or.inl ⟨hf, hnot, by rw [hbooks.books_eq]⟩
  rw [Roots, hbooks.books_eq, hq.directoryFile_eq] at hx
  exact IsDirectory.root hx

/-! ## Changes of the current directory -/

theorem Roots.of_current {x : Nat} (hcur : CurrentIs w s c) (hcur' : CurrentIs w' s c') (h : Roots w' K x) :
    Roots w K x := by
  rcases h with hx | hx | hx
  · exact Or.inl hx
  · obtain rfl := Option.some.inj (hcur'.object.symm.trans hx)
    exact Or.inr (Or.inl hcur.object)
  · exact Or.inr (Or.inr hx)

/-- The object `f` still stands in its file, if the chain of headers is the same or has grown. -/
theorem HandleOk.grown {l : List Nat} (h : HandleOk w f) (hlayout : Layout w.disk own) (hobj : ObjectOk w own f)
    (honly : OnlyFiles l w.disk own w'.disk own') (hfile : w'.files f = w.files f)
    (hgrow : ∀ y c, y ∈ l → (books w).sectors f = some y → HeaderChain w.disk y c →
      ∃ c', HeaderChain w'.disk y c' ∧ c <+: c') : HandleOk w' f := by
  obtain ⟨file, c, hf, hc, hin⟩ := h
  obtain ⟨y, hy, hy0, hown⟩ := hobj
  have hsector : file.sector = y := by
    change (w.files f).map OpenFile.sector = some y at hy
    rw [hf] at hy
    exact Option.some.inj hy
  rw [hsector] at hc
  by_cases hl : y ∈ l
  · obtain ⟨c', hc', hpre⟩ := hgrow y c hl hy hc
    refine ⟨file, c', hfile.trans hf, ?_, hin.mono hpre⟩
    rw [hsector]
    exact hc'
  · obtain ⟨b, hb⟩ := hlayout.fileOk hown
    obtain rfl := hc.unique hb.chain
    refine ⟨file, c, hfile.trans hf, ?_, hin⟩
    rw [hsector]
    exact (honly.file hlayout hy0 hl hb).1.chain

theorem Sound.clean_other {l : List Nat} {x : Nat} {b : List Nat} (h : Sound w own m K objs handles)
    (honly : OnlyFiles l w.disk own w'.disk own') (hx : IsDirectory w.disk (Roots w K) x) (hl : x ∉ l)
    (hb : HeaderChain w'.disk x b) : Clean (content w'.disk b) := by
  obtain ⟨b', hok, hfile, -, hcontent⟩ := h.tree.unchanged h.layout honly hx hl
  obtain rfl := hb.unique hfile.chain
  rw [hcontent]
  exact h.clean x b hx hok.file.chain

theorem Sound.own_directory {x : Nat} (h : Sound w own m K objs handles)
    (hx : IsDirectory w.disk (Roots w K) x) : own x = some x := by
  obtain ⟨b, hb⟩ := h.tree.directory x hx
  exact hb.file.own_start

/-- What is known after the current directory at `s` got or lost the entry of the file `t`, which no object
is for. -/
structure EntryChanged (w : World) (own : Nat → Option Nat) (K : Nat → Prop) (objs : List FileId) (s : Nat)
    (c : List Nat) (t : Nat) (w' : World) (own' : Nat → Option Nat) (c' : List Nat) : Prop where
  only : OnlyFiles [s, t] w.disk own w'.disk own'
  isPrefix : c <+: c'
  files_eq : ∀ f ∈ objs, w'.files f = w.files f
  flags : ∀ x, x ≠ t → SameFlags (w.table x) (w'.table x)
  closed : ∀ f ∈ w.directoryFile :: objs, (books w).sectors f ≠ some t
  clean : Clean (content w.disk c) → Clean (content w'.disk c')
  directories : ∀ x, IsDirectory w'.disk (Roots w K) x → (IsDirectory w.disk (Roots w K) x ∧ x ≠ t) ∨
    (x = t ∧ (w'.table t).madeByCreate = false ∧ ∀ b, HeaderChain w'.disk t b → Clean (content w'.disk b))
  live : own' t = some t → (w'.table t).removed = false
  idle : (w'.table t).removing = false

theorem Sound.changed (h : Sound w own m K objs handles) (hcur : CurrentIs w s c)
    (hin : InOrder w' own' m' K objs) (hcur' : CurrentIs w' s c')
    (hch : EntryChanged w own K objs s c t w' own' c') : Sound w' own' m' K objs handles := by
  have hdirs' : ∀ x, IsDirectory w'.disk (Roots w' K) x → IsDirectory w'.disk (Roots w K) x :=
    fun x hx => hx.reroot fun y hy => IsDirectory.root (hy.of_current hcur hcur')
  refine ⟨hin, fun x hx => ?_, fun x b hx hb => ?_, fun x hx => ?_, fun x => ?_, h.nodup,
    h.handles_mem, fun f hf => ?_, fun f hf hnot x hx => ?_⟩
  · rcases hch.directories x (hdirs' x hx) with ⟨hold, hxt⟩ | ⟨rfl, hmade, -⟩
    · rw [(hch.flags x hxt).madeByCreate_eq]
      exact h.plain x hold
    · exact hmade
  · rcases hch.directories x (hdirs' x hx) with ⟨hold, hxt⟩ | ⟨rfl, -, hclean⟩
    · by_cases hxs : x = s
      · rw [hxs] at hb hold
        obtain rfl := hb.unique hcur'.chain
        exact hch.clean (h.clean s c hold hcur.chain)
      · exact h.clean_other hch.only hold (by simp [hxs, hxt]) hb
    · exact hclean b hb
  · by_cases hxt : x = t
    · rw [hxt] at hx ⊢
      exact hch.live hx
    · have hown : own x = some x := by
        by_cases hxs : x = s
        · rw [hxs]
          exact h.own_directory (h.currentDirectory hcur)
        · exact (hch.only.own_iff x x (by simp [hxs, hxt])).mp hx
      rw [(hch.flags x hxt).removed_eq]
      exact h.live x hown
  · by_cases hxt : x = t
    · rw [hxt]
      exact hch.idle
    · rw [(hch.flags x hxt).removing_eq]
      exact h.idle x
  · have hobjs := List.mem_cons_of_mem w.directoryFile (h.handles_mem f hf)
    refine (h.handlesOk f hf).grown h.layout (h.objects f hobjs) hch.only
      (hch.files_eq f (h.handles_mem f hf)) fun y b hy hfy hb => ?_
    have hyt : y ≠ t := by
      rintro rfl
      exact hch.closed f hobjs hfy
    obtain rfl : y = s := by simpa [hyt] using hy
    rw [hb.unique hcur.chain]
    exact ⟨c', hcur'.chain, hch.isPrefix⟩
  · rw [sectors_congr (hch.files_eq f hf)] at hx
    have hxt : x ≠ t := by
      rintro rfl
      exact hch.closed f (List.mem_cons_of_mem _ hf) hx
    rw [(hch.flags x hxt).madeByCreate_eq]
    exact h.others f hf hnot x hx

/-- The current directory got an entry for the new file `t`. -/
theorem Sound.created {isDirectory : Bool} (h : Sound w own m K objs handles) (hcur : CurrentIs w s c)
    (hnew : EntryCreated w own m K objs s c name t isDirectory w' own' m' c')
    (hdirs : ∀ x, IsDirectory w'.disk (Roots w K) x →
      IsDirectory w.disk (Roots w K) x ∨ (x = t ∧ isDirectory = true ∧
        ∀ b, HeaderChain w'.disk t b → Clean (content w'.disk b))) : Sound w' own' m' K objs handles := by
  have hfresh : ∀ x, own x = some x → x ≠ t := by
    rintro x hx rfl
    rw [hnew.fresh] at hx
    cases hx
  refine h.changed hcur hnew.inOrder hnew.current ⟨hnew.only, hnew.isPrefix, hnew.files_eq,
    hnew.tableStep.flags, fun f hf hft => ?_, fun hclean => ?_, fun x hx => ?_,
    fun _ => hnew.entry.removed_eq, hnew.entry.removing_eq⟩
  · obtain ⟨y, hy, -, hown⟩ := h.objects f hf
    exact hfresh y hown (Option.some.inj (hy.symm.trans hft))
  · obtain ⟨i, hadds⟩ := hnew.adds
    exact hadds.clean hclean
  · rcases hdirs x hx with hold | ⟨hxt, rfl, hclean⟩
    · exact Or.inl ⟨hold, hfresh x (h.own_directory hold)⟩
    · exact Or.inr ⟨hxt, hnew.entry.madeByCreate_eq, hclean⟩

/-- The current directory lost the entry of the file `t`, and the file is gone. -/
theorem Sound.removed (h : Sound w own m K objs handles) (hcur : CurrentIs w s c)
    (hgone : EntryRemoved w own m K objs s c name t w' own' m' c')
    (hflags : ∀ x, x ≠ t → SameFlags (w.table x) (w'.table x)) (hidle : (w'.table t).removing = false) :
    Sound w' own' m' K objs handles := by
  refine h.changed hcur hgone.inOrder hgone.current ⟨hgone.only, hgone.isPrefix, hgone.files_eq, hflags,
    fun f hf hft => ?_, fun hclean => ?_, fun x hx => Or.inl (hgone.directories x hx),
    fun hown => absurd hown (hgone.gone t), hidle⟩
  · have hpos := h.count_pos hf hft
    rw [hgone.closed] at hpos
    exact Nat.lt_irrefl _ hpos
  · obtain ⟨i, hremoves, -⟩ := hgone.removes
    exact hremoves.clean (h.directoryOk hcur).table.length_eq hclean

theorem Sound.unchanged (h : Sound w own m K objs handles) (hcur : CurrentIs w s c)
    (hun : Unchanged w own m K objs s c w') : Sound w' own m K objs handles := by
  refine h.relocated hun.inOrder hun.disk_eq
    (fun x hx => IsDirectory.root (hx.of_current hcur hun.current)) (fun x => ?_)
    (fun f hf => hun.files_eq f (h.handles_mem f hf)) h.handles_mem fun f hf hnot =>
      Or.inl ⟨hf, hnot, sectors_congr (hun.files_eq f hf)⟩
  rw [hun.sameTable.table_eq]
  exact ⟨rfl, rfl, rfl⟩

/-! ## What a call changes -/

/-- No file is changed but those in `P`, the new ones and those that are gone. -/
structure Touched (P : Nat → Prop) (d : Disk) (own : Nat → Option Nat) (d' : Disk) (own' : Nat → Option Nat) :
    Prop where
  files : ∃ l, OnlyFiles l d own d' own' ∧ ∀ x ∈ l, P x ∨ own x = none ∨ ∀ y, own' y ≠ some x

theorem Touched.refl (P : Nat → Prop) (d : Disk) (own : Nat → Option Nat) : Touched P d own d own :=
  ⟨[], OnlyFiles.refl _ _ _, fun x hx => by cases hx⟩

theorem Touched.mono {P P' : Nat → Prop} {d d' : Disk} (h : Touched P d own d' own') (hP : ∀ x, P x → P' x) :
    Touched P' d own d' own' := by
  obtain ⟨l, honly, hl⟩ := h.files
  exact ⟨l, honly, fun x hx => (hl x hx).imp (hP x) id⟩

/-- Nothing else happens to a file that is there before and after. -/
theorem Touched.onlyFiles {P : Nat → Prop} {d d' : Disk} {x : Nat} (h : Touched P d own d' own') (hx : ¬ P x)
    (hown : own x = some x) (hown' : own' x = some x) : ∃ l, OnlyFiles l d own d' own' ∧ x ∉ l := by
  obtain ⟨l, honly, hl⟩ := h.files
  refine ⟨l, honly, fun hmem => ?_⟩
  rcases hl x hmem with hP | hnone | hgone
  · exact hx hP
  · rw [hown] at hnone
    cases hnone
  · exact hgone x hown'

/-- The entries of the table `t` for files that are still there are kept in `t'`. -/
def EntriesKept (t : List UInt8) (own' : Nat → Option Nat) (t' : List UInt8) : Prop :=
  ∀ j, Used t j → own' (entrySector t j) = some (entrySector t j) → Used t' j ∧ SameEntry t' t j

/-- What is known after a call that changes the directory at `s` by the entry of this name. -/
structure TouchedDirectory (K : Nat → Prop) (s : Nat) (name : Name) (w : World) (own : Nat → Option Nat)
    (m : Bitmap) (d' : Disk) (own' : Nat → Option Nat) (m' : Bitmap) : Prop
    extends Touched (· = s) w.disk own d' own' where
  marks : MarksOwned m own → MarksOwned m' own'
  kept : ∀ c c', HeaderChain w.disk s c → HeaderChain d' s c' →
    EntriesKept (content w.disk c) own' (content d' c')
  news : ∀ c' x, HeaderChain d' s c' → own x ≠ some x → own' x = some x →
    ∃ i, Used (content d' c') i ∧ entrySector (content d' c') i = x
  gone : ∀ c x, HeaderChain w.disk s c → own x = some x → own' x ≠ some x →
    ∃ i, Used (content w.disk c) i ∧ entryHasName (content w.disk c) i name = true ∧
      entrySector (content w.disk c) i = x ∧ ¬ Roots w K x

theorem TouchedDirectory.refl (K : Nat → Prop) (s : Nat) (name : Name) (w : World) (own : Nat → Option Nat)
    (m : Bitmap) : TouchedDirectory K s name w own m w.disk own m := by
  refine ⟨Touched.refl _ _ _, id, fun c c' hc hc' j hj _ => ?_, fun c' x _ hx hx' => absurd hx' hx,
    fun c x _ hx hx' => absurd hx hx'⟩
  rw [hc'.unique hc]
  exact ⟨hj, fun _ _ => rfl⟩

/-- Steps before that do not touch the disk. -/
theorem TouchedDirectory.congr {d' : Disk} {w1 : World} (h : TouchedDirectory K s name w1 own m d' own' m')
    (hdisk : w1.disk = w.disk) (hroots : ∀ x, Roots w K x → Roots w1 K x) :
    TouchedDirectory K s name w own m d' own' m' := by
  refine ⟨?_, h.marks, ?_, h.news, fun c x hc hx hx' => ?_⟩
  · rw [← hdisk]
    exact h.toTouched
  · rw [← hdisk]
    exact h.kept
  · rw [← hdisk] at hc ⊢
    obtain ⟨i, hi, hname, hsector, hnot⟩ := h.gone c x hc hx hx'
    exact ⟨i, hi, hname, hsector, fun hroot => hnot (hroots x hroot)⟩

/-- No file is gone. -/
theorem EntryCreated.own_of_own {isDirectory : Bool}
    (hnew : EntryCreated w own m K objs s c name t isDirectory w' own' m' c') (x : Nat) (hx : own x = some x) :
    own' x = some x := by
  by_cases hxs : x = s
  · rw [hxs]
    exact (hnew.inOrder.directoryOk hnew.current).file.own_start
  · have hxt : x ≠ t := by
      rintro rfl
      rw [hnew.fresh] at hx
      cases hx
    exact (hnew.only.own_iff x x (by simp [hxs, hxt])).mpr hx

/-- The current directory got an entry for the new file `t`. -/
theorem EntryCreated.touched {isDirectory : Bool} (h : InOrder w own m K objs) (hcur : CurrentIs w s c)
    (hnew : EntryCreated w own m K objs s c name t isDirectory w' own' m' c') :
    TouchedDirectory K s name w own m w'.disk own' m' := by
  obtain ⟨i, hadds⟩ := hnew.adds
  have hstart := (h.directoryOk hcur).file.own_start
  refine ⟨⟨[s, t], hnew.only, fun x hx => ?_⟩, hnew.marks, fun b b' hb hb' => ?_, fun b' x hb' hx hx' => ?_,
    fun b x _ hx hx' => ?_⟩
  · rcases List.mem_cons.mp hx with rfl | hx
    · exact Or.inl rfl
    · rw [List.mem_singleton.mp hx]
      exact Or.inr (Or.inl hnew.fresh)
  · rw [hb.unique hcur.chain, hb'.unique hnew.current.chain]
    intro j hj _
    have hji : j ≠ i := by
      rintro rfl
      exact hadds.free hj
    have hlt := Nat.lt_of_lt_of_le hj.lt hadds.size_le
    obtain ⟨-, hsame⟩ := hadds.others j hji hlt
    exact ⟨⟨hlt, hsame.inUse_eq.trans hj.inUse⟩, hsame⟩
  · rw [hb'.unique hnew.current.chain]
    have hxs : x ≠ s := by
      rintro rfl
      exact hx hstart
    have hxt : x = t := by
      by_contra hxt
      exact hx ((hnew.only.own_iff x x (by simp [hxs, hxt])).mp hx')
    exact ⟨i, hadds.used, hadds.sector_eq.trans hxt.symm⟩
  · exact absurd (hnew.own_of_own x hx) hx'

/-- The current directory lost the entry of the file `t`. -/
theorem EntryRemoved.touched (h : InOrder w own m K objs) (hcur : CurrentIs w s c)
    (hgone : EntryRemoved w own m K objs s c name t w' own' m' c') :
    TouchedDirectory K s name w own m w'.disk own' m' := by
  obtain ⟨i, hremoves, ht⟩ := hgone.removes
  have hstart := (h.directoryOk hcur).file.own_start
  have hother : ∀ x, x ≠ s → x ≠ t → (own' x = some x ↔ own x = some x) := fun x hxs hxt =>
    hgone.only.own_iff x x (by simp [hxs, hxt])
  refine ⟨⟨[s, t], hgone.only, fun x hx => ?_⟩, hgone.marks, fun b b' hb hb' => ?_, fun b' x _ hx hx' => ?_,
    fun b x hb hx hx' => ?_⟩
  · rcases List.mem_cons.mp hx with rfl | hx
    · exact Or.inl rfl
    · rw [List.mem_singleton.mp hx]
      exact Or.inr (Or.inr hgone.gone)
  · rw [hb.unique hcur.chain, hb'.unique hgone.current.chain, hremoves.eq_clearEntry]
    intro j hj hown
    have hji : j ≠ i := by
      rintro rfl
      rw [ht] at hown
      exact hgone.gone t hown
    have hsame : SameEntry (clearEntry (content w.disk c) i) (content w.disk c) j := clearEntry_sameEntry hji.symm
    refine ⟨⟨?_, hsame.inUse_eq.trans hj.inUse⟩, hsame⟩
    rw [numEntries_clearEntry]
    exact hj.lt
  · have hxs : x ≠ s := by
      rintro rfl
      exact hx hstart
    have hxt : x ≠ t := by
      rintro rfl
      exact hgone.gone x hx'
    exact absurd ((hother x hxs hxt).mp hx') hx
  · rw [hb.unique hcur.chain]
    have hxs : x ≠ s := by
      rintro rfl
      exact hx' (hgone.inOrder.directoryOk hgone.current).file.own_start
    have hxt : x = t := by
      by_contra hxt
      exact hx' ((hother x hxs hxt).mpr hx)
    have hclosed := hgone.closed
    rw [← ht] at hclosed
    refine ⟨i, hremoves.used, hremoves.hasName, ht.trans hxt.symm, ?_⟩
    rw [hxt, ← ht]
    exact h.not_root hcur hremoves.used hclosed

/-! ## Creating and removing -/

/-- `Create` in the current directory. -/
theorem Sound.createFile {success : Bool} (h : Sound w own m K objs handles) (hcur : CurrentIs w s c)
    (hname : name.head? ≠ some slash) (hfits : CreateFits w name)
    (hrun : (createFile me name).run w = some (success, w')) :
    ∃ own' m', Sound w' own' m' K objs handles ∧ TouchedDirectory K s name w own m w'.disk own' m' ∧
      (∃ c', CurrentIs w' s c') ∧ ∀ x, own x = some x → own' x = some x := by
  have hroom := hfits s c m hcur h.mapIs
  rcases h.toInOrder.createFile hcur hname (fun hgrow hclear => (hroom hgrow hclear).1) hrun with
    ⟨-, hun⟩ | ⟨-, own', m', c', t, hnew, -⟩
  · refine ⟨own, m, h.unchanged hcur hun, ?_, ⟨c, hun.current⟩, fun _ hx => hx⟩
    rw [hun.disk_eq]
    exact TouchedDirectory.refl _ _ _ _ _ _
  · refine ⟨own', m', h.created hcur hnew fun x hx => Or.inl ?_, hnew.touched h.toInOrder hcur,
      ⟨c', hnew.current⟩, hnew.own_of_own⟩
    exact hnew.plain rfl (h.clean s c (h.currentDirectory hcur) hcur.chain)
      (fun hgrow => (hroom hgrow hnew.clear).2) x hx

/-- `CreateDir` in the current directory. -/
theorem Sound.createDirectory {result : Option Bool} (h : Sound w own m K objs handles)
    (hcur : CurrentIs w s c) (hname : name.head? ≠ some slash) (hfits : CreateDirFits w name)
    (hrun : (createDirectory me name).run w = some (result, w')) :
    ∃ own' m', Sound w' own' m' K objs handles ∧ TouchedDirectory K s name w own m w'.disk own' m' ∧
      (∃ c', CurrentIs w' s c') ∧ ∀ x, own x = some x → own' x = some x := by
  rcases h.toInOrder.createDirectory hcur hname (hfits s c m hcur h.mapIs) hrun with
    ⟨-, hun⟩ | ⟨-, own', m', c', t, hnew, hempty⟩
  · refine ⟨own, m, h.unchanged hcur hun, ?_, ⟨c, hun.current⟩, fun _ hx => hx⟩
    rw [hun.disk_eq]
    exact TouchedDirectory.refl _ _ _ _ _ _
  · refine ⟨own', m', h.created hcur hnew fun x hx => (hnew.directories x hx).imp id fun hxt => ?_,
      hnew.touched h.toInOrder hcur, ⟨c', hnew.current⟩, hnew.own_of_own⟩
    refine ⟨hxt, rfl, fun b hb => ?_⟩
    rw [hb.unique hempty.file.chain]
    exact hempty.clean

/-- `Remove` in the current directory, up to the way back to the directory before. -/
theorem Sound.removeFile {success : Bool} {backup : Option FileId} (h : Sound w own m K objs handles)
    (hcur : CurrentIs w s c) (hrun : (removeFile me backup name).run w = some (success, w')) :
    ∃ w1 own' m', Sound w1 own' m' K objs handles ∧ TouchedDirectory K s name w own m w1.disk own' m' ∧
      (∃ c', CurrentIs w1 s c') ∧
      (∀ f ∈ objs, w1.files f = w.files f) ∧ (restoreDirectory me backup).run w1 = some ((), w') := by
  obtain ⟨dir, w1, hfetch, hrun⟩ := run_bind_eq_some.mp hrun
  have h1 := h.fetchDirectory hcur hfetch
  have hun := h1.unchanged h.toInOrder
  have hs1 := h.unchanged hcur hun
  have hdisk1 := h1.fetched.disk_eq
  dsimp only at hrun
  rcases h.find_cases hcur h1.table_eq h1.size_eq name with ⟨hfind, -, -⟩ | ⟨i, hi, hname, hindex, hfind, hlt⟩
  · rw [hfind, if_pos rfl] at hrun
    obtain ⟨_, w2, hrestore, hret⟩ := run_bind_eq_some.mp hrun
    cases hret
    refine ⟨w1, own, m, hs1, ?_, ⟨c, hun.current⟩, hun.files_eq, hrestore⟩
    rw [hun.disk_eq]
    exact TouchedDirectory.refl _ _ _ _ _ _
  · rw [if_neg (by omega)] at hrun
    have hsector : (dir.find name % 2 ^ 32).toNat = entrySector (content w.disk c) i := by
      rw [hfind]
      have : entrySector (content w.disk c) i < 2 ^ 32 := Nat.lt_trans hlt (by decide)
      omega
    rw [hsector, run_bind, run_getEntry hlt, Option.bind_some] at hrun
    obtain ⟨_, w2, hacquire, hrun⟩ := run_bind_eq_some.mp hrun
    rw [run_bind, run_getEntry hlt, Option.bind_some] at hrun
    have hq := quiet_acquireRemove _ _ _ hacquire
    have hbooks := sameBooks_acquireRemove _ _ _ _ hacquire
    have htable := table_acquireRemove hacquire
    have hs2 := hs1.quiet hq hbooks (tidy_acquireRemove _ _ _ _ hacquire) fun x => by
      rw [htable]
      exact ⟨rfl, rfl, rfl⟩
    have hown := ((h.directoryOk hcur).table.entries i hi).1
    rw [if_neg (by rw [hs2.live _ hown]; decide)] at hrun
    obtain ⟨_, w3, hremove, hrun⟩ := run_bind_eq_some.mp hrun
    obtain ⟨_, w4, hrestore, hret⟩ := run_bind_eq_some.mp hrun
    cases hret
    have hdisk2 := hq.disk_eq.trans hdisk1
    have hcur2 := h1.current.sameBooks hq.disk_eq hbooks hq.directorySize_eq
    have hpos2 : 0 < w2.directorySize := by
      rw [hcur2.size_eq, hdisk2, ← h1.size_eq]
      exact h1.size_pos
    have hshows : Shows dir w2 c := by
      refine ⟨?_, ?_⟩
      · rw [hdisk2]
        exact h1.table_eq
      · rw [hdisk2]
        exact h1.size_eq
    obtain ⟨hstep, hidle⟩ := tableStep_removeSector (P := fun _ => False)
      (T := (· = entrySector (content w.disk c) i)) rfl rfl hacquire hremove
    rw [← hdisk2] at hi hname hremove hstep hidle
    obtain ⟨own', m', c', hgone⟩ := hs2.removeSector hcur2 hpos2 hshows hi hname hindex hremove
    refine ⟨w3, own', m', hs2.removed hcur2 hgone (fun x hx => ?_) hidle,
      (hgone.touched hs2.toInOrder hcur2).congr hdisk2 fun x hx => hx.of_current hcur2 hcur,
      ⟨c', hgone.current⟩, fun f hf => ?_, hrestore⟩
    · rw [htable]
      exact hstep.flags x hx
    · rw [hgone.files_eq f hf, hq.files_eq, hun.files_eq f hf]

end Sound

end Nachos.Filesys
