import Nachos.Filesys.Proofs.InOrderProofs

/-!
# Proofs: changing the directory

`ChangeDir`, and the way of `Create`, `CreateDir` and `Remove` to the directory of an absolute path and
back. They open and close objects of directories; the file system stays in order, whether they find the
path or not.
-/

namespace Nachos.Filesys

open Foundations Resumption

section Walk

variable {w w' : World} {own : Nat → Option Nat} {m : Bitmap} {K : Nat → Prop} {objs : List FileId}
  {s : Nat} {c : List Nat} {me : Tid} {name : Name} {f : FileId} {dir : Directory}

/-- A table in memory is that of the current directory. -/
structure Shows (dir : Directory) (w : World) (c : List Nat) : Prop where
  table_eq : dir.table = content w.disk c
  size_eq : dir.tableSize = numEntries (content w.disk c)

/-- What is known after the current directory has changed: the disk and the objects `objs` are as they
were, the objects in use are `objs'`, and the directories are reached from directories. -/
structure Relocated (w : World) (own : Nat → Option Nat) (m : Bitmap) (K : Nat → Prop)
    (objs objs' : List FileId) (w' : World) : Prop where
  inOrder : InOrder w' own m K objs'
  disk_eq : w'.disk = w.disk
  files_eq : ∀ g ∈ objs, w'.files g = w.files g
  roots : ∀ x, Roots w' K x → IsDirectory w.disk (Roots w K) x

theorem Relocated.refl (h : InOrder w own m K objs) : Relocated w own m K objs objs w :=
  ⟨h, rfl, fun _ _ => rfl, fun _ hx => IsDirectory.root hx⟩

theorem Relocated.trans {w'' : World} {objs' : List FileId} (h : Relocated w own m K objs objs w')
    (h' : Relocated w' own m K objs objs' w'') : Relocated w own m K objs objs' w'' := by
  refine ⟨h'.inOrder, h'.disk_eq.trans h.disk_eq, fun g hg => (h'.files_eq g hg).trans (h.files_eq g hg),
    fun x hx => ?_⟩
  have hdir := h'.roots x hx
  rw [h.disk_eq] at hdir
  exact hdir.reroot h.roots

/-- The roots of a state in which the current directory is the one at `s`. -/
theorem roots_of_current (hcur : CurrentIs w' s c) {R : Nat → Prop} (hroot : R directorySector) (hs : R s)
    (hK : ∀ x, K x → R x) : ∀ x, Roots w' K x → R x := by
  rintro x (rfl | hx | hx)
  · exact hroot
  · obtain rfl := Option.some.inj (hcur.object.symm.trans hx)
    exact hs
  · exact hK x hx

theorem findDir_used (hshows : Shows dir w c) (hfind : dir.findDir name = true) :
    ∃ i, Used (content w.disk c) i ∧ entryHasName (content w.disk c) i name = true ∧
      entryIsDirectory (content w.disk c) i = true := by
  rw [Directory.findDir, List.any_eq_true] at hfind
  obtain ⟨i, hi, hentry⟩ := hfind
  rw [hshows.table_eq, Bool.and_eq_true, Bool.and_eq_true] at hentry
  rw [List.mem_range, hshows.size_eq] at hi
  exact ⟨i, ⟨hi, hentry.1⟩, hentry.2⟩

/-- Of one name there is one entry. -/
theorem TableOk.unique_name {t : List UInt8} {i j : Nat} (h : TableOk own t) (hi : Used t i) (hj : Used t j)
    (hni : entryHasName t i name = true) (hnj : entryHasName t j name = true) : i = j := by
  rw [entryHasName, beq_iff_eq] at hni hnj
  exact h.names i j hi hj (hni.trans hnj.symm)

/-- `Open` of a name that `FindDir` finds opens a directory. -/
theorem OpenedFile.isDirectory (h : InOrder w own m K objs) (hcur : CurrentIs w s c)
    (hopened : OpenedFile w own m K objs s c name f w') (hshows : Shows dir w c)
    (hfind : dir.findDir name = true) :
    ∃ i, Used (content w.disk c) i ∧ entryHasName (content w.disk c) i name = true ∧
      entryIsDirectory (content w.disk c) i = true ∧
      (books w').sectors f = some (entrySector (content w.disk c) i) ∧
      IsDirectory w'.disk (Roots w' K) (entrySector (content w.disk c) i) := by
  obtain ⟨i, hi, hni, hfile⟩ := hopened.entry
  obtain ⟨j, hj, hnj, hdirectory⟩ := findDir_used hshows hfind
  obtain rfl := (h.directoryOk hcur).table.unique_name hi hj hni hnj
  refine ⟨i, hi, hni, hdirectory, ?_, ?_⟩
  · show (w'.files f).map OpenFile.sector = _
    rw [hfile]
    rfl
  · have hchain := hopened.current.chain
    rw [hopened.disk_eq] at hchain ⊢
    refine IsDirectory.entry ?_ hchain hi hdirectory
    have hcurrent := hopened.inOrder.currentDirectory hopened.current
    rw [hopened.disk_eq] at hcurrent
    exact hcurrent

/-- The objects of `objs` are not that of the current directory. -/
theorem InOrder.ne_directoryFile (h : InOrder w own m K objs) {g : FileId} (hg : g ∈ objs) :
    g ≠ w.directoryFile := by
  rintro rfl
  have hnodup := (List.nodup_cons.mp h.exact.nodup).2
  exact (List.nodup_cons.mp hnodup).1 hg

/-- `Open` of a directory to go into it, and the change of the current directory. -/
theorem relocated_enter {w1 : World} (h : InOrder w own m K objs) (hcur : CurrentIs w s c)
    (hshows : Shows dir w c) (hfind : dir.findDir name = true)
    (hopen : (openFile name).run w = some (some f, w1))
    (hswitch : (switchDirectory me f w.directoryFile).run w1 = some ((), w')) :
    Relocated w own m K objs objs w' ∧ ∃ i c', Used (content w.disk c) i ∧
      entryHasName (content w.disk c) i name = true ∧ entryIsDirectory (content w.disk c) i = true ∧
      CurrentIs w' (entrySector (content w.disk c) i) c' := by
  have hstep := dirStep_openFile _ _ _ hopen
  rcases h.openFile hcur hopen with ⟨hnone, -⟩ | ⟨g, hg, hopened⟩
  · cases hnone
  cases hg
  obtain ⟨i, hi, hname, hentry, hsector, hdirectory⟩ := hopened.isDirectory h hcur hshows hfind
  rw [← hopened.directoryFile_eq] at hswitch
  have h1 := hopened.inOrder
  have hkept : ∀ x, K x → ∃ g ∈ objs, (books w1).sectors g = some x := by
    intro x hx
    obtain ⟨g, hg, hgx⟩ := h.kept x hx
    refine ⟨g, hg, ?_⟩
    show (w1.files g).map OpenFile.sector = some x
    rw [hstep.files_eq g (h.ne_directoryFile hg) (h.lt_nextFile (List.mem_cons_of_mem _ hg))]
    exact hgx
  have h2 := h1.switchDirectory hsector hdirectory (fun x hx => IsDirectory.root (Or.inr (Or.inr hx)))
    hkept hswitch
  obtain ⟨c', hcur'⟩ := h2.current
  have hroots : ∀ x, Roots w' K x → IsDirectory w.disk (Roots w K) x :=
    roots_of_current hcur' h.root (IsDirectory.entry (h.currentDirectory hcur) hcur.chain hi hentry)
      fun x hx => IsDirectory.root (Or.inr (Or.inr hx))
  refine ⟨⟨h2.inOrder, h2.disk_eq.trans hopened.disk_eq, fun g hg => ?_, hroots⟩, i, c', hi, hname, hentry, hcur'⟩
  have hgf : g ≠ f := by
    rintro rfl
    have hnodup := (List.nodup_cons.mp (List.nodup_cons.mp h1.exact.nodup).2).2
    exact (List.nodup_cons.mp hnodup).1 hg
  rw [h2.files_eq g hgf (h1.ne_directoryFile (List.mem_cons_of_mem _ hg)),
    hstep.files_eq g (h.ne_directoryFile hg) (h.lt_nextFile (List.mem_cons_of_mem _ hg))]

/-- The current directory is fetched again. -/
theorem relocated_fetch (h : InOrder w own m K objs) (hrun : fetchDirectory.run w = some (dir, w')) :
    Relocated w own m K objs objs w' ∧ ∃ s c, CurrentIs w' s c ∧ Shows dir w' c := by
  obtain ⟨s, c, hcur⟩ := h.current
  have h1 := h.fetchDirectory hcur hrun
  have hroots : ∀ x, Roots w' K x → IsDirectory w.disk (Roots w K) x :=
    roots_of_current h1.current h.root (h.currentDirectory hcur) fun x hx => IsDirectory.root (Or.inr (Or.inr hx))
  refine ⟨⟨h1.inOrder, h1.fetched.disk_eq, fun g hg => ?_, hroots⟩, s, c, h1.current, ?_, ?_⟩
  · exact h1.fetched.step.files_eq g (h.ne_directoryFile hg)
  · rw [h1.fetched.disk_eq]
    exact h1.table_eq
  · rw [h1.fetched.disk_eq]
    exact h1.size_eq

theorem relocated_walkPath (names : List Name) : ∀ {w w' : World} {s : Nat} {c : List Nat} {dir : Directory}
    {success : Bool}, InOrder w own m K objs → CurrentIs w s c → Shows dir w c →
    (walkPath me names dir).run w = some (success, w') → Relocated w own m K objs objs w' := by
  induction names with
  | nil =>
    intro w w' s c dir success h _ _ hrun
    cases hrun
    exact Relocated.refl h
  | cons name names ih =>
    intro w w' s c dir success h hcur hshows hrun
    rw [walkPath] at hrun
    split at hrun
    · rename_i hfind
      obtain ⟨_, _, hget, hrun⟩ := run_bind_eq_some.mp hrun
      cases hget
      obtain ⟨opened, w1, hopen, hrun⟩ := run_bind_eq_some.mp hrun
      obtain ⟨f, w2, hsome, hrun⟩ := run_bind_eq_some.mp hrun
      obtain ⟨hopened, hw2⟩ := run_ofOption_eq_some hsome
      rw [hw2] at hrun
      rw [hopened] at hopen
      obtain ⟨_, w3, hswitch, hrun⟩ := run_bind_eq_some.mp hrun
      obtain ⟨dir', w4, hfetch, hrun⟩ := run_bind_eq_some.mp hrun
      have h3 := (relocated_enter h hcur hshows hfind hopen hswitch).1
      obtain ⟨h4, s', c', hcur', hshows'⟩ := relocated_fetch h3.inOrder hfetch
      exact (h3.trans h4).trans (ih h4.inOrder hcur' hshows' hrun)
    · cases hrun
      exact Relocated.refl h

/-- The whole table of a directory is read into a table of its size. -/
theorem fetchFrom_shows {dir' : Directory} (hlayout : Layout w.disk own) (hok : DirectoryOk w.disk own s c)
    (hf : (books w).sectors f = some s) (hsize : dir.tableSize = numEntries (content w.disk c))
    (hpos : 0 < dir.tableSize) (hrun : (dir.fetchFrom f).run w = some (dir', w')) :
    Shows dir' w' c ∧ dir'.tableSize = dir.tableSize ∧
      ∃ file, w' = { w with files := Function.update w.files f (some file) } ∧ file.sector = s := by
  obtain ⟨file, hfile, hsector⟩ := Option.map_eq_some_iff.mp hf
  have hlen : (content w.disk c).length = dir.tableSize * dirEntrySize := by
    rw [hsize]
    exact hok.table.length_eq
  have hlt : dir.tableSize * dirEntrySize < 2 ^ 32 := by
    have := length_content_lt (hok.file.readableChain hlayout)
    omega
  obtain ⟨file', hread, hsector'⟩ := run_readTable hlayout hok.file hfile hsector
    (Nat.mul_pos hpos (by decide)) hlt
  rw [Directory.fetchFrom, run_bind, hread, Option.bind_some] at hrun
  cases hrun
  refine ⟨⟨?_, hsize⟩, rfl, file', rfl, hsector'⟩
  show poke dir.table 0 ((content w.disk c).take (dir.tableSize * dirEntrySize)) = content w.disk c
  rw [← hlen, List.take_length, poke_eq_splice (by rw [dir.length_table, hlen, Nat.zero_add]),
    splice_of_length_eq (by rw [dir.length_table, hlen])]

/-- The directories from which the others are reached, when the current one is kept open. -/
def Keeping (w : World) (K : Nat → Prop) (x : Nat) : Prop :=
  K x ∨ (books w).sectors w.directoryFile = some x

theorem relocated_enterRoot (h : InOrder w own m K objs)
    (hrun : Session.enterRoot.run w = some (dir, w')) :
    Relocated w own m (Keeping w K) (w.directoryFile :: objs) (w.directoryFile :: objs) w' ∧
      ∃ c, CurrentIs w' directorySector c ∧ Shows dir w' c := by
  have hbalanced : Balanced w' (w.directoryFile :: objs) := balanced_enterRoot h.exact hrun
  obtain ⟨c, hok⟩ := h.tree.directory directorySector h.root
  obtain ⟨root, w1, hnew, hrun⟩ := run_bind_eq_some.mp hrun
  obtain ⟨n, w2, hsize, hrun⟩ := run_bind_eq_some.mp hrun
  obtain ⟨dir1, w3, hdir, hrun⟩ := run_bind_eq_some.mp hrun
  obtain ⟨dir2, w4, hfetch, hrun⟩ := run_bind_eq_some.mp hrun
  cases hrun
  obtain ⟨h1, hat⟩ := h.opened (by decide) hok.file.own_start hnew
  obtain ⟨hroot, hbooks1⟩ := books_newOpenFile hnew
  have hsector1 : (books w1).sectors root = some directorySector := by
    rw [hbooks1, hroot]
    exact Function.update_self ..
  obtain ⟨hn, file2, hw2, hfile2⟩ := h.fetchTableSize h.root hok.file.chain hat.disk_eq hsector1 hsize
  -- the size of the table is known, so it is read as a whole
  obtain ⟨_, w5, hassert, hdir⟩ := run_bind_eq_some.mp hdir
  obtain ⟨hpos, hw5⟩ := run_assert_eq_some hassert
  rw [hw5] at hdir
  cases hdir
  have hdisk2 : w2.disk = w.disk := by
    rw [hw2]
    exact hat.disk_eq
  have hlayout2 : Layout w2.disk own := by
    rw [hdisk2]
    exact h.layout
  have hok2 : DirectoryOk w2.disk own directorySector c := by
    rw [hdisk2]
    exact hok
  have hsector2 : (books w2).sectors root = some directorySector := by
    rw [(sameBooks_fetchTableSize _ _ _ _ hsize).books_eq]
    exact hsector1
  have hbooks4 : SameBooks w2 w4 := IsTrans.trans _ _ _ (sameBooks_malloc .table w2 _ _ rfl)
    (sameBooks_fetchFrom _ _ _ _ _ hfetch)
  obtain ⟨hshows, hsize', file4, hw4, hfile4⟩ := fetchFrom_shows (w := { w2 with
    heap := Function.update w2.heap .table fun n => w2.heap .table (n + 1) }) hlayout2 hok2 hsector2
    (by rw [hdisk2]; exact hn) (by simpa using hpos) hfetch
  have hdisk4 : w4.disk = w.disk := by
    rw [hw4]
    exact hdisk2
  have hfiles4 : ∀ g, g ≠ root → w4.files g = w.files g := by
    intro g hg
    rw [hw4, hw2]
    show Function.update (Function.update w1.files root _) root _ g = _
    rw [Function.update_of_ne hg, Function.update_of_ne hg, hat.files_eq]
    rw [hroot] at hg
    exact Function.update_of_ne hg _ _
  have hrootne : ∀ g ∈ w.freeMapFile :: w.directoryFile :: objs, g ≠ root := by
    rintro g hg rfl
    have hlt := h.exact.lt_next g hg
    rw [hroot] at hlt
    exact Nat.lt_irrefl _ hlt
  have hsectors : ∀ g ∈ w.directoryFile :: objs, (books w4).sectors g = (books w).sectors g := by
    intro g hg
    show (w4.files g).map OpenFile.sector = (w.files g).map OpenFile.sector
    rw [hfiles4 g (hrootne g (List.mem_cons_of_mem _ hg))]
  have hsector4 : (books w4).sectors root = some directorySector := by
    rw [hbooks4.books_eq]
    exact hsector2
  have hcur : CurrentIs { w4 with directoryFile := root, directorySize := n } directorySector c := by
    refine ⟨hsector4, ?_, ?_⟩
    · show HeaderChain w4.disk _ c
      rw [hdisk4]
      exact hok.file.chain
    · show n = numEntries (content w4.disk c)
      rw [hdisk4]
      exact hn
  have hroots : ∀ x, Roots { w4 with directoryFile := root, directorySize := n } (Keeping w K) x →
      IsDirectory w.disk (Roots w K) x :=
    roots_of_current hcur h.root h.root fun x hx => IsDirectory.root (Or.inr hx.symm)
  refine ⟨⟨h.sameDisk hdisk4 ?_ hroots ?_ hbalanced ?_ ?_ ⟨_, c, hcur⟩, hdisk4, ?_, fun x hx => ?_⟩, c, hcur,
    hshows.table_eq, hshows.size_eq⟩
  · have hmap4 : w4.freeMapFile = w.freeMapFile := by
      rw [hw4, hw2]
      exact hat.freeMapFile_eq
    show w4.files w4.freeMapFile = _
    rw [hmap4, hfiles4 _ (hrootne _ List.mem_cons_self)]
  · rintro x (hx | hx)
    · obtain ⟨g, hg, hgx⟩ := h.kept x hx
      refine ⟨g, List.mem_cons_of_mem _ hg, ?_⟩
      exact (hsectors g (List.mem_cons_of_mem _ hg)).trans hgx
    · exact ⟨_, List.mem_cons_self, (hsectors _ List.mem_cons_self).trans hx⟩
  · intro g hg
    rcases List.mem_cons.mp hg with rfl | hg
    · exact ⟨directorySector, hsector4, by decide, hok.file.own_start⟩
    · obtain ⟨x, hx, hown⟩ := h.objects g hg
      exact ⟨x, (hsectors g hg).trans hx, hown⟩
  · have htidy4 := (tidy_fetchFrom _ _ _ _ _ hfetch).tidy
      ((tidy_malloc .table w2 _ _ rfl).tidy ((tidy_fetchTableSize _ _ _ _ hsize).tidy h1.tidy))
    exact ⟨htidy4.idle, htidy4.fresh⟩
  · intro g hg
    exact hfiles4 g (hrootne g (List.mem_cons_of_mem _ hg))
  · exact (hroots x hx).reroot fun y hy => IsDirectory.root (hy.imp id fun hy => hy.imp id Or.inl)

/-- To keep the current directory open gives no new directories. -/
theorem IsDirectory.of_keeping {d : Disk} {x : Nat} (h : IsDirectory d (Roots w (Keeping w K)) x) :
    IsDirectory d (Roots w K) x := by
  refine h.reroot ?_
  rintro y (hy | hy | hy | hy)
  · exact IsDirectory.root (Or.inl hy)
  · exact IsDirectory.root (Or.inr (Or.inl hy))
  · exact IsDirectory.root (Or.inr (Or.inr hy))
  · exact IsDirectory.root (Or.inr (Or.inl hy))

/-! ## The calls -/

/-- The objects that are kept are still those of their directories. -/
theorem InOrder.kept_of_files (h : InOrder w own m K objs) (hfiles : ∀ g ∈ objs, w'.files g = w.files g) :
    ∀ x, K x → ∃ g ∈ objs, (books w').sectors g = some x := by
  intro x hx
  obtain ⟨g, hg, hgx⟩ := h.kept x hx
  refine ⟨g, hg, ?_⟩
  show (w'.files g).map OpenFile.sector = some x
  rw [hfiles g hg]
  exact hgx

/-- `ChangeDirRootPath` that finds the path. The directory before the call is still open unless the call
is only to change it. -/
theorem relocated_changeDirRootPath (h : InOrder w own m K objs)
    (hrun : (changeDirRootPath me name false).run w = some (true, w')) :
    Relocated w own m (Keeping w K) (w.directoryFile :: objs) (w.directoryFile :: objs) w' := by
  obtain ⟨dir, w1, walked, w2, henter, hwalk, hwalked, hdrop, -⟩ := run_changeDirRootPath hrun
  obtain ⟨h1, c, hcur, hshows⟩ := relocated_enterRoot h henter
  have h2 := relocated_walkPath _ h1.inOrder hcur hshows hwalk
  cases hdrop hwalked.symm
  exact h1.trans h2

theorem relocated_onlyChange (h : InOrder w own m K objs)
    (hrun : (changeDirRootPath me name true).run w = some (true, w')) :
    Relocated w own m K objs objs w' := by
  obtain ⟨dir, w1, walked, w2, henter, hwalk, hwalked, hdrop, -⟩ := run_changeDirRootPath hrun
  obtain ⟨h1, c, hcur, hshows⟩ := relocated_enterRoot h henter
  have h2 := h1.trans (relocated_walkPath _ h1.inOrder hcur hshows hwalk)
  have hfiles : ∀ g ∈ objs, w2.files g = w.files g := fun g hg => h2.files_eq g (List.mem_cons_of_mem _ hg)
  obtain ⟨h3, hat⟩ := h2.inOrder.closed (fun x (hx : K x) => Or.inl hx) (h.kept_of_files hfiles)
    (hdrop hwalked.symm)
  have hne : w2.directoryFile ≠ w.directoryFile :=
    fun heq => h2.inOrder.ne_directoryFile List.mem_cons_self heq.symm
  have hobject : (books w').sectors w'.directoryFile = (books w2).sectors w2.directoryFile := by
    show (w'.files w'.directoryFile).map OpenFile.sector = (w2.files w2.directoryFile).map OpenFile.sector
    rw [hat.directoryFile_eq, hat.files_eq, Function.update_of_ne hne]
  refine ⟨h3, hat.disk_eq.trans h2.disk_eq, fun g hg => ?_, ?_⟩
  · rw [hat.files_eq, Function.update_of_ne (h.ne_directoryFile hg), hfiles g hg]
  · rintro x (hx | hx | hx)
    · exact IsDirectory.root (Or.inl hx)
    · exact (h2.roots x (Or.inr (Or.inl (hobject.symm.trans hx)))).of_keeping
    · exact IsDirectory.root (Or.inr (Or.inr hx))

/-- `ChangeDirRootPath` that does not find the path: the current directory is the one before, and the
object of the directory where the walk has stopped stays open. -/
theorem relocated_notFound {onlyChange : Bool} (h : InOrder w own m K objs)
    (hrun : (changeDirRootPath me name onlyChange).run w = some (false, w')) :
    ∃ lost x, Relocated w own m K objs (lost :: objs) w' ∧ (books w').sectors lost = some x ∧
      IsDirectory w.disk (Roots w K) x := by
  obtain ⟨dir, w1, walked, w2, henter, hwalk, hwalked, -, hback⟩ := run_changeDirRootPath hrun
  obtain ⟨h1, c, hcur, hshows⟩ := relocated_enterRoot h henter
  have h2 := h1.trans (relocated_walkPath _ h1.inOrder hcur hshows hwalk)
  obtain rfl := hback hwalked.symm
  have hfiles : ∀ g ∈ w.directoryFile :: objs, w2.files g = w.files g := h2.files_eq
  have hsectors : ∀ g ∈ w.directoryFile :: objs, (books w2).sectors g = (books w).sectors g := by
    intro g hg
    show (w2.files g).map OpenFile.sector = (w.files g).map OpenFile.sector
    rw [hfiles g hg]
  obtain ⟨s, b, hcur⟩ := h.current
  have hcur' : CurrentIs { w2 with directoryFile := w.directoryFile, directorySize := w.directorySize } s b := by
    refine ⟨(hsectors _ List.mem_cons_self).trans hcur.object, ?_, ?_⟩
    · show HeaderChain w2.disk s b
      rw [h2.disk_eq]
      exact hcur.chain
    · show w.directorySize = numEntries (content w2.disk b)
      rw [h2.disk_eq]
      exact hcur.size_eq
  obtain ⟨x, b', hlost⟩ := h2.inOrder.current
  refine ⟨w2.directoryFile, x, ⟨h2.inOrder.sameDisk rfl rfl ?_ ?_ ?_ ?_ ?_ ⟨s, b, hcur'⟩, h2.disk_eq,
    fun g hg => hfiles g (List.mem_cons_of_mem _ hg), ?_⟩, hlost.object,
    (h2.roots x (Or.inr (Or.inl hlost.object))).of_keeping⟩
  · rintro x (hx | hx | hx)
    · exact IsDirectory.root (Or.inl hx)
    · refine IsDirectory.root (Or.inr (Or.inr (Or.inr ?_)))
      exact (hsectors _ List.mem_cons_self).symm.trans hx
    · exact IsDirectory.root (Or.inr (Or.inr (Or.inl hx)))
  · intro x hx
    obtain ⟨g, hg, hgx⟩ := h.kept x hx
    exact ⟨g, List.mem_cons_of_mem _ hg, (hsectors g (List.mem_cons_of_mem _ hg)).trans hgx⟩
  · exact (Books.Exact.setDirectory h2.inOrder.exact w.directoryFile).perm ((List.Perm.swap _ _ _).cons _)
  · intro g hg
    refine h2.inOrder.objects g ?_
    simp only [List.mem_cons] at hg ⊢
    tauto
  · exact ⟨h2.inOrder.tidy.idle, h2.inOrder.tidy.fresh⟩
  · exact roots_of_current hcur' h.root (h.currentDirectory hcur) fun x hx => IsDirectory.root (Or.inr (Or.inr hx))

theorem relocated_changeDirRelativePath {success : Bool} (h : InOrder w own m K objs)
    (hrun : (changeDirRelativePath me name).run w = some (success, w')) :
    Relocated w own m K objs objs w' := by
  obtain ⟨dir, w1, hfetch, hrun⟩ := run_bind_eq_some.mp hrun
  obtain ⟨h1, s, c, hcur, hshows⟩ := relocated_fetch h hfetch
  split at hrun
  · rename_i hfind
    obtain ⟨opened, w2, hopen, hrun⟩ := run_bind_eq_some.mp hrun
    obtain ⟨f, w3, hsome, hrun⟩ := run_bind_eq_some.mp hrun
    obtain ⟨hopened, hw3⟩ := run_ofOption_eq_some hsome
    rw [hw3] at hrun
    rw [hopened] at hopen
    obtain ⟨_, _, hget, hrun⟩ := run_bind_eq_some.mp hrun
    cases hget
    obtain ⟨_, w4, hswitch, hrun⟩ := run_bind_eq_some.mp hrun
    cases hrun
    have hdir : w2.directoryFile = w1.directoryFile := (dirStep_openFile _ _ _ hopen).directoryFile_eq
    rw [hdir] at hswitch
    exact h1.trans (relocated_enter h1.inOrder hcur hshows hfind hopen hswitch).1
  · cases hrun
    exact h1

/-- The objects `l` are those of directories. -/
def AreDirectories (w : World) (K : Nat → Prop) (l : List FileId) (w' : World) : Prop :=
  ∀ f ∈ l, ∃ x, (books w').sectors f = some x ∧ IsDirectory w.disk (Roots w K) x

/-- `ChangeDir`. -/
theorem relocated_changeDir {success : Bool} (h : InOrder w own m K objs)
    (hrun : (changeDir me name true).run w = some (success, w')) :
    ∃ lost, Relocated w own m K objs (lost ++ objs) w' ∧ AreDirectories w K lost w' := by
  rw [changeDir] at hrun
  split at hrun
  · cases success with
    | true => exact ⟨[], relocated_onlyChange h hrun, by simp [AreDirectories]⟩
    | false =>
      obtain ⟨lost, x, hlost, hx, hdir⟩ := relocated_notFound h hrun
      refine ⟨[lost], hlost, fun f hf => ?_⟩
      rw [List.mem_singleton.mp hf]
      exact ⟨x, hx, hdir⟩
  · exact ⟨[], relocated_changeDirRelativePath h hrun, by simp [AreDirectories]⟩

end Walk

end Nachos.Filesys
