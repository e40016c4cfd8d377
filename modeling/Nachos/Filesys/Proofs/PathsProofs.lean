import Mathlib.Data.List.Induction
import Nachos.Filesys.Proofs.ChangeDirProofs
import Nachos.Filesys.Proofs.FileLocksProofs

/-!
# Proofs: absolute paths

With its locks free, `ChangeDir` of an absolute path returns. It follows the pieces that `SeparateDir` keeps, all
of them where there are fewer than `MAX_DIR_LEVEL` and the first nine otherwise.
-/

namespace Nachos.Filesys

open Foundations Resumption

/-! ## The calls return -/

section Returns

variable {w w' : World} {own : Nat → Option Nat} {m : Bitmap} {K : Nat → Prop} {objs : List FileId}
  {s : Nat} {c : List Nat} {me : Tid} {name : Name} {f : FileId} {dir : Directory}

/-- An object in use is counted. -/
theorem InOrder.count_ne_zero (h : InOrder w own m K objs) (hf : f ∈ w.directoryFile :: objs)
    (hs : (books w).sectors f = some s) : (w.table s).count ≠ 0 := by
  have hcount : (w.table s).count = _ := h.exact.counts_eq s
  rw [hcount]
  refine Nat.ne_of_gt (List.countP_pos_iff.mpr ⟨f, List.mem_cons_of_mem _ hf, ?_⟩)
  simpa using hs

/-- An object in use is deleted. -/
theorem InOrder.run_deleteOpenFile (h : InOrder w own m K objs) (hlocks : FileLocksOk w) (me : Tid)
    (hf : f ∈ w.directoryFile :: objs) (w1 : World) (htable : w1.table = w.table) (hlocks1 : w1.locks = w.locks)
    (hfiles : w1.files f = w.files f) : ∃ w', (deleteOpenFile me f).run w1 = some ((), w') ∧ FileLocksOk w' := by
  obtain ⟨s, hs, -, hown⟩ := h.objects f hf
  obtain ⟨file, hfile, hsector⟩ := Option.map_eq_some_iff.mp hs
  refine (hlocks.congr htable hlocks1).run_deleteOpenFile me (hfiles.trans hfile) ?_ ?_
  · rw [hsector]
    exact h.layout.lt s s hown
  · rw [hsector, htable]
    exact h.count_ne_zero hf hs

theorem InOrder.run_fetchTableSize (h : InOrder w own m K objs) (hs : IsDirectory w.disk (Roots w K) s) {w1 : World}
    (hdisk : w1.disk = w.disk) (hf : (books w1).sectors f = some s) :
    ∃ n file, (Directory.fetchTableSize f).run w1 =
      some (n, { w1 with files := Function.update w1.files f (some file) }) := by
  obtain ⟨c, hok⟩ := h.tree.directory s hs
  obtain ⟨file, hfile, hsector⟩ := Option.map_eq_some_iff.mp hf
  obtain ⟨file', hread, -⟩ := run_readTable (n := maxDirEntries * dirEntrySize) (w := w1)
    (by rw [hdisk]; exact h.layout) (by rw [hdisk]; exact hok.file) hfile hsector (by decide) (by decide)
  exact ⟨_, file', by rw [Directory.fetchTableSize, run_bind, hread, Option.bind_some]; rfl⟩

theorem InOrder.run_switchDirectory (h : InOrder w own m K (f :: objs)) (hlocks : FileLocksOk w) (me : Tid)
    (hf : (books w).sectors f = some s) (hs : IsDirectory w.disk (Roots w K) s) :
    ∃ w', (Filesys.switchDirectory me f w.directoryFile).run w = some ((), w') ∧ FileLocksOk w' := by
  obtain ⟨w1, hdelete, hlocks1⟩ := h.run_deleteOpenFile hlocks me List.mem_cons_self
    { w with directoryFile := f } rfl rfl rfl
  have hat := closedAt_deleteOpenFile hdelete
  have hne : f ≠ w.directoryFile := h.ne_directoryFile List.mem_cons_self
  have hf1 : (books w1).sectors f = some s := by
    show (w1.files f).map OpenFile.sector = some s
    rw [hat.files_eq, Function.update_of_ne hne]
    exact hf
  obtain ⟨n, file, hsize⟩ := h.run_fetchTableSize hs hat.disk_eq hf1
  have hdir : w1.directoryFile = f := hat.directoryFile_eq
  refine ⟨{ w1 with files := Function.update w1.files f (some file), directorySize := n }, ?_,
    hlocks1.congr rfl rfl⟩
  rw [Filesys.switchDirectory]
  simp only [run_bind, run_modifyState, Option.bind_some, hdelete, run_getState, hdir, hsize]

theorem InOrder.run_fetchDirectory (h : InOrder w own m K objs) (hlocks : FileLocksOk w) (hcur : CurrentIs w s c)
    (hpos : 0 < numEntries (content w.disk c)) :
    ∃ dir w', Filesys.fetchDirectory.run w = some (dir, w') ∧ FileLocksOk w' := by
  obtain ⟨dir, w', hrun, -, -, hfetched⟩ := Filesys.run_fetchDirectory
    (h.dirFile hcur (by rw [hcur.size_eq]; exact hpos))
  exact ⟨dir, w', hrun, hlocks.congr hfetched.step.table_eq hfetched.step.locks_eq⟩

/-- `Open` of a directory that `FindDir` finds. -/
theorem InOrder.run_openFile (h : InOrder w own m K objs) (hlocks : FileLocksOk w) (hcur : CurrentIs w s c)
    (hpos : 0 < numEntries (content w.disk c)) (hshows : Shows dir w c) (hfind : dir.findDir name = true) :
    ∃ f w', (Filesys.openFile name).run w = some (some f, w') ∧ FileLocksOk w' := by
  obtain ⟨dir1, w1, hfetch, hlocks1⟩ := h.run_fetchDirectory hlocks hcur hpos
  have h1 := h.fetchDirectory hcur hfetch
  obtain ⟨j, hj, hname, -⟩ := findDir_used hshows hfind
  rcases h.find_cases hcur h1.table_eq h1.size_eq name with ⟨-, -, hnone⟩ | ⟨i, -, -, -, hfind1, hlt⟩
  · rw [hnone j hj] at hname
    cases hname
  · obtain ⟨w2, hnew, -⟩ := run_newOpenFile hlt w1
    refine ⟨w1.nextFile, w2, ?_, hlocks1.newOpenFile h1.inOrder.tidy.fresh hlt hnew⟩
    rw [Filesys.openFile, run_bind, hfetch, Option.bind_some]
    dsimp only
    rw [hfind1, if_pos (Int.natCast_nonneg _), Int.toNat_natCast, openSector]
    simp only [run_bind, run_getEntry hlt, Option.bind_some, hlocks1.removing, Bool.false_eq_true, if_false, hnew,
      run_pure]

/-- What is known after one more name of a path was followed. -/
structure Entered (w : World) (own : Nat → Option Nat) (m : Bitmap) (K : Nat → Prop) (objs : List FileId)
    (c : List Nat) (name : Name) (i : Nat) (c' : List Nat) (dir : Directory) (w' : World) : Prop where
  moved : Relocated w own m K objs objs w'
  locks : FileLocksOk w'
  used : Used (content w.disk c) i
  hasName : entryHasName (content w.disk c) i name = true
  isDirectory : entryIsDirectory (content w.disk c) i = true
  current : CurrentIs w' (entrySector (content w.disk c) i) c'
  shows : Shows dir w' c'

/-- A round of the walk. -/
theorem run_enterDirectory (h : InOrder w own m K objs) (hlocks : FileLocksOk w) (hstocked : Stocked w.disk)
    (hcur : CurrentIs w s c) (hs : IsDirectory w.disk (· = directorySector) s) (hshows : Shows dir w c)
    (hfind : dir.findDir name = true) (me : Tid) :
    ∃ dir' w' i c', (Session.enterDirectory me name).run w = some (dir', w') ∧
      Entered w own m K objs c name i c' dir' w' := by
  have hpos := hstocked s c hs hcur.chain
  obtain ⟨f, w1, hopen, hlocks1⟩ := h.run_openFile hlocks hcur hpos hshows hfind
  rcases h.openFile hcur hopen with ⟨hnone, -⟩ | ⟨g, hg, hopened⟩
  · cases hnone
  cases hg
  obtain ⟨_, -, -, -, hsector, hdirectory⟩ := hopened.isDirectory h hcur hshows hfind
  obtain ⟨w2, hswitch, hlocks2⟩ := hopened.inOrder.run_switchDirectory hlocks1 me hsector hdirectory
  rw [hopened.directoryFile_eq] at hswitch
  obtain ⟨h2, i, c', hi, hname, hentry, hcur'⟩ := relocated_enter h hcur hshows hfind hopen hswitch
  have hs' : IsDirectory w.disk (· = directorySector) (entrySector (content w.disk c) i) :=
    IsDirectory.entry hs hcur.chain hi hentry
  have hpos' : 0 < numEntries (content w2.disk c') := by
    have hchain := hcur'.chain
    rw [h2.disk_eq] at hchain ⊢
    exact hstocked _ c' hs' hchain
  obtain ⟨dir', w3, hfetch, hlocks3⟩ := h2.inOrder.run_fetchDirectory hlocks2 hcur' hpos'
  have h3 := h2.inOrder.fetchDirectory hcur' hfetch
  refine ⟨dir', w3, i, c', ?_, h2.trans (relocated_fetch h2.inOrder hfetch).1, hlocks3, hi, hname,
    hentry, h3.current, ?_, ?_⟩
  · simp only [Session.enterDirectory, run_bind, run_getState, Option.bind_some, hopen, run_ofOption_some, hswitch,
      hfetch]
  · rw [h3.fetched.disk_eq]
    exact h3.table_eq
  · rw [h3.fetched.disk_eq]
    exact h3.size_eq

theorem findDir_of_used (hshows : Shows dir w c) {i : Nat} (hi : Used (content w.disk c) i)
    (hname : entryHasName (content w.disk c) i name = true)
    (hdir : entryIsDirectory (content w.disk c) i = true) : dir.findDir name = true := by
  rw [Directory.findDir, List.any_eq_true]
  refine ⟨i, ?_, ?_⟩
  · rw [List.mem_range, hshows.size_eq]
    exact hi.lt
  · rw [hshows.table_eq, hi.inUse, hname, hdir]
    rfl

/-- What is known after the walk over names from the directory at `s`. -/
structure WalkedPath (w : World) (own : Nat → Option Nat) (m : Bitmap) (K : Nat → Prop) (objs : List FileId)
    (s : Nat) (names : List Name) (success : Bool) (w' : World) : Prop where
  moved : Relocated w own m K objs objs w'
  locks : FileLocksOk w'
  reached : success = true → ∃ t c, Leads w.disk s names t ∧ CurrentIs w' t c
  stopped : success = false → ¬ ∃ t, Leads w.disk s names t

/-- The walk returns; it comes to its end where the names lead on. -/
theorem run_walkPath (me : Tid) (names : List Name) : ∀ {w : World} {s : Nat} {c : List Nat} {dir : Directory},
    InOrder w own m K objs → FileLocksOk w → Stocked w.disk → CurrentIs w s c →
    IsDirectory w.disk (· = directorySector) s → Shows dir w c →
    ∃ success w', (walkPath me names dir).run w = some (success, w') ∧
      WalkedPath w own m K objs s names success w' := by
  induction names with
  | nil =>
    intro w s c dir h hlocks _ hcur _ _
    exact ⟨true, w, rfl, Relocated.refl h, hlocks, fun _ => ⟨s, c, Leads.here s, hcur⟩,
      fun hfalse => by cases hfalse⟩
  | cons name names ih =>
    intro w s c dir h hlocks hstocked hcur hs hshows
    cases hfind : dir.findDir name with
    | true =>
      obtain ⟨dir', w1, i, c', henter, hentered⟩ := run_enterDirectory h hlocks hstocked hcur hs hshows hfind me
      have hdisk := hentered.moved.disk_eq
      have hs' := IsDirectory.entry hs hcur.chain hentered.used hentered.isDirectory
      obtain ⟨success, w', hwalk, hwalked⟩ := ih hentered.moved.inOrder hentered.locks
        (by rw [hdisk]; exact hstocked) hentered.current (by rw [hdisk]; exact hs') hentered.shows
      refine ⟨success, w', ?_, hentered.moved.trans hwalked.moved, hwalked.locks, fun hsuccess => ?_,
        fun hfalse => ?_⟩
      · rw [run_walkPath_cons names hfind, run_bind, henter, Option.bind_some, hwalk]
      · obtain ⟨t, ct, hleads, hcurt⟩ := hwalked.reached hsuccess
        rw [hdisk] at hleads
        exact ⟨t, ct, Leads.into hcur.chain hentered.used hentered.hasName hentered.isDirectory hleads, hcurt⟩
      · rintro ⟨t, hleads⟩
        refine hwalked.stopped hfalse ⟨t, ?_⟩
        rw [hdisk]
        cases hleads with
        | into hc hj hname hdir hnames =>
          obtain rfl := hcur.chain.unique hc
          obtain rfl := (h.directoryOk hcur).table.unique_name hentered.used hj hentered.hasName hname
          exact hnames
    | false =>
      refine ⟨false, w, ?_, Relocated.refl h, hlocks, (fun htrue => by cases htrue), fun _ => ?_⟩
      · rw [walkPath, hfind]
        rfl
      · rintro ⟨t, hleads⟩
        cases hleads with
        | into hc hj hname hdir hnames =>
          obtain rfl := hcur.chain.unique hc
          rw [findDir_of_used hshows hj hname hdir] at hfind
          cases hfind

/-- `new Directory`. -/
theorem run_newDirectory {n : Nat} (hn : 0 < n) (w : World) : ∃ dir, (Directory.new n).run w = some (dir, { w with
      heap := Function.update w.heap .table fun k => w.heap .table (k + 1) }) ∧ dir.tableSize = n := by
  refine ⟨{
    tableSize := n
    table := (List.range (n * dirEntrySize)).map fun j =>
      if j % dirEntrySize = 0 ∨ j % dirEntrySize = 24 then 0 else w.heap .table 0 j
    length_table := by simp }, ?_, rfl⟩
  simp only [Directory.new, run_bind, run_assert, decide_eq_true hn, if_true, Option.bind_some, run_malloc, run_pure]

/-- The root is entered. -/
theorem run_enterRoot (h : InOrder w own m K objs) (hlocks : FileLocksOk w) (hstocked : Stocked w.disk) :
    ∃ dir w', Session.enterRoot.run w = some (dir, w') ∧ FileLocksOk w' := by
  obtain ⟨c, hok⟩ := h.tree.directory directorySector h.root
  have hlt : directorySector < numSectors := by decide
  obtain ⟨w1, hnew, hat⟩ := run_newOpenFile hlt w
  have hlocks1 := hlocks.newOpenFile h.tidy.fresh hlt hnew
  have hsector1 : (books w1).sectors w.nextFile = some directorySector := by
    show (w1.files w.nextFile).map OpenFile.sector = _
    rw [hat.files_eq, Function.update_self]
    rfl
  obtain ⟨n, file, hsize⟩ := h.run_fetchTableSize h.root hat.disk_eq hsector1
  obtain ⟨hn, -⟩ := h.fetchTableSize h.root hok.file.chain hat.disk_eq hsector1 hsize
  have hpos : 0 < n := by
    rw [hn]
    exact hstocked _ c (IsDirectory.root rfl) hok.file.chain
  have hlen : n * dirEntrySize < 2 ^ 32 := by
    have := hok.table.length_eq
    have := length_content_lt (hok.file.readableChain h.layout)
    rw [hn]
    omega
  obtain ⟨-, file1, hw2, hsec⟩ := h.fetchTableSize h.root hok.file.chain hat.disk_eq hsector1 hsize
  generalize ({ w1 with files := Function.update w1.files w.nextFile (some file) } : World) = w2 at hsize hw2
  obtain ⟨dir, hdir, hsizedir⟩ := run_newDirectory hpos w2
  -- the table is read as a whole
  have hfile1 : ({ w2 with heap := Function.update w2.heap .table fun k => w2.heap .table (k + 1) } : World).files
      w.nextFile = some file1 := by
    rw [hw2]
    exact Function.update_self ..
  obtain ⟨file2, hread, -⟩ := run_readTable (n := n * dirEntrySize) (w := { w2 with
      heap := Function.update w2.heap .table fun k => w2.heap .table (k + 1) })
    (by rw [hw2]; show Layout w1.disk own; rw [hat.disk_eq]; exact h.layout)
    (by rw [hw2]; show FileOk w1.disk own directorySector c; rw [hat.disk_eq]; exact hok.file)
    hfile1 hsec (Nat.mul_pos hpos (by decide)) hlen
  rw [← hsizedir] at hread
  refine ⟨dir.overlay ((content w2.disk c).take (dir.tableSize * dirEntrySize)), { w2 with
      heap := Function.update w2.heap .table fun k => w2.heap .table (k + 1)
      files := Function.update w2.files w.nextFile (some file2)
      directoryFile := w.nextFile
      directorySize := n }, ?_, hlocks1.congr (by rw [hw2]) (by rw [hw2])⟩
  rw [Session.enterRoot]
  simp only [run_bind, hnew, Option.bind_some, hsize, hdir, Directory.fetchFrom, hread, run_pure, run_modifyState]

/-- `ChangeDirRootPath`, from the walk on. -/
theorem run_changeDirRootPath_eq (onlyChange : Bool) {success : Bool} {w1 w2 : World}
    (hlen : name.tail.length < filePathMaxLen) (henter : Session.enterRoot.run w = some (dir, w1))
    (hwalk : (walkPath me (separateDir name.tail).dropLast dir).run w1 = some (success, w2)) :
    (changeDirRootPath me name onlyChange).run w =
      if success then ((dropBackup me w.directoryFile onlyChange).run w2).map fun r => (true, r.2)
      else some (false, { w2 with directoryFile := w.directoryFile, directorySize := w.directorySize }) := by
  obtain ⟨root, w3, hnew, henter⟩ := run_bind_eq_some.mp henter
  obtain ⟨n, w4, hsize, henter⟩ := run_bind_eq_some.mp henter
  obtain ⟨dir1, w5, hdir, henter⟩ := run_bind_eq_some.mp henter
  obtain ⟨dir2, w6, hfetch, henter⟩ := run_bind_eq_some.mp henter
  cases henter
  simp only [changeDirRootPath, run_bind, run_assert, decide_eq_true hlen, if_true, Option.bind_some, run_getState,
    hnew, hsize, hdir, hfetch, run_modifyState, hwalk]
  cases success with
  | true =>
    simp only [if_true, run_bind, run_pure]
    cases (dropBackup me w.directoryFile onlyChange).run w2 <;> rfl
  | false => rfl

/-- What is known after `ChangeDirRootPath` has followed the names. -/
structure WentTo (w : World) (names : List Name) (success : Bool) (w' : World) : Prop where
  reached : success = true → ∃ t c, Leads w.disk directorySector names t ∧ CurrentIs w' t c
  stopped : success = false → ¬ ∃ t, Leads w.disk directorySector names t
  unchanged : success = false → w'.directoryFile = w.directoryFile ∧ w'.directorySize = w.directorySize ∧
    (books w').sectors w'.directoryFile = (books w).sectors w.directoryFile

/-- `ChangeDirRootPath` returns, and it follows the pieces that `SeparateDir` keeps. -/
theorem run_changeDirRootPath_wentTo (h : InOrder w own m K objs) (hlocks : FileLocksOk w) (hstocked : Stocked w.disk)
    (hlen : name.tail.length < filePathMaxLen) (me : Tid) (onlyChange : Bool) :
    ∃ success w', (changeDirRootPath me name onlyChange).run w = some (success, w') ∧
      WentTo w (separateDir name.tail).dropLast success w' := by
  obtain ⟨dir, w1, henter, hlocks1⟩ := run_enterRoot h hlocks hstocked
  obtain ⟨h1, c, hcur, hshows⟩ := relocated_enterRoot h henter
  obtain ⟨success, w2, hwalk, hwalked⟩ := run_walkPath me (separateDir name.tail).dropLast h1.inOrder hlocks1
    (by rw [h1.disk_eq]; exact hstocked) hcur (IsDirectory.root rfl) hshows
  have hrun := run_changeDirRootPath_eq onlyChange hlen henter hwalk
  have hreached := hwalked.reached
  have hstopped := hwalked.stopped
  rw [h1.disk_eq] at hreached hstopped
  have h2 := hwalked.moved.inOrder
  cases success with
  | false =>
    rw [if_neg Bool.false_ne_true] at hrun
    refine ⟨false, _, hrun, (fun htrue => by cases htrue), hstopped, fun _ => ⟨rfl, rfl, ?_⟩⟩
    show (w2.files w.directoryFile).map OpenFile.sector = _
    rw [(h1.trans hwalked.moved).files_eq _ List.mem_cons_self]
    rfl
  | true =>
    rw [if_pos rfl] at hrun
    obtain ⟨t, ct, hleads, hcurt⟩ := hreached rfl
    cases onlyChange with
    | false =>
      exact ⟨true, w2, hrun, fun _ => ⟨t, ct, hleads, hcurt⟩, hstopped, fun hfalse => by cases hfalse⟩
    | true =>
      obtain ⟨w3, hdelete, -⟩ := h2.run_deleteOpenFile hwalked.locks me
        (List.mem_cons_of_mem w2.directoryFile (List.mem_cons_self (a := w.directoryFile) (l := objs))) w2 rfl rfl rfl
      have hat := closedAt_deleteOpenFile hdelete
      rw [dropBackup, if_pos rfl, hdelete] at hrun
      refine ⟨true, w3, hrun, fun _ => ⟨t, ct, hleads, ?_, ?_, ?_⟩, hstopped, fun hfalse => by cases hfalse⟩
      · show (w3.files w3.directoryFile).map OpenFile.sector = some t
        rw [hat.directoryFile_eq, hat.files_eq,
          Function.update_of_ne (h2.ne_directoryFile List.mem_cons_self).symm]
        exact hcurt.object
      · rw [hat.disk_eq]
        exact hcurt.chain
      · rw [hat.directorySize_eq, hat.disk_eq]
        exact hcurt.size_eq

end Returns

/-! ## Where names lead -/

section Leads

variable {d : Disk} {own : Nat → Option Nat} {R : Nat → Prop} {s t : Nat} {names a b : List Name} {path : Name}

theorem Leads.isDirectory (h : Leads d s names t) (hs : IsDirectory d R s) : IsDirectory d R t := by
  induction h with
  | here => exact hs
  | into hc hi _ hdir _ ih => exact ih (IsDirectory.entry hs hc hi hdir)

theorem leads_append : Leads d s (a ++ b) t ↔ ∃ u, Leads d s a u ∧ Leads d u b t := by
  induction a generalizing s with
  | nil =>
    constructor
    · intro h
      exact ⟨s, Leads.here s, h⟩
    · rintro ⟨u, hu, h⟩
      cases hu
      exact h
  | cons name a ih =>
    constructor
    · intro h
      cases h with
      | into hc hi hname hdir hnames =>
        obtain ⟨u, hu, hb⟩ := ih.mp hnames
        exact ⟨u, Leads.into hc hi hname hdir hu, hb⟩
    · rintro ⟨u, hu, hb⟩
      cases hu with
      | into hc hi hname hdir hnames => exact Leads.into hc hi hname hdir (ih.mpr ⟨u, hnames, hb⟩)

/-- A directory below the root is an entry of one directory, and not the root. -/
theorem Leads.entry {name : Name} (h : Leads d s (a ++ [name]) t) : ∃ u c i, Leads d s a u ∧ HeaderChain d u c ∧
    Used (content d c) i ∧ t = entrySector (content d c) i := by
  obtain ⟨u, hu, hlast⟩ := leads_append.mp h
  cases hlast with
  | into hc hi _ _ hnil =>
    cases hnil
    exact ⟨u, _, _, hu, hc, hi, rfl⟩

theorem Leads.ne_root {name : Name} (htree : Tree d own R) (hR : R directorySector)
    (h : Leads d directorySector (a ++ [name]) t) : t ≠ directorySector := by
  obtain ⟨u, c, i, hu, hc, hi, rfl⟩ := h.entry
  exact ((htree.directoryOk (hu.isDirectory (IsDirectory.root hR)) hc).table.entries i hi).2.2

/-- All paths from the root to a directory are of the same length. -/
theorem Leads.length_eq (htree : Tree d own R) (hR : R directorySector) (h : Leads d directorySector a t)
    (h' : Leads d directorySector b t) : a.length = b.length := by
  induction a using List.reverseRecOn generalizing b t with
  | nil =>
    cases h
    rcases List.eq_nil_or_concat b with rfl | ⟨b', name, rfl⟩
    · rfl
    · rw [List.concat_eq_append] at h'
      exact absurd rfl (h'.ne_root htree hR)
  | append_singleton a name ih =>
    rcases List.eq_nil_or_concat b with rfl | ⟨b', name', rfl⟩
    · cases h'
      exact absurd rfl (h.ne_root htree hR)
    · rw [List.concat_eq_append] at h'
      obtain ⟨u, c, i, hu, hc, hi, ht⟩ := h.entry
      obtain ⟨u', c', j, hu', hc', hj, ht'⟩ := h'.entry
      have hroot := IsDirectory.root (d := d) hR
      obtain ⟨rfl, -⟩ := htree.sole (hu.isDirectory hroot) (hu'.isDirectory hroot) hc hc' hi hj (ht.symm.trans ht')
      rw [List.concat_eq_append, List.length_append, List.length_append, ih hu hu']
      rfl

/-! ## The pieces -/

/-- The components of an absolute path are the pieces behind its first slash. -/
theorem components_absolute (habs : path.head? = some slash) :
    components path = (path.tail.splitOn slash).filter (· ≠ []) := by
  cases path with
  | nil => cases habs
  | cons x path =>
    cases habs
    simp [components, List.splitOn, List.splitOnP_cons]

/-- The walk is over the components, as far as there are nine of them. -/
theorem separateDir_dropLast (name : Name) :
    (separateDir name).dropLast = ((name.splitOn slash).filter (· ≠ [])).take (maxDirLevel - 1) := by
  rw [separateDir]
  generalize (name.splitOn slash).filter (· ≠ []) = pieces
  by_cases hlt : pieces.length < maxDirLevel
  · rw [List.take_of_length_le (by rw [List.length_append, List.length_singleton]; omega), List.dropLast_concat,
      List.take_of_length_le (by omega)]
  · have hle : maxDirLevel ≤ pieces.length := Nat.le_of_not_lt hlt
    rw [List.take_append_of_le_length hle, List.dropLast_eq_take, List.take_take, List.length_take,
      Nat.min_eq_left hle, Nat.min_eq_left (Nat.sub_le _ _)]

end Leads

section Resolve

variable {w w' : World} {own : Nat → Option Nat} {m : Bitmap} {K : Nat → Prop} {objs : List FileId} {path : Name}

/-- `ChangeDir` of an absolute path follows all of its components exactly when there are fewer than
`MAX_DIR_LEVEL` of them, or when the first nine lead nowhere. -/
theorem changeDir_resolves_iff (h : InOrder w own m K objs) (hlocks : FileLocksOk w) (hstocked : Stocked w.disk)
    (habs : path.head? = some slash) (hlen : path.length < filePathMaxLen) (me : Tid) (onlyChange : Bool) :
    ((changeDir me path onlyChange).Returns w fun success w' => Resolved w path success w') ↔
      (components path).length < maxDirLevel ∨
        ¬ ∃ t, Leads w.disk directorySector ((components path).take (maxDirLevel - 1)) t := by
  have htail : path.tail.length < filePathMaxLen := by
    rw [List.length_tail]
    omega
  obtain ⟨success, w', hrun, hwent⟩ := run_changeDirRootPath_wentTo h hlocks hstocked htail me onlyChange
  rw [separateDir_dropLast, ← components_absolute habs] at hwent
  have hchange : (changeDir me path onlyChange).run w = some (success, w') := by
    rw [changeDir, if_pos habs, hrun]
  generalize hnames : components path = names at *
  by_cases hlt : names.length < maxDirLevel
  · refine ⟨fun _ => Or.inl hlt, fun _ => ⟨success, w', hchange, ?_⟩⟩
    rw [List.take_of_length_le (by omega)] at hwent
    refine ⟨?_, ?_, hwent.unchanged⟩
    · rw [hnames]
      constructor
      · intro hsuccess
        obtain ⟨t, -, hleads, -⟩ := hwent.reached hsuccess
        exact ⟨t, hleads⟩
      · intro hleads
        by_contra hfalse
        exact hwent.stopped (by simpa using hfalse) hleads
    · rw [hnames]
      exact hwent.reached
  · have hbegin : ∀ t, Leads w.disk directorySector names t →
        ∃ u, Leads w.disk directorySector (names.take (maxDirLevel - 1)) u := by
      intro t hleads
      rw [← List.take_append_drop (maxDirLevel - 1) names] at hleads
      obtain ⟨u, hu, -⟩ := leads_append.mp hleads
      exact ⟨u, hu⟩
    constructor
    · intro hreturns
      refine Or.inr fun hnine => ?_
      have hresolved := hreturns.ensures _ _ hchange
      have hsuccess : success = true := by
        by_contra hfalse
        exact hwent.stopped (by simpa using hfalse) hnine
      obtain ⟨t, c, hleads, hcur⟩ := hresolved.reached hsuccess
      obtain ⟨t', c', hleads', hcur'⟩ := hwent.reached hsuccess
      rw [hnames] at hleads
      obtain rfl := Option.some.inj (hcur.object.symm.trans hcur'.object)
      have hlength := hleads.length_eq h.tree (Or.inl rfl) hleads'
      rw [List.length_take] at hlength
      have : maxDirLevel = 10 := rfl
      omega
    · intro hnine
      have hnone := hnine.resolve_left hlt
      have hfalse : success = false := by
        by_contra htrue
        obtain ⟨t, -, hleads, -⟩ := hwent.reached (by simpa using htrue)
        exact hnone ⟨t, hleads⟩
      refine ⟨success, w', hchange, ?_, ?_, hwent.unchanged⟩
      · rw [hnames, hfalse]
        constructor
        · intro habsurd
          cases habsurd
        · rintro ⟨t, hleads⟩
          exact absurd (hbegin t hleads) hnone
      · intro hsuccess
        rw [hfalse] at hsuccess
        cases hsuccess

end Resolve

/-! ## An empty root -/

section EmptyRoot

/-- A free map in which the sectors 0 to 5 are taken. -/
def rootMap : Bitmap := (smallMap.mark 4).mark 5

/-- The header of a root of ten entries. -/
def rootHeader : RawFileHeader where
  numBytes := 280
  numSectors := 3
  dataSectors := 3 :: 4 :: 5 :: List.replicate 26 0
  nextFileHeader := 0
  length_dataSectors := rfl

/-- A disk with the free map and an empty root. -/
def rootDisk : Disk := fun x =>
  if x = 0 then mapHeader.toSector
  else if x = freeMapDataSector then Sector.ofBytes (mapBytes rootMap)
  else if x = directorySector then rootHeader.toSector
  else Sector.ofBytes []

/-- Who owns its sectors. -/
def rootOwner (x : Nat) : Option Nat :=
  if x = 0 ∨ x = freeMapDataSector then some 0 else if x ∈ [directorySector, 3, 4, 5] then some directorySector else none

/-- The entry of a file that is open once, with its locks. -/
def openOnce (l : LockId) : OpenDirEntry :=
  { OpenDirEntry.initial with
    count := 1, writeLock := some l, removeLock := some (l + 1), closeLock := some (l + 2) }

/-- The file system that has been started on this disk. -/
def rootWorld : World :=
  { World.initial rootDisk fun _ _ _ => 0 with
    table := fun s => if s = 0 then openOnce 1 else if s = directorySector then openOnce 4 else OpenDirEntry.initial
    files := fun f =>
      if f = 0 then some { hdr := mapHeader, seekPosition := 0, sector := 0, currentSector := 0 }
      else if f = 1 then some
        { hdr := rootHeader, seekPosition := 0, sector := directorySector, currentSector := directorySector }
      else none
    nextFile := 2
    locks := fun l => if l < 7 then some { lockOwner := none } else none
    nextLock := 7
    directoryFile := 1
    directorySize := 10 }

theorem rootDisk_mapHeader : hdrAt rootDisk 0 = mapHeader := by
  rw [hdrAt, rootDisk, if_pos rfl]
  exact RawFileHeader.ofSector_toSector (RawFileHeader.fits_iff.mpr (by decide))

theorem rootDisk_rootHeader : hdrAt rootDisk directorySector = rootHeader := by
  rw [hdrAt, rootDisk, if_neg (by decide), if_neg (by decide), if_pos rfl]
  exact RawFileHeader.ofSector_toSector (RawFileHeader.fits_iff.mpr (by decide))

theorem rootOwner_cases {x t : Nat} (h : rootOwner x = some t) :
    (x = 0 ∨ x = freeMapDataSector) ∧ t = 0 ∨ x ∈ [directorySector, 3, 4, 5] ∧ t = directorySector := by
  unfold rootOwner at h
  split at h
  · exact Or.inl ⟨‹_›, (Option.some.inj h).symm⟩
  · split at h
    · exact Or.inr ⟨‹_›, (Option.some.inj h).symm⟩
    · cases h

theorem rootMap_fileOk : FileOk rootDisk rootOwner 0 [0] where
  chain := ⟨[], rfl, by rw [rootDisk_mapHeader]; rfl⟩
  ok := by
    intro x hx
    rw [List.mem_singleton] at hx
    rw [hx, rootDisk_mapHeader]
    exact ⟨rfl, by decide⟩
  nodup := by
    rw [sectorsOf_cons, rootDisk_mapHeader]
    decide
  own_iff := by
    intro x
    rw [sectorsOf_cons, rootDisk_mapHeader]
    constructor
    · intro h
      rcases rootOwner_cases h with ⟨rfl | rfl, -⟩ | ⟨-, hne⟩
      · decide
      · decide
      · cases hne
    · intro h
      have hx : x = 0 ∨ x = freeMapDataSector := by
        simpa [sectorsOf, RawFileHeader.dataOf, mapHeader] using h
      rw [rootOwner, if_pos hx]

theorem root_fileOk : FileOk rootDisk rootOwner directorySector [directorySector] where
  chain := ⟨[], rfl, by rw [rootDisk_rootHeader]; rfl⟩
  ok := by
    intro x hx
    rw [List.mem_singleton] at hx
    rw [hx, rootDisk_rootHeader]
    exact ⟨rfl, by decide⟩
  nodup := by
    rw [sectorsOf_cons, rootDisk_rootHeader]
    decide
  own_iff := by
    intro x
    rw [sectorsOf_cons, rootDisk_rootHeader]
    constructor
    · intro h
      rcases rootOwner_cases h with ⟨-, hne⟩ | ⟨hx, -⟩
      · cases hne
      · simpa [sectorsOf, RawFileHeader.dataOf, rootHeader] using hx
    · intro h
      have hx : x ∈ [directorySector, 3, 4, 5] := by
        simpa [sectorsOf, RawFileHeader.dataOf, rootHeader] using h
      have hne : ¬ (x = 0 ∨ x = freeMapDataSector) := by
        simp only [List.mem_cons, List.not_mem_nil, or_false] at hx
        rcases hx with rfl | rfl | rfl | rfl <;> decide
      rw [rootOwner, if_neg hne, if_pos hx]

theorem rootDisk_layout : Layout rootDisk rootOwner where
  files := by
    intro x t h
    rcases rootOwner_cases h with ⟨-, rfl⟩ | ⟨-, rfl⟩
    · exact ⟨[0], rootMap_fileOk⟩
    · exact ⟨[directorySector], root_fileOk⟩
  lt := by
    intro x t h
    rcases rootOwner_cases h with ⟨rfl | rfl, -⟩ | ⟨hx, -⟩
    · decide
    · decide
    · simp only [List.mem_cons, List.not_mem_nil, or_false] at hx
      rcases hx with rfl | rfl | rfl | rfl <;> decide
  own_zero := rfl
  mapHeader := by
    rw [rootDisk_mapHeader]
    exact ⟨rfl, rfl, rfl, rfl⟩

theorem root_content : content rootDisk [directorySector] = List.replicate 280 0 := by
  rw [content_cons, rootDisk_rootHeader]
  decide +kernel

theorem root_length : (content rootDisk [directorySector]).length = 10 * dirEntrySize := by
  rw [root_content, List.length_replicate]
  rfl

theorem root_numEntries : numEntries (content rootDisk [directorySector]) = 10 := by
  rw [numEntries, root_length]
  rfl

/-- No entry of the root is in use. -/
theorem root_unused (i : Nat) : ¬ Used (content rootDisk [directorySector]) i := by
  intro h
  have hlt := h.lt
  have huse := h.inUse
  rw [root_numEntries] at hlt
  rw [root_content] at huse
  have hzero : ∀ j, j < 10 → entryInUse (List.replicate 280 0) j = false := by decide
  rw [hzero i hlt] at huse
  cases huse

/-- The root is the only directory. -/
theorem root_only {R : Nat → Prop} (hR : ∀ s, R s → s = directorySector) {s : Nat} (h : IsDirectory rootDisk R s) :
    s = directorySector := by
  induction h with
  | root hs => exact hR _ hs
  | entry _ hc hi _ ih =>
    rw [ih] at hc
    rw [hc.unique root_fileOk.chain] at hi
    exact absurd hi (root_unused _)

theorem root_directoryOk : DirectoryOk rootDisk rootOwner directorySector [directorySector] where
  start_ne := by decide
  file := root_fileOk
  full := by
    intro pre x post hc hpost
    have := congrArg List.length hc
    have := List.length_pos_iff.mpr hpost
    simp at *
    omega
  table := TableOk.unused root_length (by decide) root_unused

theorem root_tree {R : Nat → Prop} (hR : ∀ s, R s → s = directorySector) : Tree rootDisk rootOwner R where
  directory := by
    intro s hs
    rw [root_only hR hs]
    exact ⟨_, root_directoryOk⟩
  sole := by
    intro s s' c c' i j hs _ hc _ hi
    rw [root_only hR hs] at hc
    rw [hc.unique root_fileOk.chain] at hi
    exact absurd hi (root_unused i)

theorem rootWorld_current : CurrentIs rootWorld directorySector [directorySector] where
  object := rfl
  chain := root_fileOk.chain
  size_eq := by
    exact root_numEntries.symm

theorem rootMap_numBits : rootMap.numBits = numSectors := by
  rw [rootMap, Bitmap.numBits_mark, Bitmap.numBits_mark, smallMap_numBits]

theorem rootMap_test {x : Nat} (hx : x < 6) : rootMap.test x = true := by
  have hmarked : rootMap.FirstMarked 6 :=
    (smallMap_firstMarked.mark (by rw [smallMap_numBits]; decide)).mark
      (by rw [Bitmap.numBits_mark, smallMap_numBits]; decide)
  exact hmarked.test_of_lt (by rw [rootMap_numBits]; decide) hx

theorem rootWorld_inOrder : InOrder rootWorld rootOwner rootMap (fun _ => False) [] where
  layout := rootDisk_layout
  marked := by
    intro x t h
    rcases rootOwner_cases h with ⟨rfl | rfl, -⟩ | ⟨hx, -⟩
    · exact rootMap_test (by decide)
    · exact rootMap_test (by decide)
    · simp only [List.mem_cons, List.not_mem_nil, or_false] at hx
      rcases hx with rfl | rfl | rfl | rfl <;> exact rootMap_test (by decide)
  mapIs := by
    refine ⟨rootMap_numBits, ?_⟩
    have hlen := length_mapBytes rootMap_numBits
    show (rootDisk freeMapDataSector).bytes = mapBytes rootMap
    rw [rootDisk, if_neg (by decide), if_pos rfl, Sector.bytes_ofBytes (Nat.le_of_eq hlen.symm), ← hlen,
      List.take_length]
  mapFile := ⟨_, rfl, rfl, rfl, rfl, rfl⟩
  mapSector := rfl
  tree := by
    refine root_tree ?_
    rintro s (rfl | hs | hs)
    · rfl
    · cases hs
      rfl
    · exact absurd hs id
  kept := fun _ hs => absurd hs id
  exact := by
    refine ⟨fun s => ?_, by decide, ?_, ?_⟩
    · show (if s = 0 then openOnce 1 else if s = directorySector then openOnce 4 else OpenDirEntry.initial).count = _
      by_cases hzero : s = 0
      · rw [hzero]
        decide
      · by_cases hone : s = directorySector
        · rw [hone]
          decide
        · rw [if_neg hzero, if_neg hone]
          have hnone : ∀ f ∈ [0, 1], ¬ (books rootWorld).sectors f = some s := by
            intro f hf
            simp only [List.mem_cons, List.not_mem_nil, or_false] at hf
            rcases hf with rfl | rfl
            · exact fun heq => hzero (Option.some.inj heq).symm
            · exact fun heq => hone (Option.some.inj heq).symm
          exact (List.countP_eq_zero.mpr fun f hf => by simpa using hnone f hf).symm
    · intro f hf
      simp only [List.mem_cons, List.not_mem_nil, or_false] at hf
      rcases hf with rfl | rfl <;> rfl
    · intro f hf
      simp only [List.mem_cons, List.not_mem_nil, or_false] at hf
      rcases hf with rfl | rfl <;> decide
  objects := by
    intro f hf
    rw [List.mem_singleton] at hf
    rw [hf]
    exact ⟨directorySector, rfl, by decide, rfl⟩
  tidy := ⟨fun _ => rfl, fun l hl => if_neg (Nat.not_lt.mpr hl)⟩
  current := ⟨_, _, rootWorld_current⟩

theorem rootWorld_table (s : Nat) : rootWorld.table s =
    if s = 0 then openOnce 1 else if s = directorySector then openOnce 4 else OpenDirEntry.initial := rfl

/-- The locks of the two files that are open. -/
theorem rootWorld_open {s : Nat} (h : (rootWorld.table s).count ≠ 0 ∨ (rootWorld.table s).closeLock ≠ none) :
    s = 0 ∧ rootWorld.table s = openOnce 1 ∨ s = directorySector ∧ rootWorld.table s = openOnce 4 := by
  rw [rootWorld_table] at h ⊢
  by_cases hzero : s = 0
  · exact Or.inl ⟨hzero, if_pos hzero⟩
  · by_cases hone : s = directorySector
    · exact Or.inr ⟨hone, by rw [if_neg hzero, if_pos hone]⟩
    · rw [if_neg hzero, if_neg hone] at h
      rcases h with h | h <;> exact absurd rfl h

theorem rootWorld_locksOk : FileLocksOk rootWorld := by
  have hclose : ∀ s l, (rootWorld.table s).closeLock = some l → l = 3 ∧ s = 0 ∨ l = 6 ∧ s = directorySector := by
    intro s l hl
    rcases rootWorld_open (Or.inr (by rw [hl]; exact Option.some_ne_none l)) with ⟨hs, he⟩ | ⟨hs, he⟩
    · rw [he] at hl
      exact Or.inl ⟨(Option.some.inj hl).symm, hs⟩
    · rw [he] at hl
      exact Or.inr ⟨(Option.some.inj hl).symm, hs⟩
  have hwrite : ∀ s l, (rootWorld.table s).count ≠ 0 → (rootWorld.table s).writeLock = some l →
      l = 1 ∧ s = 0 ∨ l = 4 ∧ s = directorySector := by
    intro s l hcount hl
    rcases rootWorld_open (Or.inl hcount) with ⟨hs, he⟩ | ⟨hs, he⟩
    · rw [he] at hl
      exact Or.inl ⟨(Option.some.inj hl).symm, hs⟩
    · rw [he] at hl
      exact Or.inr ⟨(Option.some.inj hl).symm, hs⟩
  refine ⟨fun s => ?_, fun s l hl => ?_, fun s hs => ?_, fun s hs => ?_, fun s s' l hs hl hl' => ?_,
    fun s s' l hs hs' hl hl' => ?_⟩
  · rw [rootWorld_table]
    split
    · rfl
    · split <;> rfl
  · rcases hclose s l hl with ⟨rfl, -⟩ | ⟨rfl, -⟩ <;> rfl
  · rcases rootWorld_open (Or.inl hs) with ⟨-, he⟩ | ⟨-, he⟩
    · rw [he]
      exact Option.some_ne_none _
    · rw [he]
      exact Option.some_ne_none _
  · rcases rootWorld_open (Or.inl hs) with ⟨-, he⟩ | ⟨-, he⟩
    · rw [he]
      exact ⟨1, rfl, rfl⟩
    · rw [he]
      exact ⟨4, rfl, rfl⟩
  · rcases hwrite s l hs hl with ⟨rfl, -⟩ | ⟨rfl, -⟩
    · rcases hclose s' _ hl' with ⟨hne, -⟩ | ⟨hne, -⟩ <;> cases hne
    · rcases hclose s' _ hl' with ⟨hne, -⟩ | ⟨hne, -⟩ <;> cases hne
  · rcases hwrite s l hs hl with ⟨hl1, hs1⟩ | ⟨hl1, hs1⟩
    · rcases hwrite s' l hs' hl' with ⟨-, hs2⟩ | ⟨hl2, -⟩
      · rw [hs1, hs2]
      · cases hl1.symm.trans hl2
    · rcases hwrite s' l hs' hl' with ⟨hl2, -⟩ | ⟨-, hs2⟩
      · cases hl1.symm.trans hl2
      · rw [hs1, hs2]

theorem rootDisk_stocked : Stocked rootDisk := by
  intro s c hs hc
  rw [root_only (fun _ h => h) hs] at hc
  rw [hc.unique root_fileOk.chain, root_numEntries]
  decide

/-- `ChangeDir("/")` in an empty file system. -/
theorem changeDir_resolves_root :
    (changeDir 0 [slash] true).Returns rootWorld fun success w' => Resolved rootWorld [slash] success w' :=
  (changeDir_resolves_iff rootWorld_inOrder rootWorld_locksOk rootDisk_stocked rfl (by decide) 0 true).mpr
    (Or.inl (by decide))

end EmptyRoot

/-! ## Ten levels -/

section Deep

/-- The header of the directory at level `k`. -/
def levelHeader (k : Nat) : RawFileHeader where
  numBytes := 280
  numSectors := 3
  dataSectors := [20 + 3 * k, 21 + 3 * k, 22 + 3 * k] ++ List.replicate 26 0
  nextFileHeader := 0
  length_dataSectors := rfl

/-- An entry for the directory `a` at level `k + 1`. -/
def levelEntry (k : Nat) : List UInt8 :=
  [1, 0, 0, 0] ++ [UInt8.ofNat (11 + k), 0, 0, 0] ++ (97 :: List.replicate 15 0) ++ [1, 0, 0, 0]

/-- A disk with nine directories `a` under the root, each in the one before; the last one is empty. -/
def deepDisk : Disk := fun x =>
  if x = directorySector then (levelHeader 0).toSector
  else if 11 ≤ x ∧ x ≤ 19 then (levelHeader (x - 10)).toSector
  else if x ∈ [20, 23, 26, 29, 32, 35, 38, 41, 44] then Sector.ofBytes (levelEntry ((x - 20) / 3))
  else Sector.ofBytes []

/-- The path `/a/a/a/a/a/a/a/a/a/b`. -/
def deepPath : Name := (List.replicate 9 [slash, 97]).flatten ++ [slash, 98]

/-- Do the names lead on from the directory at `s`, as far as directories of one header go? -/
def reaches (d : Disk) : Nat → List Name → Bool
  | _, [] => true
  | s, name :: names => (hdrAt d s).nextFileHeader != 0 ||
    (List.range (numEntries (content d [s]))).any fun i =>
      entryInUse (content d [s]) i && entryHasName (content d [s]) i name &&
        entryIsDirectory (content d [s]) i && reaches d (entrySector (content d [s]) i) names

theorem Leads.reaches {d : Disk} {s t : Nat} {names : List Name} (h : Leads d s names t) :
    reaches d s names = true := by
  induction h with
  | here => rfl
  | @into s t c i name names hc hi hname hdir _ ih =>
    rw [Filesys.reaches]
    by_cases hnext : (hdrAt d s).nextFileHeader = 0
    · have hone : HeaderChain d s [s] := ⟨[], rfl, hnext⟩
      rw [hc.unique hone] at hi hname hdir ih
      rw [Bool.or_eq_true, List.any_eq_true]
      refine Or.inr ⟨i, List.mem_range.mpr hi.lt, ?_⟩
      rw [hi.inUse, hname, hdir, ih]
      rfl
    · rw [Bool.or_eq_true]
      exact Or.inl (bne_iff_ne.mpr hnext)

/-- A call that starts from the state after another one. -/
theorem exists_run_of_eq (start : Option (Unit × World)) (call : World → Option (Bool × World)) (check : World → Bool)
    (h : (start.bind fun r => (call r.2).map fun r' => (r'.1, check r.2)) = some (true, false)) :
    ∃ w w', start = some ((), w) ∧ call w = some (true, w') ∧ check w = false := by
  obtain ⟨⟨_, w⟩, hstart, hrun⟩ := Option.bind_eq_some_iff.mp h
  obtain ⟨⟨success, w'⟩, hcall, hpair⟩ := Option.map_eq_some_iff.mp hrun
  obtain ⟨hsuccess, hcheck⟩ := Prod.mk.inj hpair
  rw [show success = true from hsuccess] at hcall
  exact ⟨w, w', hstart, hcall, hcheck⟩

/-- `ChangeDir` of a path with ten components goes to the ninth directory, although there is no `b` in it. -/
theorem deep_path_not_resolved : ∃ w w', mount.run (World.initial deepDisk fun _ _ _ => 0) = some ((), w) ∧
    (changeDir 0 deepPath true).run w = some (true, w') ∧ ¬ Resolved w deepPath true w' := by
  obtain ⟨w, w', hmount, hchange, hreaches⟩ := exists_run_of_eq
    (mount.run (World.initial deepDisk fun _ _ _ => 0)) (changeDir 0 deepPath true).run
    (fun w => reaches w.disk directorySector (components deepPath)) (by decide +kernel)
  refine ⟨w, w', hmount, hchange, fun hresolved => ?_⟩
  obtain ⟨t, hleads⟩ := hresolved.success_iff.mp rfl
  rw [hleads.reaches] at hreaches
  cases hreaches

end Deep

end Nachos.Filesys
