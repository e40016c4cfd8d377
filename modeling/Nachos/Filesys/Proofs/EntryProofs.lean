import Mathlib.Data.Finset.Card
import Mathlib.Data.Finset.Range
import Nachos.Filesys.FileSession
import Nachos.Filesys.Proofs.ChangeDirProofs

/-!
# Proofs: entries of the current directory

`Create`, `CreateDir` and `Remove` in the current directory keep the file system in order: the directory
gets an entry for a new file or loses that of a file that goes, and nothing else changes.
-/

namespace Nachos.Filesys

open Foundations Resumption

/-! ## The table -/

section Table

variable {w w' : World} {dir dir' : Directory} {name : Name} {t : Nat} {isDirectory : Bool}

theorem Directory.numEntries_table (dir : Directory) : numEntries dir.table = dir.tableSize := by
  rw [numEntries, dir.length_table]
  exact Nat.mul_div_cancel _ (by decide)

/-- An entry that is filled in. -/
theorem addsEntry_setEntry {u u' : List UInt8} {i : Nat} (hfree : ¬ Used u i)
    (hlen : u'.length = numEntries u' * dirEntrySize) (hi : i < numEntries u') (ht : t < 2 ^ 32)
    (hsize : numEntries u ≤ numEntries u')
    (hothers : ∀ j, j ≠ i → j < numEntries u' → j < numEntries u ∧ SameEntry u' u j) :
    AddsEntry u (setEntry u' i name t isDirectory) i name t := by
  have hle : (i + 1) * dirEntrySize ≤ u'.length := by
    rw [hlen]
    exact Nat.mul_le_mul_right _ hi
  have hset : numEntries (setEntry u' i name t isDirectory) = numEntries u' := by
    have hlen' : (setEntry u' i name t isDirectory).length = u'.length := by
      simp [setEntry, length_markDirectory]
    rw [numEntries, hlen', numEntries]
  refine ⟨hfree, ⟨by rw [hset]; exact hi, setEntry_inUse hle⟩, setEntry_hasName hle,
    setEntry_sector hle ht, by rw [hset]; exact hsize, fun j hji hj => ?_⟩
  rw [hset] at hj
  obtain ⟨hj', hsame⟩ := hothers j hji hj
  exact ⟨hj', (setEntry_sameEntry (Ne.symm hji)).trans hsame⟩

/-- What `Add` does to the table: it fills in an entry that was not in use, or one more entry if all are
in use. -/
theorem add_addsEntry (ht : t < 2 ^ 32)
    (hrun : (dir.add name t isDirectory).run w = some ((true, dir'), w')) :
    (∃ i, AddsEntry dir.table dir'.table i name t ∧ (isDirectory = false → Clean dir.table →
        ((∀ i, i < dir.tableSize → Used dir.table i) → w.heap .slot 0 24 = 0) →
        entryIsDirectory dir'.table i = false)) ∧
      ((∃ i, i < dir.tableSize ∧ entryInUse dir.table i = false) ∧ dir'.tableSize = dir.tableSize ∧ w' = w ∨
        (∀ i, i < dir.tableSize → Used dir.table i) ∧ dir'.tableSize = dir.tableSize + 1 ∧
          ∃ heap, w' = { w with heap := heap, directorySize := dir.tableSize + 1 }) := by
  unfold Directory.add at hrun
  split at hrun
  · cases hrun
  · cases hfree : dir.freeIndex with
    | some i =>
      rw [hfree] at hrun
      cases hrun
      obtain ⟨hi, huse⟩ := Directory.freeIndex_some hfree
      have hsize := dir.numEntries_table
      refine ⟨⟨i, ?_, fun hfile hclean _ => ?_⟩, Or.inl ⟨⟨i, hi, huse⟩, rfl, rfl⟩⟩
      · refine addsEntry_setEntry (fun hu => ?_) (by rw [hsize]; exact dir.length_table)
          (by rw [hsize]; exact hi) ht (Nat.le_refl _) fun j _ hj => ⟨hj, fun _ _ => rfl⟩
        rw [hu.inUse] at huse
        cases huse
      · show entryIsDirectory (setEntry dir.table i name t isDirectory) i = false
        rw [setEntry_isDirectory (dir.entry_le hi), hfile, Bool.false_or]
        exact hclean i (by rw [hsize]; exact hi) huse
    | none =>
      rw [hfree] at hrun
      cases hrun
      have hsize := dir.numEntries_table
      have hall : ∀ i, i < dir.tableSize → Used dir.table i :=
        fun i hi => ⟨by rw [hsize]; exact hi, Directory.freeIndex_none hfree hi⟩
      have hgrow := (dir.grow (w.heap .slot 0)).numEntries_table
      refine ⟨⟨dir.tableSize, ?_, fun hfile _ hheap => ?_⟩, Or.inr ⟨hall, rfl, _, rfl⟩⟩
      · refine addsEntry_setEntry (fun hu => ?_) (by rw [hgrow]; exact (dir.grow _).length_table)
          (by rw [hgrow]; exact Nat.lt_succ_self _) ht (by rw [hsize, hgrow]; exact Nat.le_succ _) ?_
        · have := hu.lt
          rw [hsize] at this
          exact Nat.lt_irrefl _ this
        · intro j hj hlt
          have hlt' : j < dir.tableSize + 1 := by
            rw [hgrow] at hlt
            exact hlt
          have hj' : j < dir.tableSize := Nat.lt_of_le_of_ne (Nat.le_of_lt_succ hlt') hj
          refine ⟨by rw [hsize]; exact hj', sameEntry_append ?_ _⟩
          exact dir.entry_le hj'
      · show entryIsDirectory (setEntry (dir.grow (w.heap .slot 0)).table dir.tableSize name t isDirectory)
          dir.tableSize = false
        rw [setEntry_isDirectory ((dir.grow _).entry_le (Nat.lt_succ_self _)), hfile, Bool.false_or]
        exact grow_isDirectory dir _ (hheap hall)

/-- A table of which all entries are in use, for different files, is not longer than the disk. -/
theorem TableOk.size_lt {own : Nat → Option Nat} {u : List UInt8} (h : TableOk own u)
    (hlt : ∀ i, Used u i → entrySector u i < numSectors)
    (hinj : ∀ i j, Used u i → Used u j → entrySector u i = entrySector u j → i = j)
    (hall : ∀ i, i < numEntries u → Used u i) : numEntries u < numSectors := by
  have hcard : (Finset.range (numEntries u)).card ≤ ((Finset.range numSectors).erase 0).card := by
    refine Finset.card_le_card_of_injOn (entrySector u) ?_ ?_
    · intro i hi
      have hu := hall i (Finset.mem_range.mp hi)
      exact Finset.mem_erase.mpr ⟨(h.entries i hu).2.1, Finset.mem_range.mpr (hlt i hu)⟩
    · intro i hi j hj hij
      exact hinj i j (hall i (Finset.mem_range.mp hi)) (hall j (Finset.mem_range.mp hj)) hij
  rw [Finset.card_range, Finset.card_erase_of_mem (Finset.mem_range.mpr (by decide)),
    Finset.card_range] at hcard
  exact Nat.lt_of_le_of_lt hcard (by decide)

end Table

/-! ## The file system after a change of the current directory -/

section Current

variable {w w' : World} {own own' : Nat → Option Nat} {m m' : Bitmap} {K : Nat → Prop}
  {objs : List FileId} {s t : Nat} {c c' : List Nat} {me : Tid} {name : Name}

/-- What the calls in the current directory do not change. -/
theorem InOrder.sectors_eq (h : InOrder w own m K objs) (hstep : DirStep w w') {f : FileId}
    (hf : f ∈ objs) : w'.files f = w.files f :=
  hstep.files_eq f (h.ne_directoryFile hf) (h.lt_nextFile (List.mem_cons_of_mem _ hf))

/-- The file system is in order again, with a new tree. -/
theorem InOrder.rebuild (h : InOrder w own m K objs) (hcur : CurrentIs w s c)
    (hdir : DirHandle w' own' m' s c') (hstep : DirStep w w') (hbalanced : Balanced w' objs)
    (htidy : KeepsTidy w w') (hsize : w'.directorySize = numEntries (content w'.disk c'))
    (htree : Tree w'.disk own' (Roots w K))
    (hown : ∀ f x, f ∈ objs → (books w).sectors f = some x → own x = some x → own' x = some x) :
    InOrder w' own' m' K objs ∧ CurrentIs w' s c' := by
  obtain ⟨file, hfile, hsector⟩ := hdir.handle
  have hobject : (books w').sectors w'.directoryFile = some s := by
    show (w'.files w'.directoryFile).map OpenFile.sector = some s
    rw [hfile, Option.map_some, hsector]
  have hsectors : ∀ f ∈ objs, (books w').sectors f = (books w).sectors f := by
    intro f hf
    show (w'.files f).map OpenFile.sector = (w.files f).map OpenFile.sector
    rw [h.sectors_eq hstep hf]
  have hcur' : CurrentIs w' s c' := ⟨hobject, hdir.inv.file.chain, hsize⟩
  refine ⟨⟨hdir.inv.layout, hdir.inv.marked, hdir.inv.mapIs, hdir.inv.mapFile, ?_, htree.reroot ?_, ?_,
    hbalanced, ?_, htidy.tidy h.tidy, s, c', hcur'⟩, hcur'⟩
  · show (w'.files w'.freeMapFile).map OpenFile.sector = _
    rw [hstep.freeMapFile_eq, hstep.files_eq _ (h.ne_freeMapFile List.mem_cons_self).symm
      (h.exact.lt_next _ List.mem_cons_self)]
    exact h.mapSector
  · rintro x (hx | hx | hx)
    · exact IsDirectory.root (Or.inl hx)
    · rw [hobject] at hx
      obtain rfl := Option.some.inj hx
      exact IsDirectory.root (Or.inr (Or.inl hcur.object))
    · exact IsDirectory.root (Or.inr (Or.inr hx))
  · intro x hx
    obtain ⟨f, hf, hfx⟩ := h.kept x hx
    exact ⟨f, hf, (hsectors f hf).trans hfx⟩
  · intro f hf
    rcases List.mem_cons.mp hf with rfl | hf
    · exact ⟨s, hobject, hdir.inv.start_ne, hdir.inv.file.own_start⟩
    · obtain ⟨x, hx, hx0, hxown⟩ := h.objects f (List.mem_cons_of_mem _ hf)
      exact ⟨x, (hsectors f hf).trans hx, hx0, hown f x hf hx hxown⟩

/-- No directory can be reached that could not before. -/
def NoNewDirectory (w : World) (K : Nat → Prop) (w' : World) : Prop :=
  ∀ x, IsDirectory w'.disk (Roots w K) x → IsDirectory w.disk (Roots w K) x

/-- What is known after the current directory got an entry for the new file `t`. -/
structure EntryCreated (w : World) (own : Nat → Option Nat) (m : Bitmap) (K : Nat → Prop)
    (objs : List FileId) (s : Nat) (c : List Nat) (name : Name) (t : Nat) (isDirectory : Bool) (w' : World)
    (own' : Nat → Option Nat) (m' : Bitmap) (c' : List Nat) : Prop where
  inOrder : InOrder w' own' m' K objs
  current : CurrentIs w' s c'
  only : OnlyFiles [s, t] w.disk own w'.disk own'
  fresh : own t = none
  clear : m.countClear ≠ 0
  adds : ∃ i, AddsEntry (content w.disk c) (content w'.disk c') i name t
  isPrefix : c <+: c'
  marks : MarksOwned m own → MarksOwned m' own'
  directories : ∀ x, IsDirectory w'.disk (Roots w K) x → IsDirectory w.disk (Roots w K) x ∨ x = t
  plain : isDirectory = false → Clean (content w.disk c) →
    (Grows w.disk c name → w.heap .slot 0 24 = 0) → NoNewDirectory w K w'
  files_eq : ∀ f ∈ objs, w'.files f = w.files f
  entry : NewEntry w' t (!isDirectory)
  tableStep : TableStep (fun _ => False) (· = t) w w'

/-- A directory with the new entry, the new file and nothing else changed. -/
theorem InOrder.entryCreated {dir' : Directory} {ct : List Nat} {n : Nat} {isDirectory : Bool}
    (h : InOrder w own m K objs)
    (hcur : CurrentIs w s c) (hdir : DirHandle w' own' m' s c')
    (hcontent : content w'.disk c' = dir'.table ++ (content w.disk c).drop dir'.table.length)
    (honly : OnlyFiles [s, t] w.disk own w'.disk own') (hfresh : own t = none) (hclear : m.countClear ≠ 0)
    (ht : t ≠ 0)
    (hfilet : FileOk w'.disk own' t ct) (hfullt : Full w'.disk ct)
    (hlent : (content w'.disk ct).length = n * dirEntrySize) (hn : n ≤ numSectors)
    (hunused : ∀ i, ¬ Used (content w'.disk ct) i)
    (hadds : ∃ i, AddsEntry (content w.disk c) dir'.table i name t ∧ (isDirectory = false →
      Clean (content w.disk c) → (Grows w.disk c name → w.heap .slot 0 24 = 0) →
      entryIsDirectory dir'.table i = false))
    (hsize : w'.directorySize = dir'.tableSize) (hle : dir'.tableSize ≤ numSectors)
    (hname : name.head? ≠ some slash)
    (hnot : ∀ i, Used (content w.disk c) i → entryHasName (content w.disk c) i name = false)
    (hextends : c <+: c') (hmarks : MarksOwned m own → MarksOwned m' own') (hstep : DirStep w w')
    (hbalanced : Balanced w' objs) (htidy : KeepsTidy w w') (hentry : NewEntry w' t (!isDirectory))
    (htableStep : TableStep (fun _ => False) (· = t) w w') :
    EntryCreated w own m K objs s c name t isDirectory w' own' m' c' := by
  obtain ⟨i, hadd, hflag⟩ := hadds
  have hok := h.directoryOk hcur
  have hnum := dir'.numEntries_table
  have htable : content w'.disk c' = dir'.table := by
    have hlen : (content w.disk c).length ≤ dir'.table.length := by
      rw [hok.table.length_eq, dir'.length_table, ← hnum]
      exact Nat.mul_le_mul_right _ hadd.size_le
    rw [hcontent, List.drop_eq_nil_of_le hlen, List.append_nil]
  have hadd' : AddsEntry (content w.disk c) (content w'.disk c') i name t := by
    rw [htable]
    exact hadd
  have hne1 : t ≠ directorySector := by
    rintro rfl
    obtain ⟨b, hb⟩ := h.tree.directory _ h.root
    rw [hb.file.own_start] at hfresh
    cases hfresh
  have hnew : ∀ x, own x ≠ some t := by
    intro x hx
    rw [h.layout.own_start hx] at hfresh
    cases hfresh
  have hown : ∀ f x, f ∈ objs → (books w).sectors f = some x → own x = some x → own' x = some x := by
    intro f x _ _ hx
    by_cases hxs : x = s
    · rw [hxs]
      exact hdir.inv.file.own_start
    · refine (honly.own_iff x x ?_).mpr hx
      have hxt : x ≠ t := by
        rintro rfl
        exact hnew x hx
      simp [hxs, hxt]
  have hkeys : ∀ j, Used (content w.disk c) j → nameKey (entryName (content w.disk c) j) ≠ nameKey name := by
    intro j hj hkey
    have hfalse := hnot j hj
    rw [entryHasName, beq_eq_false_iff_ne] at hfalse
    exact hfalse hkey
  obtain ⟨htree, hdirs⟩ := h.tree.add h.layout honly (h.currentDirectory hcur) hcur.chain hnew ⟨ht, hne1⟩
    hdir.inv.file hdir.full hfilet hfullt hlent hn hunused hadd'
    (by rw [htable, hnum]; exact dir'.length_table) (by rw [htable, hnum]; exact hle) hname hkeys
  obtain ⟨h', hcur'⟩ := h.rebuild hcur hdir hstep hbalanced htidy (by rw [hsize, htable, hnum]) htree hown
  refine ⟨h', hcur', honly, hfresh, hclear, ⟨i, hadd'⟩, hextends, hmarks,
    fun x hx => (hdirs x hx).imp id fun hxt => hxt.1, fun hfile hclean hheap x hx => ?_,
    fun f hf => h.sectors_eq hstep hf, hentry, htableStep⟩
  refine (hdirs x hx).resolve_right ?_
  rintro ⟨-, htrue⟩
  rw [htable, hflag hfile hclean hheap] at htrue
  cases htrue

/-! ## Creating a file -/

/-- Nobody has a free sector open. -/
theorem InOrder.count_eq_zero (h : InOrder w own m K objs) (ht : own t = none) : (w.table t).count = 0 := by
  refine (h.exact.counts_eq t).trans (List.countP_eq_zero.mpr fun f hf => ?_)
  rw [decide_eq_true_eq]
  intro hft
  rcases List.mem_cons.mp hf with rfl | hf
  · cases h.mapSector.symm.trans hft
    rw [freeMapSector, h.layout.own_zero] at ht
    cases ht
  · obtain ⟨x, hx, -, hown⟩ := h.objects f hf
    cases hx.symm.trans hft
    rw [hown] at ht
    cases ht

theorem InOrder.newSector {m1 : Bitmap} (h : InOrder w own m K objs)
    (hnew : Session.NewSector w t m1) : (w.table t).count = 0 := by
  obtain ⟨s, c, hcur⟩ := h.current
  obtain ⟨dir, w1, m2, w2, hfetch, hmap, hfind⟩ := hnew
  have h1 := h.fetchDirectory hcur hfetch
  rw [run_fetchFreeMap h1.inOrder.mapFile h1.inOrder.mapIs] at hmap
  cases hmap
  obtain ⟨-, hfree, -⟩ := Bitmap.find_some hfind
  exact h.count_eq_zero ((h.dirHandle hcur).inv.own_none hfree)

/-- What is known after a call that found nothing to do. -/
structure Unchanged (w : World) (own : Nat → Option Nat) (m : Bitmap) (K : Nat → Prop)
    (objs : List FileId) (s : Nat) (c : List Nat) (w' : World) : Prop where
  inOrder : InOrder w' own m K objs
  current : CurrentIs w' s c
  disk_eq : w'.disk = w.disk
  files_eq : ∀ f ∈ objs, w'.files f = w.files f
  sameTable : SameTable w w'

theorem Unchanged.quiet {w1 : World} (h : Unchanged w own m K objs s c w1) (hq : Quiet w1 w')
    (hbooks : SameBooks w1 w') (htidy : KeepsTidy w1 w') (htable : SameTable w1 w') :
    Unchanged w own m K objs s c w' :=
  ⟨h.inOrder.quiet hq hbooks htidy, h.current.sameBooks hq.disk_eq hbooks hq.directorySize_eq,
    hq.disk_eq.trans h.disk_eq, fun f hf => by rw [hq.files_eq]; exact h.files_eq f hf,
    IsTrans.trans _ _ _ h.sameTable htable⟩

theorem FetchedTable.unchanged {dir : Directory} (h : InOrder w own m K objs)
    (h1 : FetchedTable w own m K objs s c dir w') : Unchanged w own m K objs s c w' :=
  ⟨h1.inOrder, h1.current, h1.fetched.disk_eq, fun f hf => h1.fetched.step.files_eq f (h.ne_directoryFile hf),
    ⟨h1.fetched.step.table_eq, h1.fetched.step.locks_eq, h1.fetched.step.nextLock_eq⟩⟩

/-- A name that `Find` does not find. -/
theorem InOrder.not_found {dir : Directory} (h : InOrder w own m K objs) (hcur : CurrentIs w s c)
    (h1 : FetchedTable w own m K objs s c dir w') (hfind : dir.find name = -1) :
    dir.findIndex name = none ∧
      ∀ i, Used (content w.disk c) i → entryHasName (content w.disk c) i name = false := by
  rcases h.find_cases hcur h1.table_eq h1.size_eq name with ⟨-, hnone, hnot⟩ | ⟨i, -, -, -, hfind', -⟩
  · exact ⟨hnone, hnot⟩
  · rw [hfind] at hfind'
    omega

theorem EmptyFile.content_eq (h : EmptyFile w own t) : content w.disk [t] = [] := by
  rw [content_cons, dataBytes, h.empty, List.take_zero]
  rfl

theorem full_single (d : Disk) (x : Nat) : Full d [x] := by
  intro pre y post hc hpost
  have hlen := congrArg List.length hc
  have hpos := List.length_pos_iff.mpr hpost
  simp only [List.length_cons, List.length_nil, List.length_append] at hlen
  omega

/-- A directory that gets one more entry is not too long. -/
theorem InOrder.size_lt (h : InOrder w own m K objs) (hcur : CurrentIs w s c)
    (hall : ∀ i, i < numEntries (content w.disk c) → Used (content w.disk c) i) :
    numEntries (content w.disk c) < numSectors := by
  have htable := (h.directoryOk hcur).table
  have hdir := h.currentDirectory hcur
  refine htable.size_lt (fun i hi => h.layout.lt _ _ (htable.entries i hi).1) ?_ hall
  intro i j hi hj hij
  exact (h.tree.sole hdir hdir hcur.chain hcur.chain hi hj hij).2

theorem add_of_findIndex_none {dir dir' : Directory} {isDirectory added : Bool}
    (hnone : dir.findIndex name = none)
    (hrun : (dir.add name t isDirectory).run w = some ((added, dir'), w')) : added = true := by
  rw [Directory.add, if_neg (by rw [hnone]; decide)] at hrun
  split at hrun
  · cases hrun
    rfl
  · cases hrun
    rfl

/-- What is known after `Add` has made the directory `dir'` of the current one, in memory. -/
structure AddedEntry (w : World) (own : Nat → Option Nat) (m : Bitmap) (s : Nat) (c : List Nat)
    (name : Name) (t : Nat) (isDirectory : Bool) (dir' : Directory) (w' : World) : Prop where
  dirHandle : DirHandle w' own m s c
  disk_eq : w'.disk = w.disk
  size_eq : dir'.tableSize = w'.directorySize
  size_pos : 0 < dir'.tableSize
  size_le : dir'.tableSize ≤ numSectors
  need : needChain w.disk c dir'.table.length = 0 ∨
    Grows w.disk c name ∧ needChain w.disk c dir'.table.length = growthNeed w.disk c
  adds : ∃ i, AddsEntry (content w.disk c) dir'.table i name t ∧ (isDirectory = false →
    Clean (content w.disk c) → (Grows w.disk c name → w.heap .slot 0 24 = 0) →
    entryIsDirectory dir'.table i = false)

theorem InOrder.added {w1 : World} {dir dir' : Directory} {isDirectory : Bool}
    (h : InOrder w own m K objs) (hcur : CurrentIs w s c) (h1 : FetchedTable w own m K objs s c dir w1)
    (hnot : ∀ i, Used (content w.disk c) i → entryHasName (content w.disk c) i name = false) (ht : t < 2 ^ 32)
    (hrun : (dir.add name t isDirectory).run w1 = some ((true, dir'), w')) :
    AddedEntry w own m s c name t isDirectory dir' w' := by
  have hok := h.directoryOk hcur
  have htable := hok.table
  have hdisk1 := h1.fetched.disk_eq
  have hhandle := h1.inOrder.dirHandle h1.current
  have hlen : (content w.disk c).length = dir.tableSize * dirEntrySize := by
    rw [h1.size_eq]
    exact htable.length_eq
  obtain ⟨⟨i, hadds, hflag⟩, hcase⟩ := add_addsEntry ht hrun
  rw [h1.table_eq] at hadds hcase hflag
  rw [h1.fetched.step.slot_eq] at hflag
  have hgrows : (∀ i, i < dir.tableSize → Used (content w.disk c) i) → Grows w.disk c name := by
    intro hall
    rw [h1.size_eq] at hall
    exact ⟨hnot, fun i hi => (hall i hi).inUse⟩
  have hadds' : ∃ i, AddsEntry (content w.disk c) dir'.table i name t ∧ (isDirectory = false →
      Clean (content w.disk c) → (Grows w.disk c name → w.heap .slot 0 24 = 0) →
      entryIsDirectory dir'.table i = false) :=
    ⟨i, hadds, fun hfile hclean hheap => hflag hfile hclean fun hall => hheap (hgrows hall)⟩
  rcases hcase with ⟨-, hsize, rfl⟩ | ⟨hall, hsize, heap, rfl⟩
  · -- an entry that was not in use
    have hle : dir'.table.length ≤ (content w.disk c).length := by
      rw [dir'.length_table, hsize, hlen]
    have hne : c ≠ [] := List.ne_nil_of_mem hok.file.chain.start_mem
    refine ⟨hhandle, hdisk1, ?_, by rw [hsize]; exact h1.size_pos, ?_, Or.inl ?_, hadds'⟩
    · rw [hsize, h1.size_eq, h1.current.size_eq, hdisk1]
    · rw [hsize, h1.size_eq]
      exact htable.size_le
    · exact (needChain_le hok.file.ok hok.full hne _ (Nat.le_trans hle (Nat.le_add_right _ _))).2 hle
  · -- all entries were in use
    have hall' := hall
    rw [h1.size_eq] at hall'
    have hlt := h.size_lt hcur hall'
    refine ⟨hhandle.setSize _ heap, hdisk1, hsize, by rw [hsize]; exact Nat.succ_pos _, ?_,
      Or.inr ⟨hgrows hall, ?_⟩, hadds'⟩
    · rw [hsize, h1.size_eq]
      exact hlt
    · rw [dir'.length_table, hsize, h1.size_eq]
      rfl

/-- `Add` to a directory that does not grow changes nothing else. -/
theorem FetchedTable.add_eq {w1 : World} {dir dir' : Directory} {isDirectory : Bool}
    (h1 : FetchedTable w own m K objs s c dir w1)
    (hnot : ∀ i, Used (content w.disk c) i → entryHasName (content w.disk c) i name = false)
    (hgrow : ¬ Grows w.disk c name) (ht : t < 2 ^ 32)
    (hrun : (dir.add name t isDirectory).run w1 = some ((true, dir'), w')) : w' = w1 := by
  rcases (add_addsEntry ht hrun).2 with ⟨-, -, hw'⟩ | ⟨hall, -⟩
  · exact hw'
  · rw [h1.table_eq, h1.size_eq] at hall
    exact absurd ⟨hnot, fun i hi => (hall i hi).inUse⟩ hgrow

/-- `Create` in the current directory. -/
theorem InOrder.createFile {success : Bool} (h : InOrder w own m K objs) (hcur : CurrentIs w s c)
    (hname : name.head? ≠ some slash)
    (hroom : Grows w.disk c name → m.countClear ≠ 0 → growthNeed w.disk c + 1 ≤ m.countClear)
    (hrun : (createFile me name).run w = some (success, w')) :
    success = false ∧ Unchanged w own m K objs s c w' ∨
      success = true ∧ ∃ own' m' c' t, EntryCreated w own m K objs s c name t false w' own' m' c' ∧
        EmptyFile w' own' t := by
  have hbalanced : Balanced w' objs := balanced_createFile h.exact (fun _ _ hnew => h.newSector hnew) hrun
  have hstep := dirStep_createFile _ _ _ hrun
  have htidy := tidy_createFile _ _ _ hrun
  obtain ⟨dir, w1, hfetch, hrun⟩ := run_bind_eq_some.mp hrun
  have h1 := h.fetchDirectory hcur hfetch
  split at hrun
  · cases hrun
    exact Or.inl ⟨rfl, h1.unchanged h⟩
  rename_i hfind
  rw [run_bind, run_fetchFreeMap h1.inOrder.mapFile h1.inOrder.mapIs, Option.bind_some] at hrun
  dsimp only at hrun
  cases hfree : m.find with
  | mk found m1 =>
  rw [hfree] at hrun
  cases found with
  | none =>
    cases hrun
    exact Or.inl ⟨rfl, h1.unchanged h⟩
  | some t =>
  obtain ⟨ht, htest, -, rfl⟩ := Bitmap.find_some hfree
  rw [h.mapIs.numBits_eq] at ht
  obtain ⟨hnone, hnot⟩ := h.not_found hcur h1 (not_ne_iff.mp hfind)
  obtain ⟨⟨added, dir'⟩, w2, hadd, hrun⟩ := run_bind_eq_some.mp hrun
  obtain rfl := add_of_findIndex_none hnone hadd
  obtain ⟨_, w3, hflush, hret⟩ := run_bind_eq_some.mp hrun
  cases hret
  have hadded := h.added hcur h1 hnot (Nat.lt_trans ht (by decide)) hadd
  have hdisk2 := hadded.disk_eq
  have hclear : m.countClear ≠ 0 := by
    have hcount := Bitmap.countClear_mark (b := m) (i := t) (by rw [h.mapIs.numBits_eq]; exact ht) htest
    omega
  have hneed : needChain w2.disk c dir'.table.length = 0 ∨
      needChain w2.disk c dir'.table.length + 1 ≤ m.countClear := by
    rw [hdisk2]
    refine hadded.need.imp id fun hgrow => ?_
    rw [hgrow.2]
    exact hroom hgrow.1 hclear
  have hstepT : TableStep (fun _ => False) (· = t) w w' :=
    IsTrans.trans _ _ _ ((moves_tableStep sameTable_fetchDirectory) _ _ _ hfetch) (IsTrans.trans _ _ _
      ((moves_tableStep (sameTable_add _ _ _)) _ _ _ hadd) (tableStep_flushNewFile (T := (· = t)) rfl _ _ _ _ _ hflush))
  obtain ⟨own', m', c', hnew⟩ := flushNewFile_new hadded.dirHandle ht htest hadded.size_eq hadded.size_pos
    hneed hflush
  have hsize : w'.directorySize = dir'.tableSize := hnew.size_eq.trans hadded.size_eq.symm
  have hcontent := hnew.content_eq
  have honly := hnew.only
  have hempty := hnew.file.content_eq
  rw [hdisk2] at hcontent honly
  refine Or.inr ⟨rfl, own', m', c', t, h.entryCreated hcur hnew.dirFile.toDirHandle hcontent honly hnew.fresh
    hclear hnew.file.start_ne hnew.file.file (full_single _ t) (n := 0) ?_ (Nat.zero_le _) ?_ hadded.adds hsize
    hadded.size_le hname hnot hnew.isPrefix hnew.marks hstep hbalanced htidy hnew.entry hstepT, hnew.file⟩
  · rw [hempty]
    rfl
  · intro i hi
    rw [hempty] at hi
    exact Nat.not_lt_zero _ hi.lt

end Current

end Nachos.Filesys
