import Nachos.Filesys.DirectoryTree

/-!
# Proofs: the directory tree

How the tree of directories changes: another file is written, a directory gets an entry for a new file,
or it loses the entry of a file that goes. Everything else in the tree stays.
-/

namespace Nachos.Filesys

open Foundations

/-! ## The flag of an entry -/

section Flag

variable {t : List UInt8} {i sector : Nat} {name : Name} {isDirectory : Bool}

/-- `Add` sets the flag of a directory and leaves that of a file as it was. -/
theorem setEntry_isDirectory (h : (i + 1) * dirEntrySize ≤ t.length) :
    entryIsDirectory (setEntry t i name sector isDirectory) i =
      (isDirectory || entryIsDirectory t i) := by
  have hsz : dirEntrySize = 28 := rfl
  have hmax : fileNameMaxLen = 15 := rfl
  have hlen := length_paddedName name
  rw [Nat.succ_mul] at h
  have hmark : (setEntry t i name sector isDirectory)[i * dirEntrySize + 24]? =
      (markDirectory (poke t (i * dirEntrySize) [1]) i isDirectory)[i * dirEntrySize + 24]? := by
    have hle32 : (le32 sector).length = 4 := rfl
    unfold setEntry
    rw [getElem?_poke, if_neg (by omega), getElem?_poke, if_neg (by omega)]
  rw [entryIsDirectory, List.getD_eq_getElem?_getD, hmark, markDirectory]
  cases isDirectory with
  | true =>
    rw [if_pos rfl, getElem?_poke, if_pos]
    · simp
    · simp only [length_poke, List.length_singleton]
      omega
  | false =>
    rw [if_neg (by decide), getElem?_poke, if_neg, Bool.false_or, entryIsDirectory,
      List.getD_eq_getElem?_getD]
    simp only [List.length_singleton]
    omega

theorem clearEntry_isDirectory (h : (i + 1) * dirEntrySize ≤ t.length) :
    entryIsDirectory (clearEntry t i) i = false := by
  have hsz : dirEntrySize = 28 := rfl
  rw [Nat.succ_mul] at h
  have hbyte : (clearEntry t i)[i * dirEntrySize + 24]? = some 0 := by
    unfold clearEntry
    rw [getElem?_poke, if_pos]
    · simp
    · simp only [length_poke, List.length_singleton]
      omega
  rw [entryIsDirectory, List.getD_eq_getElem?_getD, hbyte]
  rfl

/-- The last entry of a table that has grown holds what the new memory held. -/
theorem grow_isDirectory (d : Directory) (heap : ByteMemory) (hheap : heap 24 = 0) :
    entryIsDirectory (d.grow heap).table d.tableSize = false := by
  show ((d.table ++ slice heap 0 dirEntrySize).getD (d.tableSize * dirEntrySize + 24) 0 != 0) = false
  rw [← d.length_table, List.getD_eq_getElem?_getD, List.getElem?_append_right (Nat.le_add_right _ _),
    Nat.add_sub_cancel_left, ← List.getD_eq_getElem?_getD, getD_slice _ _ _ (by decide), Nat.zero_add, hheap]
  rfl

end Flag

/-! ## Tables -/

section Table

variable {t t' : List UInt8} {own own' : Nat → Option Nat} {i j : Nat} {name : Name}

theorem TableOk.congr (h : TableOk own t)
    (hown : ∀ i, Used t i → own' (entrySector t i) = some (entrySector t i)) : TableOk own' t :=
  ⟨h.length_eq, h.size_le, fun i hi => ⟨hown i hi, (h.entries i hi).2⟩, h.names, h.relative⟩

/-- A table without entries in use. -/
theorem TableOk.unused {n : Nat} (hlen : t.length = n * dirEntrySize) (hn : n ≤ numSectors)
    (hunused : ∀ i, ¬ Used t i) : TableOk own t := by
  have hsize : numEntries t = n := by
    rw [numEntries, hlen]
    exact Nat.mul_div_cancel n (by decide)
  refine ⟨by rw [hsize, hlen], by rw [hsize]; exact hn, ?_, ?_, ?_⟩
  · exact fun i hi => absurd hi (hunused i)
  · exact fun i _ hi => absurd hi (hunused i)
  · exact fun i hi => absurd hi (hunused i)

theorem SameEntry.isDirectory_eq (h : SameEntry t t' i) :
    entryIsDirectory t i = entryIsDirectory t' i := by
  rw [entryIsDirectory, h.getD_eq (k := 24) (by decide), entryIsDirectory]

theorem head?_nameKey (name : Name) : (nameKey name).head? = some slash ↔ name.head? = some slash := by
  cases name with
  | nil => exact Iff.rfl
  | cons a name =>
    rw [nameKey, show (a :: name).take fileNameMaxLen = a :: name.take 14 from rfl, List.takeWhile_cons]
    split
    · exact Iff.rfl
    · rename_i ha
      have ha : a = 0 := by simpa using ha
      subst ha
      simp [slash]

/-- The other entries of the table were in use before. -/
theorem AddsEntry.used_of_ne {sector : Nat} (h : AddsEntry t t' i name sector) (hj : Used t' j)
    (hij : j ≠ i) : Used t j ∧ SameEntry t' t j := by
  obtain ⟨hlt, hsame⟩ := h.others j hij hj.lt
  refine ⟨⟨hlt, ?_⟩, hsame⟩
  rw [← hsame.inUse_eq]
  exact hj.inUse

/-- The table with the new entry is in order. -/
theorem AddsEntry.tableOk {sector : Nat} (h : AddsEntry t t' i name sector) (ht : TableOk own t)
    (hlen : t'.length = numEntries t' * dirEntrySize) (hsize : numEntries t' ≤ numSectors)
    (hown : ∀ x, own x = some x → own' x = some x) (hnew : own' sector = some sector)
    (hne : sector ≠ 0 ∧ sector ≠ directorySector) (hname : name.head? ≠ some slash)
    (hfresh : ∀ j, Used t j → nameKey (entryName t j) ≠ nameKey name) : TableOk own' t' := by
  have hkey : nameKey (entryName t' i) = nameKey name := by
    have := h.hasName
    rw [entryHasName, beq_iff_eq] at this
    exact this
  refine ⟨hlen, hsize, ?_, ?_, ?_⟩
  · intro j hj
    by_cases hij : j = i
    · rw [hij, h.sector_eq]
      exact ⟨hnew, hne⟩
    · obtain ⟨hjt, hsame⟩ := h.used_of_ne hj hij
      rw [hsame.sector_eq]
      exact ⟨hown _ (ht.entries j hjt).1, (ht.entries j hjt).2⟩
  · intro j k hj hk hjk
    by_cases hij : j = i
    · by_cases hik : k = i
      · rw [hij, hik]
      · obtain ⟨hkt, hsame⟩ := h.used_of_ne hk hik
        rw [hij, hkey, hsame.name_eq] at hjk
        exact absurd hjk.symm (hfresh k hkt)
    · obtain ⟨hjt, hsame⟩ := h.used_of_ne hj hij
      rw [hsame.name_eq] at hjk
      by_cases hik : k = i
      · rw [hik, hkey] at hjk
        exact absurd hjk (hfresh j hjt)
      · obtain ⟨hkt, hsame'⟩ := h.used_of_ne hk hik
        rw [hsame'.name_eq] at hjk
        exact ht.names j k hjt hkt hjk
  · intro j hj
    by_cases hij : j = i
    · rw [hij, Ne, ← head?_nameKey, hkey, head?_nameKey]
      exact hname
    · obtain ⟨hjt, hsame⟩ := h.used_of_ne hj hij
      rw [hsame.name_eq]
      exact ht.relative j hjt

theorem length_clearEntry (t : List UInt8) (i : Nat) : (clearEntry t i).length = t.length := by
  simp [clearEntry]

theorem numEntries_clearEntry (t : List UInt8) (i : Nat) : numEntries (clearEntry t i) = numEntries t := by
  rw [numEntries, length_clearEntry, numEntries]

/-- The entries that are left were in use before. -/
theorem RemovesEntry.used_left (h : RemovesEntry t t' i name) (hj : Used t' j) :
    j ≠ i ∧ Used t j ∧ SameEntry t' t j := by
  have heq := h.eq_clearEntry
  subst heq
  have hji : j ≠ i := by
    rintro rfl
    have := hj.inUse
    rw [clearEntry_inUse] at this
    cases this
  have hsame : SameEntry (clearEntry t i) t j := clearEntry_sameEntry hji.symm
  refine ⟨hji, ⟨?_, ?_⟩, hsame⟩
  · rw [← numEntries_clearEntry t i]
    exact hj.lt
  · rw [← hsame.inUse_eq]
    exact hj.inUse

theorem RemovesEntry.tableOk (h : RemovesEntry t t' i name) (ht : TableOk own t)
    (hown : ∀ j, Used t j → j ≠ i → own' (entrySector t j) = some (entrySector t j)) :
    TableOk own' t' := by
  have hsize : numEntries t' = numEntries t := by rw [h.eq_clearEntry, numEntries_clearEntry]
  refine ⟨?_, ?_, ?_, ?_, ?_⟩
  · rw [hsize, h.eq_clearEntry, length_clearEntry]
    exact ht.length_eq
  · rw [hsize]
    exact ht.size_le
  · intro j hj
    obtain ⟨hji, hjt, hsame⟩ := h.used_left hj
    rw [hsame.sector_eq]
    exact ⟨hown j hjt hji, (ht.entries j hjt).2⟩
  · intro j k hj hk hjk
    obtain ⟨-, hjt, hsame⟩ := h.used_left hj
    obtain ⟨-, hkt, hsame'⟩ := h.used_left hk
    rw [hsame.name_eq, hsame'.name_eq] at hjk
    exact ht.names j k hjt hkt hjk
  · intro j hj
    obtain ⟨-, hjt, hsame⟩ := h.used_left hj
    rw [hsame.name_eq]
    exact ht.relative j hjt

/-! ### Free entries -/

/-- The entries that are not in use are not marked as directories. -/
def Clean (t : List UInt8) : Prop :=
  ∀ i, i < numEntries t → entryInUse t i = false → entryIsDirectory t i = false

theorem AddsEntry.clean {sector : Nat} (h : AddsEntry t t' i name sector) (ht : Clean t) : Clean t' := by
  intro j hj huse
  have hji : j ≠ i := by
    rintro rfl
    rw [h.used.inUse] at huse
    cases huse
  obtain ⟨hjt, hsame⟩ := h.others j hji hj
  rw [hsame.inUse_eq] at huse
  rw [hsame.isDirectory_eq]
  exact ht j hjt huse

theorem RemovesEntry.clean (h : RemovesEntry t t' i name) (hlen : t.length = numEntries t * dirEntrySize)
    (ht : Clean t) : Clean t' := by
  intro j hj huse
  rw [h.eq_clearEntry] at hj huse ⊢
  rw [numEntries_clearEntry] at hj
  by_cases hji : j = i
  · rw [hji]
    refine clearEntry_isDirectory ?_
    rw [hlen]
    exact Nat.mul_le_mul_right _ h.used.lt
  · have hsame : SameEntry (clearEntry t i) t j := clearEntry_sameEntry (Ne.symm hji)
    rw [hsame.inUse_eq] at huse
    rw [hsame.isDirectory_eq]
    exact ht j hj huse

end Table

/-! ## The tree -/

section Tree

variable {d d' : Disk} {own own' : Nat → Option Nat} {R R' : Nat → Prop} {s t u : Nat} {c c' : List Nat}

/-- Other sectors to start from, as long as they are directories. -/
theorem IsDirectory.reroot (hR : ∀ s, R' s → IsDirectory d R s) (h : IsDirectory d R' s) :
    IsDirectory d R s := by
  induction h with
  | root hs => exact hR _ hs
  | entry _ hc hi hdir ih => exact IsDirectory.entry ih hc hi hdir

theorem Tree.reroot (h : Tree d own R) (hR : ∀ s, R' s → IsDirectory d R s) : Tree d own R' where
  directory s hs := h.directory s (hs.reroot hR)
  sole hs hs' := h.sole (hs.reroot hR) (hs'.reroot hR)

/-- The chain of a directory is that of its file. -/
theorem Tree.directoryOk (h : Tree d own R) (hs : IsDirectory d R s) (hc : HeaderChain d s c) :
    DirectoryOk d own s c := by
  obtain ⟨c', hc'⟩ := h.directory s hs
  rw [hc.unique hc'.file.chain]
  exact hc'

/-- The rule for a change of the tree: `P` are the directories after it, and every entry was there
before but for one, which is for a new file. -/
theorem Tree.of_origin {P F : Nat → Prop} {i : Nat} (h : Tree d own R) (hR : ∀ s, R s → P s)
    (hP : ∀ s, P s → ∃ c, DirectoryOk d' own' s c)
    (hclosed : ∀ s c i, P s → HeaderChain d' s c → Used (content d' c) i →
      entryIsDirectory (content d' c) i = true → P (entrySector (content d' c) i))
    (horigin : ∀ s1 c1 j, P s1 → HeaderChain d' s1 c1 → Used (content d' c1) j →
      (∃ c0, IsDirectory d R s1 ∧ HeaderChain d s1 c0 ∧ Used (content d c0) j ∧
        entrySector (content d' c1) j = entrySector (content d c0) j ∧
        ¬ F (entrySector (content d' c1) j)) ∨
      s1 = s ∧ j = i ∧ F (entrySector (content d' c1) j)) :
    Tree d' own' R ∧ ∀ s, IsDirectory d' R s → P s := by
  have hdirs : ∀ s, IsDirectory d' R s → P s := by
    intro s hs
    induction hs with
    | root hs => exact hR _ hs
    | entry _ hc hi hdir ih => exact hclosed _ _ _ ih hc hi hdir
  refine ⟨⟨fun s hs => hP s (hdirs s hs), ?_⟩, hdirs⟩
  intro s1 s2 c1 c2 j k hs1 hs2 hc1 hc2 hj hk heq
  rcases horigin s1 c1 j (hdirs s1 hs1) hc1 hj with ⟨b1, hb1, hbc1, hu1, he1, hn1⟩ | ⟨rfl, rfl, hf1⟩
  · rcases horigin s2 c2 k (hdirs s2 hs2) hc2 hk with ⟨b2, hb2, hbc2, hu2, he2, hn2⟩ | ⟨rfl, rfl, hf2⟩
    · exact h.sole hb1 hb2 hbc1 hbc2 hu1 hu2 (by rw [← he1, ← he2, heq])
    · rw [heq] at hn1
      exact absurd hf2 hn1
  · rcases horigin s2 c2 k (hdirs s2 hs2) hc2 hk with ⟨b2, hb2, hbc2, hu2, he2, hn2⟩ | ⟨rfl, rfl, hf2⟩
    · rw [heq] at hf1
      exact absurd hf1 hn2
    · exact ⟨rfl, rfl⟩

/-- A directory that is not among the changed files. -/
theorem Tree.unchanged {l : List Nat} (h : Tree d own R) (hlayout : Layout d own)
    (hf : OnlyFiles l d own d' own') (hs : IsDirectory d R s) (hl : s ∉ l) :
    ∃ c, DirectoryOk d own s c ∧ FileOk d' own' s c ∧ Full d' c ∧ content d' c = content d c := by
  obtain ⟨c, hc⟩ := h.directory s hs
  obtain ⟨hfile, hcontent⟩ := hf.file hlayout hc.start_ne hl hc.file
  exact ⟨c, hc, hfile, hf.full hlayout hc.start_ne hl hc.file hc.full, hcontent⟩

/-- A file that is no directory has changed. -/
theorem Tree.other (h : Tree d own R) (hlayout : Layout d own) (hf : OnlyFiles [u] d own d' own')
    (hu : ¬ IsDirectory d R u) (hu' : own' u = some u) :
    Tree d' own' R ∧ ∀ s, IsDirectory d' R s → IsDirectory d R s := by
  have hown : ∀ x, own x = some x → own' x = some x := by
    intro x hx
    by_cases hxu : x = u
    · rw [hxu]
      exact hu'
    · exact (hf.own_iff x x (by simpa using hxu)).mpr hx
  have hsu : ∀ s, IsDirectory d R s → s ∉ [u] := by
    intro s hs hmem
    rw [List.mem_singleton.mp hmem] at hs
    exact hu hs
  refine h.of_origin (P := IsDirectory d R) (F := fun _ => False) (s := 0) (i := 0)
    (fun s hs => IsDirectory.root hs) ?_ ?_ ?_
  · intro s hs
    obtain ⟨c, hok, hfile, hfull, hcontent⟩ := h.unchanged hlayout hf hs (hsu s hs)
    refine ⟨c, hok.start_ne, hfile, hfull, ?_⟩
    rw [hcontent]
    exact hok.table.congr fun i hi => hown _ (hok.table.entries i hi).1
  · intro s c i hs hc hi hdir
    obtain ⟨c0, hok, hfile, -, hcontent⟩ := h.unchanged hlayout hf hs (hsu s hs)
    obtain rfl := hc.unique hfile.chain
    rw [hcontent] at hi hdir ⊢
    exact IsDirectory.entry hs hok.file.chain hi hdir
  · intro s c j hs hc hj
    obtain ⟨c0, hok, hfile, -, hcontent⟩ := h.unchanged hlayout hf hs (hsu s hs)
    obtain rfl := hc.unique hfile.chain
    rw [hcontent] at hj ⊢
    exact Or.inl ⟨c, hs, hok.file.chain, hj, rfl, not_false⟩

/-- The directory `s` gets an entry for the new file `t`, whose table, if it is taken for a directory,
has no entry in use. -/
theorem Tree.add {i n : Nat} {name : Name} {ct : List Nat} (h : Tree d own R) (hlayout : Layout d own)
    (hf : OnlyFiles [s, t] d own d' own') (hs : IsDirectory d R s) (hc : HeaderChain d s c)
    (hnew : ∀ x, own x ≠ some t) (hne : t ≠ 0 ∧ t ≠ directorySector)
    (hfile' : FileOk d' own' s c') (hfull' : Full d' c') (hfilet : FileOk d' own' t ct)
    (hfullt : Full d' ct) (hlent : (content d' ct).length = n * dirEntrySize) (hn : n ≤ numSectors)
    (hunused : ∀ i, ¬ Used (content d' ct) i)
    (hadd : AddsEntry (content d c) (content d' c') i name t)
    (hlen : (content d' c').length = numEntries (content d' c') * dirEntrySize)
    (hsize : numEntries (content d' c') ≤ numSectors) (hname : name.head? ≠ some slash)
    (hfresh : ∀ j, Used (content d c) j → nameKey (entryName (content d c) j) ≠ nameKey name) :
    Tree d' own' R ∧ ∀ s', IsDirectory d' R s' →
      IsDirectory d R s' ∨ s' = t ∧ entryIsDirectory (content d' c') i = true := by
  have hok := h.directoryOk hs hc
  have hst : s ≠ t := by
    rintro rfl
    exact hnew s hok.file.own_start
  have hown : ∀ x, own x = some x → own' x = some x := by
    intro x hx
    by_cases hxs : x = s
    · rw [hxs]
      exact hfile'.own_start
    · by_cases hxt : x = t
      · rw [hxt]
        exact hfilet.own_start
      · exact (hf.own_iff x x (by simp [hxs, hxt])).mpr hx
  -- a directory of before, as it is now
  have hcases : ∀ s1, IsDirectory d R s1 → s1 = s ∨ s1 ∉ [s, t] := by
    intro s1 hs1
    obtain ⟨c1, hc1⟩ := h.directory s1 hs1
    by_cases hs1s : s1 = s
    · exact Or.inl hs1s
    · refine Or.inr ?_
      have hs1t : s1 ≠ t := by
        rintro rfl
        exact hnew s1 hc1.file.own_start
      simp [hs1s, hs1t]
  have hentry : ∀ s1 c1 j, (IsDirectory d R s1 ∨ s1 = t ∧ entryIsDirectory (content d' c') i = true) →
      HeaderChain d' s1 c1 → Used (content d' c1) j →
      (∃ c0, IsDirectory d R s1 ∧ HeaderChain d s1 c0 ∧ Used (content d c0) j ∧
        SameEntry (content d' c1) (content d c0) j) ∨
      s1 = s ∧ j = i ∧ c1 = c' ∧ entrySector (content d' c1) j = t := by
    intro s1 c1 j hs1 hc1 hj
    rcases hs1 with hs1 | ⟨rfl, -⟩
    · rcases hcases s1 hs1 with rfl | hl
      · obtain rfl := hc1.unique hfile'.chain
        by_cases hji : j = i
        · rw [hji]
          exact Or.inr ⟨rfl, rfl, rfl, hadd.sector_eq⟩
        · obtain ⟨hjt, hsame⟩ := hadd.used_of_ne hj hji
          exact Or.inl ⟨c, hs1, hc, hjt, hsame⟩
      · obtain ⟨c0, hok0, hfile0, -, hcontent⟩ := h.unchanged hlayout hf hs1 hl
        obtain rfl := hc1.unique hfile0.chain
        rw [hcontent] at hj ⊢
        exact Or.inl ⟨c1, hs1, hok0.file.chain, hj, fun _ _ => rfl⟩
    · obtain rfl := hc1.unique hfilet.chain
      exact absurd hj (hunused j)
  refine h.of_origin (P := fun s' => IsDirectory d R s' ∨ s' = t ∧ entryIsDirectory (content d' c') i = true)
    (F := fun x => x = t) (s := s) (i := i) (fun s hs => Or.inl (IsDirectory.root hs)) ?_ ?_ ?_
  · rintro s1 (hs1 | ⟨rfl, -⟩)
    · rcases hcases s1 hs1 with rfl | hl
      · refine ⟨c', hok.start_ne, hfile', hfull', ?_⟩
        exact hadd.tableOk hok.table hlen hsize hown hfilet.own_start hne hname hfresh
      · obtain ⟨c0, hok0, hfile0, hfull0, hcontent⟩ := h.unchanged hlayout hf hs1 hl
        refine ⟨c0, hok0.start_ne, hfile0, hfull0, ?_⟩
        rw [hcontent]
        exact hok0.table.congr fun j hj => hown _ (hok0.table.entries j hj).1
    · exact ⟨ct, hne.1, hfilet, hfullt, TableOk.unused hlent hn hunused⟩
  · intro s1 c1 j hs1 hc1 hj hdir
    rcases hentry s1 c1 j hs1 hc1 hj with ⟨c0, hs0, hc0, hj0, hsame⟩ | ⟨-, hji, hc1', hsector⟩
    · rw [hsame.sector_eq]
      rw [hsame.isDirectory_eq] at hdir
      exact Or.inl (IsDirectory.entry hs0 hc0 hj0 hdir)
    · rw [hji, hc1'] at hdir
      exact Or.inr ⟨hsector, hdir⟩
  · intro s1 c1 j hs1 hc1 hj
    rcases hentry s1 c1 j hs1 hc1 hj with ⟨c0, hs0, hc0, hj0, hsame⟩ | ⟨hs1', hji, -, hsector⟩
    · refine Or.inl ⟨c0, hs0, hc0, hj0, hsame.sector_eq, ?_⟩
      rw [hsame.sector_eq]
      intro hsector
      have hown0 := ((h.directoryOk hs0 hc0).table.entries j hj0).1
      rw [hsector] at hown0
      exact hnew t hown0
    · exact Or.inr ⟨hs1', hji, hsector⟩

/-- The directory `s` loses the entry of the file `t`, which goes. -/
theorem Tree.remove {i : Nat} {name : Name} (h : Tree d own R) (hlayout : Layout d own)
    (hf : OnlyFiles [s, t] d own d' own') (hs : IsDirectory d R s) (hc : HeaderChain d s c) (hst : s ≠ t)
    (hR : ¬ R t) (hfile' : FileOk d' own' s c') (hfull' : Full d' c')
    (hremove : RemovesEntry (content d c) (content d' c') i name)
    (ht : entrySector (content d c) i = t) :
    Tree d' own' R ∧ ∀ s', IsDirectory d' R s' → IsDirectory d R s' ∧ s' ≠ t := by
  have hok := h.directoryOk hs hc
  have hown : ∀ x, own x = some x → x ≠ t → own' x = some x := by
    intro x hx hxt
    by_cases hxs : x = s
    · rw [hxs]
      exact hfile'.own_start
    · exact (hf.own_iff x x (by simp [hxs, hxt])).mpr hx
  have hcases : ∀ s1, s1 ≠ t → s1 = s ∨ s1 ∉ [s, t] := by
    intro s1 hs1t
    by_cases hs1s : s1 = s
    · exact Or.inl hs1s
    · exact Or.inr (by simp [hs1s, hs1t])
  -- the file `t` had no other entry
  have hsole : ∀ s1 c1 j, IsDirectory d R s1 → HeaderChain d s1 c1 → Used (content d c1) j →
      (s1 ≠ s ∨ j ≠ i) → entrySector (content d c1) j ≠ t := by
    intro s1 c1 j hs1 hc1 hj hne heq
    obtain ⟨rfl, rfl⟩ := h.sole hs1 hs hc1 hc hj hremove.used (heq.trans ht.symm)
    rcases hne with hne | hne
    · exact hne rfl
    · exact hne rfl
  have hentry : ∀ s1 c1 j, IsDirectory d R s1 → s1 ≠ t → HeaderChain d' s1 c1 →
      Used (content d' c1) j →
      ∃ c0, HeaderChain d s1 c0 ∧ Used (content d c0) j ∧ SameEntry (content d' c1) (content d c0) j ∧
        entrySector (content d c0) j ≠ t := by
    intro s1 c1 j hs1 hs1t hc1 hj
    rcases hcases s1 hs1t with rfl | hl
    · obtain rfl := hc1.unique hfile'.chain
      obtain ⟨hji, hjt, hsame⟩ := hremove.used_left hj
      exact ⟨c, hc, hjt, hsame, hsole s1 c j hs1 hc hjt (Or.inr hji)⟩
    · obtain ⟨c0, hok0, hfile0, -, hcontent⟩ := h.unchanged hlayout hf hs1 hl
      obtain rfl := hc1.unique hfile0.chain
      rw [hcontent] at hj ⊢
      refine ⟨c1, hok0.file.chain, hj, fun _ _ => rfl, hsole s1 c1 j hs1 hok0.file.chain hj (Or.inl ?_)⟩
      rintro rfl
      exact hl List.mem_cons_self
  refine h.of_origin (P := fun s' => IsDirectory d R s' ∧ s' ≠ t) (F := fun _ => False) (s := 0)
    (i := 0) ?_ ?_ ?_ ?_
  · intro s1 hs1
    refine ⟨IsDirectory.root hs1, ?_⟩
    rintro rfl
    exact hR hs1
  · rintro s1 ⟨hs1, hs1t⟩
    rcases hcases s1 hs1t with rfl | hl
    · refine ⟨c', hok.start_ne, hfile', hfull', hremove.tableOk hok.table ?_⟩
      intro j hj hji
      exact hown _ (hok.table.entries j hj).1 (hsole s1 c j hs1 hc hj (Or.inr hji))
    · obtain ⟨c0, hok0, hfile0, hfull0, hcontent⟩ := h.unchanged hlayout hf hs1 hl
      refine ⟨c0, hok0.start_ne, hfile0, hfull0, ?_⟩
      rw [hcontent]
      refine hok0.table.congr fun j hj => hown _ (hok0.table.entries j hj).1 ?_
      refine hsole s1 c0 j hs1 hok0.file.chain hj (Or.inl ?_)
      rintro rfl
      exact hl List.mem_cons_self
  · rintro s1 c1 j ⟨hs1, hs1t⟩ hc1 hj hdir
    obtain ⟨c0, hc0, hj0, hsame, hsector⟩ := hentry s1 c1 j hs1 hs1t hc1 hj
    rw [hsame.sector_eq]
    rw [hsame.isDirectory_eq] at hdir
    exact ⟨IsDirectory.entry hs1 hc0 hj0 hdir, hsector⟩
  · rintro s1 c1 j ⟨hs1, hs1t⟩ hc1 hj
    obtain ⟨c0, hc0, hj0, hsame, -⟩ := hentry s1 c1 j hs1 hs1t hc1 hj
    exact Or.inl ⟨c0, hs1, hc0, hj0, hsame.sector_eq, not_false⟩

end Tree

end Nachos.Filesys
