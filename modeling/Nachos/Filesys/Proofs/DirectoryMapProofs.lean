import Nachos.Filesys.DirectoryMap
import Nachos.Filesys.Proofs.TreeProofs

/-!
# Proofs: a directory as a finite map

The table represents the map: its entries in use are the names of the map with their files, and an entry
that is not in use is not marked as a directory, so that `Add` of a file may leave the mark alone.
-/

namespace Nachos.Filesys

open Foundations Resumption

/-! ## Representation -/

/-- The table of the directory represents the map. -/
structure Represents (d : Directory) (m : NameMap) : Prop where
  used : ∀ i, i < d.tableSize → entryInUse d.table i = true → m (nameKey (entryName d.table i)) =
    some (BitVec.ofNat 32 (entrySector d.table i), entryIsDirectory d.table i)
  complete : ∀ key, (m key).isSome →
    ∃ i, i < d.tableSize ∧ entryInUse d.table i = true ∧ nameKey (entryName d.table i) = key
  names : ∀ i j, i < d.tableSize → j < d.tableSize → entryInUse d.table i = true →
    entryInUse d.table j = true → nameKey (entryName d.table i) = nameKey (entryName d.table j) → i = j
  clear : ∀ i, i < d.tableSize → entryInUse d.table i = false → entryIsDirectory d.table i = false

section Represents

variable {d d' : Directory} {m : NameMap} {name : Name} {i : Nat} {w w' : World}

theorem entryHasName_iff {t : List UInt8} :
    entryHasName t i name = true ↔ nameKey (entryName t i) = nameKey name := by
  rw [entryHasName, beq_iff_eq]

theorem Represents.findIndex_none (h : Represents d m) (hnone : d.findIndex name = none) :
    m (nameKey name) = none := by
  refine Option.not_isSome_iff_eq_none.mp fun hsome => ?_
  obtain ⟨i, hi, huse, hkey⟩ := h.complete _ hsome
  exact Directory.findIndex_none hnone hi ⟨huse, entryHasName_iff.mpr hkey⟩

theorem Represents.findIndex_some (h : Represents d m) (hsome : d.findIndex name = some i) :
    m (nameKey name) = some (BitVec.ofNat 32 (entrySector d.table i), entryIsDirectory d.table i) := by
  obtain ⟨hi, huse, hname⟩ := Directory.findIndex_some hsome
  rw [← entryHasName_iff.mp hname]
  exact h.used i hi huse

theorem toInt_entrySector (t : List UInt8) (i : Nat) :
    Directory.toInt (entrySector t i) = (BitVec.ofNat 32 (entrySector t i)).toInt := by
  have hlt : entrySector t i < 2 ^ 32 := ofLe32_lt _ _ _ _
  rw [BitVec.toInt_eq_toNat_cond, BitVec.toNat_ofNat, Nat.mod_eq_of_lt hlt, Directory.toInt]
  split_ifs <;> omega

theorem Represents.find_eq (h : Represents d m) (name : Name) :
    d.find name = ((m (nameKey name)).map fun v => v.1.toInt).getD (-1) := by
  rw [Directory.find]
  cases hindex : d.findIndex name with
  | none => rw [h.findIndex_none hindex]; rfl
  | some i =>
    rw [h.findIndex_some hindex]
    exact toInt_entrySector d.table i

/-- `FindDir` looks at all entries of the name, of which there is one. -/
theorem Represents.findDir_eq (h : Represents d m) (name : Name) :
    d.findDir name = ((m (nameKey name)).map Prod.snd).getD false := by
  have hiff : d.findDir name = true ↔ ∃ i, i < d.tableSize ∧ entryInUse d.table i = true ∧
      nameKey (entryName d.table i) = nameKey name ∧ entryIsDirectory d.table i = true := by
    rw [Directory.findDir, List.any_eq_true]
    simp only [List.mem_range, Bool.and_eq_true, entryHasName_iff]
  cases hm : m (nameKey name) with
  | none =>
    rw [Option.map_none, Option.getD_none, Bool.eq_false_iff]
    intro htrue
    obtain ⟨i, hi, huse, hkey, -⟩ := hiff.mp htrue
    have := h.used i hi huse
    rw [hkey, hm] at this
    cases this
  | some v =>
    rw [Option.map_some, Option.getD_some, Bool.eq_iff_iff, hiff]
    obtain ⟨i, hi, huse, hkey⟩ := h.complete (nameKey name) (by rw [hm]; rfl)
    have hv := h.used i hi huse
    rw [hkey, hm] at hv
    obtain rfl := Option.some.inj hv
    constructor
    · rintro ⟨j, hj, husej, hkeyj, hdir⟩
      rw [h.names j i hj hi husej huse (hkeyj.trans hkey.symm)] at hdir
      exact hdir
    · exact fun hdir => ⟨i, hi, huse, hkey, hdir⟩

theorem Represents.isMap (h : Represents d m) : IsMap d m := by
  refine ⟨h.names, ?_, h.find_eq, h.findDir_eq⟩
  intro name newSector isDirectory w
  rw [Directory.add]
  cases hindex : d.findIndex name with
  | some i =>
    rw [h.findIndex_some hindex]
    exact ⟨_, _, rfl, rfl⟩
  | none =>
    rw [h.findIndex_none hindex]
    cases hfree : d.freeIndex with
    | some i => exact ⟨_, _, rfl, rfl⟩
    | none => exact ⟨_, _, rfl, rfl⟩

/-! ## Calls -/

/-- A table with an entry for a new name, in a place that was not in use. -/
theorem Represents.fill {newSector : BitVec 32} {isDirectory : Bool} (h : Represents d m)
    (hnone : d.findIndex name = none) (hi : i < d'.tableSize)
    (hfree : i < d.tableSize → entryInUse d.table i = false)
    (hflag : isDirectory = false → entryIsDirectory d'.table i = false)
    (hold : ∀ j, j < d.tableSize → j < d'.tableSize)
    (hsame : ∀ j, j < d'.tableSize → j ≠ i → j < d.tableSize ∧ SameEntry d'.table d.table j) :
    Represents (d'.set i name newSector.toNat isDirectory)
      (Function.update m (nameKey name) (some (newSector, isDirectory))) := by
  have hle := d'.entry_le hi
  have hnew : nameKey (entryName (d'.set i name newSector.toNat isDirectory).table i) = nameKey name :=
    entryHasName_iff.mp (setEntry_hasName hle)
  have hother : ∀ j, j < d'.tableSize → j ≠ i → j < d.tableSize ∧
      SameEntry (d'.set i name newSector.toNat isDirectory).table d.table j := by
    intro j hj hji
    obtain ⟨hlt, hs⟩ := hsame j hj hji
    exact ⟨hlt, (setEntry_sameEntry (Ne.symm hji)).trans hs⟩
  -- no entry that was there has the new name
  have hkey : ∀ j, j < d.tableSize → entryInUse d.table j = true →
      nameKey (entryName d.table j) ≠ nameKey name := by
    intro j hj huse heq
    exact Directory.findIndex_none hnone hj ⟨huse, entryHasName_iff.mpr heq⟩
  refine ⟨?_, ?_, ?_, ?_⟩
  · intro j hj huse
    by_cases hji : j = i
    · subst hji
      rw [hnew, Function.update_self]
      show _ = some (BitVec.ofNat 32 (entrySector (setEntry d'.table j name newSector.toNat isDirectory) j),
        entryIsDirectory (setEntry d'.table j name newSector.toNat isDirectory) j)
      rw [setEntry_sector hle newSector.isLt, setEntry_isDirectory hle, BitVec.ofNat_toNat, BitVec.setWidth_eq]
      cases isDirectory with
      | true => rfl
      | false => rw [hflag rfl]; rfl
    · obtain ⟨hlt, hs⟩ := hother j hj hji
      rw [hs.inUse_eq] at huse
      rw [hs.name_eq, hs.sector_eq, hs.isDirectory_eq, Function.update_of_ne (hkey j hlt huse)]
      exact h.used j hlt huse
  · intro key hsome
    by_cases hk : key = nameKey name
    · subst hk
      exact ⟨i, hi, setEntry_inUse hle, hnew⟩
    · rw [Function.update_of_ne hk] at hsome
      obtain ⟨j, hj, huse, hjk⟩ := h.complete key hsome
      have hji : j ≠ i := by
        rintro rfl
        rw [hfree hj] at huse
        cases huse
      obtain ⟨-, hs⟩ := hother j (hold j hj) hji
      exact ⟨j, hold j hj, by rw [hs.inUse_eq]; exact huse, by rw [hs.name_eq]; exact hjk⟩
  · intro j k hj hk husej husek heq
    by_cases hji : j = i
    · by_cases hki : k = i
      · rw [hji, hki]
      · obtain ⟨hlt, hs⟩ := hother k hk hki
        rw [hs.inUse_eq] at husek
        rw [hji, hnew, hs.name_eq] at heq
        exact absurd heq.symm (hkey k hlt husek)
    · obtain ⟨hlt, hs⟩ := hother j hj hji
      rw [hs.inUse_eq] at husej
      rw [hs.name_eq] at heq
      by_cases hki : k = i
      · rw [hki, hnew] at heq
        exact absurd heq (hkey j hlt husej)
      · obtain ⟨hlt', hs'⟩ := hother k hk hki
        rw [hs'.inUse_eq] at husek
        rw [hs'.name_eq] at heq
        exact h.names j k hlt hlt' husej husek heq
  · intro j hj huse
    by_cases hji : j = i
    · subst hji
      rw [show entryInUse (d'.set j name newSector.toNat isDirectory).table j = true from setEntry_inUse hle]
        at huse
      cases huse
    · obtain ⟨hlt, hs⟩ := hother j hj hji
      rw [hs.inUse_eq] at huse
      rw [hs.isDirectory_eq]
      exact h.clear j hlt huse

/-- What `Add` of a name that is not there does to the table. -/
theorem add_cases {newSector : Nat} {isDirectory added : Bool} (hnone : d.findIndex name = none)
    (hrun : (d.add name newSector isDirectory).run w = some ((added, d'), w')) :
    (∃ i, d.freeIndex = some i ∧ d' = d.set i name newSector isDirectory) ∨
      d.freeIndex = none ∧ d' = (d.grow (w.heap .slot 0)).set d.tableSize name newSector isDirectory := by
  rw [Directory.add, if_neg (by rw [hnone]; decide)] at hrun
  cases hfree : d.freeIndex with
  | some i =>
    rw [hfree] at hrun
    cases hrun
    exact Or.inl ⟨i, rfl, rfl⟩
  | none =>
    rw [hfree] at hrun
    cases hrun
    exact Or.inr ⟨rfl, rfl⟩

theorem Represents.add {newSector : BitVec 32} {isDirectory added : Bool} (h : Represents d m)
    (hclear : MemoryClear ⟨d, w⟩ (.add name newSector isDirectory))
    (hrun : (d.add name newSector.toNat isDirectory).run w = some ((added, d'), w')) :
    Represents d' (m.call (.add name newSector isDirectory)) := by
  cases hindex : d.findIndex name with
  | some i =>
    rw [Directory.add, if_pos (by rw [hindex]; rfl)] at hrun
    cases hrun
    rw [NameMap.call, if_pos (by rw [h.findIndex_some hindex]; rfl)]
    exact h
  | none =>
    rw [NameMap.call, if_neg (by rw [h.findIndex_none hindex]; decide)]
    rcases add_cases hindex hrun with ⟨i, hfree, rfl⟩ | ⟨hfull, rfl⟩
    · obtain ⟨hi, huse⟩ := Directory.freeIndex_some hfree
      exact h.fill hindex hi (fun _ => huse) (fun _ => h.clear i hi huse) (fun _ hj => hj)
        fun j hj _ => ⟨hj, fun _ _ => rfl⟩
    · refine h.fill hindex (Nat.lt_succ_self _) (fun hlt => absurd hlt (Nat.lt_irrefl _)) ?_
        (fun j hj => Nat.lt_succ_of_lt hj) fun j hj hne => ?_
      · rintro rfl
        exact grow_isDirectory d _ (hclear hindex hfull)
      · have hlt : j < d.tableSize := Nat.lt_of_le_of_ne (Nat.le_of_lt_succ hj) hne
        exact ⟨hlt, sameEntry_append (d.entry_le hlt) _⟩

theorem Represents.remove (h : Represents d m) (name : Name) :
    Represents (d.remove name) (m.call (.remove name)) := by
  rw [NameMap.call, Directory.remove]
  cases hindex : d.findIndex name with
  | none =>
    have hupdate : Function.update m (nameKey name) none = m := by
      rw [← h.findIndex_none hindex, Function.update_eq_self]
    rw [hupdate]
    exact h
  | some i =>
    obtain ⟨hi, huse, hname⟩ := Directory.findIndex_some hindex
    have hkey := entryHasName_iff.mp hname
    have hsame : ∀ j, j ≠ i → SameEntry (clearEntry d.table i) d.table j :=
      fun j hj => clearEntry_sameEntry (Ne.symm hj)
    have hother : ∀ j, entryInUse (clearEntry d.table i) j = true → j ≠ i := by
      rintro j hj rfl
      rw [clearEntry_inUse] at hj
      cases hj
    refine ⟨?_, ?_, ?_, ?_⟩
    · intro j hj husej
      have hji := hother j husej
      have hs := hsame j hji
      show Function.update m (nameKey name) none (nameKey (entryName (clearEntry d.table i) j)) = some
        (BitVec.ofNat 32 (entrySector (clearEntry d.table i) j), entryIsDirectory (clearEntry d.table i) j)
      rw [hs.inUse_eq] at husej
      rw [hs.name_eq, hs.sector_eq, hs.isDirectory_eq, Function.update_of_ne]
      · exact h.used j hj husej
      · exact fun heq => hji (h.names j i hj hi husej huse (heq.trans hkey.symm))
    · intro key hsome
      by_cases hk : key = nameKey name
      · rw [hk, Function.update_self] at hsome
        cases hsome
      · rw [Function.update_of_ne hk] at hsome
        obtain ⟨j, hj, husej, hjk⟩ := h.complete key hsome
        have hji : j ≠ i := by
          rintro rfl
          exact hk (hjk.symm.trans hkey)
        have hs := hsame j hji
        exact ⟨j, hj, hs.inUse_eq.trans husej, (congrArg nameKey hs.name_eq).trans hjk⟩
    · intro j k hj hk husej husek heq
      have hsj := hsame j (hother j husej)
      have hsk := hsame k (hother k husek)
      rw [hsj.inUse_eq] at husej
      rw [hsk.inUse_eq] at husek
      rw [hsj.name_eq, hsk.name_eq] at heq
      exact h.names j k hj hk husej husek heq
    · intro j hj husej
      by_cases hji : j = i
      · rw [hji]
        exact clearEntry_isDirectory (d.entry_le hi)
      · have hs := hsame j hji
        rw [hs.inUse_eq] at husej
        rw [hs.isDirectory_eq]
        exact h.clear j hj husej

/-- A new directory has no entry, whatever the memory held. -/
theorem represents_new {size : Nat} (hrun : (Directory.new size).run w = some (d, w')) :
    Represents d fun _ => none := by
  obtain ⟨_, w1, hassert, hrun⟩ := run_bind_eq_some.mp hrun
  obtain ⟨-, hw1⟩ := run_assert_eq_some hassert
  rw [hw1] at hrun
  obtain ⟨heap, w2, -, hrun⟩ := run_bind_eq_some.mp hrun
  cases hrun
  have hbyte : ∀ i k, i < size → k = 0 ∨ k = 24 → ((List.range (size * dirEntrySize)).map fun j =>
      if j % dirEntrySize = 0 ∨ j % dirEntrySize = 24 then 0 else heap j).getD (i * dirEntrySize + k) 0 = 0 := by
    intro i k hi hk
    have hsz : dirEntrySize = 28 := rfl
    have hle : (i + 1) * dirEntrySize ≤ size * dirEntrySize := Nat.mul_le_mul_right _ hi
    rw [Nat.succ_mul] at hle
    have hlt : i * dirEntrySize + k < size * dirEntrySize := by omega
    rw [List.getD_eq_getElem?_getD, List.getElem?_map, List.getElem?_range hlt, Option.map_some,
      Option.getD_some, if_pos]
    rw [Nat.mul_add_mod', hsz]
    omega
  have huse : ∀ i, i < size → entryInUse ((List.range (size * dirEntrySize)).map fun j =>
      if j % dirEntrySize = 0 ∨ j % dirEntrySize = 24 then 0 else heap j) i = false := by
    intro i hi
    rw [entryInUse, ← Nat.add_zero (i * dirEntrySize), hbyte i 0 hi (Or.inl rfl)]
    rfl
  refine ⟨?_, ?_, ?_, ?_⟩
  · intro i hi htrue
    rw [huse i hi] at htrue
    cases htrue
  · exact fun _ hsome => absurd hsome (by decide)
  · intro i j hi _ htrue
    rw [huse i hi] at htrue
    cases htrue
  · intro i hi _
    show (_ != _) = false
    rw [hbyte i 24 hi (Or.inr rfl)]
    rfl

end Represents

/-! ## Runs -/

section Runs

variable {s s' : DirState} {call : DirCall} {m : NameMap}

/-- `Add` and `Remove` return. -/
theorem DirState.step_isSome (s : DirState) (call : DirCall) : ∃ s', s.step call = some s' := by
  cases call with
  | remove name => exact ⟨_, rfl⟩
  | add name newSector isDirectory =>
    simp only [DirState.step, Directory.add]
    split_ifs
    · exact ⟨_, rfl⟩
    · cases s.dir.freeIndex with
      | some i => exact ⟨_, rfl⟩
      | none => exact ⟨_, rfl⟩

theorem represents_step (h : Represents s.dir m) (hclear : MemoryClear s call)
    (hstep : s.step call = some s') : Represents s'.dir (m.call call) := by
  cases call with
  | remove name =>
    cases hstep
    exact h.remove name
  | add name newSector isDirectory =>
    obtain ⟨⟨⟨added, dir⟩, w⟩, hrun, hret⟩ := Option.bind_eq_some_iff.mp hstep
    cases hret
    exact h.add hclear hrun

/-- Neither call touches the entries of other names. -/
theorem keepsOthers_step (hstep : s.step call = some s') : KeepsOthers s.dir call s'.dir := by
  intro i hi huse hname
  cases call with
  | remove name =>
    cases hstep
    simp only [Directory.remove]
    cases hindex : s.dir.findIndex name with
    | none => exact ⟨hi, fun _ _ => rfl⟩
    | some j =>
      have hji : j ≠ i := by
        rintro rfl
        exact Bool.eq_false_iff.mp hname (Directory.findIndex_some hindex).2.2
      exact ⟨hi, clearEntry_sameEntry hji⟩
  | add name newSector isDirectory =>
    obtain ⟨⟨⟨added, dir⟩, w⟩, hrun, hret⟩ := Option.bind_eq_some_iff.mp hstep
    cases hret
    cases hindex : s.dir.findIndex name with
    | some j =>
      rw [Directory.add, if_pos (by rw [hindex]; rfl)] at hrun
      cases hrun
      exact ⟨hi, fun _ _ => rfl⟩
    | none =>
      rcases add_cases hindex hrun with ⟨j, hfree, rfl⟩ | ⟨-, rfl⟩
      · have hji : j ≠ i := by
          rintro rfl
          rw [(Directory.freeIndex_some hfree).2] at huse
          cases huse
        exact ⟨hi, setEntry_sameEntry hji⟩
      · exact ⟨Nat.lt_succ_of_lt hi, (setEntry_sameEntry (Nat.ne_of_gt hi)).trans
          (sameEntry_append (s.dir.entry_le hi) _)⟩

/-- After a run whose calls find clear memory the table represents the map of the calls. -/
theorem represents_runs (calls : List DirCall) : ∀ {s : DirState} {m : NameMap}, Represents s.dir m →
    AllSteps DirState.step MemoryClear s calls →
    ∃ s', runs DirState.step s calls = some s' ∧ Represents s'.dir (calls.foldl NameMap.call m) := by
  induction calls with
  | nil => exact fun h _ => ⟨_, rfl, h⟩
  | cons call calls ih =>
    intro s m h hclear
    obtain ⟨s1, hstep⟩ := s.step_isSome call
    obtain ⟨s', hruns, h'⟩ := ih (represents_step h hclear.1 hstep) (hclear.2 s1 hstep)
    exact ⟨s', runs_cons_eq_some.mpr ⟨s1, hstep, hruns⟩, h'⟩

/-- A directory is the finite map of the calls on it, and each call leaves the entries of other names
alone. -/
theorem directory_isMap {size : Nat} {w w0 : World} {d : Directory} {calls : List DirCall}
    (hnew : (Directory.new size).run w = some (d, w0))
    (hclear : AllSteps DirState.step MemoryClear ⟨d, w0⟩ calls) :
    ∃ s, runs DirState.step ⟨d, w0⟩ calls = some s ∧ IsMap s.dir (NameMap.after calls) ∧
      ∀ call s', s.step call = some s' → KeepsOthers s.dir call s'.dir := by
  obtain ⟨s, hruns, h⟩ := represents_runs calls (s := ⟨d, w0⟩) (represents_new hnew) hclear
  exact ⟨s, hruns, h.isMap, fun _ _ hstep => keepsOthers_step hstep⟩

/-- A system in which all new memory holds the byte `b`. -/
def filledWith (b : UInt8) : World := World.initial (fun _ => Sector.ofBytes []) fun _ _ _ => b

/-- The directory of one entry that is made there. -/
def oneEntry (b : UInt8) : DirState where
  dir :=
    { tableSize := 1
      table := (List.range 28).map fun j => if j % 28 = 0 ∨ j % 28 = 24 then 0 else b
      length_table := by simp [dirEntrySize] }
  world :=
    { filledWith b with
      heap := Function.update (filledWith b).heap .table fun n => (filledWith b).heap .table (n + 1) }

/-- Two files; the table grows for the second one. -/
def twoFiles : List DirCall := [.add [97] 5 false, .add [98] 6 false]

theorem directory_isMap_twoFiles : ∃ s, runs DirState.step (oneEntry 0) twoFiles = some s ∧
    IsMap s.dir (NameMap.after twoFiles) ∧
      ∀ call s', s.step call = some s' → KeepsOthers s.dir call s'.dir :=
  directory_isMap (show (Directory.new 1).run (filledWith 0) = some ((oneEntry 0).dir, (oneEntry 0).world) from rfl)
    ⟨fun _ _ => rfl, fun s' hs' => ⟨fun _ _ => by cases hs'; rfl, fun _ _ => True.intro⟩⟩

/-- In memory that is not zero the second file is found as a directory. -/
theorem not_isMap_twoFiles : ¬ ∀ (size : Nat) (w w0 : World) (d : Directory) (calls : List DirCall),
    (Directory.new size).run w = some (d, w0) →
    ∃ s, runs DirState.step ⟨d, w0⟩ calls = some s ∧ IsMap s.dir (NameMap.after calls) := by
  intro hall
  obtain ⟨s, hruns, hmap⟩ := hall 1 (filledWith 1) (oneEntry 1).world (oneEntry 1).dir twoFiles rfl
  have hfound : (runs DirState.step (oneEntry 1) twoFiles).map (fun s => s.dir.findDir [98]) =
      some true := by decide
  rw [show (⟨(oneEntry 1).dir, (oneEntry 1).world⟩ : DirState) = oneEntry 1 from rfl] at hruns
  rw [hruns] at hfound
  have hfile : NameMap.after twoFiles (nameKey [98]) = some (6, false) := by decide
  have hdir := hmap.findDir_eq [98]
  rw [hfile] at hdir
  exact absurd ((Option.some.inj hfound).symm.trans hdir) (by decide)

end Runs

end Nachos.Filesys
