import Nachos.Filesys.Check
import Nachos.Filesys.Proofs.OwnershipProofs

/-!
# Proofs: the integrity check

What `Check` accepts, exactly, on any disk; and that it does not accept every healthy disk.
-/

namespace Nachos.Filesys

open Foundations Resumption

/-! ## The shadow map -/

section Shadow

variable {A : List Nat} {C D : Prop} {e e' : Bool} {m m' : Bitmap} {s : Nat}

/-- The error and the shadow map after the sectors `A` were marked and the conditions `C` were checked. -/
structure Shadow (C : Prop) (A : List Nat) (e : Bool) (m : Bitmap) : Prop where
  error_iff : e = false ↔ C ∧ A.Nodup ∧ ∀ s ∈ A, s < numSectors
  marks : e = false → ∀ s < numSectors, (m.test s = true ↔ s ∈ A)
  numBits_eq : m.numBits = numSectors

theorem Shadow.congr (h : Shadow C A e m) (hC : C ↔ D) : Shadow D A e m :=
  ⟨by rw [← hC]; exact h.error_iff, h.marks, h.numBits_eq⟩

/-- A condition is checked. -/
theorem Shadow.condition [Decidable D] (h : Shadow C A e m) :
    Shadow (C ∧ D) A (e || checkForError (decide D)) m := by
  refine ⟨?_, fun herror => h.marks (Bool.or_eq_false_iff.mp herror).1, h.numBits_eq⟩
  rw [Bool.or_eq_false_iff, h.error_iff, checkForError, Bool.not_eq_false', decide_eq_true_iff]
  tauto

/-- A sector is marked. -/
theorem Shadow.sector (h : Shadow C A e m) (s : Nat) :
    Shadow C (A ++ [s]) (e || (checkSector s m).1) (checkSector s m).2 := by
  rw [checkSector]
  by_cases hs : s < numSectors
  · rw [if_neg (by simp [checkForError, hs]), addToShadowBitmap]
    by_cases htest : m.test s = true
    · -- it was marked before
      rw [if_pos htest]
      refine ⟨⟨fun herror => ?_, fun hgood => ?_⟩, fun herror => ?_, h.numBits_eq⟩
      · simp [checkForError] at herror
      · exfalso
        obtain ⟨hC, hnodup, hlt⟩ := hgood
        have hnot := (List.nodup_append.mp hnodup).2.2
        have hfalse := h.error_iff.mpr
          ⟨hC, (List.nodup_append.mp hnodup).1, fun x hx => hlt x (List.mem_append_left _ hx)⟩
        exact hnot s ((h.marks hfalse s hs).mp htest) s (List.mem_singleton.mpr rfl) rfl
      · simp [checkForError] at herror
    · rw [if_neg htest]
      have hmark : ∀ x, (m.mark s).test x = true ↔ m.test x = true ∨ x = s := by
        intro x
        rw [Bitmap.test_mark (by rw [h.numBits_eq]; exact hs), Bool.or_eq_true, decide_eq_true_iff]
        exact or_comm.trans (or_congr_right eq_comm)
      have herr : (e || checkForError (true, m.mark s).1) = e := by simp [checkForError]
      rw [herr]
      refine ⟨⟨fun herror => ?_, fun hgood => ?_⟩, fun herror x hx => ?_, h.numBits_eq⟩
      · obtain ⟨hC, hnodup, hlt⟩ := h.error_iff.mp herror
        have hnot : s ∉ A := fun hmem => htest ((h.marks herror s hs).mpr hmem)
        refine ⟨hC, ?_, fun x hx => ?_⟩
        · rw [List.nodup_append]
          refine ⟨hnodup, List.nodup_singleton s, fun x hx y hy => ?_⟩
          rw [List.mem_singleton.mp hy]
          rintro rfl
          exact hnot hx
        · rcases List.mem_append.mp hx with hx | hx
          · exact hlt x hx
          · rw [List.mem_singleton.mp hx]
            exact hs
      · obtain ⟨hC, hnodup, hlt⟩ := hgood
        exact h.error_iff.mpr ⟨hC, (List.nodup_append.mp hnodup).1, fun x hx => hlt x (List.mem_append_left _ hx)⟩
      · rw [hmark, h.marks herror x hx, List.mem_append, List.mem_singleton]
  · rw [if_pos (by simp [checkForError, hs])]
    refine ⟨⟨fun herror => ?_, fun hgood => ?_⟩, fun herror => ?_, h.numBits_eq⟩
    · simp at herror
    · exact absurd (hgood.2.2 s (List.mem_append_right _ (List.mem_singleton.mpr rfl))) hs
    · simp at herror

/-- The sectors of a header, by induction over them; `e` is what was found before the header. -/
theorem Shadow.sectors (l : List Nat) : ∀ {A : List Nat} {e' : Bool} {m : Bitmap}, Shadow C A (e || e') m →
    Shadow C (A ++ l) (e || (checkSectors l e' m).1) (checkSectors l e' m).2 := by
  induction l with
  | nil =>
    intro A e' m h
    rw [List.append_nil]
    exact h
  | cons s l ih =>
    intro A e' m h
    have hstep := h.sector s
    rw [Bool.or_assoc] at hstep
    have hrest := ih hstep
    rw [List.append_assoc] at hrest
    exact hrest

theorem Shadow.header {rh : RawFileHeader} (h : Shadow C A e m) (hrun : checkFileHeader rh m = some (e', m')) :
    Shadow (C ∧ HeaderFits rh) (A ++ rh.dataOf) (e || e') m' := by
  rw [checkFileHeader] at hrun
  split at hrun
  · have hresult : checkSectors rh.dataOf _ m = (e', m') := Option.some.inj hrun
    have hsectors := ((h.condition (D := divRoundUp rh.numBytes sectorSize ≤ rh.numSectors)).condition
      (D := rh.numSectors < numDirect))
    rw [Bool.or_assoc] at hsectors
    have hall := hsectors.sectors rh.dataOf
    rw [hresult] at hall
    refine hall.congr ?_
    exact ⟨fun ⟨⟨hC, henough⟩, hfew⟩ => ⟨hC, henough, hfew⟩, fun ⟨hC, hfits⟩ => ⟨⟨hC, hfits.enough⟩, hfits.few⟩⟩
  · cases hrun

/-- The two maps are compared. -/
theorem checkBitmaps_eq_false (freeMap shadowMap : Bitmap) :
    checkBitmaps freeMap shadowMap = false ↔ ∀ s < numSectors, freeMap.test s = shadowMap.test s := by
  have hfold : ∀ (l : List Nat) (e : Bool),
      l.foldl (fun error i => error || checkForError (freeMap.test i == shadowMap.test i)) e = false ↔
        e = false ∧ ∀ s ∈ l, freeMap.test s = shadowMap.test s := by
    intro l
    induction l with
    | nil => simp
    | cons s l ih =>
      intro e
      rw [List.foldl_cons, ih, Bool.or_eq_false_iff, checkForError, Bool.not_eq_false', beq_iff_eq,
        List.forall_mem_cons, and_assoc]
  rw [checkBitmaps, hfold]
  simp

end Shadow

/-! ## The directory -/

section Entries

variable {w w' : World} {rd : Directory} {A : List Nat} {C : Prop} {st st' : Checking} {i : Nat}

/-- The sectors of the entry `i`: that of its header, and those of its data. -/
def entrySectors (d : Disk) (t : List UInt8) (i : Nat) : List Nat :=
  entrySector t i :: (hdrAt d (entrySector t i)).dataOf

/-- The entries `is` are as the check wants them. -/
def EntriesFit (d : Disk) (t : List UInt8) (is : List Nat) : Prop :=
  NamesFit t is ∧ ∀ i ∈ is, HeaderFits (hdrAt d (entrySector t i))

/-- The state of the loop after the entries `is`. -/
structure Checked (d : Disk) (t : List UInt8) (C : Prop) (A : List Nat) (e : Bool) (is : List Nat) (st : Checking) :
    Prop where
  shadow : Shadow (C ∧ EntriesFit d t is) (A ++ is.flatMap (entrySectors d t)) (e || st.error) st.shadowMap
  names : ∀ name, name ∈ st.knownNames ↔ some name ∈ is.map (entryString t)

theorem entriesFit_append {d : Disk} {t : List UInt8} {is : List Nat} {name : List UInt8}
    (hname : entryString t i = some name) : EntriesFit d t (is ++ [i]) ↔ EntriesFit d t is ∧
      name.length ≤ fileNameMaxLen ∧ some name ∉ is.map (entryString t) ∧ HeaderFits (hdrAt d (entrySector t i)) := by
  constructor
  · rintro ⟨⟨hshort, hdistinct⟩, hheaders⟩
    rw [List.map_append, List.nodup_append] at hdistinct
    obtain ⟨hnodup, -, hne⟩ := hdistinct
    have hi : i ∈ is ++ [i] := List.mem_append_right _ (List.mem_singleton.mpr rfl)
    refine ⟨⟨⟨fun j hj => hshort j (List.mem_append_left _ hj), hnodup⟩,
      fun j hj => hheaders j (List.mem_append_left _ hj)⟩,
      ?_, fun hmem => ?_, hheaders i hi⟩
    · obtain ⟨name', hname', hle⟩ := hshort i hi
      rw [hname] at hname'
      cases hname'
      exact hle
    · refine hne _ hmem _ ?_ rfl
      rw [List.map_singleton, hname]
      exact List.mem_singleton.mpr rfl
  · rintro ⟨⟨hfit, hheaders⟩, hle, hnot, hheader⟩
    refine ⟨⟨fun j hj => ?_, ?_⟩, fun j hj => ?_⟩
    · rcases List.mem_append.mp hj with hj | hj
      · exact hfit.short j hj
      · rw [List.mem_singleton.mp hj]
        exact ⟨name, hname, hle⟩
    · rw [List.map_append, List.map_singleton, hname, List.nodup_append]
      refine ⟨hfit.distinct, List.nodup_singleton _, fun x hx y hy => ?_⟩
      rw [List.mem_singleton.mp hy]
      rintro rfl
      exact hnot hx
    · rcases List.mem_append.mp hj with hj | hj
      · exact hheaders j hj
      · rw [List.mem_singleton.mp hj]
        exact hheader

/-- A round. -/
theorem Checked.step {e : Bool} {is : List Nat} (h : Checked w.disk rd.table C A e is st)
    (hrun : (checkEntry rd i st).run w = some (st', w')) :
    w' = w ∧ Checked w.disk rd.table C A e (is ++ [i]) st' := by
  obtain ⟨name, w1, hstring, hrun1⟩ := run_bind_eq_some.mp hrun
  obtain ⟨hname, hw⟩ := run_ofOption_eq_some hstring
  subst hw
  dsimp only at hrun1
  obtain ⟨sector, w2, hread, hrun2⟩ := run_bind_eq_some.mp hrun1
  obtain ⟨rfl, rfl⟩ := readSector_eq hread
  obtain ⟨header, w3, hchecked, hret⟩ := run_bind_eq_some.mp hrun2
  obtain ⟨hheader, hw⟩ := run_ofOption_eq_some hchecked
  subst hw
  cases hret
  have hmem := h.names name
  have hlong : checkForError (decide (name.length ≤ fileNameMaxLen)) = decide (fileNameMaxLen < name.length) := by
    rw [checkForError, ← decide_not]
    exact decide_eq_decide.mpr Nat.not_le
  have hrepeated : checkForError (decide (name ∉ st.knownNames)) = decide (name ∈ st.knownNames) := by
    rw [checkForError, ← decide_not]
    exact decide_eq_decide.mpr not_not
  have hshadow := (((h.shadow.condition (D := name.length ≤ fileNameMaxLen)).condition
    (D := name ∉ st.knownNames)).sector (entrySector rd.table i)).header hheader
  rw [hlong, hrepeated] at hshadow
  refine ⟨rfl, ⟨?_, fun n => ?_⟩⟩
  · rw [List.flatMap_append, List.flatMap_singleton, entrySectors, hdrAt]
    simp only [Bool.or_assoc, List.append_assoc, List.singleton_append] at hshadow ⊢
    refine hshadow.congr ?_
    rw [entriesFit_append hname, hmem]
    tauto
  · dsimp only
    rw [List.map_append, List.map_singleton, hname, List.mem_append, List.mem_singleton, ← h.names n]
    by_cases hknown : name ∈ st.knownNames
    · rw [if_pos (decide_eq_true hknown)]
      refine ⟨Or.inl, fun hn => ?_⟩
      rcases hn with hn | hn
      · exact hn
      · rw [Option.some.inj hn]
        exact hknown
    · rw [if_neg (by simp [hknown]), List.mem_append, List.mem_singleton, Option.some.injEq]

/-- The loop, by induction over the entries that are left. -/
theorem Checked.entries {e : Bool} (is : List Nat) : ∀ {pre : List Nat} {st : Checking},
    Checked w.disk rd.table C A e (pre.filter (entryInUse rd.table)) st →
    (checkEntries rd is st).run w = some (st', w') →
    w' = w ∧ Checked w.disk rd.table C A e ((pre ++ is).filter (entryInUse rd.table)) st' ∧
      ∀ i ∈ is, i < rd.tableSize := by
  induction is with
  | nil =>
    intro pre st h hrun
    cases hrun
    rw [List.append_nil]
    exact ⟨rfl, h, fun i hi => nomatch hi⟩
  | cons i is ih =>
    intro pre st h hrun
    rw [checkEntries] at hrun
    split at hrun
    · rename_i hlt
      split at hrun
      · rename_i huse
        obtain ⟨st1, w1, hround, hrest⟩ := run_bind_eq_some.mp hrun
        obtain ⟨rfl, h1⟩ := h.step hround
        have hfilter : pre.filter (entryInUse rd.table) ++ [i] = (pre ++ [i]).filter (entryInUse rd.table) := by
          rw [List.filter_append, List.filter_singleton, huse, cond_true]
        rw [hfilter] at h1
        obtain ⟨hw, hdone, hall⟩ := ih h1 hrest
        rw [List.append_assoc] at hdone
        exact ⟨hw, hdone, List.forall_mem_cons.mpr ⟨hlt, hall⟩⟩
      · rename_i huse
        have hfilter : pre.filter (entryInUse rd.table) = (pre ++ [i]).filter (entryInUse rd.table) := by
          rw [List.filter_append, List.filter_singleton, Bool.eq_false_iff.mpr huse, cond_false, List.append_nil]
        rw [hfilter] at h
        obtain ⟨hw, hdone, hall⟩ := ih h hrun
        rw [List.append_assoc] at hdone
        exact ⟨hw, hdone, List.forall_mem_cons.mpr ⟨hlt, hall⟩⟩
    · cases hrun

/-- The sectors in the order in which the check marks them. -/
theorem perm_sectorsOf_checkedHeaders (d : Disk) (t : List UInt8) :
    ([freeMapSector, directorySector] ++ (hdrAt d freeMapSector).dataOf ++ (hdrAt d directorySector).dataOf ++
      (checkedEntries t).flatMap (entrySectors d t)).Perm (sectorsOf d (checkedHeaders t)) := by
  have hentries : sectorsOf d ((checkedEntries t).map (entrySector t)) =
      (checkedEntries t).flatMap (entrySectors d t) := by
    rw [sectorsOf, List.flatMap_map]
    rfl
  have hsectors : sectorsOf d (checkedHeaders t) = freeMapSector :: ((hdrAt d freeMapSector).dataOf ++
      directorySector :: ((hdrAt d directorySector).dataOf ++ (checkedEntries t).flatMap (entrySectors d t))) := by
    rw [← hentries]
    rfl
  rw [hsectors, List.append_assoc, List.append_assoc]
  have hmiddle : (directorySector :: ((hdrAt d freeMapSector).dataOf ++ ((hdrAt d directorySector).dataOf ++
      (checkedEntries t).flatMap (entrySectors d t)))).Perm ((hdrAt d freeMapSector).dataOf ++
        directorySector :: ((hdrAt d directorySector).dataOf ++ (checkedEntries t).flatMap (entrySectors d t))) :=
    List.perm_middle.symm
  exact List.Perm.cons _ hmiddle

end Entries

/-! ## The whole check -/

section Check

variable {w w' w1 w2 : World} {m : Bitmap} {dir : Directory} {b : Bool}

/-- The shadow map at the beginning. -/
theorem shadow_start {start : Bitmap}
    (hstart : start = ((Bitmap.new numSectors fun _ => 0).mark freeMapSector).mark directorySector) :
    Shadow True [freeMapSector, directorySector] false start := by
  have hnew : (Bitmap.new numSectors fun _ => 0).numBits = numSectors := Bitmap.numBits_new _ _
  have hbits : start.numBits = numSectors := by rw [hstart, Bitmap.numBits_mark, Bitmap.numBits_mark, hnew]
  refine ⟨⟨fun _ => ⟨trivial, by decide, by decide⟩, fun _ => rfl⟩, fun _ s hs => ?_, hbits⟩
  rw [hstart, Bitmap.test_mark (by rw [Bitmap.numBits_mark, hnew]; decide), Bitmap.test_mark (by rw [hnew]; decide),
    Bitmap.test_new _ hs, Bool.or_false, Bool.or_eq_true, decide_eq_true_iff, decide_eq_true_iff, List.mem_cons,
    List.mem_singleton]
  exact or_comm.trans (or_congr eq_comm eq_comm)

/-- The steps of a run of `Check`. -/
theorem check_steps (hrun : check.run w = some (b, w')) :
    ∃ m w1 dir w2 start bitmap header st, fetchFreeMap.run w = some (m, w1) ∧
      fetchDirectory.run w1 = some (dir, w2) ∧ Shadow True [freeMapSector, directorySector] false start ∧
      checkFileHeader (hdrAt w.disk freeMapSector) start = some bitmap ∧
      checkFileHeader (hdrAt w.disk directorySector) bitmap.2 = some header ∧
      (checkEntries dir (List.range numDirEntries) ⟨false, [], header.2⟩).run w2 = some (st, w') ∧
      b = !((checkForError (decide ((hdrAt w.disk freeMapSector).numBytes = freeMapFileSize)) ||
        checkForError (decide ((hdrAt w.disk freeMapSector).numSectors = freeMapFileSize / sectorSize))) ||
        bitmap.1 || header.1 || st.error || checkBitmaps m st.shadowMap) := by
  rw [check] at hrun
  dsimp only at hrun
  generalize hstart : ((Bitmap.new numSectors fun _ => 0).mark freeMapSector).mark directorySector = start at hrun
  obtain ⟨bitH, w3, hread, hrun1⟩ := run_bind_eq_some.mp hrun
  obtain ⟨rfl, rfl⟩ := readSector_eq hread
  obtain ⟨bitmap, w4, hchecked, hrun2⟩ := run_bind_eq_some.mp hrun1
  obtain ⟨hbitmap, hw⟩ := run_ofOption_eq_some hchecked
  subst hw
  obtain ⟨dirH, w5, hread, hrun3⟩ := run_bind_eq_some.mp hrun2
  obtain ⟨rfl, rfl⟩ := readSector_eq hread
  obtain ⟨header, w6, hchecked, hrun4⟩ := run_bind_eq_some.mp hrun3
  obtain ⟨hheader, hw⟩ := run_ofOption_eq_some hchecked
  subst hw
  obtain ⟨m, w1, hmap, hrun5⟩ := run_bind_eq_some.mp hrun4
  obtain ⟨dir, w2, hdir, hrun6⟩ := run_bind_eq_some.mp hrun5
  obtain ⟨entries, w7, hentries, hret⟩ := run_bind_eq_some.mp hrun6
  obtain ⟨st, w8, hloop, hdone⟩ := run_bind_eq_some.mp hentries
  obtain ⟨rfl, rfl⟩ := Prod.mk.inj (Option.some.inj hdone)
  obtain ⟨hb, rfl⟩ := Prod.mk.inj (Option.some.inj hret)
  exact ⟨m, w1, dir, w2, start, bitmap, header, st, hmap, hdir, shadow_start hstart.symm, hbitmap, hheader, hloop,
    hb.symm⟩

/-- What was found before the directory is all that was found before its first entry. -/
theorem Shadow.checked {d : Disk} {t : List UInt8} {C : Prop} {A : List Nat} {e : Bool} (h : Shadow C A e m) :
    Checked d t C A e ([].filter (entryInUse t)) ⟨false, [], m⟩ := by
  refine ⟨?_, fun name => by simp⟩
  rw [List.filter_nil, List.flatMap_nil, List.append_nil, Bool.or_false]
  refine h.congr ⟨fun hC => ⟨hC, ⟨fun i hi => ?_, List.nodup_nil⟩, fun i hi => ?_⟩, fun hC => hC.1⟩
  · cases hi
  · cases hi

/-- `Check` answers whether the disk is as it wants it. -/
theorem check_iff (hrun : check.run w = some (b, w')) :
    ∃ m w1 dir w2, fetchFreeMap.run w = some (m, w1) ∧ fetchDirectory.run w1 = some (dir, w2) ∧
      (∀ i ∈ checkedEntries dir.table, i < dir.tableSize) ∧
      (w2.disk = w.disk → (b = true ↔ ChecksOut w.disk m dir.table)) := by
  obtain ⟨m, w1, dir, w2, start, ⟨bitmapError, map1⟩, ⟨headerError, map2⟩, st, hmap, hdir, hstart, hbitmap, hheader,
    hloop, rfl⟩ := check_steps hrun
  have hshadow := ((((hstart.condition (D := (hdrAt w.disk freeMapSector).numBytes = freeMapFileSize)).condition
    (D := (hdrAt w.disk freeMapSector).numSectors = freeMapFileSize / sectorSize)).header hbitmap).header hheader)
  have hchecked := (hshadow.checked (d := w2.disk) (t := dir.table)).entries (List.range numDirEntries) hloop
  refine ⟨m, w1, dir, w2, hmap, hdir, fun i hi => hchecked.2.2 i (List.mem_of_mem_filter hi), fun hdisk => ?_⟩
  rw [List.nil_append, hdisk] at hchecked
  obtain ⟨-, ⟨⟨herror, hmarks, -⟩, -⟩, -⟩ := hchecked
  have hperm := perm_sectorsOf_checkedHeaders w.disk dir.table
  rw [Bool.not_eq_true', Bool.or_eq_false_iff, checkBitmaps_eq_false]
  rw [Bool.false_or] at herror hmarks
  constructor
  · rintro ⟨hfound, hsame⟩
    obtain ⟨⟨⟨⟨⟨⟨-, hbytes⟩, hsectors⟩, hmapFits⟩, hdirFits⟩, hnames, hfits⟩, hnodup, hlt⟩ := herror.mp hfound
    refine ⟨hbytes, hsectors, fun s hs => ?_, hnames, hperm.nodup_iff.mp hnodup,
      fun s hs => hlt s (hperm.mem_iff.mpr hs),
      fun s hs => ?_⟩
    · rcases List.mem_cons.mp hs with rfl | hs
      · exact hmapFits
      · rcases List.mem_cons.mp hs with rfl | hs
        · exact hdirFits
        · obtain ⟨i, hi, rfl⟩ := List.mem_map.mp hs
          exact hfits i hi
    · rw [hsame s hs, hmarks hfound s hs]
      exact hperm.mem_iff
  · intro h
    have hfound := herror.mpr ⟨⟨⟨⟨⟨⟨trivial, h.mapBytes_eq⟩, h.mapSectors_eq⟩, h.headers _ List.mem_cons_self⟩,
      h.headers _ (List.mem_cons_of_mem _ List.mem_cons_self)⟩, h.names, fun i hi => h.headers _ (List.mem_cons_of_mem _
        (List.mem_cons_of_mem _ (List.mem_map_of_mem hi)))⟩, hperm.nodup_iff.mpr h.nodup,
      fun s hs => h.lt s (hperm.mem_iff.mp hs)⟩
    refine ⟨hfound, fun s hs => ?_⟩
    have hiff : m.test s = true ↔ st.shadowMap.test s = true := by
      rw [h.freeMap_iff s hs, hmarks hfound s hs]
      exact hperm.mem_iff.symm
    exact Bool.eq_iff_iff.mpr hiff

end Check

/-! ## The check in a session -/

section Healthy

variable {w w' : World} {own : Nat → Option Nat} {m : Bitmap} {objs handles : List FileId} {x y z : Nat} {c : List Nat}
  {b : Bool}

/-- The check looks at files. -/
theorem Sound.stored_checked (h : Sound w own m (fun _ => False) objs handles) (hcur : CurrentIs w x c)
    (hall : ∀ i ∈ checkedEntries (content w.disk c), i < numEntries (content w.disk c))
    (hy : y ∈ checkedHeaders (content w.disk c)) : Stored w y := by
  rcases List.mem_cons.mp hy with rfl | hy
  · exact Stored.freeMap
  · rcases List.mem_cons.mp hy with rfl | hy
    · exact Stored.directory h.root
    · obtain ⟨i, hi, rfl⟩ := List.mem_map.mp hy
      exact Stored.entry (h.currentDirectory hcur) hcur.chain ⟨hall i hi, (List.mem_filter.mp hi).2⟩

/-- The sectors of a header that the check looks at belong to its file. -/
theorem Sound.own_checked (h : Sound w own m (fun _ => False) objs handles) (hcur : CurrentIs w x c)
    (hall : ∀ i ∈ checkedEntries (content w.disk c), i < numEntries (content w.disk c))
    (hy : y ∈ checkedHeaders (content w.disk c)) (hz : z ∈ y :: (hdrAt w.disk y).dataOf) : own z = some y := by
  obtain ⟨b, hfile⟩ := h.layout.fileOk (h.own_stored (h.stored_checked hcur hall hy))
  exact (hfile.own_iff z).mpr (List.mem_flatMap.mpr ⟨y, hfile.chain.start_mem, hz⟩)

/-- If all that is marked was seen, the file at `y` was seen, and all of it. -/
theorem Sound.checkable (h : Sound w own m (fun _ => False) objs handles) (hcur : CurrentIs w x c)
    (hall : ∀ i ∈ checkedEntries (content w.disk c), i < numEntries (content w.disk c))
    (hout : ChecksOut w.disk m (content w.disk c)) (hy : Stored w y) : Checkable w.disk (content w.disk c) y := by
  obtain ⟨b, hfile⟩ := h.layout.fileOk (h.own_stored hy)
  have hseen : ∀ z, own z = some y →
      y ∈ checkedHeaders (content w.disk c) ∧ z ∈ y :: (hdrAt w.disk y).dataOf := by
    intro z hz
    have hmem := (hout.freeMap_iff z (h.layout.lt z y hz)).mp (h.marked z y hz)
    obtain ⟨s, hs, hzs⟩ := List.mem_flatMap.mp hmem
    have hown := h.own_checked hcur hall hs hzs
    rw [hz] at hown
    cases hown
    exact ⟨hs, hzs⟩
  have hmem := (hseen y hfile.own_start).1
  obtain ⟨l, hb, hfollows⟩ := hfile.chain
  subst hb
  have hl : l = [] := by
    cases l with
    | nil => rfl
    | cons z l =>
      -- the second header would be the first one or one of its data sectors
      exfalso
      have hz := (hseen z (hfile.own_of_mem (List.mem_cons_of_mem _ List.mem_cons_self))).2
      have hnodup := hfile.nodup
      rw [sectorsOf, List.flatMap_cons, List.nodup_append] at hnodup
      exact hnodup.2.2 z hz z (by rw [List.flatMap_cons]; exact List.mem_append_left _ List.mem_cons_self) rfl
  subst hl
  exact ⟨hmem, hfile.chain, (hout.headers y hmem).few⟩

/-- If all files are seen, and nothing is lost, the check finds nothing but names. -/
theorem Sound.checksOut (h : Sound w own m (fun _ => False) objs handles) (hcur : CurrentIs w x c)
    (hall : ∀ i ∈ checkedEntries (content w.disk c), i < numEntries (content w.disk c))
    (hnames : NamesFit (content w.disk c) (checkedEntries (content w.disk c)))
    (hfiles : ∀ y, Stored w y → Checkable w.disk (content w.disk c) y) (hlost : NothingLost w) :
    ChecksOut w.disk m (content w.disk c) := by
  have hown : ∀ z, z ∈ sectorsOf w.disk (checkedHeaders (content w.disk c)) → ∃ y, own z = some y := by
    intro z hz
    obtain ⟨y, hy, hzy⟩ := List.mem_flatMap.mp hz
    exact ⟨y, h.own_checked hcur hall hy hzy⟩
  have hdirectory := h.directoryOk hcur
  refine ⟨?_, ?_, fun y hy => ?_, hnames, ?_, fun z hz => ?_, fun z hz => ⟨fun hmarked => ?_, fun hmem => ?_⟩⟩
  · exact h.layout.mapHeader.numBytes_eq
  · exact h.layout.mapHeader.numSectors_eq
  · have hstored := h.stored_checked hcur hall hy
    obtain ⟨b, hfile⟩ := h.layout.fileOk (h.own_stored hstored)
    exact ⟨Nat.le_of_eq (hfile.ok y hfile.chain.start_mem).numSectors_eq.symm, (hfiles y hstored).few⟩
  · have hentries : ((checkedEntries (content w.disk c)).map (entrySector (content w.disk c))).Nodup := by
      refine List.Nodup.map_on (fun i hi j hj heq => ?_) (List.nodup_range.filter _)
      have hi' : Used (content w.disk c) i := ⟨hall i hi, (List.mem_filter.mp hi).2⟩
      have hj' : Used (content w.disk c) j := ⟨hall j hj, (List.mem_filter.mp hj).2⟩
      exact (h.tree.sole (h.currentDirectory hcur) (h.currentDirectory hcur) hcur.chain hcur.chain hi' hj' heq).2
    have hne : ∀ s ∈ (checkedEntries (content w.disk c)).map (entrySector (content w.disk c)),
        s ≠ freeMapSector ∧ s ≠ directorySector := by
      intro s hs
      obtain ⟨i, hi, rfl⟩ := List.mem_map.mp hs
      exact (hdirectory.table.entries i ⟨hall i hi, (List.mem_filter.mp hi).2⟩).2
    have hheads : (checkedHeaders (content w.disk c)).Nodup := by
      refine List.nodup_cons.mpr ⟨fun hmem => ?_, List.nodup_cons.mpr ⟨fun hmem => (hne _ hmem).2 rfl, hentries⟩⟩
      rcases List.mem_cons.mp hmem with heq | hmem
      · exact absurd heq (by decide)
      · exact (hne _ hmem).1 rfl
    refine List.nodup_flatMap.mpr ⟨fun y hy => ?_, hheads.pairwise_of_forall_ne fun y hy s hs hys => ?_⟩
    · have hstored := h.stored_checked hcur hall hy
      have hnodup := (h.stored_fileOk hstored (hfiles y hstored).chain).nodup
      rw [sectorsOf, List.flatMap_singleton] at hnodup
      exact hnodup
    · intro z hzy hzs
      have hzown := h.own_checked hcur hall hy hzy
      rw [h.own_checked hcur hall hs hzs] at hzown
      exact hys (Option.some.inj hzown).symm
  · obtain ⟨y, hy⟩ := hown z hz
    exact h.layout.lt z y hy
  · rw [← h.storedFreeMap_eq] at hmarked
    obtain ⟨y, b, hy, hb, hzb⟩ := hlost z hmarked
    have hcheckable := hfiles y hy
    rw [hb.unique hcheckable.chain, sectorsOf, List.flatMap_singleton] at hzb
    exact List.mem_flatMap.mpr ⟨y, hcheckable.mem, hzb⟩
  · obtain ⟨y, hy⟩ := hown z hmem
    exact h.marked z y hy

/-- What the answer of `Check` means when the file system is sound. -/
theorem Sound.check_iff (h : Sound w own m (fun _ => False) objs handles) (hcur : CurrentIs w x c)
    (hrun : check.run w = some (b, w')) :
    b = true ↔ NamesFit (content w.disk c) (checkedEntries (content w.disk c)) ∧
      (∀ y, Stored w y → Checkable w.disk (content w.disk c) y) ∧ NothingLost w := by
  obtain ⟨m1, w1, dir, w2, hmap, hdir, hall, hiff⟩ := Filesys.check_iff hrun
  rw [run_fetchFreeMap h.mapFile h.mapIs] at hmap
  obtain ⟨rfl, rfl⟩ := Prod.mk.inj (Option.some.inj hmap)
  have hfetched := h.toInOrder.fetchDirectory hcur hdir
  rw [hfetched.table_eq, hfetched.size_eq] at hall
  rw [hiff hfetched.fetched.disk_eq, hfetched.table_eq]
  constructor
  · intro hout
    refine ⟨hout.names, fun y hy => h.checkable hcur hall hout hy, fun z hz => ?_⟩
    rw [h.storedFreeMap_eq] at hz
    have hmem := (hout.freeMap_iff z (lt_of_test h.mapIs.numBits_eq hz)).mp hz
    obtain ⟨y, hy, hzy⟩ := List.mem_flatMap.mp hmem
    have hstored := h.stored_checked hcur hall hy
    have hchain := (h.checkable hcur hall hout hstored).chain
    refine ⟨y, [y], hstored, hchain, ?_⟩
    rw [sectorsOf, List.flatMap_singleton]
    exact hzy
  · rintro ⟨hnames, hfiles, hlost⟩
    exact h.checksOut hcur hall hnames hfiles hlost

theorem checkFileHeader_of_ok {rh : RawFileHeader} (hok : rh.Ok) (m : Bitmap) :
    ∃ result, checkFileHeader rh m = some result := by
  rw [checkFileHeader, if_pos hok.numSectors_le]
  exact ⟨_, rfl⟩

/-- The loop comes to its end, by induction over the entries. -/
theorem run_checkEntries {rd : Directory} (is : List Nat) : ∀ st : Checking, (∀ i ∈ is, i < rd.tableSize) →
    (∀ i ∈ is, entryInUse rd.table i = true → (∃ name, entryString rd.table i = some name) ∧
      entrySector rd.table i < numSectors ∧ (hdrAt w.disk (entrySector rd.table i)).Ok) →
    ∃ st', (checkEntries rd is st).run w = some (st', w) := by
  induction is with
  | nil => exact fun st _ _ => ⟨st, rfl⟩
  | cons i is ih =>
    intro st hsize hgood
    obtain ⟨hi, hsize⟩ := List.forall_mem_cons.mp hsize
    obtain ⟨hfirst, hgood⟩ := List.forall_mem_cons.mp hgood
    rw [checkEntries, if_pos hi]
    by_cases huse : entryInUse rd.table i = true
    · rw [if_pos huse]
      obtain ⟨⟨name, hname⟩, hlt, hok⟩ := hfirst huse
      obtain ⟨st1, hround⟩ : ∃ st1, (checkEntry rd i st).run w = some (st1, w) := by
        obtain ⟨header, hheader⟩ := checkFileHeader_of_ok hok (checkSector (entrySector rd.table i) st.shadowMap).2
        rw [hdrAt] at hheader
        rw [checkEntry, hname]
        dsimp only
        rw [run_bind, run_ofOption_some, Option.bind_some, run_bind, run_readSector hlt, Option.bind_some, run_bind,
          hheader, run_ofOption_some, Option.bind_some]
        exact ⟨_, rfl⟩
      obtain ⟨st2, hrest⟩ := ih st1 hsize hgood
      exact ⟨st2, by rw [run_bind, hround, Option.bind_some, hrest]⟩
    · rw [if_neg huse]
      exact ih st hsize hgood

/-- `Check` returns if the current directory has entries enough and their names end. -/
theorem Sound.run_check (h : Sound w own m (fun _ => False) objs handles) (hcur : CurrentIs w x c)
    (hsize : numDirEntries ≤ numEntries (content w.disk c))
    (hnames : ∀ i ∈ checkedEntries (content w.disk c), ∃ name, entryString (content w.disk c) i = some name) :
    ∃ b w', check.run w = some (b, w') := by
  have hok : ∀ y, Stored w y → y < numSectors ∧ (hdrAt w.disk y).Ok := by
    intro y hy
    obtain ⟨b, hfile⟩ := h.layout.fileOk (h.own_stored hy)
    exact ⟨h.layout.lt y y hfile.own_start, hfile.ok y hfile.chain.start_mem⟩
  obtain ⟨dir, w2, hdir, -, -, -⟩ := Filesys.run_fetchDirectory (h.dirFile hcur
    (by rw [hcur.size_eq]; exact Nat.lt_of_lt_of_le (by decide) hsize))
  have hfetched := h.toInOrder.fetchDirectory hcur hdir
  obtain ⟨bitmap, hbitmap⟩ := checkFileHeader_of_ok (hok _ Stored.freeMap).2
    (((Bitmap.new numSectors fun _ => 0).mark freeMapSector).mark directorySector)
  obtain ⟨header, hheader⟩ := checkFileHeader_of_ok (hok _ (Stored.directory h.root)).2 bitmap.2
  have hlt : ∀ i ∈ List.range numDirEntries, i < numEntries (content w.disk c) := by
    intro i hi
    have hi := List.mem_range.mp hi
    omega
  obtain ⟨st, hloop⟩ : ∃ st, (checkEntries dir (List.range numDirEntries) ⟨false, [], header.2⟩).run w2 =
      some (st, w2) := run_checkEntries (List.range numDirEntries) ⟨false, [], header.2⟩
    (by rw [hfetched.size_eq]; exact hlt) (by
      rw [hfetched.table_eq, hfetched.fetched.disk_eq]
      intro i hi huse
      have hstored := Stored.entry (h.currentDirectory hcur) hcur.chain ⟨hlt i hi, huse⟩
      exact ⟨hnames i (List.mem_filter.mpr ⟨hi, huse⟩), hok _ hstored⟩)
  rw [hdrAt] at hbitmap hheader
  rw [check]
  dsimp only
  rw [run_bind, run_readSector (by decide), Option.bind_some, run_bind, hbitmap, run_ofOption_some, Option.bind_some,
    run_bind, run_readSector (by decide), Option.bind_some, run_bind, hheader, run_ofOption_some, Option.bind_some,
    run_bind, run_fetchFreeMap h.mapFile h.mapIs, Option.bind_some, run_bind, hdir, Option.bind_some, checkDirectory,
    run_bind, run_bind, hloop]
  exact ⟨_, _, rfl⟩

end Healthy

namespace Session

variable {disk : Disk} {heap : HeapUse → Nat → ByteMemory} {s0 s : Session} {calls : List (Tid × FileCall)}
  {w' : World} {x : Nat} {c : List Nat} {b : Bool}

end Session

end Nachos.Filesys
