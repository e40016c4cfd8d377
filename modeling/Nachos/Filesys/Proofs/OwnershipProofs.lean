import Nachos.Filesys.Proofs.SessionProofs

/-!
# Proofs: who owns the sectors

In every session on a formatted disk each sector belongs to one file only and is marked, a file that no call is
made on stays as it is, and no sector is lost as long as the calls lose none.
-/

namespace Nachos.Filesys

open Foundations Resumption

/-! ## Sound file systems -/

section Owned

variable {w : World} {own : Nat → Option Nat} {m : Bitmap} {objs handles : List FileId} {x : Nat} {c : List Nat}

/-- A file owns its first sector. -/
theorem Sound.own_stored (h : Sound w own m (fun _ => False) objs handles) (hx : Stored w x) : own x = some x := by
  cases hx with
  | freeMap => exact h.layout.own_zero
  | directory hs => exact h.own_directory hs
  | entry hs hc hi => exact ((h.tree.directoryOk hs hc).table.entries _ hi).1

theorem Sound.stored_fileOk (h : Sound w own m (fun _ => False) objs handles) (hx : Stored w x)
    (hc : HeaderChain w.disk x c) : FileOk w.disk own x c := by
  obtain ⟨b, hb⟩ := h.layout.fileOk (h.own_stored hx)
  rw [hc.unique hb.chain]
  exact hb

theorem Sound.storedFreeMap_eq (h : Sound w own m (fun _ => False) objs handles) : storedFreeMap w.disk = m :=
  Nachos.Filesys.storedFreeMap_eq h.layout.mapHeader h.mapIs

theorem Sound.sectorsOwned (h : Sound w own m (fun _ => False) objs handles) : SectorsOwned w := by
  refine ⟨fun x hx => ?_, fun x c hx hc => (h.stored_fileOk hx hc).nodup, fun x y c b hx hy hc hb hne => ?_,
    fun x c hx hc z hz => ?_, fun x c hx hc z hz => ?_, fun x c hx hc z hz => ((h.stored_fileOk hx hc).ok z hz).numSectors_eq,
    h.tree.sole⟩
  · obtain ⟨b, hb⟩ := h.layout.fileOk (h.own_stored hx)
    exact ⟨b, hb.chain⟩
  · intro z hzc hzb
    have hzx := ((h.stored_fileOk hx hc).own_iff z).mpr hzc
    rw [((h.stored_fileOk hy hb).own_iff z).mpr hzb] at hzx
    exact hne (Option.some.inj hzx).symm
  · exact h.layout.lt z x (((h.stored_fileOk hx hc).own_iff z).mpr hz)
  · rw [h.storedFreeMap_eq]
    exact h.marked z x (((h.stored_fileOk hx hc).own_iff z).mpr hz)

/-- A file that the call is not made on, and that is still there. -/
theorem Stepped.sameFile {P : Nat → Prop} {F : Prop} {handles' : List FileId} {w' : World} {own' : Nat → Option Nat}
    {m' : Bitmap} (h : Stepped P F handles' w own m w' own' m') (hsound : Sound w own m (fun _ => False) objs handles)
    (hP : ¬ P x) (hx0 : x ≠ freeMapSector) (hx : own x = some x) (hx' : own' x = some x)
    (hc : HeaderChain w.disk x c) : SameFile w.disk x c w'.disk := by
  obtain ⟨l, honly, hl⟩ := h.touched.onlyFiles hP hx hx'
  obtain ⟨b, hb⟩ := hsound.layout.fileOk hx
  rw [hc.unique hb.chain]
  obtain ⟨hfile, hcontent⟩ := honly.file hsound.layout hx0 hl hb
  exact ⟨hfile.chain, honly.sectors hsound.layout hx0 hl hb, hcontent⟩

theorem SameFile.trans {d d' d'' : Disk} (h : SameFile d x c d') (h' : SameFile d' x c d'') :
    SameFile d x c d'' := by
  have hsectors : sectorsOf d' c = sectorsOf d c := sectorsOf_congr fun z hz => by
    rw [hdrAt_congr (h.sectors z (mem_sectorsOf_of_mem hz))]
  refine ⟨h'.chain, fun z hz => ?_, h'.content_eq.trans h.content_eq⟩
  rw [← h.sectors z hz]
  exact h'.sectors z (by rw [hsectors]; exact hz)

end Owned

/-! ## Nothing is lost -/

section Covered

variable {w w' : World} {own own' : Nat → Option Nat} {m m' : Bitmap} {objs handles handles' : List FileId}
  {P : Nat → Prop} {F : Prop} {x : Nat} {c : List Nat}

/-- Every file can be reached from the root, the current directory over directories, and what is marked belongs to
a file. -/
structure Covered (w : World) (own : Nat → Option Nat) (m : Bitmap) : Prop where
  marks : MarksOwned m own
  inTree : ∀ x, own x = some x → InTree w.disk x
  rooted : ∀ x, Roots w (fun _ => False) x → IsDirectory w.disk (· = directorySector) x

theorem IsDirectory.fromRoot {K : Nat → Prop} (h : IsDirectory w.disk (· = directorySector) x) :
    IsDirectory w.disk (Roots w K) x :=
  h.reroot fun _ hy => IsDirectory.root (Or.inl hy)

/-- Where no directory with entries is freed, what has an entry is not freed. -/
theorem Stepped.parent_stays (h : Stepped P F handles' w own m w' own' m') (hF : F) {i : Nat}
    (hx : IsDirectory w.disk (· = directorySector) x) (hc : HeaderChain w.disk x c) (hi : Used (content w.disk c) i) :
    own' x = some x := by
  by_contra hgone
  exact h.gone hF x c hx.fromRoot hc hgone i hi

/-- An entry for a file that is still there is kept. -/
theorem Stepped.entry_stays (h : Stepped P F handles' w own m w' own' m') {s i : Nat}
    (hsound' : Sound w' own' m' (fun _ => False) objs handles') (hs : IsDirectory w.disk (· = directorySector) s)
    (hs' : own' s = some s) (hc : HeaderChain w.disk s c) (hi : Used (content w.disk c) i)
    (hown' : own' (entrySector (content w.disk c) i) = some (entrySector (content w.disk c) i)) :
    ∃ c', HeaderChain w'.disk s c' ∧ Used (content w'.disk c') i ∧
      SameEntry (content w'.disk c') (content w.disk c) i := by
  obtain ⟨c', hfile⟩ := hsound'.layout.fileOk hs'
  obtain ⟨hused, hsame⟩ := h.kept s c c' hs.fromRoot hs' hc hfile.chain i hi hown'
  exact ⟨c', hfile.chain, hused, hsame⟩

/-- A directory that is still there is reached from the root, by induction over the way to it. -/
theorem Stepped.directory_stays (h : Stepped P F handles' w own m w' own' m') (hF : F)
    (hsound' : Sound w' own' m' (fun _ => False) objs handles') (hx : IsDirectory w.disk (· = directorySector) x) :
    own' x = some x → IsDirectory w'.disk (· = directorySector) x := by
  induction hx with
  | root hs => exact fun _ => IsDirectory.root hs
  | entry hs hc hi hdir ih =>
    intro hx'
    have hs' := h.parent_stays hF hs hc hi
    obtain ⟨c', hc', hi', hsame⟩ := h.entry_stays hsound' hs hs' hc hi hx'
    rw [← hsame.sector_eq]
    exact IsDirectory.entry (ih hs') hc' hi' (hsame.isDirectory_eq.trans hdir)

theorem Covered.step (hc : Covered w own m) (h : Stepped P F handles' w own m w' own' m') (hF : F)
    (hsound' : Sound w' own' m' (fun _ => False) objs handles') : Covered w' own' m' := by
  have hdir : ∀ y, IsDirectory w.disk (Roots w fun _ => False) y → IsDirectory w.disk (· = directorySector) y :=
    fun y hy => hy.reroot hc.rooted
  refine ⟨h.marks hF hc.marks, fun y hy' => ?_, fun y hy' => ?_⟩
  · by_cases hy : own y = some y
    · rcases hc.inTree y hy with rfl | rfl | ⟨s, b, i, hs, hb, hi, rfl⟩
      · exact Or.inl rfl
      · exact Or.inr (Or.inl rfl)
      · have hs' := h.parent_stays hF hs hb hi
        obtain ⟨c', hc', hi', hsame⟩ := h.entry_stays hsound' hs hs' hb hi hy'
        exact Or.inr (Or.inr ⟨s, c', i, h.directory_stays hF hsound' hs hs', hc', hi', hsame.sector_eq⟩)
    · -- a new file
      obtain ⟨s, c', i, hs, hs', hc', hi, hsector⟩ := h.news y hy hy'
      exact Or.inr (Or.inr ⟨s, c', i, h.directory_stays hF hsound' (hdir s hs) hs', hc', hi, hsector⟩)
  · exact h.directory_stays hF hsound' (hdir y (h.roots y hy')) (hsound'.own_directory (IsDirectory.root hy'))

/-- There is no bit behind the last sector. -/
theorem lt_of_test {z : Nat} (hm : m.numBits = numSectors) (hz : m.test z = true) : z < numSectors := by
  by_contra hle
  have hlen : m.map.length ≤ z / bitsInWord := by
    rw [m.numWords_eq, hm]
    exact (Nat.le_div_iff_mul_le (by decide)).mpr (Nat.not_lt.mp hle)
  rw [Bitmap.test, List.getD_eq_default _ _ hlen] at hz
  simp at hz

/-- A formatted disk. -/
theorem covered_format {disk : Disk} {heap : HeapUse → Nat → ByteMemory} (hmap : Zeroed (heap .header 0))
    (hdir : Zeroed (heap .header 1)) (hrun : format.run (World.initial disk heap) = some ((), w))
    (h : Sound w freshOwner m (fun _ => False) [] []) : Covered w freshOwner m := by
  obtain ⟨w1, hrun1, hafter⟩ : ∃ w1, format.run (World.initial disk heap) = some ((), w1) ∧ AfterFormat w1 :=
    run_format hmap hdir
  rw [hrun] at hrun1
  cases hrun1
  obtain ⟨m1, hm1, hmarked⟩ := hafter.freeMap
  obtain rfl := h.mapIs.unique hm1
  refine ⟨fun z hz => ?_, fun y hy => ?_, fun y hy => ?_⟩
  · have hlt := lt_of_test hm1.numBits_eq hz
    rw [hmarked z (by rw [hm1.numBits_eq]; exact hlt), decide_eq_true_iff] at hz
    rw [freshOwner]
    split
    · rfl
    · rw [if_pos (by simp only [freeMapDataSector] at *; omega)]
      rfl
  · rcases freshOwner_cases hy with ⟨-, rfl⟩ | ⟨-, rfl⟩
    · exact Or.inl rfl
    · exact Or.inr (Or.inl rfl)
  · rcases hy with hy | hy | hy
    · exact IsDirectory.root hy
    · rw [hafter.directorySector_eq] at hy
      cases hy
      exact IsDirectory.root rfl
    · exact hy.elim

/-- The free map marks the sectors of the files that can be reached from the root. -/
theorem Sound.freeMapExact (h : Sound w own m (fun _ => False) objs handles) (hc : Covered w own m) :
    FreeMapExact w.disk := by
  intro z
  rw [h.storedFreeMap_eq]
  constructor
  · intro hz
    obtain ⟨x, hx⟩ := Option.isSome_iff_exists.mp (hc.marks z hz)
    obtain ⟨c, hfile⟩ := h.layout.files z x hx
    exact ⟨x, c, hc.inTree x hfile.own_start, hfile.chain, (hfile.own_iff z).mp hx⟩
  · rintro ⟨x, c, hx, hchain, hz⟩
    have hstored : Stored w x := by
      rcases hx with rfl | rfl | ⟨s, b, i, hs, hb, hi, rfl⟩
      · exact Stored.freeMap
      · exact Stored.directory h.root
      · exact Stored.entry hs.fromRoot hb hi
    have howned := h.sectorsOwned.marked x c hstored hchain z hz
    rw [h.storedFreeMap_eq] at howned
    exact howned

end Covered

/-! ## Sessions -/

namespace Session

variable {disk : Disk} {heap : HeapUse → Nat → ByteMemory} {s0 s s' : Session} {calls after : List (Tid × FileCall)}
  {x : Nat} {c c' : List Nat}

/-- The file system of the session is sound. -/
def SoundNow (s : Session) : Prop := ∃ own m objs, Sound s.world own m (fun _ => False) objs s.handles

theorem Started.soundNow (h : Started disk heap s) (hmap : Zeroed (heap .header 0)) (hdir : Zeroed (heap .header 1)) :
    SoundNow s := by
  obtain ⟨m, hsound⟩ := sound_format hmap hdir h.formatted
  refine ⟨freshOwner, m, [], ?_⟩
  rw [h.handles_eq]
  exact hsound

theorem afterFormat_of_started (h : Started disk heap s) (hmap : Zeroed (heap .header 0))
    (hdir : Zeroed (heap .header 1)) : AfterFormat s.world := by
  obtain ⟨w, hrun, hafter⟩ : ∃ w, format.run (World.initial disk heap) = some ((), w) ∧ AfterFormat w :=
    run_format hmap hdir
  rw [h.formatted] at hrun
  cases hrun
  exact hafter

theorem SoundNow.step {call : Tid × FileCall} (h : SoundNow s) (hproper : s.Proper call)
    (hstep : s.fileStepBy call = some s') : SoundNow s' := by
  obtain ⟨own, m, objs, hsound⟩ := h
  obtain ⟨own', m', hstepped⟩ := stepped hsound hproper hstep
  obtain ⟨objs', hsound'⟩ := hstepped.sound
  exact ⟨own', m', objs', hsound'⟩

theorem SoundNow.runs (h : SoundNow s) (hproper : AllSteps fileStepBy Proper s calls)
    (hrun : Foundations.runs fileStepBy s calls = some s') : SoundNow s' :=
  runs_inv (fun _ _ _ hI hP hstep => SoundNow.step hI hP hstep) h hproper hrun

/-! A session on a new disk: a file is made and opened. -/

theorem formatted_started : Started (fun _ => Sector.ofBytes []) (fun _ _ _ => 0) formatted := by
  obtain ⟨⟨_, w⟩, hw⟩ := Option.isSome_iff_exists.mp isSome_format
  refine ⟨?_, rfl⟩
  simp only [formatted, hw, Option.get_some]
  exact hw

theorem zeroed_zeros : Zeroed fun _ => 0 := ⟨rfl, rfl⟩

/-- There is a free entry in the root. -/
theorem formatted_fits : Fits 0 formatted (.named (.create [97])) := by
  rintro piece w ⟨w1, backup, hacquire, hresolve⟩
  cases hresolve
  intro s c m hcur _ hgrows _
  exfalso
  have hafter := afterFormat_of_started formatted_started zeroed_zeros zeroed_zeros
  have hsame := sameTree_acquire hacquire
  have hs := hcur.object
  rw [hsame.current_eq, hafter.directorySector_eq] at hs
  cases hs
  have hchain := hcur.chain
  rw [hsame.disk_eq] at hchain hgrows
  obtain rfl := hchain.unique hafter.headers.directory_fileOk.chain
  obtain ⟨dir, hsize, hcontent, hunused, -⟩ := hafter.table
  have hlt : 0 < numEntries dir.table := by
    rw [numEntries, dir.length_table, hsize]
    decide
  have hfull := hgrows.full
  rw [hcontent] at hfull
  exact hunused 0 ⟨hlt, hfull 0 hlt⟩

/-- The file is made, then opened as the object 2. -/
theorem formatted_created : ∃ s1 s2, formatted.fileStepBy (0, .named (.create [97])) = some s1 ∧
    s1.fileStepBy (0, .named (.open [97])) = some s2 ∧ s2.handles = [2] := by
  obtain ⟨s2, hruns, hhandles⟩ := Option.map_eq_some_iff.mp formatted_runs.2.1
  obtain ⟨s1, hcreate, hrest⟩ := runs_cons_eq_some.mp hruns
  obtain ⟨s3, hopen, hnil⟩ := runs_cons_eq_some.mp hrest
  cases hnil
  exact ⟨s1, s2, hcreate, hopen, hhandles⟩

theorem proper_create : formatted.Proper (0, .named (.create [97])) := ⟨trivial, formatted_fits⟩

theorem proper_open (s : Session) : s.Proper (0, .named (.open [97])) := ⟨trivial, trivial⟩

/-- In every session on a disk formatted with clean memory, whatever the calls return, every sector of a file
belongs to this file only and is marked in the free map. -/
theorem sectors_owned (hmap : Zeroed (heap .header 0)) (hdir : Zeroed (heap .header 1)) (hstart : Started disk heap s)
    (hproper : AllSteps fileStepBy Proper s calls) (hrun : runs fileStepBy s calls = some s') :
    SectorsOwned s'.world := by
  obtain ⟨own, m, objs, hsound⟩ := (hstart.soundNow hmap hdir).runs hproper hrun
  exact hsound.sectorsOwned

/-- Both calls. -/
theorem sectors_owned_formatted : ∃ s, runs fileStepBy formatted [(0, .named (.create [97])), (0, .named (.open [97]))] =
    some s ∧ SectorsOwned s.world := by
  obtain ⟨s1, s2, hcreate, hopen, -⟩ := formatted_created
  have hrun : runs fileStepBy formatted [(0, .named (.create [97])), (0, .named (.open [97]))] = some s2 :=
    runs_cons_eq_some.mpr ⟨s1, hcreate, runs_cons_eq_some.mpr ⟨s2, hopen, rfl⟩⟩
  have hproper : AllSteps fileStepBy Proper formatted [(0, .named (.create [97])), (0, .named (.open [97]))] :=
    ⟨proper_create, fun s _ => ⟨proper_open s, fun _ _ => trivial⟩⟩
  exact ⟨s2, hrun, sectors_owned zeroed_zeros zeroed_zeros formatted_started hproper hrun⟩

/-- A call on other files. -/
theorem SoundNow.spares {call : Tid × FileCall} (h : SoundNow s) (hproper : s.Proper call) (hspares : s.Spares x call)
    (hx0 : x ≠ freeMapSector) (hx : Stored s.world x) (hc : HeaderChain s.world.disk x c)
    (hstep : s.fileStepBy call = some s') :
    SameFile s.world.disk x c s'.world.disk ∧ Stored s'.world x := by
  obtain ⟨own, m, objs, hsound⟩ := h
  obtain ⟨own', m', hstepped⟩ := stepped hsound hproper hstep
  obtain ⟨objs', hsound'⟩ := hstepped.sound
  have hx' := hspares.2 s' hstep
  exact ⟨hstepped.sameFile hsound hspares.1 hx0 (hsound.own_stored hx) (hsound'.own_stored hx') hc, hx'⟩

/-- As long as a file is there and no call is made on it, its headers and its content stay as they are, whatever is
created, written and removed around it. -/
theorem file_unchanged (hmap : Zeroed (heap .header 0)) (hdir : Zeroed (heap .header 1))
    (hstart : Started disk heap s0) (hproper : AllSteps fileStepBy Proper s0 calls)
    (hrun : runs fileStepBy s0 calls = some s) (hx0 : x ≠ freeMapSector) (hx : Stored s.world x)
    (hc : HeaderChain s.world.disk x c)
    (hspares : AllSteps fileStepBy (fun s call => s.Proper call ∧ s.Spares x call) s after)
    (hafter : runs fileStepBy s after = some s') : SameFile s.world.disk x c s'.world.disk := by
  have hsound := (hstart.soundNow hmap hdir).runs hproper hrun
  have hinv : SoundNow s' ∧ Stored s'.world x ∧ SameFile s.world.disk x c s'.world.disk := by
    refine runs_inv (I := fun t => SoundNow t ∧ Stored t.world x ∧ SameFile s.world.disk x c t.world.disk)
      (fun t call t' hI hP hstep => ?_) ⟨hsound, hx, hc, fun _ _ => rfl, rfl⟩ hspares hafter
    obtain ⟨ht, hstored, hsame⟩ := hI
    obtain ⟨hstep', hstored'⟩ := ht.spares hP.1 hP.2 hx0 hstored hsame.chain hstep
    exact ⟨ht.step hP.1 hstep, hstored', hsame.trans hstep'⟩
  exact hinv.2.2

/-- The root is the same after the second call. -/
theorem file_unchanged_formatted : ∃ s1 s2 c, formatted.fileStepBy (0, .named (.create [97])) = some s1 ∧
    runs fileStepBy s1 [(0, .named (.open [97]))] = some s2 ∧
    SameFile s1.world.disk directorySector c s2.world.disk := by
  obtain ⟨s1, s2, hcreate, hopen, -⟩ := formatted_created
  have hrun : runs fileStepBy formatted [(0, .named (.create [97]))] = some s1 :=
    runs_cons_eq_some.mpr ⟨s1, hcreate, rfl⟩
  have hproper : AllSteps fileStepBy Proper formatted [(0, .named (.create [97]))] :=
    ⟨proper_create, fun _ _ => trivial⟩
  obtain ⟨own, m, objs, hsound⟩ := (formatted_started.soundNow zeroed_zeros zeroed_zeros).runs hproper hrun
  have hroot : ∀ w : World, Stored w directorySector := fun w => Stored.directory (IsDirectory.root (Or.inl rfl))
  obtain ⟨c, hc⟩ := hsound.sectorsOwned.ends directorySector (hroot _)
  have hafter : runs fileStepBy s1 [(0, .named (.open [97]))] = some s2 := runs_cons_eq_some.mpr ⟨s2, hopen, rfl⟩
  have hspares : AllSteps fileStepBy (fun s call => s.Proper call ∧ s.Spares directorySector call) s1
      [(0, .named (.open [97]))] := ⟨⟨proper_open s1, id, fun _ _ => hroot _⟩, fun _ _ => trivial⟩
  exact ⟨s1, s2, c, hcreate, hafter, file_unchanged zeroed_zeros zeroed_zeros formatted_started hproper hrun (by decide)
    (hroot _) hc hspares hafter⟩

/-- Every call keeps the entries of the files that are there before and after it, in every directory that is. -/
theorem entries_kept {call : Tid × FileCall} (hmap : Zeroed (heap .header 0)) (hdir : Zeroed (heap .header 1))
    (hstart : Started disk heap s0) (hproper : AllSteps fileStepBy Proper s0 calls)
    (hrun : runs fileStepBy s0 calls = some s) (hcall : s.Proper call) (hstep : s.fileStepBy call = some s')
    (hx : IsDirectory s.world.disk (Roots s.world fun _ => False) x) (hx' : Stored s'.world x)
    (hc : HeaderChain s.world.disk x c) (hc' : HeaderChain s'.world.disk x c') {i : Nat}
    (hi : Used (content s.world.disk c) i) (hi' : Stored s'.world (entrySector (content s.world.disk c) i)) :
    Used (content s'.world.disk c') i ∧ SameEntry (content s'.world.disk c') (content s.world.disk c) i := by
  obtain ⟨own, m, objs, hsound⟩ := (hstart.soundNow hmap hdir).runs hproper hrun
  obtain ⟨own', m', hstepped⟩ := stepped hsound hcall hstep
  obtain ⟨objs', hsound'⟩ := hstepped.sound
  exact hstepped.kept x c c' hx (hsound'.own_stored hx') hc hc' i hi (hsound'.own_stored hi')

/-- The entry of the new file is kept by the second call. -/
theorem entries_kept_formatted : ∃ s1 s2 c i, formatted.fileStepBy (0, .named (.create [97])) = some s1 ∧
    s1.fileStepBy (0, .named (.open [97])) = some s2 ∧ Used (content s2.world.disk c) i ∧
    SameEntry (content s2.world.disk c) (content s1.world.disk c) i := by
  obtain ⟨s1, s2, hcreate, hopen, hhandles⟩ := formatted_created
  have hrun : runs fileStepBy formatted [(0, .named (.create [97]))] = some s1 :=
    runs_cons_eq_some.mpr ⟨s1, hcreate, rfl⟩
  have hproper : AllSteps fileStepBy Proper formatted [(0, .named (.create [97]))] :=
    ⟨proper_create, fun _ _ => trivial⟩
  obtain ⟨own, m, objs, hsound⟩ := (formatted_started.soundNow zeroed_zeros zeroed_zeros).runs hproper hrun
  obtain ⟨s, c, hcur⟩ := hsound.current
  obtain ⟨made, w1, hmake, rfl⟩ := call_eq_some hcreate
  obtain ⟨⟨opened, w2⟩, hopened, hret⟩ := Option.bind_eq_some_iff.mp hopen
  cases hret
  rcases hsound.toInOrder.openFile hcur hopened with ⟨rfl, -⟩ | ⟨f, rfl, hfile⟩
  · cases hhandles
  · obtain ⟨i, hi, -, -⟩ := hfile.entry
    have hdir : IsDirectory w2.disk (Roots w2 fun _ => False) s :=
      IsDirectory.root (Or.inr (Or.inl hfile.current.object))
    have hi2 : Used (content w2.disk c) i := by
      rw [hfile.disk_eq]
      exact hi
    have hstored : Stored w2 (entrySector (content w1.disk c) i) := by
      rw [← hfile.disk_eq]
      exact Stored.entry hdir hfile.current.chain hi2
    obtain ⟨hused, hsame⟩ := entries_kept zeroed_zeros zeroed_zeros formatted_started hproper hrun (proper_open _) hopen
      (hsound.currentDirectory hcur) (Stored.directory hdir) hcur.chain hfile.current.chain hi hstored
    exact ⟨_, _, c, i, hcreate, hopen, hused, hsame⟩

/-- As long as no call takes sectors in vain or frees a directory that has entries, the free map marks the sectors of
the files that can be reached from the root, and no others. -/
theorem freeMap_exact (hmap : Zeroed (heap .header 0)) (hdir : Zeroed (heap .header 1)) (hstart : Started disk heap s)
    (hproper : AllSteps fileStepBy (fun s call => s.Proper call ∧ LosesNothing call.1 s call.2) s calls)
    (hrun : runs fileStepBy s calls = some s') : FreeMapExact s'.world.disk := by
  have hinv : ∃ own m objs, Sound s'.world own m (fun _ => False) objs s'.handles ∧ Covered s'.world own m := by
    refine runs_inv (I := fun t => ∃ own m objs, Sound t.world own m (fun _ => False) objs t.handles ∧
      Covered t.world own m) (fun t call t' hI hP hstep => ?_) ?_ hproper hrun
    · obtain ⟨own, m, objs, hsound, hcovered⟩ := hI
      obtain ⟨own', m', hstepped⟩ := stepped hsound hP.1 hstep
      obtain ⟨objs', hsound'⟩ := hstepped.sound
      exact ⟨own', m', objs', hsound', hcovered.step hstepped hP.2 hsound'⟩
    · obtain ⟨m, hsound⟩ := sound_format hmap hdir hstart.formatted
      refine ⟨freshOwner, m, [], ?_, covered_format hmap hdir hstart.formatted hsound⟩
      rw [hstart.handles_eq]
      exact hsound
  obtain ⟨own, m, objs, hsound, hcovered⟩ := hinv
  exact hsound.freeMapExact hcovered

/-- Both calls. -/
theorem freeMap_exact_formatted : ∃ s, runs fileStepBy formatted [(0, .named (.create [97])), (0, .named (.open [97]))] =
    some s ∧ FreeMapExact s.world.disk := by
  obtain ⟨s1, s2, hcreate, hopen, -⟩ := formatted_created
  have hrun : runs fileStepBy formatted [(0, .named (.create [97])), (0, .named (.open [97]))] = some s2 :=
    runs_cons_eq_some.mpr ⟨s1, hcreate, runs_cons_eq_some.mpr ⟨s2, hopen, rfl⟩⟩
  have hproper : AllSteps fileStepBy (fun s call => s.Proper call ∧ LosesNothing call.1 s call.2) formatted
      [(0, .named (.create [97])), (0, .named (.open [97]))] :=
    ⟨⟨proper_create, trivial⟩, fun s _ => ⟨⟨proper_open s, trivial⟩, fun _ _ => trivial⟩⟩
  exact ⟨s2, hrun, freeMap_exact zeroed_zeros zeroed_zeros formatted_started hproper hrun⟩

end Session

end Nachos.Filesys
