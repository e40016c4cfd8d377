import Nachos.Filesys.Proofs.AppendProofs

/-!
# Proofs: the call of `Write`

The phases of `Write` put together, with its locks: what a call does to the disk, to the content of the
file and to the free map, and how many sectors it takes.
-/

namespace Nachos.Filesys

open Foundations Resumption

/-! ## Room -/

/-- The bytes that a `Write` of `n` bytes at position `seek` puts under the current header. -/
def bytesHere (seek n : Nat) : Nat := min n (maxHeaderBytes - seek)

/-- The sectors that a `Write` of `n` bytes at position `seek` under the header at `x` takes for the
headers that exist, where `post` are those behind `x`. -/
def needOld (d : Disk) (x : Nat) (post : List Nat) (seek n : Nat) : Nat :=
  needHere (hdrAt d x) seek (bytesHere seek n) +
    needNext (post.map (hdrAt d)) (n - bytesHere seek n)

/-- The bytes that are left for new headers. -/
def bytesNew (post : List Nat) (seek n : Nat) : Nat :=
  n - bytesHere seek n - post.length * maxHeaderBytes

/-- The sectors that the whole `Write` takes. -/
def needWrite (d : Disk) (x : Nat) (post : List Nat) (seek n : Nat) : Nat :=
  needOld d x post seek n + needAppend (bytesNew post seek n)

/-- With `clear` free sectors the `Write` reserves no sector that it does not use. -/
def WriteFits (d : Disk) (x : Nat) (post : List Nat) (seek n clear : Nat) : Prop :=
  clear < needOld d x post seek n ∨ bytesNew post seek n = 0 ∨
    AppendFits (bytesNew post seek n) (clear - needOld d x post seek n)

/-- Where there is room for everything, nothing is reserved in vain. -/
theorem appendFits_of_room {n clear : Nat} (hn : 0 < n) (h : needAppend n ≤ clear) :
    AppendFits n clear := by
  obtain ⟨hpos, -, hlt⟩ := headerCount_bounds hn
  have hmono := divRoundUp_mono (Nat.min_le_left n maxHeaderBytes)
  have hlow := le_divRoundUp_mul n
  unfold needAppend at h
  unfold AppendFits
  generalize divRoundUp n sectorSize = t at *
  generalize divRoundUp t numDirect = k at *
  right
  refine ⟨by omega, ?_⟩
  have hmax : maxHeaderBytes = numDirect * sectorSize := rfl
  rw [hmax, ← Nat.mul_assoc] at hlt
  have := Nat.lt_of_mul_lt_mul_right (Nat.lt_of_lt_of_le hlt hlow)
  omega

theorem writeFits_of_room {d : Disk} {x : Nat} {post : List Nat} {seek n clear : Nat}
    (h : needWrite d x post seek n ≤ clear) : WriteFits d x post seek n clear := by
  unfold needWrite at h
  by_cases hz : bytesNew post seek n = 0
  · exact Or.inr (Or.inl hz)
  · exact Or.inr (Or.inr (appendFits_of_room (Nat.pos_of_ne_zero hz) (by omega)))

/-! ## The body -/

/-- What is known after a `Write` of `data` on the file `s`, at position `seek` under the header at
`x`, has written `r` bytes. -/
structure Written (f : FileId) (s : Nat) (file : OpenFile) (pre : List Nat) (x : Nat)
    (post : List Nat) (seek : Nat) (data : List UInt8) (w : World) (own : Nat → Option Nat)
    (m : Bitmap) (c' : List Nat) (file' : OpenFile) (w' : World) (own' : Nat → Option Nat)
    (m' : Bitmap) (r : Nat) : Prop where
  inv : WriteInv w' own' m' f s c'
  step : WStep f s w own m w' own' m'
  isPrefix : pre ++ x :: post <+: c'
  le : r ≤ data.length
  file_eq : w'.files f = some file'
  sector_eq : file'.sector = file.sector
  handle : HandleIn c' file'
  move : Full w.disk (pre ++ x :: post) → ∀ A B, Cursor w.disk pre x post seek A B →
    Full w'.disk c' ∧ ∃ pre' post', c' = pre' ++ file'.currentSector :: post' ∧
      Cursor w'.disk pre' file'.currentSector post' file'.seekPosition (A ++ data.take r) (B.drop r)
  fresh : needOld w.disk x post seek data.length ≤ m.countClear →
    file'.hdr = hdrAt w'.disk file'.currentSector
  last_pos : c' ≠ pre ++ x :: post →
    ∃ pre' last, c' = pre' ++ [last] ∧ 0 < (hdrAt w'.disk last).numBytes
  room : needWrite w.disk x post seek data.length ≤ m.countClear → r = data.length
  reach : needOld w.disk x post seek data.length ≤ m.countClear →
    data.length - bytesNew post seek data.length ≤ r
  tight : WriteFits w.disk x post seek data.length m.countClear → Tight s m m' own'

section Body

variable {w : World} {own : Nat → Option Nat} {m : Bitmap} {f : FileId} {s : Nat} {file : OpenFile}
  {pre : List Nat} {x : Nat} {post : List Nat} {seek : Nat} {data : List UInt8}

/-- A handle whose header in memory is one of the file. -/
theorem handleIn_at {d : Disk} {c : List Nat} {y : Nat} (h : FileOk d own s c) (hy : y ∈ c)
    (hseek : seek ≤ maxHeaderBytes) : HandleIn c (file.at (hdrAt d y) y seek) :=
  ⟨hy, hseek, (h.ok y hy).numBytes_le, next_mem_of_chain h hy⟩

/-- The bytes under the current header fit and are not more than there are. -/
theorem bytesHere_le (seek n : Nat) : bytesHere seek n ≤ n ∧ bytesHere seek n ≤ maxHeaderBytes - seek := by
  unfold bytesHere
  omega

/-- There was no room under the current header. -/
theorem Written.stuck {file' : OpenFile} (h : WriteInv w own m f s (pre ++ x :: post))
    (hseek : seek ≤ maxHeaderBytes)
    (hstale : Stale (file.at (hdrAt w.disk x) x seek) file')
    (hshort : m.countClear < needHere (hdrAt w.disk x) seek (bytesHere seek data.length)) :
    Written f s file pre x post seek data w own m (pre ++ x :: post) file'
      { w with files := Function.update w.files f (some file') } own m 0 := by
  have hx : x ∈ pre ++ x :: post := by simp
  have hcur : file'.currentSector = x := by rw [hstale.rest_eq]; rfl
  have hsk : file'.seekPosition = seek := by rw [hstale.rest_eq]; rfl
  refine ⟨h.setFile file', ?_, List.prefix_rfl, Nat.zero_le _, Function.update_self .., ?_, ?_, ?_,
    ?_, fun hne => absurd rfl hne, ?_, ?_, fun _ => Tight.refl s m own⟩
  · exact WStep.setFile f s w own m _
  · rw [hstale.rest_eq]
    rfl
  · refine ⟨by rw [hcur]; exact hx, by rw [hsk]; exact hseek, hstale.numBytes_le, ?_⟩
    rw [hstale.next_eq]
    exact next_mem_of_chain h.file hx
  · intro hfull A B hc
    refine ⟨hfull, pre, post, by rw [hcur], ?_⟩
    rw [hcur, hsk, List.take_zero, List.append_nil, List.drop_zero]
    exact hc
  · intro hold
    unfold needOld at hold
    omega
  · intro hroom
    unfold needWrite needOld at hroom
    omega
  · intro hreach
    unfold needOld at hreach
    omega

/-- What is known after the current header and the headers behind it were written, with `n` bytes
under the current one and `r` bytes behind it. -/
theorem Written.old {w1 w2 : World} {own1 own2 : Nat → Option Nat} {m1 m2 : Bitmap} {r : Nat}
    {st st2 : Writing} {pre' post' : List Nat} {x' seek' : Nat}
    (h : WriteInv w own m f s (pre ++ x :: post)) (hseek : seek ≤ maxHeaderBytes)
    (hhere : Here f s (pre ++ x :: post) x seek (data.take (bytesHere seek data.length)) w own m w1
      own1 m1)
    (hst : st.data = data.drop (bytesHere seek data.length))
    (hmoved : Moved f s (pre ++ x :: post) w1 own1 m1 st (pre ++ x :: post) w2 own2 m2 st2 r)
    (hmove : CursorMove (pre ++ x :: post) w1.disk pre x post
      (seek + bytesHere seek data.length) st.data r (pre ++ x :: post) w2.disk pre' x' post' seek') :
    bytesHere seek data.length + r ≤ data.length ∧
    (Full w.disk (pre ++ x :: post) → ∀ A B, Cursor w.disk pre x post seek A B →
      Full w2.disk (pre ++ x :: post) ∧
      Cursor w2.disk pre' x' post' seek' (A ++ data.take (bytesHere seek data.length + r))
        (B.drop (bytesHere seek data.length + r)) ∧
      (st2.data ≠ [] → seek' = (hdrAt w2.disk x').numBytes ∧
        (post' ≠ [] ∨ seek' = maxHeaderBytes))) := by
  have hx : x ∈ pre ++ x :: post := by simp
  obtain ⟨hnle, hnfit⟩ := bytesHere_le seek data.length
  have hdef : bytesHere seek data.length = min data.length (maxHeaderBytes - seek) := rfl
  generalize bytesHere seek data.length = n at *
  have hlen : (data.take n).length = n := by rw [List.length_take]; omega
  have hrle := hmoved.le
  rw [hst, List.length_drop] at hrle
  refine ⟨by omega, ?_⟩
  intro hfull A B hcur
  -- a header that is extended is the last one, as the others are full
  have hext : seek + (data.take n).length ≤ (hdrAt w.disk x).numBytes ∨ post = [] := by
    by_cases hp : post = []
    · exact Or.inr hp
    · left
      rw [hlen, hfull pre x post rfl hp]
      omega
  have hcur1 := hhere.cursor h rfl hext hcur
  have hfull1 := hhere.full hfull (by omega) (Or.inr hcur.le)
  rw [hlen] at hcur1
  obtain ⟨hfull2, hcur2, hend⟩ := hmove.2 hfull1 _ _ hcur1 (by
    intro hrest
    have hlt : n < data.length := by
      by_contra hge
      exact hrest (by rw [hst, List.drop_eq_nil_of_le (by omega)])
    have hnmax : seek + n = maxHeaderBytes := by omega
    have hnb := (hhere.inv.file.ok x hx).numBytes_le
    have hle := hcur1.le
    exact ⟨by omega, Or.inr hnmax⟩)
  refine ⟨hfull2, ?_, ?_⟩
  · rw [List.append_assoc, hst, ← List.take_add, List.drop_drop] at hcur2
    exact hcur2
  · intro hrest
    rw [hmoved.data_eq] at hrest
    exact hend hrest

/-- `Write` once the free map is fetched and the header to go on at is in memory. -/
theorem run_writeBody (data : List UInt8) (h : WriteInv w own m f s (pre ++ x :: post))
    (hf : w.files f = some (file.at (hdrAt w.disk x) x seek)) (hseek : seek ≤ maxHeaderBytes) :
    ∃ st' w' own' m' c' file' r,
      (writeBody f (bytesHere seek data.length) { freeMap := m, data := data, result := 0 }).run w =
        some (st', w') ∧ st'.result = r ∧
      Written f s file pre x post seek data w own m c' file' w' own' m' r := by
  have hx : x ∈ pre ++ x :: post := by simp
  have hbl := bytesHere_le seek data.length
  generalize hst0 : ({ freeMap := m, data := data, result := 0 } : Writing) = st0
  have hdata0 : st0.data = data := by rw [← hst0]
  have hle0 : bytesHere seek data.length ≤ st0.data.length := by
    rw [hdata0]
    exact hbl.1
  rcases run_writeCurrent h hf hx rfl (show st0.freeMap = m by rw [← hst0]) hle0
    (show seek + _ ≤ _ by omega) with ⟨hshort, file', hstale, hrun⟩ | ⟨w1, own1, m1, hrun1, hhere, hf1⟩
  · refine ⟨st0, _, own, m, _, file', 0, ?_, by rw [← hst0], Written.stuck h hseek hstale hshort⟩
    rw [writeBody, run_bind, hrun, Option.bind_some]
    rfl
  rw [hdata0] at hhere hrun1
  have hlen : (data.take (bytesHere seek data.length)).length = bytesHere seek data.length := by
    rw [List.length_take]
    omega
  have hclear1 : m1.countClear + needHere (hdrAt w.disk x) seek (bytesHere seek data.length) =
      m.countClear := by
    have := hhere.clear
    rw [hlen] at this
    exact this
  have hmap : post.map (hdrAt w1.disk) = post.map (hdrAt w.disk) := by
    apply List.map_congr_left
    intro z hz
    have hnd := h.file.nodup_headers
    have hnd2 := (List.nodup_append.mp hnd).2.1
    have hzx : z ≠ x := fun e => (List.nodup_cons.mp hnd2).1 (e ▸ hz)
    exact (hhere.others z (by simp [hz]) hzx).1
  obtain ⟨ok, st2, w2, own2, m2, r, pre', x', post', seek', hrun2, hmoved, htight, hmove, hfalse,
    htrue⟩ := run_writeNext post hhere.inv rfl hf1 (show seek + _ ≤ _ by omega)
      (show ({ freeMap := m1, data := data.drop (bytesHere seek data.length),
               result := st0.result + bytesHere seek data.length } : Writing).freeMap = m1 from rfl)
      (show _ < (data.drop (bytesHere seek data.length)).length + 1 from Nat.lt_succ_self _)
  obtain ⟨hrle, hmove2⟩ := Written.old h hseek hhere rfl hmoved hmove
  have hstep2 := hhere.step.trans hmoved.step
  have htight2 := Tight.trans hhere.tight htight hmoved.step.grown
  have hres : st2.result = bytesHere seek data.length + r := by
    rw [hmoved.result_eq]
    show st0.result + _ + r = _
    rw [← hst0, Nat.zero_add]
  rw [hmap] at hfalse htrue
  simp only [List.length_drop] at hfalse htrue
  have hbody : (writeBody f (bytesHere seek data.length) st0).run w =
      (if ok = true ∧ st2.data ≠ [] then writeAppend f st2 else pure st2).run w2 := by
    rw [writeBody, run_bind, hrun1, Option.bind_some]
    simp only [if_true]
    rw [run_bind, run_getFile hf1, Option.bind_some, run_bind]
    refine (congrArg (fun o => Option.bind o _) hrun2).trans ?_
    rfl
  cases ok with
  | false =>
    obtain ⟨hshort, file', hf2, hsec, hhandle, hcur, hsk⟩ := hfalse rfl
    refine ⟨st2, w2, own2, m2, _, file', bytesHere seek data.length + r, ?_, hres, hmoved.inv, hstep2,
      hmoved.pre, hrle, hf2, hsec, hhandle, ?_, ?_, fun hne => absurd rfl hne, ?_, ?_,
      fun _ => htight2⟩
    · rw [hbody, if_neg (by simp)]
      rfl
    · intro hfull A B hc
      obtain ⟨hfull2, hc2, -⟩ := hmove2 hfull A B hc
      refine ⟨hfull2, pre', post', ?_, ?_⟩
      · rw [hcur]
        exact hmove.1
      · rw [hcur, hsk]
        exact hc2
    · intro hold
      unfold needOld at hold
      omega
    · intro hroom
      unfold needWrite needOld at hroom
      omega
    · intro hreach
      unfold needOld at hreach
      omega
  | true =>
    obtain ⟨hclear2, hr, hf2, hseek2, hlast⟩ := htrue rfl
    have hold : m2.countClear + needOld w.disk x post seek data.length = m.countClear := by
      unfold needOld
      omega
    have hx' : x' ∈ pre ++ x :: post := by rw [hmove.1]; simp
    have hdl : st2.data.length = bytesNew post seek data.length := by
      rw [hmoved.data_eq, hr]
      simp only [List.length_drop]
      unfold bytesNew
      omega
    by_cases hdata : st2.data = []
    · have hz : bytesNew post seek data.length = 0 := by rw [← hdl, hdata, List.length_nil]
      have hall : bytesHere seek data.length + r = data.length := by
        unfold bytesNew at hz
        omega
      refine ⟨st2, w2, own2, m2, _, _, bytesHere seek data.length + r, ?_, hres, hmoved.inv, hstep2,
        hmoved.pre, hrle, hf2, rfl, handleIn_at hmoved.inv.file hx' hseek2, ?_, fun _ => rfl,
        fun hne => absurd rfl hne, fun _ => hall, fun _ => by omega, fun _ => htight2⟩
      · rw [hbody, if_neg (by simp [hdata])]
        rfl
      · intro hfull A B hc
        obtain ⟨hfull2, hc2, -⟩ := hmove2 hfull A B hc
        exact ⟨hfull2, pre', post', hmove.1, hc2⟩
    · have hpost' := hlast hdata
      subst hpost'
      obtain ⟨st3, w3, own3, m3, c3, r3, pre3, x3, seek3, hrun3, happ⟩ :=
        run_writeAppend hmoved.inv hmove.1 hf2 hseek2 hmoved.map_eq hdata
      have hmoved3 := happ.moved
      have hr3 := hmoved3.le
      have hall : bytesHere seek data.length + r = data.length - bytesNew post seek data.length ∧
          bytesNew post seek data.length ≤ data.length := by
        unfold bytesNew at hdl ⊢
        rw [hmoved.data_eq] at hdl
        simp only [List.length_drop] at hdl
        omega
      have hx3 : x3 ∈ c3 := by rw [happ.chain_eq]; simp
      refine ⟨st3, w3, own3, m3, c3, _, bytesHere seek data.length + r + r3, ?_, ?_, hmoved3.inv,
        hstep2.trans hmoved3.step, hmoved3.pre, by omega, happ.file_eq, rfl,
        handleIn_at hmoved3.inv.file hx3 happ.seek_le, ?_, fun _ => rfl,
        fun hne => ⟨pre3, x3, happ.chain_eq, happ.last_pos hne⟩, ?_, ?_, ?_⟩
      · rw [hbody, if_pos ⟨rfl, hdata⟩, hrun3]
      · rw [hmoved3.result_eq, hres]
      · intro hfull A B hc
        obtain ⟨hfull2, hc2, hend⟩ := hmove2 hfull A B hc
        obtain ⟨hend1, hend2⟩ := hend hdata
        obtain ⟨hfull3, hc3⟩ := happ.move hfull2 _ _ hc2 hend1 (hend2.resolve_left fun hne => hne rfl)
        refine ⟨hfull3, pre3, [], happ.chain_eq, ?_⟩
        have htake : data.take (bytesHere seek data.length + r + r3) =
            data.take (bytesHere seek data.length + r) ++ st2.data.take r3 := by
          rw [List.take_add, hmoved.data_eq]
          simp only [List.drop_drop]
        rw [List.append_assoc, List.drop_drop, ← htake] at hc3
        exact hc3
      · intro hroom
        have hnil := happ.room (by
          unfold needWrite at hroom
          rw [hdl]
          omega)
        have := congrArg List.length hnil
        rw [hmoved3.data_eq, List.length_drop, List.length_nil] at this
        omega
      · intro _
        omega
      · intro hfits
        refine Tight.trans htight2 (happ.tight ?_) hmoved3.step.grown
        rw [hdl]
        rcases hfits with hlt | hz | hfits
        · omega
        · rw [← hdl] at hz
          exact absurd (List.eq_nil_of_length_eq_zero hz) hdata
        · rw [← hold, Nat.add_sub_cancel] at hfits
          exact hfits

end Body

/-! ## Locks -/

section Locks

variable {w w' : World} {me : Tid} {l : LockId} {lo : Option LockId}

/-- The world with other locks. -/
def World.setLocks (w : World) (locks : Nat → Option Lock) : World := { w with locks := locks }

theorem run_acquire (h : w.locks l = some { lockOwner := none }) :
    (acquire me (some l)).run w =
      some ((), w.setLocks (Function.update w.locks l (some { lockOwner := some me }))) := by
  simp [acquire, ofOption, run, h, run_assert, run_awaitUntil, lockFree, World.setLocks]

theorem run_release (h : w.locks l = some { lockOwner := some me }) :
    (release me (some l)).run w =
      some ((), w.setLocks (Function.update w.locks l (some { lockOwner := none }))) := by
  simp [release, ofOption, run, h, run_assert, World.setLocks]

/-- A thread alone gets a lock only if it is free. -/
theorem acquire_inv {u : Unit} (h : (acquire me lo).run w = some (u, w')) :
    ∃ l, lo = some l ∧ w.locks l = some { lockOwner := none } ∧
      w' = w.setLocks (Function.update w.locks l (some { lockOwner := some me })) := by
  cases lo with
  | none => simp [acquire, ofOption] at h
  | some l =>
    refine ⟨l, rfl, ?_⟩
    have hfree : w.locks l = some { lockOwner := none } := by
      cases hl : w.locks l with
      | none => simp [acquire, ofOption, run, hl] at h
      | some lock =>
        by_contra hne
        have hf : lockFree l w = false := by simpa [lockFree, hl] using hne
        by_cases hown : lock.lockOwner = some me
        · simp [acquire, ofOption, run, hl, run_assert, hown] at h
        · simp [acquire, ofOption, run, hl, run_assert, run_awaitUntil, hown, hf] at h
    rw [run_acquire hfree] at h
    cases h
    exact ⟨hfree, rfl⟩

/-- A thread that releases a lock changes nothing else. -/
theorem release_inv {u : Unit} (h : (release me lo).run w = some (u, w')) :
    ∃ locks, w' = w.setLocks locks := by
  cases lo with
  | none => simp [release, ofOption] at h
  | some l =>
    cases hl : w.locks l with
    | none => simp [release, ofOption, run, hl] at h
    | some lock =>
      by_cases hown : lock.lockOwner = some me
      · simp only [release, ofOption, run_bind, run, hl, Option.bind_some, run_getState, run_assert, hown,
          beq_self_eq_true, if_true, run_modifyState] at h
        cases h
        exact ⟨_, rfl⟩
      · simp [release, ofOption, run, hl, run_assert, hown] at h

end Locks

/-! ## The call -/

section Call

variable {w : World} {own : Nat → Option Nat} {m : Bitmap} {f : FileId} {s : Nat} {file : OpenFile}
  {pre : List Nat} {x : Nat} {post : List Nat} {seek : Nat} {data : List UInt8} {l : LockId}

/-- The object where a `Write` starts. -/
def rewound (file : OpenFile) (isDirectory : Bool) : OpenFile :=
  if isDirectory then { file with seekPosition := 0, currentSector := file.sector } else file

theorem run_rewindWrite (hf : w.files f = some file) (isDirectory : Bool) :
    (rewindWrite f isDirectory).run w =
      some ((), { w with files := Function.update w.files f (some (rewound file isDirectory)) }) := by
  cases isDirectory with
  | true => exact run_modifyFile hf _
  | false =>
    have hself : Function.update w.files f (some file) = w.files := by
      rw [← hf]
      exact Function.update_eq_self f w.files
    show some ((), w) = _
    simp only [rewound, Bool.false_eq_true, if_false, hself]

/-- The invariant does not speak of locks. -/
theorem WriteInv.setLocks {c : List Nat} (h : WriteInv w own m f s c) (locks : Nat → Option Lock) :
    WriteInv (w.setLocks locks) own m f s c :=
  ⟨h.layout, h.marked, h.mapIs, h.mapFile, h.ne_map, h.start_ne, h.file⟩

/-- What a `Write` did between the acquisition and the release of its lock, seen from outside. -/
theorem Written.unlock {c' : List Nat} {file' file0 file1 : OpenFile} {w2 : World}
    {own' : Nat → Option Nat} {m' : Bitmap} {r : Nat} {locks : Nat → Option Lock}
    (hsec : file0.sector = file.sector) (h : Written f s file0 pre x post seek data
      { w.setLocks locks with files := Function.update w.files f (some file1) } own m c' file' w2
      own' m' r) :
    Written f s file pre x post seek data w own m c' file' (w2.setLocks w.locks) own' m' r where
  inv := h.inv.setLocks w.locks
  step := by
    have hw := h.step.world
    refine ⟨⟨hw.table_eq, ?_, hw.nextFile_eq, rfl, hw.nextLock_eq, hw.freeMapFile_eq,
      hw.directoryFile_eq, hw.directorySize_eq, hw.removeChannel_eq, hw.slot_eq⟩, h.step.grown,
      h.step.disk, h.step.marks, h.step.headers⟩
    intro g hg
    exact (hw.files_eq g hg).trans (Function.update_of_ne hg _ _)
  isPrefix := h.isPrefix
  le := h.le
  file_eq := h.file_eq
  sector_eq := h.sector_eq.trans hsec
  handle := h.handle
  move := h.move
  fresh := h.fresh
  last_pos := h.last_pos
  room := h.room
  reach := h.reach
  tight := h.tight

/-- `Write` on an open file whose write lock is free, from its body on: the body runs with the lock taken and the
header at `x` in memory. -/
theorem run_write_of_body {me : Tid} {isDirectory : Bool} {locks : Nat → Option Lock} {file1 : OpenFile}
    {st' : Writing} {w2 : World} (h : WriteInv w own m f s (pre ++ x :: post)) (hf : w.files f = some file)
    (hx : (rewound file isDirectory).currentSector = x) (hsk : (rewound file isDirectory).seekPosition = seek)
    (hseek : seek ≤ maxHeaderBytes) (hsec : file.sector < numSectors)
    (hlock : (w.table file.sector).writeLock = some l) (hfree : w.locks l = some { lockOwner := none })
    (hdata : data ≠ []) (hlocks : locks = Function.update w.locks l (some { lockOwner := some me }))
    (hfile1 : file1 = (rewound file isDirectory).at (hdrAt w.disk x) x seek)
    (hrun : (writeBody f (bytesHere seek data.length) { freeMap := m, data := data, result := 0 }).run
      { w.setLocks locks with files := Function.update w.files f (some file1) } = some (st', w2))
    (hlocks2 : w2.locks = locks) (htable2 : w2.table = w.table) :
    (write me f data isDirectory).run w = some (st'.result, w2.setLocks w.locks) := by
  have hxc : x ∈ pre ++ x :: post := by simp
  have hdl : 0 < data.length := List.length_pos_iff.mpr hdata
  have hsec' : (rewound file isDirectory).sector = file.sector := by
    unfold rewound
    split <;> rfl
  have hbytes : min data.length (u32 (maxHeaderBytes + 2 ^ 32 - seek)) = bytesHere seek data.length := by
    have hmax : maxHeaderBytes = 3712 := rfl
    unfold u32 bytesHere
    omega
  have hheld : w2.locks l = some { lockOwner := some me } := by
    rw [hlocks2, hlocks]
    exact Function.update_self ..
  have hrestore : Function.update w2.locks l (some { lockOwner := none }) = w.locks := by
    rw [hlocks2, hlocks, Function.update_idem, ← hfree, Function.update_eq_self]
  have hmap : MapFileOk { w.setLocks locks with
      files := Function.update w.files f (some file1) } := ((h.setLocks locks).setFile file1).mapFile
  have hfetch : (fetchHdr f x).run { w.setLocks locks with
      files := Function.update w.files f (some (rewound file isDirectory)) } =
      some ((), { w.setLocks locks with files := Function.update w.files f (some file1) }) := by
    rw [run_fetchHdr (h.header_lt hxc) (Function.update_self ..)]
    simp only [Function.update_idem, World.setLocks]
    rw [hfile1, OpenFile.at, ← hx, ← hsk]
  have hget : ∀ o : OpenFile, (getFile f).run { w.setLocks locks with
      files := Function.update w.files f (some o) } = some (o, { w.setLocks locks with
      files := Function.update w.files f (some o) }) :=
    fun o => run_getFile (Function.update_self ..)
  simp only [write, run_bind, run_assert, decide_eq_true hdl, if_true, Option.bind_some,
    run_getFile hf, run_getEntry hsec, hlock, run_acquire hfree, ← hlocks]
  rw [run_rewindWrite (w := w.setLocks locks) hf]
  simp only [Option.bind_some]
  rw [show (w.setLocks locks).files = w.files from rfl, hget]
  simp only [Option.bind_some]
  rw [hx, hfetch]
  simp only [Option.bind_some]
  rw [hget]
  simp only [Option.bind_some]
  rw [run_fetchFreeMap hmap h.mapIs]
  simp only [Option.bind_some]
  rw [hfile1] at hrun ⊢
  simp only [OpenFile.at, hbytes] at hrun ⊢
  rw [hrun]
  simp only [Option.bind_some]
  rw [hsec', run_getEntry hsec]
  simp only [Option.bind_some]
  rw [htable2, hlock, run_release hheld, hrestore]
  simp only [Option.bind_some, run_pure]

/-- `Write` on an open file whose write lock is free. -/
theorem run_write (me : Tid) (isDirectory : Bool) (h : WriteInv w own m f s (pre ++ x :: post))
    (hf : w.files f = some file) (hx : (rewound file isDirectory).currentSector = x)
    (hsk : (rewound file isDirectory).seekPosition = seek) (hseek : seek ≤ maxHeaderBytes)
    (hsec : file.sector < numSectors) (hlock : (w.table file.sector).writeLock = some l)
    (hfree : w.locks l = some { lockOwner := none }) (hdata : data ≠ []) :
    ∃ w' own' m' c' file' r, (write me f data isDirectory).run w = some (r, w') ∧
      Written f s file pre x post seek data w own m c' file' w' own' m' r := by
  have hsec' : (rewound file isDirectory).sector = file.sector := by
    unfold rewound
    split <;> rfl
  generalize hlocks : Function.update w.locks l (some { lockOwner := some me }) = locks
  generalize hfile1 : (rewound file isDirectory).at (hdrAt w.disk x) x seek = file1
  obtain ⟨st', w2, own', m', c', file', r, hrun, hres, hw⟩ := run_writeBody data
    ((h.setLocks locks).setFile file1)
    (show _ = some ((rewound file isDirectory).at (hdrAt w.disk x) x seek) by
      rw [hfile1]; exact Function.update_self ..) hseek
  refine ⟨w2.setLocks w.locks, own', m', c', file', r, ?_, hw.unlock hsec'⟩
  rw [run_write_of_body h hf hx hsk hseek hsec hlock hfree hdata hlocks.symm hfile1.symm hrun
    hw.step.world.locks_eq hw.step.world.table_eq, hres]

end Call

end Nachos.Filesys
