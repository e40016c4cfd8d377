import Mathlib.Data.List.Perm.Subperm
import Nachos.Filesys.Proofs.AppendProofs

/-!
# Proofs: opening and reading

What a fresh `OpenFile` is, and what `Read` does: from a position that splits the content into what is
before and what is behind it, it answers the beginning of what is behind, and moves on by as much.
-/

namespace Nachos.Filesys

open Foundations Resumption

/-! ## Opening -/

section Open

variable {w w' : World} {s : Nat}

/-- Locks were made, and nothing else has happened. -/
structure NewLocks (w w' : World) : Prop where
  eq_with : ∃ locks nextLock, w' = { w with locks := locks, nextLock := nextLock }
  nextLock_le : w.nextLock ≤ w'.nextLock
  locks_eq : ∀ l, l < w.nextLock → w'.locks l = w.locks l

theorem NewLocks.refl (w : World) : NewLocks w w :=
  ⟨⟨w.locks, w.nextLock, rfl⟩, Nat.le_refl _, fun _ _ => rfl⟩

theorem NewLocks.trans {w'' : World} (h : NewLocks w w') (h' : NewLocks w' w'') : NewLocks w w'' where
  eq_with := by
    obtain ⟨_, _, rfl⟩ := h.eq_with
    obtain ⟨locks, nextLock, rfl⟩ := h'.eq_with
    exact ⟨locks, nextLock, rfl⟩
  nextLock_le := Nat.le_trans h.nextLock_le h'.nextLock_le
  locks_eq := by
    intro l hl
    rw [h'.locks_eq l (Nat.lt_of_lt_of_le hl h.nextLock_le), h.locks_eq l hl]

theorem run_newLock (w : World) : ∃ w', newLock.run w = some (w.nextLock, w') ∧ NewLocks w w' ∧
    w'.locks w.nextLock = some { lockOwner := none } ∧ w.nextLock < w'.nextLock := by
  refine ⟨_, rfl, ⟨⟨_, _, rfl⟩, Nat.le_succ _, ?_⟩, Function.update_self .., Nat.lt_succ_self _⟩
  intro l hl
  exact Function.update_of_ne (Nat.ne_of_lt hl) _ _

theorem run_ensureLock (o : Option LockId) (w : World) :
    ∃ o' w', (ensureLock o).run w = some (o', w') ∧ NewLocks w w' := by
  cases o with
  | some l => exact ⟨some l, w, rfl, NewLocks.refl w⟩
  | none =>
    obtain ⟨w', hrun, hnew, -, -⟩ := run_newLock w
    refine ⟨some w.nextLock, w', ?_, hnew⟩
    rw [ensureLock, run_bind, hrun]
    rfl

/-- What is known after the file of sector `s` was opened. -/
structure OpenedAt (s : Nat) (w w' : World) : Prop where
  disk_eq : w'.disk = w.disk
  files_eq : w'.files = Function.update w.files w.nextFile (some
    { hdr := hdrAt w.disk s, seekPosition := 0, sector := s, currentSector := s })
  nextFile_eq : w'.nextFile = w.nextFile + 1
  freeMapFile_eq : w'.freeMapFile = w.freeMapFile
  directoryFile_eq : w'.directoryFile = w.directoryFile
  directorySize_eq : w'.directorySize = w.directorySize
  heap_eq : w'.heap = w.heap
  table_eq : ∀ x, x ≠ s → w'.table x = w.table x
  count_eq : (w'.table s).count = (w.table s).count + 1
  nextLock_le : w.nextLock ≤ w'.nextLock
  locks_eq : ∀ l, l < w.nextLock → w'.locks l = w.locks l
  lock : ((w.table s).count = 0 ∧
      ∃ l, (w'.table s).writeLock = some l ∧ w'.locks l = some { lockOwner := none }) ∨
    ((w.table s).count ≠ 0 ∧ (w'.table s).writeLock = (w.table s).writeLock ∧ w'.locks = w.locks)

/-- The state after the locks were set up for an entry. -/
structure InitLocks (s : Nat) (w w' : World) : Prop where
  eq_with : ∃ table locks nextLock,
    w' = { w with table := table, locks := locks, nextLock := nextLock }
  table_eq : ∀ x, x ≠ s → w'.table x = w.table x
  count_eq : (w'.table s).count = (w.table s).count
  nextLock_le : w.nextLock ≤ w'.nextLock
  locks_eq : ∀ l, l < w.nextLock → w'.locks l = w.locks l
  lock : ((w.table s).count = 0 ∧
      ∃ l, (w'.table s).writeLock = some l ∧ w'.locks l = some { lockOwner := none }) ∨
    ((w.table s).count ≠ 0 ∧ (w'.table s).writeLock = (w.table s).writeLock ∧ w'.locks = w.locks)

theorem run_initLocks (hs : s < numSectors) (w : World) :
    ∃ w', (initLocks s (w.table s)).run w = some ((), w') ∧ InitLocks s w w' := by
  by_cases hcount : (w.table s).count = 0
  · obtain ⟨w1, hrun1, hnew1, hfree1, hlt1⟩ := run_newLock w
    obtain ⟨o2, w2, hrun2, hnew2⟩ := run_ensureLock (w.table s).removeLock w1
    obtain ⟨o3, w3, hrun3, hnew3⟩ := run_ensureLock (w.table s).closeLock w2
    have hnew := (hnew1.trans hnew2).trans hnew3
    obtain ⟨locks, nextLock, hw3⟩ := hnew.eq_with
    have htable : w3.table = w.table := by rw [hw3]
    have hfree3 : w3.locks w.nextLock = some { lockOwner := none } := by
      rw [(hnew2.trans hnew3).locks_eq _ hlt1, hfree1]
    generalize he : ({ w3.table s with
      writeLock := some w.nextLock, removeLock := o2, closeLock := o3 } : OpenDirEntry) = e
    refine ⟨{ w3 with table := Function.update w3.table s e }, ?_,
      ⟨⟨Function.update w3.table s e, locks, nextLock, by rw [hw3]⟩, ?_, ?_, hnew.nextLock_le,
        hnew.locks_eq, Or.inl ⟨hcount, w.nextLock, ?_, hfree3⟩⟩⟩
    · rw [initLocks, if_pos hcount]
      simp only [run_bind, hrun1, Option.bind_some, hrun2, hrun3, run_modifyEntry hs, he]
    · intro x hx
      rw [← htable]
      exact Function.update_of_ne hx _ _
    · simp only [Function.update_self]
      rw [← he, htable]
    · simp only [Function.update_self]
      rw [← he]
  · refine ⟨w, ?_, ⟨⟨w.table, w.locks, w.nextLock, rfl⟩, fun _ _ => rfl, rfl, Nat.le_refl _,
      fun _ _ => rfl, Or.inr ⟨hcount, rfl, rfl⟩⟩⟩
    rw [initLocks, if_neg hcount]
    rfl

/-- `new OpenFile(s)`. -/
theorem run_newOpenFile (hs : s < numSectors) (w : World) :
    ∃ w', (newOpenFile s).run w = some (w.nextFile, w') ∧ OpenedAt s w w' := by
  obtain ⟨w1, hrun1, h1⟩ := run_initLocks hs w
  obtain ⟨table, locks, nextLock, hw1⟩ := h1.eq_with
  generalize he : ({ w1.table s with count := (w1.table s).count + 1 } : OpenDirEntry) = e
  generalize hfile : ({ hdr := hdrAt w.disk s, seekPosition := 0, sector := s, currentSector := s } :
    OpenFile) = file
  refine ⟨{ w1 with
      table := Function.update w1.table s e
      files := Function.update w.files w.nextFile (some file)
      nextFile := w.nextFile + 1 }, ?_, ?_⟩
  · simp only [newOpenFile, run_bind, run_readSector hs, Option.bind_some, run_getEntry hs, hrun1,
      run_modifyEntry hs, run_getState, run_modifyState, run_pure, he]
    rw [← hfile, hw1]
    rfl
  · refine ⟨by rw [hw1], by rw [← hfile], rfl, by rw [hw1], by rw [hw1], by rw [hw1], by rw [hw1], ?_, ?_,
      h1.nextLock_le, h1.locks_eq, ?_⟩
    · intro x hx
      exact (Function.update_of_ne hx _ _).trans (h1.table_eq x hx)
    · simp only [Function.update_self]
      rw [← he]
      exact congrArg (· + 1) h1.count_eq
    · simp only [Function.update_self]
      rw [← he]
      exact h1.lock

end Open

/-! ## Reading -/

/-- The headers `c` of a file can be followed and read. -/
structure ReadableChain (d : Disk) (c : List Nat) : Prop where
  ok : ∀ x ∈ c, (hdrAt d x).Ok
  lt : ∀ x ∈ c, x < numSectors
  data_lt : ∀ x ∈ c, ∀ y ∈ (hdrAt d x).dataOf, y < numSectors
  next : ∀ pre x post, c = pre ++ x :: post → Follows d (hdrAt d x).nextFileHeader post
  length_le : c.length ≤ numSectors

theorem FileOk.readableChain {d : Disk} {own : Nat → Option Nat} {s : Nat} {c : List Nat}
    (hfile : FileOk d own s c) (hlayout : Layout d own) : ReadableChain d c where
  ok := hfile.ok
  lt := fun x hx => hlayout.lt x s (hfile.own_of_mem hx)
  data_lt := fun _ hx y hy => hlayout.lt y s (hfile.own_of_data hx hy)
  next := fun _ _ _ hc => hfile.chain.next_of_append hc
  length_le := by
    have hsub : c ⊆ List.range numSectors := fun x hx =>
      List.mem_range.mpr (hlayout.lt x s (hfile.own_of_mem hx))
    have := (List.subperm_of_subset hfile.nodup_headers hsub).length_le
    rwa [List.length_range] at this

section Read

variable {d : Disk} {c pre post : List Nat} {x seek cur n : Nat} {A B : List UInt8} {f : FileId}
  {file : OpenFile}

/-- The header `x` of a chain in memory can be read. -/
theorem ReadableChain.readable (h : ReadableChain d c) (hx : x ∈ c) :
    Readable (file.at (hdrAt d x) cur seek) :=
  ⟨h.ok x hx, h.data_lt x hx⟩

/-- The bytes of the header behind the position are the beginning of what is behind the cursor. -/
theorem Cursor.take_back {k : Nat} (h : Cursor d pre x post seek A B) (hok : (hdrAt d x).Ok)
    (hk : seek + k ≤ (hdrAt d x).numBytes) : ((dataBytes d (hdrAt d x)).drop seek).take k = B.take k := by
  have hlen := length_dataBytes (d := d) hok
  rw [← h.back, List.take_append_of_le_length]
  rw [List.length_drop]
  omega

/-- The cursor moves within a header. -/
theorem Cursor.advance {k : Nat} (h : Cursor d pre x post seek A B) (hok : (hdrAt d x).Ok)
    (hk : seek + k ≤ (hdrAt d x).numBytes) :
    Cursor d pre x post (seek + k) (A ++ B.take k) (B.drop k) := by
  have hlen := length_dataBytes (d := d) hok
  refine ⟨?_, ?_, hk⟩
  · rw [← h.front, ← h.take_back hok hk, List.append_assoc, ← List.take_add]
  · rw [← h.back, List.drop_append_of_le_length, List.drop_drop]
    rw [List.length_drop]
    omega

/-- What `ReadAt` answers at the cursor, and where the cursor is then: either everything was read, or
the header has been read to its end. -/
theorem Cursor.readAt (h : Cursor d pre x post seek A B) (hok : (hdrAt d x).Ok) (n : Nat) :
    ∃ k, k ≤ n ∧ ((dataBytes d (hdrAt d x)).drop seek).take n = B.take k ∧
      (((dataBytes d (hdrAt d x)).drop seek).take n).length = k ∧
      Cursor d pre x post (seek + k) (A ++ B.take k) (B.drop k) ∧
      (n - k ≠ 0 → seek + k = (hdrAt d x).numBytes) ∧
      (seek < (hdrAt d x).numBytes → 0 < n → 0 < k) := by
  have hlen := length_dataBytes (d := d) hok
  have hle := h.le
  refine ⟨min n ((hdrAt d x).numBytes - seek), Nat.min_le_left _ _, ?_, ?_,
    h.advance hok (by omega), by omega, by omega⟩
  · rw [← h.take_back hok (by omega), List.take_eq_take_iff, List.length_drop]
    omega
  · rw [List.length_take, List.length_drop]
    omega

theorem run_advanceSeek {w : World} (hf : w.files f = some (file.at (hdrAt d x) cur seek))
    (hlt : seek + n < 2 ^ 32) : (advanceSeek f n).run w = some ((), { w with
      files := Function.update w.files f (some (file.at (hdrAt d x) cur (seek + n))) }) := by
  rw [advanceSeek, run_modifyFile hf]
  simp only [OpenFile.at, u32_of_lt hlt]

/-- Where `Read` has stopped: at a header from the one where it started on. -/
structure ReadTo (d : Disk) (c pre : List Nat) (A B : List UInt8) (n : Nat) (pre' : List Nat) (x' : Nat)
    (post' : List Nat) (seek' : Nat) : Prop where
  chain_eq : c = pre' ++ x' :: post'
  isPrefix : pre <+: pre'
  cursor : Cursor d pre' x' post' seek' (A ++ B.take n) (B.drop n)

/-- The loop of `Read` over the further headers, by induction over them. -/
theorem run_readNext (h : ReadableChain d c) (post : List Nat) :
    ∀ (into : List UInt8) {w : World} {pre : List Nat} {x fuel n seek : Nat} {A B : List UInt8},
      w.disk = d → c = pre ++ x :: post → w.files f = some (file.at (hdrAt d x) cur seek) →
      Cursor d pre x post seek A B → (n ≠ 0 → seek = (hdrAt d x).numBytes) → n < 2 ^ 32 →
      post.length < fuel →
    ∃ pre' x' post' seek',
      (readNext f fuel (hdrAt d x).nextFileHeader n into).run w = some (into ++ B.take n, { w with
        files := Function.update w.files f (some (file.at (hdrAt d x') cur seek')) }) ∧
      ReadTo d c pre A B n pre' x' post' seek' := by
  induction post with
  | nil =>
    intro into w pre x fuel n seek A B hd hc hf hcur hend _ hfuel
    have hnext : (hdrAt d x).nextFileHeader = 0 := h.next pre x [] hc
    have hself : Function.update w.files f (some (file.at (hdrAt d x) cur seek)) = w.files := by
      rw [← hf, Function.update_eq_self]
    have hB : B.take n = [] ∧ B.drop n = B := by
      by_cases hn : n = 0
      · rw [hn]
        exact ⟨rfl, rfl⟩
      · have hok := h.ok x (by rw [hc]; simp)
        rw [(hcur.eq_of_end hok (hend hn)).2]
        exact ⟨List.take_nil, List.drop_nil⟩
    refine ⟨pre, x, [], seek, ?_, hc, List.prefix_rfl, ?_⟩
    · cases fuel with
      | zero => exact absurd hfuel (Nat.not_lt_zero _)
      | succ fuel =>
        rw [readNext, if_neg (by simp [hnext]), hB.1, List.append_nil, hself]
        rfl
    · rw [hB.1, hB.2, List.append_nil]
      exact hcur
  | cons y post ih =>
    intro into w pre x fuel n seek A B hd hc hf hcur hend hn32 hfuel
    cases fuel with
    | zero => exact absurd hfuel (Nat.not_lt_zero _)
    | succ fuel =>
    have hself : Function.update w.files f (some (file.at (hdrAt d x) cur seek)) = w.files := by
      rw [← hf, Function.update_eq_self]
    by_cases hn : n = 0
    · -- nothing is left to read
      refine ⟨pre, x, y :: post, seek, ?_, hc, List.prefix_rfl, ?_⟩
      · rw [readNext, if_neg (by simp [hn]), hn, List.take_zero, List.append_nil, hself]
        rfl
      · rw [hn, List.take_zero, List.drop_zero, List.append_nil]
        exact hcur
    obtain ⟨hne, hy, -⟩ := h.next pre x (y :: post) hc
    have hxc : x ∈ c := by rw [hc]; simp
    have hyc : y ∈ c := by rw [hc]; simp
    have hok := h.ok y hyc
    obtain ⟨k, hkn, hbs, hbl, hcur', hend', -⟩ := (hcur.next (h.ok x hxc) (hend hn)).readAt hok n
    rw [Nat.zero_add] at hcur' hend'
    -- the header of `y` is fetched, and read from its beginning
    generalize hw1 : ({ w with
      files := Function.update w.files f (some (file.at (hdrAt d y) cur 0)) } : World) = w1
    have hf1 : w1.files f = some (file.at (hdrAt d y) cur 0) := by
      rw [← hw1]
      exact Function.update_self ..
    have hd1 : w1.disk = d := by rw [← hw1]; exact hd
    have hset : (modifyFile f fun file => { file with seekPosition := 0 }).run w = some ((), { w with
        files := Function.update w.files f (some (file.at (hdrAt d x) cur 0)) }) :=
      run_modifyFile hf _
    have hfetch : (fetchHdr f y).run { w with
        files := Function.update w.files f (some (file.at (hdrAt d x) cur 0)) } = some ((), w1) := by
      rw [run_fetchHdr (h.lt y hyc) (Function.update_self ..), ← hw1]
      simp only [Function.update_idem, hd]
      rfl
    have hread := run_readAt hf1 (h.readable hyc) n 0 (Nat.pos_of_ne_zero hn) (by omega)
    rw [hd1] at hread
    have hread' : (Filesys.readAt f n 0).run w1 =
        some (((dataBytes d (hdrAt d y)).drop 0).take n, w1) := hread
    have hadv := run_advanceSeek (n := k) hf1 (by omega)
    rw [Nat.zero_add] at hadv
    have hf2 : ({ w1 with files := Function.update w1.files f (some (file.at (hdrAt d y) cur k)) } :
        World).files f = some (file.at (hdrAt d y) cur k) := Function.update_self ..
    obtain ⟨pre', x', post', seek', hrun, hto⟩ := ih (into ++ B.take k) (w := { w1 with
        files := Function.update w1.files f (some (file.at (hdrAt d y) cur k)) }) (n := n - k) hd1
      (show c = (pre ++ [x]) ++ y :: post by rw [hc]; simp) hf2 hcur' hend' (by omega)
      (Nat.lt_of_succ_lt_succ hfuel)
    have htake : B.take n = B.take k ++ (B.drop k).take (n - k) := by
      rw [← List.take_add]
      congr 1
      omega
    have hdrop : B.drop n = (B.drop k).drop (n - k) := by
      rw [List.drop_drop]
      congr 1
      omega
    refine ⟨pre', x', post', seek', ?_, hto.chain_eq, (List.prefix_append pre [x]).trans hto.isPrefix, ?_⟩
    · rw [readNext, if_pos ⟨hne, Nat.pos_of_ne_zero hn⟩, ← hy]
      simp only [run_bind, hset, Option.bind_some, hfetch]
      rw [run_getFile hf1]
      simp only [Option.bind_some]
      rw [show (file.at (hdrAt d y) cur 0).seekPosition = 0 from rfl, hread']
      simp only [Option.bind_some, hbl]
      rw [hadv]
      simp only [Option.bind_some]
      rw [run_getFile hf2]
      simp only [Option.bind_some, hbs]
      rw [show (file.at (hdrAt d y) cur k).hdr = hdrAt d y from rfl, hrun, htake, ← hw1]
      simp only [Function.update_idem, List.append_assoc]
    · have := hto.cursor
      rw [List.append_assoc, ← htake, ← hdrop] at this
      exact this

/-- `Read` on a file that is not a directory: what is behind the cursor, as far as `n` bytes reach. -/
theorem run_read {w : World} (h : ReadableChain w.disk c) (hc : c = pre ++ x :: post)
    (hf : w.files f = some file) (hhdr : file.hdr = hdrAt w.disk x)
    (hcur : Cursor w.disk pre x post file.seekPosition A B) (hn : 0 < n)
    (hlt : file.seekPosition + n < 2 ^ 32) :
    ∃ pre' x' post' seek', (read f n false).run w = some (B.take n, { w with
        files := Function.update w.files f
          (some (file.at (hdrAt w.disk x') file.currentSector seek')) }) ∧
      ReadTo w.disk c pre A B n pre' x' post' seek' := by
  have hxc : x ∈ c := by rw [hc]; simp
  have hok := h.ok x hxc
  have hself : file = file.at (hdrAt w.disk x) file.currentSector file.seekPosition := by
    rw [← hhdr]
    rfl
  generalize hseek : file.seekPosition = seek at *
  have hfat : w.files f = some (file.at (hdrAt w.disk x) file.currentSector seek) := by
    rw [← hself]
    exact hf
  obtain ⟨k, hkn, hbs, hbl, hcur', hend', -⟩ := hcur.readAt hok n
  have hread := run_readAt hfat (h.readable hxc) n seek hn hlt
  have hadv := run_advanceSeek (n := k) hfat (by omega)
  have hread' : (Filesys.readAt f n seek).run w = some (B.take k, w) := by
    rw [hread]
    exact congrArg (fun bs => some (bs, w)) hbs
  rw [hbs] at hbl
  generalize hw1 : ({ w with
    files := Function.update w.files f
      (some (file.at (hdrAt w.disk x) file.currentSector (seek + k))) } : World) = w1 at hadv
  have hd1 : w1.disk = w.disk := by rw [← hw1]
  have hf1 : w1.files f = some (file.at (hdrAt w.disk x) file.currentSector (seek + k)) := by
    rw [← hw1]
    exact Function.update_self ..
  have hhead : (read f n false).run w =
      if seek + n > (hdrAt w.disk x).numBytes then
        (readNext f (readFuel n) (hdrAt w.disk x).nextFileHeader (n - k) (B.take k)).run w1
      else
        some (B.take k, w1) := by
    simp only [read, run_bind, run_assert, decide_eq_true hn, if_true, Option.bind_some, rewindRead,
      Bool.false_eq_true, if_false, run_pure, run_getFile hf, hseek, u32_of_lt hlt, hhdr]
    split
    · simp only [run_bind, hread', Option.bind_some, hbl, hadv]
      rw [run_getFile hf1]
      rfl
    · simp only [run_bind, hread', Option.bind_some, hbl, hadv, run_pure]
  by_cases hbig : seek + n > (hdrAt w.disk x).numBytes
  · have hlen := h.length_le
    have hpost : post.length < readFuel n := by
      rw [hc, List.length_append, List.length_cons] at hlen
      have : numSectors + 1 ≤ readFuel n := Nat.le_mul_of_pos_left _ (Nat.succ_pos n)
      omega
    obtain ⟨pre', x', post', seek', hrun, hto⟩ := run_readNext (n := n - k) h post (B.take k)
      hd1 hc hf1 hcur' hend' (by omega) hpost
    have htake : B.take n = B.take k ++ (B.drop k).take (n - k) := by
      rw [← List.take_add]
      congr 1
      omega
    have hdrop : B.drop n = (B.drop k).drop (n - k) := by
      rw [List.drop_drop]
      congr 1
      omega
    refine ⟨pre', x', post', seek', ?_, hto.chain_eq, hto.isPrefix, ?_⟩
    · rw [hhead, if_pos hbig, hrun, htake, ← hw1]
      simp only [Function.update_idem]
    · have := hto.cursor
      rw [List.append_assoc, ← htake, ← hdrop] at this
      exact this
  · -- the request ends under the header in memory
    have hk : k = n := by
      by_contra hne
      have := hend' (by omega)
      omega
    rw [hk] at hcur' hhead hw1
    refine ⟨pre, x, post, seek + n, ?_, hc, List.prefix_rfl, hcur'⟩
    rw [hhead, if_neg hbig, ← hw1]

/-- Behind the end of the file `Read` answers nothing, whatever it was asked for. -/
theorem run_read_end {w : World} (hf : w.files f = some file) (hn : 0 < n)
    (hend : file.hdr.numBytes ≤ file.seekPosition) (hnext : file.hdr.nextFileHeader = 0)
    (hlt : file.seekPosition < 2 ^ 32) : (read f n false).run w = some ([], w) := by
  have hself : Function.update w.files f (some { file with seekPosition := file.seekPosition }) =
      w.files := by
    rw [← hf]
    exact Function.update_eq_self f w.files
  have hread : (Filesys.readAt f n file.seekPosition).run w = some ([], w) := by
    simp only [Filesys.readAt, run_bind, run_assert, decide_eq_true hn, if_true, Option.bind_some,
      run_getFile hf]
    rw [if_pos hend]
    rfl
  have hadv : (advanceSeek f 0).run w = some ((), w) := by
    rw [advanceSeek, run_modifyFile hf]
    simp only [Nat.add_zero, u32_of_lt hlt, hself]
  have hstop : (readNext f (readFuel n) 0 n []).run w = some ([], w) := by
    have hfuel : 0 < readFuel n := Nat.mul_pos (Nat.succ_pos n) (Nat.succ_pos numSectors)
    obtain ⟨fuel, hfuel⟩ := Nat.exists_eq_succ_of_ne_zero (Nat.ne_of_gt hfuel)
    rw [hfuel, readNext, if_neg (by simp)]
    rfl
  simp only [read, run_bind, run_assert, decide_eq_true hn, if_true, Option.bind_some, rewindRead,
    Bool.false_eq_true, if_false, run_pure, run_getFile hf]
  split
  · simp only [run_bind, hread, Option.bind_some, List.length_nil, hadv, run_getFile hf, hnext,
      Nat.sub_zero, hstop]
  · simp only [run_bind, hread, Option.bind_some, List.length_nil, hadv, run_pure]

/-- A request whose end wraps around answers nothing at the end of the header, and fails elsewhere. -/
theorem run_read_wrap {w : World} (hf : w.files f = some file) (hn : 0 < n) (hn32 : n < 2 ^ 32)
    (hle : file.seekPosition ≤ file.hdr.numBytes) (hlt : file.seekPosition < 2 ^ 32)
    (hwrap : 2 ^ 32 ≤ file.seekPosition + n) :
    (read f n false).run w = if file.hdr.numBytes ≤ file.seekPosition then some ([], w) else none := by
  have hself : Function.update w.files f (some { file with seekPosition := file.seekPosition }) =
      w.files := by
    rw [← hf]
    exact Function.update_eq_self f w.files
  have hadv : (advanceSeek f 0).run w = some ((), w) := by
    rw [advanceSeek, run_modifyFile hf]
    simp only [Nat.add_zero, u32_of_lt hlt, hself]
  have hsmall : ¬ u32 (file.seekPosition + n) > file.hdr.numBytes := by
    unfold u32
    omega
  simp only [read, run_bind, run_assert, decide_eq_true hn, if_true, Option.bind_some, rewindRead,
    Bool.false_eq_true, if_false, run_pure, run_getFile hf, if_neg hsmall, Filesys.readAt]
  split
  · simp only [run_pure, Option.bind_some, List.length_nil, hadv]
  · simp only [run_bind, run_assert, decide_eq_false (Nat.not_lt.mpr hwrap), Bool.false_eq_true,
      if_false, Option.bind_none]

end Read

end Nachos.Filesys
