import Nachos.Lib.Proofs.TableProofs
import Nachos.Userprog.Proofs.TransferProofs
import Nachos.Userprog.Syscall

/-!
# Proofs: system calls

For each call, exactly when its handler does not fail.
-/

namespace Nachos.Userprog

open Foundations Filesys Resumption

/-! ## Descriptors -/

/-- The first two descriptors are those of the console, and every other one is a file. -/
structure DescriptorsOk (t : Table (Option FileId)) : Prop where
  two_le : 2 ≤ t.current
  freed_ge : ∀ e ∈ t.freed, 2 ≤ e.1
  console : t.data 0 = none ∧ t.data 1 = none
  file : ∀ i, 2 ≤ i → t.has i = true → (t.data i).isSome

namespace DescriptorsOk

variable {t t' : Table (Option FileId)}

theorem isFreed (h : DescriptorsOk t) {i : Nat} (hi : i < 2) : t.isFreed i = false := by
  by_contra hfreed
  obtain ⟨e, he, rfl⟩ := Table.isFreed_iff.mp (by simpa using hfreed)
  exact absurd (h.freed_ge e he) (by omega)

theorem has (h : DescriptorsOk t) {i : Nat} (hi : i < 2) : t.has i = true :=
  Table.has_iff.mpr ⟨Nat.lt_of_lt_of_le hi h.two_le, h.isFreed hi⟩

/-- A file gets a descriptor behind those of the console. -/
theorem add (h : DescriptorsOk t) (f : FileId) : DescriptorsOk (t.add (some f)).2 := by
  rcases Table.add_cases t (some f) with ⟨e, freed, hfreed, hadd⟩ | ⟨hfreed, hroom, hadd⟩ | ⟨_, _, hadd⟩
  · have he : 2 ≤ e.1 := h.freed_ge e (by rw [hfreed]; exact List.mem_cons_self)
    rw [hadd]
    exact {
      two_le := h.two_le
      freed_ge := fun e' he' => h.freed_ge e' (by rw [hfreed]; exact List.mem_cons_of_mem e he')
      console := by
        show Function.update t.data e.1 (some f) 0 = none ∧ Function.update t.data e.1 (some f) 1 = none
        rw [Function.update_of_ne (by omega), Function.update_of_ne (by omega)]
        exact h.console
      file := by
        intro i hi hhas
        show (Function.update t.data e.1 (some f) i).isSome
        by_cases hie : i = e.1
        · rw [hie, Function.update_self]
          rfl
        · rw [Function.update_of_ne hie]
          refine h.file i hi (Table.has_iff.mpr ?_)
          obtain ⟨hlt, hnot⟩ := Table.has_iff.mp hhas
          refine ⟨hlt, ?_⟩
          have hnot' : freed.any (fun e => e.1 == i) = false := hnot
          rw [Table.isFreed, hfreed, List.any_cons, hnot', Bool.or_false]
          simpa using fun hei => hie hei.symm }
  · rw [hadd]
    have hcurrent := h.two_le
    exact {
      two_le := Nat.le_succ_of_le h.two_le
      freed_ge := h.freed_ge
      console := by
        show Function.update t.data t.current (some f) 0 = none ∧
          Function.update t.data t.current (some f) 1 = none
        rw [Function.update_of_ne (by omega), Function.update_of_ne (by omega)]
        exact h.console
      file := by
        intro i hi hhas
        show (Function.update t.data t.current (some f) i).isSome
        by_cases hie : i = t.current
        · rw [hie, Function.update_self]
          rfl
        · rw [Function.update_of_ne hie]
          obtain ⟨hlt, hnot⟩ := Table.has_iff.mp hhas
          have hlt' : i < t.current + 1 := hlt
          exact h.file i hi (Table.has_iff.mpr ⟨by omega, hnot⟩) }
  · rw [hadd]
    exact h

theorem remove (h : DescriptorsOk t) {fid : Int} {file : Option FileId} (hzero : fid ≠ 0)
    (hone : fid ≠ 1) (hremove : t.remove fid = some (file, t')) : DescriptorsOk t' := by
  obtain ⟨hdata, hmono⟩ := Table.remove_mono hremove
  have hcons : t'.data 0 = none ∧ t'.data 1 = none := by
    rw [hdata]
    exact h.console
  have hfile : ∀ i, 2 ≤ i → t'.has i = true → (t'.data i).isSome := by
    intro i hi hhas
    rw [hdata]
    exact h.file i hi (hmono i hhas)
  obtain ⟨hpos, ⟨_, hlast, rfl⟩ | ⟨_, rfl⟩ | rfl⟩ := Table.remove_cases hremove
  · obtain ⟨_, _, hfreed, _, hkeep⟩ := Table.trim_spec fid.toNat t
    exact {
      two_le := hkeep 2 (by omega) fun j hj => h.isFreed hj
      freed_ge := fun e he => h.freed_ge e (hfreed e he)
      console := hcons
      file := hfile }
  · exact {
      two_le := h.two_le
      freed_ge := by
        intro e he
        rcases List.mem_cons.mp ((sortedInsert_perm _ _ _).mem_iff.mp he) with rfl | he
        · show 2 ≤ fid.toNat
          omega
        · exact h.freed_ge e he
      console := hcons
      file := hfile }
  · exact h

end DescriptorsOk

/-- Every descriptor table of a process is in order. -/
theorem DescriptorTable.ok {t : Table (Option FileId)} (h : DescriptorTable t) : DescriptorsOk t := by
  induction h with
  | new data =>
    exact {
      two_le := Nat.le_refl 2
      freed_ge := fun e he => absurd he List.not_mem_nil
      console := ⟨rfl, rfl⟩
      file := by
        intro i hi hhas
        have hlt : i < 2 := (Table.has_iff.mp hhas).1
        omega }
  | «open» t f _ ih => exact ih.add f
  | close t t' fid file _ hzero hone hremove ih => exact ih.remove hzero hone hremove

/-! ## Parts of the calls -/

/-- The descriptors and the memory of the process are as before. -/
def Keeps (k k' : Kernel) : Prop := k'.opFD = k.opFD ∧ k'.mem = k.mem

instance : IsPreorder Kernel Keeps where
  refl _ := ⟨rfl, rfl⟩
  trans _ _ _ h h' := ⟨h'.1.trans h.1, h'.2.trans h.2⟩

section Parts

variable {α : Type} {E : Kernel → Kernel → Prop} {k k' : Kernel} {a : Word} {n : Nat}

/-- The file system does not touch them, if the other threads do not. -/
theorem fs_keeps (hE : ∀ k k', E k k' → Keeps k k') {m : Fs α} {x : α}
    (h : (fs m).MayReturn E k x k') : Keeps k k' := by
  unfold fs at h
  refine mayReturn_zoom_frame (R := Keeps) (fun w k => ?_) hE h
  exact ⟨rfl, rfl⟩

@[simp]
theorem safe_answer (v : Int) : (answer v).Safe E k := True.intro

@[simp]
theorem safe_bind_answer {m : Handler α} {g : α → Int} :
    (m >>= fun x => answer (g x)).Safe E k ↔ m.Safe E k := by
  rw [safe_bind]
  exact ⟨fun h => h.1, fun h => ⟨h, fun _ _ _ => True.intro⟩⟩

theorem safe_readName (ha : a ≠ 0#32) (hn : n ≠ 0) (hread : StringReadable k.mem a n)
    {f : Option Name → Handler α} :
    (readName a n >>= f).Safe E k ↔ (f (userName k.mem a n)).Safe E k := by
  obtain ⟨bs, t, hbs⟩ := readStringFromUser_of_readable ha hn hread
  have hname : userName k.mem a n = if t then some bs else none := by
    rw [userName, hbs]
    cases t <;> rfl
  rw [hname]
  show (((ofOption (readStringFromUser k.mem a n)).bind fun p =>
    ret (if p.2 then some p.1 else none)).bind f).Safe E k ↔ _
  rw [hbs]
  exact Iff.rfl

/-- The beginning of the calls with a name. -/
theorem safe_named {v : Int} {g : Option Name → Handler Unit} (hn : n ≠ 0)
    (hread : a ≠ 0#32 → StringReadable k.mem a n) (hnone : (g none).Safe E k) :
    (if a = 0#32 then answer v else readName a n >>= g).Safe E k ↔
      ∀ name, a ≠ 0#32 → userName k.mem a n = some name → (g (some name)).Safe E k := by
  split
  next hzero => exact ⟨fun _ _ hne => absurd hzero hne, fun _ => True.intro⟩
  next hne =>
    rw [safe_readName hne hn (hread hne)]
    cases userName k.mem a n with
    | none =>
      refine ⟨fun _ name _ hname => ?_, fun _ => hnone⟩
      cases hname
    | some name =>
      refine ⟨fun h name' _ hname => ?_, fun h => h name hne rfl⟩
      cases hname
      exact h

/-- The allocation of a buffer. -/
theorem safe_newBuffer {w : Word} {f : ByteMemory → Handler α} :
    (newBuffer w >>= f).Safe E k ↔
      0 ≤ (w + 1#32).toInt ∧ (fs (malloc .buffer) >>= f).Safe E k := by
  show (((Resumption.assert (decide (0 ≤ (w + 1#32).toInt))).bind fun _ =>
    fs (malloc .buffer)).bind f).Safe E k ↔ _
  by_cases h : 0 ≤ (w + 1#32).toInt
  · rw [decide_eq_true h]
    exact ⟨fun hs => ⟨h, hs⟩, fun hs => hs.2⟩
  · rw [decide_eq_false h]
    exact ⟨fun hs => absurd hs not_false, fun hs => absurd hs.1 h⟩

/-- The kernel after an allocation. -/
def allocated (k : Kernel) : Kernel :=
  { k with world := { k.world with
      heap := Function.update k.world.heap .buffer fun n => k.world.heap .buffer (n + 1) } }

theorem safe_malloc {f : ByteMemory → Handler α} :
    (fs (malloc .buffer) >>= f).Safe E k ↔ (f (k.world.heap .buffer 0)).Safe E (allocated k) := Iff.rfl

theorem succ_toInt_nonneg {w : Word} (hw : 0 ≤ w.toInt) : 0 ≤ (w + 1#32).toInt ↔ w.toInt < intMax := by
  rw [BitVec.toInt_add]
  have hlt := BitVec.toInt_lt (x := w)
  have hone : (1#32 : BitVec 32).toInt = 1 := by decide
  rw [hone, intMax, Int.bmod_def]
  omega

theorem toNat_toInt {w : Word} (hw : 0 ≤ w.toInt) : (w.toNat : Int) = w.toInt := by
  rw [BitVec.toInt_eq_toNat_cond] at hw ⊢
  split at hw
  · rw [if_pos (by assumption)]
  · have := w.isLt
    omega

theorem safe_copyOut (ha : a ≠ 0#32) {buffer : List UInt8} (hbuf : buffer ≠ [])
    (hread : BufferReadable k.mem a buffer.length) {f : Unit → Handler α}
    (hf : ∀ mem, (f ()).Safe E { k with mem := mem }) : (copyOut buffer a >>= f).Safe E k := by
  obtain ⟨mem, hmem⟩ := writeBytes_of_readable hread
  have hwrite : writeBufferToUser k.mem buffer a = some mem := by
    simp [writeBufferToUser, guard, ha, hbuf, hmem]
  show (((ofOption (writeBufferToUser k.mem buffer a)).bind fun mem =>
    Resumption.modifyState fun k => { k with mem := mem }).bind f).Safe E k
  rw [hwrite]
  exact hf mem

theorem safe_printChars (cs : List UInt8) : (printChars cs).Safe E k := by
  induction cs generalizing k with
  | nil => exact True.intro
  | cons c cs ih => exact fun k' _ _ => ih

theorem safe_readConsole : (readConsole n).Safe E k := by
  induction n generalizing k with
  | zero => exact True.intro
  | succ n ih =>
    intro k' _ _
    show (readConsole n >>= fun cs => pure (k'.consoleIn.headD 0 :: cs)).Safe E _
    exact safe_bind.mpr ⟨ih, fun _ _ _ => True.intro⟩

/-- Reading the console brings `n` characters and keeps the process. -/
theorem readConsole_spec (hE : ∀ k k', E k k' → Keeps k k') {cs : List UInt8}
    (h : (readConsole n).MayReturn E k cs k') : cs.length = n ∧ Keeps k k' := by
  induction n generalizing k cs with
  | zero =>
    obtain ⟨rfl, rfl⟩ := h
    exact ⟨rfl, rfl, rfl⟩
  | succ n ih =>
    obtain ⟨k1, h1, _, h⟩ := h
    have h' : (readConsole n >>= fun cs => pure (k1.consoleIn.headD 0 :: cs)).MayReturn E
        { k1 with consoleIn := k1.consoleIn.tail } cs k' := h
    obtain ⟨cs', k2, hcs, rfl, rfl⟩ := mayReturn_bind.mp h'
    obtain ⟨hlen, hkeep⟩ := ih hcs
    exact ⟨by rw [List.length_cons, hlen], hkeep.1.trans (hE k k1 h1).1, hkeep.2.trans (hE k k1 h1).2⟩

end Parts

/-! ## Reading the current directory -/

section Reading

theorem neverWaits_readSector (sector : Nat) : (readSector sector).NeverWaits :=
  .bind .yield fun _ => .bind (.assert _) fun _ => .bind .getState fun _ => .bind .yield fun _ => .pure _

theorem neverWaits_getFile (f : FileId) : (getFile f).NeverWaits :=
  .bind .getState fun _ => .ofOption _

theorem neverWaits_modifyFile (f : FileId) (g : OpenFile → OpenFile) : (modifyFile f g).NeverWaits :=
  .bind (neverWaits_getFile f) fun _ => .modifyState _

theorem neverWaits_fetchHdr (f : FileId) (sector : Nat) : (fetchHdr f sector).NeverWaits :=
  .bind (neverWaits_readSector sector) fun _ => neverWaits_modifyFile f _

theorem neverWaits_readSectors (f : FileId) (count i : Nat) : (readSectors f count i).NeverWaits := by
  induction count generalizing i with
  | zero => exact .pure _
  | succ count ih =>
    exact .bind (neverWaits_getFile f) fun _ => .bind (.ofOption _) fun _ =>
      .bind (neverWaits_readSector _) fun _ => .bind (ih (i + 1)) fun _ => .pure _

theorem neverWaits_readAt (f : FileId) (numBytes position : Nat) :
    (readAt f numBytes position).NeverWaits :=
  .bind (.assert _) fun _ => .bind (neverWaits_getFile f) fun _ =>
    .ite (.pure _) (.bind (.assert _) fun _ => .bind (neverWaits_readSectors f _ _) fun _ => .pure _)

theorem neverWaits_readNext (f : FileId) (fuel nextSector numBytes : Nat) (into : List UInt8) :
    (readNext f fuel nextSector numBytes into).NeverWaits := by
  induction fuel generalizing nextSector numBytes into with
  | zero => exact True.intro
  | succ fuel ih =>
    exact .ite (.bind (neverWaits_modifyFile f _) fun _ => .bind (neverWaits_fetchHdr f _) fun _ =>
      .bind (neverWaits_getFile f) fun _ => .bind (neverWaits_readAt f _ _) fun _ =>
        .bind (neverWaits_modifyFile f _) fun _ => .bind (neverWaits_getFile f) fun _ => ih _ _ _) (.pure _)

theorem neverWaits_read (f : FileId) (numBytes : Nat) (isDirectory : Bool) :
    (read f numBytes isDirectory).NeverWaits := by
  refine .bind (.assert _) fun _ => .bind ?_ fun _ => .bind (neverWaits_getFile f) fun _ => .ite ?_ ?_
  · exact .ite (.bind (neverWaits_getFile f) fun _ => .bind (neverWaits_fetchHdr f _) fun _ =>
      neverWaits_modifyFile f _) (.pure _)
  · exact .bind (neverWaits_readAt f _ _) fun _ => .bind (neverWaits_modifyFile f _) fun _ =>
      .bind (neverWaits_getFile f) fun _ => neverWaits_readNext f _ _ _ _
  · exact .bind (neverWaits_readAt f _ _) fun _ => .bind (neverWaits_modifyFile f _) fun _ => .pure _

theorem neverWaits_malloc (use : HeapUse) : (malloc use).NeverWaits :=
  .bind .getState fun _ => .bind (.modifyState _) fun _ => .pure _

theorem neverWaits_fetchDirectory : fetchDirectory.NeverWaits :=
  .bind .getState fun _ => .bind (.bind (.assert _) fun _ => .bind (neverWaits_malloc _) fun _ => .pure _)
    fun _ => .bind .getState fun _ => .bind (neverWaits_read _ _ _) fun _ => .pure _

end Reading

/-! ## The calls -/

section Calls

variable {E : Kernel → Kernel → Prop} {me : Filesys.Tid} {k : Kernel} {r : Registers}

theorem safe_scCreate (hread : ArgumentsReadable k r .create) :
    (scCreate me r.r4 (r.r5 != 0#32)).Safe E k ↔ FileSystemSafe E me k r .create := by
  refine (safe_named (by decide) hread (safe_answer 1)).trans ?_
  simp only [safe_bind_answer]
  exact Iff.rfl

theorem safe_scRemove (hread : ArgumentsReadable k r .remove) :
    (scRemove me r.r4 (r.r5 != 0#32)).Safe E k ↔ FileSystemSafe E me k r .remove := by
  refine (safe_named (by decide) hread (safe_answer 1)).trans ?_
  refine forall_congr' fun name => forall_congr' fun _ => forall_congr' fun _ => ?_
  by_cases hdir : r.r5 = 0#32
  · simp [hdir]
  · simp [hdir]

theorem safe_scCd (hread : ArgumentsReadable k r .cd) :
    (scCd me r.r4).Safe E k ↔ FileSystemSafe E me k r .cd := by
  refine (safe_named (by decide) hread (safe_answer 1)).trans ?_
  simp only [safe_bind_answer]
  exact Iff.rfl

theorem safe_scOpen (hE : ∀ k k', E k k' → Keeps k k') (hread : ArgumentsReadable k r .open) :
    (scOpen me r.r4).Safe E k ↔ FileSystemSafe E me k r .open := by
  refine (safe_named (by decide) hread (safe_answer (-1))).trans ?_
  refine forall_congr' fun name => forall_congr' fun _ => forall_congr' fun _ => ?_
  rw [safe_bind]
  refine and_congr_right fun _ => ⟨fun h f k' hret hfull => ?_, fun h opened k' hret => ?_⟩
  · have hsafe := h (some f) k' hret
    rw [← (fs_keeps hE hret).1] at hfull
    simp only [safe_getState_bind, if_pos hfull] at hsafe
    exact hsafe
  · cases opened with
    | none => exact True.intro
    | some f =>
      simp only [safe_getState_bind]
      split
      next hfull =>
        rw [(fs_keeps hE hret).1] at hfull
        exact h f k' hret hfull
      next => exact True.intro

theorem safe_scExec (hread : ArgumentsReadable k r .exec) :
    (scExec me r.r4 r.r5 (r.r6 != 0#32)).Safe E k ↔
      GoodArguments k r .exec ∧ FileSystemSafe E me k r .exec := by
  refine (safe_named (by decide) hread.1 (safe_answer (-1))).trans ?_
  have hargs : (∃ args, (if r.r5 = 0#32 then some none else saveArgs k.mem r.r5) = some args) ↔
      r.r5.toNat % 4 = 0 := by
    split
    next hz => exact ⟨fun _ => by rw [hz]; rfl, fun _ => ⟨none, rfl⟩⟩
    next hnz => exact saveArgs_isSome hnz (hread.2 hnz)
  simp only [safe_getState_bind, safe_ofOption_bind]
  constructor
  · intro h
    refine ⟨?_, fun name hne hname => ?_⟩
    · by_cases hne : r.r4 = 0#32
      · exact Or.inl hne
      · cases hname : userName k.mem r.r4 (fileNameMaxLen + 1) with
        | none => exact Or.inr (Or.inl hname)
        | some name =>
          obtain ⟨args, hsave, _⟩ := h name hne hname
          exact Or.inr (Or.inr (hargs.mp ⟨args, hsave⟩))
    · obtain ⟨_, _, hsafe⟩ := h name hne hname
      obtain ⟨hopen, hrest⟩ := safe_bind.mp hsafe
      refine ⟨hopen, fun f k' hret => ?_⟩
      obtain ⟨hnew, hspace⟩ := safe_bind.mp (hrest (some f) k' hret)
      exact safe_bind.mpr ⟨hnew, fun tId k2 h2 => safe_bind_answer.mp (hspace tId k2 h2)⟩
  · rintro ⟨hgood, hfs⟩ name hne hname
    have halign : r.r5.toNat % 4 = 0 := by
      rcases hgood with hzero | hnone | halign
      · exact absurd hzero hne
      · rw [hname] at hnone
        cases hnone
      · exact halign
    obtain ⟨args, hsave⟩ := hargs.mpr halign
    obtain ⟨hopen, hrest⟩ := hfs name hne hname
    refine ⟨args, hsave, safe_bind.mpr ⟨hopen, fun opened k' hret => ?_⟩⟩
    cases opened with
    | none => exact True.intro
    | some f =>
      obtain ⟨hnew, hspace⟩ := safe_bind.mp (hrest f k' hret)
      exact safe_bind.mpr ⟨hnew, fun tId k2 h2 => safe_bind_answer.mpr (hspace tId k2 h2)⟩

/-- What the handler finds at a descriptor. -/
theorem descriptor_cases (hfd : DescriptorsOk k.opFD) {fid : Int} (hfid : 2 ≤ fid) :
    (k.opFD.hasKey fid = some false ∧ openFileOf k fid = none) ∨
      ∃ f, k.opFD.hasKey fid = some true ∧ k.opFD.get fid = some (some f) ∧
        openFileOf k fid = some f := by
  have hpos : 0 ≤ fid := by omega
  cases hhas : k.opFD.has fid.toNat with
  | false =>
    refine Or.inl ⟨by rw [Table.hasKey_of_nonneg hpos, hhas], ?_⟩
    simp [openFileOf, hhas]
  | true =>
    obtain ⟨f, hf⟩ := Option.isSome_iff_exists.mp (hfd.file fid.toNat (by omega) hhas)
    refine Or.inr ⟨f, by rw [Table.hasKey_of_nonneg hpos, hhas], ?_, ?_⟩
    · have hget := Table.get_natCast hhas
      rw [Int.toNat_of_nonneg hpos, hf] at hget
      exact hget
    · simp [openFileOf, hhas, hf]

theorem safe_scClose (hfd : DescriptorsOk k.opFD) :
    (scClose me r.r4.toInt).Safe E k ↔
      GoodArguments k r .close ∧ FileSystemSafe E me k r .close := by
  unfold scClose
  show _ ↔ 0 ≤ r.r4.toInt ∧ ∀ f, 2 ≤ r.r4.toInt → openFileOf k r.r4.toInt = some f →
    (fs (deleteOpenFile me f)).Safe E k
  split
  next hcons =>
    refine ⟨fun _ => ⟨by omega, fun f hge => ?_⟩, fun _ => True.intro⟩
    omega
  next hcons =>
    simp only [safe_getState_bind, safe_ofOption_bind]
    rcases Int.lt_or_le r.r4.toInt 0 with hneg | hpos
    · rw [Table.hasKey_of_neg hneg]
      refine ⟨fun h => ?_, fun h => absurd h.1 (by omega)⟩
      obtain ⟨_, h, _⟩ := h
      cases h
    · have hge : 2 ≤ r.r4.toInt := by omega
      rcases descriptor_cases hfd hge with ⟨hkey, hfile⟩ | ⟨f, hkey, hget, hfile⟩
      · rw [hkey, hfile]
        refine ⟨fun _ => ⟨hpos, fun f _ hf => ?_⟩, fun _ => ⟨false, rfl, True.intro⟩⟩
        cases hf
      · simp only [hkey, hget, hfile, Option.some.injEq, exists_eq_left', if_true, safe_ofOption_bind]
        rw [safe_bind]
        constructor
        · rintro ⟨hclose, _⟩
          refine ⟨hpos, fun f' _ hf => ?_⟩
          rw [← hf]
          exact hclose
        · rintro ⟨_, hclose⟩
          refine ⟨hclose f hge rfl, fun _ k' hret => ?_⟩
          simp only [safe_getState_bind, safe_ofOption_bind]
          obtain ⟨removed, hremoved⟩ := Table.remove_of_nonneg (t := k'.opFD) hpos
          exact ⟨removed, hremoved, True.intro⟩

theorem safe_takeReturnValue (q : Processes.ThreadPtr) : (takeReturnValue q).Safe E k := by
  unfold takeReturnValue
  rw [safe_getState_bind]
  split
  · exact True.intro
  · exact True.intro

theorem safe_scJoin : (scJoin r.r4.toInt).Safe E k ↔ GoodArguments k r .join := by
  unfold scJoin
  show _ ↔ 0 ≤ r.r4.toInt ∧ (k.processes.threadUPS.has r.r4.toInt.toNat = true → Joinable k r.r4.toInt)
  simp only [safe_getState_bind, safe_ofOption_bind]
  rcases Int.lt_or_le r.r4.toInt 0 with hneg | hpos
  · rw [Table.hasKey_of_neg hneg]
    refine ⟨fun h => ?_, fun h => absurd h.1 (by omega)⟩
    obtain ⟨_, h, _⟩ := h
    cases h
  · rw [Table.hasKey_of_nonneg hpos]
    cases hhas : k.processes.threadUPS.has r.r4.toInt.toNat with
    | false => exact ⟨fun _ => ⟨hpos, fun h => by cases h⟩, fun _ => ⟨false, rfl, True.intro⟩⟩
    | true =>
      have hget := Table.get_natCast hhas
      rw [Int.toNat_of_nonneg hpos] at hget
      simp only [hget, Option.some.injEq, exists_eq_left', if_true, safe_ofOption_bind,
        safe_assert_bind, Joinable]
      constructor
      · rintro ⟨q, hq, th, hth, hjoin, _⟩
        exact ⟨hpos, fun _ => ⟨q, th, hq, hth, hjoin⟩⟩
      · rintro ⟨_, h⟩
        obtain ⟨q, th, hq, hth, hjoin⟩ := h True.intro
        exact ⟨q, hq, th, hth, hjoin, fun _ _ _ => safe_takeReturnValue q⟩

/-- The whole of a buffer that is not empty can be copied out. -/
theorem safe_copyOut_answer {k' : Kernel} (hkeep : Keeps k k') {a : Word} (ha : a ≠ 0#32)
    {buffer : List UInt8} (hpos : 0 < buffer.length) (hread : BufferReadable k.mem a buffer.length)
    (v : Int) : (copyOut buffer a >>= fun _ => answer v).Safe E k' := by
  refine safe_copyOut ha (List.ne_nil_of_length_pos hpos) ?_ fun _ => True.intro
  rw [hkeep.2]
  exact hread

/-- The list of names is never empty: an empty directory prints an empty line. -/
theorem printNames_ne_nil (d : Directory) : printNames d ≠ [] := by
  unfold printNames
  cases hnames : (List.range d.tableSize).filter (entryInUse d.table) with
  | nil => simp
  | cons i names =>
    simp only [reduceCtorEq, if_false, List.flatMap_cons]
    split <;> simp

theorem safe_scLs (hE : ∀ k k', E k k' → Keeps k k') (hrefl : ∀ k, E k k)
    (hread : ArgumentsReadable k r .ls) :
    (scLs r.r4).Safe E k ↔ GoodArguments k r .ls ∧ FileSystemSafe E me k r .ls := by
  unfold scLs
  show _ ↔ r.r4 ≠ 0#32 ∧ (fs (malloc .buffer) >>= fun _ => fs fetchDirectory).Safe E k
  simp only [safe_malloc]
  rw [safe_bind]
  have hprint : ∀ d : Directory, ¬ (printNames d).length = 0 := fun d =>
    fun hlen => printNames_ne_nil d (List.eq_nil_of_length_eq_zero hlen)
  constructor
  · rintro ⟨hfetch, hrest⟩
    refine ⟨fun hzero => ?_, hfetch⟩
    -- the directory can be read, and the transfer to address 0 asserts
    obtain ⟨dir, k', hret⟩ := (neverWaits_fetchDirectory.zoom _ _).exists_mayReturn hrefl hfetch
    have hsafe := hrest dir k' hret
    rw [if_neg (hprint dir), hzero] at hsafe
    exact hsafe
  · rintro ⟨hne, hfetch⟩
    refine ⟨hfetch, fun dir k' hret => ?_⟩
    have hkeep : Keeps (allocated k) k' := fs_keeps hE hret
    rw [if_neg (hprint dir)]
    refine (safe_bind_answer (g := fun _ => 0)).mp (safe_copyOut_answer hkeep hne ?_ ?_ 0)
    · rw [length_slice]
      decide
    · rw [length_slice]
      exact hread hne

theorem safe_scWrite (hfd : DescriptorsOk k.opFD) (hread : ArgumentsReadable k r .write) :
    (scWrite me r.r4 r.r5 r.r6.toInt).Safe E k ↔
      GoodArguments k r .write ∧ FileSystemSafe E me k r .write := by
  unfold scWrite
  simp only [GoodArguments, FileSystemSafe]
  split
  next hbad =>
    refine ⟨fun _ => ⟨?_, fun f buffer _ hge _ hbuffer => ?_⟩, fun _ => True.intro⟩
    · rcases hbad with hzero | hneg | hneg | hzero
      · exact Or.inl hzero
      · exact Or.inr (Or.inl hneg)
      · exact Or.inr (Or.inr (Or.inl (Int.le_of_lt hneg)))
      · exact Or.inr (Or.inr (Or.inl (Int.le_of_eq hzero)))
    · rcases hbad with hzero | hneg | hneg | hzero
      · simp [readBufferFromUser, guard, hzero] at hbuffer
      all_goals omega
  next hok =>
    simp only [not_or] at hok
    obtain ⟨hne, hsize, hneg, hnz⟩ := hok
    rw [safe_newBuffer, succ_toInt_nonneg (by omega)]
    simp only [safe_malloc, safe_getState_bind, safe_ofOption_bind]
    have hmem : (allocated k).mem = k.mem := rfl
    have hopFD : (allocated k).opFD = k.opFD := rfl
    have hnat := toNat_toInt (w := r.r5) (by omega)
    rcases Nat.eq_zero_or_pos r.r5.toNat with hempty | hpos
    · -- nothing is read: the transfer asserts that there is something
      have hnone : readBufferFromUser k.mem r.r4 r.r5.toNat = none := by
        simp [readBufferFromUser, guard, hempty]
      simp only [hmem, hnone, reduceCtorEq, false_and, exists_false, and_false, false_iff, not_and]
      intro hgood
      rcases hgood with h | h | h | h
      · exact absurd h hne
      all_goals omega
    · obtain ⟨buffer, hbuffer⟩ := readBytes_of_readable (hread hne (by omega))
      have hsome : readBufferFromUser k.mem r.r4 r.r5.toNat = some buffer := by
        simp [readBufferFromUser, guard, hne, Nat.ne_of_gt hpos, hbuffer]
      simp only [hmem, hopFD, hsome, Option.some.injEq, exists_eq_left']
      by_cases hout : r.r6.toInt = 1
      · simp only [hout, if_true, safe_bind_answer]
        refine ⟨fun h => ⟨Or.inr (Or.inr (Or.inr ⟨by omega, h.1⟩)), fun _ _ _ hge => ?_⟩, fun h => ?_⟩
        · exact absurd hge (by decide)
        · refine ⟨?_, safe_printChars buffer⟩
          rcases h.1 with h | h | h | h
          · exact absurd h hne
          all_goals omega
      · have hge : 2 ≤ r.r6.toInt := by omega
        simp only [if_neg hout]
        have hgood : r.r4 = 0#32 ∨ r.r5.toInt < 0 ∨ r.r6.toInt ≤ 0 ∨
            0 < r.r5.toInt ∧ r.r5.toInt < intMax ↔ r.r5.toInt < intMax := by
          refine ⟨fun h => ?_, fun h => Or.inr (Or.inr (Or.inr ⟨by omega, h⟩))⟩
          rcases h with h | h | h | h
          · exact absurd h hne
          all_goals omega
        rw [hgood]
        refine and_congr_right fun _ => ?_
        rcases descriptor_cases hfd hge with ⟨hkey, hfile⟩ | ⟨f, hkey, hget, hfile⟩
        · simp [hkey, hfile]
        · simp only [hkey, hget, hfile, Option.some.injEq, exists_eq_left', if_true,
            safe_ofOption_bind, safe_bind_answer]
          refine ⟨fun h f' buffer' _ _ hf hb => ?_, fun h => h f buffer (by omega) hge rfl rfl⟩
          rw [← hf, ← hb]
          exact h

theorem safe_scRead (hE : ∀ k k', E k k' → Keeps k k') (hfd : DescriptorsOk k.opFD)
    (hread : ArgumentsReadable k r .read) :
    (scRead r.r4 r.r5 r.r6.toInt).Safe E k ↔
      GoodArguments k r .read ∧ FileSystemSafe E me k r .read := by
  unfold scRead
  simp only [GoodArguments, FileSystemSafe]
  split
  next hbad =>
    refine ⟨fun _ => ⟨?_, fun f hne hpos hge _ => ?_⟩, fun _ => True.intro⟩
    · rcases hbad with hzero | hneg | hneg
      · exact Or.inl hzero
      · exact Or.inr (Or.inl hneg)
      · exact Or.inr (Or.inr (Or.inl hneg))
    · rcases hbad with hzero | hneg | hneg
      · exact absurd hzero hne
      all_goals omega
  next hok =>
    simp only [not_or] at hok
    obtain ⟨hne, hsize, hneg⟩ := hok
    rw [safe_newBuffer, succ_toInt_nonneg (by omega)]
    simp only [safe_malloc, safe_getState_bind]
    have hopFD : (allocated k).opFD = k.opFD := rfl
    have hkeep : Keeps k (allocated k) := ⟨rfl, rfl⟩
    have hnat := toNat_toInt (w := r.r5) (by omega)
    have hbuf : BufferReadable k.mem r.r4 r.r5.toNat := hread hne (by omega)
    have hgood : r.r4 = 0#32 ∨ r.r5.toInt ≤ 0 ∨ r.r6.toInt < 0 ∨
        r.r5.toInt < intMax ∧ r.r6.toInt ≠ 1 ↔ r.r5.toInt < intMax ∧ r.r6.toInt ≠ 1 := by
      refine ⟨fun h => ?_, fun h => Or.inr (Or.inr (Or.inr h))⟩
      rcases h with h | h | h | h
      · exact absurd h hne
      · omega
      · omega
      · exact h
    rw [hgood, and_assoc]
    refine and_congr_right fun _ => ?_
    by_cases hin : r.r6.toInt = 0
    · simp only [hin, if_true]
      refine ⟨fun _ => ⟨by decide, fun _ _ _ hge => absurd hge (by decide)⟩, fun _ => ?_⟩
      refine safe_bind.mpr ⟨safe_readConsole, fun cs k' hret => ?_⟩
      obtain ⟨hlen, hkeep'⟩ := readConsole_spec hE hret
      refine safe_copyOut_answer (IsTrans.trans _ _ _ hkeep hkeep') hne (by omega) ?_ _
      rwa [hlen]
    · simp only [if_neg hin, safe_ofOption_bind, hopFD]
      by_cases hout : r.r6.toInt = 1
      · -- the descriptor of the console output is a null pointer
        have hhas : k.opFD.has (1 : Int).toNat = true := hfd.has (by decide)
        have hget : k.opFD.get (1 : Nat) = some none := by
          rw [Table.get_natCast (hfd.has (by decide)), hfd.console.2]
        have hkey : k.opFD.hasKey (1 : Nat) = some true := by
          rw [Table.hasKey_natCast, hfd.has (by decide)]
        rw [hout]
        simp only [ne_eq, not_true_eq_false, false_and, iff_false]
        rintro ⟨key, hkey', hsafe⟩
        rw [show (1 : Int) = ((1 : Nat) : Int) from rfl] at hkey' hsafe
        rw [hkey] at hkey'
        cases hkey'
        simp only [hget, if_true, safe_ofOption_bind, Option.some.injEq, exists_eq_left', reduceCtorEq,
          false_and, exists_false] at hsafe
      · have hge : 2 ≤ r.r6.toInt := by omega
        simp only [ne_eq, hout, not_false_eq_true, true_and]
        rcases descriptor_cases hfd hge with ⟨hkey, hfile⟩ | ⟨f, hkey, hget, hfile⟩
        · simp [hkey, hfile]
        · simp only [hkey, hget, hfile, Option.some.injEq, exists_eq_left', if_true, safe_ofOption_bind]
          constructor
          · intro h f' _ _ _ hf
            rw [← hf]
            exact (safe_bind.mp h).1
          · intro h
            refine safe_bind.mpr ⟨h f hne (by omega) hge rfl, fun bytes k' hret => ?_⟩
            have hkeep' : Keeps k k' := IsTrans.trans _ _ _ hkeep (fs_keeps hE hret)
            split
            · exact True.intro
            · refine safe_copyOut_answer hkeep' hne ?_ ?_ _
              · rw [length_slice]
                omega
              · rwa [length_slice]

end Calls

/-! ## The handler -/

/-- A process that has nothing open, with zeros in its memory, after system start. -/
def freshKernel : Kernel where
  world := World.initial (fun _ => { bytes := List.replicate sectorSize 0, length_bytes := rfl })
    fun _ _ _ => 0
  processes := Processes.State.boot fun _ => none
  opFD := (((Table.new fun _ => none).add none).2.add none).2
  mem := fun _ => some 0
  consoleIn := []
  consoleOut := []
  r2 := 0
  halted := false

end Nachos.Userprog
