import Nachos.Filesys.Proofs.OpenCountsProofs
import Nachos.Userprog.Proofs.ReadCallProofs
import Nachos.Userprog.Termination

/-!
# Proofs: the end of a process

Whatever a process has opened and closed, the file of its executable and its swap file stay open when its
thread is deleted. Its descriptors are closed up to the first index that is not in use.
-/

namespace Nachos.Userprog

open Foundations Filesys Resumption

/-! ## Descriptors -/

/-- The descriptor `i` stands for the object `f`. -/
def Held (t : Table (Option FileId)) (i : Nat) (f : FileId) : Prop := t.has i = true ∧ t.data i = some f

section Tables

variable {t t' : Table (Option FileId)} {f g : FileId} {i j : Nat}

theorem mem_openDescriptors : f ∈ openDescriptors t ↔ ∃ i, Held t i f := by
  unfold openDescriptors
  rw [List.mem_filterMap]
  constructor
  · rintro ⟨i, -, hi⟩
    split at hi
    case isTrue hhas => exact ⟨i, hhas, hi⟩
    case isFalse => nomatch hi
  · rintro ⟨i, hhas, hdata⟩
    refine ⟨i, List.mem_range.mpr (Table.has_iff.mp hhas).1, ?_⟩
    rw [if_pos hhas, hdata]

/-- After `Add` there is one more descriptor. -/
theorem held_add (h : Held (t.add (some f)).2 j g) :
    Held t j g ∨ g = f ∧ j = (t.add (some f)).1.toNat := by
  obtain ⟨hhas, hdata⟩ := h
  rcases Table.add_cases t (some f) with ⟨e, freed, hfreed, hadd⟩ | ⟨hfreed, hroom, hadd⟩ | ⟨_, _, hadd⟩
  · rw [hadd] at hhas hdata ⊢
    by_cases hj : j = e.1
    · subst hj
      change Function.update t.data e.1 (some f) e.1 = some g at hdata
      rw [Function.update_self] at hdata
      exact Or.inr ⟨(Option.some.inj hdata).symm, (Int.toNat_natCast _).symm⟩
    · change Function.update t.data e.1 (some f) j = some g at hdata
      rw [Function.update_of_ne hj] at hdata
      refine Or.inl ⟨Table.has_iff.mpr ?_, hdata⟩
      obtain ⟨hlt, hnot⟩ := Table.has_iff.mp hhas
      refine ⟨hlt, ?_⟩
      have hnot' : freed.any (fun e => e.1 == j) = false := hnot
      rw [Table.isFreed, hfreed, List.any_cons, hnot', Bool.or_false]
      exact beq_eq_false_iff_ne.mpr fun he => hj he.symm
  · rw [hadd] at hhas hdata ⊢
    by_cases hj : j = t.current
    · subst hj
      change Function.update t.data t.current (some f) t.current = some g at hdata
      rw [Function.update_self] at hdata
      exact Or.inr ⟨(Option.some.inj hdata).symm, (Int.toNat_natCast _).symm⟩
    · change Function.update t.data t.current (some f) j = some g at hdata
      rw [Function.update_of_ne hj] at hdata
      obtain ⟨hlt, hnot⟩ := Table.has_iff.mp hhas
      have hlt' : j < t.current + 1 := hlt
      exact Or.inl ⟨Table.has_iff.mpr ⟨by omega, hnot⟩, hdata⟩
  · rw [hadd] at hhas hdata
    exact Or.inl ⟨hhas, hdata⟩

/-- After `Remove` the descriptor is not there. -/
theorem held_remove {fid : Int} {item : Option FileId} (hremove : t.remove fid = some (item, t'))
    (hfid : t.has fid.toNat = true) (h : Held t' j g) : Held t j g ∧ j ≠ fid.toNat := by
  obtain ⟨hhas, hdata⟩ := h
  obtain ⟨hsame, hmono⟩ := Table.remove_mono hremove
  rw [hsame] at hdata
  refine ⟨⟨hmono j hhas, hdata⟩, ?_⟩
  rintro rfl
  unfold Table.remove at hremove
  have hpos : 0 ≤ fid := (Table.remove_cases hremove).1
  simp only [hpos, hfid, guard, if_true, Option.pure_def, Option.bind_eq_bind, Option.bind_some] at hremove
  split at hremove
  · cases hremove
    obtain ⟨-, hle, -⟩ := Table.trim_spec fid.toNat t
    have hlt := (Table.has_iff.mp hhas).1
    omega
  · cases hremove
    have hnot := (Table.has_iff.mp hhas).2
    rw [Table.isFreed_insert, beq_self_eq_true, Bool.or_true] at hnot
    cases hnot

end Tables

/-! ## The history -/

/-- The object `f` is there. -/
def Live (w : World) (f : FileId) : Prop := ((books w).sectors f).isSome ∧ f < (books w).next

/-- The descriptors are those of open objects, each of its own, and the files of the address space are other
objects, which are open. -/
structure Holding (w : World) (t : Table (Option FileId)) (space : SpaceFiles) : Prop where
  live : ∀ {i f}, Held t i f → Live w f
  apart : ∀ {i f}, Held t i f → f ≠ space.exe ∧ f ≠ space.swapFD
  single : ∀ {i j f}, Held t i f → Held t j f → i = j
  exe : Live w space.exe
  swapFD : Live w space.swapFD

section History

variable {w w' : World} {t t' : Table (Option FileId)} {space : SpaceFiles} {f g : FileId} {i s : Nat}
  {me : Filesys.Tid} {k k' : Kernel}

theorem Live.same (h : Live w g) (hbooks : books w' = books w) : Live w' g := by
  unfold Live
  rw [hbooks]
  exact h

theorem Live.opened (h : Live w g) (hbooks : books w' = (books w).opened s) : Live w' g := by
  unfold Live
  rw [hbooks, Books.sectors_opened_of_lt h.2]
  exact ⟨h.1, Nat.lt_succ_of_lt h.2⟩

theorem live_opened (hbooks : books w' = (books w).opened s) : Live w' (books w).next := by
  have hself : ((books w).opened s).sectors (books w).next = some s := Function.update_self ..
  unfold Live
  rw [hbooks, hself]
  exact ⟨rfl, Nat.lt_succ_self _⟩

theorem sectors_closed_of_ne (b : Books) (hne : g ≠ f) : (b.closed f s).sectors g = b.sectors g :=
  Function.update_of_ne hne _ _

theorem Live.closed (h : Live w g) (hne : g ≠ f) (hbooks : books w' = (books w).closed f s) : Live w' g := by
  unfold Live
  rw [hbooks, sectors_closed_of_ne _ hne]
  exact h

/-- The state may change if the objects that matter stay. -/
theorem Holding.keep (h : Holding w t space) (hlive : ∀ g, Live w g → Live w' g) : Holding w' t space where
  live hi := hlive _ (h.live hi)
  apart := h.apart
  single := h.single
  exe := hlive _ h.exe
  swapFD := hlive _ h.swapFD

/-- A new object gets a descriptor. -/
theorem Holding.add (h : Holding w t space) (hlive : Live w f) (hexe : f ≠ space.exe)
    (hswap : f ≠ space.swapFD) (hnew : ∀ i, ¬ Held t i f) : Holding w (t.add (some f)).2 space where
  live := by
    intro i g hi
    rcases held_add hi with hi | ⟨rfl, -⟩
    · exact h.live hi
    · exact hlive
  apart := by
    intro i g hi
    rcases held_add hi with hi | ⟨rfl, -⟩
    · exact h.apart hi
    · exact ⟨hexe, hswap⟩
  single := by
    intro i j g hi hj
    rcases held_add hi with hold | ⟨rfl, hindex⟩
    · rcases held_add hj with hold' | ⟨rfl, -⟩
      · exact h.single hold hold'
      · exact absurd hold (hnew i)
    · rcases held_add hj with hold' | ⟨-, hindex'⟩
      · exact absurd hold' (hnew j)
      · rw [hindex, hindex']
  exe := h.exe
  swapFD := h.swapFD

/-- The object of a descriptor is deleted, and the descriptor is removed. -/
theorem Holding.remove (h : Holding w t space) {fid : Int} {item : Option FileId}
    (hheld : Held t fid.toNat f) (hbooks : books w' = (books w).closed f s)
    (hremove : t.remove fid = some (item, t')) : Holding w' t' space where
  live := by
    intro i g hi
    obtain ⟨hold, hne⟩ := held_remove hremove hheld.1 hi
    refine (h.live hold).closed ?_ hbooks
    rintro rfl
    exact hne (h.single hold hheld)
  apart hi := h.apart (held_remove hremove hheld.1 hi).1
  single hi hj := h.single (held_remove hremove hheld.1 hi).1 (held_remove hremove hheld.1 hj).1
  exe := h.exe.closed (h.apart hheld).1.symm hbooks
  swapFD := h.swapFD.closed (h.apart hheld).2.symm hbooks

/-- What holds after each call. -/
structure HistoryInv (k : Kernel) (space : SpaceFiles) : Prop where
  ok : DescriptorsOk k.opFD
  holding : Holding k.world k.opFD space

theorem HistoryInv.answer {v : Int} {u : Unit} (h : HistoryInv k space)
    (hrun : (Userprog.answer v).run k = some (u, k')) : HistoryInv k' space := by
  cases hrun
  exact ⟨h.ok, h.holding⟩

/-- A new object is none of those that the process holds. -/
theorem Holding.next_new (h : Holding w t space) : (books w).next ≠ space.exe ∧
    (books w).next ≠ space.swapFD ∧ ∀ i, ¬ Held t i (books w).next :=
  ⟨(Nat.ne_of_lt h.exe.2).symm, (Nat.ne_of_lt h.swapFD.2).symm,
    fun _ hi => Nat.lt_irrefl _ (h.live hi).2⟩

theorem run_answer (v : Int) (k : Kernel) : (Userprog.answer v).run k =
    some ((), { k with r2 := BitVec.ofInt 32 v }) := rfl

/-- A call of the file system that returns. -/
theorem run_fs_eq_some {α : Type} {m : Fs α} {a : α} (hrun : (fs m).run k = some (a, k')) :
    ∃ w, m.run k.world = some (a, w) ∧ k' = { k with world := w } := by
  rw [run_fs] at hrun
  obtain ⟨⟨b, w⟩, hm, heq⟩ := Option.map_eq_some_iff.mp hrun
  cases heq
  exact ⟨w, hm, rfl⟩

/-- The part of Open that takes a descriptor. -/
theorem HistoryInv.open {fileName : Name} {u : Unit} (h : HistoryInv k space)
    (hrun : (fs (openFile fileName) >>= fun opened => match opened with
      | none => Userprog.answer (-1)
      | some file => do
        let k ← getState
        let added := k.opFD.add (some file)
        if added.1 < 0 then do
          Userprog.answer (-1)
          fs (deleteOpenFile me file)
        else do
          modifyState fun k => { k with opFD := added.2 }
          Userprog.answer added.1 : Handler Unit).run k = some (u, k')) : HistoryInv k' space := by
  obtain ⟨opened, k₁, hfs, hrun⟩ := run_bind_eq_some.mp hrun
  obtain ⟨w, hopen, rfl⟩ := run_fs_eq_some hfs
  rcases books_openFile hopen with ⟨rfl, hbooks⟩ | ⟨s, rfl, hbooks⟩
  · have hsame : HistoryInv { k with world := w } space :=
      ⟨h.ok, h.holding.keep fun g hg => hg.same hbooks⟩
    exact hsame.answer hrun
  · obtain ⟨hexe, hswap, hnew⟩ := h.holding.next_new
    have hkept : Holding w k.opFD space := h.holding.keep fun g hg => hg.opened hbooks
    obtain ⟨_, _, hstate, hrun⟩ := run_bind_eq_some.mp hrun
    cases hstate
    dsimp only at hrun
    split at hrun
    · obtain ⟨_, k₂, hanswer, hrun⟩ := run_bind_eq_some.mp hrun
      cases hanswer
      obtain ⟨w', hdelete, rfl⟩ := run_fs_eq_some hrun
      obtain ⟨s', -, hclosed⟩ := books_deleteOpenFile hdelete
      refine ⟨h.ok, ⟨fun hi => ?_, hkept.apart, hkept.single, ?_, ?_⟩⟩
      · exact (hkept.live hi).closed (fun heq => hnew _ (heq ▸ hi)) hclosed
      · exact hkept.exe.closed hexe.symm hclosed
      · exact hkept.swapFD.closed hswap.symm hclosed
    · obtain ⟨_, k₂, hmodify, hrun⟩ := run_bind_eq_some.mp hrun
      cases hmodify
      have hadded : HistoryInv { k with world := w, opFD := (k.opFD.add (some (books k.world).next)).2 } space :=
        ⟨h.ok.add _, hkept.add (live_opened hbooks) hexe hswap hnew⟩
      exact hadded.answer hrun

theorem HistoryInv.scOpen {fileDir : Word} {u : Unit} (h : HistoryInv k space)
    (hrun : (scOpen me fileDir).run k = some (u, k')) : HistoryInv k' space := by
  unfold Userprog.scOpen at hrun
  split at hrun
  · exact h.answer hrun
  · obtain ⟨name, k₁, hname, hopen⟩ := run_bind_eq_some.mp hrun
    obtain ⟨_, _, hstate, hstring⟩ := run_bind_eq_some.mp hname
    cases hstate
    obtain ⟨⟨bs, terminated⟩, k₂, hread, hanswer⟩ := run_bind_eq_some.mp hstring
    obtain ⟨-, rfl⟩ := run_ofOption_eq_some hread
    cases hanswer
    cases terminated with
    | false => exact h.answer hopen
    | true => exact h.open hopen

theorem HistoryInv.scClose {fid : Int} {u : Unit} (h : HistoryInv k space)
    (hrun : (scClose me fid).run k = some (u, k')) : HistoryInv k' space := by
  unfold Userprog.scClose at hrun
  split at hrun
  · exact h.answer hrun
  case isFalse hconsole =>
    rw [not_or] at hconsole
    obtain ⟨_, _, hstate, hkey⟩ := run_bind_eq_some.mp hrun
    cases hstate
    obtain ⟨hasKey, k₁, hhas, hclose⟩ := run_bind_eq_some.mp hkey
    obtain ⟨hhas', hk⟩ := run_ofOption_eq_some hhas
    subst hk
    cases hasKey with
    | false => exact h.answer hclose
    | true =>
      obtain ⟨hpos, hhas''⟩ := Table.hasKey_eq_true.mp hhas'
      obtain ⟨item, k₂, hget, hpointer⟩ := run_bind_eq_some.mp hclose
      obtain ⟨hget', hk⟩ := run_ofOption_eq_some hget
      subst hk
      obtain ⟨file, k₃, hfile, hdelete⟩ := run_bind_eq_some.mp hpointer
      obtain ⟨hitem, hk⟩ := run_ofOption_eq_some hfile
      subst hk hitem
      have hdata := Table.get_natCast hhas''
      rw [Int.toNat_of_nonneg hpos, hget'] at hdata
      have hheld : Held k₃.opFD fid.toNat file := ⟨hhas'', (Option.some.inj hdata).symm⟩
      obtain ⟨_, k₄, hfs, hstate⟩ := run_bind_eq_some.mp hdelete
      obtain ⟨w, hdeleted, hk⟩ := run_fs_eq_some hfs
      subst hk
      obtain ⟨s, -, hclosed⟩ := books_deleteOpenFile hdeleted
      obtain ⟨_, _, hget₂, hremove⟩ := run_bind_eq_some.mp hstate
      cases hget₂
      obtain ⟨removed, k₅, hremoved, hmodify⟩ := run_bind_eq_some.mp hremove
      obtain ⟨hremoved', hk⟩ := run_ofOption_eq_some hremoved
      subst hk
      obtain ⟨_, _, hmodified, hanswer⟩ := run_bind_eq_some.mp hmodify
      cases hmodified
      have hinv : HistoryInv { k₃ with world := w, opFD := removed.2 } space :=
        ⟨h.ok.remove hconsole.1 hconsole.2 hremoved', h.holding.remove hheld hclosed hremoved'⟩
      exact hinv.answer hanswer

theorem historyInv_started (h : StartedProcess k space) : HistoryInv k space := by
  obtain ⟨data, hopFD⟩ := h.opFD
  have hlive {f : FileId} (hf : (k.world.files f).isSome ∧ f < k.world.nextFile) : Live k.world f :=
    ⟨Option.isSome_map.trans hf.1, hf.2⟩
  have hnone (i : Nat) (f : FileId) : ¬ Held k.opFD i f := by
    rw [hopFD]
    rintro ⟨hhas, hdata⟩
    have hlt : i < 2 := (Table.has_iff.mp hhas).1
    rcases (by omega : i = 0 ∨ i = 1) with rfl | rfl
    · nomatch hdata
    · nomatch hdata
  refine ⟨hopFD ▸ (DescriptorTable.new data).ok, ?_⟩
  exact {
    live := fun hi => absurd hi (hnone _ _)
    apart := fun hi => absurd hi (hnone _ _)
    single := fun hi => absurd hi (hnone _ _)
    exe := hlive h.exe
    swapFD := hlive h.swapFD }

theorem historyInv_step (h : HistoryInv k space) {c : FdCall} (hstep : fdStep me k c = some k') :
    HistoryInv k' space := by
  cases c with
  | «open» mem fileDir =>
    obtain ⟨⟨u, k₁⟩, hrun, rfl⟩ := Option.map_eq_some_iff.mp hstep
    have hmem : HistoryInv { k with mem := mem } space := ⟨h.ok, h.holding⟩
    exact hmem.scOpen hrun
  | close fid =>
    obtain ⟨⟨u, k₁⟩, hrun, rfl⟩ := Option.map_eq_some_iff.mp hstep
    exact h.scClose hrun

end History

/-! ## The destructor -/

section Destructor

variable {w w' : World} {t : Table (Option FileId)} {f : FileId} {i j n : Nat} {me : Filesys.Tid}

/-- The indices from `i` to `j` are in use. -/
def Reached (t : Table (Option FileId)) (i j : Nat) : Prop := ∀ l, i ≤ l → l ≤ j → t.has l = true

/-- A round of the loop. -/
theorem closeDescriptors_succ (hrun : (closeDescriptors me t (n + 1) i).run w = some ((), w')) :
    (t.has i = false ∧ w' = w) ∨ (t.has i = true ∧ ∃ w₁, (deletePointer me (t.data i)).run w = some ((), w₁) ∧
      (closeDescriptors me t n (i + 1)).run w₁ = some ((), w')) := by
  unfold closeDescriptors at hrun
  cases hhas : t.has i with
  | false =>
    rw [hhas] at hrun
    cases hrun
    exact Or.inl ⟨rfl, rfl⟩
  | true =>
    rw [hhas] at hrun
    obtain ⟨item, w₀, hget, hdelete⟩ := run_bind_eq_some.mp hrun
    obtain ⟨hitem, rfl⟩ := run_ofOption_eq_some hget
    rw [Table.get_natCast hhas] at hitem
    obtain rfl := Option.some.inj hitem
    obtain ⟨_, w₁, hpointer, hrest⟩ := run_bind_eq_some.mp hdelete
    exact Or.inr ⟨rfl, w₁, hpointer, hrest⟩

/-- The object of a pointer is gone, and the others are as before. -/
theorem sectors_deletePointer {item : Option FileId} (hrun : (deletePointer me item).run w = some ((), w'))
    (f : FileId) : (books w').sectors f = if item = some f then none else (books w).sectors f := by
  cases item with
  | none =>
    cases hrun
    rfl
  | some g =>
    obtain ⟨s, -, hbooks⟩ := books_deleteOpenFile hrun
    rw [hbooks]
    by_cases hf : f = g
    · rw [hf, if_pos rfl]
      exact Function.update_self ..
    · rw [if_neg fun h => hf (Option.some.inj h).symm]
      exact sectors_closed_of_ne _ hf

/-- The loop closes what it reaches. -/
theorem sectors_closeDescriptors (hrun : (closeDescriptors me t n i).run w = some ((), w')) (f : FileId) :
    (books w').sectors f = (books w).sectors f ∨ (books w').sectors f = none ∧
      ∃ j, i ≤ j ∧ Reached t i j ∧ t.data j = some f := by
  induction n generalizing i w with
  | zero =>
    cases hrun
    exact Or.inl rfl
  | succ n ih =>
    rcases closeDescriptors_succ hrun with ⟨-, rfl⟩ | ⟨hhas, w₁, hpointer, hrest⟩
    · exact Or.inl rfl
    · have hdeleted := sectors_deletePointer hpointer f
      by_cases hitem : t.data i = some f
      · rw [if_pos hitem] at hdeleted
        refine Or.inr ⟨?_, i, Nat.le_refl i, fun l hl hl' => ?_, hitem⟩
        · rcases ih hrest with hsame | ⟨hgone, -⟩
          · exact hsame.trans hdeleted
          · exact hgone
        · rw [Nat.le_antisymm hl' hl]
          exact hhas
      · rw [if_neg hitem] at hdeleted
        rw [← hdeleted]
        refine (ih hrest).imp_right ?_
        rintro ⟨hgone, j, hj, hreached, hdata⟩
        refine ⟨hgone, j, Nat.le_of_succ_le hj, fun l hl hl' => ?_, hdata⟩
        rcases Nat.eq_or_lt_of_le hl with rfl | hlt
        · exact hhas
        · exact hreached l hlt hl'

/-- What the loop reaches is gone. -/
theorem closeDescriptors_gone (hrun : (closeDescriptors me t n i).run w = some ((), w')) (hj : i ≤ j)
    (hn : j < i + n) (hreached : Reached t i j) (hdata : t.data j = some f) : (books w').sectors f = none := by
  induction n generalizing i w with
  | zero => omega
  | succ n ih =>
    rcases closeDescriptors_succ hrun with ⟨hnot, -⟩ | ⟨-, w₁, hpointer, hrest⟩
    · rw [hreached i (Nat.le_refl i) hj] at hnot
      cases hnot
    · rcases Nat.eq_or_lt_of_le hj with rfl | hlt
      · have hdeleted := sectors_deletePointer hpointer f
        rw [if_pos hdata] at hdeleted
        rcases sectors_closeDescriptors hrest f with hsame | ⟨hgone, -⟩
        · exact hsame.trans hdeleted
        · exact hgone
      · exact ih hrest hlt (by omega) fun l hl hl' => hreached l (Nat.le_of_succ_le hl) hl'

end Destructor

/-! ## The theorem -/

section Termination

variable {k k₀ : Kernel} {space : SpaceFiles} {me me' : Filesys.Tid} {calls : List FdCall} {w' : World}

theorem sectors_eq_none {w : World} {f : FileId} : (books w).sectors f = none ↔ w.files f = none :=
  Option.map_eq_none_iff

theorem historyInv_runs (hstart : StartedProcess k₀ space) (hruns : runs (fdStep me) k₀ calls = some k) :
    HistoryInv k space := by
  have hstep : ∀ k c k', HistoryInv k space → True → fdStep me k c = some k' → HistoryInv k' space :=
    fun _ _ _ h _ hstep => historyInv_step h hstep
  exact runs_inv hstep (historyInv_started hstart) (AllSteps.trivial calls k₀) hruns

/-- An object without a descriptor stays open. -/
theorem sectors_deleteThread {f : FileId} (hrun : (deleteThread me' space k.opFD).run k.world = some ((), w'))
    (hf : ∀ i, ¬ Held k.opFD i f) : (books w').sectors f = (books k.world).sectors f := by
  rcases sectors_closeDescriptors (n := k.opFD.current) (i := 0) hrun f with hsame | ⟨-, j, -, hreached, hdata⟩
  · exact hsame
  · exact absurd ⟨hreached j (Nat.zero_le j) (Nat.le_refl j), hdata⟩ (hf j)

/-- The files of the address space stay open. -/
theorem space_stays (h : HistoryInv k space) (hrun : (deleteThread me' space k.opFD).run k.world = some ((), w')) :
    w'.files space.exe ≠ none ∧ w'.files space.swapFD ≠ none := by
  have hstays {f : FileId} (hlive : Live k.world f) (hf : ∀ i, ¬ Held k.opFD i f) : w'.files f ≠ none := by
    intro hnone
    have hsome := hlive.1
    rw [← sectors_deleteThread hrun hf, sectors_eq_none.mpr hnone] at hsome
    cases hsome
  exact ⟨hstays h.holding.exe fun _ hi => (h.holding.apart hi).1 rfl,
    hstays h.holding.swapFD fun _ hi => (h.holding.apart hi).2 rfl⟩

/-- The descriptors are all closed if and only if there is no gap before any of them. -/
theorem descriptors_closed_iff (h : HistoryInv k space)
    (hrun : (deleteThread me' space k.opFD).run k.world = some ((), w')) :
    (∀ f ∈ openDescriptors k.opFD, w'.files f = none) ↔ NoGap k.opFD := by
  constructor
  · intro hclosed i j hij hj
    by_cases hconsole : j < 2
    · exact h.ok.has (Nat.lt_trans hij hconsole)
    obtain ⟨f, hdata⟩ := Option.isSome_iff_exists.mp (h.ok.file j (Nat.not_lt.mp hconsole) hj)
    have hheld : Held k.opFD j f := ⟨hj, hdata⟩
    have hgone := sectors_eq_none.mpr (hclosed f (mem_openDescriptors.mpr ⟨j, hheld⟩))
    rcases sectors_closeDescriptors (n := k.opFD.current) (i := 0) hrun f with
      hsame | ⟨-, j', -, hreached, hdata'⟩
    · have hsome := (h.holding.live hheld).1
      rw [← hsame, hgone] at hsome
      cases hsome
    · have hsingle : j' = j := h.holding.single ⟨hreached j' (Nat.zero_le j') (Nat.le_refl j'), hdata'⟩ hheld
      exact hreached i (Nat.zero_le i) (hsingle ▸ Nat.le_of_lt hij)
  · intro hgap f hf
    obtain ⟨i, hhas, hdata⟩ := mem_openDescriptors.mp hf
    have hlt : i < 0 + k.opFD.current := by
      rw [Nat.zero_add]
      exact (Table.has_iff.mp hhas).1
    refine sectors_eq_none.mp (closeDescriptors_gone hrun (Nat.zero_le i) hlt (fun l _ hl => ?_) hdata)
    rcases Nat.eq_or_lt_of_le hl with rfl | hlt
    · exact hhas
    · exact hgap l i hlt hhas

/-- The end of a process never closes all that it has open: the file of the executable and the swap file stay
open. Its descriptors are all closed if and only if there is no gap before any of them. -/
theorem termination_never_closes (hstart : StartedProcess k₀ space)
    (hruns : runs (fdStep me) k₀ calls = some k) :
    ¬ TerminationCloses me' k space ∧
      ∀ w', (deleteThread me' space k.opFD).run k.world = some ((), w') →
        w'.files space.exe ≠ none ∧ w'.files space.swapFD ≠ none ∧
          ((∀ f ∈ openDescriptors k.opFD, w'.files f = none) ↔ NoGap k.opFD) := by
  have h := historyInv_runs hstart hruns
  constructor
  · rintro ⟨w', hrun, hcloses⟩
    exact (space_stays h hrun).1 (hcloses.closed _ (List.mem_cons_self ..))
  · intro w' hrun
    exact ⟨(space_stays h hrun).1, (space_stays h hrun).2, descriptors_closed_iff h hrun⟩

end Termination

/-! ## A process without files -/

/-- An object for the file at `sector`. -/
def fileAt (sector : Nat) : OpenFile :=
  { hdr := RawFileHeader.empty fun _ => 0, seekPosition := 0, sector := sector, currentSector := sector }

/-- A process whose executable is the file at sector 6 and whose swap file is that at sector 7. -/
def startedKernel : Kernel :=
  { freshKernel with
    world := { freshKernel.world with
      files := fun f => if f = 0 then some (fileAt 6) else if f = 1 then some (fileAt 7) else none
      nextFile := 2 } }

theorem startedKernel_started : StartedProcess startedKernel { exe := 0, swapFD := 1 } where
  opFD := ⟨fun _ => none, rfl⟩
  exe := ⟨rfl, Nat.zero_lt_two⟩
  swapFD := ⟨rfl, Nat.one_lt_two⟩

theorem termination_never_closes_sample :
    runs (fdStep 0) startedKernel [.close 7] = some { startedKernel with r2 := BitVec.ofInt 32 (-1) } ∧
      ¬ TerminationCloses 0 { startedKernel with r2 := BitVec.ofInt 32 (-1) } { exe := 0, swapFD := 1 } := by
  have hruns : runs (fdStep 0) startedKernel [.close 7] =
      some { startedKernel with r2 := BitVec.ofInt 32 (-1) } := rfl
  exact ⟨hruns, (termination_never_closes startedKernel_started hruns).1⟩

/-- The process that makes no call leaves its executable and its swap file open. -/
theorem swapFile_stays_open : StartedProcess startedKernel { exe := 0, swapFD := 1 } ∧
    runs (fdStep 0) startedKernel [] = some startedKernel ∧
      ¬ TerminationCloses 0 startedKernel { exe := 0, swapFD := 1 } := by
  refine ⟨startedKernel_started, rfl, ?_⟩
  rintro ⟨w', hrun, hcloses⟩
  cases hrun
  have hswap := hcloses.closed 1 (List.mem_cons_of_mem _ (List.mem_cons_self ..))
  cases hswap

end Nachos.Userprog
