import Nachos.Filesys.Proofs.FileLocksProofs
import Nachos.Filesys.Proofs.OpenCountsProofs

/-!
# Proofs: what the calls do to the open-file table

The locks that the open-file table refers to exist and are distinct, and a call that returns, with no other thread
around, has released every lock that it took. No other assumption on the state is made.
-/

namespace Nachos.Filesys

open Foundations Resumption

/-! ## The locks of the table -/

/-- The locks of the open-file table. A write lock is deleted with the last object of its file, so it has to be no
other lock. -/
structure TableLocks (w : World) : Prop where
  fresh : ∀ l, w.nextLock ≤ l → w.locks l = none
  create : (w.locks filesysCreateLock).isSome
  close : ∀ s l, (w.table s).closeLock = some l → (w.locks l).isSome
  remove : ∀ s l, (w.table s).removeLock = some l → (w.locks l).isSome
  write_lt : ∀ s l, (w.table s).writeLock = some l → l < w.nextLock
  hasClose : ∀ s, (w.table s).count ≠ 0 → (w.table s).closeLock ≠ none
  hasWrite : ∀ s, (w.table s).count ≠ 0 → ∃ l, (w.table s).writeLock = some l ∧ (w.locks l).isSome
  write_ne : ∀ s s' l, (w.table s).writeLock = some l →
    l ≠ filesysCreateLock ∧ (w.table s').closeLock ≠ some l ∧ (w.table s').removeLock ≠ some l
  write_inj : ∀ s s' l, (w.table s).writeLock = some l → (w.table s').writeLock = some l → s = s'

section TableLocks

variable {w w' : World} {s : Nat}

theorem lt_nextLock_of_isSome (hfresh : ∀ l, w.nextLock ≤ l → w.locks l = none) {l : LockId}
    (hl : (w.locks l).isSome) : l < w.nextLock := by
  by_contra hge
  rw [hfresh l (Nat.le_of_not_lt hge)] at hl
  cases hl

/-- An entry keeps its locks or gets new ones. -/
theorem TableLocks.setEntry {e : OpenDirEntry} (h : TableLocks w)
    (htable : w'.table = Function.update w.table s e) (hnext : w.nextLock ≤ w'.nextLock)
    (hold : ∀ l, l < w.nextLock → w'.locks l = w.locks l) (hfresh : ∀ l, w'.nextLock ≤ l → w'.locks l = none)
    (hwrite : ∀ l, e.writeLock = some l →
      (w.table s).writeLock = some l ∨ w.nextLock ≤ l ∧ l < w'.nextLock)
    (hclose : ∀ l, e.closeLock = some l →
      (w.table s).closeLock = some l ∨ w.nextLock ≤ l ∧ (w'.locks l).isSome ∧ e.writeLock ≠ some l)
    (hremove : ∀ l, e.removeLock = some l →
      (w.table s).removeLock = some l ∨ w.nextLock ≤ l ∧ (w'.locks l).isSome ∧ e.writeLock ≠ some l)
    (hopen : e.count ≠ 0 → e.closeLock ≠ none ∧ ∃ l, e.writeLock = some l ∧ (w'.locks l).isSome) :
    TableLocks w' := by
  have hs : w'.table s = e := by
    rw [htable]
    exact Function.update_self ..
  have hother : ∀ t, t ≠ s → w'.table t = w.table t := by
    intro t ht
    rw [htable]
    exact Function.update_of_ne ht _ _
  have hkeep : ∀ l, (w.locks l).isSome → l < w.nextLock ∧ (w'.locks l).isSome := by
    intro l hl
    have hlt := lt_nextLock_of_isSome h.fresh hl
    exact ⟨hlt, by rw [hold l hlt]; exact hl⟩
  -- a lock of the table is an old one or a new one of this entry
  have hwrite' : ∀ t l, (w'.table t).writeLock = some l →
      (w.table t).writeLock = some l ∧ l < w.nextLock ∨
        t = s ∧ e.writeLock = some l ∧ w.nextLock ≤ l ∧ l < w'.nextLock := by
    intro t l hl
    by_cases ht : t = s
    · rw [ht, hs] at hl
      rcases hwrite l hl with hw | hw
      · rw [ht]
        exact Or.inl ⟨hw, h.write_lt s l hw⟩
      · exact Or.inr ⟨ht, hl, hw⟩
    · rw [hother t ht] at hl
      exact Or.inl ⟨hl, h.write_lt t l hl⟩
  have hclose' : ∀ t l, (w'.table t).closeLock = some l →
      (w.table t).closeLock = some l ∧ (w.locks l).isSome ∨
        w.nextLock ≤ l ∧ (w'.locks l).isSome ∧ e.writeLock ≠ some l := by
    intro t l hl
    by_cases ht : t = s
    · rw [ht, hs] at hl
      rw [ht]
      exact (hclose l hl).imp (fun hc => ⟨hc, h.close s l hc⟩) id
    · rw [hother t ht] at hl
      exact Or.inl ⟨hl, h.close t l hl⟩
  have hremove' : ∀ t l, (w'.table t).removeLock = some l →
      (w.table t).removeLock = some l ∧ (w.locks l).isSome ∨
        w.nextLock ≤ l ∧ (w'.locks l).isSome ∧ e.writeLock ≠ some l := by
    intro t l hl
    by_cases ht : t = s
    · rw [ht, hs] at hl
      rw [ht]
      exact (hremove l hl).imp (fun hr => ⟨hr, h.remove s l hr⟩) id
    · rw [hother t ht] at hl
      exact Or.inl ⟨hl, h.remove t l hl⟩
  refine ⟨hfresh, (hkeep _ h.create).2, ?_, ?_, ?_, ?_, ?_, ?_, ?_⟩
  · intro t l hl
    rcases hclose' t l hl with ⟨-, hsome⟩ | ⟨-, hsome, -⟩
    · exact (hkeep l hsome).2
    · exact hsome
  · intro t l hl
    rcases hremove' t l hl with ⟨-, hsome⟩ | ⟨-, hsome, -⟩
    · exact (hkeep l hsome).2
    · exact hsome
  · intro t l hl
    rcases hwrite' t l hl with ⟨-, hlt⟩ | ⟨-, -, -, hlt⟩
    · exact Nat.lt_of_lt_of_le hlt hnext
    · exact hlt
  · intro t ht
    by_cases hts : t = s
    · rw [hts, hs] at ht ⊢
      exact (hopen ht).1
    · rw [hother t hts] at ht ⊢
      exact h.hasClose t ht
  · intro t ht
    by_cases hts : t = s
    · rw [hts, hs] at ht ⊢
      exact (hopen ht).2
    · rw [hother t hts] at ht ⊢
      obtain ⟨l, hl, hsome⟩ := h.hasWrite t ht
      exact ⟨l, hl, (hkeep l hsome).2⟩
  · intro t t' l hl
    rcases hwrite' t l hl with ⟨hw, hlt⟩ | ⟨-, he, hge, -⟩
    · obtain ⟨hne0, hneClose, hneRemove⟩ := h.write_ne t t' l hw
      refine ⟨hne0, fun hc => ?_, fun hr => ?_⟩
      · rcases hclose' t' l hc with ⟨hc, -⟩ | ⟨hge, -⟩
        · exact hneClose hc
        · exact Nat.not_lt.mpr hge hlt
      · rcases hremove' t' l hr with ⟨hr, -⟩ | ⟨hge, -⟩
        · exact hneRemove hr
        · exact Nat.not_lt.mpr hge hlt
    · refine ⟨?_, fun hc => ?_, fun hr => ?_⟩
      · rintro rfl
        exact Nat.not_lt.mpr hge (hkeep _ h.create).1
      · rcases hclose' t' l hc with ⟨-, hsome⟩ | ⟨-, -, hne⟩
        · exact Nat.not_lt.mpr hge (hkeep l hsome).1
        · exact hne he
      · rcases hremove' t' l hr with ⟨-, hsome⟩ | ⟨-, -, hne⟩
        · exact Nat.not_lt.mpr hge (hkeep l hsome).1
        · exact hne he
  · intro t t' l hl hl'
    rcases hwrite' t l hl with ⟨hw, hlt⟩ | ⟨ht, -, hge, -⟩
    · rcases hwrite' t' l hl' with ⟨hw', -⟩ | ⟨-, -, hge', -⟩
      · exact h.write_inj t t' l hw hw'
      · exact absurd hlt (Nat.not_lt.mpr hge')
    · rcases hwrite' t' l hl' with ⟨-, hlt'⟩ | ⟨ht', -⟩
      · exact absurd hlt' (Nat.not_lt.mpr hge)
      · rw [ht, ht']

/-- No entry gets other locks or is opened, and the locks exist as before, but for a write lock of no open file. -/
theorem TableLocks.mono (h : TableLocks w) (hnext : w'.nextLock = w.nextLock)
    (hentry : ∀ s, (w'.table s).closeLock = (w.table s).closeLock ∧
      (w'.table s).removeLock = (w.table s).removeLock ∧ (w'.table s).writeLock = (w.table s).writeLock ∧
      ((w'.table s).count ≠ 0 → (w.table s).count ≠ 0))
    (hnone : ∀ l, w.locks l = none → w'.locks l = none)
    (hsome : ∀ l, (w.locks l).isSome → (w'.locks l).isSome ∨
      ∃ s, (w.table s).writeLock = some l ∧ (w'.table s).count = 0) : TableLocks w' := by
  have hkept : ∀ l, (w.locks l).isSome → (∀ s, (w.table s).writeLock ≠ some l) → (w'.locks l).isSome := by
    intro l hl hne
    refine (hsome l hl).resolve_right ?_
    rintro ⟨s, hs, -⟩
    exact hne s hs
  refine ⟨?_, ?_, ?_, ?_, ?_, ?_, ?_, ?_, ?_⟩
  · intro l hl
    rw [hnext] at hl
    exact hnone l (h.fresh l hl)
  · exact hkept _ h.create fun s hs => (h.write_ne s s _ hs).1 rfl
  · intro s l hl
    rw [(hentry s).1] at hl
    exact hkept l (h.close s l hl) fun t ht => (h.write_ne t s l ht).2.1 hl
  · intro s l hl
    rw [(hentry s).2.1] at hl
    exact hkept l (h.remove s l hl) fun t ht => (h.write_ne t s l ht).2.2 hl
  · intro s l hl
    rw [(hentry s).2.2.1] at hl
    rw [hnext]
    exact h.write_lt s l hl
  · intro s hs
    rw [(hentry s).1]
    exact h.hasClose s ((hentry s).2.2.2 hs)
  · intro s hs
    obtain ⟨l, hl, hlsome⟩ := h.hasWrite s ((hentry s).2.2.2 hs)
    refine ⟨l, (hentry s).2.2.1.trans hl, (hsome l hlsome).resolve_right ?_⟩
    rintro ⟨t, ht, hcount⟩
    rw [h.write_inj s t l hl ht] at hs
    exact hs hcount
  · intro s s' l hl
    rw [(hentry s).2.2.1] at hl
    rw [(hentry s').1, (hentry s').2.1]
    exact h.write_ne s s' l hl
  · intro s s' l hl hl'
    rw [(hentry s).2.2.1] at hl
    rw [(hentry s').2.2.1] at hl'
    exact h.write_inj s s' l hl hl'

end TableLocks

/-! ## Steps -/

/-- The table and the locks are the same. -/
structure SameTable (w w' : World) : Prop where
  table_eq : w'.table = w.table
  locks_eq : w'.locks = w.locks
  nextLock_eq : w'.nextLock = w.nextLock

instance : IsPreorder World SameTable where
  refl _ := ⟨rfl, rfl, rfl⟩
  trans _ _ _ h h' := ⟨h'.table_eq.trans h.table_eq, h'.locks_eq.trans h.locks_eq,
    h'.nextLock_eq.trans h.nextLock_eq⟩

theorem allows_sameTable (f : FileId) : Allows f SameTable where
  disk _ _ := ⟨rfl, rfl, rfl⟩
  heap _ _ := ⟨rfl, rfl, rfl⟩
  file _ _ _ _ _ := ⟨rfl, rfl, rfl⟩

/-- What stays of an entry when files are opened and closed. -/
structure SameFlags (e e' : OpenDirEntry) : Prop where
  removing_eq : e'.removing = e.removing
  removed_eq : e'.removed = e.removed
  madeByCreate_eq : e'.madeByCreate = e.madeByCreate

/-- Only locks in `P` are held that were not before, and only entries in `T` may have other flags. -/
structure HeldStep (P : LockId → Prop) (T : Nat → Prop) (w w' : World) : Prop where
  held : ∀ l t, w'.locks l = some { lockOwner := some t } →
    w.locks l = some { lockOwner := some t } ∨ P l
  flags : ∀ s, ¬ T s → SameFlags (w.table s) (w'.table s)

instance (P : LockId → Prop) (T : Nat → Prop) : IsPreorder World (HeldStep P T) where
  refl _ := ⟨fun _ _ h => Or.inl h, fun _ _ => ⟨rfl, rfl, rfl⟩⟩
  trans _ _ _ h h' := by
    refine ⟨fun l t hl => ?_, fun s hs => ?_⟩
    · rcases h'.held l t hl with hl | hl
      · exact h.held l t hl
      · exact Or.inr hl
    · obtain ⟨hremoving, hremoved, hmade⟩ := h.flags s hs
      obtain ⟨hremoving', hremoved', hmade'⟩ := h'.flags s hs
      exact ⟨hremoving'.trans hremoving, hremoved'.trans hremoved, hmade'.trans hmade⟩

/-- The locks of the table stay in order, too. -/
structure TableStep (P : LockId → Prop) (T : Nat → Prop) (w w' : World) : Prop extends HeldStep P T w w' where
  tableLocks : TableLocks w → TableLocks w'

instance (P : LockId → Prop) (T : Nat → Prop) : IsPreorder World (TableStep P T) where
  refl w := ⟨refl w, fun h => h⟩
  trans _ _ _ h h' :=
    ⟨IsTrans.trans _ _ _ h.toHeldStep h'.toHeldStep, fun hw => h'.tableLocks (h.tableLocks hw)⟩

section Steps

variable {P P' : LockId → Prop} {T T' : Nat → Prop} {w w' : World} {me : Tid} {s : Nat} {name : Name}

theorem TableStep.mono (h : TableStep P T w w') (hP : ∀ l, P l → P' l) (hT : ∀ s, T s → T' s) :
    TableStep P' T' w w' :=
  ⟨⟨fun l t hl => (h.held l t hl).imp id (hP l), fun s hs => h.flags s fun ht => hs (hT s ht)⟩, h.tableLocks⟩

theorem SameTable.tableStep (h : SameTable w w') : TableStep P T w w' := by
  have hentry : ∀ s, w'.table s = w.table s := fun s => by rw [h.table_eq]
  refine ⟨⟨fun l t hl => Or.inl ?_, fun s _ => ?_⟩,
    fun hw => hw.mono h.nextLock_eq (fun s => ?_) (fun l hl => ?_) fun l hl => Or.inl ?_⟩
  · rw [← h.locks_eq]
    exact hl
  · rw [hentry s]
    exact ⟨rfl, rfl, rfl⟩
  · rw [hentry s]
    exact ⟨rfl, rfl, rfl, fun h => h⟩
  · rw [h.locks_eq]
    exact hl
  · rw [h.locks_eq]
    exact hl

theorem moves_tableStep {α : Type} {m : Fs α} (h : m.Moves SameTable) : m.Moves (TableStep P T) :=
  h.mono fun _ _ hsame => hsame.tableStep

/-! ### Locks -/

/-- The owner of a lock that exists changes. -/
theorem TableLocks.setOwner {l : LockId} {lock : Lock} (h : TableLocks w) (hl : w.locks l = some lock)
    (o : Option Tid) : TableLocks (w.setLocks (Function.update w.locks l (some { lockOwner := o }))) := by
  refine h.mono rfl (fun s => ⟨rfl, rfl, rfl, fun h => h⟩) (fun x hx => ?_) fun x hx => Or.inl ?_
  · have hne : x ≠ l := by
      rintro rfl
      rw [hx] at hl
      cases hl
    show Function.update w.locks l _ x = none
    rw [Function.update_of_ne hne]
    exact hx
  · show (Function.update w.locks l (some { lockOwner := o }) x).isSome
    by_cases hxl : x = l
    · rw [hxl, Function.update_self]
      rfl
    · rw [Function.update_of_ne hxl]
      exact hx

theorem tableStep_acquire {l : LockId} (hl : P l) : (acquire me (some l)).Moves (TableStep P T) := by
  intro w _ w' hr
  obtain ⟨x, hx, hfree, rfl⟩ := acquire_inv hr
  cases hx
  refine ⟨⟨fun y t hy => ?_, fun _ _ => ⟨rfl, rfl, rfl⟩⟩, fun h => h.setOwner hfree _⟩
  by_cases hyl : y = l
  · rw [hyl]
    exact Or.inr hl
  · change Function.update w.locks l _ y = _ at hy
    rw [Function.update_of_ne hyl] at hy
    exact Or.inl hy

/-- What a release does. -/
theorem release_eq {lo : Option LockId} {u : Unit} (hr : (release me lo).run w = some (u, w')) :
    ∃ l lock, lo = some l ∧ w.locks l = some lock ∧
      w' = w.setLocks (Function.update w.locks l (some { lockOwner := none })) := by
  obtain ⟨x, w1, hl, hr⟩ := run_bind_eq_some.mp hr
  obtain ⟨hlo, hw1⟩ := run_ofOption_eq_some hl
  rw [hw1, run_bind, run_getState, Option.bind_some] at hr
  obtain ⟨lock, w2, hlock, hr⟩ := run_bind_eq_some.mp hr
  obtain ⟨hlock, hw2⟩ := run_ofOption_eq_some hlock
  rw [hw2] at hr
  obtain ⟨_, w3, hassert, hr⟩ := run_bind_eq_some.mp hr
  obtain ⟨-, hw3⟩ := run_assert_eq_some hassert
  rw [hw3] at hr
  cases hr
  exact ⟨x, lock, hlo, hlock, rfl⟩

theorem tableStep_release {lo : Option LockId} : (release me lo).Moves (TableStep P T) := by
  intro w _ w' hr
  obtain ⟨l, lock, -, hlock, rfl⟩ := release_eq hr
  refine ⟨⟨fun y t hy => Or.inl ?_, fun _ _ => ⟨rfl, rfl, rfl⟩⟩, fun h => h.setOwner hlock _⟩
  change Function.update w.locks l _ y = _ at hy
  by_cases hyl : y = l
  · rw [hyl, Function.update_self] at hy
    cases hy
  · rw [Function.update_of_ne hyl] at hy
    exact hy

/-- A lock that is released at the end is not held. -/
theorem TableStep.released {w2 : World} {l : LockId} {u : Unit} (h : TableStep (fun x => P x ∨ x = l) T w w2)
    (hr : (release me (some l)).run w2 = some (u, w')) : TableStep P T w w' := by
  have h' := IsTrans.trans _ _ _ h (tableStep_release _ _ _ hr)
  refine ⟨⟨fun x t hx => ?_, h'.flags⟩, h'.tableLocks⟩
  obtain ⟨y, lock, hy, -, rfl⟩ := release_eq hr
  cases hy
  have hxl : x ≠ l := by
    rintro rfl
    change Function.update w2.locks x _ x = _ at hx
    rw [Function.update_self] at hx
    cases hx
  exact (h'.held x t hx).imp id fun hp => hp.resolve_right hxl

/-! ### Entries -/

theorem getEntry_eq {e : OpenDirEntry} (hr : (getEntry s).run w = some (e, w')) :
    s < numSectors ∧ e = w.table s ∧ w' = w := by
  obtain ⟨_, w1, hassert, hr⟩ := run_bind_eq_some.mp hr
  obtain ⟨hlt, hw1⟩ := run_assert_eq_some hassert
  rw [hw1] at hr
  cases hr
  exact ⟨by simpa using hlt, rfl, rfl⟩

theorem modifyEntry_eq {g : OpenDirEntry → OpenDirEntry} {u : Unit}
    (hr : (modifyEntry s g).run w = some (u, w')) :
    s < numSectors ∧ w' = { w with table := Function.update w.table s (g (w.table s)) } := by
  obtain ⟨e, w1, hget, hr⟩ := run_bind_eq_some.mp hr
  obtain ⟨hlt, he, hw1⟩ := getEntry_eq hget
  rw [hw1, he] at hr
  cases hr
  exact ⟨hlt, rfl⟩

theorem sameTable_getEntry : (getEntry s).Moves SameTable := by
  intro w e w' hr
  obtain ⟨-, -, rfl⟩ := getEntry_eq hr
  exact ⟨rfl, rfl, rfl⟩

theorem tableStep_getEntry : (getEntry s).Moves (TableStep P T) := moves_tableStep sameTable_getEntry

/-- An entry keeps its locks and is not opened. -/
structure SameLocks (e e' : OpenDirEntry) : Prop where
  closeLock_eq : e'.closeLock = e.closeLock
  removeLock_eq : e'.removeLock = e.removeLock
  writeLock_eq : e'.writeLock = e.writeLock
  count_le : e'.count ≤ e.count

theorem TableLocks.setFlags {e : OpenDirEntry} (h : TableLocks w) (he : SameLocks (w.table s) e) :
    TableLocks { w with table := Function.update w.table s e } := by
  have hentry : ∀ t, SameLocks (w.table t) (Function.update w.table s e t) := by
    intro t
    by_cases ht : t = s
    · rw [ht, Function.update_self]
      exact he
    · rw [Function.update_of_ne ht]
      exact ⟨rfl, rfl, rfl, Nat.le_refl _⟩
  refine h.mono rfl (fun t => ?_) (fun l hl => hl) fun l hl => Or.inl hl
  refine ⟨(hentry t).closeLock_eq, (hentry t).removeLock_eq, (hentry t).writeLock_eq, fun hne h0 => hne ?_⟩
  exact Nat.le_zero.mp (Nat.le_trans (hentry t).count_le (Nat.le_of_eq h0))

theorem heldStep_modifyEntry {g : OpenDirEntry → OpenDirEntry} (hflags : ∀ e, ¬ T s → SameFlags e (g e)) :
    (modifyEntry s g).Moves (HeldStep P T) := by
  intro w _ w' hr
  obtain ⟨-, rfl⟩ := modifyEntry_eq hr
  refine ⟨fun _ _ hl => Or.inl hl, fun t ht => ?_⟩
  by_cases hts : t = s
  · rw [hts] at ht ⊢
    show SameFlags _ (Function.update w.table s _ s)
    rw [Function.update_self]
    exact hflags _ ht
  · show SameFlags _ (Function.update w.table s _ t)
    rw [Function.update_of_ne hts]
    exact ⟨rfl, rfl, rfl⟩

theorem tableStep_modifyEntry {g : OpenDirEntry → OpenDirEntry} (hg : ∀ e, SameLocks e (g e))
    (hflags : ∀ e, ¬ T s → SameFlags e (g e)) : (modifyEntry s g).Moves (TableStep P T) := by
  intro w u w' hr
  refine ⟨heldStep_modifyEntry hflags w u w' hr, fun h => ?_⟩
  obtain ⟨-, rfl⟩ := modifyEntry_eq hr
  exact h.setFlags (hg _)

/-! ### Opening and closing -/

/-- The constructor gives the entry its locks when nobody else has the file open. -/
theorem TableLocks.newOpenFile {f : FileId} (h : TableLocks w)
    (hr : (newOpenFile s).run w = some (f, w')) (hs : s < numSectors) : TableLocks w' := by
  by_cases hcount : (w.table s).count = 0
  · obtain ⟨lw, lr, lc, w1, hrun1, hfirst⟩ := run_newOpenFile_first hs hcount
    rw [hrun1] at hr
    cases hr
    have hlw : lw < w'.nextLock :=
      lt_nextLock_of_isSome (hfirst.fresh h.fresh) (by rw [hfirst.lw_free]; rfl)
    refine h.setEntry hfirst.table_eq hfirst.nextLock_le hfirst.locks_eq (hfirst.fresh h.fresh) ?_ ?_ ?_ ?_
    · rintro l ⟨⟩
      exact Or.inr ⟨Nat.le_of_eq hfirst.lw_eq.symm, hlw⟩
    · rintro l ⟨⟩
      refine hfirst.lc_free.imp id fun hc => ⟨Nat.le_of_lt hc.1, by rw [hc.2]; rfl, ?_⟩
      rintro ⟨⟩
      exact Nat.ne_of_gt hc.1 hfirst.lw_eq
    · rintro l ⟨⟩
      refine hfirst.lr_free.imp id fun hc => ⟨Nat.le_of_lt hc.1, by rw [hc.2]; rfl, ?_⟩
      rintro ⟨⟩
      exact Nat.ne_of_gt hc.1 hfirst.lw_eq
    · intro _
      exact ⟨Option.some_ne_none lc, lw, rfl, by rw [hfirst.lw_free]; rfl⟩
  · -- the entry has its locks, and only counts one more object
    rw [Filesys.newOpenFile] at hr
    simp only [run_bind, run_readSector hs, Option.bind_some, run_getEntry hs, initLocks, if_neg hcount, run_pure,
      run_modifyEntry hs, run_getState, run_modifyState] at hr
    cases hr
    refine h.setEntry rfl (Nat.le_refl _) (fun _ _ => rfl) h.fresh (fun l hl => Or.inl hl)
      (fun l hl => Or.inl hl) (fun l hl => Or.inl hl) fun _ => ⟨h.hasClose s hcount, h.hasWrite s hcount⟩

theorem newOpenFile_lt {f : FileId} (hr : (newOpenFile s).run w = some (f, w')) : s < numSectors := by
  obtain ⟨_, w1, hread, -⟩ := run_bind_eq_some.mp hr
  by_contra hs
  simp [readSector, run_assert, hs] at hread

theorem heldStep_newLock : newLock.Moves (HeldStep P T) := by
  refine Moves.getState.bind fun _ => (Moves.modifyState fun w => ?_).bind fun _ => Moves.pure _
  refine ⟨fun l t hl => Or.inl ?_, fun _ _ => ⟨rfl, rfl, rfl⟩⟩
  change Function.update w.locks w.nextLock _ l = _ at hl
  by_cases hlw : l = w.nextLock
  · rw [hlw, Function.update_self] at hl
    cases hl
  · rw [Function.update_of_ne hlw] at hl
    exact hl

theorem heldStep_ensureLock (o : Option LockId) : (ensureLock o).Moves (HeldStep P T) := by
  cases o with
  | none => exact heldStep_newLock.bind fun _ => Moves.pure _
  | some l => exact Moves.pure _

theorem heldStep_newOpenFile : (newOpenFile s).Moves (HeldStep P T) := by
  have hsame : ∀ {α : Type} {m : Fs α}, m.Moves SameTable → m.Moves (HeldStep P T) :=
    fun h => h.mono fun _ _ hs => (hs.tableStep : TableStep P T _ _).toHeldStep
  refine (hsame (along_readSector (allows_sameTable 0) s).moves).bind fun _ =>
    (hsame sameTable_getEntry).bind fun _ => Moves.bind (Moves.ite ?_ (Moves.pure _)) fun _ =>
      Moves.bind (heldStep_modifyEntry ?_) fun _ => Moves.getState.bind fun _ =>
        Moves.bind (Moves.modifyState ?_) fun _ => Moves.pure _
  · exact heldStep_newLock.bind fun _ => (heldStep_ensureLock _).bind fun _ => (heldStep_ensureLock _).bind fun _ =>
      heldStep_modifyEntry fun _ _ => ⟨rfl, rfl, rfl⟩
  · exact fun _ _ => ⟨rfl, rfl, rfl⟩
  · exact fun _ => ⟨fun _ _ hl => Or.inl hl, fun _ _ => ⟨rfl, rfl, rfl⟩⟩

theorem tableStep_newOpenFile : (newOpenFile s).Moves (TableStep P T) := by
  intro w f w' hr
  exact ⟨heldStep_newOpenFile w f w' hr, fun h => h.newOpenFile hr (newOpenFile_lt hr)⟩

/-- With the last object of a file its write lock goes. -/
theorem TableLocks.deleteLock {l : LockId} (h : TableLocks w) (hl : (w.table s).writeLock = some l)
    (hcount : (w.table s).count = 0) : TableLocks { w with locks := Function.update w.locks l none } := by
  refine h.mono rfl (fun t => ⟨rfl, rfl, rfl, fun h => h⟩) (fun x hx => ?_) fun x hx => ?_
  · show Function.update w.locks l none x = none
    by_cases hxl : x = l
    · rw [hxl, Function.update_self]
    · rw [Function.update_of_ne hxl]
      exact hx
  · show (Function.update w.locks l none x).isSome ∨ _
    by_cases hxl : x = l
    · rw [hxl]
      exact Or.inr ⟨s, hl, hcount⟩
    · rw [Function.update_of_ne hxl]
      exact Or.inl hx

theorem tableStep_closeLast : (closeLast s).Moves (TableStep P T) := by
  intro w u w' hr
  obtain ⟨e, w1, hget, hr⟩ := run_bind_eq_some.mp hr
  obtain ⟨-, rfl, rfl⟩ := getEntry_eq hget
  split at hr
  · rename_i hcount
    obtain ⟨_, w2, hnotify, hr⟩ := run_bind_eq_some.mp hr
    have hw2 : w2 = w1 := by
      rw [notifyRemover] at hnotify
      split at hnotify
      · rw [run_channelSend] at hnotify
        cases hnotify
      · cases hnotify
        rfl
    rw [hw2] at hr
    obtain ⟨e, w3, hget, hr⟩ := run_bind_eq_some.mp hr
    obtain ⟨-, rfl, rfl⟩ := getEntry_eq hget
    cases hl : (w3.table s).writeLock with
    | none =>
      rw [hl] at hr
      cases hr
      exact refl _
    | some l =>
      rw [hl] at hr
      obtain ⟨_, w4, hstate, hr⟩ := run_bind_eq_some.mp hr
      cases hstate
      obtain ⟨_, w5, hassert, hr⟩ := run_bind_eq_some.mp hr
      obtain ⟨-, hw5⟩ := run_assert_eq_some hassert
      rw [hw5] at hr
      cases hr
      refine ⟨⟨fun x t hx => Or.inl ?_, fun _ _ => ⟨rfl, rfl, rfl⟩⟩, fun h => h.deleteLock hl hcount⟩
      change Function.update w3.locks l none x = _ at hx
      by_cases hxl : x = l
      · rw [hxl, Function.update_self] at hx
        cases hx
      · rw [Function.update_of_ne hxl] at hx
        exact hx
  · cases hr
    exact refl _

theorem sameTable_forgetFile (f : FileId) : (forgetFile f).Moves SameTable :=
  Moves.modifyState fun _ => ⟨rfl, rfl, rfl⟩

theorem tableStep_deleteOpenFile (f : FileId) : (deleteOpenFile me f).Moves (TableStep P T) := by
  intro w u w' hr
  obtain ⟨file, w1, hfile, hr⟩ := run_bind_eq_some.mp hr
  rw [(run_getFile_eq hfile).1] at hr
  obtain ⟨e, w2, hget, hr⟩ := run_bind_eq_some.mp hr
  obtain ⟨-, rfl, rfl⟩ := getEntry_eq hget
  obtain ⟨_, w3, hacquire, hr⟩ := run_bind_eq_some.mp hr
  obtain ⟨l, hl, hfree, hw3⟩ := acquire_inv hacquire
  rw [hl] at hacquire
  have h3 : TableStep (fun x => P x ∨ x = l) T w2 w3 := tableStep_acquire (Or.inr rfl) _ _ _ hacquire
  obtain ⟨e, w4, hget, hr⟩ := run_bind_eq_some.mp hr
  obtain ⟨-, rfl, rfl⟩ := getEntry_eq hget
  -- the lock that is released is the one that was taken
  have hsame : (w4.table file.sector).closeLock = some l := by
    rw [hw3]
    exact hl
  rw [hsame] at hr
  split at hr
  · obtain ⟨_, w5, hmodify, hr⟩ := run_bind_eq_some.mp hr
    obtain ⟨_, w6, hrelease, hr⟩ := run_bind_eq_some.mp hr
    have h5 : TableStep (fun x => P x ∨ x = l) T w4 w5 := by
      refine tableStep_modifyEntry ?_ ?_ _ _ _ hmodify
      · exact fun e => ⟨rfl, rfl, rfl, Nat.sub_le _ _⟩
      · exact fun e _ => ⟨rfl, rfl, rfl⟩
    have h6 : TableStep P T w2 w6 := (IsTrans.trans _ _ _ h3 h5).released hrelease
    exact IsTrans.trans _ _ _ h6
      ((tableStep_closeLast.bind fun _ => (moves_tableStep (sameTable_forgetFile f))) _ _ _ hr)
  · obtain ⟨_, w5, hrelease, hr⟩ := run_bind_eq_some.mp hr
    exact IsTrans.trans _ _ _ (h3.released hrelease) ((moves_tableStep (sameTable_forgetFile f)) _ _ _ hr)

/-! ### Transfers -/

theorem sameTable_malloc (use : HeapUse) : (malloc use).Moves SameTable :=
  (along_malloc (allows_sameTable 0) use).moves

theorem sameTable_writeSector (s : Nat) (data : Sector) : (writeSector s data).Moves SameTable :=
  (along_writeSector (allows_sameTable 0) s data).moves

theorem sameTable_read (f : FileId) (n : Nat) (isDirectory : Bool) : (read f n isDirectory).Moves SameTable :=
  (along_read (allows_sameTable f) n isDirectory).moves

/-- The object `f` is for the same file, too. -/
structure SameSector (f : FileId) (w w' : World) : Prop extends SameTable w w' where
  sector_eq : (w'.files f).map OpenFile.sector = (w.files f).map OpenFile.sector

instance (f : FileId) : IsPreorder World (SameSector f) where
  refl w := ⟨refl w, rfl⟩
  trans _ _ _ h h' :=
    ⟨IsTrans.trans _ _ _ h.toSameTable h'.toSameTable, h'.sector_eq.trans h.sector_eq⟩

theorem allows_sameSector (f : FileId) : Allows f (SameSector f) where
  disk _ _ := ⟨⟨rfl, rfl, rfl⟩, rfl⟩
  heap _ _ := ⟨⟨rfl, rfl, rfl⟩, rfl⟩
  file w file file' hf hsector := by
    refine ⟨⟨rfl, rfl, rfl⟩, ?_⟩
    show (Function.update w.files f (some file') f).map OpenFile.sector = _
    rw [Function.update_self, hf, Option.map_some, Option.map_some, hsector]

/-- `Write` releases the lock that it takes. -/
theorem sameTable_write (f : FileId) (data : List UInt8) (isDirectory : Bool) :
    (write me f data isDirectory).Moves SameTable := by
  intro w n w' hr
  have hf := allows_sameSector f
  obtain ⟨_, w1, hassert, hr⟩ := run_bind_eq_some.mp hr
  obtain ⟨-, hw1⟩ := run_assert_eq_some hassert
  rw [hw1] at hr
  obtain ⟨file, w2, hfile, hr⟩ := run_bind_eq_some.mp hr
  obtain ⟨hw2, hfile⟩ := run_getFile_eq hfile
  rw [hw2] at hr
  obtain ⟨e, w3, hget, hr⟩ := run_bind_eq_some.mp hr
  obtain ⟨-, rfl, rfl⟩ := getEntry_eq hget
  obtain ⟨_, w4, hacquire, hr⟩ := run_bind_eq_some.mp hr
  obtain ⟨l, hl, hfree, hw4⟩ := acquire_inv hacquire
  obtain ⟨_, w5, hrewind, hr⟩ := run_bind_eq_some.mp hr
  obtain ⟨file5, w6, hfile5, hr⟩ := run_bind_eq_some.mp hr
  rw [(run_getFile_eq hfile5).1] at hr
  obtain ⟨_, w7, hfetch, hr⟩ := run_bind_eq_some.mp hr
  have h7 : SameSector f w4 w7 := IsTrans.trans _ _ _ ((along_rewindWrite hf _).moves _ _ _ hrewind)
    ((along_fetchHdr hf _).moves _ _ _ hfetch)
  obtain ⟨file7, w8, hfile7, hr⟩ := run_bind_eq_some.mp hr
  obtain ⟨hw8, hfile7⟩ := run_getFile_eq hfile7
  rw [hw8] at hr
  obtain ⟨m, w9, hmap, hr⟩ := run_bind_eq_some.mp hr
  obtain ⟨st, w10, hbody, hr⟩ := run_bind_eq_some.mp hr
  have h10 : SameSector f w4 w10 := IsTrans.trans _ _ _ h7 (IsTrans.trans _ _ _
    ((along_fetchFreeMap hf).moves _ _ _ hmap) ((along_writeBody hf _ _).moves _ _ _ hbody))
  obtain ⟨e, w11, hget, hr⟩ := run_bind_eq_some.mp hr
  obtain ⟨-, rfl, rfl⟩ := getEntry_eq hget
  obtain ⟨_, w12, hrelease, hr⟩ := run_bind_eq_some.mp hr
  cases hr
  -- the lock that is released is the one that was taken
  have hsector : file7.sector = file.sector := by
    have hsame := h7.sector_eq
    rw [hfile7, hw4] at hsame
    change _ = Option.map _ (w3.files f) at hsame
    rw [hfile] at hsame
    exact Option.some.inj hsame
  have hlock : (w11.table file7.sector).writeLock = some l := by
    rw [h10.table_eq, hsector, hw4]
    exact hl
  obtain ⟨l', lock, hl', -, rfl⟩ := release_eq hrelease
  rw [hlock] at hl'
  cases hl'
  refine ⟨?_, ?_, ?_⟩
  · show w11.table = w3.table
    rw [h10.table_eq, hw4]
    rfl
  · show Function.update w11.locks l (some { lockOwner := none }) = w3.locks
    rw [h10.locks_eq, hw4]
    show Function.update (Function.update w3.locks l _) l _ = _
    rw [Function.update_idem, ← hfree, Function.update_eq_self]
  · show w11.nextLock = w3.nextLock
    rw [h10.nextLock_eq, hw4]
    rfl

theorem sameTable_fetchFreeMap : fetchFreeMap.Moves SameTable := (along_fetchFreeMap (allows_sameTable 0)).moves

theorem sameTable_writeBackFreeMap (m : Bitmap) : (writeBackFreeMap m).Moves SameTable :=
  (along_writeBackFreeMap (allows_sameTable 0) m).moves

theorem sameTable_newDirectory (size : Nat) : (Directory.new size).Moves SameTable :=
  (Moves.assert _).bind fun _ => (sameTable_malloc _).bind fun _ => Moves.pure _

theorem sameTable_fetchFrom (dir : Directory) (f : FileId) : (dir.fetchFrom f).Moves SameTable :=
  (sameTable_read f _ _).bind fun _ => Moves.pure _

theorem sameTable_fetchTableSize (f : FileId) : (Directory.fetchTableSize f).Moves SameTable :=
  (sameTable_read f _ _).bind fun _ => Moves.pure _

theorem sameTable_writeBackFirst (dir : Directory) (f : FileId) : (dir.writeBackFirst f).Moves SameTable :=
  (along_writeAt (allows_sameTable f) f _ _).moves.bind fun _ => Moves.pure _

theorem sameTable_fetchDirectory : fetchDirectory.Moves SameTable :=
  Moves.getState.bind fun _ => (sameTable_newDirectory _).bind fun _ => Moves.getState.bind fun _ =>
    sameTable_fetchFrom _ _

theorem sameTable_writeBackDirectory (dir : Directory) : (writeBackDirectory me dir).Moves SameTable :=
  Moves.getState.bind fun _ => (sameTable_write _ _ _).bind fun _ => Moves.pure _

theorem sameTable_add (dir : Directory) (t : Nat) (isDirectory : Bool) :
    (dir.add name t isDirectory).Moves SameTable := by
  refine Moves.ite (Moves.pure _) ?_
  split
  · exact Moves.pure _
  · exact (sameTable_malloc _).bind fun _ =>
      (Moves.modifyState fun _ => ⟨rfl, rfl, rfl⟩).bind fun _ => Moves.pure _

/-! ### Directories -/

theorem tableStep_openFile : (openFile name).Moves (TableStep P T) := by
  refine (moves_tableStep sameTable_fetchDirectory).bind fun _ => Moves.ite ?_ (Moves.pure _)
  refine tableStep_getEntry.bind fun _ => Moves.ite (Moves.pure _) ?_
  exact tableStep_newOpenFile.bind fun _ => Moves.pure _

theorem tableStep_switchDirectory (f old : FileId) : (switchDirectory me f old).Moves (TableStep P T) := by
  have hset : ∀ g : World → World, (∀ w, SameTable w (g w)) →
      (Resumption.modifyState g).Moves (TableStep P T) :=
    fun g hg => moves_tableStep (Moves.modifyState hg)
  refine Moves.bind (hset _ fun _ => ⟨rfl, rfl, rfl⟩) fun _ => (tableStep_deleteOpenFile old).bind fun _ => ?_
  exact Moves.getState.bind fun _ => (moves_tableStep (sameTable_fetchTableSize _)).bind fun _ =>
    hset _ fun _ => ⟨rfl, rfl, rfl⟩

theorem tableStep_walkPath (names : List Name) : ∀ dir, (walkPath me names dir).Moves (TableStep P T) := by
  induction names with
  | nil => exact fun _ => Moves.pure _
  | cons name names ih =>
    intro dir
    refine Moves.ite ?_ (Moves.pure _)
    exact Moves.getState.bind fun _ => tableStep_openFile.bind fun _ => (Moves.ofOption _).bind fun _ =>
      (tableStep_switchDirectory _ _).bind fun _ => (moves_tableStep sameTable_fetchDirectory).bind fun _ => ih _

theorem tableStep_changeDirRootPath (onlyChange : Bool) :
    (changeDirRootPath me name onlyChange).Moves (TableStep P T) := by
  have hset : ∀ g : World → World, (∀ w, SameTable w (g w)) →
      (Resumption.modifyState g).Moves (TableStep P T) :=
    fun g hg => moves_tableStep (Moves.modifyState hg)
  refine (Moves.assert _).bind fun _ => Moves.getState.bind fun _ => tableStep_newOpenFile.bind fun _ => ?_
  refine (moves_tableStep (sameTable_fetchTableSize _)).bind fun _ =>
    (moves_tableStep (sameTable_newDirectory _)).bind fun _ => (moves_tableStep (sameTable_fetchFrom _ _)).bind fun _ =>
      Moves.bind (hset _ fun _ => ⟨rfl, rfl, rfl⟩) fun _ => ?_
  refine (tableStep_walkPath _ _).bind fun _ => Moves.ite (Moves.bind ?_ fun _ => Moves.pure _) ?_
  · exact Moves.ite (tableStep_deleteOpenFile _) (Moves.pure _)
  · exact Moves.bind (hset _ fun _ => ⟨rfl, rfl, rfl⟩) fun _ => Moves.pure _

theorem tableStep_changeDir (onlyChange : Bool) : (changeDir me name onlyChange).Moves (TableStep P T) := by
  refine Moves.ite (tableStep_changeDirRootPath _) ?_
  refine (moves_tableStep sameTable_fetchDirectory).bind fun _ => Moves.ite ?_ (Moves.pure _)
  exact tableStep_openFile.bind fun _ => (Moves.ofOption _).bind fun _ => Moves.getState.bind fun _ =>
    (tableStep_switchDirectory _ _).bind fun _ => Moves.pure _

theorem tableStep_resolvePath : (resolvePath me name).Moves (TableStep P T) := by
  refine Moves.ite (Moves.ite (Moves.pure _) ?_) (Moves.pure _)
  exact (Moves.assert _).bind fun _ => Moves.getState.bind fun _ => (tableStep_changeDir _).bind fun _ =>
    Moves.ite (Moves.pure _) (Moves.pure _)

theorem tableStep_restoreDirectory (backup : Option FileId) :
    (restoreDirectory me backup).Moves (TableStep P T) := by
  cases backup with
  | none => exact Moves.pure _
  | some f => exact Moves.getState.bind fun _ => tableStep_switchDirectory _ _

/-! ### Making and removing files -/

theorem tableStep_resetEntry (hT : T s) (made : Bool) : (resetEntry s made).Moves (TableStep P T) := by
  intro w u w' hr
  refine ⟨(heldStep_newLock.bind fun _ => heldStep_modifyEntry fun _ h => absurd hT h) _ _ _ hr, fun h => ?_⟩
  obtain ⟨w1, hrun1, hnew, hfree, hlt⟩ := run_newLock w
  rw [resetEntry, run_bind, hrun1, Option.bind_some] at hr
  have hfresh := fresh_newLock hrun1 h.fresh
  obtain ⟨-, rfl⟩ := modifyEntry_eq hr
  obtain ⟨locks, nextLock, rfl⟩ := hnew.eq_with
  refine h.setEntry rfl hnew.nextLock_le hnew.locks_eq hfresh ?_ ?_ ?_ ?_
  · rintro l ⟨⟩
  · rintro l ⟨⟩
  · rintro l ⟨⟩
    exact Or.inr ⟨Nat.le_refl _, by rw [hfree]; rfl, by rintro ⟨⟩⟩
  · intro hne
    exact absurd rfl hne

theorem tableStep_flushNewFile (hT : T s) (m : Bitmap) (dir : Directory) :
    (flushNewFile me s m dir).Moves (TableStep P T) :=
  (moves_tableStep (sameTable_malloc _)).bind fun _ => (moves_tableStep (sameTable_writeSector _ _)).bind fun _ =>
    (moves_tableStep (sameTable_writeBackFreeMap _)).bind fun _ =>
      (moves_tableStep (sameTable_writeBackDirectory _)).bind fun _ => tableStep_resetEntry hT _

theorem tableStep_flushNewDirectory (hT : T s) (hdr : RawFileHeader) (m : Bitmap) (dir : Directory) :
    (flushNewDirectory me s hdr m dir).Moves (TableStep P T) :=
  (moves_tableStep (sameTable_writeSector _ _)).bind fun _ => (moves_tableStep (sameTable_writeBackFreeMap _)).bind fun _ =>
    (moves_tableStep (sameTable_newDirectory _)).bind fun _ => tableStep_newOpenFile.bind fun _ =>
      (moves_tableStep (sameTable_writeBackFirst _ _)).bind fun _ =>
        (moves_tableStep (sameTable_writeBackDirectory _)).bind fun _ => tableStep_resetEntry hT _

theorem sameTable_freeHeaders (fuel : Nat) : ∀ s h m, (freeHeaders fuel s h m).Moves SameTable := by
  induction fuel with
  | zero => exact fun _ _ _ => Moves.fail
  | succ fuel ih =>
    intro s h m
    refine (Moves.ofOption _).bind fun _ => Moves.ite ?_ (Moves.pure _)
    exact (along_readSector (allows_sameTable 0) _).moves.bind fun _ => ih _ _ _

theorem sameTable_waitForClose : (waitForClose me s).Moves SameTable := by
  refine sameTable_getEntry.bind fun _ => Moves.ite ?_ (Moves.pure _)
  refine Moves.bind ?_ fun _ => Moves.assert _
  exact (Moves.awaitUntil _).bind fun _ => Moves.getState.bind fun _ =>
    (Moves.modifyState fun _ => ⟨rfl, rfl, rfl⟩).bind fun _ => Moves.pure _

theorem table_acquireRemove {lo : Option LockId} {u : Unit} (hr : (acquireRemove me lo).run w = some (u, w')) :
    w'.table = w.table := by
  cases lo with
  | none =>
    cases hr
    rfl
  | some l =>
    obtain ⟨_, -, -, rfl⟩ := acquire_inv hr
    rfl

/-- `Remove` releases the remove lock that it has taken, and is not removing any more. -/
theorem tableStep_removeSector {w1 : World} {lo : Option LockId} {dir : Directory} {u : Unit} (hT : T s)
    (hlo : (w.table s).removeLock = lo) (hacquire : (acquireRemove me lo).run w = some ((), w1))
    (hr : (removeSector me s name dir).run w1 = some (u, w')) :
    TableStep P T w w' ∧ (w'.table s).removing = false := by
  obtain ⟨_, w2, hread, hr⟩ := run_bind_eq_some.mp hr
  obtain ⟨_, w3, hmap, hr⟩ := run_bind_eq_some.mp hr
  obtain ⟨_, w4, hmodify, hr⟩ := run_bind_eq_some.mp hr
  obtain ⟨_, w5, hwait, hr⟩ := run_bind_eq_some.mp hr
  obtain ⟨_, w6, hfree, hr⟩ := run_bind_eq_some.mp hr
  obtain ⟨_, w7, hwriteMap, hr⟩ := run_bind_eq_some.mp hr
  obtain ⟨_, w8, hwriteDir, hr⟩ := run_bind_eq_some.mp hr
  obtain ⟨_, w9, hmodify', hr⟩ := run_bind_eq_some.mp hr
  obtain ⟨e, w10, hget, hr⟩ := run_bind_eq_some.mp hr
  obtain ⟨-, rfl, rfl⟩ := getEntry_eq hget
  obtain ⟨_, w11, hrelease, hr⟩ := run_bind_eq_some.mp hr
  have h3 : SameTable w1 w3 := IsTrans.trans _ _ _
    ((along_readSector (allows_sameTable 0) s).moves _ _ _ hread) (sameTable_fetchFreeMap _ _ _ hmap)
  have h8 : SameTable w4 w8 := IsTrans.trans _ _ _ (sameTable_waitForClose _ _ _ hwait) (IsTrans.trans _ _ _
    (sameTable_freeHeaders _ _ _ _ _ _ _ hfree) (IsTrans.trans _ _ _
      (sameTable_writeBackFreeMap _ _ _ _ hwriteMap) (sameTable_writeBackDirectory _ _ _ _ hwriteDir)))
  have hset : ∀ {g : OpenDirEntry → OpenDirEntry} {a : Unit} {v v' : World},
      (modifyEntry s g).run v = some (a, v') → (∀ e, SameLocks e (g e)) → TableStep P T v v' :=
    fun hrun hg => tableStep_modifyEntry hg (fun _ h => absurd hT h) _ _ _ hrun
  have h10 : TableStep P T w1 w10 := IsTrans.trans _ _ _ h3.tableStep (IsTrans.trans _ _ _
    (hset hmodify fun _ => ⟨rfl, rfl, rfl, Nat.le_refl _⟩) (IsTrans.trans _ _ _ h8.tableStep
      (hset hmodify' fun _ => ⟨rfl, rfl, rfl, Nat.le_refl _⟩)))
  have hlast : TableStep P T w11 w' := hset hr fun _ => ⟨rfl, rfl, rfl, Nat.le_refl _⟩
  have hend : (w'.table s).removing = false := by
    obtain ⟨-, rfl⟩ := modifyEntry_eq hr
    show (Function.update w11.table s _ s).removing = false
    rw [Function.update_self]
  have hlock : (w10.table s).removeLock = (w1.table s).removeLock := by
    obtain ⟨-, rfl⟩ := modifyEntry_eq hmodify'
    show (Function.update w8.table s _ s).removeLock = _
    rw [Function.update_self, h8.table_eq]
    obtain ⟨-, rfl⟩ := modifyEntry_eq hmodify
    show (Function.update w3.table s _ s).removeLock = _
    rw [Function.update_self, h3.table_eq]
  refine ⟨?_, hend⟩
  cases lo with
  | none =>
    cases hacquire
    rw [hlock, hlo] at hrelease
    cases hrelease
    exact IsTrans.trans _ _ _ h10 hlast
  | some l =>
    have h1 : TableStep (fun x => P x ∨ x = l) T w w1 := tableStep_acquire (Or.inr rfl) _ _ _ hacquire
    obtain ⟨l', hl', -, hw1⟩ := acquire_inv hacquire
    rw [hlock, hw1] at hrelease
    change (releaseRemove me (w.table s).removeLock).run w10 = _ at hrelease
    rw [hlo] at hrelease
    have h11 : TableStep P T w w11 :=
      (IsTrans.trans _ _ _ h1 (h10.mono (fun _ h => Or.inl h) fun _ h => h)).released hrelease
    exact IsTrans.trans _ _ _ h11 hlast

end Steps

/-! ## Between the calls -/

/-- Between the calls no lock is held, and no file is being removed. -/
structure AtRest (w : World) : Prop where
  tableLocks : TableLocks w
  free : ∀ l t, w.locks l ≠ some { lockOwner := some t }
  removing : ∀ s, (w.table s).removing = false

section AtRest

variable {T : Nat → Prop} {w w' : World}

theorem AtRest.step (h : AtRest w) (hstep : TableStep (fun _ => False) T w w')
    (hT : ∀ s, T s → (w'.table s).removing = false) : AtRest w' := by
  refine ⟨hstep.tableLocks h.tableLocks, fun l t hl => ?_, fun s => ?_⟩
  · rcases hstep.held l t hl with hl | hfalse
    · exact h.free l t hl
    · exact hfalse
  · by_cases hs : T s
    · exact hT s hs
    · rw [(hstep.flags s hs).removing_eq]
      exact h.removing s

theorem AtRest.lock_free (h : AtRest w) {l : LockId} (hl : (w.locks l).isSome) :
    w.locks l = some { lockOwner := none } := by
  obtain ⟨⟨o⟩, hlock⟩ := Option.isSome_iff_exists.mp hl
  cases o with
  | none => exact hlock
  | some t => exact absurd hlock (h.free l t)

theorem AtRest.fileLocksOk (h : AtRest w) : FileLocksOk w where
  removing := h.removing
  close s l hl := h.lock_free (h.tableLocks.close s l hl)
  hasClose := h.tableLocks.hasClose
  write s hs := by
    obtain ⟨l, hl, hsome⟩ := h.tableLocks.hasWrite s hs
    exact ⟨l, hl, h.lock_free hsome⟩
  write_ne_close s s' l _ hl := (h.tableLocks.write_ne s s' l hl).2.1
  write_inj s s' l _ _ hl hl' := h.tableLocks.write_inj s s' l hl hl'

end AtRest

end Nachos.Filesys
