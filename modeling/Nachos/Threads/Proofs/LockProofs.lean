import Nachos.Threads.Discipline
import Nachos.Threads.Proofs.SemaphoreProofs

/-!
# Proofs: locks

In a system that uses its locks properly at most one thread is anywhere between the `P` of its
`Acquire` and the `V` of its `Release`, the semaphore has its unit exactly when there is none, and the
owner of the lock is the thread that holds it. So no `ASSERT` of the primitives fails.
-/

namespace Nachos.Synch

open Foundations

variable {L C S κ ι σ : Type} [DecidableEq L] [DecidableEq C] [DecidableEq S]
  {sys : System L C S κ ι σ} {d : Discipline sys} {s s' s0 : State L C S κ σ} {t u : Tid} {l : L}
  {f : Frame L C S κ} {rest : List (Frame L C S κ)}

/-! ## Phases -/

theorem phaseOf_append (lockOf : C → L) (code : κ → L → Option Use) (l : L)
    (fs gs : List (Frame L C S κ)) (last : Phase) :
    phaseOf lockOf code l (fs ++ gs) last =
      phaseOf lockOf code l fs (phaseOf lockOf code l gs last) := by
  induction fs with
  | nil => rfl
  | cons f fs ih =>
    simp only [List.cons_append, phaseOf]
    cases f.use lockOf code l with
    | none => exact ih
    | some u => rfl

theorem fits_append (lockOf : C → L) (code : κ → L → Option Use) (l : L)
    (fs gs : List (Frame L C S κ)) (last : Phase) :
    Fits lockOf code l (fs ++ gs) last ↔
      Fits lockOf code l fs (phaseOf lockOf code l gs last) ∧ Fits lockOf code l gs last := by
  induction fs with
  | nil => simp [Fits]
  | cons f fs ih => simp only [List.cons_append, Fits, phaseOf_append, ih, and_assoc]

/-- Where the thread `t` is with the lock `l`. -/
def State.phase (d : Discipline sys) (s : State L C S κ σ) (t : Tid) (l : L) : Phase :=
  phaseOf sys.lockOf d.use l (s.stack t) (d.home s.shared t l)

/-- The stacks fit together. -/
def State.Proper (d : Discipline sys) (s : State L C S κ σ) : Prop :=
  ∀ t l, Fits sys.lockOf d.use l (s.stack t) (d.home s.shared t l)

/-! ## What a step does with a lock -/

/-- What a step of the thread `t` can do with the lock `l`: nothing, take the unit of its semaphore,
become the owner, give up being the owner, or give back the unit. -/
inductive LockMove (v v' : Int) (o o' : Option Tid) (t : Tid) : Phase → Phase → Prop where
  | none (ph : Phase) : v' = v → o' = o → LockMove v v' o o' t ph ph
  | take : v ≠ 0 → v' = v - 1 → o' = o → LockMove v v' o o' t .out .got
  | own : v' = v → o' = some t → LockMove v v' o o' t .got .held
  | release : v' = v → o' = Option.none → LockMove v v' o o' t .held .leaving
  | free : v' = v + 1 → o' = o → LockMove v v' o o' t .leaving .out

/-- The value of a semaphore that `P` or `V` on another one leaves alone. -/
theorem value_update_of_ne {f : SemId L S → Semaphore} {j k : SemId L S} (sem : Semaphore)
    (h : j ≠ k) : (Function.update f k sem j).value = (f j).value := by
  rw [Function.update_of_ne h]

/-- The code of the system does not move anybody's home. -/
theorem execFrame_home (h : s.execFrame sys t f rest = some s') :
    d.home s'.shared = d.home s.shared := by
  by_cases hk : ∃ k, f = .code k
  · obtain ⟨k, rfl⟩ := hk
    simp only [State.execFrame, Option.map_eq_some_iff] at h
    obtain ⟨r, hr, rfl⟩ := h
    exact d.exec_home hr
  · rw [execFrame_shared h fun k hf => hk ⟨k, hf⟩]

/-- A step keeps the stack of its thread proper and makes one of the moves on each lock. -/
theorem execFrame_move (hstack : s.stack t = f :: rest)
    (hfit : Fits sys.lockOf d.use l (f :: rest) (d.home s.shared t l))
    (h : s.execFrame sys t f rest = some s') :
    Fits sys.lockOf d.use l (s'.stack t) (d.home s.shared t l) ∧
    LockMove (s.semaphores (.lock l)).value (s'.semaphores (.lock l)).value (s.lockOwner l)
      (s'.lockOwner l) t (s.phase d t l)
      (phaseOf sys.lockOf d.use l (s'.stack t) (d.home s.shared t l)) := by
  have hph : s.phase d t l = phaseOf sys.lockOf d.use l (f :: rest) (d.home s.shared t l) := by
    rw [State.phase, hstack]
  rw [hph]
  generalize d.home s.shared t l = last at hfit ⊢
  obtain ⟨hnext, hrest⟩ := hfit
  cases f with
  | p k =>
    simp only [State.execFrame, State.p] at h
    split at h
    · cases h
      refine ⟨?_, ?_⟩
      · simp only [hstack]
        exact ⟨hnext, hrest⟩
      · simp only [hstack]
        refine LockMove.none _ ?_ rfl
        by_cases hk : SemId.lock l = k
        · subst hk
          simp
        · exact value_update_of_ne _ hk
    · rename_i hz
      cases h
      refine ⟨by simpa using hrest, ?_⟩
      simp only [Function.update_self]
      cases k with
      | lock l' =>
        by_cases hl : l' = l
        · subst hl
          have := hnext ⟨.out, .got⟩ (by simp [Frame.use])
          simp only [phaseOf, Frame.use, if_true, this, Function.update_self]
          exact LockMove.take hz rfl rfl
        · have hne : SemId.lock l ≠ (SemId.lock l' : SemId L S) := by
            intro e
            cases e
            exact hl rfl
          simp only [phaseOf, Frame.use, if_neg hl]
          exact LockMove.none _ (value_update_of_ne _ hne) rfl
      | user n => exact LockMove.none _ (value_update_of_ne _ (by simp)) rfl
      | sleeper n => exact LockMove.none _ (value_update_of_ne _ (by simp)) rfl
  | v k =>
    have hv : s'.stack t = rest ∧ s'.lockOwner = s.lockOwner ∧
        (∀ j, j ≠ k → s'.semaphores j = s.semaphores j) ∧
        (s'.semaphores k).value = (s.semaphores k).value + 1 := by
      simp only [State.execFrame, State.v] at h
      split at h <;> cases h <;> exact ⟨by simp, by simp, fun j hj => by simp [hj], by simp⟩
    obtain ⟨h1, h3, h4, h5⟩ := hv
    rw [h1, h3]
    refine ⟨hrest, ?_⟩
    cases k with
    | lock l' =>
      by_cases hl : l' = l
      · subst hl
        have := hnext ⟨.leaving, .out⟩ (by simp [Frame.use])
        simp only [phaseOf, Frame.use, if_true, this]
        exact LockMove.free h5 rfl
      · simp only [phaseOf, Frame.use, if_neg hl]
        refine LockMove.none _ ?_ rfl
        rw [h4 (.lock l) (by simpa using Ne.symm hl)]
    | user n => exact LockMove.none _ (by rw [h4 _ (by simp)]) rfl
    | sleeper n => exact LockMove.none _ (by rw [h4 _ (by simp)]) rfl
  | acquire l' =>
    simp only [State.execFrame] at h
    split at h
    · cases h
    · cases h
      simp only [State.setStack, Function.update_self]
      by_cases hl : l' = l
      · subst hl
        have := hnext ⟨.out, .held⟩ (by simp [Frame.use])
        refine ⟨?_, ?_⟩
        · simp [Fits, Frame.use, phaseOf, this, hrest]
        · simp only [phaseOf, Frame.use, if_true]
          exact LockMove.none _ rfl rfl
      · refine ⟨?_, ?_⟩
        · simp [Fits, Frame.use, hl, hrest]
        · simp only [phaseOf, Frame.use, if_neg hl]
          exact LockMove.none _ rfl rfl
  | own l' =>
    cases h
    simp only [State.setStack, Function.update_self]
    refine ⟨hrest, ?_⟩
    by_cases hl : l' = l
    · subst hl
      have := hnext ⟨.got, .held⟩ (by simp [Frame.use])
      simp only [phaseOf, Frame.use, if_true, this, Function.update_self]
      exact LockMove.own rfl rfl
    · simp only [phaseOf, Frame.use, if_neg hl]
      exact LockMove.none _ rfl (by simp [Ne.symm hl])
  | release l' =>
    simp only [State.execFrame] at h
    split at h
    · cases h
      simp only [State.setStack, Function.update_self]
      by_cases hl : l' = l
      · subst hl
        have := hnext ⟨.held, .out⟩ (by simp [Frame.use])
        refine ⟨?_, ?_⟩
        · simp [Fits, Frame.use, this, hrest]
        · simp only [phaseOf, Frame.use, if_true, Function.update_self]
          exact LockMove.release rfl rfl
      · refine ⟨?_, ?_⟩
        · simp [Fits, Frame.use, hl, hrest]
        · simp only [phaseOf, Frame.use, if_neg hl]
          exact LockMove.none _ rfl (by simp [Ne.symm hl])
    · cases h
  | wait c =>
    simp only [State.execFrame] at h
    split at h
    · cases h
      simp only [State.setStack, Function.update_self]
      by_cases hl : sys.lockOf c = l
      · have := hnext ⟨.held, .held⟩ (by simp [Frame.use, hl])
        refine ⟨?_, ?_⟩
        · simp [Fits, Frame.use, phaseOf, this, hrest, hl]
        · simp only [phaseOf, Frame.use, hl, if_true]
          exact LockMove.none _ rfl rfl
      · refine ⟨?_, ?_⟩
        · simp [Fits, Frame.use, hl, hrest]
        · simp only [phaseOf, Frame.use, if_neg hl]
          exact LockMove.none _ rfl rfl
    · cases h
  | waitReturn c n =>
    cases h
    simp only [State.addLog, State.setStack, Function.update_self]
    refine ⟨hrest, ?_⟩
    by_cases hl : sys.lockOf c = l
    · have := hnext ⟨.held, .held⟩ (by simp [Frame.use, hl])
      simp only [phaseOf, Frame.use, hl, if_true, this]
      exact LockMove.none _ rfl rfl
    · simp only [phaseOf, Frame.use, if_neg hl]
      exact LockMove.none _ rfl rfl
  | signal c =>
    have hs : ∃ fs, (fs = [] ∨ ∃ n, fs = [Frame.v (SemId.sleeper n)]) ∧ s'.stack t = fs ++ rest ∧
        s'.semaphores = s.semaphores ∧ s'.lockOwner = s.lockOwner := by
      simp only [State.execFrame] at h
      split at h
      · split at h
        · cases h
          exact ⟨[], Or.inl rfl, by simp [State.setStack], rfl, rfl⟩
        · cases h
          exact ⟨_, Or.inr ⟨_, rfl⟩, by simp only [State.setStack, Function.update_self]; rfl,
            rfl, rfl⟩
      · cases h
    obtain ⟨fs, hfs, h1, h3, h4⟩ := hs
    rw [h1, h3, h4, phaseOf_append, fits_append]
    have hnone : ∀ ph, phaseOf sys.lockOf d.use l fs ph = ph ∧ Fits sys.lockOf d.use l fs ph := by
      intro ph
      rcases hfs with rfl | ⟨n, rfl⟩ <;> simp [phaseOf, Fits, Frame.use]
    refine ⟨⟨(hnone _).2, hrest⟩, ?_⟩
    rw [(hnone _).1]
    by_cases hl : sys.lockOf c = l
    · have := hnext ⟨.held, .held⟩ (by simp [Frame.use, hl])
      simp only [phaseOf, Frame.use, hl, if_true, this]
      exact LockMove.none _ rfl rfl
    · simp only [phaseOf, Frame.use, if_neg hl]
      exact LockMove.none _ rfl rfl
  | broadcast c progress =>
    have hs : ∃ fs, (fs = [] ∨ ∃ n pr, fs = [Frame.v (SemId.sleeper n), Frame.broadcast c pr]) ∧
        s'.stack t = fs ++ rest ∧ s'.semaphores = s.semaphores ∧ s'.lockOwner = s.lockOwner := by
      simp only [State.execFrame] at h
      split at h
      · cases h
        exact ⟨[], Or.inl rfl, by simp [State.setStack, State.addLog], rfl, rfl⟩
      · split at h
        · cases h
          exact ⟨_, Or.inr ⟨_, _, rfl⟩, by simp only [State.setStack, Function.update_self]; rfl,
            rfl, rfl⟩
        · cases h
    obtain ⟨fs, hfs, h1, h3, h4⟩ := hs
    rw [h1, h3, h4, phaseOf_append, fits_append]
    by_cases hl : sys.lockOf c = l
    · have := hnext ⟨.held, .held⟩ (by simp [Frame.use, hl])
      have hfs' : phaseOf sys.lockOf d.use l fs .held = .held ∧ Fits sys.lockOf d.use l fs .held := by
        rcases hfs with rfl | ⟨n, pr, rfl⟩ <;> simp [phaseOf, Fits, Frame.use, hl]
      rw [this]
      refine ⟨⟨hfs'.2, hrest⟩, ?_⟩
      rw [hfs'.1]
      simp only [phaseOf, Frame.use, hl, if_true]
      exact LockMove.none _ rfl rfl
    · have hfs' : ∀ ph, phaseOf sys.lockOf d.use l fs ph = ph ∧ Fits sys.lockOf d.use l fs ph := by
        intro ph
        rcases hfs with rfl | ⟨n, pr, rfl⟩ <;> simp [phaseOf, Fits, Frame.use, hl]
      refine ⟨⟨(hfs' _).2, hrest⟩, ?_⟩
      rw [(hfs' _).1]
      simp only [phaseOf, Frame.use, if_neg hl]
      exact LockMove.none _ rfl rfl
  | code k =>
    simp only [State.execFrame, Option.map_eq_some_iff] at h
    obtain ⟨r, hr, rfl⟩ := h
    obtain ⟨hfit', hphase⟩ := d.exec_fits hr l (phaseOf sys.lockOf d.use l rest last) hnext
    simp only [State.setStack, Function.update_self, phaseOf_append, fits_append]
    refine ⟨⟨hfit', hrest⟩, ?_⟩
    rw [hphase]
    have : ((d.use k l).map Use.before).getD (phaseOf sys.lockOf d.use l rest last) =
        phaseOf sys.lockOf d.use l (.code k :: rest) last := by
      simp only [phaseOf, Frame.use]
      cases d.use k l <;> rfl
    rw [this]
    exact LockMove.none _ rfl rfl

/-! ## The invariant -/

/-- The invariant of the lock `l`. -/
structure LockInv (d : Discipline sys) (s : State L C S κ σ) (l : L) : Prop where
  unique : ∀ t u, s.phase d t l ≠ .out → s.phase d u l ≠ .out → t = u
  value : (s.semaphores (.lock l)).value = 1 ∧ (∀ t, s.phase d t l = .out) ∨
    (s.semaphores (.lock l)).value = 0 ∧ ∃ t, s.phase d t l ≠ .out
  owner : ∀ t, s.lockOwner l = some t ↔ s.phase d t l = .held

/-- A step in which the other threads stay where they are. -/
theorem LockInv.move (h : LockInv d s l) (hother : ∀ u, u ≠ t → s'.phase d u l = s.phase d u l)
    (hm : LockMove (s.semaphores (.lock l)).value (s'.semaphores (.lock l)).value (s.lockOwner l)
      (s'.lockOwner l) t (s.phase d t l) (s'.phase d t l)) : LockInv d s' l := by
  -- whoever is not out besides `t` makes `t` out
  have hout : s.phase d t l ≠ .out → ∀ u, u ≠ t → s'.phase d u l = .out := by
    intro ht u hu
    rw [hother u hu]
    by_contra hne
    exact hu (h.unique u t hne ht)
  have hunique : (∀ u, u ≠ t → s'.phase d u l = .out) →
      ∀ u w, s'.phase d u l ≠ .out → s'.phase d w l ≠ .out → u = w := by
    intro hothers u w hu hw
    have hut : u = t := by
      by_contra hne
      exact hu (hothers u hne)
    have hwt : w = t := by
      by_contra hne
      exact hw (hothers w hne)
    rw [hut, hwt]
  generalize hp : s.phase d t l = ph at hm hout
  generalize hp' : s'.phase d t l = ph' at hm
  cases hm with
  | none _ hv ho =>
    have hsame : ∀ u, s'.phase d u l = s.phase d u l := by
      intro u
      by_cases hu : u = t
      · rw [hu, hp, hp']
      · exact hother u hu
    refine ⟨?_, ?_, ?_⟩
    · intro u w hu hw
      rw [hsame] at hu hw
      exact h.unique u w hu hw
    · simp only [hv, hsame]
      exact h.value
    · intro u
      rw [ho, hsame]
      exact h.owner u
  | take hz hv ho =>
    obtain ⟨hone, hall⟩ | ⟨hzero, -⟩ := h.value
    · have hothers : ∀ u, u ≠ t → s'.phase d u l = .out := fun u hu => by rw [hother u hu, hall u]
      refine ⟨?_, Or.inr ⟨by rw [hv, hone]; rfl, t, by rw [hp']; simp⟩, ?_⟩
      · exact hunique hothers
      · intro u
        rw [ho, h.owner u, hall u]
        by_cases hu : u = t
        · rw [hu, hp']
          simp
        · rw [hothers u hu]
    · exact absurd hzero hz
  | own hv ho =>
    have hothers := hout (by simp)
    refine ⟨?_, ?_, ?_⟩
    · exact hunique hothers
    · obtain ⟨-, hall⟩ | ⟨hzero, -⟩ := h.value
      · rw [hall t] at hp
        cases hp
      · exact Or.inr ⟨by rw [hv, hzero], t, by rw [hp']; simp⟩
    · intro u
      rw [ho]
      by_cases hu : u = t
      · rw [hu, hp']
        simp
      · rw [hothers u hu]
        simp [Ne.symm hu]
  | release hv ho =>
    have hothers := hout (by simp)
    refine ⟨?_, ?_, ?_⟩
    · exact hunique hothers
    · obtain ⟨-, hall⟩ | ⟨hzero, -⟩ := h.value
      · rw [hall t] at hp
        cases hp
      · exact Or.inr ⟨by rw [hv, hzero], t, by rw [hp']; simp⟩
    · intro u
      rw [ho]
      by_cases hu : u = t
      · rw [hu, hp']
        simp
      · rw [hothers u hu]
        simp
  | free hv ho =>
    have hothers := hout (by simp)
    have hall' : ∀ u, s'.phase d u l = .out := by
      intro u
      by_cases hu : u = t
      · rw [hu, hp']
      · exact hothers u hu
    refine ⟨?_, ?_, ?_⟩
    · intro u w hu _
      exact absurd (hall' u) hu
    · obtain ⟨-, hall⟩ | ⟨hzero, -⟩ := h.value
      · rw [hall t] at hp
        cases hp
      · exact Or.inl ⟨by rw [hv, hzero]; rfl, hall'⟩
    · intro u
      rw [ho, h.owner u, hall' u]
      by_cases hu : u = t
      · rw [hu, hp]
        simp
      · rw [← hother u hu, hall' u]

/-- The stacks are proper and every lock is in order. -/
structure LocksOk (d : Discipline sys) (s : State L C S κ σ) : Prop where
  proper : s.Proper d
  lock : ∀ l, LockInv d s l

namespace LocksOk

/-- A call only puts frames on the stack of its thread that fit to where it is. -/
theorem call {i : ι} (h : LocksOk d s) (hs : s.step sys (.call t i) = some s') : LocksOk d s' := by
  obtain ⟨hstack, -, r, hr, rfl⟩ := step_call_iff.mp hs
  have hphase : ∀ u l, State.phase d { s.setStack t r.2 with shared := r.1 } u l = s.phase d u l := by
    intro u l
    by_cases hu : u = t
    · subst hu
      simp only [State.phase, State.setStack, Function.update_self, (d.call_fits hr l).2, hstack]
      rfl
    · simp [State.phase, State.setStack, hu, d.call_home hr u hu]
  refine ⟨?_, fun l => ?_⟩
  · intro u l
    by_cases hu : u = t
    · subst hu
      simpa [State.setStack] using (d.call_fits hr l).1
    · simpa [State.setStack, hu, d.call_home hr u hu] using h.proper u l
  · exact (h.lock l).move (fun u _ => hphase u l)
      (by rw [hphase t l]; exact LockMove.none _ rfl rfl)

theorem exec (h : LocksOk d s) (hs : s.step sys (.exec t) = some s') : LocksOk d s' := by
  obtain ⟨-, f, rest, hstack, hexec⟩ := step_exec_iff.mp hs
  have hhome := execFrame_home (d := d) hexec
  have hmove := fun l => execFrame_move (d := d) (l := l) hstack
    (by rw [← hstack]; exact h.proper t l) hexec
  have hother : ∀ u, u ≠ t → s'.stack u = s.stack u := fun u hu => execFrame_stack_other hexec hu
  refine ⟨?_, fun l => ?_⟩
  · intro u l
    rw [hhome]
    by_cases hu : u = t
    · rw [hu]
      exact (hmove l).1
    · rw [hother u hu]
      exact h.proper u l
  · refine (h.lock l).move (t := t) (fun u hu => ?_) ?_
    · rw [State.phase, State.phase, hhome, hother u hu]
    · have hphase : s'.phase d t l =
          phaseOf sys.lockOf d.use l (s'.stack t) (d.home s.shared t l) := by
        rw [State.phase, hhome]
      rw [hphase]
      exact (hmove l).2

/-- What a thread owns it keeps while others execute. -/
theorem owner_other {u : Tid} (h : LocksOk d s) (hs : s.step sys (.exec t) = some s') (hu : u ≠ t)
    (ho : s.lockOwner l = some u) : s'.lockOwner l = some u := by
  obtain ⟨-, f, rest, hstack, hexec⟩ := step_exec_iff.mp hs
  have hheld := ((h.lock l).owner u).mp ho
  refine (((h.exec hs).lock l).owner u).mpr ?_
  rwa [State.phase, execFrame_home hexec, execFrame_stack_other hexec hu]

theorem step {e : Event ι} (h : LocksOk d s) (hs : s.step sys e = some s') : LocksOk d s' := by
  cases e with
  | call t i => exact h.call hs
  | exec t => exact h.exec hs

theorem reachable (h : LocksOk d s0) (hr : Reachable sys s0 s) : LocksOk d s := by
  obtain ⟨es, hrun⟩ := hr
  exact runs_inv (fun _ _ _ hI _ hs => step hI hs) h (AllSteps.trivial es s0) hrun

/-- The locks at the beginning are free if nobody is at home with one. -/
theorem start {initialValue : S → Int} {priority : Tid → Int} {shared : σ}
    (hhome : ∀ t l, d.home shared t l = .out) :
    LocksOk d (State.start initialValue priority shared) := by
  have hphase : ∀ t l, State.phase d (State.start initialValue priority shared) t l = .out := hhome
  refine ⟨fun _ _ => True.intro, fun l => ⟨?_, ?_, ?_⟩⟩
  · intro t u ht _
    exact absurd (hphase t l) ht
  · exact Or.inl ⟨rfl, fun t => hphase t l⟩
  · intro t
    rw [hphase]
    simp [State.start]

/-- No `ASSERT` of the primitives fails. -/
theorem exists_exec (h : LocksOk d s) (hstack : s.stack t = f :: rest)
    (hcode : ∀ k, f = .code k → (sys.exec k t s.shared).isSome) :
    ∃ s', s.execFrame sys t f rest = some s' := by
  have hproper := fun l => h.proper t l
  have hphase : ∀ l, s.phase d t l = phaseOf sys.lockOf d.use l (f :: rest) (d.home s.shared t l) := by
    intro l
    rw [State.phase, hstack]
  have hheld : ∀ l, s.phase d t l = .held → s.isHeldByCurrentThread t l = true := by
    intro l hl
    simp [State.isHeldByCurrentThread, ((h.lock l).owner t).mpr hl]
  cases f with
  | p k => exact ⟨_, rfl⟩
  | v k => exact ⟨_, rfl⟩
  | own l => exact ⟨_, rfl⟩
  | waitReturn c n => exact ⟨_, rfl⟩
  | acquire l =>
    have hout : s.phase d t l = .out := by rw [hphase l]; simp [phaseOf, Frame.use]
    have : s.isHeldByCurrentThread t l = false := by
      have hne : s.lockOwner l ≠ some t := by
        intro ho
        rw [((h.lock l).owner t).mp ho] at hout
        cases hout
      simpa [State.isHeldByCurrentThread] using hne
    simp [State.execFrame, this]
  | release l => simp [State.execFrame, hheld l (by rw [hphase l]; simp [phaseOf, Frame.use])]
  | wait c =>
    simp [State.execFrame, hheld (sys.lockOf c) (by rw [hphase]; simp [phaseOf, Frame.use])]
  | signal c =>
    have := hheld (sys.lockOf c) (by rw [hphase]; simp [phaseOf, Frame.use])
    cases hq : s.colaProcesosDormidos c <;> simp [State.execFrame, this, hq]
  | broadcast c progress =>
    have := hheld (sys.lockOf c) (by rw [hphase]; simp [phaseOf, Frame.use])
    cases hq : s.colaProcesosDormidos c <;> simp [State.execFrame, this, hq]
  | code k =>
    obtain ⟨r, hr⟩ := Option.isSome_iff_exists.mp (hcode k rfl)
    simp [State.execFrame, hr]

end LocksOk

/-! ## Threads that use locks -/

section LockUsers

variable {L : Type} [DecidableEq L]

/-- The users of locks are at home with a lock that they have taken. -/
def lockDiscipline (L : Type) [DecidableEq L] : Discipline (lockUsers L) where
  use := Empty.elim
  home := fun taken t l => if taken t l then .held else .out
  call_home := by
    intro i t taken r hr u hu
    cases i with
    | acquire l =>
      simp only [lockUsers] at hr
      split at hr
      · cases hr
      · cases hr
        simp [hu]
    | release l =>
      simp only [lockUsers] at hr
      split at hr
      · cases hr
        simp [hu]
      · cases hr
  call_fits := by
    intro i t taken r hr l
    cases i with
    | acquire l' =>
      simp only [lockUsers] at hr
      split at hr
      · cases hr
      · rename_i hfree
        cases hr
        by_cases hl : l' = l
        · subst hl
          simp [Fits, phaseOf, Frame.use, hfree]
        · simp [Fits, phaseOf, Frame.use, hl, Ne.symm hl]
    | release l' =>
      simp only [lockUsers] at hr
      split at hr
      · rename_i htaken
        cases hr
        by_cases hl : l' = l
        · subst hl
          simp [Fits, phaseOf, Frame.use, htaken]
        · simp [Fits, phaseOf, Frame.use, hl, Ne.symm hl]
      · cases hr
  exec_home := by
    intro k
    cases k
  exec_fits := by
    intro k
    cases k

/-- A frame of a call of `Acquire` or `Release` on the lock `l`. -/
def Frame.OnLock {C S κ : Type} (l : L) (f : Frame L C S κ) : Prop :=
  f = .acquire l ∨ f = .p (.lock l) ∨ f = .own l ∨ f = .release l ∨ f = .v (.lock l)

/-- The thread `t` is between the return of its `Acquire` and its call of `Release`. -/
def State.Inside (s : State L Empty Empty Empty (Tid → L → Bool)) (t : Tid) (l : L) : Prop :=
  s.shared t l = true ∧ ∀ f ∈ s.stack t, ¬ f.OnLock l

/-- Frames of other locks say nothing about where the thread is with `l`. -/
theorem phaseOf_of_not_onLock {fs : List (Frame L Empty Empty Empty)} {l : L} (last : Phase)
    (h : ∀ f ∈ fs, ¬ f.OnLock l) : phaseOf (lockUsers L).lockOf (lockDiscipline L).use l fs last = last := by
  induction fs with
  | nil => rfl
  | cons f fs ih =>
    have hf := h f (List.mem_cons_self ..)
    have hnone : f.use (lockUsers L).lockOf (lockDiscipline L).use l = none := by
      cases f with
      | p k =>
        cases k with
        | lock l' =>
          have : l' ≠ l := fun e => hf (by simp [Frame.OnLock, e])
          simp [Frame.use, this]
        | user n => rfl
        | sleeper n => rfl
      | v k =>
        cases k with
        | lock l' =>
          have : l' ≠ l := fun e => hf (by simp [Frame.OnLock, e])
          simp [Frame.use, this]
        | user n => rfl
        | sleeper n => rfl
      | acquire l' =>
        have : l' ≠ l := fun e => hf (by simp [Frame.OnLock, e])
        simp [Frame.use, this]
      | own l' =>
        have : l' ≠ l := fun e => hf (by simp [Frame.OnLock, e])
        simp [Frame.use, this]
      | release l' =>
        have : l' ≠ l := fun e => hf (by simp [Frame.OnLock, e])
        simp [Frame.use, this]
      | wait c => cases c
      | waitReturn c n => cases c
      | signal c => cases c
      | broadcast c progress => cases c
      | code k => cases k
    simp only [phaseOf, hnone]
    exact ih fun g hg => h g (List.mem_cons_of_mem f hg)

/-- For threads that use locks through pairs of `Acquire` and `Release`: at most one thread is inside,
`lockOwner` and `IsHeldByCurrentThread` name it, and a thread that is not asleep can always go on in
`Acquire` and `Release`, that is, no `ASSERT` fails. -/
theorem lock_mutual_exclusion (L : Type) [DecidableEq L] (priority : Tid → Int)
    {s : State L Empty Empty Empty (Tid → L → Bool)}
    (hr : Reachable (lockUsers L) (State.start Empty.elim priority fun _ _ => false) s) :
    (∀ l t u, s.Inside t l → s.Inside u l → t = u) ∧
    (∀ l t, s.Inside t l → s.lockOwner l = some t ∧
      ∀ u, s.isHeldByCurrentThread u l = true ↔ u = t) ∧
    (∀ t, s.asleep t = false → s.stack t ≠ [] → ∃ s', s.step (lockUsers L) (.exec t) = some s') := by
  have h : LocksOk (lockDiscipline L) s := (LocksOk.start fun _ _ => rfl).reachable hr
  have hheld : ∀ {l t}, s.Inside t l → s.phase (lockDiscipline L) t l = .held := by
    intro l t ht
    rw [State.phase, phaseOf_of_not_onLock _ ht.2]
    simp [lockDiscipline, ht.1]
  refine ⟨?_, ?_, ?_⟩
  · intro l t u ht hu
    exact (h.lock l).unique t u (by rw [hheld ht]; simp) (by rw [hheld hu]; simp)
  · intro l t ht
    have ho := ((h.lock l).owner t).mpr (hheld ht)
    refine ⟨ho, fun u => ?_⟩
    rw [State.isHeldByCurrentThread, ho, beq_iff_eq, Option.some.injEq]
    exact eq_comm
  · intro t hawake hne
    obtain ⟨f, rest, hstack⟩ := List.exists_cons_of_ne_nil hne
    obtain ⟨s', hs'⟩ := h.exists_exec hstack fun k => k.elim
    exact ⟨s', step_exec_iff.mpr ⟨hawake, f, rest, hstack, hs'⟩⟩

/-- Two threads call `Acquire`: the first one gets in, the second one sleeps. -/
def twoAcquires : List (Event (LockCall Unit)) :=
  [.call 0 (.acquire ()), .exec 0, .exec 0, .exec 0, .call 1 (.acquire ()), .exec 1, .exec 1]

theorem lock_mutual_exclusion_twoAcquires : ∃ s,
    runs (State.step (lockUsers Unit)) (State.start Empty.elim (fun _ => 0) fun _ _ => false)
      twoAcquires = some s ∧ s.Inside 0 () ∧ s.asleep 1 = true ∧ s.lockOwner () = some 0 := by
  obtain ⟨s, hs⟩ := Option.isSome_iff_exists.mp (show (runs (State.step (lockUsers Unit))
    (State.start Empty.elim (fun _ => 0) fun _ _ => false) twoAcquires).isSome = true by rfl)
  have hview : (some s).map (fun s => (s.shared 0 (), (s.stack 0).length, s.asleep 1)) =
      some (true, 0, true) := by
    rw [← hs]
    rfl
  simp only [Option.map_some, Option.some.injEq, Prod.mk.injEq, List.length_eq_zero_iff] at hview
  obtain ⟨htaken, hstack, hasleep⟩ := hview
  have hin : s.Inside 0 () := ⟨htaken, by simp [hstack]⟩
  exact ⟨s, hs, hin, hasleep, ((lock_mutual_exclusion Unit (fun _ => 0) ⟨_, hs⟩).2.1 () 0 hin).1⟩

end LockUsers

end Nachos.Synch
