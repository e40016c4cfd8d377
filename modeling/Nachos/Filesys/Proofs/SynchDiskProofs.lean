import Nachos.Filesys.SynchDisk
import Nachos.Threads.Proofs.LockProofs

/-!
# Proofs: the synchronous disk

A thread that waits for the disk holds the lock, so there is at most one. Its request is on the way to
it: the interrupt is scheduled, or its handler is about to raise the semaphore, or the semaphore was
raised. When no thread waits there is none of these.
-/

namespace Nachos.Filesys

open Foundations Nachos.Synch

variable {s s' : DiskState} {t u : Nat} {sectors : Nat → Sector}

/-! ## The lock -/

/-- A request is made with the lock held, which is released before the call returns. -/
def diskDiscipline : Discipline diskUsers where
  use := fun code _ => match code with
    | .request _ => some ⟨.held, .out⟩
    | .ret _ _ => none
  home := fun _ _ _ => .out
  call_home := by
    intros
    rfl
  call_fits := by
    intro i t d r hr l
    cases i with
    | access op =>
      simp only [diskUsers, RawDisk.call] at hr
      split at hr
      · cases hr
      · cases hr
        simp [Fits, phaseOf, Frame.use]
    | interrupt =>
      simp only [diskUsers, RawDisk.call] at hr
      split at hr
      · split at hr
        · cases hr
        · cases hr
          simp [Fits, phaseOf, Frame.use]
      · cases hr
  exec_home := by
    intros
    rfl
  exec_fits := by
    intro code t d r hr l last hlast
    cases code with
    | request op =>
      have hout := hlast _ rfl
      subst hout
      simp only [diskUsers, RawDisk.exec, Option.bind_eq_bind, Option.bind_eq_some_iff, Option.pure_def,
        Option.some.injEq] at hr
      obtain ⟨d', -, rfl⟩ := hr
      simp [Fits, phaseOf, Frame.use]
    | ret id result =>
      cases hr
      simp [Fits, phaseOf]

/-! ## The stacks -/

/-- What is left of a call that waits for its request. -/
def waitFrames (id : Nat) (result : Option Sector) : List DiskFrame :=
  [.p (.user ()), .release (), .code (.ret id result)]

/-- The stacks of the threads. -/
inductive DiskStack : List DiskFrame → Prop where
  | idle : DiskStack []
  | acquire {op : DiskOp} : DiskStack [.acquire (), .code (.request op)]
  | p {op : DiskOp} : DiskStack [.p (.lock ()), .own (), .code (.request op)]
  | own {op : DiskOp} : DiskStack [.own (), .code (.request op)]
  | request {op : DiskOp} : DiskStack [.code (.request op)]
  | waits {id : Nat} {result : Option Sector} : DiskStack (waitFrames id result)
  | release {id : Nat} {result : Option Sector} : DiskStack [.release (), .code (.ret id result)]
  | v {id : Nat} {result : Option Sector} : DiskStack [.v (.lock ()), .code (.ret id result)]
  | ret {id : Nat} {result : Option Sector} : DiskStack [.code (.ret id result)]

/-! ## The invariant -/

/-- What is going on at the disk. -/
inductive Situation (s : DiskState) : Prop where
  /-- No thread waits. -/
  | quiet : (∀ t rest, s.stack t ≠ .p (.user ()) :: rest) → s.stack hardware = [] →
      (s.semaphores (.user ())).value = 0 → s.shared.scheduled = [] → s.shared.active = false →
      Situation s
  /-- The disk works on the request of the thread `t`. -/
  | requested (t id : Nat) (result : Option Sector) : s.stack t = waitFrames id result →
      s.stack hardware = [] → (s.semaphores (.user ())).value = 0 → s.shared.scheduled = [id] →
      s.shared.active = true → Situation s
  /-- The interrupt has come, and its handler is about to raise the semaphore. -/
  | handling (t id : Nat) (result : Option Sector) : s.stack t = waitFrames id result →
      s.stack hardware = [.v (.user ())] → (s.semaphores (.user ())).value = 0 →
      s.shared.scheduled = [] → s.shared.active = false → id ∈ s.shared.completed → Situation s
  /-- The semaphore is raised. -/
  | raised (t id : Nat) (result : Option Sector) : s.stack t = waitFrames id result →
      s.stack hardware = [] → (s.semaphores (.user ())).value = 1 →
      s.shared.scheduled = [] → s.shared.active = false → id ∈ s.shared.completed → Situation s

structure DiskInv (sectors : Nat → Sector) (s : DiskState) : Prop where
  locks : LocksOk diskDiscipline s
  shape : ∀ t, t ≠ hardware → DiskStack (s.stack t)
  situation : Situation s
  /-- A thread knows its request. -/
  mine : ∀ t id result, .code (.ret id result) ∈ s.stack t →
    ∃ op, s.shared.requests[id]? = some ⟨t, op, result⟩
  /-- A thread that does not wait any more was woken by its own interrupt. -/
  done : ∀ t id result, .code (.ret id result) ∈ s.stack t → s.stack t ≠ waitFrames id result →
    id ∈ s.shared.completed
  returned : ∀ r ∈ s.shared.returned, r.2.1 ∈ s.shared.completed ∧
    ∃ op, s.shared.requests[r.2.1]? = some ⟨r.1, op, r.2.2⟩
  sequential : runOps sectors (s.shared.requests.map DiskRequest.op) =
    (s.shared.sectors, s.shared.requests.map DiskRequest.result)

/-- The thread is not about to test the semaphore. -/
def NotWaiting (frames : List DiskFrame) : Prop := ∀ rest, frames ≠ .p (.user ()) :: rest

theorem NotWaiting.ne {frames : List DiskFrame} (h : NotWaiting frames) (id : Nat)
    (result : Option Sector) : frames ≠ waitFrames id result := h _

/-- A thread that does not wait makes a step that the disk does not notice. -/
theorem Situation.keep (h : Situation s) (ht : t ≠ hardware)
    (hother : ∀ u, u ≠ t → s'.stack u = s.stack u) (hbefore : NotWaiting (s.stack t))
    (hafter : NotWaiting (s'.stack t))
    (hvalue : (s'.semaphores (.user ())).value = (s.semaphores (.user ())).value)
    (hscheduled : s'.shared.scheduled = s.shared.scheduled) (hactive : s'.shared.active = s.shared.active)
    (hcompleted : s'.shared.completed = s.shared.completed) : Situation s' := by
  have hhw : s'.stack hardware = s.stack hardware := hother _ (Ne.symm ht)
  have hwaiter : ∀ u id result, s.stack u = waitFrames id result → s'.stack u = waitFrames id result := by
    intro u id result hu
    have hut : u ≠ t := by
      rintro rfl
      exact hbefore.ne id result hu
    rw [hother u hut]
    exact hu
  cases h with
  | quiet hnone hw hv hs ha =>
    refine .quiet (fun u => ?_) (hhw.trans hw) (hvalue.trans hv) (hscheduled.trans hs) (hactive.trans ha)
    by_cases hu : u = t
    · subst hu
      exact hafter
    · rw [hother u hu]
      exact hnone u
  | requested u id result hu hw hv hs ha =>
    exact .requested u id result (hwaiter u id result hu) (hhw.trans hw) (hvalue.trans hv) (hscheduled.trans hs)
      (hactive.trans ha)
  | handling u id result hu hw hv hs ha hc =>
    exact .handling u id result (hwaiter u id result hu) (hhw.trans hw) (hvalue.trans hv) (hscheduled.trans hs)
      (hactive.trans ha) (hcompleted ▸ hc)
  | raised u id result hu hw hv hs ha hc =>
    exact .raised u id result (hwaiter u id result hu) (hhw.trans hw) (hvalue.trans hv) (hscheduled.trans hs)
      (hactive.trans ha) (hcompleted ▸ hc)

namespace DiskInv

theorem start (sectors : Nat → Sector) (priority : Nat → Int) :
    DiskInv sectors (diskStart sectors priority) where
  locks := LocksOk.start fun _ _ => rfl
  shape := fun _ _ => .idle
  situation := .quiet (by simp [diskStart, State.start]) rfl rfl rfl rfl
  mine := by simp [diskStart, State.start]
  done := by simp [diskStart, State.start]
  returned := by simp [diskStart, State.start]
  sequential := rfl

/-- A thread that waits for the disk holds the lock. -/
theorem owner_of_wait {id : Nat} {result : Option Sector} (h : DiskInv sectors s)
    (hstack : s.stack t = waitFrames id result) : s.lockOwner () = some t := by
  refine ((h.locks.lock ()).owner t).mpr ?_
  simp [State.phase, hstack, waitFrames, phaseOf, Frame.use]

/-- Two threads do not wait at the same time. -/
theorem only_waiter {id id' : Nat} {result result' : Option Sector} (h : DiskInv sectors s)
    (ht : s.stack t = waitFrames id result) (hu : s.stack u = waitFrames id' result') : t = u := by
  have hown := h.owner_of_wait ht
  rw [h.owner_of_wait hu, Option.some.injEq] at hown
  exact hown.symm

/-- A thread that is about to test the semaphore waits for a request. -/
theorem waits_of_head {rest : List DiskFrame} (h : DiskInv sectors s)
    (hu : s.stack u = .p (.user ()) :: rest) : ∃ id result, s.stack u = waitFrames id result := by
  by_cases hhw : u = hardware
  · subst hhw
    cases h.situation with
    | quiet hnone => exact absurd hu (hnone _ _)
    | requested t id result ht hw =>
      rw [hw] at hu
      cases hu
    | handling t id result ht hw =>
      rw [hw] at hu
      cases hu
    | raised t id result ht hw =>
      rw [hw] at hu
      cases hu
  · have hshape := h.shape u hhw
    rw [hu] at hshape
    generalize hfs : (.p (.user ()) :: rest : List DiskFrame) = fs at hshape
    cases hshape with
    | waits => exact ⟨_, _, hu.trans hfs⟩
    | _ => cases hfs

theorem only_waiter_head {id : Nat} {result : Option Sector} {rest : List DiskFrame}
    (h : DiskInv sectors s) (ht : s.stack t = waitFrames id result)
    (hu : s.stack u = .p (.user ()) :: rest) : t = u := by
  obtain ⟨id', result', hu⟩ := h.waits_of_head hu
  exact h.only_waiter ht hu

/-- A thread that is about to make a request holds the lock. -/
theorem owner_of_request {op : DiskOp} (h : DiskInv sectors s) (hstack : s.stack t = [.code (.request op)]) :
    s.lockOwner () = some t := by
  refine ((h.locks.lock ()).owner t).mpr ?_
  simp [State.phase, hstack, phaseOf, Frame.use, diskDiscipline]

/-- When a thread is about to make a request, the disk is not active and no thread waits. -/
theorem quiet_of_request {op : DiskOp} (h : DiskInv sectors s) (hstack : s.stack t = [.code (.request op)]) :
    (∀ u, NotWaiting (s.stack u)) ∧ s.stack hardware = [] ∧ (s.semaphores (.user ())).value = 0 ∧
      s.shared.scheduled = [] ∧ s.shared.active = false := by
  have ho := h.owner_of_request hstack
  -- a thread that waits would have the lock as well
  have hno : ∀ u id result, s.stack u ≠ waitFrames id result := by
    intro u id result hu
    have hut := h.owner_of_wait hu
    rw [ho, Option.some.injEq] at hut
    subst hut
    rw [hstack] at hu
    simp [waitFrames] at hu
  cases h.situation with
  | quiet hnone hw hv hs ha => exact ⟨hnone, hw, hv, hs, ha⟩
  | requested u id result hu => exact absurd hu (hno u id result)
  | handling u id result hu => exact absurd hu (hno u id result)
  | raised u id result hu => exact absurd hu (hno u id result)

/-- A thread that does not wait makes a step that the disk does not notice. -/
theorem keep (h : DiskInv sectors s) (hl : LocksOk diskDiscipline s') (ht : t ≠ hardware)
    (hother : ∀ u, u ≠ t → s'.stack u = s.stack u) (hshape : DiskStack (s'.stack t))
    (hbefore : NotWaiting (s.stack t)) (hafter : NotWaiting (s'.stack t))
    (hmem : ∀ id result, .code (.ret id result) ∈ s'.stack t → .code (.ret id result) ∈ s.stack t)
    (hvalue : (s'.semaphores (.user ())).value = (s.semaphores (.user ())).value)
    (hshared : s'.shared = s.shared) : DiskInv sectors s' := by
  have hin : ∀ u id result, .code (.ret id result) ∈ s'.stack u → .code (.ret id result) ∈ s.stack u := by
    intro u id result hu
    by_cases hut : u = t
    · subst hut
      exact hmem id result hu
    · rwa [hother u hut] at hu
  refine ⟨hl, ?_, ?_, ?_, ?_, ?_, ?_⟩
  · intro u hu
    by_cases hut : u = t
    · subst hut
      exact hshape
    · rw [hother u hut]
      exact h.shape u hu
  · exact h.situation.keep ht hother hbefore hafter hvalue (by rw [hshared]) (by rw [hshared])
      (by rw [hshared])
  · intro u id result hu
    rw [hshared]
    exact h.mine u id result (hin u id result hu)
  · intro u id result hu hne
    rw [hshared]
    refine h.done u id result (hin u id result hu) ?_
    by_cases hut : u = t
    · subst hut
      exact hbefore.ne id result
    · rwa [hother u hut] at hne
  · rw [hshared]
    exact h.returned
  · rw [hshared]
    exact h.sequential

/-! ## Steps of the threads -/

variable {f : DiskFrame} {rest : List DiskFrame}

/-- A request is added at the end of the operations. -/
theorem runOps_append (disk : Nat → Sector) (ops : List DiskOp) (op : DiskOp) :
    runOps disk (ops ++ [op]) =
      ((op.run (runOps disk ops).1).1, (runOps disk ops).2 ++ [(op.run (runOps disk ops).1).2]) := by
  induction ops generalizing disk with
  | nil => rfl
  | cons o ops ih =>
    simp only [List.cons_append, runOps, ih]

/-- A thread makes a request. -/
theorem exec_request {op : DiskOp} (h : DiskInv sectors s) (hl : LocksOk diskDiscipline s')
    (ht : t ≠ hardware) (hstack : s.stack t = [.code (.request op)])
    (hexec : s.execFrame diskUsers t (.code (.request op)) [] = some s') : DiskInv sectors s' := by
  obtain ⟨hnone, hw, hv, hs, ha⟩ := h.quiet_of_request hstack
  have hother : ∀ u, u ≠ t → s'.stack u = s.stack u := fun u hu => execFrame_stack_other hexec hu
  simp only [State.execFrame, diskUsers, RawDisk.exec, RawDisk.request, Option.bind_eq_bind,
    Option.map_eq_some_iff, Option.bind_eq_some_iff, Option.pure_def, Option.some.injEq] at hexec
  obtain ⟨r, ⟨d', ⟨_, -, _, -, rfl⟩, rfl⟩, rfl⟩ := hexec
  have hself : (s.setStack t (waitFrames s.shared.requests.length (op.run s.shared.sectors).2 ++ [])).stack t =
      waitFrames s.shared.requests.length (op.run s.shared.sectors).2 := by
    simp [State.setStack]
  -- what the other threads know of their requests stays true
  have hold : ∀ (r : DiskRequest) (id : Nat), s.shared.requests[id]? = some r →
      (s.shared.requests ++ [⟨t, op, (op.run s.shared.sectors).2⟩])[id]? = some r := by
    intro r id hr
    obtain ⟨hlt, -⟩ := List.getElem?_eq_some_iff.mp hr
    rw [List.getElem?_append_left hlt]
    exact hr
  refine ⟨hl, ?_, ?_, ?_, ?_, ?_, ?_⟩
  · intro u hu
    by_cases hut : u = t
    · subst hut
      exact hself ▸ DiskStack.waits
    · rw [hother u hut]
      exact h.shape u hu
  · refine .requested t _ _ hself ((hother _ (Ne.symm ht)).trans hw) hv ?_ rfl
    show s.shared.scheduled ++ [s.shared.requests.length] = _
    rw [hs]
    rfl
  · intro u id result hm
    by_cases hut : u = t
    · subst hut
      have hm' : .code (.ret id result) ∈ waitFrames s.shared.requests.length (op.run s.shared.sectors).2 :=
        hself ▸ hm
      simp only [waitFrames, List.mem_cons, reduceCtorEq, List.not_mem_nil, or_false, false_or,
        Frame.code.injEq, DiskCode.ret.injEq] at hm'
      obtain ⟨rfl, rfl⟩ := hm'
      exact ⟨op, by simp⟩
    · rw [hother u hut] at hm
      obtain ⟨op', hop⟩ := h.mine u id result hm
      exact ⟨op', hold _ _ hop⟩
  · intro u id result hm hne
    by_cases hut : u = t
    · subst hut
      have hm' : .code (.ret id result) ∈ waitFrames s.shared.requests.length (op.run s.shared.sectors).2 :=
        hself ▸ hm
      simp only [waitFrames, List.mem_cons, reduceCtorEq, List.not_mem_nil, or_false, false_or,
        Frame.code.injEq, DiskCode.ret.injEq] at hm'
      obtain ⟨rfl, rfl⟩ := hm'
      exact absurd hself hne
    · rw [hother u hut] at hm hne
      exact h.done u id result hm hne
  · intro r hr
    obtain ⟨hc, op', hop⟩ := h.returned r hr
    exact ⟨hc, op', hold _ _ hop⟩
  · show runOps sectors ((s.shared.requests ++ [(⟨t, op, (op.run s.shared.sectors).2⟩ : DiskRequest)]).map
        DiskRequest.op) = ((op.run s.shared.sectors).1,
      (s.shared.requests ++ [(⟨t, op, (op.run s.shared.sectors).2⟩ : DiskRequest)]).map DiskRequest.result)
    rw [List.map_append, List.map_append, List.map_singleton, List.map_singleton, runOps_append,
      h.sequential]

/-- A thread tests the semaphore: it goes on only if its own interrupt has come. -/
theorem exec_wait {id : Nat} {result : Option Sector} (h : DiskInv sectors s)
    (hstack : s.stack t = waitFrames id result) (ht : t ≠ hardware)
    (hl : LocksOk diskDiscipline (s.p t (.user ()) [.release (), .code (.ret id result)])) :
    DiskInv sectors (s.p t (.user ()) [.release (), .code (.ret id result)]) := by
  have hexec : s.execFrame diskUsers t (.p (.user ())) [.release (), .code (.ret id result)] =
      some (s.p t (.user ()) [.release (), .code (.ret id result)]) := rfl
  have hother := fun u hu => execFrame_stack_other (u := u) hexec hu
  obtain ⟨hshared, -, -, -, hst⟩ := p_same s t (.user ()) [.release (), .code (.ret id result)]
  by_cases hzero : (s.semaphores (.user ())).value = 0
  · -- it sleeps
    have hstk : (s.p t (.user ()) [.release (), .code (.ret id result)]).stack = s.stack := by
      simp [State.p, hzero]
    have hvalue : ((s.p t (.user ()) [.release (), .code (.ret id result)]).semaphores (.user ())).value =
        0 := by
      simp [State.p, hzero]
    refine ⟨hl, ?_, ?_, ?_, ?_, ?_, ?_⟩
    · rw [hstk]
      exact h.shape
    · cases h.situation with
      | quiet hnone => exact absurd hstack (hnone t _)
      | requested u id' result' hu hw hv hs ha =>
        exact .requested u id' result' (by rw [hstk]; exact hu) (by rw [hstk]; exact hw) hvalue
          (by rw [hshared]; exact hs) (by rw [hshared]; exact ha)
      | handling u id' result' hu hw hv hs ha hc =>
        exact .handling u id' result' (by rw [hstk]; exact hu) (by rw [hstk]; exact hw) hvalue
          (by rw [hshared]; exact hs) (by rw [hshared]; exact ha) (by rw [hshared]; exact hc)
      | raised u id' result' hu hw hv =>
        rw [hzero] at hv
        cases hv
    · rw [hstk, hshared]
      exact h.mine
    · rw [hstk, hshared]
      exact h.done
    · rw [hshared]
      exact h.returned
    · rw [hshared]
      exact h.sequential
  · -- the semaphore was raised, and no other thread waits for it
    have hstk : (s.p t (.user ()) [.release (), .code (.ret id result)]).stack t =
        [.release (), .code (.ret id result)] := by
      simp [State.p, hzero]
    obtain ⟨hw, hone, hs, ha, hc⟩ : s.stack hardware = [] ∧ (s.semaphores (.user ())).value = 1 ∧
        s.shared.scheduled = [] ∧ s.shared.active = false ∧ id ∈ s.shared.completed := by
      cases h.situation with
      | quiet hnone => exact absurd hstack (hnone t _)
      | requested u id' result' hu hw hv => exact absurd hv hzero
      | handling u id' result' hu hw hv => exact absurd hv hzero
      | raised u id' result' hu hw hv hs ha hc =>
        have hut := h.only_waiter hstack hu
        subst hut
        rw [hstack] at hu
        obtain ⟨rfl, rfl⟩ : id = id' ∧ result = result' := by simpa [waitFrames] using hu
        exact ⟨hw, hv, hs, ha, hc⟩
    have hvalue : ((s.p t (.user ()) [.release (), .code (.ret id result)]).semaphores (.user ())).value =
        0 := by
      simp [State.p, hone]
    have hin : ∀ u id' result', .code (.ret id' result') ∈
        (s.p t (.user ()) [.release (), .code (.ret id result)]).stack u →
        .code (.ret id' result') ∈ s.stack u := by
      intro u id' result' hu
      by_cases hut : u = t
      · subst hut
        rw [hstk] at hu
        rw [hstack]
        exact List.mem_cons_of_mem _ hu
      · rwa [hother u hut] at hu
    refine ⟨hl, ?_, ?_, ?_, ?_, ?_, ?_⟩
    · intro u hu
      by_cases hut : u = t
      · subst hut
        rw [hstk]
        exact .release
      · rw [hother u hut]
        exact h.shape u hu
    · refine .quiet ?_ ((hother _ (Ne.symm ht)).trans hw) hvalue (by rw [hshared]; exact hs)
        (by rw [hshared]; exact ha)
      intro u rest hu
      by_cases hut : u = t
      · subst hut
        rw [hstk] at hu
        cases hu
      · rw [hother u hut] at hu
        exact hut (h.only_waiter_head hstack hu).symm
    · intro u id' result' hu
      rw [hshared]
      exact h.mine u id' result' (hin u id' result' hu)
    · intro u id' result' hu hne
      rw [hshared]
      by_cases hut : u = t
      · subst hut
        rw [hstk] at hu
        obtain ⟨rfl, rfl⟩ : id' = id ∧ result' = result := by simpa using hu
        exact hc
      · rw [hother u hut] at hu hne
        exact h.done u id' result' hu hne
    · rw [hshared]
      exact h.returned
    · rw [hshared]
      exact h.sequential

/-- A call returns. -/
theorem exec_ret {id : Nat} {result : Option Sector} (h : DiskInv sectors s)
    (hl : LocksOk diskDiscipline s') (ht : t ≠ hardware) (hstack : s.stack t = [.code (.ret id result)])
    (hexec : s.execFrame diskUsers t (.code (.ret id result)) [] = some s') : DiskInv sectors s' := by
  have hother : ∀ u, u ≠ t → s'.stack u = s.stack u := fun u hu => execFrame_stack_other hexec hu
  have hdone : id ∈ s.shared.completed :=
    h.done t id result (by simp [hstack]) (by simp [hstack, waitFrames])
  obtain ⟨op, hop⟩ := h.mine t id result (by simp [hstack])
  cases hexec
  have hself : (s.setStack t ([] ++ [])).stack t = [] := by simp [State.setStack]
  have hin : ∀ u id' result', .code (.ret id' result') ∈ (s.setStack t ([] ++ [])).stack u →
      u ≠ t ∧ .code (.ret id' result') ∈ s.stack u := by
    intro u id' result' hu
    have hut : u ≠ t := by
      rintro rfl
      rw [hself] at hu
      cases hu
    refine ⟨hut, ?_⟩
    rwa [show (s.setStack t ([] ++ [])).stack u = s.stack u from hother u hut] at hu
  refine ⟨hl, ?_, ?_, ?_, ?_, ?_, h.sequential⟩
  · intro u hu
    by_cases hut : u = t
    · subst hut
      show DiskStack ((s.setStack u ([] ++ [])).stack u)
      rw [hself]
      exact .idle
    · rw [hother u hut]
      exact h.shape u hu
  · exact h.situation.keep ht hother (by intro rest; simp [hstack])
      (by intro rest; simp [State.setStack]) rfl rfl rfl rfl
  · intro u id' result' hu
    exact h.mine u id' result' (hin u id' result' hu).2
  · intro u id' result' hu hne
    obtain ⟨hut, hm⟩ := hin u id' result' hu
    rw [hother u hut] at hne
    exact h.done u id' result' hm hne
  · intro r hr
    rcases List.mem_append.mp hr with hr | hr
    · exact h.returned r hr
    · rw [List.mem_singleton.mp hr]
      exact ⟨hdone, op, hop⟩

/-- The semaphore of the lock is another one. -/
theorem value_p_lock :
    ((s.p t (.lock ()) rest).semaphores (.user ())).value = (s.semaphores (.user ())).value := by
  simp only [State.p]
  split
  · simp
  · simp

theorem value_v_lock :
    ((s.v t (.lock ()) rest).semaphores (.user ())).value = (s.semaphores (.user ())).value := by
  simp only [State.v]
  split
  · simp
  · simp

/-- A thread executes its first frame. -/
theorem exec (h : DiskInv sectors s) (hl : LocksOk diskDiscipline s') (ht : t ≠ hardware)
    (hstack : s.stack t = f :: rest) (hexec : s.execFrame diskUsers t f rest = some s') :
    DiskInv sectors s' := by
  have hother : ∀ u, u ≠ t → s'.stack u = s.stack u := fun u hu => execFrame_stack_other hexec hu
  have hshape := h.shape t ht
  rw [hstack] at hshape
  generalize hfs : f :: rest = fs at hshape
  cases hshape with
  | idle => cases hfs
  | acquire =>
    cases hfs
    simp only [State.execFrame] at hexec
    split at hexec
    · cases hexec
    · cases hexec
      exact h.keep hl ht hother (by simpa [State.setStack] using DiskStack.p) (by intro r; simp [hstack])
        (by intro r; simp [State.setStack]) (by simp [State.setStack]) rfl rfl
  | p =>
    cases hfs
    cases hexec
    obtain ⟨hshared, -, -, -, hst⟩ := p_same s t (.lock ()) [.own (), .code (.request _)]
    refine h.keep hl ht hother ?_ (by intro r; simp [hstack]) ?_ ?_ value_p_lock hshared
    all_goals rcases hst with hst | hst
    all_goals rw [hst]
    · exact h.shape t ht
    · exact .own
    · intro r
      simp [hstack]
    · intro r
      simp
    · exact fun _ _ hm => hm
    · simp
  | own =>
    cases hfs
    cases hexec
    exact h.keep hl ht hother (by simpa [State.setStack] using DiskStack.request)
      (by intro r; simp [hstack]) (by intro r; simp [State.setStack]) (by simp [State.setStack]) rfl rfl
  | request =>
    cases hfs
    exact h.exec_request hl ht hstack hexec
  | waits =>
    cases hfs
    cases hexec
    exact h.exec_wait hstack ht hl
  | release =>
    cases hfs
    simp only [State.execFrame] at hexec
    split at hexec
    · cases hexec
      exact h.keep hl ht hother (by simpa [State.setStack] using DiskStack.v) (by intro r; simp [hstack])
        (by intro r; simp [State.setStack]) (by simp [State.setStack, hstack]) rfl rfl
    · cases hexec
  | v =>
    cases hfs
    cases hexec
    obtain ⟨hshared, -, -, -, hst⟩ := v_same s t (.lock ()) [.code (.ret _ _)]
    refine h.keep hl ht hother ?_ (by intro r; simp [hstack]) ?_ ?_ value_v_lock hshared
    all_goals rw [hst]
    · exact .ret
    · intro r
      simp
    · intro id result hm
      rw [hstack]
      exact List.mem_cons_of_mem _ hm
  | ret =>
    cases hfs
    exact h.exec_ret hl ht hstack hexec

/-! ## Steps of the handler -/

/-- The handler makes a step. -/
theorem of_hardware (h : DiskInv sectors s) (hl : LocksOk diskDiscipline s')
    (hother : ∀ u, u ≠ hardware → s'.stack u = s.stack u)
    (hnone : ∀ id result, .code (.ret id result) ∉ s'.stack hardware) (hsituation : Situation s')
    (hrequests : s'.shared.requests = s.shared.requests)
    (hreturned : s'.shared.returned = s.shared.returned)
    (hsectors : s'.shared.sectors = s.shared.sectors)
    (hcompleted : ∀ id ∈ s.shared.completed, id ∈ s'.shared.completed) : DiskInv sectors s' := by
  have hthread : ∀ u id result, .code (.ret id result) ∈ s'.stack u → s'.stack u = s.stack u := by
    intro u id result hu
    refine hother u ?_
    rintro rfl
    exact hnone id result hu
  refine ⟨hl, ?_, hsituation, ?_, ?_, ?_, ?_⟩
  · intro u hu
    rw [hother u hu]
    exact h.shape u hu
  · intro u id result hu
    rw [hrequests]
    exact h.mine u id result (hthread u id result hu ▸ hu)
  · intro u id result hu hne
    have hsame := hthread u id result hu
    rw [hsame] at hu hne
    exact hcompleted id (h.done u id result hu hne)
  · intro r hr
    rw [hreturned] at hr
    rw [hrequests]
    obtain ⟨hc, hreq⟩ := h.returned r hr
    exact ⟨hcompleted _ hc, hreq⟩
  · rw [hrequests, hsectors]
    exact h.sequential

/-- The interrupt of a request comes. -/
theorem call_interrupt {r : RawDisk × List DiskFrame} (h : DiskInv sectors s)
    (hl : LocksOk diskDiscipline { s.setStack hardware r.2 with shared := r.1 })
    (hr : RawDisk.call .interrupt hardware s.shared = some r) :
    DiskInv sectors { s.setStack hardware r.2 with shared := r.1 } := by
  simp only [RawDisk.call, if_true] at hr
  split at hr
  · cases hr
  · rename_i id scheduled hs
    cases hr
    have hother : ∀ u, u ≠ hardware → (s.setStack hardware [.v (.user ())]).stack u = s.stack u := by
      intro u hu
      simp [State.setStack, hu]
    have hself : (s.setStack hardware [.v (.user ())]).stack hardware = [.v (.user ())] := by
      simp [State.setStack]
    -- the thread whose request it is waits
    obtain ⟨t, result, hth, ht, hv, hnil⟩ : ∃ t result, t ≠ hardware ∧ s.stack t = waitFrames id result ∧
        (s.semaphores (.user ())).value = 0 ∧ scheduled = [] := by
      cases h.situation with
      | requested t id' result ht hw hv hs' =>
        rw [hs] at hs'
        cases hs'
        refine ⟨t, result, ?_, ht, hv, rfl⟩
        rintro rfl
        rw [hw] at ht
        cases ht
      | quiet _ _ _ hs' | handling _ _ _ _ _ _ hs' | raised _ _ _ _ _ _ hs' =>
        rw [hs] at hs'
        cases hs'
    refine h.of_hardware hl hother ?_ ?_ rfl rfl rfl fun id' hc => List.mem_append_left _ hc
    · intro id' result' hm
      have hm' : .code (.ret id' result') ∈ ([.v (.user ())] : List DiskFrame) := hself ▸ hm
      simp at hm'
    · refine .handling t id result ((hother t hth).trans ht) hself hv hnil rfl ?_
      exact List.mem_append_right _ (List.mem_singleton_self id)

/-- The handler raises the semaphore. -/
theorem exec_hardware (h : DiskInv sectors s) (hl : LocksOk diskDiscipline s')
    (hstack : s.stack hardware = f :: rest)
    (hexec : s.execFrame diskUsers hardware f rest = some s') : DiskInv sectors s' := by
  have hother : ∀ u, u ≠ hardware → s'.stack u = s.stack u := fun u hu => execFrame_stack_other hexec hu
  cases h.situation with
  | quiet _ hw | requested _ _ _ _ hw | raised _ _ _ _ hw =>
    rw [hw] at hstack
    cases hstack
  | handling t id result ht hw hv hs ha hc =>
    have hth : t ≠ hardware := by
      rintro rfl
      rw [hw] at ht
      cases ht
    rw [hw] at hstack
    cases hstack
    cases hexec
    obtain ⟨hshared, -, -, -, hst⟩ := v_same s hardware (.user ()) []
    have hvalue : ((s.v hardware (.user ()) []).semaphores (.user ())).value = 1 := by
      simp only [State.v]
      split
      · simp [hv]
      · simp [hv]
    refine h.of_hardware hl hother (by simp [hst]) ?_ (by rw [hshared]) (by rw [hshared])
      (by rw [hshared]) (by rw [hshared]; exact fun _ hc => hc)
    exact .raised t id result ((hother t hth).trans ht) hst hvalue (by rw [hshared]; exact hs)
      (by rw [hshared]; exact ha) (by rw [hshared]; exact hc)

/-! ## Runs -/

/-- Every step keeps the invariant. -/
theorem step {e : Event DiskCall} (h : DiskInv sectors s) (hs : s.step diskUsers e = some s') :
    DiskInv sectors s' := by
  have hl := h.locks.step hs
  cases e with
  | exec t =>
    obtain ⟨-, f, rest, hstack, hexec⟩ := step_exec_iff.mp hs
    by_cases ht : t = hardware
    · subst ht
      exact h.exec_hardware hl hstack hexec
    · exact h.exec hl ht hstack hexec
  | call t i =>
    obtain ⟨hstack, -, r, hr, rfl⟩ := step_call_iff.mp hs
    cases i with
    | access op =>
      simp only [diskUsers, RawDisk.call] at hr
      split at hr
      · cases hr
      · rename_i ht
        cases hr
        exact h.keep hl ht (fun u hu => by simp [State.setStack, hu])
          (by simpa [State.setStack] using DiskStack.acquire) (by intro r; simp [hstack])
          (by intro r; simp [State.setStack]) (by simp [State.setStack]) rfl rfl
    | interrupt =>
      by_cases ht : t = hardware
      · subst ht
        exact h.call_interrupt hl hr
      · simp [diskUsers, RawDisk.call, ht] at hr

/-- The invariant in every reachable state. -/
theorem reachable {priority : Nat → Int} (hr : Reachable diskUsers (diskStart sectors priority) s) :
    DiskInv sectors s := by
  obtain ⟨es, hrun⟩ := hr
  exact runs_inv (fun _ _ _ hI _ hs => step hI hs) (start sectors priority) (AllSteps.trivial es _) hrun

end DiskInv

/-- The disk never receives a request while it is active; a call returns after the interrupt of its own
request; and what the calls find in their buffers is what they would find if they were made one after
another, in the order of their requests, on an array of sectors. -/
theorem synchDisk_sequential (sectors : Nat → Sector) (priority : Nat → Int) {s : DiskState}
    (hr : Reachable diskUsers (diskStart sectors priority) s) :
    (∀ t op rest, s.stack t = .code (.request op) :: rest → s.shared.active = false) ∧
    (∀ r ∈ s.shared.returned, r.2.1 ∈ s.shared.completed ∧
      ∃ op, s.shared.requests[r.2.1]? = some ⟨r.1, op, r.2.2⟩) ∧
    runOps sectors (s.shared.requests.map DiskRequest.op) =
      (s.shared.sectors, s.shared.requests.map DiskRequest.result) := by
  have h := DiskInv.reachable hr
  refine ⟨fun t op rest hstack => ?_, h.returned, h.sequential⟩
  by_cases ht : t = hardware
  · subst ht
    cases h.situation with
    | quiet _ hw | requested _ _ _ _ hw | handling _ _ _ _ hw | raised _ _ _ _ hw =>
      rw [hw] at hstack
      cases hstack
  · have hshape := h.shape t ht
    rw [hstack] at hshape
    cases hshape with
    | request => exact (h.quiet_of_request hstack).2.2.2.2

/-- Thread 1 writes a sector, and thread 2, which waits for the lock meanwhile, reads it. -/
def writeAndRead : List (Event DiskCall) :=
  Event.call 1 (DiskCall.access (DiskOp.write 7 (Sector.ofBytes [5]))) :: List.replicate 5 (Event.exec 1) ++
    Event.call 2 (DiskCall.access (DiskOp.read 7)) :: List.replicate 2 (Event.exec 2) ++
      Event.call 0 DiskCall.interrupt :: Event.exec 0 :: List.replicate 4 (Event.exec 1) ++
        List.replicate 4 (Event.exec 2) ++
        Event.call 0 DiskCall.interrupt :: Event.exec 0 :: List.replicate 4 (Event.exec 2)

theorem synchDisk_sequential_writeAndRead : ∃ s,
    runs (State.step diskUsers) (diskStart (fun _ => Sector.ofBytes []) fun _ => 0) writeAndRead = some s ∧
    s.shared.returned = [(1, 0, none), (2, 1, some (Sector.ofBytes [5]))] ∧
    runOps (fun _ => Sector.ofBytes []) (s.shared.requests.map DiskRequest.op) =
      (s.shared.sectors, s.shared.requests.map DiskRequest.result) := by
  obtain ⟨s, hs⟩ := Option.isSome_iff_exists.mp (show (runs (State.step diskUsers)
    (diskStart (fun _ => Sector.ofBytes []) fun _ => 0) writeAndRead).isSome = true by decide)
  have hreturned : (runs (State.step diskUsers)
      (diskStart (fun _ => Sector.ofBytes []) fun _ => 0) writeAndRead).map (fun s => s.shared.returned) =
      some [(1, 0, none), (2, 1, some (Sector.ofBytes [5]))] := by
    decide
  rw [hs, Option.map_some, Option.some.injEq] at hreturned
  exact ⟨s, hs, hreturned,
    (synchDisk_sequential (fun _ => Sector.ofBytes []) (fun _ => 0) ⟨_, hs⟩).2.2⟩

end Nachos.Filesys
