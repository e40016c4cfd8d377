import Mathlib.Data.List.Nodup
import Mathlib.Data.Option.Basic
import Nachos.Threads.Proofs.SchedulerProofs

/-!
# Proofs: no ready thread is lost or duplicated

Every routine takes from the ready lists the thread it runs, and puts into them threads that were in
none; the exception is the end of `Join`, which takes a thread off the ready lists and drops it. In
runs in which `Join` finds no thread to take, and in which a thread is forked once, the threads of the
ready lists are the threads with status ready, each once.
-/

namespace Nachos

open Foundations

namespace Kernel

variable {k k' : Kernel} {t : Tid} {st rest : List Frame}

/-! ## What the updates of a state change -/

/-- The routines a thread is in. -/
def stackOf (k : Kernel) (t : Tid) : Option (List Frame) := (k.threads t).map Thread.stack

/-- A change of a thread that keeps its status and its stack. -/
theorem stackOf_modifyThread (k : Kernel) (t : Tid) (f : Thread → Thread)
    (hf : ∀ th, (f th).stack = th.stack) : (k.modifyThread t f).stackOf = k.stackOf := by
  funext u
  simp only [stackOf, modifyThread]
  by_cases hu : u = t
  · subst hu
    rw [Function.update_self, Option.map_map]
    congr 1
    exact funext hf
  · rw [Function.update_of_ne hu]

theorem status_modifyThread (k : Kernel) (t : Tid) (f : Thread → Thread)
    (hf : ∀ th, (f th).status = th.status) : (k.modifyThread t f).status = k.status :=
  funext fun u => status_modifyThread_self k t f u hf

@[simp]
theorem status_setStack (k : Kernel) (t : Tid) (st : List Frame) : (k.setStack t st).status = k.status :=
  status_modifyThread k t _ fun _ => rfl

@[simp]
theorem status_setPreAssignedQueue (k : Kernel) (t : Tid) (i : Fin 2) :
    (k.setPreAssignedQueue t i).status = k.status :=
  status_modifyThread k t _ fun _ => rfl

@[simp]
theorem stackOf_setPreAssignedQueue (k : Kernel) (t : Tid) (i : Fin 2) :
    (k.setPreAssignedQueue t i).stackOf = k.stackOf :=
  stackOf_modifyThread k t _ fun _ => rfl

@[simp]
theorem stackOf_setStatus (k : Kernel) (t : Tid) (s : ThreadStatus) :
    (k.setStatus t s).stackOf = k.stackOf :=
  stackOf_modifyThread k t _ fun _ => rfl

/-- Setting the stack of a thread that exists. -/
theorem stackOf_setStack (hk : (k.stackOf t).isSome) (st : List Frame) :
    (k.setStack t st).stackOf = Function.update k.stackOf t (some st) := by
  funext u
  simp only [stackOf, setStack, modifyThread]
  by_cases hu : u = t
  · subst hu
    obtain ⟨th, hth⟩ : ∃ th, k.threads u = some th := by
      simpa [stackOf, Option.isSome_iff_exists] using hk
    simp [hth]
  · simp [stackOf, Function.update_of_ne hu]

/-- The queues after a semaphore has changed. -/
theorem queue_setSemaphore (k : Kernel) (s : SemId) (sem : Semaphore) :
    (k.setSemaphore s sem).queue = Function.update k.queue s sem.queue := by
  funext s'
  simp only [queue, setSemaphore]
  by_cases hs : s' = s
  · subst hs
    simp
  · simp [queue, Function.update_of_ne hs]

/-! ## The invariant -/

/-- The invariant: statuses, ready lists and queues agree; the current thread runs, unless it is in
the loop of `Sleep`; and no other thread is in that loop. -/
structure Inv (k : Kernel) : Prop where
  sched : SchedInv k.status k.ready k.queue
  current : ∃ st, k.stackOf k.currentThread = some st ∧
    (st.head? ≠ some .sleep → k.status k.currentThread = some .running)
  callStacks : ∀ t st, k.stackOf t = some st →
    Frame.sleep ∉ st.tail ∧ (t ≠ k.currentThread → Frame.sleep ∉ st)

/-- The current thread, about to execute a frame other than the loop of `Sleep`, runs, and is not in
that loop further down either. -/
theorem Inv.running {f : Frame} (h : Inv k) (hst : k.stackOf k.currentThread = some (f :: rest))
    (hf : f ≠ .sleep) : k.status k.currentThread = some .running ∧ Frame.sleep ∉ rest := by
  obtain ⟨st, hst', hrun⟩ := h.current
  rw [hst, Option.some.injEq] at hst'
  subst hst'
  exact ⟨hrun (by simpa using hf), (h.callStacks _ _ hst).1⟩

/-- The routine of the current thread goes on, and nothing that the scheduler sees changes. -/
theorem Inv.continue (h : Inv k) (hs : k'.status = k.status) (hr : k'.ready = k.ready)
    (hq : k'.queue = k.queue) (hc : k'.currentThread = k.currentThread)
    (hst : k'.stackOf = Function.update k.stackOf k.currentThread (some st))
    (hsl : Frame.sleep ∉ st) (hrun : k.status k.currentThread = some .running) : Inv k' := by
  refine ⟨by rw [hs, hr, hq]; exact h.sched, ⟨st, by rw [hst, hc, Function.update_self],
    fun _ => by rw [hs, hc]; exact hrun⟩, ?_⟩
  intro t st' ht
  rw [hst] at ht
  rw [hc]
  by_cases htc : t = k.currentThread
  · subst htc
    rw [Function.update_self, Option.some.injEq] at ht
    subst ht
    exact ⟨fun hm => hsl (List.mem_of_mem_tail hm), fun hne => absurd rfl hne⟩
  · rw [Function.update_of_ne htc] at ht
    exact h.callStacks t st' ht

/-- The current thread exists. -/
theorem Inv.stack_isSome (h : Inv k) : (k.stackOf k.currentThread).isSome := by
  obtain ⟨st, hst, -⟩ := h.current
  simp [hst]

/-- The same for a change of the stack alone. -/
theorem Inv.setStack (h : Inv k) (hsl : Frame.sleep ∉ st)
    (hrun : k.status k.currentThread = some .running) : Inv (k.setStack k.currentThread st) :=
  h.continue (status_setStack ..) rfl rfl rfl (stackOf_setStack h.stack_isSome st) hsl hrun

/-- Reordering the ready lists does not matter. -/
theorem Inv.of_perm (h : Inv k) (hsame : SameButReady k k') (hp : k.ready.Perm k'.ready) : Inv k' := by
  rw [hsame]
  refine ⟨?_, h.current, h.callStacks⟩
  have hr : ({ k with readyList := k'.readyList } : Kernel).ready = k'.ready := rfl
  rw [hr]
  exact h.sched.perm hp.symm

/-- A thread that is neither ready nor running nor in a queue becomes ready. -/
theorem Inv.readyToRun (h : Inv k) (hr : k.status t ≠ some .ready) (hrun : k.status t ≠ some .running)
    (hq : ∀ s, t ∉ k.queue s) (hk : k.readyToRun t = some k') : Inv k' := by
  obtain ⟨hp, hs, hqu, hc, hst⟩ := readyToRun_spec hk
  have hstack : k'.stackOf = k.stackOf := funext hst
  refine ⟨?_, ?_, by rw [hstack, hc]; exact h.callStacks⟩
  · rw [hs, hqu]
    exact (h.sched.makeReady hr hq).perm hp
  · obtain ⟨st, hcur, hhead⟩ := h.current
    refine ⟨st, by rw [hstack, hc]; exact hcur, fun hsl => ?_⟩
    have ht : k.currentThread ≠ t := by
      rintro rfl
      exact hrun (hhead hsl)
    rw [hs, hc, Function.update_of_ne ht]
    exact hhead hsl

/-- A thread that has been taken off the ready lists runs; the thread that leaves the CPU is not in
the loop of `Sleep` any more. -/
theorem Inv.run {k1 : Kernel} (hsched : SchedInv k1.status (t :: k1.ready) k1.queue)
    (hstacks : ∀ u st, k1.stackOf u = some st → Frame.sleep ∉ st) (ht : (k1.stackOf t).isSome) :
    Inv (k1.run t) := by
  have hk : (k1.status t).isSome := by
    simpa [stackOf, status] using ht
  have hs : (k1.run t).status = Function.update k1.status t (some .running) := status_setStatus hk _
  have hst : (k1.run t).stackOf = k1.stackOf := stackOf_setStatus ..
  have hsafe : ∀ u st, (k1.run t).stackOf u = some st →
      Frame.sleep ∉ st.tail ∧ (u ≠ (k1.run t).currentThread → Frame.sleep ∉ st) := by
    intro u st hu
    rw [hst] at hu
    have hsl := hstacks u st hu
    exact ⟨fun hm => hsl (List.mem_of_mem_tail hm), fun _ => hsl⟩
  obtain ⟨st, hstk⟩ := Option.isSome_iff_exists.mp ht
  refine ⟨?_, ⟨st, by rw [hst]; exact hstk, fun _ => ?_⟩, hsafe⟩
  · rw [hs]
    exact hsched.run
  · rw [hs]
    exact Function.update_self ..

/-- A ready thread exists. -/
theorem Inv.stack_of_ready (h : Inv k) (ht : t ∈ k.ready) : (k.stackOf t).isSome := by
  have hs := (h.sched.mem_ready t).mp ht
  unfold status at hs
  obtain ⟨th, hth, -⟩ := Option.map_eq_some_iff.mp hs
  simp [stackOf, hth]

/-! ## The routines -/

/-- `V` keeps the invariant, also in an interrupt handler. -/
theorem Inv.v (h : Inv k) {s : SemId} (hk : k.v s = some k') : Inv k' := by
  unfold Kernel.v at hk
  simp only at hk
  split at hk
  · rename_i hq
    cases hk
    have hqu : (k.setSemaphore s { value := (k.semaphores s).value + 1, queue := [] }).queue = k.queue := by
      rw [queue_setSemaphore]
      exact Function.update_eq_self_iff.mpr hq.symm
    exact ⟨by rw [hqu]; exact h.sched, h.current, h.callStacks⟩
  · rename_i t l hq
    simp only [Option.bind_eq_bind, Option.bind_eq_some_iff, Option.pure_def, Option.some.injEq] at hk
    obtain ⟨k1, hk1, rfl⟩ := hk
    obtain ⟨hp, hs, hqu, hc, hst⟩ := readyToRun_spec hk1
    have hstack : k1.stackOf = k.stackOf := funext hst
    have hb : k.status t = some .blocked := h.sched.queue_blocked s t (by
      show t ∈ (k.semaphores s).queue
      rw [hq]
      exact List.mem_cons_self)
    obtain ⟨hdeq, hno⟩ := h.sched.dequeue (show k.queue s = t :: l from hq)
    have hready := hdeq.makeReady (by rw [hb]; decide) hno
    refine ⟨?_, ?_, ?_⟩
    · have hqu' : (k1.setSemaphore s { value := (k.semaphores s).value + 1, queue := l }).queue =
          Function.update k.queue s l := by rw [queue_setSemaphore, hqu]
      rw [hqu', show (k1.setSemaphore s _).status = k1.status from rfl, hs]
      exact hready.perm hp
    · obtain ⟨st, hcur, hhead⟩ := h.current
      refine ⟨st, ?_, fun hsl => ?_⟩
      · show k1.stackOf k1.currentThread = some st
        rw [hstack, hc]
        exact hcur
      · have hrun := hhead hsl
        have ht : k.currentThread ≠ t := by
          rintro heq
          rw [heq, hb] at hrun
          cases hrun
        show k1.status k1.currentThread = some .running
        rw [hs, hc, Function.update_of_ne ht]
        exact hrun
    · intro u st hu
      have hu' : k1.stackOf u = some st := hu
      rw [hstack] at hu'
      show _ ∧ (u ≠ k1.currentThread → _)
      rw [hc]
      exact h.callStacks u st hu'

/-- The current thread goes to sleep. -/
theorem Inv.sleep (h : Inv k) (hrun : k.status k.currentThread = some .running)
    (hsl : Frame.sleep ∉ rest) (hsched : SchedInv (Function.update k.status k.currentThread
      (some .blocked)) k'.ready k'.queue) (hs : k'.status = k.status) (hc : k'.currentThread =
      k.currentThread) (hst : k'.stackOf = k.stackOf) : Inv (k'.sleep rest) := by
  have hk : ((k'.setPreAssignedQueue k'.currentThread 0).status k'.currentThread).isSome := by
    rw [status_setPreAssignedQueue, hs, hc, hrun]
    rfl
  have hk2 : (((k'.setPreAssignedQueue k'.currentThread 0).setStatus k'.currentThread .blocked).stackOf
      k'.currentThread).isSome := by
    rw [stackOf_setStatus, stackOf_setPreAssignedQueue, hst, hc]
    exact h.stack_isSome
  have hstatus : (k'.sleep rest).status = Function.update k.status k.currentThread (some .blocked) := by
    show Kernel.status (Kernel.setStack _ _ _) = _
    rw [status_setStack, status_setStatus hk, status_setPreAssignedQueue, hs, hc]
  have hstack : (k'.sleep rest).stackOf =
      Function.update k.stackOf k.currentThread (some (.sleep :: rest)) := by
    show Kernel.stackOf (Kernel.setStack _ _ _) = _
    rw [stackOf_setStack hk2, stackOf_setStatus, stackOf_setPreAssignedQueue, hst, hc]
  have hcur : (k'.sleep rest).currentThread = k.currentThread := hc
  refine ⟨by rw [hstatus]; exact hsched, ⟨.sleep :: rest, ?_, fun hne => absurd rfl hne⟩, ?_⟩
  · rw [hstack, hcur, Function.update_self]
  · intro t st ht
    rw [hstack] at ht
    rw [hcur]
    by_cases htc : t = k.currentThread
    · subst htc
      rw [Function.update_self, Option.some.injEq] at ht
      subst ht
      exact ⟨hsl, fun hne => absurd rfl hne⟩
    · rw [Function.update_of_ne htc] at ht
      exact h.callStacks t st ht

/-- The loop of `Sleep` dispatches a ready thread. -/
theorem Inv.sleepLoop (h : Inv k) (hst : k.stackOf k.currentThread = some (.sleep :: rest)) :
    Inv (k.sleepLoop rest) := by
  unfold Kernel.sleepLoop
  cases hf : k.findNextToRun with
  | mk o k1 =>
    obtain ⟨hsame, hp⟩ := findNextToRun_spec hf
    cases o with
    | none => exact h.of_perm hsame hp
    | some n =>
      have hk1 : k1.stackOf = k.stackOf ∧ k1.status = k.status ∧ k1.queue = k.queue ∧
          k1.currentThread = k.currentThread := by
        rw [hsame]
        exact ⟨rfl, rfl, rfl, rfl⟩
      obtain ⟨hst1, hs1, hq1, hc1⟩ := hk1
      have hk : (k1.stackOf k1.currentThread).isSome := by rw [hst1, hc1, hst]; rfl
      have hstack : (k1.setStack k1.currentThread rest).stackOf =
          Function.update k.stackOf k.currentThread (some rest) := by
        rw [stackOf_setStack hk, hst1, hc1]
      refine Inv.run ?_ ?_ ?_
      · rw [status_setStack, hs1]
        show SchedInv k.status (n :: k1.ready) k1.queue
        rw [hq1]
        exact h.sched.perm hp.symm
      · intro u st hu
        rw [hstack] at hu
        by_cases huc : u = k.currentThread
        · subst huc
          rw [Function.update_self, Option.some.injEq] at hu
          subst hu
          exact (h.callStacks _ _ hst).1
        · rw [Function.update_of_ne huc] at hu
          exact (h.callStacks u st hu).2 huc
      · rw [hstack]
        by_cases hn : n = k.currentThread
        · subst hn
          simp
        · rw [Function.update_of_ne hn]
          exact h.stack_of_ready (hp.mem_iff.mpr List.mem_cons_self)

/-- `Yield` of the running thread. -/
theorem Inv.yield (h : Inv k) (hrun : k.status k.currentThread = some .running)
    (hsl : ∀ st, k.stackOf k.currentThread = some st → Frame.sleep ∉ st)
    (hk : k.yield = some k') : Inv k' := by
  unfold Kernel.yield at hk
  simp only at hk
  have h0 : Inv (k.setPreAssignedQueue k.currentThread 1) := by
    have hs := status_setPreAssignedQueue k k.currentThread 1
    have hst := stackOf_setPreAssignedQueue k k.currentThread 1
    refine ⟨by rw [hs]; exact h.sched, ?_, by rw [hst]; exact h.callStacks⟩
    rw [hst, hs]
    exact h.current
  cases hf : (k.setPreAssignedQueue k.currentThread 1).findNextToRun with
  | mk o k1 =>
    rw [hf] at hk
    obtain ⟨hsame, hp⟩ := findNextToRun_spec hf
    cases o with
    | none =>
      cases hk
      exact h0.of_perm hsame hp
    | some n =>
      simp only [Option.bind_eq_bind, Option.bind_eq_some_iff, Option.pure_def,
        Option.some.injEq] at hk
      obtain ⟨k2, hk2, rfl⟩ := hk
      obtain ⟨hp2, hs2, hq2, hc2, hst2⟩ := readyToRun_spec hk2
      have hs1 : k1.status = k.status := by
        rw [hsame]
        exact status_setPreAssignedQueue ..
      have hst1 : k1.stackOf = k.stackOf := by
        rw [hsame]
        exact stackOf_setPreAssignedQueue ..
      have hq1 : k1.queue = k.queue := by rw [hsame]; rfl
      have hstack2 : k2.stackOf = k.stackOf := (funext hst2).trans hst1
      -- with the next thread off the lists, the running thread goes into them
      have hsched : SchedInv k.status (n :: k1.ready) k.queue := h.sched.perm hp.symm
      have hready := hsched.makeReady (by rw [hrun]; decide)
        (h.sched.not_mem_queue (by rw [hrun]; decide))
      have hperm : (n :: k2.ready).Perm (k.currentThread :: n :: k1.ready) :=
        (hp2.cons n).trans (List.Perm.swap _ _ _)
      refine Inv.run ?_ ?_ ?_
      · rw [hs2, hq2, hs1, hq1]
        exact hready.perm hperm
      · intro u st hu
        rw [hstack2] at hu
        by_cases huc : u = k.currentThread
        · subst huc
          exact hsl st hu
        · exact (h.callStacks u st hu).2 huc
      · rw [hstack2]
        exact h.stack_of_ready (hp.mem_iff.mpr List.mem_cons_self)

/-! ## Steps -/

/-- `FindNextToRun` has no thread to return: each ready list is empty, or its first thread has a
negative key. -/
def NoneToRun (k : Kernel) : Prop := ∀ i, ∀ e ∈ (k.readyList i).head?, e.2 < 0

instance (k : Kernel) : Decidable (NoneToRun k) :=
  inferInstanceAs (Decidable (∀ i, ∀ e ∈ (k.readyList i).head?, e.2 < 0))

/-- One iteration of the loop of `FindNextToRun` that finds nothing. -/
theorem findInList_none {i : Fin 2} (h : ∀ e ∈ (k.readyList i).head?, e.2 < 0) :
    ∃ l, findInList k none i = (none, k.setReadyList i l) := by
  unfold findInList
  cases hl : k.readyList i with
  | nil =>
    refine ⟨[], ?_⟩
    have hself : k.setReadyList i [] = k := by
      unfold setReadyList
      rw [Function.update_eq_self_iff.mpr hl.symm]
    rw [hself]
    rfl
  | cons e l =>
    have hneg : ¬ e.2 > -1 := by
      have := h e (by rw [hl]; rfl)
      omega
    exact ⟨sortedInsert e.1 e.2 l, by simp [sortedPop, hneg]⟩

theorem findNextToRun_none (h : NoneToRun k) : k.findNextToRun.1 = none := by
  unfold findNextToRun
  obtain ⟨l0, h0⟩ := findInList_none (h 0)
  have h1 : ∀ e ∈ ((k.setReadyList 0 l0).readyList 1).head?, e.2 < 0 := by
    have hne : (k.setReadyList 0 l0).readyList 1 = k.readyList 1 := rfl
    rw [hne]
    exact h 1
  obtain ⟨l1, h1⟩ := findInList_none h1
  simp only [h0, h1, Option.map_none]

/-- A frame is about to be executed that the ready lists survive: when `Join` asks the scheduler for a
thread, there is none. -/
def FrameOk (k : Kernel) : Frame → Prop
  | .joinFind => NoneToRun k
  | _ => True

/-- The running thread executes a frame. -/
theorem Inv.exec {f : Frame} (h : Inv k) (hst : k.stackOf k.currentThread = some (f :: rest))
    (hok : FrameOk k f) (hk : k.exec f rest = some k') : Inv k' := by
  by_cases hf : f = .sleep
  · subst hf
    cases hk
    exact h.sleepLoop hst
  obtain ⟨hrun, hrest⟩ := h.running hst hf
  have hdone : Inv (k.setStack k.currentThread rest) := h.setStack hrest hrun
  have hstack := stackOf_setStack h.stack_isSome
  have hstatus := status_setStack k k.currentThread
  cases f with
  | sleep => exact absurd rfl hf
  | p s =>
    simp only [Kernel.exec] at hk
    split at hk
    · -- the semaphore is not available: into its queue, and to sleep
      cases hk
      have hsl : Frame.sleep ∉ Frame.p s :: rest := by simpa using hrest
      refine h.sleep hrun hsl ?_ rfl rfl rfl
      rw [queue_setSemaphore]
      exact h.sched.enqueue hrun s
    · cases hk
      have hqu : ((k.setStack k.currentThread rest).setSemaphore s
          { (k.semaphores s) with value := (k.semaphores s).value - 1 }).queue = k.queue := by
        rw [queue_setSemaphore]
        exact Function.update_eq_self_iff.mpr rfl
      exact h.continue (hstatus rest) rfl hqu rfl (hstack rest) hrest hrun
  | v s => exact hdone.v hk
  | yield =>
    refine hdone.yield (by rw [hstatus]; exact hrun) (fun st hs => ?_) hk
    have hs' : (k.setStack k.currentThread rest).stackOf k.currentThread = some st := hs
    rw [hstack, Function.update_self, Option.some.injEq] at hs'
    subst hs'
    exact hrest
  | acquire c =>
    simp only [Kernel.exec, Option.bind_eq_bind, Option.bind_eq_some_iff, Option.pure_def,
      Option.some.injEq] at hk
    obtain ⟨_, -, rfl⟩ := hk
    have hsl : Frame.sleep ∉ Frame.p (.lock c) :: .own c :: rest := by simpa using hrest
    cases hown : (k.channels c).lockOwner with
    | none => exact h.setStack hsl hrun
    | some owner =>
      have hs := status_modifyThread k owner (fun th => { th with
        inheritedPriorities := setInheritedPriority th.inheritedPriorities c
          (((k.threads k.currentThread).map getPriority).getD 0) }) fun _ => rfl
      have hst' := stackOf_modifyThread k owner (fun th => { th with
        inheritedPriorities := setInheritedPriority th.inheritedPriorities c
          (((k.threads k.currentThread).map getPriority).getD 0) }) fun _ => rfl
      refine h.continue ((status_setStack ..).trans hs) rfl rfl rfl ?_ hsl hrun
      rw [stackOf_setStack, hst']
      rw [hst']
      exact h.stack_isSome
  | own c =>
    cases hk
    exact h.continue (hstatus rest) rfl rfl rfl (hstack rest) hrest hrun
  | release c =>
    simp only [Kernel.exec, Option.bind_eq_bind, Option.bind_eq_some_iff, Option.pure_def,
      Option.some.injEq] at hk
    obtain ⟨_, -, rfl⟩ := hk
    have hsl : Frame.sleep ∉ Frame.v (.lock c) :: rest := by simpa using hrest
    have hs := status_modifyThread k k.currentThread (fun th => { th with
      inheritedPriorities := removeInheritedPriority th.inheritedPriorities c }) fun _ => rfl
    have hst' := stackOf_modifyThread k k.currentThread (fun th => { th with
      inheritedPriorities := removeInheritedPriority th.inheritedPriorities c }) fun _ => rfl
    refine h.continue ((status_setStack ..).trans hs) rfl rfl rfl ?_ hsl hrun
    rw [stackOf_setStack]
    · show Function.update (Kernel.stackOf (Kernel.modifyThread _ _ _)) _ _ = _
      rw [hst']
    · show (Kernel.stackOf (Kernel.modifyThread _ _ _) _).isSome
      rw [hst']
      exact h.stack_isSome
  | wait c cond =>
    simp only [Kernel.exec, Option.bind_eq_bind, Option.bind_eq_some_iff, Option.pure_def,
      Option.some.injEq] at hk
    obtain ⟨_, -, rfl⟩ := hk
    have hsl : Frame.sleep ∉
        Frame.release c :: .p (.sleeper k.sleepers) :: .acquire c :: rest := by simpa using hrest
    exact h.continue (hstatus _) rfl rfl rfl (hstack _) hsl hrun
  | signal c cond =>
    simp only [Kernel.exec, Option.bind_eq_bind, Option.bind_eq_some_iff] at hk
    obtain ⟨_, -, hk⟩ := hk
    split at hk
    · cases hk
      exact hdone
    · rename_i s cola _
      cases hk
      have hsl : Frame.sleep ∉ Frame.v s :: rest := by simpa using hrest
      exact h.continue (hstatus _) rfl rfl rfl (hstack _) hsl hrun
  | sendAppend c mensaje =>
    cases hk
    exact h.continue (hstatus rest) rfl rfl rfl (hstack rest) hrest hrun
  | sendHead c =>
    simp only [Kernel.exec, Option.bind_eq_bind, Option.bind_eq_some_iff, Option.pure_def,
      Option.some.injEq] at hk
    obtain ⟨b, -, rfl⟩ := hk
    have hsl : Frame.sleep ∉ Frame.sendLoop c b :: rest := by simpa using hrest
    exact h.setStack hsl hrun
  | sendLoop c b =>
    simp only [Kernel.exec] at hk
    split at hk
    · cases hk
      have hsl : Frame.sleep ∉ Frame.wait c .bloqueanteSend :: .sendLoop c b :: rest := by
        simpa using hrest
      exact h.setStack hsl hrun
    · cases hk
      exact hdone
  | receiveLoop c =>
    simp only [Kernel.exec] at hk
    split at hk
    · cases hk
      have hsl : Frame.sleep ∉ Frame.wait c .bloqueanteReceive :: .receiveLoop c :: rest := by
        simpa using hrest
      exact h.setStack hsl hrun
    · cases hk
      exact hdone
  | receivePop c =>
    cases hk
    exact h.continue (hstatus rest) rfl rfl rfl (hstack rest) hrest hrun
  | joinFind =>
    have hnone : (k.setStack k.currentThread rest).findNextToRun.1 = none := findNextToRun_none hok
    simp only [Kernel.exec] at hk
    cases hfind : (k.setStack k.currentThread rest).findNextToRun with
    | mk o k1 =>
      rw [hfind] at hnone hk
      simp only at hnone
      subst hnone
      cases hk
      obtain ⟨hsame, hp⟩ := findNextToRun_spec hfind
      exact hdone.of_perm hsame hp
  | finishSleep =>
    cases hk
    exact h.sleep hrun hrest (h.sched.block hrun) rfl rfl rfl

/-- The calls that keep the invariant: a thread is forked once. -/
def CallOk (k : Kernel) : Call → Prop
  | .fork t => k.status t = some .justCreated
  | _ => True

/-- The program of the running thread makes a call. -/
theorem Inv.call {th : Thread} {c : Call} (h : Inv k) (hrun : k.status k.currentThread = some .running)
    (hok : CallOk k c) (hk : k.call th c = some k') : Inv k' := by
  cases c with
  | newThread t joinable priority tId =>
    simp only [Kernel.call, Option.bind_eq_bind, Option.bind_eq_some_iff, Option.guard_eq_some',
      Option.isNone_iff_eq_none, Option.pure_def, Option.some.injEq] at hk
    obtain ⟨_, hnone, rfl⟩ := hk
    have ht : k.status t = none := by simp [status, hnone]
    have htc : k.currentThread ≠ t := by
      rintro rfl
      rw [ht] at hrun
      cases hrun
    have hs : (k.addThread t (Thread.new joinable priority tId)).status =
        Function.update k.status t (some .justCreated) := by
      funext u
      by_cases hu : u = t
      · subst hu
        simp [status, addThread, Thread.new]
      · simp [status, addThread, Function.update_of_ne hu]
    have hst : (k.addThread t (Thread.new joinable priority tId)).stackOf =
        Function.update k.stackOf t (some []) := by
      funext u
      by_cases hu : u = t
      · subst hu
        simp [stackOf, addThread, Thread.new]
      · simp [stackOf, addThread, Function.update_of_ne hu]
    refine ⟨by rw [hs]; exact h.sched.create ht, ?_, ?_⟩
    · obtain ⟨st, hcur, hhead⟩ := h.current
      refine ⟨st, ?_, fun hsl => ?_⟩
      · rw [hst]
        exact (Function.update_of_ne htc ..).trans hcur
      · rw [hs]
        exact (Function.update_of_ne htc ..).trans (hhead hsl)
    · intro u st hu
      rw [hst] at hu
      by_cases hut : u = t
      · subst hut
        rw [Function.update_self, Option.some.injEq] at hu
        subst hu
        simp
      · rw [Function.update_of_ne hut] at hu
        exact h.callStacks u st hu
  | fork t =>
    have hs : k.status t = some .justCreated := hok
    refine h.readyToRun (by rw [hs]; decide) (by rw [hs]; decide)
      (h.sched.not_mem_queue (by rw [hs]; decide)) hk
  | p n =>
    cases hk
    exact h.setStack (by simp) hrun
  | v n =>
    cases hk
    exact h.setStack (by simp) hrun
  | yield =>
    cases hk
    exact h.setStack (by simp) hrun
  | join t =>
    simp only [Kernel.call, Option.bind_eq_bind, Option.bind_eq_some_iff, Option.pure_def,
      Option.some.injEq] at hk
    obtain ⟨_, -, _, -, rfl⟩ := hk
    exact h.setStack (by simp [receive]) hrun
  | finish returnValue =>
    cases hk
    refine h.setStack ?_ hrun
    split <;> simp [send]

/-- The condition on a step: when `Join` asks the scheduler for a thread there is none, and `Fork` is
called on a thread that was just created. -/
def StepOk (k : Kernel) : Event → Prop
  | .call c => CallOk k c
  | .exec => ∀ th ∈ k.threads k.currentThread, ∀ f ∈ th.stack.head?, FrameOk k f
  | _ => True

instance (k : Kernel) : DecidablePred (FrameOk k)
  | .joinFind => inferInstanceAs (Decidable (NoneToRun k))
  | .p _ | .v _ | .sleep | .yield | .acquire _ | .own _ | .release _ | .wait _ _ | .signal _ _
  | .sendAppend _ _ | .sendHead _ | .sendLoop _ _ | .receiveLoop _ | .receivePop _ | .finishSleep =>
    inferInstanceAs (Decidable True)

instance (k : Kernel) : DecidablePred (CallOk k)
  | .fork t => inferInstanceAs (Decidable (k.status t = some .justCreated))
  | .newThread .. | .p _ | .v _ | .yield | .join _ | .finish _ => inferInstanceAs (Decidable True)

instance (k : Kernel) : DecidablePred (StepOk k)
  | .call c => inferInstanceAs (Decidable (CallOk k c))
  | .exec => inferInstanceAs (Decidable (∀ th ∈ k.threads k.currentThread, ∀ f ∈ th.stack.head?, _))
  | .timer | .interrupt _ => inferInstanceAs (Decidable True)

/-- Every step that meets the condition keeps the invariant. -/
theorem Inv.step {ev : Event} (h : Inv k) (hok : StepOk k ev) (hk : k.step ev = some k') : Inv k' := by
  simp only [Kernel.step, Option.bind_eq_bind, Option.bind_eq_some_iff] at hk
  obtain ⟨th, hth, hk⟩ := hk
  have hst : k.stackOf k.currentThread = some th.stack := by simp [stackOf, hth]
  cases ev with
  | call c =>
    simp only [Option.bind_eq_some_iff, Option.guard_eq_some'] at hk
    obtain ⟨_, ⟨-, hrun⟩, hk⟩ := hk
    exact h.call (by simp [status, hth, hrun]) hok hk
  | exec =>
    simp only at hk
    split at hk
    · cases hk
    · rename_i f rest hstk
      rw [hstk] at hst
      exact h.exec hst (hok th hth f (by rw [hstk]; rfl)) hk
  | timer =>
    simp only [Option.bind_eq_some_iff, Option.guard_eq_some', Option.pure_def,
      Option.some.injEq] at hk
    obtain ⟨_, hne, rfl⟩ := hk
    obtain ⟨st, hst', hrun⟩ := h.current
    rw [hst, Option.some.injEq] at hst'
    subst hst'
    refine h.setStack ?_ (hrun hne)
    have htail := (h.callStacks _ _ hst).1
    cases hs : th.stack with
    | nil => simp
    | cons f rest =>
      rw [hs] at hne htail
      simp only [List.head?_cons, ne_eq, Option.some.injEq] at hne
      simp only [List.mem_cons, reduceCtorEq, false_or, not_or]
      exact ⟨fun he => hne he.symm, htail⟩
  | interrupt n => exact h.v hk

/-- When the system starts, the main thread runs and no thread is ready. -/
theorem inv_start (initialValue : Nat → Int) : Inv (start initialValue) := by
  have hq : ∀ s, (start initialValue).queue s = [] := by
    intro s
    cases s <;> rfl
  have hst : ∀ t st, (start initialValue).stackOf t = some st → st = [] := by
    intro t st h
    simp only [stackOf, start] at h
    split at h
    · cases h
      rfl
    · cases h
  refine ⟨⟨List.nodup_nil, ?_, fun s => ?_, ?_, ?_⟩, ⟨[], rfl, fun _ => rfl⟩, ?_⟩
  · intro t
    simp only [ready, start, status]
    split <;> simp
  · rw [hq]
    exact List.nodup_nil
  · intro s s' t h
    rw [hq] at h
    cases h
  · intro s t h
    rw [hq] at h
    cases h
  · intro t st h
    rw [hst t st h]
    simp

/-- The thread occurs once in one ready list, and not in the other. -/
def ReadyOnce (k : Kernel) (t : Tid) : Prop :=
  ∃ i, ((k.readyList i).map Prod.fst).count t = 1 ∧ ∀ j ≠ i, t ∉ (k.readyList j).map Prod.fst

/-- A thread is ready exactly when it occurs once in one ready list, and running and blocked threads
occur in none. -/
def NoThreadLost (k : Kernel) : Prop :=
  ∀ t th, k.threads t = some th → (th.status = .ready ↔ k.ReadyOnce t) ∧
    (th.status = .running ∨ th.status = .blocked → ∀ i, t ∉ (k.readyList i).map Prod.fst)

/-- A thread occurs in the ready lists, without duplicates, when it occurs once in one of them. -/
theorem readyOnce_iff (hn : k.ready.Nodup) (t : Tid) : k.ReadyOnce t ↔ t ∈ k.ready := by
  unfold ready at *
  rw [List.map_append] at *
  obtain ⟨h0, h1, hd⟩ := List.nodup_append.mp hn
  have hne : ∀ i : Fin 2, i ≠ 0 → i = 1 := by decide
  constructor
  · rintro ⟨i, hc, -⟩
    have hm : t ∈ (k.readyList i).map Prod.fst := List.count_pos_iff.mp (by omega)
    by_cases hi : i = 0
    · rw [hi] at hm
      exact List.mem_append_left _ hm
    · rw [hne i hi] at hm
      exact List.mem_append_right _ hm
  · intro hm
    rcases List.mem_append.mp hm with hm | hm
    · refine ⟨0, List.count_eq_one_of_mem h0 hm, fun j hj hmj => ?_⟩
      rw [hne j hj] at hmj
      exact hd t hm t hmj rfl
    · refine ⟨1, List.count_eq_one_of_mem h1 hm, fun j hj hmj => ?_⟩
      by_cases hj0 : j = 0
      · rw [hj0] at hmj
        exact hd t hmj t hm rfl
      · exact hj (hne j hj0)

theorem Inv.noThreadLost (h : Inv k) : NoThreadLost k := by
  intro t th hth
  have hs : k.status t = some th.status := by simp [status, hth]
  refine ⟨?_, fun hrb i hm => ?_⟩
  · rw [readyOnce_iff h.sched.nodup, h.sched.mem_ready, hs, Option.some.injEq]
  · have hready : t ∈ k.ready := by
      unfold ready
      rw [List.map_append, List.mem_append]
      obtain rfl | rfl : i = 0 ∨ i = 1 := by omega
      · exact Or.inl hm
      · exact Or.inr hm
    have hr := (h.sched.mem_ready t).mp hready
    rw [hs, Option.some.injEq] at hr
    rcases hrb with hrb | hrb <;> (rw [hr] at hrb; cases hrb)

/-- In every run in which each `Join` asks for a thread when there is none to run, and each thread is
forked once, no ready thread is lost or duplicated. -/
theorem noThreadLost_of_run (initialValue : Nat → Int) (evs : List Event) (k : Kernel)
    (hok : AllSteps Kernel.step StepOk (start initialValue) evs)
    (hrun : runs Kernel.step (start initialValue) evs = some k) : NoThreadLost k :=
  (runs_inv (fun _ _ _ hI hP h => Inv.step hI hP h) (inv_start initialValue) hok hrun).noThreadLost

/-- The main thread forks a joinable thread 1, calls `Join` on it and sleeps; thread 1 finishes: it
sends its value, which wakes the main thread, and sleeps until the value has been received. -/
def joinOne : List Event :=
  [Event.call (Call.newThread 1 true 0 1), Event.call (Call.fork 1), Event.call (Call.join 1)] ++
    List.replicate 9 Event.exec ++
    [Event.call (Call.finish 7)] ++ List.replicate 13 Event.exec

/-- The timer lets thread 1 finish before `Join` asks for a thread. -/
theorem noThreadLost_of_run_join :
    AllSteps Kernel.step StepOk (start fun _ => 0)
      (joinOne ++ List.replicate 10 .exec ++ .timer :: List.replicate 11 .exec) ∧
    ∃ k, runs Kernel.step (start fun _ => 0)
        (joinOne ++ List.replicate 10 .exec ++ .timer :: List.replicate 11 .exec) = some k ∧
      NoThreadLost k := by
  have hok : AllSteps Kernel.step StepOk (start fun _ => 0)
      (joinOne ++ List.replicate 10 .exec ++ .timer :: List.replicate 11 .exec) := by decide +kernel
  have hrun : (runs Kernel.step (start fun _ => 0)
      (joinOne ++ List.replicate 10 .exec ++ .timer :: List.replicate 11 .exec)).isSome = true := by
    decide +kernel
  obtain ⟨k, hk⟩ := Option.isSome_iff_exists.mp hrun
  exact ⟨hok, k, hk, noThreadLost_of_run _ _ k hok hk⟩

/-- Without the timer, thread 1 is ready when `Join` asks for a thread: it is taken off the ready
lists and dropped. -/
theorem join_loses_thread :
    ¬ ∀ (initialValue : Nat → Int) (evs : List Event) (k : Kernel),
      runs Kernel.step (start initialValue) evs = some k → NoThreadLost k := by
  intro hall
  have hrun : ((runs Kernel.step (start fun _ => 0) (joinOne ++ List.replicate 11 .exec)).map
      fun k => (k.status 1, k.ready)) = some (some .ready, []) := by decide +kernel
  obtain ⟨k, hk, hval⟩ := Option.map_eq_some_iff.mp hrun
  rw [Prod.mk.injEq] at hval
  obtain ⟨th, hth, hst⟩ := Option.map_eq_some_iff.mp hval.1
  have honce := (hall _ _ k hk 1 th hth).1.mp hst
  have hmem := (readyOnce_iff (by rw [hval.2]; exact List.nodup_nil) 1).mp honce
  rw [hval.2] at hmem
  cases hmem

end Kernel

end Nachos
