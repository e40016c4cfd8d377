import Nachos.Threads.Proofs.ReadyThreadsProofs
import Nachos.Threads.Reclaim

/-!
# Proofs: reclaiming finished threads

A thread that has finished is blocked and in no queue, so it never runs again. It is deleted by the next
thread exactly if that thread goes on behind `SWITCH`.
-/

namespace Nachos

open Foundations

namespace Kernel

variable {k k' : Kernel} {t u : Tid}

/-! ## Threads that nothing wakes -/

/-- The thread is blocked and in no queue. -/
def Dormant (k : Kernel) (t : Tid) : Prop := k.status t = some .blocked ∧ ∀ q, t ∉ k.queue q

/-- A change of the status of another thread. -/
theorem Dormant.of_update {st : ThreadStatus} (h : Dormant k t) (hu : k.status u ≠ some .blocked)
    (hs : k'.status = Function.update k.status u (some st)) (hq : k'.queue = k.queue) :
    Dormant k' t := by
  have hne : t ≠ u := by
    rintro rfl
    exact hu h.1
  refine ⟨?_, fun q => ?_⟩
  · rw [hs, Function.update_of_ne hne]
    exact h.1
  · rw [hq]
    exact h.2 q

/-- A step that changes no status and no queue. -/
theorem Dormant.same (h : Dormant k t) (hs : k'.status = k.status) (hq : k'.queue = k.queue) :
    Dormant k' t := by
  refine ⟨?_, fun q => ?_⟩
  · rw [hs]
    exact h.1
  · rw [hq]
    exact h.2 q

theorem Dormant.readyToRun (h : Dormant k t) (hu : k.status u ≠ some .blocked)
    (hk : k.readyToRun u = some k') : Dormant k' t := by
  obtain ⟨-, hs, hq, -, -⟩ := readyToRun_spec hk
  exact h.of_update hu hs hq

theorem Dormant.run (h : Dormant k t) (hu : k.status u = some .ready) : Dormant (k.run u) t := by
  have hs : (k.run u).status = Function.update k.status u (some .running) :=
    status_setStatus (by rw [hu]; rfl) _
  exact h.of_update (by rw [hu]; decide) hs rfl

/-- `V` wakes a thread of a queue. -/
theorem Dormant.v (h : Dormant k t) {s : SemId} (hk : k.v s = some k') : Dormant k' t := by
  unfold Kernel.v at hk
  simp only at hk
  split at hk
  · rename_i hq
    cases hk
    refine h.same rfl ?_
    rw [queue_setSemaphore]
    exact Function.update_eq_self_iff.mpr hq.symm
  · rename_i u l hq
    simp only [Option.bind_eq_bind, Option.bind_eq_some_iff, Option.pure_def, Option.some.injEq] at hk
    obtain ⟨k1, hk1, rfl⟩ := hk
    obtain ⟨-, hs, hqu, -, -⟩ := readyToRun_spec hk1
    have hmem : ∀ v ∈ u :: l, v ∈ k.queue s := by
      intro v hv
      show v ∈ (k.semaphores s).queue
      rwa [hq]
    have hne : t ≠ u := by
      rintro rfl
      exact h.2 s (hmem t List.mem_cons_self)
    refine ⟨?_, fun q hm => ?_⟩
    · show k1.status t = _
      rw [hs, Function.update_of_ne hne]
      exact h.1
    · rw [queue_setSemaphore, hqu] at hm
      by_cases hqs : q = s
      · subst hqs
        rw [Function.update_self] at hm
        exact h.2 q (hmem t (List.mem_cons_of_mem u hm))
      · rw [Function.update_of_ne hqs] at hm
        exact h.2 q hm

theorem currentThread_v {s : SemId} (hk : k.v s = some k') : k'.currentThread = k.currentThread := by
  unfold Kernel.v at hk
  simp only at hk
  split at hk
  · cases hk
    rfl
  · simp only [Option.bind_eq_bind, Option.bind_eq_some_iff, Option.pure_def, Option.some.injEq] at hk
    obtain ⟨k1, hk1, rfl⟩ := hk
    exact (readyToRun_spec hk1).2.2.2.1

/-- The status of the threads when the current thread has gone to sleep. -/
theorem status_sleep {rest : List Frame} (hk : (k.status k.currentThread).isSome) :
    (k.sleep rest).status = Function.update k.status k.currentThread (some .blocked) := by
  show Kernel.status (Kernel.setStack _ _ _) = _
  rw [status_setStack, status_setStatus, status_setPreAssignedQueue]
  rw [status_setPreAssignedQueue]
  exact hk

end Kernel

namespace Reclaim

open Kernel

variable {s s' : Reclaim} {k : Kernel} {t : Tid}

/-! ## What `Run` does -/

theorem run_spec {next : Tid} (h : s.run k next = some s') :
    s'.kernel = k.run next ∧ s'.finished = s.finished ∧
      s'.switched = Function.update s.switched k.currentThread true ∧
      (s'.switched next = true ∧ s'.threadToBeDestroyed = none ∧
          s'.deleted = s.deleted ++ s.threadToBeDestroyed.toList ∨
        s'.switched next = false ∧ s'.threadToBeDestroyed = s.threadToBeDestroyed ∧
          s'.deleted = s.deleted) := by
  simp only [run, Option.bind_eq_bind, Option.pure_def] at h
  split at h
  · rename_i hsw
    obtain ⟨_, -, h⟩ := Option.bind_eq_some_iff.mp h
    cases h
    exact ⟨rfl, rfl, rfl, Or.inl ⟨hsw, rfl, rfl⟩⟩
  · rename_i hsw
    cases h
    exact ⟨rfl, rfl, rfl, Or.inr ⟨by simpa using hsw, rfl, rfl⟩⟩

/-! ## Steps -/

/-- The CPU goes from the current thread to `next`. -/
structure Dispatches (s s' : Reclaim) (next : Tid) : Prop where
  ready : s.kernel.status next = some .ready
  current : s'.kernel.currentThread = next
  finished : s'.finished = s.finished
  deletes : s'.threadToBeDestroyed = none ∧ s'.deleted = s.deleted ++ s.threadToBeDestroyed.toList ∨
    s.switched next = false ∧ s'.threadToBeDestroyed = s.threadToBeDestroyed ∧ s'.deleted = s.deleted

/-- The logs and the thread that has the CPU stay the same. -/
structure Stays (s s' : Reclaim) : Prop where
  current : s'.kernel.currentThread = s.kernel.currentThread
  threadToBeDestroyed : s'.threadToBeDestroyed = s.threadToBeDestroyed
  finished : s'.finished = s.finished
  deleted : s'.deleted = s.deleted

/-- The running thread finishes. -/
structure Finishes (s s' : Reclaim) : Prop where
  running : s.kernel.status s.kernel.currentThread = some .running
  dormant : Dormant s'.kernel s.kernel.currentThread
  current : s'.kernel.currentThread = s.kernel.currentThread
  threadToBeDestroyed : s'.threadToBeDestroyed = some s.kernel.currentThread
  finished : s'.finished = s.finished ++ [s.kernel.currentThread]
  deleted : s'.deleted = s.deleted

/-- What a step can do. -/
structure StepSpec (s : Reclaim) (ev : Event) (s' : Reclaim) : Prop where
  inv : Inv s'.kernel
  dormant : ∀ t, Dormant s.kernel t → Dormant s'.kernel t
  cases : Stays s s' ∨ Finishes s s' ∨
    ∃ next, Dispatches s s' next ∧
      (s.kernel.status s.kernel.currentThread = some .running ∨
        ev = .loop ∧ s.kernel.findNextToRun.1 = some next)

/-- A thread that is not in the loop of `Sleep` runs. -/
theorem running_of_not_sleeping (hI : Inv s.kernel) (hs : s.sleeping = false) :
    s.kernel.status s.kernel.currentThread = some .running ∧
      ∀ st, s.kernel.stackOf s.kernel.currentThread = some st → Frame.sleep ∉ st := by
  obtain ⟨st, hst, hrun⟩ := hI.current
  obtain ⟨th, hth, rfl⟩ := Option.map_eq_some_iff.mp hst
  have hhead : th.stack.head? ≠ some .sleep := by
    simpa [sleeping, hth] using hs
  refine ⟨hrun hhead, fun st' hst' => ?_⟩
  rw [hst, Option.some.injEq] at hst'
  subst hst'
  have htail := (hI.callStacks _ _ hst).1
  cases hstk : th.stack with
  | nil => simp
  | cons f rest =>
    rw [hstk] at hhead htail
    simp only [List.head?_cons, ne_eq, Option.some.injEq] at hhead
    simp only [List.mem_cons, not_or]
    exact ⟨fun he => hhead he.symm, htail⟩

/-- The thread that `Run` dispatches was switched from before, or is the one that gives up the CPU, or
starts at `ThreadRoot`. -/
theorem run_dispatches {next : Tid} (hready : s.kernel.status next = some .ready)
    (h : s.run k next = some s') : Dispatches s s' next := by
  obtain ⟨hk, hfin, hsw, hcases⟩ := run_spec h
  refine ⟨hready, by rw [hk]; rfl, hfin, ?_⟩
  rcases hcases with ⟨-, hdestroy, hdel⟩ | ⟨hnext, hdestroy, hdel⟩
  · exact Or.inl ⟨hdestroy, hdel⟩
  · refine Or.inr ⟨?_, hdestroy, hdel⟩
    rw [hsw] at hnext
    by_cases hcur : next = k.currentThread
    · rw [hcur, Function.update_self] at hnext
      cases hnext
    · rwa [Function.update_of_ne hcur] at hnext

theorem fork_spec {joinable : Bool} {priority : UInt32} {tId : Int} (hI : Inv s.kernel)
    (hrun : s.kernel.status s.kernel.currentThread = some .running)
    (h : s.fork t joinable priority tId = some s') :
    StepSpec s (.fork t joinable priority tId) s' := by
  simp only [fork, Option.bind_eq_bind, Option.bind_eq_some_iff, Option.guard_eq_some',
    Option.isNone_iff_eq_none, Option.pure_def, Option.some.injEq] at h
  obtain ⟨_, hnone, k, hk, rfl⟩ := h
  have hnew : s.kernel.call (Kernel.Thread.new false 0 0) (.newThread t joinable priority tId) =
      some (s.kernel.addThread t (Kernel.Thread.new joinable priority tId)) := by
    simp [Kernel.call, hnone]
  have hI1 := hI.call hrun (show CallOk s.kernel (.newThread t joinable priority tId) from True.intro) hnew
  have hs1 : (s.kernel.addThread t (Kernel.Thread.new joinable priority tId)).status =
      Function.update s.kernel.status t (some .justCreated) := by
    funext u
    by_cases hu : u = t
    · subst hu
      simp [status, addThread, Kernel.Thread.new]
    · simp [status, addThread, Function.update_of_ne hu]
  have ht : (s.kernel.addThread t (Kernel.Thread.new joinable priority tId)).status t =
      some .justCreated := by
    rw [hs1, Function.update_self]
  have hstatus : s.kernel.status t = none := by simp [status, hnone]
  obtain ⟨-, -, -, hcur, -⟩ := readyToRun_spec hk
  refine ⟨?_, ?_, Or.inl ⟨hcur, rfl, rfl, rfl⟩⟩
  · exact hI1.readyToRun (by rw [ht]; decide) (by rw [ht]; decide)
      (hI1.sched.not_mem_queue (by rw [ht]; decide)) hk
  · intro u hu
    have hu1 := hu.of_update (by rw [hstatus]; decide) hs1 rfl
    exact hu1.readyToRun (by rw [ht]; decide) hk

/-- `Yield` puts the thread that runs into the last ready list. -/
theorem yield_eq (s : Reclaim) : s.yield =
    (match (s.kernel.setPreAssignedQueue s.kernel.currentThread 1).findNextToRun with
    | (none, k) => some { s with kernel := k }
    | (some nextThread, k) => do
      let k ← k.readyToRun s.kernel.currentThread
      s.run k nextThread) := rfl

theorem yield_spec (hI : Inv s.kernel) (hs : s.sleeping = false) (h : s.yield = some s') :
    StepSpec s .yield s' := by
  obtain ⟨hrun, hstack⟩ := running_of_not_sleeping hI hs
  cases hf : (s.kernel.setPreAssignedQueue s.kernel.currentThread 1).findNextToRun with
  | mk o k =>
    obtain ⟨hsame, hp⟩ := findNextToRun_spec hf
    have hs1 : k.status = s.kernel.status := by
      rw [hsame]
      exact status_setPreAssignedQueue ..
    have hq1 : k.queue = s.kernel.queue := by
      rw [hsame]
      rfl
    cases o with
    | none =>
      simp only [yield_eq, hf] at h
      cases h
      have hy : s.kernel.yield = some k := by simp only [Kernel.yield, hf]
      refine ⟨hI.yield hrun hstack hy, fun u hu => hu.same hs1 hq1, Or.inl ⟨?_, rfl, rfl, rfl⟩⟩
      show k.currentThread = _
      rw [hsame]
      rfl
    | some next =>
      simp only [yield_eq, hf, Option.bind_eq_bind, Option.bind_eq_some_iff] at h
      obtain ⟨k2, hk2, h⟩ := h
      have hkernel : s'.kernel = k2.run next := (run_spec h).1
      have hy : s.kernel.yield = some s'.kernel := by
        simp only [Kernel.yield, hf, Option.bind_eq_bind, hk2, Option.bind_some, hkernel]
        rfl
      have hready : s.kernel.status next = some .ready :=
        (hI.sched.mem_ready next).mp (hp.mem_iff.mpr List.mem_cons_self)
      have hthis : k.status s.kernel.currentThread = some .running := by rw [hs1]; exact hrun
      have hnext : k2.status next = some .ready := by
        obtain ⟨-, hs2, -, -, -⟩ := readyToRun_spec hk2
        have hne : next ≠ s.kernel.currentThread := by
          rintro rfl
          rw [hrun] at hready
          cases hready
        rw [hs2, Function.update_of_ne hne, hs1]
        exact hready
      refine ⟨hI.yield hrun hstack hy, fun u hu => ?_,
        Or.inr (Or.inr ⟨next, run_dispatches hready h, Or.inl hrun⟩)⟩
      rw [hkernel]
      exact ((hu.same hs1 hq1).readyToRun (by rw [hthis]; decide) hk2).run hnext

theorem block_spec (hI : Inv s.kernel) (hs : s.sleeping = false) (n : Nat) :
    StepSpec s (.block n) (s.block n) := by
  obtain ⟨hrun, -⟩ := running_of_not_sleeping hI hs
  have hstatus : (s.block n).kernel.status =
      Function.update s.kernel.status s.kernel.currentThread (some .blocked) :=
    status_sleep (by show (s.kernel.status s.kernel.currentThread).isSome; rw [hrun]; rfl)
  have hqueue : (s.block n).kernel.queue = Function.update s.kernel.queue (.user n)
      (s.kernel.queue (.user n) ++ [s.kernel.currentThread]) := queue_setSemaphore ..
  refine ⟨?_, fun u hu => ?_, Or.inl ⟨rfl, rfl, rfl, rfl⟩⟩
  · refine hI.sleep hrun (by simp) ?_ rfl rfl rfl
    rw [queue_setSemaphore]
    exact hI.sched.enqueue hrun (.user n)
  · have hne : u ≠ s.kernel.currentThread := by
      rintro rfl
      rw [hu.1] at hrun
      cases hrun
    refine ⟨by rw [hstatus, Function.update_of_ne hne]; exact hu.1, fun q hm => ?_⟩
    rw [hqueue] at hm
    by_cases hq : q = .user n
    · subst hq
      rw [Function.update_self, List.mem_append, List.mem_singleton] at hm
      exact hm.elim (hu.2 _) hne
    · rw [Function.update_of_ne hq] at hm
      exact hu.2 q hm

theorem finish_spec (hI : Inv s.kernel) (hs : s.sleeping = false) : StepSpec s .finish s.finish := by
  obtain ⟨hrun, -⟩ := running_of_not_sleeping hI hs
  have hstatus : s.finish.kernel.status =
      Function.update s.kernel.status s.kernel.currentThread (some .blocked) :=
    status_sleep (by rw [hrun]; rfl)
  have hdormant : Dormant s.finish.kernel s.kernel.currentThread :=
    ⟨by rw [hstatus, Function.update_self], hI.sched.not_mem_queue (by rw [hrun]; decide)⟩
  refine ⟨hI.sleep hrun (by simp) (hI.sched.block hrun) rfl rfl rfl, fun u hu => ?_,
    Or.inr (Or.inl ⟨hrun, hdormant, rfl, rfl, rfl, rfl⟩)⟩
  exact hu.of_update (by rw [hrun]; decide) hstatus rfl

theorem sleepLoop_spec {rest : List Frame} (hI : Inv s.kernel)
    (hst : s.kernel.stackOf s.kernel.currentThread = some (.sleep :: rest))
    (h : s.sleepLoop rest = some s') : StepSpec s .loop s' := by
  cases hf : s.kernel.findNextToRun with
  | mk o k =>
    obtain ⟨hsame, hp⟩ := findNextToRun_spec hf
    have hs1 : k.status = s.kernel.status := by rw [hsame]; rfl
    have hq1 : k.queue = s.kernel.queue := by rw [hsame]; rfl
    have hinv := hI.sleepLoop hst
    unfold Kernel.sleepLoop at hinv
    rw [hf] at hinv
    unfold sleepLoop at h
    rw [hf] at h
    cases o with
    | none =>
      cases h
      refine ⟨hinv, fun u hu => hu.same hs1 hq1, Or.inl ⟨?_, rfl, rfl, rfl⟩⟩
      show k.currentThread = _
      rw [hsame]
    | some next =>
      have hkernel : s'.kernel = (k.setStack k.currentThread rest).run next := (run_spec h).1
      have hready : s.kernel.status next = some .ready :=
        (hI.sched.mem_ready next).mp (hp.mem_iff.mpr List.mem_cons_self)
      have hs2 : (k.setStack k.currentThread rest).status = s.kernel.status :=
        (status_setStack ..).trans hs1
      refine ⟨by rw [hkernel]; exact hinv, fun u hu => ?_,
        Or.inr (Or.inr ⟨next, run_dispatches hready h, Or.inr ⟨rfl, by rw [hf]⟩⟩)⟩
      rw [hkernel]
      exact (hu.same hs2 hq1).run (by rw [hs2]; exact hready)

/-- Every step does what `StepSpec` says. -/
theorem step_spec {ev : Event} (hI : Inv s.kernel) (h : s.step ev = some s') : StepSpec s ev s' := by
  cases ev with
  | fork t joinable priority tId =>
    simp only [step, Option.bind_eq_bind, Option.bind_eq_some_iff, Option.guard_eq_some'] at h
    obtain ⟨_, hs, h⟩ := h
    exact fork_spec hI (running_of_not_sleeping hI hs).1 h
  | yield =>
    simp only [step, Option.bind_eq_bind, Option.bind_eq_some_iff, Option.guard_eq_some'] at h
    obtain ⟨_, hs, h⟩ := h
    exact yield_spec hI hs h
  | block n =>
    simp only [step, Option.bind_eq_bind, Option.bind_eq_some_iff, Option.guard_eq_some',
      Option.pure_def, Option.some.injEq] at h
    obtain ⟨_, hs, rfl⟩ := h
    exact block_spec hI hs n
  | wake n =>
    simp only [step, Option.bind_eq_bind, Option.bind_eq_some_iff, Option.pure_def,
      Option.some.injEq] at h
    obtain ⟨k, hk, rfl⟩ := h
    exact ⟨hI.v hk, fun u hu => hu.v hk, Or.inl ⟨currentThread_v hk, rfl, rfl, rfl⟩⟩
  | finish =>
    simp only [step, Option.bind_eq_bind, Option.bind_eq_some_iff, Option.guard_eq_some',
      Option.pure_def, Option.some.injEq] at h
    obtain ⟨_, hs, rfl⟩ := h
    exact finish_spec hI hs
  | loop =>
    simp only [step, Option.bind_eq_bind, Option.bind_eq_some_iff] at h
    obtain ⟨th, hth, h⟩ := h
    split at h
    · rename_i rest hst
      exact sleepLoop_spec hI (by simp [stackOf, hth, hst]) h
    · cases h

/-! ## Runs -/

/-- What holds in every state: the threads that have finished sleep for ever. -/
structure FinishedInv (s : Reclaim) : Prop where
  inv : Inv s.kernel
  dormant : ∀ t ∈ s.finished, Dormant s.kernel t
  nodup : s.finished.Nodup

theorem finishedInv_start : FinishedInv start :=
  ⟨inv_start _, fun _ h => absurd h List.not_mem_nil, List.nodup_nil⟩

/-- A running thread has not finished. -/
theorem FinishedInv.not_finished (h : FinishedInv s) (ht : s.kernel.status t ≠ some .blocked) :
    t ∉ s.finished :=
  fun hm => ht (h.dormant t hm).1

theorem FinishedInv.step {ev : Event} (h : FinishedInv s) (hs : s.step ev = some s') :
    FinishedInv s' := by
  obtain ⟨hinv, hdormant, hcases⟩ := step_spec h.inv hs
  have hkeep : ∀ t ∈ s.finished, Dormant s'.kernel t := fun t ht => hdormant t (h.dormant t ht)
  rcases hcases with hstay | hfin | ⟨next, hdis, -⟩
  · exact ⟨hinv, by rw [hstay.finished]; exact hkeep, by rw [hstay.finished]; exact h.nodup⟩
  · have hnot := h.not_finished (by rw [hfin.running]; decide)
    refine ⟨hinv, ?_, ?_⟩
    · rw [hfin.finished]
      intro t ht
      rcases List.mem_append.mp ht with ht | ht
      · exact hkeep t ht
      · rw [List.mem_singleton.mp ht]
        exact hfin.dormant
    · rw [hfin.finished, List.nodup_append]
      refine ⟨h.nodup, by simp, fun a ha b hb => ?_⟩
      rw [List.mem_singleton.mp hb]
      rintro rfl
      exact hnot ha
  · exact ⟨hinv, by rw [hdis.finished]; exact hkeep, by rw [hdis.finished]; exact h.nodup⟩

/-- A thread that is to be destroyed has finished. -/
theorem Reclaimed.mem_finished (h : Reclaimed s) (ht : s.threadToBeDestroyed = some t) :
    t ∈ s.finished := by
  rw [h.deletedOnce, ht]
  simp

/-- While the current thread runs, no thread is left to be destroyed. -/
theorem Reclaimed.none_of_running (h : Reclaimed s) (hI : FinishedInv s)
    (hrun : s.kernel.status s.kernel.currentThread = some .running) :
    s.threadToBeDestroyed = none := by
  cases ht : s.threadToBeDestroyed with
  | none => rfl
  | some t =>
    have hcur : t = s.kernel.currentThread := h.prompt t ht
    exact absurd (h.mem_finished ht) (hI.not_finished (by rw [hcur, hrun]; decide))

/-- A step that meets the condition leaves every finished thread reclaimed. -/
theorem Reclaimed.step {ev : Event} (h : Reclaimed s) (hI : FinishedInv s) (hok : HandsOver s ev)
    (hs : s.step ev = some s') : Reclaimed s' := by
  have hnodup := (hI.step hs).nodup
  obtain ⟨-, -, hcases⟩ := step_spec hI.inv hs
  rcases hcases with hstay | hfin | ⟨next, hdis, hfrom⟩
  · refine ⟨?_, hnodup, ?_⟩
    · rw [hstay.finished, hstay.deleted, hstay.threadToBeDestroyed]
      exact h.deletedOnce
    · rw [hstay.threadToBeDestroyed, hstay.current]
      exact h.prompt
  · have hnone := h.none_of_running hI hfin.running
    refine ⟨?_, hnodup, ?_⟩
    · rw [hfin.finished, hfin.deleted, hfin.threadToBeDestroyed, h.deletedOnce, hnone]
      simp
    · rw [hfin.threadToBeDestroyed, hfin.current]
      intro t ht
      exact (Option.some.inj ht).symm
  · have hdone : s'.threadToBeDestroyed = none ∧ s'.deleted = s.deleted ++ s.threadToBeDestroyed.toList := by
      rcases hdis.deletes with hdel | ⟨hnew, hkept, hdel⟩
      · exact hdel
      · have hnone : s.threadToBeDestroyed = none := by
          rcases hfrom with hrun | ⟨rfl, hfind⟩
          · exact h.none_of_running hI hrun
          · by_contra hne
            have hsw := hok hne next hfind
            rw [hnew] at hsw
            cases hsw
        rw [hkept, hdel, hnone]
        exact ⟨rfl, (List.append_nil _).symm⟩
    refine ⟨?_, hnodup, ?_⟩
    · rw [hdis.finished, hdone.1, hdone.2, h.deletedOnce]
      simp
    · rw [hdone.1]
      intro t ht
      cases ht

/-- A thread that has finished is in the loop of `Sleep` when it has the CPU. -/
theorem sleeping_of_finished (hI : FinishedInv s) (hm : s.kernel.currentThread ∈ s.finished) :
    ∃ th rest, s.kernel.threads s.kernel.currentThread = some th ∧ th.stack = .sleep :: rest := by
  obtain ⟨st, hst, hrun⟩ := hI.inv.current
  obtain ⟨th, hth, rfl⟩ := Option.map_eq_some_iff.mp hst
  have hblocked := (hI.dormant _ hm).1
  cases hstk : th.stack with
  | nil =>
    rw [hstk, hblocked] at hrun
    exact absurd (hrun (by simp)) (by decide)
  | cons f rest =>
    by_cases hf : f = .sleep
    · exact ⟨th, rest, hth, by rw [hstk, hf]⟩
    · rw [hstk, hblocked] at hrun
      exact absurd (hrun (by simpa using hf)) (by decide)

/-- If a finished thread gives the CPU to a thread that never had it, it is not reclaimed. -/
theorem handsOver_of_reclaimed {ev : Event} (h : Reclaimed s) (hI : FinishedInv s)
    (hnext : ∀ s', s.step ev = some s' → Reclaimed s') : HandsOver s ev := by
  cases ev with
  | loop =>
    intro hne next hfind
    obtain ⟨t, ht⟩ := Option.ne_none_iff_exists'.mp hne
    have hcur : t = s.kernel.currentThread := h.prompt t ht
    have hm : s.kernel.currentThread ∈ s.finished := hcur ▸ h.mem_finished ht
    obtain ⟨th, rest, hth, hstk⟩ := sleeping_of_finished hI hm
    by_contra hsw
    cases hf : s.kernel.findNextToRun with
    | mk o k =>
      rw [hf] at hfind
      have ho : o = some next := hfind
      subst ho
      obtain ⟨hsame, hp⟩ := findNextToRun_spec hf
      have hready : s.kernel.status next = some .ready :=
        (hI.inv.sched.mem_ready next).mp (hp.mem_iff.mpr List.mem_cons_self)
      have hncur : next ≠ s.kernel.currentThread := by
        rintro rfl
        rw [(hI.dormant _ hm).1] at hready
        cases hready
      have hkcur : k.currentThread = s.kernel.currentThread := by rw [hsame]
      -- the new thread starts at `ThreadRoot`, and the finished one stays
      have hstep : s.step .loop = s.run (k.setStack k.currentThread rest) next := by
        simp [Reclaim.step, hth, hstk, sleepLoop, hf]
      have hold : Function.update s.switched s.kernel.currentThread true next = false := by
        rw [Function.update_of_ne hncur]
        simpa using hsw
      obtain ⟨s', hs'⟩ : ∃ s', s.run (k.setStack k.currentThread rest) next = some s' := by
        simp [run, setStack, modifyThread, hkcur, hold]
      obtain ⟨hk', -, hsw', hcases⟩ := run_spec hs'
      rcases hcases with ⟨htrue, -⟩ | ⟨-, hkept, -⟩
      · rw [hsw'] at htrue
        have hcur' : (k.setStack k.currentThread rest).currentThread = s.kernel.currentThread := hkcur
        rw [hcur', hold] at htrue
        cases htrue
      · have hprompt := (hnext s' (hstep.trans hs')).prompt t (hkept.trans ht)
        rw [hk'] at hprompt
        exact hncur (hprompt.symm.trans hcur)
  | _ => exact True.intro

/-- From a state in which all is well. -/
theorem reclaimed_iff_from {evs : List Event} (hI : FinishedInv s) (h : Reclaimed s) :
    (∀ n s', runs step s (evs.take n) = some s' → Reclaimed s') ↔ AllSteps step HandsOver s evs := by
  induction evs generalizing s with
  | nil =>
    refine ⟨fun _ => True.intro, fun _ n s' hs' => ?_⟩
    rw [List.take_nil] at hs'
    cases hs'
    exact h
  | cons ev evs ih =>
    constructor
    · intro hall
      refine ⟨handsOver_of_reclaimed h hI fun s1 h1 => hall 1 s1 ?_, fun s1 h1 => ?_⟩
      · simp [runs, h1]
      · have hR1 : Reclaimed s1 := hall 1 s1 (by simp [runs, h1])
        refine (ih (hI.step h1) hR1).mp fun n s' hs' => hall (n + 1) s' ?_
        rw [List.take_succ_cons]
        exact runs_cons_eq_some.mpr ⟨s1, h1, hs'⟩
    · rintro ⟨hok, hrest⟩ n s' hs'
      cases n with
      | zero =>
        cases hs'
        exact h
      | succ n =>
        rw [List.take_succ_cons] at hs'
        obtain ⟨s1, h1, hs'⟩ := runs_cons_eq_some.mp hs'
        exact (ih (hI.step h1) (h.step hI hok h1)).mpr (hrest s1 h1) n s' hs'

/-- The main thread forks threads 1 and 2 and yields. Thread 1 finishes; thread 2, which starts then,
finishes as well. -/
def finishBoth : List Event :=
  [.fork 1 false 0 1, .fork 2 false 0 2, .yield, .finish, .loop, .finish]

end Reclaim

end Nachos
