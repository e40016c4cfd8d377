import Nachos.Foundations.Runs
import Nachos.Threads.Kernel

/-!
# Proofs: the ready lists

What a thread's status, the ready lists and the queues of the semaphores have to do with each other,
first over arbitrary statuses, lists and queues, then for the operations of the scheduler.
-/

namespace Nachos

open Foundations

/-! ## Statuses, ready threads and waiting threads -/

/-- The threads in `ready` are those with status ready, each once; a thread in a queue is blocked, and
is in one queue, once. -/
structure SchedInv {σ : Type*} (status : Tid → Option ThreadStatus) (ready : List Tid)
    (queue : σ → List Tid) : Prop where
  nodup : ready.Nodup
  mem_ready : ∀ t, t ∈ ready ↔ status t = some .ready
  queue_nodup : ∀ s, (queue s).Nodup
  queue_disjoint : ∀ s s' t, t ∈ queue s → t ∈ queue s' → s = s'
  queue_blocked : ∀ s t, t ∈ queue s → status t = some .blocked

namespace SchedInv

variable {σ : Type*} {status : Tid → Option ThreadStatus} {ready ready' : List Tid}
  {queue : σ → List Tid} {t : Tid}

/-- The order of the ready threads does not matter. -/
theorem perm (h : SchedInv status ready queue) (hp : ready'.Perm ready) :
    SchedInv status ready' queue :=
  ⟨hp.nodup_iff.mpr h.nodup, fun t => by rw [hp.mem_iff]; exact h.mem_ready t, h.queue_nodup,
    h.queue_disjoint, h.queue_blocked⟩

/-- A thread that is neither ready nor in a queue becomes ready. -/
theorem makeReady (h : SchedInv status ready queue) (hr : status t ≠ some .ready)
    (hq : ∀ s, t ∉ queue s) :
    SchedInv (Function.update status t (some .ready)) (t :: ready) queue := by
  refine ⟨List.nodup_cons.mpr ⟨fun hm => hr ((h.mem_ready t).mp hm), h.nodup⟩, ?_, h.queue_nodup,
    h.queue_disjoint, ?_⟩
  · intro u
    by_cases hu : u = t
    · subst hu
      simp
    · rw [Function.update_of_ne hu, List.mem_cons, ← h.mem_ready u]
      simp [hu]
  · intro s u hs
    have hu : u ≠ t := by
      rintro rfl
      exact hq s hs
    rw [Function.update_of_ne hu]
    exact h.queue_blocked s u hs

/-- A ready thread that leaves the ready list runs. -/
theorem run (h : SchedInv status (t :: ready) queue) :
    SchedInv (Function.update status t (some .running)) ready queue := by
  obtain ⟨hnt, hnd⟩ := List.nodup_cons.mp h.nodup
  have ht : status t = some .ready := (h.mem_ready t).mp List.mem_cons_self
  refine ⟨hnd, ?_, h.queue_nodup, h.queue_disjoint, ?_⟩
  · intro u
    by_cases hu : u = t
    · subst hu
      simp [hnt]
    · rw [Function.update_of_ne hu, ← h.mem_ready u, List.mem_cons]
      simp [hu]
  · intro s u hs
    have hu : u ≠ t := by
      rintro rfl
      have hb := h.queue_blocked s u hs
      rw [ht] at hb
      cases hb
    rw [Function.update_of_ne hu]
    exact h.queue_blocked s u hs

/-- The running thread becomes blocked. -/
theorem block (h : SchedInv status ready queue) (hr : status t = some .running) :
    SchedInv (Function.update status t (some .blocked)) ready queue := by
  refine ⟨h.nodup, ?_, h.queue_nodup, h.queue_disjoint, ?_⟩
  · intro u
    by_cases hu : u = t
    · subst hu
      have hn : u ∉ ready := by
        intro hm
        have hb := (h.mem_ready u).mp hm
        rw [hr] at hb
        cases hb
      simp [hn]
    · rw [Function.update_of_ne hu]
      exact h.mem_ready u
  · intro s u hs
    by_cases hu : u = t
    · subst hu
      simp
    · rw [Function.update_of_ne hu]
      exact h.queue_blocked s u hs

/-- A running thread is in no queue. -/
theorem not_mem_queue (h : SchedInv status ready queue) (hr : status t ≠ some .blocked) (s : σ) :
    t ∉ queue s := fun hs => hr (h.queue_blocked s t hs)

/-- The running thread goes to the end of a queue and becomes blocked. -/
theorem enqueue [DecidableEq σ] (h : SchedInv status ready queue) (hr : status t = some .running) (s : σ) :
    SchedInv (Function.update status t (some .blocked)) ready
      (Function.update queue s (queue s ++ [t])) := by
  have hb := h.block hr
  have hnq : ∀ s, t ∉ queue s := h.not_mem_queue (by rw [hr]; decide)
  have hmem : ∀ s' u, u ∈ Function.update queue s (queue s ++ [t]) s' →
      u ∈ queue s' ∨ (u = t ∧ s' = s) := by
    intro s' u hu
    by_cases hs : s' = s
    · subst hs
      rw [Function.update_self, List.mem_append, List.mem_singleton] at hu
      exact hu.imp id fun h => ⟨h, rfl⟩
    · rw [Function.update_of_ne hs] at hu
      exact Or.inl hu
  refine ⟨hb.nodup, hb.mem_ready, ?_, ?_, ?_⟩
  · intro s'
    by_cases hs : s' = s
    · subst hs
      rw [Function.update_self]
      refine List.nodup_append.mpr ⟨h.queue_nodup s', by simp, ?_⟩
      rintro a ha b hb rfl
      rw [List.mem_singleton] at hb
      exact hnq s' (hb ▸ ha)
    · rw [Function.update_of_ne hs]
      exact h.queue_nodup s'
  · intro s1 s2 u h1 h2
    rcases hmem s1 u h1 with hq1 | ⟨hu1, hs1⟩
    · rcases hmem s2 u h2 with hq2 | ⟨hu2, -⟩
      · exact h.queue_disjoint s1 s2 u hq1 hq2
      · exact absurd hq1 (hu2 ▸ hnq s1)
    · rcases hmem s2 u h2 with hq2 | ⟨-, hs2⟩
      · exact absurd hq2 (hu1 ▸ hnq s2)
      · rw [hs1, hs2]
  · intro s' u hu
    rcases hmem s' u hu with hu | ⟨rfl, -⟩
    · exact hb.queue_blocked s' u hu
    · simp

/-- The first thread of a queue leaves it, and is then in no queue. -/
theorem dequeue [DecidableEq σ] {s : σ} {l : List Tid} (h : SchedInv status ready queue) (hs : queue s = t :: l) :
    SchedInv status ready (Function.update queue s l) ∧
      ∀ s', t ∉ Function.update queue s l s' := by
  obtain ⟨hnt, hnd⟩ := List.nodup_cons.mp (hs ▸ h.queue_nodup s)
  have hsub : ∀ s' u, u ∈ Function.update queue s l s' → u ∈ queue s' := by
    intro s' u hu
    by_cases hss : s' = s
    · subst hss
      rw [Function.update_self] at hu
      rw [hs]
      exact List.mem_cons_of_mem _ hu
    · rwa [Function.update_of_ne hss] at hu
  refine ⟨⟨h.nodup, h.mem_ready, ?_, fun s1 s2 u h1 h2 =>
    h.queue_disjoint s1 s2 u (hsub _ _ h1) (hsub _ _ h2), fun s' u hu =>
    h.queue_blocked s' u (hsub _ _ hu)⟩, ?_⟩
  · intro s'
    by_cases hss : s' = s
    · subst hss
      rw [Function.update_self]
      exact hnd
    · rw [Function.update_of_ne hss]
      exact h.queue_nodup s'
  · intro s' hm
    by_cases hss : s' = s
    · subst hss
      rw [Function.update_self] at hm
      exact hnt hm
    · rw [Function.update_of_ne hss] at hm
      exact hss (h.queue_disjoint s' s t hm (hs ▸ List.mem_cons_self))

/-- A new thread is not ready. -/
theorem create (h : SchedInv status ready queue) (ht : status t = none) :
    SchedInv (Function.update status t (some .justCreated)) ready queue := by
  refine ⟨h.nodup, ?_, h.queue_nodup, h.queue_disjoint, ?_⟩
  · intro u
    by_cases hu : u = t
    · subst hu
      rw [h.mem_ready, ht]
      simp
    · rw [Function.update_of_ne hu]
      exact h.mem_ready u
  · intro s u hs
    have hb := h.queue_blocked s u hs
    have hu : u ≠ t := by
      rintro rfl
      rw [ht] at hb
      cases hb
    rw [Function.update_of_ne hu]
    exact hb

end SchedInv

/-! ## The operations of the scheduler -/

namespace Kernel

variable {k k' : Kernel} {t : Tid}

/-- The queues of the semaphores. -/
def queue (k : Kernel) (s : SemId) : List Tid := (k.semaphores s).queue

@[simp]
theorem status_modifyThread_self (k : Kernel) (t : Tid) (f : Thread → Thread) (u : Tid)
    (hf : ∀ th, (f th).status = th.status) : (k.modifyThread t f).status u = k.status u := by
  simp only [status, modifyThread]
  by_cases hu : u = t
  · subst hu
    rw [Function.update_self, Option.map_map]
    congr 1
    exact funext hf
  · rw [Function.update_of_ne hu]

/-- Setting the status of a thread that exists. -/
theorem status_setStatus (hk : (k.status t).isSome) (st : ThreadStatus) :
    (k.setStatus t st).status = Function.update k.status t (some st) := by
  funext u
  unfold status setStatus modifyThread
  by_cases hu : u = t
  · subst hu
    obtain ⟨th, hth⟩ : ∃ th, k.threads u = some th := by
      simpa [status, Option.isSome_iff_exists] using hk
    simp [hth]
  · simp [Function.update_of_ne hu]

/-- Inserting a thread in a ready list. -/
theorem ready_insert (k : Kernel) (i : Fin 2) (t : Tid) (key : Int) :
    (k.setReadyList i (sortedInsert t key (k.readyList i))).ready.Perm (t :: k.ready) := by
  have hins : ∀ l : List (Tid × Int), ((sortedInsert t key l).map Prod.fst).Perm (t :: l.map Prod.fst) :=
    fun l => (sortedInsert_perm t key l).map Prod.fst
  unfold ready setReadyList
  match i with
  | 0 =>
    simp only [Function.update_self, List.map_append]
    rw [Function.update_of_ne (by decide)]
    exact (hins _).append_right _
  | 1 =>
    simp only [Function.update_self, List.map_append]
    rw [Function.update_of_ne (by decide)]
    exact ((hins _).append_left _).trans List.perm_middle

/-- Taking the first thread off a ready list. -/
theorem ready_pop {i : Fin 2} {key : Int} {l : List (Tid × Int)} (h : k.readyList i = (t, key) :: l) :
    k.ready.Perm (t :: (k.setReadyList i l).ready) := by
  unfold ready setReadyList
  match i with
  | 0 =>
    simp only [Function.update_self, List.map_append]
    rw [Function.update_of_ne (by decide), h]
    exact List.Perm.refl _
  | 1 =>
    simp only [Function.update_self, List.map_append]
    rw [Function.update_of_ne (by decide), h]
    exact List.perm_middle

/-- The states differ in the ready lists only. -/
def SameButReady (k k' : Kernel) : Prop := k' = { k with readyList := k'.readyList }

theorem SameButReady.refl (k : Kernel) : SameButReady k k := rfl

theorem SameButReady.trans {k1 k2 k3 : Kernel} (h1 : SameButReady k1 k2) (h2 : SameButReady k2 k3) :
    SameButReady k1 k3 := by
  unfold SameButReady at *
  rw [h2, h1]

theorem sameButReady_setReadyList (k : Kernel) (i : Fin 2) (l : List (Tid × Int)) :
    SameButReady k (k.setReadyList i l) := rfl

/-- The thread that the loop of `FindNextToRun` holds outside the ready lists. -/
def held (best : Best) : List Tid := (best.map Prod.fst).toList

/-- One iteration of the loop: a thread that leaves the lists is the one it holds. -/
theorem findInList_spec {best best' : Best} {i : Fin 2} (h : findInList k best i = (best', k')) :
    SameButReady k k' ∧ (held best ++ k.ready).Perm (held best' ++ k'.ready) := by
  unfold findInList at h
  cases hl : k.readyList i with
  | nil =>
    simp only [hl, sortedPop, Prod.mk.injEq] at h
    obtain ⟨rfl, rfl⟩ := h
    exact ⟨SameButReady.refl k, List.Perm.refl _⟩
  | cons e l =>
    obtain ⟨thread, priority⟩ := e
    have hpop := ready_pop hl
    -- the thread goes back to its list
    have hback : k.ready.Perm (k.setReadyList i (sortedInsert thread priority l)).ready := by
      have hins := ready_insert (k.setReadyList i l) i thread priority
      have hself : (k.setReadyList i l).readyList i = l := Function.update_self ..
      have hset : (k.setReadyList i l).setReadyList i (sortedInsert thread priority l) =
          k.setReadyList i (sortedInsert thread priority l) := by
        simp [setReadyList, Function.update_idem]
      rw [hself, hset] at hins
      exact hpop.trans hins.symm
    cases best with
    | none =>
      simp only [hl, sortedPop] at h
      split at h
      · cases h
        exact ⟨rfl, hpop⟩
      · cases h
        exact ⟨rfl, hback⟩
    | some b =>
      obtain ⟨toExecute, p, queue⟩ := b
      simp only [hl, sortedPop] at h
      split at h
      · cases h
        have hins := ready_insert (k.setReadyList i l) queue toExecute p
        have hswap : (toExecute :: k.ready).Perm
            (thread :: toExecute :: (k.setReadyList i l).ready) :=
          (hpop.cons _).trans (List.Perm.swap _ _ _)
        exact ⟨rfl, hswap.trans (hins.cons _).symm⟩
      · cases h
        exact ⟨rfl, hback.cons _⟩

/-- `FindNextToRun` takes the thread that it returns off the ready lists, and no other. -/
theorem findNextToRun_spec {o : Option Tid} (h : k.findNextToRun = (o, k')) :
    SameButReady k k' ∧ k.ready.Perm (o.toList ++ k'.ready) := by
  unfold findNextToRun at h
  cases h0 : findInList k none 0 with
  | mk b0 k0 =>
    cases h1 : findInList k0 b0 1 with
    | mk b1 k1 =>
      simp only [h0, h1, Prod.mk.injEq] at h
      obtain ⟨rfl, rfl⟩ := h
      obtain ⟨hs0, hp0⟩ := findInList_spec h0
      obtain ⟨hs1, hp1⟩ := findInList_spec h1
      exact ⟨hs0.trans hs1, hp0.trans hp1⟩

/-- `ReadyToRun` makes the thread ready and puts it in a ready list. -/
theorem readyToRun_spec (h : k.readyToRun t = some k') :
    k'.ready.Perm (t :: k.ready) ∧ k'.status = Function.update k.status t (some .ready) ∧
      k'.queue = k.queue ∧ k'.currentThread = k.currentThread ∧
      ∀ u, (k'.threads u).map Thread.stack = (k.threads u).map Thread.stack := by
  simp only [readyToRun, Option.bind_eq_bind, Option.bind_eq_some_iff, Option.pure_def,
    Option.some.injEq] at h
  obtain ⟨th, hth, rfl⟩ := h
  have hk : (k.status t).isSome := by simp [status, hth]
  refine ⟨ready_insert (k.setStatus t .ready) _ _ _, status_setStatus hk .ready, rfl, rfl, fun u => ?_⟩
  show ((k.setStatus t .ready).threads u).map Thread.stack = _
  unfold setStatus modifyThread
  by_cases hu : u = t
  · subst hu
    simp [hth]
  · simp [Function.update_of_ne hu]

end Kernel

end Nachos
