import Nachos.Threads.Conditions
import Nachos.Threads.Proofs.LockProofs

/-!
# Proofs: conditions

The invariant couples what each thread is doing (`Role`) with where each semaphore of a `Wait` is
(`Status`). Since the status of a semaphore is a function, no two threads wait on one semaphore and no
two signals raise it. The moves that a step can make on roles and semaphores keep the invariant.
-/

namespace Nachos.Synch

open Foundations

variable {L C S κ ι σ : Type} [DecidableEq L] [DecidableEq C] [DecidableEq S]
  {sys : System L C S κ ι σ} {d : Discipline sys} {s s' s0 : State L C S κ σ} {t u : Tid}
  {f : Frame L C S κ} {rest : List (Frame L C S κ)}

/-! ## Logs -/

theorem waits_append (l l' : List CondEvent) : waits (l ++ l') = waits l ++ waits l' :=
  List.filterMap_append ..

theorem selects_append (l l' : List CondEvent) : selects (l ++ l') = selects l ++ selects l' :=
  List.filterMap_append ..

theorem mem_waits {log : List CondEvent} {n : Nat} : n ∈ waits log ↔ ∃ t, .wait t n ∈ log := by
  simp only [waits, List.mem_filterMap]
  constructor
  · rintro ⟨e, he, hn⟩
    cases e <;> simp at hn
    subst hn
    exact ⟨_, he⟩
  · rintro ⟨t, ht⟩
    exact ⟨_, ht, rfl⟩

theorem mem_returns {log : List CondEvent} {n : Nat} :
    n ∈ returns log ↔ ∃ t, .waitReturn t n ∈ log := by
  simp only [returns, List.mem_filterMap]
  constructor
  · rintro ⟨e, he, hn⟩
    cases e <;> simp at hn
    subst hn
    exact ⟨_, he⟩
  · rintro ⟨t, ht⟩
    exact ⟨_, ht, rfl⟩

/-- Only selected waiters return. -/
theorem LogOk.returns_subset {log : List CondEvent} {n : Nat} (h : LogOk log) (hn : n ∈ returns log) :
    n ∈ selects log := by
  obtain ⟨t, ht⟩ := mem_returns.mp hn
  obtain ⟨pre, post, rfl⟩ := List.append_of_mem ht
  rw [selects_append]
  exact List.mem_append_left _ (h pre _ post rfl).2

/-- A log is in order if its beginning and its last event are. -/
theorem LogOk.append {log : List CondEvent} {e : CondEvent} (h : LogOk log) (he : EventOk log e) :
    LogOk (log ++ [e]) := by
  intro pre e' post heq
  rcases List.eq_nil_or_concat post with rfl | ⟨post', e'', rfl⟩
  · obtain ⟨h1, h2⟩ := List.append_inj' heq rfl
    cases h2
    rw [← h1]
    exact he
  · rw [List.concat_eq_append, ← List.cons_append, ← List.append_assoc] at heq
    obtain ⟨h1, -⟩ := List.append_inj' heq rfl
    exact h pre e' post' h1

/-! ## The invariant -/

/-- The frames that the system puts on a stack are plain. -/
structure PlainSystem (sys : System L C S κ ι σ) : Prop where
  call : ∀ {i t sh r}, sys.call i t sh = some r → ∀ f ∈ r.2, f.Plain
  exec : ∀ {k t sh r}, sys.exec k t sh = some r → ∀ f ∈ r.2, f.Plain

/-- The invariant of the conditions, with the role of each thread and the status of each semaphore. -/
structure CondInv (sys : System L C S κ ι σ) (s : State L C S κ σ) (role : Tid → Role C)
    (status : Nat → Status C) : Prop where
  hasRole : ∀ t, HasRole sys.lockOf (s.stack t) (role t)
  waiting : ∀ t c n, role t = .waiting c n ↔ (status n).waiter = some (c, t)
  signalling : ∀ u n, (∃ a, role u = .signalling n a) ↔ (status n).signaller = some u
  /-- Who has selected a waiter keeps the lock until the semaphore is raised. -/
  holds : ∀ n c t u, status n = .selected c t u → s.lockOwner (sys.lockOf c) = some u
  returning : ∀ t c n, role t = .returning c n → status n = .passed c t
  passed : ∀ t c n, status n = .passed c t → role t = .returning c n ∨ .waitReturn t n ∈ s.log c
  value_eq : ∀ n, (s.semaphores (.sleeper n)).value = (status n).units
  fresh : ∀ n, s.sleepers ≤ n ↔ status n = .fresh
  cola : ∀ c n, n ∈ s.colaProcesosDormidos c ↔ ∃ t, status n = .queued c t
  log_eq : ∀ c, waits (s.log c) = selects (s.log c) ++ s.colaProcesosDormidos c
  logged : ∀ c t n, .wait t n ∈ s.log c ↔ (status n).origin = some (c, t)
  nodup : ∀ c, (waits (s.log c)).Nodup
  logOk : ∀ c, LogOk (s.log c)
  broadcasting : ∀ t c q r, (role t).broadcasts = some (c, q, r) →
    q = r ++ s.colaProcesosDormidos c

namespace CondInv

variable {role : Tid → Role C} {status : Nat → Status C} {c : C} {n : Nat}

/-- The roles after the thread `t` got another one. -/
theorem hasRole_update {r : Role C} (h : CondInv sys s role status)
    (hother : ∀ u, u ≠ t → s'.stack u = s.stack u) (hrole : HasRole sys.lockOf (s'.stack t) r) :
    ∀ u, HasRole sys.lockOf (s'.stack u) (Function.update role t r u) := by
  intro u
  by_cases hu : u = t
  · subst hu
    simpa using hrole
  · simpa [hu, hother u hu] using h.hasRole u

/-- What a log holds stays in it. -/
theorem mem_log_update {e e' : CondEvent} {c c' : C} {log : C → List CondEvent} (h : e ∈ log c') :
    e ∈ Function.update log c (log c ++ [e']) c' := by
  by_cases hc : c' = c
  · subst hc
    simp [h]
  · simpa [hc] using h

/-- A thread with a plain role is no waiter. -/
theorem waiter_ne (h : CondInv sys s role status) (ht : ∀ c n, role t ≠ .waiting c n) (n : Nat) (c : C) :
    (status n).waiter ≠ some (c, t) := fun hw => ht c n ((h.waiting t c n).mpr hw)

theorem signaller_ne (h : CondInv sys s role status) (ht : ∀ n a, role t ≠ .signalling n a) (n : Nat) :
    (status n).signaller ≠ some t := by
  intro hs
  obtain ⟨a, ha⟩ := (h.signalling t n).mpr hs
  exact ht n a ha

/-- A thread that is not about to raise a semaphore has selected nobody. -/
theorem signaller_thread_ne {w : Tid} (h : CondInv sys s role status)
    (ht : ∀ n a, role t ≠ .signalling n a) (hst : status n = .selected c w u) : u ≠ t := by
  rintro rfl
  exact h.signaller_ne ht n (by rw [hst]; rfl)

/-- A step that has nothing to do with conditions. -/
theorem same (h : CondInv sys s role status) (hother : ∀ u, u ≠ t → s'.stack u = s.stack u)
    (hlock : ∀ l u, u ≠ t → s.lockOwner l = some u → s'.lockOwner l = some u)
    (hrole : HasRole sys.lockOf (s'.stack t) (role t))
    (hvalue : ∀ n, (s'.semaphores (.sleeper n)).value = (s.semaphores (.sleeper n)).value)
    (hsleepers : s'.sleepers = s.sleepers)
    (hcola : s'.colaProcesosDormidos = s.colaProcesosDormidos) (hlog : s'.log = s.log)
    (hsig : ∀ n a, role t ≠ .signalling n a) : CondInv sys s' role status where
  hasRole := by
    have := h.hasRole_update hother hrole
    rwa [Function.update_eq_self] at this
  waiting := h.waiting
  signalling := h.signalling
  holds := by
    intro n c w u hst
    exact hlock _ u (h.signaller_thread_ne hsig hst) (h.holds n c w u hst)
  returning := h.returning
  passed := by rw [hlog]; exact h.passed
  value_eq := fun n => (hvalue n).trans (h.value_eq n)
  fresh := by rw [hsleepers]; exact h.fresh
  cola := by rw [hcola]; exact h.cola
  log_eq := by rw [hlog, hcola]; exact h.log_eq
  logged := by rw [hlog]; exact h.logged
  nodup := by rw [hlog]; exact h.nodup
  logOk := by rw [hlog]; exact h.logOk
  broadcasting := by rw [hcola]; exact h.broadcasting

/-- The thread joins the queue of `c` with the new semaphore `n`. -/
theorem enqueue (h : CondInv sys s role status) (hplain : role t = .plain) (hn : n = s.sleepers)
    (hother : ∀ u, u ≠ t → s'.stack u = s.stack u)
    (hlock : ∀ l u, u ≠ t → s.lockOwner l = some u → s'.lockOwner l = some u)
    (hrole : HasRole sys.lockOf (s'.stack t) (.waiting c n))
    (hvalue : ∀ n, (s'.semaphores (.sleeper n)).value = (s.semaphores (.sleeper n)).value)
    (hsleepers : s'.sleepers = s.sleepers + 1)
    (hcola : s'.colaProcesosDormidos =
      Function.update s.colaProcesosDormidos c (s.colaProcesosDormidos c ++ [n]))
    (hlog : s'.log = Function.update s.log c (s.log c ++ [.wait t n]))
    (hexcl : ∀ u q r, (role u).broadcasts ≠ some (c, q, r)) :
    CondInv sys s' (Function.update role t (.waiting c n))
      (Function.update status n (.queued c t)) := by
  have hfresh : status n = .fresh := (h.fresh n).mp (by omega)
  have hnotin : n ∉ waits (s.log c) := by
    intro hmem
    obtain ⟨u, hu⟩ := mem_waits.mp hmem
    have := (h.logged c u n).mp hu
    rw [hfresh] at this
    cases this
  refine ⟨h.hasRole_update hother hrole, ?_, ?_, ?_, ?_, ?_, ?_, ?_, ?_, ?_, ?_, ?_, ?_, ?_⟩
  · intro u c' m
    by_cases hu : u = t
    · subst hu
      by_cases hm : m = n
      · subst hm
        simp [Status.waiter]
      · have := h.waiter_ne (t := u) (by simp [hplain]) m c'
        simp [hm, this, Ne.symm hm]
    · by_cases hm : m = n
      · subst hm
        have := h.waiting u c' m
        rw [hfresh] at this
        simp [hu, this, Status.waiter, Ne.symm hu]
      · simpa [hu, hm] using h.waiting u c' m
  · intro u m
    by_cases hu : u = t
    · subst hu
      by_cases hm : m = n
      · subst hm
        simp [Status.signaller]
      · have := h.signaller_ne (t := u) (by simp [hplain]) m
        simp [hm, this]
    · by_cases hm : m = n
      · subst hm
        have := h.signalling u m
        rw [hfresh] at this
        simp [hu, this, Status.signaller]
      · simpa [hu, hm] using h.signalling u m
  · intro m c' w u hst
    by_cases hm : m = n
    · simp [hm] at hst
    · rw [Function.update_of_ne hm] at hst
      exact hlock _ u (h.signaller_thread_ne (by simp [hplain]) hst) (h.holds m c' w u hst)
  · intro u c' m hret
    by_cases hu : u = t
    · subst hu
      simp at hret
    · simp only [Function.update_of_ne hu] at hret
      have hp := h.returning u c' m hret
      have hm : m ≠ n := by
        rintro rfl
        rw [hfresh] at hp
        cases hp
      rw [Function.update_of_ne hm]
      exact hp
  · intro u c' m hst
    by_cases hm : m = n
    · simp [hm] at hst
    · rw [Function.update_of_ne hm] at hst
      rcases h.passed u c' m hst with hret | hret
      · have hu : u ≠ t := by
          rintro rfl
          rw [hplain] at hret
          cases hret
        exact .inl (by rw [Function.update_of_ne hu]; exact hret)
      · exact .inr (by rw [hlog]; exact mem_log_update hret)
  · intro m
    rw [hvalue, h.value_eq m]
    by_cases hm : m = n
    · subst hm
      simp [hfresh, Status.units]
    · simp [hm]
  · intro m
    by_cases hm : m = n
    · rw [hm, Function.update_self, hsleepers]
      refine ⟨fun hle => ?_, fun hst => nomatch hst⟩
      omega
    · rw [Function.update_of_ne hm, hsleepers, ← h.fresh m]
      omega
  · intro c' m
    rw [hcola]
    by_cases hm : m = n
    · subst hm
      by_cases hc : c' = c
      · subst hc
        simp
      · have := h.cola c' m
        rw [hfresh] at this
        simp [hc, this, Ne.symm hc]
    · by_cases hc : c' = c
      · subst hc
        simpa [hm] using h.cola c' m
      · simpa [hm, hc] using h.cola c' m
  · intro c'
    rw [hlog, hcola]
    by_cases hc : c' = c
    · subst hc
      simp only [Function.update_self, waits_append, selects_append, h.log_eq c']
      simp [waits, selects]
    · simpa [hc] using h.log_eq c'
  · intro c' u m
    rw [hlog]
    by_cases hc : c' = c
    · subst hc
      by_cases hm : m = n
      · subst hm
        have := h.logged c' u m
        rw [hfresh] at this
        simp [this, Status.origin, eq_comm]
      · simpa [hm] using h.logged c' u m
    · by_cases hm : m = n
      · subst hm
        have := h.logged c' u m
        rw [hfresh] at this
        simp [hc, this, Status.origin, Ne.symm hc]
      · simpa [hc, hm] using h.logged c' u m
  · intro c'
    rw [hlog]
    by_cases hc : c' = c
    · subst hc
      simp only [Function.update_self, waits_append]
      refine List.nodup_append.mpr ⟨h.nodup c', by simp [waits], ?_⟩
      intro a ha b hb hab
      simp [waits] at hb
      exact hnotin (by rw [← hb, ← hab]; exact ha)
    · simpa [hc] using h.nodup c'
  · intro c'
    rw [hlog]
    by_cases hc : c' = c
    · subst hc
      simp only [Function.update_self]
      exact (h.logOk c').append hnotin
    · simpa [hc] using h.logOk c'
  · intro u c' q r hb
    by_cases hu : u = t
    · subst hu
      simp [Role.broadcasts] at hb
    · simp only [Function.update_of_ne hu] at hb
      have hc : c' ≠ c := by
        rintro rfl
        exact hexcl u q r hb
      rw [hcola, Function.update_of_ne hc]
      exact h.broadcasting u c' q r hb

/-- The waiter takes the unit of its semaphore. -/
theorem pass (h : CondInv sys s role status) (hw : role t = .waiting c n)
    (hone : (s.semaphores (.sleeper n)).value ≠ 0)
    (hother : ∀ u, u ≠ t → s'.stack u = s.stack u)
    (hlock : ∀ l u, u ≠ t → s.lockOwner l = some u → s'.lockOwner l = some u)
    (hrole : HasRole sys.lockOf (s'.stack t) (.returning c n))
    (hvalue : (s'.semaphores (.sleeper n)).value = (s.semaphores (.sleeper n)).value - 1)
    (hvalues : ∀ m, m ≠ n →
      (s'.semaphores (.sleeper m)).value = (s.semaphores (.sleeper m)).value)
    (hsleepers : s'.sleepers = s.sleepers)
    (hcola : s'.colaProcesosDormidos = s.colaProcesosDormidos) (hlog : s'.log = s.log) :
    CondInv sys s' (Function.update role t (.returning c n))
      (Function.update status n (.passed c t)) := by
  have hwaiter := (h.waiting t c n).mp hw
  have hraised : status n = .raised c t := by
    have hval := h.value_eq n
    cases hst : status n with
    | raised c' t' =>
      rw [hst] at hwaiter
      cases hwaiter
      rfl
    | _ =>
      rw [hst] at hval
      exact absurd hval hone
  refine ⟨h.hasRole_update hother hrole, ?_, ?_, ?_, ?_, ?_, ?_, ?_, ?_, ?_, ?_, ?_, ?_, ?_⟩
  · intro u c' m
    by_cases hm : m = n
    · subst hm
      by_cases hu : u = t
      · subst hu
        simp [Status.waiter]
      · have := h.waiting u c' m
        rw [hraised] at this
        simp [Status.waiter, hu, this, Ne.symm hu]
    · by_cases hu : u = t
      · subst hu
        have : (status m).waiter ≠ some (c', u) := by
          intro hmw
          have := (h.waiting u c' m).mpr hmw
          rw [hw] at this
          cases this
          exact hm rfl
        simp [hm, this]
      · simpa [hu, hm] using h.waiting u c' m
  · intro u m
    by_cases hm : m = n
    · subst hm
      by_cases hu : u = t
      · subst hu
        simp [Status.signaller]
      · have := h.signalling u m
        rw [hraised] at this
        simp [hu, this, Status.signaller]
    · by_cases hu : u = t
      · subst hu
        have := h.signaller_ne (t := u) (by simp [hw]) m
        simp [hm, this]
      · simpa [hu, hm] using h.signalling u m
  · intro m c' w u hst
    by_cases hm : m = n
    · simp [hm] at hst
    · rw [Function.update_of_ne hm] at hst
      exact hlock _ u (h.signaller_thread_ne (by simp [hw]) hst) (h.holds m c' w u hst)
  · intro u c' m hret
    by_cases hu : u = t
    · subst hu
      simp only [Function.update_self, Role.returning.injEq] at hret
      obtain ⟨rfl, rfl⟩ := hret
      simp
    · simp only [Function.update_of_ne hu] at hret
      have hp := h.returning u c' m hret
      have hm : m ≠ n := by
        rintro rfl
        rw [hraised] at hp
        cases hp
      rw [Function.update_of_ne hm]
      exact hp
  · intro u c' m hst
    by_cases hm : m = n
    · subst hm
      simp only [Function.update_self, Status.passed.injEq] at hst
      obtain ⟨rfl, rfl⟩ := hst
      exact .inl (by simp)
    · rw [Function.update_of_ne hm] at hst
      rcases h.passed u c' m hst with hret | hret
      · have hu : u ≠ t := by
          rintro rfl
          rw [hw] at hret
          cases hret
        exact .inl (by rw [Function.update_of_ne hu]; exact hret)
      · exact .inr (by rw [hlog]; exact hret)
  · intro m
    by_cases hm : m = n
    · subst hm
      rw [hvalue, h.value_eq m, hraised]
      simp [Status.units]
    · rw [hvalues m hm, h.value_eq m]
      simp [hm]
  · intro m
    rw [hsleepers, h.fresh m]
    by_cases hm : m = n
    · subst hm
      simp [hraised]
    · simp [hm]
  · intro c' m
    rw [hcola, h.cola c' m]
    by_cases hm : m = n
    · subst hm
      simp [hraised]
    · simp [hm]
  · rw [hlog, hcola]
    exact h.log_eq
  · intro c' u m
    rw [hlog, h.logged c' u m]
    by_cases hm : m = n
    · subst hm
      simp [hraised, Status.origin]
    · simp [hm]
  · rw [hlog]
    exact h.nodup
  · rw [hlog]
    exact h.logOk
  · intro u c' q r hb
    rw [hcola]
    by_cases hu : u = t
    · subst hu
      simp [Role.broadcasts] at hb
    · simp only [Function.update_of_ne hu] at hb
      exact h.broadcasting u c' q r hb

/-- The log of `c` gets an event that is no `wait` and no `select`, and the thread, which neither waits
nor signals, has a plain role afterwards; if it was returning from a `Wait`, the event is the return. -/
theorem logged_event {e : CondEvent} (h : CondInv sys s role status)
    (hrole' : (∀ c n, role t ≠ .waiting c n) ∧ ∀ n a, role t ≠ .signalling n a)
    (hreturn : ∀ c' n, role t = .returning c' n → c' = c ∧ e = .waitReturn t n)
    (hother : ∀ u, u ≠ t → s'.stack u = s.stack u)
    (hlock : ∀ l u, u ≠ t → s.lockOwner l = some u → s'.lockOwner l = some u)
    (hrole : HasRole sys.lockOf (s'.stack t) .plain)
    (hvalue : ∀ n, (s'.semaphores (.sleeper n)).value = (s.semaphores (.sleeper n)).value)
    (hsleepers : s'.sleepers = s.sleepers)
    (hcola : s'.colaProcesosDormidos = s.colaProcesosDormidos)
    (hlog : s'.log = Function.update s.log c (s.log c ++ [e]))
    (hwaits : waits [e] = []) (hselects : selects [e] = []) (hok : EventOk (s.log c) e) :
    CondInv sys s' (Function.update role t .plain) status := by
  refine ⟨h.hasRole_update hother hrole, ?_, ?_, ?_, ?_, ?_, ?_, ?_, ?_, ?_, ?_, ?_, ?_, ?_⟩
  · intro u c' m
    by_cases hu : u = t
    · subst hu
      simp [h.waiter_ne hrole'.1 m c']
    · simpa [hu] using h.waiting u c' m
  · intro u m
    by_cases hu : u = t
    · subst hu
      simp [h.signaller_ne hrole'.2 m]
    · simpa [hu] using h.signalling u m
  · intro m c' w u hst
    exact hlock _ u (h.signaller_thread_ne hrole'.2 hst) (h.holds m c' w u hst)
  · intro u c' m hret
    by_cases hu : u = t
    · subst hu
      simp at hret
    · simp only [Function.update_of_ne hu] at hret
      exact h.returning u c' m hret
  · intro u c' m hst
    rcases h.passed u c' m hst with hret | hret
    · by_cases hu : u = t
      · subst hu
        obtain ⟨rfl, rfl⟩ := hreturn c' m hret
        exact .inr (by rw [hlog]; simp)
      · exact .inl (by rw [Function.update_of_ne hu]; exact hret)
    · exact .inr (by rw [hlog]; exact mem_log_update hret)
  · exact fun m => (hvalue m).trans (h.value_eq m)
  · rw [hsleepers]
    exact h.fresh
  · rw [hcola]
    exact h.cola
  · intro c'
    rw [hlog, hcola]
    by_cases hc : c' = c
    · subst hc
      simp only [Function.update_self, waits_append, selects_append, hwaits, hselects,
        List.append_nil]
      exact h.log_eq c'
    · simpa [hc] using h.log_eq c'
  · intro c' u m
    rw [hlog]
    by_cases hc : c' = c
    · subst hc
      have hne : CondEvent.wait u m ≠ e := by
        rintro rfl
        simp [waits] at hwaits
      simpa [hne] using h.logged c' u m
    · simpa [hc] using h.logged c' u m
  · intro c'
    rw [hlog]
    by_cases hc : c' = c
    · subst hc
      simp only [Function.update_self, waits_append, hwaits, List.append_nil]
      exact h.nodup c'
    · simpa [hc] using h.nodup c'
  · intro c'
    rw [hlog]
    by_cases hc : c' = c
    · subst hc
      simp only [Function.update_self]
      exact (h.logOk c').append hok
    · simpa [hc] using h.logOk c'
  · intro u c' q r hb
    rw [hcola]
    by_cases hu : u = t
    · subst hu
      simp [Role.broadcasts] at hb
    · simp only [Function.update_of_ne hu] at hb
      exact h.broadcasting u c' q r hb

/-- A signal of the thread, which is not in a `Wait` and not in another signal, selects the first
waiter. -/
theorem select {q : List Nat} {a : Option (C × List Nat × List Nat)} (h : CondInv sys s role status)
    (hrole' : (∀ c n, role t ≠ .waiting c n) ∧ ∀ n a, role t ≠ .signalling n a)
    (hreturn : ∀ c n, role t ≠ .returning c n)
    (hq : s.colaProcesosDormidos c = n :: q) (hother : ∀ u, u ≠ t → s'.stack u = s.stack u)
    (hlock : ∀ l u, u ≠ t → s.lockOwner l = some u → s'.lockOwner l = some u)
    (hown : s'.lockOwner (sys.lockOf c) = some t)
    (hrole : HasRole sys.lockOf (s'.stack t) (.signalling n a))
    (hvalue : ∀ n, (s'.semaphores (.sleeper n)).value = (s.semaphores (.sleeper n)).value)
    (hsleepers : s'.sleepers = s.sleepers)
    (hcola : s'.colaProcesosDormidos = Function.update s.colaProcesosDormidos c q)
    (hlog : s'.log = Function.update s.log c (s.log c ++ [.select t n]))
    (hexcl : ∀ u q r, u ≠ t → (role u).broadcasts ≠ some (c, q, r))
    (ha : ∀ c' q' r, a = some (c', q', r) → c' = c ∧ q' = r ++ q) :
    ∃ status', CondInv sys s' (Function.update role t (.signalling n a)) status' := by
  obtain ⟨w, hqueued⟩ := (h.cola c n).mp (by rw [hq]; exact List.mem_cons_self ..)
  have hnd : (selects (s.log c) ++ n :: q).Nodup := by
    rw [← hq, ← h.log_eq c]
    exact h.nodup c
  have hnq : n ∉ q := (List.nodup_cons.mp (List.nodup_append.mp hnd).2.1).1
  refine ⟨Function.update status n (.selected c w t), h.hasRole_update hother hrole, ?_, ?_, ?_, ?_, ?_,
    ?_, ?_, ?_, ?_, ?_, ?_, ?_, ?_⟩
  · intro u c' m
    have hwait : (Function.update status n (.selected c w t) m).waiter = (status m).waiter := by
      by_cases hm : m = n
      · subst hm
        simp [hqueued, Status.waiter]
      · simp [hm]
    rw [hwait]
    by_cases hu : u = t
    · subst hu
      simp [h.waiter_ne hrole'.1 m c']
    · simpa [hu] using h.waiting u c' m
  · intro u m
    by_cases hm : m = n
    · subst hm
      by_cases hu : u = t
      · subst hu
        simp [Status.signaller]
      · have := h.signalling u m
        rw [hqueued] at this
        simp [hu, this, Status.signaller, Ne.symm hu]
    · by_cases hu : u = t
      · subst hu
        simp [hm, h.signaller_ne hrole'.2 m, Ne.symm hm]
      · simpa [hu, hm] using h.signalling u m
  · intro m c' w' u hst
    by_cases hm : m = n
    · subst hm
      simp only [Function.update_self, Status.selected.injEq] at hst
      obtain ⟨rfl, rfl, rfl⟩ := hst
      exact hown
    · rw [Function.update_of_ne hm] at hst
      exact hlock _ u (h.signaller_thread_ne hrole'.2 hst) (h.holds m c' w' u hst)
  · intro u c' m hret
    by_cases hu : u = t
    · subst hu
      simp at hret
    · simp only [Function.update_of_ne hu] at hret
      have hp := h.returning u c' m hret
      have hm : m ≠ n := by
        rintro rfl
        rw [hqueued] at hp
        cases hp
      rw [Function.update_of_ne hm]
      exact hp
  · intro u c' m hst
    by_cases hm : m = n
    · simp [hm] at hst
    · rw [Function.update_of_ne hm] at hst
      rcases h.passed u c' m hst with hret | hret
      · have hu : u ≠ t := by
          rintro rfl
          exact hreturn c' m hret
        exact .inl (by rw [Function.update_of_ne hu]; exact hret)
      · exact .inr (by rw [hlog]; exact mem_log_update hret)
  · intro m
    rw [hvalue, h.value_eq m]
    by_cases hm : m = n
    · subst hm
      simp [hqueued, Status.units]
    · simp [hm]
  · intro m
    rw [hsleepers, h.fresh m]
    by_cases hm : m = n
    · subst hm
      simp [hqueued]
    · simp [hm]
  · intro c' m
    rw [hcola]
    by_cases hm : m = n
    · subst hm
      by_cases hc : c' = c
      · subst hc
        simp [hnq]
      · have := h.cola c' m
        rw [hqueued] at this
        simp [hc, this, Ne.symm hc]
    · by_cases hc : c' = c
      · subst hc
        have := h.cola c' m
        rw [hq] at this
        simpa [hm] using this
      · simpa [hm, hc] using h.cola c' m
  · intro c'
    rw [hlog, hcola]
    by_cases hc : c' = c
    · subst hc
      have := h.log_eq c'
      rw [hq] at this
      simp only [Function.update_self, waits_append, selects_append, this]
      simp [waits, selects]
    · simpa [hc] using h.log_eq c'
  · intro c' u m
    have horigin : (Function.update status n (.selected c w t) m).origin = (status m).origin := by
      by_cases hm : m = n
      · subst hm
        simp [hqueued, Status.origin]
      · simp [hm]
    rw [hlog, horigin]
    by_cases hc : c' = c
    · subst hc
      simpa using h.logged c' u m
    · simpa [hc] using h.logged c' u m
  · intro c'
    rw [hlog]
    by_cases hc : c' = c
    · subst hc
      simp only [Function.update_self, waits_append]
      simpa [waits] using h.nodup c'
    · simpa [hc] using h.nodup c'
  · intro c'
    rw [hlog]
    by_cases hc : c' = c
    · subst hc
      simp only [Function.update_self]
      refine (h.logOk c').append ⟨q, ?_⟩
      rw [h.log_eq c', hq]
    · simpa [hc] using h.logOk c'
  · intro u c' q' r hb
    rw [hcola]
    by_cases hu : u = t
    · subst hu
      simp only [Function.update_self, Role.broadcasts] at hb
      obtain ⟨rfl, rfl⟩ := ha c' q' r hb
      simp
    · simp only [Function.update_of_ne hu] at hb
      have hc : c' ≠ c := by
        rintro rfl
        exact hexcl u q' r hu hb
      rw [Function.update_of_ne hc]
      exact h.broadcasting u c' q' r hb

/-- The thread raises the semaphore that it selected, and goes on with its broadcast if it is in
one. -/
theorem raise {a : Option (C × List Nat × List Nat)} {r' : Role C} (h : CondInv sys s role status)
    (hsig : role t = .signalling n a) (hother : ∀ u, u ≠ t → s'.stack u = s.stack u)
    (hlock : ∀ l u, u ≠ t → s.lockOwner l = some u → s'.lockOwner l = some u)
    (hrole : HasRole sys.lockOf (s'.stack t) r')
    (hr' : r' = .plain ∨ ∃ c q r, r' = .looping c q r ∧ a = some (c, q, r))
    (hvalue : (s'.semaphores (.sleeper n)).value = (s.semaphores (.sleeper n)).value + 1)
    (hvalues : ∀ m, m ≠ n →
      (s'.semaphores (.sleeper m)).value = (s.semaphores (.sleeper m)).value)
    (hsleepers : s'.sleepers = s.sleepers)
    (hcola : s'.colaProcesosDormidos = s.colaProcesosDormidos) (hlog : s'.log = s.log) :
    ∃ status', CondInv sys s' (Function.update role t r') status' := by
  have hsignaller := (h.signalling t n).mp ⟨a, hsig⟩
  obtain ⟨c, w, hselected⟩ : ∃ c w, status n = .selected c w t := by
    cases hst : status n with
    | selected c w u =>
      rw [hst] at hsignaller
      cases hsignaller
      exact ⟨c, w, rfl⟩
    | _ =>
      rw [hst] at hsignaller
      cases hsignaller
  refine ⟨Function.update status n (.raised c w), h.hasRole_update hother hrole, ?_, ?_, ?_, ?_, ?_,
    ?_, ?_, ?_, ?_, ?_, ?_, ?_, ?_⟩
  · intro u c' m
    have hwait : (Function.update status n (.raised c w) m).waiter = (status m).waiter := by
      by_cases hm : m = n
      · subst hm
        simp [hselected, Status.waiter]
      · simp [hm]
    rw [hwait]
    by_cases hu : u = t
    · subst hu
      have := h.waiter_ne (t := u) (by simp [hsig]) m c'
      rcases hr' with rfl | ⟨c1, q1, r1, rfl, -⟩ <;> simp [this]
    · simpa [hu] using h.waiting u c' m
  · intro u m
    by_cases hu : u = t
    · subst hu
      have hne : (Function.update status n (.raised c w) m).signaller ≠ some u := by
        by_cases hm : m = n
        · subst hm
          simp [Status.signaller]
        · simp only [Function.update_of_ne hm]
          intro hs
          obtain ⟨b, hb⟩ := (h.signalling u m).mpr hs
          rw [hsig] at hb
          cases hb
          exact hm rfl
      rcases hr' with rfl | ⟨c1, q1, r1, rfl, -⟩ <;> simp [hne]
    · by_cases hm : m = n
      · subst hm
        have := h.signalling u m
        rw [hselected] at this
        simp [hu, this, Status.signaller, Ne.symm hu]
      · simpa [hu, hm] using h.signalling u m
  · intro m c' w' u hst
    by_cases hm : m = n
    · simp [hm] at hst
    · rw [Function.update_of_ne hm] at hst
      refine hlock _ u ?_ (h.holds m c' w' u hst)
      rintro rfl
      obtain ⟨b, hb⟩ := (h.signalling u m).mpr (by rw [hst]; rfl)
      rw [hsig] at hb
      cases hb
      exact hm rfl
  · intro u c' m hret
    by_cases hu : u = t
    · subst hu
      rcases hr' with rfl | ⟨c1, q1, r1, rfl, -⟩ <;> simp at hret
    · simp only [Function.update_of_ne hu] at hret
      have hp := h.returning u c' m hret
      have hm : m ≠ n := by
        rintro rfl
        rw [hselected] at hp
        cases hp
      rw [Function.update_of_ne hm]
      exact hp
  · intro u c' m hst
    by_cases hm : m = n
    · simp [hm] at hst
    · rw [Function.update_of_ne hm] at hst
      rcases h.passed u c' m hst with hret | hret
      · have hu : u ≠ t := by
          rintro rfl
          rw [hsig] at hret
          cases hret
        exact .inl (by rw [Function.update_of_ne hu]; exact hret)
      · exact .inr (by rw [hlog]; exact hret)
  · intro m
    by_cases hm : m = n
    · subst hm
      rw [hvalue, h.value_eq m, hselected]
      simp [Status.units]
    · rw [hvalues m hm, h.value_eq m]
      simp [hm]
  · intro m
    rw [hsleepers, h.fresh m]
    by_cases hm : m = n
    · subst hm
      simp [hselected]
    · simp [hm]
  · intro c' m
    rw [hcola, h.cola c' m]
    by_cases hm : m = n
    · subst hm
      simp [hselected]
    · simp [hm]
  · rw [hlog, hcola]
    exact h.log_eq
  · intro c' u m
    rw [hlog, h.logged c' u m]
    by_cases hm : m = n
    · subst hm
      simp [hselected, Status.origin]
    · simp [hm]
  · rw [hlog]
    exact h.nodup
  · rw [hlog]
    exact h.logOk
  · intro u c' q r hb
    rw [hcola]
    by_cases hu : u = t
    · subst hu
      rcases hr' with rfl | ⟨c1, q1, r1, rfl, rfl⟩
      · simp [Role.broadcasts] at hb
      · simp only [Function.update_self] at hb
        exact h.broadcasting u c' q r (by rw [hsig]; exact hb)
    · simp only [Function.update_of_ne hu] at hb
      exact h.broadcasting u c' q r hb

/-! ## The queue and the log -/

theorem selects_nodup (h : CondInv sys s role status) (c : C) : (selects (s.log c)).Nodup := by
  have := h.nodup c
  rw [h.log_eq c] at this
  exact (List.nodup_append.mp this).1

theorem cola_nodup (h : CondInv sys s role status) (c : C) : (s.colaProcesosDormidos c).Nodup := by
  have := h.nodup c
  rw [h.log_eq c] at this
  exact (List.nodup_append.mp this).2.1

/-- A queued waiter has not returned. -/
theorem notMem_returns (h : CondInv sys s role status) (hn : n ∈ s.colaProcesosDormidos c) :
    n ∉ returns (s.log c) := by
  intro hret
  have hsel := (h.logOk c).returns_subset hret
  have := h.nodup c
  rw [h.log_eq c] at this
  exact (List.nodup_append.mp this).2.2 n hsel n hn rfl

theorem sleepers_notMem (h : CondInv sys s role status) (c : C) :
    s.sleepers ∉ s.colaProcesosDormidos c := by
  intro hmem
  obtain ⟨t, ht⟩ := (h.cola c _).mp hmem
  rw [(h.fresh _).mp (Nat.le_refl _)] at ht
  cases ht

/-! ## Steps -/

/-- A thread in a broadcast holds the lock. -/
theorem held_of_broadcasts {q r : List Nat} (h : CondInv sys s role status)
    (hb : (role t).broadcasts = some (c, q, r)) : s.phase d t (sys.lockOf c) = .held := by
  have hr := h.hasRole t
  rw [State.phase]
  generalize s.stack t = fs at hr
  cases hrole : role t with
  | looping c' q' r' =>
    rw [hrole] at hr hb
    cases hb
    cases hr
    simp [phaseOf, Frame.use]
  | signalling n a =>
    rw [hrole] at hr hb
    simp only [Role.broadcasts] at hb
    subst hb
    cases hr
    simp [phaseOf, Frame.use]
  | _ =>
    rw [hrole] at hb
    cases hb

/-- Nobody else is in a broadcast on a condition whose lock the thread holds. -/
theorem no_other_broadcast (h : CondInv sys s role status) (hl : LocksOk d s)
    (ht : s.phase d t (sys.lockOf c) = .held) (u : Tid) (q r : List Nat) (hu : u ≠ t) :
    (role u).broadcasts ≠ some (c, q, r) := by
  intro hb
  have hheld := h.held_of_broadcasts (d := d) hb
  exact hu ((hl.lock _).unique u t (by rw [hheld]; simp) (by rw [ht]; simp))

/-- `P` and `V` on other semaphores leave those of the waiters alone. -/
theorem value_p {k : SemId L S} (hk : ∀ n, k ≠ .sleeper n) (n : Nat) :
    ((s.p t k rest).semaphores (.sleeper n)).value = (s.semaphores (.sleeper n)).value := by
  simp only [State.p]
  split <;> simp [Ne.symm (hk n)]

theorem value_v {k : SemId L S} (hk : ∀ n, k ≠ .sleeper n) (n : Nat) :
    ((s.v t k rest).semaphores (.sleeper n)).value = (s.semaphores (.sleeper n)).value := by
  simp only [State.v]
  split <;> simp [Ne.symm (hk n)]

theorem stack_v {k : SemId L S} : (s.v t k rest).stack t = rest := by
  simp only [State.v]
  split <;> simp

theorem value_v_self :
    ((s.v t (.sleeper n) rest).semaphores (.sleeper n)).value =
      (s.semaphores (.sleeper n)).value + 1 := by
  simp only [State.v]
  split <;> simp

theorem value_v_other (m : Nat) (hm : m ≠ n) :
    ((s.v t (.sleeper n) rest).semaphores (.sleeper m)).value =
      (s.semaphores (.sleeper m)).value := by
  simp only [State.v]
  split <;> simp [hm]

/-- A thread with a plain stack executes its first frame. -/
theorem exec_plain (hp : PlainSystem sys) (hl : LocksOk d s) (h : CondInv sys s role status)
    (hstack : s.stack t = f :: rest) (hplain : ∀ g ∈ f :: rest, g.Plain) (hrole : role t = .plain)
    (hexec : s.execFrame sys t f rest = some s')
    (hlock : ∀ l u, u ≠ t → s.lockOwner l = some u → s'.lockOwner l = some u) :
    ∃ role' status', CondInv sys s' role' status' := by
  have hother : ∀ u, u ≠ t → s'.stack u = s.stack u := fun u hu => execFrame_stack_other hexec hu
  have hf := hplain f (List.mem_cons_self ..)
  have hrest : ∀ g ∈ rest, g.Plain := fun g hg => hplain g (List.mem_cons_of_mem f hg)
  have hnot : (∀ c n, role t ≠ .waiting c n) ∧ ∀ n a, role t ≠ .signalling n a := by
    rw [hrole]
    simp
  have hphase : ∀ l u, f.use sys.lockOf d.use l = some u → s.phase d t l = u.before := by
    intro l u hu
    rw [State.phase, hstack, phaseOf, hu]
  cases f with
  | p k =>
    have hk : ∀ n, k ≠ .sleeper n := by
      rintro n rfl
      exact hf
    cases hexec
    refine ⟨role, status, h.same hother hlock ?_ (value_p hk) ?_ ?_ ?_ (by rw [hrole]; simp)⟩
    · rw [hrole]
      simp only [State.p]
      split
      · exact .plain (by rw [hstack]; exact hplain)
      · exact .plain (by simpa using hrest)
    all_goals simp only [State.p]; split <;> rfl
  | v k =>
    have hk : ∀ n, k ≠ .sleeper n := by
      rintro n rfl
      exact hf
    cases hexec
    refine ⟨role, status, h.same hother hlock ?_ (value_v hk) ?_ ?_ ?_ (by rw [hrole]; simp)⟩
    · rw [hrole]
      simp only [State.v]
      split <;> exact .plain (by simpa using hrest)
    all_goals simp only [State.v]; split <;> rfl
  | acquire l =>
    simp only [State.execFrame] at hexec
    split at hexec
    · cases hexec
    · cases hexec
      refine ⟨role, status, h.same hother hlock ?_ (fun _ => rfl) rfl rfl rfl (by rw [hrole]; simp)⟩
      rw [hrole]
      exact .plain (by simpa [State.setStack, Frame.Plain] using hrest)
  | own l =>
    cases hexec
    refine ⟨role, status, h.same hother hlock ?_ (fun _ => rfl) rfl rfl rfl (by rw [hrole]; simp)⟩
    rw [hrole]
    exact .plain (by simpa [State.setStack] using hrest)
  | release l =>
    simp only [State.execFrame] at hexec
    split at hexec
    · cases hexec
      refine ⟨role, status, h.same hother hlock ?_ (fun _ => rfl) rfl rfl rfl (by rw [hrole]; simp)⟩
      rw [hrole]
      exact .plain (by simpa [State.setStack, Frame.Plain] using hrest)
    · cases hexec
  | wait c =>
    have hheld := hphase (sys.lockOf c) ⟨.held, .held⟩ (by simp [Frame.use])
    simp only [State.execFrame] at hexec
    split at hexec
    · cases hexec
      refine ⟨_, _, h.enqueue hrole rfl hother hlock ?_ (fun _ => rfl) rfl rfl rfl ?_⟩
      · simp only [State.setStack, Function.update_self]
        exact .releasing hrest
      · intro u q r hb
        by_cases hu : u = t
        · rw [hu, hrole] at hb
          cases hb
        · exact h.no_other_broadcast hl hheld u q r hu hb
    · cases hexec
  | waitReturn c n => exact hf.elim
  | signal c =>
    have hheld := hphase (sys.lockOf c) ⟨.held, .held⟩ (by simp [Frame.use])
    have hown := ((hl.lock (sys.lockOf c)).owner t).mpr hheld
    simp only [State.execFrame] at hexec
    split at hexec
    · split at hexec
      · cases hexec
        refine ⟨role, status, h.same hother hlock ?_ (fun _ => rfl) rfl rfl rfl (by rw [hrole]; simp)⟩
        rw [hrole]
        exact .plain (by simpa [State.setStack] using hrest)
      · rename_i n q hq
        cases hexec
        obtain ⟨status', h'⟩ := h.select (a := none) hnot (by rw [hrole]; simp) hq hother hlock hown
          (by simp only [State.setStack, Function.update_self]; exact .signalling hrest)
          (fun _ => rfl) rfl rfl rfl (h.no_other_broadcast hl hheld) (by simp)
        exact ⟨_, status', h'⟩
    · cases hexec
  | broadcast c progress =>
    have hheld := hphase (sys.lockOf c) ⟨.held, .held⟩ (by simp [Frame.use])
    have hown := ((hl.lock (sys.lockOf c)).owner t).mpr hheld
    cases progress with
    | some x => exact hf.elim
    | none =>
      simp only [State.execFrame, Option.getD_none] at hexec
      split at hexec
      · rename_i hq
        cases hexec
        refine ⟨_, status, h.logged_event (c := c) hnot (by rw [hrole]; simp) hother hlock ?_
          (fun _ => rfl) rfl rfl rfl rfl rfl ?_⟩
        · exact .plain (by simpa [State.setStack, State.addLog] using hrest)
        · exact hq.symm
      · rename_i n q hq
        split at hexec
        · cases hexec
          obtain ⟨status', h'⟩ := h.select
            (a := some (c, s.colaProcesosDormidos c, [] ++ [n])) hnot (by rw [hrole]; simp) hq hother
            hlock hown
            (by simp only [State.setStack, Function.update_self]; exact .broadcasting hrest)
            (fun _ => rfl) rfl rfl rfl (h.no_other_broadcast hl hheld) (by
              rintro c' q' r ⟨⟩
              exact ⟨rfl, by rw [hq]; rfl⟩)
          exact ⟨_, status', h'⟩
        · cases hexec
  | code k =>
    simp only [State.execFrame, Option.map_eq_some_iff] at hexec
    obtain ⟨r, hr, rfl⟩ := hexec
    refine ⟨role, status, h.same hother hlock ?_ (fun _ => rfl) rfl rfl rfl (by rw [hrole]; simp)⟩
    rw [hrole]
    refine .plain ?_
    simp only [State.setStack, Function.update_self]
    intro g hg
    rcases List.mem_append.mp hg with hg | hg
    · exact hp.exec hr g hg
    · exact hrest g hg

/-- A thread executes its first frame. -/
theorem exec (hp : PlainSystem sys) (hl : LocksOk d s) (h : CondInv sys s role status)
    (hstack : s.stack t = f :: rest) (hexec : s.execFrame sys t f rest = some s')
    (hlock : ∀ l u, u ≠ t → s.lockOwner l = some u → s'.lockOwner l = some u) :
    ∃ role' status', CondInv sys s' role' status' := by
  have hother : ∀ u, u ≠ t → s'.stack u = s.stack u := fun u hu => execFrame_stack_other hexec hu
  have hr := h.hasRole t
  rw [hstack] at hr
  generalize hrole : role t = r at hr
  cases hr with
  | plain hplain => exact h.exec_plain hp hl hstack hplain hrole hexec hlock
  | releasing hrest =>
    simp only [State.execFrame] at hexec
    split at hexec
    · cases hexec
      refine ⟨role, status, h.same hother hlock ?_ (fun _ => rfl) rfl rfl rfl (by rw [hrole]; simp)⟩
      rw [hrole]
      simp only [State.setStack, Function.update_self]
      exact .freeing hrest
    · cases hexec
  | freeing hrest =>
    cases hexec
    refine ⟨role, status, h.same hother hlock ?_ (value_v (by simp)) ?_ ?_ ?_ (by rw [hrole]; simp)⟩
    · rw [hrole]
      simp only [State.v]
      split <;> simpa using HasRole.sleeping hrest
    all_goals simp only [State.v]; split <;> rfl
  | sleeping hrest =>
    cases hexec
    rename_i c n rest'
    by_cases hz : (s.semaphores (.sleeper n)).value = 0
    · refine ⟨role, status, h.same hother hlock ?_ ?_ ?_ ?_ ?_ (by rw [hrole]; simp)⟩
      · rw [hrole]
        simp only [State.p, hz, if_true, hstack]
        exact .sleeping hrest
      · intro m
        simp only [State.p, hz, if_true]
        by_cases hm : m = n
        · subst hm
          simp [hz]
        · simp [hm]
      all_goals simp only [State.p, hz, if_true]
    · refine ⟨_, _, h.pass hrole hz hother hlock ?_ ?_ ?_ ?_ ?_ ?_⟩
      · simp only [State.p, hz, if_false, Function.update_self]
        exact .acquiring hrest
      · simp [State.p, hz]
      · intro m hm
        simp [State.p, hz, hm]
      all_goals simp only [State.p, hz, if_false]
  | acquiring hrest =>
    simp only [State.execFrame] at hexec
    split at hexec
    · cases hexec
    · cases hexec
      refine ⟨role, status, h.same hother hlock ?_ (fun _ => rfl) rfl rfl rfl (by rw [hrole]; simp)⟩
      rw [hrole]
      simp only [State.setStack, Function.update_self]
      exact .taking hrest
  | taking hrest =>
    cases hexec
    refine ⟨role, status, h.same hother hlock ?_ (value_p (by simp)) ?_ ?_ ?_ (by rw [hrole]; simp)⟩
    · rw [hrole]
      simp only [State.p]
      split
      · simp only [hstack]
        exact .taking hrest
      · simpa using HasRole.owning hrest
    all_goals simp only [State.p]; split <;> rfl
  | owning hrest =>
    cases hexec
    refine ⟨role, status, h.same hother hlock ?_ (fun _ => rfl) rfl rfl rfl (by rw [hrole]; simp)⟩
    rw [hrole]
    simp only [State.setStack, Function.update_self]
    exact .returning hrest
  | returning hrest =>
    cases hexec
    rename_i c n
    have hpassed := h.returning t c n hrole
    refine ⟨_, status, h.logged_event (c := c) (by rw [hrole]; simp) ?_ hother hlock ?_ (fun _ => rfl) rfl
      rfl rfl rfl rfl ⟨?_, ?_⟩⟩
    · rw [hrole]
      rintro c' n' ⟨⟩
      exact ⟨rfl, rfl⟩
    · exact .plain (by simpa [State.setStack, State.addLog] using hrest)
    · rw [h.logged c t n, hpassed]
      rfl
    · have hmem : n ∈ waits (s.log c) := mem_waits.mpr ⟨t, by rw [h.logged c t n, hpassed]; rfl⟩
      rw [h.log_eq c] at hmem
      refine (List.mem_append.mp hmem).resolve_right fun hq => ?_
      obtain ⟨u, hu⟩ := (h.cola c n).mp hq
      rw [hpassed] at hu
      cases hu
  | signalling hrest =>
    cases hexec
    rename_i n
    have hrole' : HasRole sys.lockOf ((s.v t (.sleeper n) rest).stack t) .plain := by
      rw [stack_v]
      exact .plain hrest
    obtain ⟨status', h'⟩ := h.raise hrole hother hlock hrole' (Or.inl rfl) value_v_self value_v_other
      (by simp only [State.v]; split <;> rfl) (by simp only [State.v]; split <;> rfl)
      (by simp only [State.v]; split <;> rfl)
    exact ⟨_, status', h'⟩
  | broadcasting hrest =>
    cases hexec
    rename_i c n queued selected rest'
    have hrole' : HasRole sys.lockOf ((s.v t (.sleeper n)
        (.broadcast c (some (queued, selected)) :: rest')).stack t) (.looping c queued selected) := by
      rw [stack_v]
      exact .looping hrest
    obtain ⟨status', h'⟩ := h.raise hrole hother hlock hrole' (Or.inr ⟨_, _, _, rfl, rfl⟩) value_v_self
      value_v_other (by simp only [State.v]; split <;> rfl) (by simp only [State.v]; split <;> rfl)
      (by simp only [State.v]; split <;> rfl)
    exact ⟨_, status', h'⟩
  | looping hrest =>
    rename_i c queued selected
    have hb := h.broadcasting t c queued selected (by rw [hrole]; rfl)
    have hheld := h.held_of_broadcasts (d := d) (t := t) (q := queued) (r := selected)
      (by rw [hrole]; rfl)
    have hown := ((hl.lock (sys.lockOf c)).owner t).mpr hheld
    have hnot : (∀ c n, role t ≠ .waiting c n) ∧ ∀ n a, role t ≠ .signalling n a := by
      rw [hrole]
      simp
    simp only [State.execFrame, Option.getD_some] at hexec
    split at hexec
    · rename_i hq
      cases hexec
      refine ⟨_, status, h.logged_event (c := c) hnot (by rw [hrole]; simp) hother hlock ?_
          (fun _ => rfl) rfl rfl rfl rfl rfl ?_⟩
      · exact .plain (by simpa [State.setStack, State.addLog] using hrest)
      · rw [hq, List.append_nil] at hb
        exact hb.symm
    · rename_i n q hq
      split at hexec
      · cases hexec
        obtain ⟨status', h'⟩ := h.select (a := some (c, queued, selected ++ [n])) hnot
          (by rw [hrole]; simp) hq hother hlock hown
          (by simp only [State.setStack, Function.update_self]; exact .broadcasting hrest)
          (fun _ => rfl) rfl rfl rfl (h.no_other_broadcast hl hheld) (by
            rintro c' q' r ⟨⟩
            refine ⟨rfl, ?_⟩
            rw [hb, hq]
            simp)
        exact ⟨_, status', h'⟩
      · cases hexec

end CondInv

/-! ## Reading a role off a stack -/

/-- A thread that has not passed the `P` of a `Wait` is a waiter. -/
theorem HasRole.of_mem_p {lockOf : C → L} {fs : List (Frame L C S κ)} {r : Role C} {n : Nat}
    (h : HasRole lockOf fs r) (hmem : .p (.sleeper n) ∈ fs) : ∃ c, r = .waiting c n := by
  have hplain : ∀ {rest : List (Frame L C S κ)}, (∀ f ∈ rest, f.Plain) →
      .p (.sleeper n) ∉ rest := fun hrest hm => hrest _ hm
  cases h with
  | plain hrest => exact absurd hmem (hplain hrest)
  | releasing hrest | freeing hrest | sleeping hrest =>
    simp only [List.mem_cons, reduceCtorEq, Frame.p.injEq, SemId.sleeper.injEq, false_or,
      hplain hrest, or_false] at hmem
    subst hmem
    exact ⟨_, rfl⟩
  | _ hrest =>
    simp [hplain hrest] at hmem

/-- A thread that has a semaphore of a `Wait` to raise does it next. -/
theorem HasRole.of_mem_v {lockOf : C → L} {fs : List (Frame L C S κ)} {r : Role C} {n : Nat}
    (h : HasRole lockOf fs r) (hmem : .v (.sleeper n) ∈ fs) :
    (∃ rest, fs = .v (.sleeper n) :: rest) ∧ ∃ a, r = .signalling n a := by
  have hplain : ∀ {rest : List (Frame L C S κ)}, (∀ f ∈ rest, f.Plain) →
      .v (.sleeper n) ∉ rest := fun hrest hm => hrest _ hm
  cases h with
  | plain hrest => exact absurd hmem (hplain hrest)
  | signalling hrest | broadcasting hrest =>
    simp only [List.mem_cons, reduceCtorEq, Frame.v.injEq, SemId.sleeper.injEq, hplain hrest,
      or_false] at hmem
    subst hmem
    exact ⟨⟨_, rfl⟩, _, rfl⟩
  | _ hrest =>
    simp [hplain hrest] at hmem

/-- The role of a thread that waits. -/
theorem CondInv.role_of_waitsOn {role : Tid → Role C} {status : Nat → Status C} {c : C} {n : Nat}
    (h : CondInv sys s role status) (hw : s.WaitsOn t c n) : role t = .waiting c n := by
  obtain ⟨c', hrole⟩ := (h.hasRole t).of_mem_p hw.1
  have hr := h.hasRole t
  have hmem := hw.2
  rw [hrole] at hr ⊢
  generalize s.stack t = fs at hr hmem
  cases hr with
  | releasing hrest | freeing hrest | sleeping hrest =>
    simp only [List.mem_cons, reduceCtorEq, Frame.waitReturn.injEq, false_or, and_true] at hmem
    rw [hmem.resolve_right fun hm => hrest _ hm]

/-- A thread in a `Wait` has its return on the stack. -/
theorem HasRole.mem_waitReturn {lockOf : C → L} {fs : List (Frame L C S κ)} {r : Role C} {c : C} {n : Nat}
    (h : HasRole lockOf fs r) (hr : r = .waiting c n ∨ r = .returning c n) : .waitReturn c n ∈ fs := by
  cases h <;> simp at hr
  all_goals
    obtain ⟨rfl, rfl⟩ := hr
    simp

/-- The waiters of a log that were signalled are in as many threads. -/
theorem CondInv.signalled_threads {role : Tid → Role C} {status : Nat → Status C}
    (h : CondInv sys s role status) (c : C) : ∃ W : Finset Tid, (∀ t ∈ W, s.Signalled t c) ∧
      (signalled (s.log c)).length ≤ W.card := by
  have hnd := h.nodup c
  rw [h.log_eq c] at hnd
  -- the thread of a signalled waiter is still in its `Wait`
  have hrole : ∀ n ∈ signalled (s.log c), n ∉ s.colaProcesosDormidos c ∧
      ∃ t, (status n).origin = some (c, t) ∧ (role t = .waiting c n ∨ role t = .returning c n) := by
    intro n hn
    obtain ⟨hsel, hret⟩ := List.mem_filter.mp hn
    have hcola : n ∉ s.colaProcesosDormidos c := fun hmem =>
      (List.nodup_append.mp hnd).2.2 n hsel n hmem rfl
    have hmem : n ∈ waits (s.log c) := by
      rw [h.log_eq c]
      exact List.mem_append_left _ hsel
    obtain ⟨t, ht⟩ := mem_waits.mp hmem
    have horigin := (h.logged c t n).mp ht
    refine ⟨hcola, t, horigin, ?_⟩
    cases hst : status n with
    | fresh =>
      rw [hst] at horigin
      cases horigin
    | queued c' t' =>
      rw [hst] at horigin
      cases horigin
      exact absurd ((h.cola c n).mpr ⟨t, hst⟩) hcola
    | selected c' t' u | raised c' t' =>
      rw [hst] at horigin
      cases horigin
      exact .inl ((h.waiting t c n).mpr (by rw [hst]; rfl))
    | passed c' t' =>
      rw [hst] at horigin
      cases horigin
      rcases h.passed t c n hst with hr | hr
      · exact .inr hr
      · simp only [decide_eq_true_eq] at hret
        exact absurd (mem_returns.mpr ⟨t, hr⟩) hret
  let thread : Nat → Tid := fun n => ((status n).origin.map Prod.snd).getD 0
  have hthread : ∀ n ∈ signalled (s.log c), role (thread n) = .waiting c n ∨
      role (thread n) = .returning c n := by
    intro n hn
    obtain ⟨-, t, horigin, hr⟩ := hrole n hn
    simpa [thread, horigin] using hr
  refine ⟨(signalled (s.log c)).toFinset.image thread, ?_, ?_⟩
  · intro t ht
    obtain ⟨n, hn, rfl⟩ := Finset.mem_image.mp ht
    rw [List.mem_toFinset] at hn
    exact ⟨n, (h.hasRole _).mem_waitReturn (hthread n hn), (hrole n hn).1⟩
  · rw [Finset.card_image_of_injOn]
    · rw [List.toFinset_card_of_nodup]
      exact (h.selects_nodup c).filter _
    · intro n hn m hm heq
      have h1 := hthread n (by simpa using hn)
      have h2 := hthread m (by simpa using hm)
      rw [heq] at h1
      rcases h1 with h1 | h1 <;> rcases h2 with h2 | h2 <;> rw [h1] at h2 <;> cases h2 <;> rfl

theorem returns_append (l l' : List CondEvent) : returns (l ++ l') = returns l ++ returns l' :=
  List.filterMap_append ..

theorem signalled_wait (log : List CondEvent) (t : Tid) (n : Nat) :
    signalled (log ++ [.wait t n]) = signalled log := by
  simp [signalled, selects_append, returns_append, selects, returns]

theorem signalled_select {log : List CondEvent} {n : Nat} (t : Tid) (hn : n ∉ returns log) :
    signalled (log ++ [.select t n]) = signalled log ++ [n] := by
  simp only [signalled, selects_append, returns_append]
  simp [selects, returns] at hn ⊢
  exact hn

/-- A return takes one waiter away. -/
theorem signalled_return {log : List CondEvent} (hnd : (selects log).Nodup) (t : Tid) (n : Nat) :
    (signalled log).length ≤ (signalled (log ++ [.waitReturn t n])).length + 1 := by
  have heq : signalled (log ++ [.waitReturn t n]) = (signalled log).filter (· ≠ n) := by
    simp only [signalled, selects_append, returns_append]
    simp only [selects, returns, List.filterMap_cons, List.filterMap_nil, List.append_nil,
      List.mem_append, List.mem_singleton, List.filter_filter]
    congr 1
    funext m
    by_cases hm : m = n <;> simp [hm]
  rw [heq]
  have hnd' : (signalled log).Nodup := hnd.filter _
  have hlen := List.length_eq_length_filter_add (l := signalled log) (· ≠ n)
  have hone : ((signalled log).filter fun m => !decide (m ≠ n)).length ≤ 1 := by
    rw [show (fun m => !decide (m ≠ n)) = fun m => m == n by funext m; by_cases m = n <;> simp [*]]
    rw [← List.count_eq_length_filter]
    exact List.nodup_iff_count_le_one.mp hnd' n
  omega

/-! ## The invariant of the primitives -/

/-- Everything that holds of the primitives in a system that uses them properly. -/
structure SynchInv (d : Discipline sys) (init : SemId L S → Int) (s : State L C S κ σ) : Prop where
  sem : SemInv init s
  locks : LocksOk d s
  cond : ∃ role status, CondInv sys s role status

namespace SynchInv

variable {init : SemId L S → Int}

theorem start {initialValue : S → Int} {priority : Tid → Int} {shared : σ}
    (h0 : ∀ n, 0 ≤ initialValue n) (hhome : ∀ t l, d.home shared t l = .out) :
    SynchInv d (fun k => ((State.start initialValue priority shared :
      State L C S κ σ).semaphores k).value) (State.start initialValue priority shared) where
  sem := SemInv.start initialValue priority shared h0
  locks := LocksOk.start hhome
  cond := by
    refine ⟨fun _ => .plain, fun _ => .fresh, fun t => .plain (by simp [State.start]), ?_, ?_, ?_, ?_,
      ?_, ?_, ?_, ?_, ?_, ?_, ?_, ?_, ?_⟩
    · simp [Status.waiter]
    · simp [Status.signaller]
    · simp
    · simp
    · simp
    · simp [State.start, Status.units]
    · simp [State.start]
    · simp [State.start]
    · simp [State.start, waits, selects]
    · simp [State.start, Status.origin]
    · simp [State.start, waits]
    · intro c pre e post h
      simp [State.start] at h
    · simp [Role.broadcasts]

theorem step {e : Event ι} (hp : PlainSystem sys) (h : SynchInv d init s)
    (hs : s.step sys e = some s') : SynchInv d init s' := by
  refine ⟨h.sem.step hs, h.locks.step hs, ?_⟩
  obtain ⟨role, status, hc⟩ := h.cond
  cases e with
  | call t i =>
    obtain ⟨hstack, -, r, hr, rfl⟩ := step_call_iff.mp hs
    have hrole : role t = .plain := by
      have hr := hc.hasRole t
      rw [hstack] at hr
      generalize role t = r at hr ⊢
      cases hr
      rfl
    refine ⟨role, status, hc.same (t := t) ?_ (fun _ _ _ ho => ho) ?_ (fun _ => rfl) rfl rfl rfl
      (by rw [hrole]; simp)⟩
    · intro u hu
      simp [State.setStack, hu]
    · rw [hrole]
      exact .plain (by simpa [State.setStack] using hp.call hr)
  | exec t =>
    obtain ⟨-, f, rest, hstack, hexec⟩ := step_exec_iff.mp hs
    exact hc.exec hp h.locks hstack hexec fun l u hu ho => h.locks.owner_other hs hu ho

theorem reachable (hp : PlainSystem sys) (h : SynchInv d init s0) (hr : Reachable sys s0 s) :
    SynchInv d init s := by
  obtain ⟨es, hrun⟩ := hr
  exact runs_inv (fun _ _ _ hI _ hs => step hp hI hs) h (AllSteps.trivial es s0) hrun

/-- Only a `P` keeps a thread asleep. -/
theorem asleep_head (h : SynchInv d init s) (ht : s.asleep t = true) :
    ∃ k rest, s.stack t = .p k :: rest := by
  obtain ⟨k, -, hhead⟩ := h.sem.asleep_in t ht
  obtain ⟨rest, hrest⟩ := List.head?_eq_some_iff.mp hhead
  exact ⟨k, rest, hrest⟩

/-- No two threads wait on one semaphore. -/
theorem waitsOn_unique {c c' : C} {n : Nat} (h : SynchInv d init s) (ht : s.WaitsOn t c n)
    (hu : s.WaitsOn u c' n) : u = t := by
  obtain ⟨role, status, hc⟩ := h.cond
  obtain ⟨c1, hr⟩ := (hc.hasRole t).of_mem_p ht.1
  obtain ⟨c2, hr'⟩ := (hc.hasRole u).of_mem_p hu.1
  have hw := (hc.waiting t c1 n).mp hr
  rw [(hc.waiting u c2 n).mp hr'] at hw
  cases hw
  rfl

/-- A waiter that is raised is awake: if it slept, another thread would have been woken from its
semaphore, but nobody else waits there. -/
theorem awake_of_raised {c : C} {n : Nat} {status : Nat → Status C} {role : Tid → Role C}
    (h : SynchInv d init s) (hc : CondInv sys s role status) (hst : status n = .raised c t) :
    s.asleep t = false := by
  by_contra hasleep
  rw [Bool.not_eq_false] at hasleep
  obtain ⟨k, hk⟩ := h.sem.asleep_in t hasleep
  obtain ⟨rest, hrest⟩ := List.head?_eq_some_iff.mp hk.2
  have hrole : role t = .waiting c n := (hc.waiting t c n).mpr (by rw [hst]; rfl)
  have hkn : k = .sleeper n := by
    have hr := hc.hasRole t
    rw [hrole, hrest] at hr
    cases hr
    rfl
  subst hkn
  have hq := (h.sem.mem_queue (.sleeper n) t).mpr hk
  obtain ⟨W, hW, hcard⟩ := h.sem.woken (.sleeper n) (List.ne_nil_of_mem hq)
  rw [hc.value_eq n, hst] at hcard
  obtain ⟨u, hu⟩ : W.Nonempty := by
    rw [← Finset.card_pos]
    simp only [Status.units] at hcard
    omega
  obtain ⟨-, hawake, hhead⟩ := hW u hu
  obtain ⟨rest', hrest'⟩ := List.head?_eq_some_iff.mp hhead
  obtain ⟨c', hr'⟩ := (hc.hasRole u).of_mem_p (n := n) (by rw [hrest']; exact List.mem_cons_self ..)
  have hw := (hc.waiting u c' n).mp hr'
  rw [hst] at hw
  cases hw
  rw [hasleep] at hawake
  cases hawake

/-- Once a waiter was selected, the thread that selected it is about to raise its semaphore and holds the
lock, or the semaphore was raised and the waiter is awake. -/
theorem selected_cases {c : C} {n : Nat} (h : SynchInv d init s) (hw : s.WaitsOn t c n)
    (hn : n ∉ s.colaProcesosDormidos c) :
    (∃ u rest, s.asleep u = false ∧ s.stack u = .v (.sleeper n) :: rest ∧
      s.lockOwner (sys.lockOf c) = some u) ∨
    ((s.semaphores (.sleeper n)).value = 1 ∧ s.asleep t = false) := by
  obtain ⟨role, status, hc⟩ := h.cond
  have hwaiter := (hc.waiting t c n).mp (hc.role_of_waitsOn hw)
  cases hst : status n with
  | queued c1 t1 =>
    rw [hst] at hwaiter
    cases hwaiter
    exact absurd ((hc.cola c n).mpr ⟨t, hst⟩) hn
  | selected c1 t1 u =>
    rw [hst] at hwaiter
    cases hwaiter
    obtain ⟨a, ha⟩ := (hc.signalling u n).mpr (by rw [hst]; rfl)
    have hr := hc.hasRole u
    rw [ha] at hr
    obtain ⟨rest, hrest⟩ : ∃ rest, s.stack u = .v (.sleeper n) :: rest := by
      generalize s.stack u = fs at hr ⊢
      cases hr <;> exact ⟨_, rfl⟩
    refine .inl ⟨u, rest, ?_, hrest, hc.holds n c t u hst⟩
    by_contra hasleep
    rw [Bool.not_eq_false] at hasleep
    obtain ⟨k, rest', hk⟩ := h.asleep_head hasleep
    rw [hrest] at hk
    cases hk
  | raised c1 t1 =>
    rw [hst] at hwaiter
    cases hwaiter
    exact .inr ⟨by rw [hc.value_eq n, hst]; rfl, h.awake_of_raised hc hst⟩
  | _ =>
    rw [hst] at hwaiter
    cases hwaiter

/-- A waiter is stuck as long as it is queued; once it was selected it can go on. -/
theorem waitsOn_cases {c : C} {n : Nat} (h : SynchInv d init s) (hw : s.WaitsOn t c n) :
    (n ∈ s.colaProcesosDormidos c ∧ s.Stuck n) ∨
      (n ∉ s.colaProcesosDormidos c ∧ s.CanGoOn t n) := by
  by_cases hn : n ∈ s.colaProcesosDormidos c
  · obtain ⟨role, status, hc⟩ := h.cond
    obtain ⟨w, hst⟩ := (hc.cola c n).mp hn
    refine .inl ⟨hn, by rw [hc.value_eq n, hst]; rfl, fun u hu => ?_⟩
    obtain ⟨-, a, ha⟩ := (hc.hasRole u).of_mem_v hu
    have hs := (hc.signalling u n).mp ⟨a, ha⟩
    rw [hst] at hs
    cases hs
  · rcases h.selected_cases hw hn with ⟨u, rest, hawake, hstack, -⟩ | hraised
    · exact .inr ⟨hn, .inl ⟨u, rest, hawake, hstack⟩⟩
    · exact .inr ⟨hn, .inr hraised⟩

/-- A thread that is about to return from a `Wait` is no longer queued. -/
theorem notMem_cola {c : C} {n : Nat} (h : SynchInv d init s)
    (hstack : s.stack t = .waitReturn c n :: rest) : n ∉ s.colaProcesosDormidos c := by
  obtain ⟨role, status, hc⟩ := h.cond
  have hr := hc.hasRole t
  rw [hstack] at hr
  have hrole : role t = .returning c n := by
    generalize role t = r at hr ⊢
    cases hr with
    | plain hplain => exact (hplain _ (List.mem_cons_self ..)).elim
    | returning => rfl
  intro hmem
  obtain ⟨u, hu⟩ := (hc.cola c n).mp hmem
  rw [hc.returning t c n hrole] at hu
  cases hu

/-- A thread that is about to return from a `Wait` holds the lock. -/
theorem owner_of_waitReturn {c : C} {n : Nat} (h : SynchInv d init s)
    (hstack : s.stack t = .waitReturn c n :: rest) : s.lockOwner (sys.lockOf c) = some t := by
  refine ((h.locks.lock (sys.lockOf c)).owner t).mpr ?_
  rw [State.phase, hstack]
  simp [phaseOf, Frame.use]

end SynchInv

/-! ## Threads that use conditions -/

section ConditionUsers

variable {L C : Type} [DecidableEq L] [DecidableEq C]

/-- Threads that use locks in pairs and conditions with their lock held use the locks properly. -/
def conditionDiscipline (lockOf : C → L) : Discipline (conditionUsers lockOf) where
  use := fun k => k.elim
  home := fun taken t l => if taken t l then .held else .out
  call_home := by
    intro i t taken r hr u hu
    cases i with
    | acquire l =>
      simp only [conditionUsers] at hr
      split at hr
      · cases hr
      · cases hr
        simp [hu]
    | release l =>
      simp only [conditionUsers] at hr
      split at hr
      · cases hr
        simp [hu]
      · cases hr
    | wait c | signal c | broadcast c =>
      simp only [conditionUsers] at hr
      split at hr
      · cases hr
        rfl
      · cases hr
  call_fits := by
    intro i t taken r hr l
    cases i with
    | acquire l' =>
      simp only [conditionUsers] at hr
      split at hr
      · cases hr
      · rename_i hfree
        cases hr
        by_cases hl : l' = l
        · subst hl
          simp [Fits, phaseOf, Frame.use, hfree]
        · simp [Fits, phaseOf, Frame.use, hl, Ne.symm hl]
    | release l' =>
      simp only [conditionUsers] at hr
      split at hr
      · rename_i htaken
        cases hr
        by_cases hl : l' = l
        · subst hl
          simp [Fits, phaseOf, Frame.use, htaken]
        · simp [Fits, phaseOf, Frame.use, hl, Ne.symm hl]
      · cases hr
    | wait c | signal c | broadcast c =>
      simp only [conditionUsers] at hr
      split at hr
      · rename_i htaken
        cases hr
        by_cases hl : lockOf c = l
        · subst hl
          simp [Fits, phaseOf, Frame.use, conditionUsers, htaken]
        · simp [Fits, phaseOf, Frame.use, conditionUsers, hl]
      · cases hr
  exec_home := by
    intro k
    cases k
  exec_fits := by
    intro k
    cases k

theorem conditionUsers_plain (lockOf : C → L) : PlainSystem (conditionUsers lockOf) where
  call := by
    intro i t taken r hr
    cases i
    all_goals
      simp only [conditionUsers] at hr
      split at hr
      all_goals
        cases hr
        try simp [Frame.Plain]
  exec := by
    intro k
    cases k

/-- Threads that use conditions with their lock held, in any state that they reach. The log of a
condition is in order: a signal selects the longest waiting thread, a broadcast those that were queued
when it began, and a `Wait` returns only after it was selected, which happens after it joined the queue.
Those not yet selected are the queue. A waiter that is queued is stuck and the others can go on. A
`Signal` on an empty queue changes nothing but where the thread is, and any other one takes the first
waiter of the queue. A thread that returns from `Wait` holds the lock. -/
theorem condition_mesa (lockOf : C → L) (priority : Tid → Int)
    {s : State L C Empty Empty (Tid → L → Bool)}
    (hr : Reachable (conditionUsers lockOf) (State.start Empty.elim priority fun _ _ => false) s)
    (c : C) :
    LogOk (s.log c) ∧
    waits (s.log c) = selects (s.log c) ++ s.colaProcesosDormidos c ∧
    (∀ t n, s.WaitsOn t c n → (∀ u c', s.WaitsOn u c' n → u = t) ∧
      ((n ∈ s.colaProcesosDormidos c ∧ s.Stuck n) ∨
        (n ∉ s.colaProcesosDormidos c ∧ s.CanGoOn t n))) ∧
    (∀ t rest s', s.stack t = .signal c :: rest →
      s.step (conditionUsers lockOf) (.exec t) = some s' →
      (s.colaProcesosDormidos c = [] → s' = s.setStack t rest) ∧
      ∀ n q, s.colaProcesosDormidos c = n :: q →
        s' = (s.select t c n q).setStack t (.v (.sleeper n) :: rest)) ∧
    (∀ t n rest, s.stack t = .waitReturn c n :: rest → s.lockOwner (lockOf c) = some t) := by
  have h0 : SynchInv (conditionDiscipline lockOf) _ (State.start Empty.elim priority fun _ _ => false) :=
    SynchInv.start (fun n => n.elim) fun _ _ => rfl
  have h := h0.reachable (conditionUsers_plain lockOf) hr
  obtain ⟨role, status, hc⟩ := h.cond
  refine ⟨hc.logOk c, hc.log_eq c, ?_, ?_, ?_⟩
  · intro t n hw
    exact ⟨fun u c' hu => h.waitsOn_unique hw hu, h.waitsOn_cases hw⟩
  · intro t rest s' hstack hs
    obtain ⟨-, f, rest', hstack', hexec⟩ := step_exec_iff.mp hs
    rw [hstack] at hstack'
    cases hstack'
    simp only [State.execFrame] at hexec
    split at hexec
    · split at hexec
      · rename_i hq
        cases hexec
        refine ⟨fun _ => rfl, fun n q hq' => ?_⟩
        rw [hq] at hq'
        cases hq'
      · rename_i n q hq
        cases hexec
        constructor
        · intro hq'
          rw [hq] at hq'
          cases hq'
        · intro n' q' hq'
          rw [hq] at hq'
          cases hq'
          rfl
    · cases hexec
  · exact fun t n rest hstack => h.owner_of_waitReturn hstack

/-- Thread 0 waits, thread 1 signals, and thread 0 is about to return from its `Wait`. -/
def waitAndSignal : List (Event (CondCall Unit Unit)) :=
  [.call 0 (.acquire ()), .exec 0, .exec 0, .exec 0, .call 0 (.wait ()), .exec 0, .exec 0, .exec 0,
    .exec 0, .call 1 (.acquire ()), .exec 1, .exec 1, .exec 1, .call 1 (.signal ()), .exec 1, .exec 1,
    .call 1 (.release ()), .exec 1, .exec 1, .exec 0, .exec 0, .exec 0, .exec 0]

theorem condition_mesa_waitAndSignal : ∃ s, runs (State.step (conditionUsers fun _ : Unit => ()))
      (State.start Empty.elim (fun _ => 0) fun _ _ => false) waitAndSignal = some s ∧
    s.log () = [.wait 0 0, .select 1 0] ∧ LogOk (s.log ()) ∧ s.lockOwner () = some 0 := by
  obtain ⟨s, hs⟩ := Option.isSome_iff_exists.mp (show (runs (State.step
    (conditionUsers fun _ : Unit => ())) (State.start Empty.elim (fun _ => 0) fun _ _ => false)
    waitAndSignal).isSome = true by rfl)
  have hview : (some s).map (fun s => (s.log (), s.stack 0)) =
      some ([.wait 0 0, .select 1 0], [.waitReturn () 0]) := by
    rw [← hs]
    rfl
  simp only [Option.map_some, Option.some.injEq, Prod.mk.injEq] at hview
  obtain ⟨hlog, hstack⟩ := hview
  obtain ⟨hok, -, -, -, hreturn⟩ := condition_mesa (fun _ : Unit => ()) (fun _ => 0) ⟨_, hs⟩ ()
  exact ⟨s, hs, hlog, hok, hreturn 0 0 [] hstack⟩

end ConditionUsers

end Nachos.Synch
