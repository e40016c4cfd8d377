import Mathlib.Data.Finset.Card
import Nachos.Threads.Synch

/-!
# Proofs: semaphores

In every reachable state the value of a semaphore is the balance of its increments and decrements, the
sleeping threads are exactly those in the queues, and where threads are queued there are at least as
many woken threads as units: no wake-up is lost. This holds for every semaphore of every system,
including those of locks and conditions.
-/

namespace Nachos.Synch

open Foundations

variable {L C S κ ι σ : Type} [DecidableEq L] [DecidableEq C] [DecidableEq S]
  {sys : System L C S κ ι σ} {s s' s0 : State L C S κ σ} {t u : Tid} {f : Frame L C S κ}
  {rest : List (Frame L C S κ)} {k : SemId L S}

/-! ## Steps -/

theorem step_exec_iff : s.step sys (.exec t) = some s' ↔
    s.asleep t = false ∧ ∃ f rest, s.stack t = f :: rest ∧ s.execFrame sys t f rest = some s' := by
  cases hstack : s.stack t with
  | nil => simp [State.step, hstack]
  | cons f rest => simp [State.step, hstack]

theorem step_call_iff {i : ι} : s.step sys (.call t i) = some s' ↔
    s.stack t = [] ∧ s.asleep t = false ∧
      ∃ r, sys.call i t s.shared = some r ∧ { s.setStack t r.2 with shared := r.1 } = s' := by
  simp [State.step, and_assoc]

/-- What a thread does besides `P` and `V` does not touch the semaphores and the sleeping threads. -/
theorem execFrame_quiet (h : s.execFrame sys t f rest = some s') (hp : ∀ k, f ≠ .p k)
    (hv : ∀ k, f ≠ .v k) :
    s'.semaphores = s.semaphores ∧ s'.asleep = s.asleep ∧ s'.woken = s.woken := by
  cases f
  case p k => exact absurd rfl (hp k)
  case v k => exact absurd rfl (hv k)
  case code k =>
    simp only [State.execFrame, Option.map_eq_some_iff] at h
    obtain ⟨r, -, rfl⟩ := h
    exact ⟨rfl, rfl, rfl⟩
  all_goals
    simp only [State.execFrame] at h
    repeat' split at h
    all_goals cases h
    all_goals exact ⟨rfl, rfl, rfl⟩

/-- A thread changes its own stack only. -/
theorem execFrame_stack_other (h : s.execFrame sys t f rest = some s') (hu : u ≠ t) :
    s'.stack u = s.stack u := by
  cases f
  case code k =>
    simp only [State.execFrame, Option.map_eq_some_iff] at h
    obtain ⟨r, -, rfl⟩ := h
    simp [State.setStack, hu]
  all_goals
    simp only [State.execFrame, State.p, State.v] at h
    repeat' split at h
    all_goals cases h
    all_goals simp [State.setStack, State.addLog, State.select, hu]

/-- A step leaves the stack of its thread as it is, or puts other frames in the place of the first one;
code among them comes from the code of the system. -/
theorem execFrame_stack (hstack : s.stack t = f :: rest) (h : s.execFrame sys t f rest = some s') :
    s'.stack t = f :: rest ∨ ∃ frames, s'.stack t = frames ++ rest ∧ ∀ k, .code k ∈ frames →
      ∃ k' r, f = .code k' ∧ sys.exec k' t s.shared = some r ∧ .code k ∈ r.2 := by
  cases f with
  | code k =>
    simp only [State.execFrame, Option.map_eq_some_iff] at h
    obtain ⟨r, hr, rfl⟩ := h
    exact .inr ⟨r.2, by simp [State.setStack], fun k' hk' => ⟨k, r, rfl, hr, hk'⟩⟩
  | p k =>
    simp only [State.execFrame, State.p] at h
    split at h
    · cases h
      exact .inl hstack
    · cases h
      exact .inr ⟨[], by simp, by simp⟩
  | v k =>
    simp only [State.execFrame, State.v] at h
    split at h <;> cases h <;> exact .inr ⟨[], by simp, by simp⟩
  | own l | waitReturn c n =>
    cases h
    exact .inr ⟨[], by simp [State.setStack, State.addLog], by simp⟩
  | acquire l =>
    simp only [State.execFrame] at h
    split at h
    · cases h
    · cases h
      exact .inr ⟨[.p (.lock l), .own l], by simp [State.setStack], by simp⟩
  | release l =>
    simp only [State.execFrame] at h
    split at h
    · cases h
      exact .inr ⟨[.v (.lock l)], by simp [State.setStack], by simp⟩
    · cases h
  | wait c =>
    simp only [State.execFrame] at h
    split at h
    · cases h
      refine .inr ⟨[.release (sys.lockOf c), .p (.sleeper s.sleepers), .acquire (sys.lockOf c),
        .waitReturn c s.sleepers], by simp [State.setStack], by simp⟩
    · cases h
  | signal c =>
    simp only [State.execFrame] at h
    split at h
    · split at h
      · cases h
        exact .inr ⟨[], by simp [State.setStack], by simp⟩
      · rename_i n q hq
        cases h
        exact .inr ⟨[.v (.sleeper n)], by simp [State.setStack], by simp⟩
    · cases h
  | broadcast c progress =>
    simp only [State.execFrame] at h
    split at h
    · cases h
      exact .inr ⟨[], by simp [State.setStack, State.addLog], by simp⟩
    · rename_i n q hq
      split at h
      · cases h
        exact .inr ⟨[.v (.sleeper n), .broadcast c _], by simp [State.setStack]; rfl, by simp⟩
      · cases h

/-- `P` changes the semaphore and the stack. -/
theorem p_same (s : State L C S κ σ) (t : Tid) (j : SemId L S) (rest : List (Frame L C S κ)) :
    (s.p t j rest).shared = s.shared ∧ (s.p t j rest).lockOwner = s.lockOwner ∧
      (s.p t j rest).colaProcesosDormidos = s.colaProcesosDormidos ∧ (s.p t j rest).log = s.log ∧
      ((s.p t j rest).stack t = s.stack t ∨ (s.p t j rest).stack t = rest) := by
  simp only [State.p]
  split
  · exact ⟨rfl, rfl, rfl, rfl, .inl rfl⟩
  · exact ⟨rfl, rfl, rfl, rfl, .inr (by simp)⟩

/-- `V` changes the semaphore and the stack, and wakes a thread. -/
theorem v_same (s : State L C S κ σ) (t : Tid) (j : SemId L S) (rest : List (Frame L C S κ)) :
    (s.v t j rest).shared = s.shared ∧ (s.v t j rest).lockOwner = s.lockOwner ∧
      (s.v t j rest).colaProcesosDormidos = s.colaProcesosDormidos ∧ (s.v t j rest).log = s.log ∧
      (s.v t j rest).stack t = rest := by
  simp only [State.v]
  split
  · exact ⟨rfl, rfl, rfl, rfl, by simp⟩
  · exact ⟨rfl, rfl, rfl, rfl, by simp⟩

/-- The thread of an event. -/
def Event.thread : Event ι → Tid
  | .call t _ | .exec t => t

/-- A thread that takes no step keeps its stack. -/
theorem runs_stack_other {u : Tid} {es : List (Event ι)} (h : ∀ e ∈ es, e.thread ≠ u)
    (hrun : runs (State.step sys) s es = some s') : s'.stack u = s.stack u := by
  induction es generalizing s with
  | nil =>
    cases hrun
    rfl
  | cons e es ih =>
    obtain ⟨s1, hs, hrun⟩ := runs_cons_eq_some.mp hrun
    rw [ih (fun e' he' => h e' (List.mem_cons_of_mem e he')) hrun]
    have hu : e.thread ≠ u := h e (List.mem_cons_self ..)
    cases e with
    | call t i =>
      obtain ⟨-, -, r, -, rfl⟩ := step_call_iff.mp hs
      have htu : u ≠ t := fun heq => hu heq.symm
      simp [State.setStack, htu]
    | exec t =>
      obtain ⟨-, f, rest, -, hexec⟩ := step_exec_iff.mp hs
      exact execFrame_stack_other hexec fun heq => hu heq.symm

/-- Only the code of the system changes its state. -/
theorem execFrame_shared (h : s.execFrame sys t f rest = some s') (hk : ∀ k, f ≠ .code k) :
    s'.shared = s.shared := by
  cases f
  case code k => exact absurd rfl (hk k)
  all_goals
    simp only [State.execFrame, State.p, State.v] at h
    repeat' split at h
    all_goals cases h
    all_goals rfl

/-! ## The invariant -/

/-- The thread `t` sleeps in `P` on the semaphore `k`. -/
def State.SleepsIn (s : State L C S κ σ) (t : Tid) (k : SemId L S) : Prop :=
  s.asleep t = true ∧ (s.stack t).head? = some (.p k)

/-- The thread `t` was woken by `V` on the semaphore `k` and has not tested its value yet. -/
def State.WokenFrom (s : State L C S κ σ) (t : Tid) (k : SemId L S) : Prop :=
  s.woken t = true ∧ s.asleep t = false ∧ (s.stack t).head? = some (.p k)

/-- The invariant of the semaphores, whose values at the beginning are `init`. -/
structure SemInv (init : SemId L S → Int) (s : State L C S κ σ) : Prop where
  value_eq : ∀ k, (s.semaphores k).value =
    init k + (s.semaphores k).ups - (s.semaphores k).downs
  nonneg : ∀ k, 0 ≤ (s.semaphores k).value
  nodup : ∀ k, (s.semaphores k).queue.Nodup
  mem_queue : ∀ k t, t ∈ (s.semaphores k).queue ↔ s.SleepsIn t k
  asleep_in : ∀ t, s.asleep t = true → ∃ k, s.SleepsIn t k
  woken : ∀ k, (s.semaphores k).queue ≠ [] →
    ∃ W : Finset Tid, (∀ t ∈ W, s.WokenFrom t k) ∧ (s.semaphores k).value ≤ W.card

namespace SemInv

variable {init : SemId L S → Int}

/-- The semaphores at the beginning. -/
theorem start (initialValue : S → Int) (priority : Tid → Int) (shared : σ)
    (h0 : ∀ n, 0 ≤ initialValue n) :
    SemInv (fun k => ((State.start initialValue priority shared :
        State L C S κ σ).semaphores k).value)
      (State.start initialValue priority shared : State L C S κ σ) where
  value_eq := by
    intro k
    cases k <;> simp [State.start]
  nonneg := by
    intro k
    cases k with
    | user n => exact h0 n
    | lock l => exact Int.zero_le_ofNat 1
    | sleeper n => exact Int.le_refl 0
  nodup := by
    intro k
    cases k <;> exact List.nodup_nil
  mem_queue := by
    intro k t
    cases k <;> simp [State.start, State.SleepsIn]
  asleep_in := by
    intro t ht
    cases ht
  woken := by
    intro k hk
    cases k <;> exact absurd rfl hk

/-- A step that leaves the semaphores alone, by a thread that is not in `P`. -/
theorem quiet (h : SemInv init s) (ht : s.asleep t = false)
    (hhead : ∀ k, (s.stack t).head? ≠ some (.p k)) (hsem : s'.semaphores = s.semaphores)
    (hasleep : s'.asleep = s.asleep) (hwoken : s'.woken = s.woken)
    (hstack : ∀ u, u ≠ t → s'.stack u = s.stack u) : SemInv init s' where
  value_eq := by rw [hsem]; exact h.value_eq
  nonneg := by rw [hsem]; exact h.nonneg
  nodup := by rw [hsem]; exact h.nodup
  mem_queue := by
    intro k u
    rw [hsem, h.mem_queue k u, State.SleepsIn, State.SleepsIn, hasleep]
    by_cases hu : u = t
    · rw [hu, ht]
      simp
    · rw [hstack u hu]
  asleep_in := by
    intro u hu
    rw [hasleep] at hu
    have hut : u ≠ t := by
      rintro rfl
      rw [ht] at hu
      cases hu
    obtain ⟨k, hk⟩ := h.asleep_in u hu
    exact ⟨k, by rw [hasleep]; exact hu, by rw [hstack u hut]; exact hk.2⟩
  woken := by
    intro k hk
    rw [hsem] at hk ⊢
    obtain ⟨W, hW, hcard⟩ := h.woken k hk
    refine ⟨W, fun u hu => ?_, hcard⟩
    obtain ⟨h1, h2, h3⟩ := hW u hu
    have hut : u ≠ t := by
      rintro rfl
      exact hhead k h3
    exact ⟨by rw [hwoken]; exact h1, by rw [hasleep]; exact h2, by rw [hstack u hut]; exact h3⟩

/-- A thread that is not asleep is in no queue. -/
theorem notMem_queue (h : SemInv init s) (ht : s.asleep t = false) (k : SemId L S) :
    t ∉ (s.semaphores k).queue := by
  intro hmem
  have := ((h.mem_queue k t).mp hmem).1
  rw [ht] at this
  cases this

/-- `P` keeps the invariant. -/
theorem p (h : SemInv init s) (ht : s.asleep t = false) (hstack : s.stack t = .p k :: rest) :
    SemInv init (s.p t k rest) := by
  have hnot := h.notMem_queue ht
  unfold State.p
  simp only
  split
  · -- the thread goes to sleep; there is no unit, so no woken thread is needed
    rename_i hz
    refine ⟨?_, ?_, ?_, ?_, ?_, ?_⟩
    · intro j
      by_cases hj : j = k
      · subst hj
        simpa using h.value_eq j
      · simpa [hj] using h.value_eq j
    · intro j
      by_cases hj : j = k
      · subst hj
        simpa using h.nonneg j
      · simpa [hj] using h.nonneg j
    · intro j
      by_cases hj : j = k
      · subst hj
        simpa using List.nodup_append.mpr ⟨h.nodup j, by simp, fun a ha b hb hab =>
          hnot j (by rw [List.mem_singleton.mp hb] at hab; exact hab ▸ ha)⟩
      · simpa [hj] using h.nodup j
    · intro j u
      by_cases hu : u = t
      · subst hu
        by_cases hj : j = k
        · subst hj
          simp [State.SleepsIn, hstack]
        · simp [State.SleepsIn, hstack, hj, hnot j, Ne.symm hj]
      · by_cases hj : j = k
        · subst hj
          simpa [State.SleepsIn, hu] using h.mem_queue j u
        · simpa [State.SleepsIn, hu, hj] using h.mem_queue j u
    · intro u hu
      by_cases hut : u = t
      · subst hut
        exact ⟨k, hu, by rw [hstack]; rfl⟩
      · simp only [Function.update_of_ne hut] at hu
        obtain ⟨j, hj⟩ := h.asleep_in u hu
        exact ⟨j, by simpa [State.SleepsIn, hut] using hj⟩
    · intro j hj
      by_cases hjk : j = k
      · subst hjk
        exact ⟨∅, by simp, by simp [hz]⟩
      · simp only [Function.update_of_ne hjk] at hj ⊢
        obtain ⟨W, hW, hcard⟩ := h.woken j hj
        refine ⟨W, fun u hu => ?_, hcard⟩
        have hw := hW u hu
        have hut : u ≠ t := by
          rintro rfl
          have := hw.2.2
          rw [hstack] at this
          simp at this
          exact hjk this.symm
        simpa [State.WokenFrom, hut] using hw
  · -- the thread takes a unit; it may have been a woken one
    rename_i hz
    refine ⟨?_, ?_, ?_, ?_, ?_, ?_⟩
    · intro j
      by_cases hj : j = k
      · subst hj
        have := h.value_eq j
        simp
        omega
      · simpa [hj] using h.value_eq j
    · intro j
      by_cases hj : j = k
      · subst hj
        have := h.nonneg j
        simp
        omega
      · simpa [hj] using h.nonneg j
    · intro j
      by_cases hj : j = k
      · subst hj
        simpa using h.nodup j
      · simpa [hj] using h.nodup j
    · intro j u
      have hq : (Function.update s.semaphores k { s.semaphores k with
          value := (s.semaphores k).value - 1, downs := (s.semaphores k).downs + 1 } j).queue =
          (s.semaphores j).queue := by
        by_cases hj : j = k
        · subst hj
          simp
        · simp [hj]
      rw [hq]
      by_cases hu : u = t
      · subst hu
        simp [State.SleepsIn, ht, hnot j]
      · simpa [State.SleepsIn, hu] using h.mem_queue j u
    · intro u hu
      have hut : u ≠ t := by
        rintro rfl
        rw [ht] at hu
        cases hu
      obtain ⟨j, hj⟩ := h.asleep_in u hu
      exact ⟨j, by simpa [State.SleepsIn, hut] using hj⟩
    · intro j hj
      by_cases hjk : j = k
      · subst hjk
        simp only [Function.update_self] at hj ⊢
        obtain ⟨W, hW, hcard⟩ := h.woken j hj
        refine ⟨W.erase t, fun u hu => ?_, ?_⟩
        · have hut : u ≠ t := Finset.ne_of_mem_erase hu
          simpa [State.WokenFrom, hut] using hW u (Finset.mem_of_mem_erase hu)
        · have := Finset.pred_card_le_card_erase (s := W) (a := t)
          omega
      · simp only [Function.update_of_ne hjk] at hj ⊢
        obtain ⟨W, hW, hcard⟩ := h.woken j hj
        refine ⟨W, fun u hu => ?_, hcard⟩
        have hw := hW u hu
        have hut : u ≠ t := by
          rintro rfl
          have := hw.2.2
          rw [hstack] at this
          simp at this
          exact hjk this.symm
        simpa [State.WokenFrom, hut] using hw

/-- `V` keeps the invariant: the thread that it wakes stands for the unit that it adds. -/
theorem v (h : SemInv init s) (ht : s.asleep t = false) (hstack : s.stack t = .v k :: rest) :
    SemInv init (s.v t k rest) := by
  have hhead : ∀ {u : Tid} {j : SemId L S}, (s.stack u).head? = some (.p j) → u ≠ t := by
    rintro u j hu rfl
    rw [hstack] at hu
    cases hu
  have hnot := h.notMem_queue ht
  unfold State.v
  simp only
  split
  · rename_i hq
    refine ⟨?_, ?_, ?_, ?_, ?_, ?_⟩
    · intro j
      by_cases hj : j = k
      · subst hj
        have := h.value_eq j
        simp
        omega
      · simpa [hj] using h.value_eq j
    · intro j
      by_cases hj : j = k
      · subst hj
        have := h.nonneg j
        simp
        omega
      · simpa [hj] using h.nonneg j
    · intro j
      by_cases hj : j = k
      · subst hj
        simpa using h.nodup j
      · simpa [hj] using h.nodup j
    · intro j u
      have hqj : (Function.update s.semaphores k { s.semaphores k with
          value := (s.semaphores k).value + 1, ups := (s.semaphores k).ups + 1 } j).queue =
          (s.semaphores j).queue := by
        by_cases hj : j = k
        · subst hj
          simp
        · simp [hj]
      rw [hqj]
      by_cases hu : u = t
      · subst hu
        simp [State.SleepsIn, ht, hnot j]
      · simpa [State.SleepsIn, hu] using h.mem_queue j u
    · intro u hu
      obtain ⟨j, hj⟩ := h.asleep_in u hu
      exact ⟨j, by simpa [State.SleepsIn, hhead hj.2] using hj⟩
    · intro j hj
      by_cases hjk : j = k
      · subst hjk
        simp only [Function.update_self] at hj
        exact absurd hq hj
      · simp only [Function.update_of_ne hjk] at hj ⊢
        obtain ⟨W, hW, hcard⟩ := h.woken j hj
        refine ⟨W, fun u hu => ?_, hcard⟩
        have hw := hW u hu
        simpa [State.WokenFrom, hhead hw.2.2] using hw
  · rename_i w queue hq
    have hwk : s.SleepsIn w k := (h.mem_queue k w).mp (by rw [hq]; simp)
    have hwt : w ≠ t := hhead hwk.2
    have hnd : (w :: queue).Nodup := hq ▸ h.nodup k
    have hother : ∀ {j : SemId L S}, (s.stack w).head? = some (.p j) → j = k := by
      intro j hj
      rw [hwk.2] at hj
      cases hj
      rfl
    refine ⟨?_, ?_, ?_, ?_, ?_, ?_⟩
    · intro j
      by_cases hj : j = k
      · subst hj
        have := h.value_eq j
        simp
        omega
      · simpa [hj] using h.value_eq j
    · intro j
      by_cases hj : j = k
      · subst hj
        have := h.nonneg j
        simp
        omega
      · simpa [hj] using h.nonneg j
    · intro j
      by_cases hj : j = k
      · subst hj
        simpa using (List.nodup_cons.mp hnd).2
      · simpa [hj] using h.nodup j
    · intro j u
      by_cases huw : u = w
      · -- the woken thread has left the only queue it was in
        subst huw
        by_cases hj : j = k
        · subst hj
          simp [State.SleepsIn, (List.nodup_cons.mp hnd).1]
        · have : u ∉ (s.semaphores j).queue := by
            intro hmem
            exact hj (hother ((h.mem_queue j u).mp hmem).2)
          simp [State.SleepsIn, hj, this]
      · by_cases hu : u = t
        · subst hu
          by_cases hj : j = k
          · subst hj
            have : u ∉ queue := fun hmem => hnot j (by rw [hq]; exact List.mem_cons_of_mem w hmem)
            simp [State.SleepsIn, huw, ht, this]
          · simp [State.SleepsIn, huw, ht, hj, hnot j]
        · by_cases hj : j = k
          · subst hj
            have := h.mem_queue j u
            rw [hq] at this
            simpa [State.SleepsIn, huw, hu] using this
          · simpa [State.SleepsIn, huw, hu, hj] using h.mem_queue j u
    · intro u hu
      have huw : u ≠ w := by
        rintro rfl
        simp at hu
      simp only [Function.update_of_ne huw] at hu
      obtain ⟨j, hj⟩ := h.asleep_in u hu
      exact ⟨j, by simpa [State.SleepsIn, huw, hhead hj.2] using hj⟩
    · intro j hj
      by_cases hjk : j = k
      · subst hjk
        obtain ⟨W, hW, hcard⟩ := h.woken j (by rw [hq]; simp)
        have hwW : w ∉ W := by
          intro hmem
          have := (hW w hmem).2.1
          rw [hwk.1] at this
          cases this
        refine ⟨insert w W, fun u hu => ?_, ?_⟩
        · rcases Finset.mem_insert.mp hu with rfl | hu
          · simpa [State.WokenFrom, hwt] using hwk.2
          · have hw := hW u hu
            have huw : u ≠ w := fun e => hwW (e ▸ hu)
            simpa [State.WokenFrom, huw, hhead hw.2.2] using hw
        · rw [Finset.card_insert_of_notMem hwW]
          simp only [Function.update_self]
          push_cast
          omega
      · simp only [Function.update_of_ne hjk] at hj ⊢
        obtain ⟨W, hW, hcard⟩ := h.woken j hj
        refine ⟨W, fun u hu => ?_, hcard⟩
        have hw := hW u hu
        have huw : u ≠ w := by
          rintro rfl
          exact hjk (hother hw.2.2)
        simpa [State.WokenFrom, huw, hhead hw.2.2] using hw

/-- Every step keeps the invariant. -/
theorem step {e : Event ι} (h : SemInv init s) (hs : s.step sys e = some s') : SemInv init s' := by
  cases e with
  | call t i =>
    obtain ⟨hstack, ht, r, -, rfl⟩ := step_call_iff.mp hs
    refine h.quiet ht (by simp [hstack]) rfl rfl rfl fun u hu => ?_
    simp [State.setStack, hu]
  | exec t =>
    obtain ⟨ht, f, rest, hstack, hexec⟩ := step_exec_iff.mp hs
    have hother : ∀ u, u ≠ t → s'.stack u = s.stack u := fun u hu => execFrame_stack_other hexec hu
    by_cases hp : ∃ k, f = .p k
    · obtain ⟨k, rfl⟩ := hp
      cases hexec
      exact h.p ht hstack
    · by_cases hv : ∃ k, f = .v k
      · obtain ⟨k, rfl⟩ := hv
        cases hexec
        exact h.v ht hstack
      · obtain ⟨h1, h2, h3⟩ := execFrame_quiet hexec (fun k hk => hp ⟨k, hk⟩) fun k hk => hv ⟨k, hk⟩
        refine h.quiet ht ?_ h1 h2 h3 hother
        intro k hk
        rw [hstack] at hk
        cases hk
        exact hp ⟨k, rfl⟩

/-- The invariant in every reachable state. -/
theorem reachable (h : SemInv init s0) (hr : Reachable sys s0 s) : SemInv init s := by
  obtain ⟨es, hrun⟩ := hr
  have hall : AllSteps (State.step sys) (fun _ _ => True) s0 es := AllSteps.trivial es s0
  exact runs_inv (fun _ _ _ hI _ hs => step hI hs) h hall hrun

end SemInv

/-- Two threads call `P`, and a third one calls `V`. -/
def twoWaiters : List (Event (SemCall Unit)) :=
  [.call 0 (.p ()), .exec 0, .call 1 (.p ()), .exec 1, .call 2 (.v ()), .exec 2]

end Nachos.Synch
