import Nachos.Threads.Proofs.ConditionProofs

/-!
# Proofs: the frames of a system

What locks and conditions add to the stacks is left out: the code of the system and the semaphores of the programs
remain. A step inside a lock or a condition changes nothing of this, so an invariant that speaks of nothing else has
to be checked for the other steps only.
-/

namespace Nachos.Synch

open Foundations

variable {L C S κ ι σ : Type} [DecidableEq L] [DecidableEq C] [DecidableEq S] {sys : System L C S κ ι σ}
  {s s' : State L C S κ σ} {t u : Tid} {f : Frame L C S κ} {rest : List (Frame L C S κ)}

/-- Is the frame one of the system: its code, or a use of a semaphore of the programs? -/
def Frame.isOwn : Frame L C S κ → Bool
  | .p (.user _) | .v (.user _) | .code _ => true
  | _ => false

/-- What the thread is going to do of the system. -/
def State.own (s : State L C S κ σ) (t : Tid) : List (Frame L C S κ) := (s.stack t).filter Frame.isOwn

/-- The value of a semaphore of the programs. -/
def State.value (s : State L C S κ σ) (k : S) : Int := (s.semaphores (.user k)).value

theorem own_of_stack (hstack : s.stack t = rest) : s.own t = rest.filter Frame.isOwn := by
  rw [State.own, hstack]

theorem own_other (hother : ∀ u, u ≠ t → s'.stack u = s.stack u) (hu : u ≠ t) : s'.own u = s.own u := by
  rw [State.own, State.own, hother u hu]

/-- A semaphore of a lock or of a `Wait` is none of the programs. -/
theorem value_p_other {k : SemId L S} (hk : ∀ n, k ≠ .user n) (n : S) : (s.p t k rest).value n = s.value n := by
  have hne : SemId.user n ≠ k := Ne.symm (hk n)
  simp only [State.value, State.p]
  split <;> simp [hne]

theorem value_v_other_sem {k : SemId L S} (hk : ∀ n, k ≠ .user n) (n : S) : (s.v t k rest).value n = s.value n := by
  have hne : SemId.user n ≠ k := Ne.symm (hk n)
  simp only [State.value, State.v]
  split <;> simp [hne]

/-- `V` on a semaphore of the programs. -/
theorem value_v_user (k n : S) : (s.v t (.user k) rest).value n = s.value n + if n = k then 1 else 0 := by
  simp only [State.value, State.v]
  split
  all_goals
    by_cases hn : n = k
    · subst hn
      simp
    · simp [hn]

/-- `P` on a semaphore of the programs: the thread stays where it is, or it takes a unit and goes on. -/
theorem p_user_cases (s : State L C S κ σ) (t : Tid) (k : S) (rest : List (Frame L C S κ)) :
    ((s.p t (.user k) rest).stack = s.stack ∧ ∀ n, (s.p t (.user k) rest).value n = s.value n) ∨
      s.value k ≠ 0 ∧ (s.p t (.user k) rest).stack = Function.update s.stack t rest ∧
        ∀ n, (s.p t (.user k) rest).value n = s.value n - if n = k then 1 else 0 := by
  by_cases hzero : (s.semaphores (.user k)).value = 0
  · refine Or.inl ⟨by simp [State.p, hzero], fun n => ?_⟩
    by_cases hn : n = k
    · subst hn
      simp [State.value, State.p, hzero]
    · simp [State.value, State.p, hzero, hn]
  · refine Or.inr ⟨hzero, by simp [State.p, hzero], fun n => ?_⟩
    by_cases hn : n = k
    · subst hn
      simp [State.value, State.p, hzero]
    · simp [State.value, State.p, hzero, hn]

/-- A step of a lock or of a condition. -/
structure Hidden (s s' : State L C S κ σ) : Prop where
  own_eq : ∀ u, s'.own u = s.own u
  value_eq : ∀ n, s'.value n = s.value n
  shared_eq : s'.shared = s.shared

theorem hidden_of_stack (frames : List (Frame L C S κ)) (hother : ∀ u, u ≠ t → s'.stack u = s.stack u)
    (hstack : s.stack t = f :: rest) (hf : f.isOwn = false) (hafter : s'.stack t = frames ++ rest)
    (hframes : frames.filter Frame.isOwn = []) (hsem : ∀ n, s'.value n = s.value n) (hshared : s'.shared = s.shared) :
    Hidden s s' := by
  refine ⟨fun u => ?_, hsem, hshared⟩
  by_cases hu : u = t
  · subst hu
    rw [own_of_stack hafter, own_of_stack hstack, List.filter_append, hframes, List.filter_cons_of_neg (by simp [hf])]
    rfl
  · exact own_other hother hu

/-- A frame that is not of the system makes a hidden step. -/
theorem execFrame_hidden (hstack : s.stack t = f :: rest) (hf : f.isOwn = false)
    (h : s.execFrame sys t f rest = some s') : Hidden s s' := by
  have hother : ∀ u, u ≠ t → s'.stack u = s.stack u := fun u hu => execFrame_stack_other h hu
  have hshared : s'.shared = s.shared := execFrame_shared h (by rintro k rfl; cases hf)
  have hsame : (∀ k, f ≠ .p k) → (∀ k, f ≠ .v k) → ∀ n, s'.value n = s.value n := by
    intro hp hv n
    rw [State.value, State.value, (execFrame_quiet h hp hv).1]
  cases f with
  | code k => cases hf
  | p k =>
    have hk : ∀ n, k ≠ .user n := by
      rintro n rfl
      cases hf
    cases h
    rcases (p_same s t k rest).2.2.2.2 with hst | hst
    · refine ⟨fun u => ?_, value_p_other hk, hshared⟩
      by_cases hu : u = t
      · subst hu
        rw [State.own, hst]
        rfl
      · exact own_other hother hu
    · exact hidden_of_stack [] hother hstack hf hst rfl (value_p_other hk) hshared
  | v k =>
    have hk : ∀ n, k ≠ .user n := by
      rintro n rfl
      cases hf
    cases h
    exact hidden_of_stack [] hother hstack hf (v_same s t k rest).2.2.2.2 rfl (value_v_other_sem hk) hshared
  | own l | waitReturn c n =>
    have hvalue := hsame (by simp) (by simp)
    cases h
    exact hidden_of_stack [] hother hstack hf (by simp [State.setStack, State.addLog]) rfl hvalue hshared
  | acquire l =>
    have hvalue := hsame (by simp) (by simp)
    simp only [State.execFrame] at h
    split at h
    · cases h
    · cases h
      exact hidden_of_stack [.p (.lock l), .own l] hother hstack hf (by simp [State.setStack]) rfl hvalue
        hshared
  | release l =>
    have hvalue := hsame (by simp) (by simp)
    simp only [State.execFrame] at h
    split at h
    · cases h
      exact hidden_of_stack [.v (.lock l)] hother hstack hf (by simp [State.setStack]) rfl hvalue hshared
    · cases h
  | wait c =>
    have hvalue := hsame (by simp) (by simp)
    simp only [State.execFrame] at h
    split at h
    · cases h
      exact hidden_of_stack [.release (sys.lockOf c), .p (.sleeper s.sleepers), .acquire (sys.lockOf c),
        .waitReturn c s.sleepers] hother hstack hf (by simp [State.setStack]) rfl hvalue hshared
    · cases h
  | signal c =>
    have hvalue := hsame (by simp) (by simp)
    simp only [State.execFrame] at h
    split at h
    · split at h
      · cases h
        exact hidden_of_stack [] hother hstack hf (by simp [State.setStack]) rfl hvalue hshared
      · rename_i n q hq
        cases h
        exact hidden_of_stack [.v (.sleeper n)] hother hstack hf (by simp [State.setStack]) rfl hvalue
          hshared
    · cases h
  | broadcast c progress =>
    have hvalue := hsame (by simp) (by simp)
    simp only [State.execFrame] at h
    split at h
    · cases h
      exact hidden_of_stack [] hother hstack hf (by simp [State.setStack, State.addLog]) rfl hvalue hshared
    · rename_i n q hq
      split at h
      · cases h
        exact hidden_of_stack [.v (.sleeper n), .broadcast c _] hother hstack hf
          (by simp [State.setStack]; rfl) rfl hvalue hshared
      · cases h

/-- A step of the code: the state of the system changes, and the frames that come next take the place of the code. -/
theorem execFrame_code {k : κ} (h : s.execFrame sys t (.code k) rest = some s') :
    ∃ r, sys.exec k t s.shared = some r ∧ s'.shared = r.1 ∧ s'.stack = Function.update s.stack t (r.2 ++ rest) ∧
      ∀ n, s'.value n = s.value n := by
  simp only [State.execFrame, Option.map_eq_some_iff] at h
  obtain ⟨r, hr, rfl⟩ := h
  exact ⟨r, hr, rfl, rfl, fun _ => rfl⟩

/-- What a step can do: it is hidden, a call, a piece of code, or a use of a semaphore of the programs. -/
inductive Seen (sys : System L C S κ ι σ) (s s' : State L C S κ σ) : Prop where
  | hidden : Hidden s s' → Seen sys s s'
  | call (t : Tid) (i : ι) (r : σ × List (Frame L C S κ)) : s.stack t = [] → sys.call i t s.shared = some r →
      s'.stack = Function.update s.stack t r.2 → s'.shared = r.1 → (∀ n, s'.value n = s.value n) → Seen sys s s'
  | code (t : Tid) (k : κ) (rest : List (Frame L C S κ)) (r : σ × List (Frame L C S κ)) :
      s.stack t = .code k :: rest → sys.exec k t s.shared = some r →
      s'.stack = Function.update s.stack t (r.2 ++ rest) → s'.shared = r.1 → (∀ n, s'.value n = s.value n) → Seen sys s s'
  | up (t : Tid) (k : S) (rest : List (Frame L C S κ)) : s.stack t = .v (.user k) :: rest →
      s'.stack = Function.update s.stack t rest → s'.shared = s.shared →
      (∀ n, s'.value n = s.value n + if n = k then 1 else 0) → Seen sys s s'
  | down (t : Tid) (k : S) (rest : List (Frame L C S κ)) : s.stack t = .p (.user k) :: rest → s.value k ≠ 0 →
      s'.stack = Function.update s.stack t rest → s'.shared = s.shared →
      (∀ n, s'.value n = s.value n - if n = k then 1 else 0) → Seen sys s s'

theorem step_seen {e : Event ι} (h : s.step sys e = some s') : Seen sys s s' := by
  cases e with
  | call t i =>
    obtain ⟨hstack, -, r, hr, rfl⟩ := step_call_iff.mp h
    exact .call t i r hstack hr rfl rfl fun _ => rfl
  | exec t =>
    obtain ⟨-, f, rest, hstack, hexec⟩ := step_exec_iff.mp h
    cases hown : f.isOwn with
    | false => exact .hidden (execFrame_hidden hstack hown hexec)
    | true =>
      cases f with
      | code k =>
        obtain ⟨r, hr, hshared, hst, hvalue⟩ := execFrame_code hexec
        exact .code t k rest r hstack hr hst hshared hvalue
      | p k =>
        cases k with
        | user k =>
          cases hexec
          rcases p_user_cases s t k rest with ⟨hst, hvalue⟩ | ⟨hne, hst, hvalue⟩
          · exact .hidden ⟨fun u => by rw [State.own, State.own, hst], hvalue, (p_same s t (.user k) rest).1⟩
          · exact .down t k rest hstack hne hst (p_same s t (.user k) rest).1 hvalue
        | lock l => cases hown
        | sleeper n => cases hown
      | v k =>
        cases k with
        | user k =>
          have hother : ∀ u, u ≠ t → s'.stack u = s.stack u := fun u hu => execFrame_stack_other hexec hu
          cases hexec
          refine .up t k rest hstack ?_ (v_same s t (.user k) rest).1 (value_v_user k)
          funext u
          by_cases hu : u = t
          · subst hu
            rw [Function.update_self]
            exact (v_same s u (.user k) rest).2.2.2.2
          · rw [Function.update_of_ne hu]
            exact hother u hu
        | lock l => cases hown
        | sleeper n => cases hown
      | own l => cases hown
      | waitReturn c n => cases hown
      | acquire l => cases hown
      | release l => cases hown
      | wait c => cases hown
      | signal c => cases hown
      | broadcast c progress => cases hown

end Nachos.Synch
