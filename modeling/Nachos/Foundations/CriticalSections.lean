import Nachos.Foundations.Resumption
import Nachos.Foundations.Runs
import Mathlib.Logic.Function.Basic

/-!
# Critical sections

Threads make calls on a shared state. Each call waits until nobody is inside, enters, and leaves when it
returns; what it reads before is not changed by anybody inside. Then every interleaving ends as the
calls end when they are made one after another, in the order in which they entered.
-/

namespace Foundations

open Resumption

/-! ## Interleavings -/

section Interleaving

variable {σ α β ι τ : Type}

namespace Resumption

theorem bind_assoc {γ : Type} (m : Resumption σ α) (f : α → Resumption σ β) (g : β → Resumption σ γ) :
    (m.bind f).bind g = m.bind fun a => (f a).bind g := by
  induction m with
  | ret a => rfl
  | fail => rfl
  | get k ih => exact congrArg Resumption.get (funext ih)
  | put s k ih => exact congrArg (Resumption.put s) ih
  | await c k ih => exact congrArg (Resumption.await c) ih

/-- A thread is advanced until it has returned, has failed or waits. -/
theorem advance_cases (m : Resumption σ α) (s : σ) :
    (∃ a, (m.advance s).1 = ret a) ∨ (m.advance s).1 = fail ∨ ∃ c k, (m.advance s).1 = await c k := by
  induction m generalizing s with
  | ret a => exact Or.inl ⟨a, rfl⟩
  | fail => exact Or.inr (Or.inl rfl)
  | get k ih => exact ih s s
  | put s' k ih => exact ih s'
  | await c k ih => exact Or.inr (Or.inr ⟨c, k, rfl⟩)

theorem run_advance (m : Resumption σ α) (s : σ) :
    (m.advance s).1.run (m.advance s).2 = m.run s := by
  induction m generalizing s with
  | ret a => rfl
  | fail => rfl
  | get k ih => exact ih s s
  | put s' k ih => exact ih s'
  | await c k ih => rfl

/-- How far a composition gets. -/
theorem advance_bind (m : Resumption σ α) (f : α → Resumption σ β) (s : σ) :
    (m.bind f).advance s = match m.advance s with
      | (ret a, s') => (f a).advance s'
      | (r, s') => (r.bind f, s') := by
  induction m generalizing s with
  | ret a => rfl
  | fail => rfl
  | get k ih => exact ih s s
  | put s' k ih => exact ih s'
  | await c k ih => rfl

/-- What a thread that has returned answers. -/
def answer : Resumption σ α → Option α
  | ret a => some a
  | _ => none

theorem eq_ret_of_answer {m : Resumption σ α} {a : α} (h : m.answer = some a) : m = ret a := by
  cases m with
  | ret b =>
    cases h
    rfl
  | _ => cases h

/-- A first thread that does not wait. -/
theorem advance_bind_ret {m : Resumption σ α} {f : α → Resumption σ β} {s s' : σ} {a : α}
    (h : m.advance s = (ret a, s')) : (m >>= f).advance s = (f a).advance s' := by
  show (m.bind f).advance s = _
  rw [advance_bind, h]

end Resumption

/-- A thread that makes calls one after another; other threads may run before each. -/
def callAll (code : ι → Resumption σ α) : List ι → Resumption σ (List α)
  | [] => ret []
  | i :: is => Resumption.bind yield fun _ => (code i).bind fun a =>
    (callAll code is).bind fun as => ret (a :: as)

/-- Threads and the state that they share. -/
structure Config (τ σ α : Type) where
  threads : τ → Resumption σ (List α)
  state : σ
  /-- The threads in the order in which they entered, once for each call. -/
  order : List τ

variable [DecidableEq τ]

/-- The thread `t` is resumed; `holder` says who is inside. -/
def Config.step (holder : σ → Option τ) (cfg : Config τ σ α) (t : τ) : Option (Config τ σ α) :=
  ((cfg.threads t).resume cfg.state).map fun r =>
    { threads := Function.update cfg.threads t r.1
      state := r.2
      order := if holder cfg.state ≠ some t ∧ holder r.2 = some t then cfg.order ++ [t]
        else cfg.order }

/-- A thread that is not resumed stays where it is. -/
theorem Config.threads_of_notMem {holder : σ → Option τ} {t : τ} {schedule : List τ}
    {cfg cfg' : Config τ σ α} (ht : t ∉ schedule) (h : runs (Config.step holder) cfg schedule = some cfg') :
    cfg'.threads t = cfg.threads t := by
  induction schedule generalizing cfg with
  | nil =>
    cases h
    rfl
  | cons u schedule ih =>
    obtain ⟨cfg1, hstep, hrest⟩ := runs_cons_eq_some.mp h
    obtain ⟨r, -, rfl⟩ := Option.map_eq_some_iff.mp hstep
    rw [List.mem_cons, not_or] at ht
    exact (ih ht.2 hrest).trans (Function.update_of_ne ht.1 _ _)

/-- The threads before their first calls. -/
def Config.start (code : τ → ι → Resumption σ α) (calls : τ → List ι) (s : σ) : Config τ σ α where
  threads := fun t => callAll (code t) (calls t)
  state := s
  order := []

/-- Calls made one after another: the state, what each thread has still to call, and the answers that it
got. -/
structure Serial (τ σ ι α : Type) where
  state : σ
  calls : τ → List ι
  answers : τ → List α

/-- The thread `t` makes its next call, alone. -/
def Serial.step (code : τ → ι → Resumption σ α) (sc : Serial τ σ ι α) (t : τ) :
    Option (Serial τ σ ι α) :=
  match sc.calls t with
  | [] => none
  | i :: is => ((code t i).run sc.state).map fun r =>
    { state := r.2
      calls := Function.update sc.calls t is
      answers := Function.update sc.answers t (sc.answers t ++ [r.1]) }

/-- No call has been made. -/
def Serial.start (calls : τ → List ι) (s : σ) : Serial τ σ ι α where
  state := s
  calls := calls
  answers := fun _ => []

end Interleaving

/-! ## Serialisation -/

section Guarded

variable {σ α ι τ : Type} [DecidableEq τ]

/-- The calls of the threads with `A` are critical sections: where `P` holds and the thread is not inside, a call gets as far as
waiting for `free` and changes nothing; then it is the holder until it waits for the first time; inside,
`P` holds and the thread is the holder wherever it waits; at the end nobody is inside. -/
structure Guarded (A : τ → Prop) (code enter : τ → ι → Resumption σ α) (holder : σ → Option τ)
    (free : σ → Bool) (P : σ → Prop) : Prop where
  free_iff : ∀ s, P s → (free s = true ↔ holder s = none)
  outside : ∀ t i s, A t → P s → holder s ≠ some t →
    (code t i).advance s = (await free (enter t i), s)
  entered : ∀ t i s, A t → P s → holder s = none → holder ((enter t i).advance s).2 = some t
  inside : ∀ t i s, A t → P s → holder s = none →
    (enter t i).Along (fun s' => P s' ∧ holder s' = some t) s
  leave : ∀ t i s a s', A t → P s → holder s = none → (enter t i).run s = some (a, s') →
    P s' ∧ holder s' = none

variable {A : τ → Prop} {code enter : τ → ι → Resumption σ α} {holder : σ → Option τ}
  {free : σ → Bool} {P : σ → Prop}

/-- What the thread `t` does that has still the calls `is` to make and got the answers `as`. -/
def remaining (code : τ → ι → Resumption σ α) (t : τ) (is : List ι) (as : List α) :
    Resumption σ (List α) := (callAll (code t) is).bind fun bs => ret (as ++ bs)

theorem remaining_cons (code : τ → ι → Resumption σ α) (t : τ) (i : ι) (is : List ι) (as : List α) :
    remaining code t (i :: is) as =
      await (fun _ => true) ((code t i).bind fun a => remaining code t is (as ++ [a])) := by
  unfold remaining
  simp only [callAll, yield, awaitUntil, Resumption.bind, bind_assoc, List.append_assoc,
    List.cons_append, List.nil_append]

/-- A thread that is not inside: between two calls, or waiting to enter. -/
def Outside (A : τ → Prop) (code enter : τ → ι → Resumption σ α) (free : σ → Bool) (t : τ)
    (is : List ι) (as : List α) (r : Resumption σ (List α)) : Prop :=
  (is ≠ [] → A t) ∧ (r = remaining code t is as ∨
    ∃ i is', is = i :: is' ∧
      r = await free ((enter t i).bind fun a => remaining code t is' (as ++ [a])))

/-- The thread `t` is inside, and its call will end as the call made from `s0` does. -/
structure Inside (code : τ → ι → Resumption σ α) (holder : σ → Option τ) (P : σ → Prop) (t : τ) (i : ι)
    (is : List ι) (as : List α) (s0 s : σ) (r : Resumption σ (List α)) : Prop where
  call : ∃ c k, r = (await c k).bind (fun a => remaining code t is (as ++ [a])) ∧
    (await c k).run s = (code t i).run s0 ∧
    (await c k).Along (fun s' => P s' ∧ holder s' = some t) s ∧
    ∀ a s', (await c k).run s = some (a, s') → P s' ∧ holder s' = none

/-- Where an interleaving is, against the calls made one after another from `sc0`. -/
inductive Follows (A : τ → Prop) (code enter : τ → ι → Resumption σ α) (holder : σ → Option τ)
    (free : σ → Bool) (P : σ → Prop) (sc0 : Serial τ σ ι α) (cfg : Config τ σ α) : Prop where
  /-- Nobody is inside. -/
  | open (sc : Serial τ σ ι α) : P cfg.state → holder cfg.state = none →
    runs (Serial.step code) sc0 cfg.order = some sc → sc.state = cfg.state →
    (∀ t, Outside A code enter free t (sc.calls t) (sc.answers t) (cfg.threads t)) → Follows ..
  /-- The thread `t` is inside. -/
  | held (sc : Serial τ σ ι α) (t : τ) (i : ι) (is : List ι) (order : List τ) : P cfg.state →
    holder cfg.state = some t → cfg.order = order ++ [t] →
    runs (Serial.step code) sc0 order = some sc → sc.calls t = i :: is → A t →
    (∀ u, u ≠ t → Outside A code enter free u (sc.calls u) (sc.answers u) (cfg.threads u)) →
    Inside code holder P t i is (sc.answers t) sc.state cfg.state (cfg.threads t) → Follows ..
  /-- A thread failed, and so does its call when the calls are made one after another. -/
  | failed (t : τ) : cfg.threads t = fail → runs (Serial.step code) sc0 cfg.order = none → Follows ..

theorem remaining_nil (code : τ → ι → Resumption σ α) (t : τ) (as : List α) :
    remaining code t [] as = ret as := by
  simp only [remaining, callAll, Resumption.bind, List.append_nil]

theorem remaining_advance (code : τ → ι → Resumption σ α) (t : τ) (is : List ι) (as : List α) (s : σ) :
    (remaining code t is as).advance s = (remaining code t is as, s) := by
  cases is with
  | nil =>
    rw [remaining_nil]
    rfl
  | cons i is =>
    rw [remaining_cons]
    rfl

namespace Guarded

variable {t u : τ} {i : ι} {is : List ι} {as : List α} {s : σ}

/-- A call that can enter does what is left of it. -/
theorem run_enter (hg : Guarded A code enter holder free P) (hA : A t) (hP : P s)
    (hnone : holder s = none) : (code t i).run s = (enter t i).run s := by
  have hadv := hg.outside t i s hA hP (by rw [hnone]; exact Option.some_ne_none t ∘ Eq.symm)
  rw [← run_advance (code t i) s, hadv]
  simp only [Resumption.run, (hg.free_iff s hP).mpr hnone, if_true]

/-- A thread that is not inside is resumed: it waits to enter afterwards, or it enters. -/
theorem resume_outside (hg : Guarded A code enter holder free P) (hP : P s) (hne : holder s ≠ some t)
    {r : Resumption σ (List α)} {r' : Resumption σ (List α) × σ}
    (hout : Outside A code enter free t is as r) (hr : r.resume s = some r') :
    (Outside A code enter free t is as r'.1 ∧ r'.2 = s) ∨
      ∃ i is', is = i :: is' ∧ holder s = none ∧
        r' = ((enter t i).bind fun a => remaining code t is' (as ++ [a])).advance s := by
  obtain ⟨hA, rfl | ⟨i, is', rfl, rfl⟩⟩ := hout
  · cases is with
    | nil =>
      rw [remaining_nil] at hr
      cases hr
    | cons i is =>
      rw [remaining_cons] at hr
      simp only [resume, if_true, Option.some.injEq] at hr
      rw [advance_bind, hg.outside t i s (hA (List.cons_ne_nil i is)) hP hne] at hr
      subst hr
      exact Or.inl ⟨⟨hA, Or.inr ⟨i, is, rfl, rfl⟩⟩, rfl⟩
  · simp only [resume] at hr
    split at hr
    · rename_i hfree
      exact Or.inr ⟨i, is', rfl, (hg.free_iff s hP).mp hfree, (Option.some.inj hr).symm⟩
    · cases hr

end Guarded

namespace Follows

variable {sc0 : Serial τ σ ι α} {cfg cfg' : Config τ σ α} {t : τ}

theorem start (calls : τ → List ι) (s : σ) (hA : ∀ t, calls t ≠ [] → A t) (hP : P s)
    (hnone : holder s = none) :
    Follows A code enter holder free P (Serial.start calls s) (Config.start code calls s) := by
  refine .open (Serial.start calls s) hP hnone rfl rfl fun t => ⟨hA t, Or.inl ?_⟩
  have : ∀ m : Resumption σ (List α), m = m.bind fun bs => ret ([] ++ bs) := by
    intro m
    induction m with
    | ret a => rfl
    | fail => rfl
    | get k ih => exact congrArg Resumption.get (funext ih)
    | put s k ih => exact congrArg (Resumption.put s) ih
    | await c k ih => exact congrArg (Resumption.await c) ih
  exact this _

/-- The answers to the calls in `order` after one more by `t`. -/
theorem runs_order {order : List τ} {sc : Serial τ σ ι α} (t : τ)
    (h : runs (Serial.step code) sc0 order = some sc) :
    runs (Serial.step code) sc0 (order ++ [t]) = sc.step code t := by
  rw [runs_append, h]
  simp only [Option.bind_some, runs]
  cases sc.step code t <;> rfl

/-- The thread `t`, which is inside and has still to do `m` of its call, goes on as far as it gets. -/
theorem goOn {sc : Serial τ σ ι α} {order : List τ} {threads : τ → Resumption σ (List α)} {i : ι}
    {is : List ι} {m : Resumption σ α} {s : σ} (hruns : runs (Serial.step code) sc0 order = some sc)
    (hcalls : sc.calls t = i :: is) (hA : A t)
    (hout : ∀ u, u ≠ t → Outside A code enter free u (sc.calls u) (sc.answers u) (threads u))
    (halong : m.Along (fun s' => P s' ∧ holder s' = some t) s)
    (hrun : m.run s = (code t i).run sc.state)
    (hleave : ∀ a s', m.run s = some (a, s') → P s' ∧ holder s' = none) :
    Follows A code enter holder free P sc0
      { threads := Function.update threads t
          ((m.bind fun a => remaining code t is (sc.answers t ++ [a])).advance s).1
        state := ((m.bind fun a => remaining code t is (sc.answers t ++ [a])).advance s).2
        order := order ++ [t] } := by
  have halong' := halong.advance
  have hrun' := run_advance m s
  have hends := advance_cases m s
  rw [advance_bind]
  generalize m.advance s = r at halong' hrun' hends ⊢
  obtain ⟨m', s'⟩ := r
  have hstep : sc.step code t = (m'.run s').map fun r =>
      { state := r.2
        calls := Function.update sc.calls t is
        answers := Function.update sc.answers t (sc.answers t ++ [r.1]) } := by
    rw [Serial.step, hcalls]
    dsimp only
    rw [← hrun, ← hrun']
  have hothers : ∀ u r, u ≠ t → Outside A code enter free u (sc.calls u) (sc.answers u)
      (Function.update threads t r u) := by
    intro u r hu
    rw [Function.update_of_ne hu]
    exact hout u hu
  cases m' with
  | ret a =>
    -- the call returns, and the thread comes to its next one
    obtain ⟨hP, hnone⟩ := hleave a s' hrun'.symm
    dsimp only
    rw [remaining_advance]
    refine .open _ hP hnone ((runs_order t hruns).trans hstep) rfl fun u => ?_
    dsimp only
    by_cases hu : u = t
    · subst hu
      rw [Function.update_self, Function.update_self, Function.update_self]
      exact ⟨fun _ => hA, Or.inl rfl⟩
    · rw [Function.update_of_ne hu, Function.update_of_ne hu]
      exact hothers u _ hu
  | fail =>
    refine .failed t (Function.update_self ..) ?_
    exact (runs_order t hruns).trans hstep
  | await c k =>
    obtain ⟨hP, hheld⟩ := halong'.1
    refine .held sc t i is order hP hheld rfl hruns hcalls hA (fun u hu => hothers u _ hu)
      ⟨c, k, ?_, ?_⟩
    · exact Function.update_self ..
    · refine ⟨hrun'.trans hrun, halong', fun a s'' hr => hleave a s'' ?_⟩
      rw [← hr]
      exact hrun'.symm
  | get k => rcases hends with ⟨_, h⟩ | h | ⟨_, _, h⟩ <;> cases h
  | put s'' k => rcases hends with ⟨_, h⟩ | h | ⟨_, _, h⟩ <;> cases h

/-- One more thread is resumed. -/
theorem step (hg : Guarded A code enter holder free P)
    (h : Follows A code enter holder free P sc0 cfg) (hs : cfg.step holder t = some cfg') :
    Follows A code enter holder free P sc0 cfg' := by
  obtain ⟨r', hr, rfl⟩ := Option.map_eq_some_iff.mp hs
  cases h with
  | «open» sc hP hnone hruns hstate hout =>
    have hne : holder cfg.state ≠ some t := by
      rw [hnone]
      exact Option.some_ne_none t ∘ Eq.symm
    rcases hg.resume_outside hP hne (hout t) hr with ⟨hout', hsame⟩ | ⟨i, is, hcalls, -, rfl⟩
    · -- it comes as far as waiting
      refine .open sc (by rwa [hsame]) (by rwa [hsame]) ?_ (by rw [hsame]; exact hstate) ?_
      · dsimp only
        rw [if_neg (by rw [hsame]; exact fun hc => hne hc.2)]
        exact hruns
      · intro u
        dsimp only
        by_cases hu : u = t
        · subst hu
          rwa [Function.update_self]
        · rw [Function.update_of_ne hu]
          exact hout u
    · -- it enters
      have hA : A t := (hout t).1 (by rw [hcalls]; exact List.cons_ne_nil i is)
      have hent : holder ((((enter t i).bind fun a =>
          remaining code t is (sc.answers t ++ [a])).advance cfg.state).2) = some t := by
        have hentered := hg.entered t i cfg.state hA hP hnone
        have hrun := run_advance (enter t i) cfg.state
        rw [advance_bind]
        generalize (enter t i).advance cfg.state = r at hentered hrun ⊢
        obtain ⟨m', s'⟩ := r
        cases m' with
        | ret a =>
          -- it cannot have left already
          have hleft := (hg.leave t i cfg.state a s' hA hP hnone hrun.symm).2
          rw [hleft] at hentered
          cases hentered
        | _ => exact hentered
      rw [if_pos ⟨hne, hent⟩]
      refine goOn hruns hcalls hA (fun u _ => hout u) (hg.inside t i cfg.state hA hP hnone) ?_
        (fun a s' => hg.leave t i cfg.state a s' hA hP hnone)
      rw [hstate, hg.run_enter hA hP hnone]
  | held sc t' i is order hP hheld horder hruns hcalls hA hout hin =>
    by_cases ht : t = t'
    · subst ht
      obtain ⟨c, k, hthread, hrun, halong, hleave⟩ := hin
      rw [hthread] at hr
      simp only [Resumption.bind, resume] at hr
      split at hr
      · rename_i hc
        cases hr
        rw [if_neg (fun hc => hc.1 hheld), horder]
        have hrun_k : (await c k).run cfg.state = k.run cfg.state := by
          simp only [Resumption.run, hc, if_true]
        rw [hrun_k] at hrun hleave
        exact goOn hruns hcalls hA hout (halong.2 hc) hrun hleave
      · cases hr
    · have hne : holder cfg.state ≠ some t := by
        rw [hheld]
        exact fun e => ht (Option.some.inj e).symm
      rcases hg.resume_outside hP hne (hout t ht) hr with ⟨hout', hsame⟩ | ⟨i, is, -, hnone, -⟩
      · have hthread : Function.update cfg.threads t r'.1 t' = cfg.threads t' :=
          Function.update_of_ne (Ne.symm ht) ..
        refine .held sc t' i is order (by rwa [hsame]) (by rwa [hsame]) ?_ hruns hcalls hA ?_ ?_
        · dsimp only
          rw [if_neg (by rw [hsame]; exact fun hc => hne hc.2)]
          exact horder
        · intro u hu
          dsimp only
          by_cases hut : u = t
          · subst hut
            rwa [Function.update_self]
          · rw [Function.update_of_ne hut]
            exact hout u hu
        · dsimp only
          rw [hthread, hsame]
          exact hin
      · rw [hnone] at hheld
        cases hheld
  | failed t' hfail hruns =>
    have ht : t' ≠ t := by
      rintro rfl
      rw [hfail] at hr
      cases hr
    refine .failed t' ?_ ?_
    · dsimp only
      rw [Function.update_of_ne ht]
      exact hfail
    · dsimp only
      split
      · rw [runs_append, hruns]
        rfl
      · exact hruns

theorem runs (hg : Guarded A code enter holder free P) {schedule : List τ}
    (h : Follows A code enter holder free P sc0 cfg)
    (hr : Foundations.runs (Config.step holder) cfg schedule = some cfg') :
    Follows A code enter holder free P sc0 cfg' :=
  runs_inv (fun _ _ _ hI _ hs => step hg hI hs) h (AllSteps.trivial schedule cfg) hr

end Follows

variable {calls : τ → List ι} {s : σ} {schedule : List τ} {cfg : Config τ σ α}

/-- An interleaving in which every thread returns ends as the calls do when they are made one after
another in the order in which they entered. -/
theorem Guarded.serialisable (hg : Guarded A code enter holder free P)
    (hA : ∀ t, calls t ≠ [] → A t) (hP : P s) (hnone : holder s = none)
    (hr : runs (Config.step holder) (Config.start code calls s) schedule = some cfg)
    {answers : τ → List α} (hdone : ∀ t, cfg.threads t = ret (answers t)) :
    runs (Serial.step code) (Serial.start calls s) cfg.order =
      some { state := cfg.state, calls := fun _ => [], answers := answers } := by
  cases (Follows.start calls s hA hP hnone).runs hg hr with
  | «open» sc _ _ hruns hstate hout =>
    have hend : ∀ t, sc.calls t = [] ∧ sc.answers t = answers t := by
      intro t
      rcases (hout t).2 with hrem | ⟨i, is, -, hwait⟩
      · rw [hdone t] at hrem
        cases hcalls : sc.calls t with
        | nil =>
          rw [hcalls, remaining_nil, ret.injEq] at hrem
          exact ⟨rfl, hrem.symm⟩
        | cons i is =>
          rw [hcalls, remaining_cons] at hrem
          cases hrem
      · rw [hdone t] at hwait
        cases hwait
    rw [hruns]
    obtain ⟨state, calls, answers'⟩ := sc
    have hcalls : calls = fun _ => [] := funext fun t => (hend t).1
    have hanswers : answers' = answers := funext fun t => (hend t).2
    have hstate' : state = cfg.state := hstate
    rw [hcalls, hanswers, hstate']
  | held sc t i is order _ _ _ _ _ _ _ hin =>
    obtain ⟨c, k, hthread, -⟩ := hin
    rw [hdone t] at hthread
    cases hthread
  | failed t hfail _ =>
    rw [hdone t] at hfail
    cases hfail

/-- As long as not every thread has returned, one of them can be resumed, unless the calls that entered
do not return when they are made one after another. -/
theorem Guarded.progress (hg : Guarded A code enter holder free P) (hA : ∀ t, calls t ≠ [] → A t)
    (hP : P s) (hnone : holder s = none)
    (hr : runs (Config.step holder) (Config.start code calls s) schedule = some cfg) :
    (∃ answers : τ → List α, ∀ t, cfg.threads t = ret (answers t)) ∨
      (∃ t, (cfg.step holder t).isSome) ∨
      runs (Serial.step code) (Serial.start calls s) cfg.order = none := by
  cases (Follows.start calls s hA hP hnone).runs hg hr with
  | «open» sc hP' hnone' _ _ hout =>
    by_cases hend : ∀ t, sc.calls t = [] ∧ cfg.threads t = remaining code t [] (sc.answers t)
    · refine Or.inl ⟨sc.answers, fun t => ?_⟩
      rw [(hend t).2, remaining_nil]
    · rw [not_forall] at hend
      obtain ⟨t, ht⟩ := hend
      refine Or.inr (Or.inl ⟨t, ?_⟩)
      rw [Config.step, Option.isSome_map]
      rcases (hout t).2 with hrem | ⟨i, is, -, hwait⟩
      · cases hcalls : sc.calls t with
        | nil =>
          rw [hcalls] at hrem
          exact absurd ⟨hcalls, hrem⟩ ht
        | cons i is =>
          rw [hrem, hcalls, remaining_cons]
          rfl
      · rw [hwait]
        simp only [resume, (hg.free_iff cfg.state hP').mpr hnone', if_true, Option.isSome_some]
  | held sc t i is order _ _ horder hruns hcalls _ _ hin =>
    obtain ⟨c, k, hthread, hrun, -, -⟩ := hin
    by_cases hc : c cfg.state = true
    · refine Or.inr (Or.inl ⟨t, ?_⟩)
      rw [Config.step, Option.isSome_map, hthread]
      simp only [Resumption.bind, resume, hc, if_true, Option.isSome_some]
    · -- what the thread waits for will not happen, so its call does not return
      refine Or.inr (Or.inr ?_)
      have hstuck : (code t i).run sc.state = none := by
        rw [← hrun]
        simp only [Resumption.run, hc]
        rfl
      rw [horder, Follows.runs_order t hruns, Serial.step, hcalls]
      dsimp only
      rw [hstuck]
      rfl
  | failed _ _ hruns => exact Or.inr (Or.inr hruns)

end Guarded

end Foundations
