import Mathlib.Algebra.Ring.Int.Defs
import Mathlib.Algebra.Ring.Nat
import Mathlib.Data.List.Basic

/-!
# Runs of a partial step function

A system is given by a partial step function on its states: `step s i` is the state after input `i`,
or `none` where the step is not defined. `runs` iterates it over a list of inputs, and `AllSteps`
says that every step of the run meets a condition on the state before it and its input.
-/

namespace Foundations

variable {σ ι ο : Type*}

/-- The state after the inputs of a list, if every step is defined. -/
def runs (step : σ → ι → Option σ) : σ → List ι → Option σ
  | s, [] => some s
  | s, i :: is => (step s i).bind fun s' => runs step s' is

/-- Every step of the run from `s` meets `P` in the state before the step. -/
def AllSteps (step : σ → ι → Option σ) (P : σ → ι → Prop) : σ → List ι → Prop
  | _, [] => True
  | s, i :: is => P s i ∧ ∀ s', step s i = some s' → AllSteps step P s' is

instance AllSteps.decidable (step : σ → ι → Option σ) (P : σ → ι → Prop)
    [∀ s, DecidablePred (P s)] : ∀ (s : σ) (is : List ι), Decidable (AllSteps step P s is)
  | _, [] => inferInstanceAs (Decidable True)
  | s, i :: is =>
    have (s' : σ) : Decidable (AllSteps step P s' is) := AllSteps.decidable step P s' is
    inferInstanceAs (Decidable (P s i ∧ ∀ s' ∈ step s i, AllSteps step P s' is))

/-- The condition that asks nothing. -/
theorem AllSteps.trivial {step : σ → ι → Option σ} (is : List ι) (s : σ) :
    AllSteps step (fun _ _ => True) s is := by
  induction is generalizing s with
  | nil => exact True.intro
  | cons i is ih => exact ⟨True.intro, fun s' _ => ih s'⟩

/-- A condition may be replaced by one that follows from it in the states of the run. -/
theorem AllSteps.mono {step : σ → ι → Option σ} {P Q : σ → ι → Prop} {I : σ → Prop}
    (hPQ : ∀ s i, I s → P s i → Q s i) (hI : ∀ s i s', I s → P s i → step s i = some s' → I s')
    {is : List ι} {s : σ} (hs : I s) (h : AllSteps step P s is) : AllSteps step Q s is := by
  induction is generalizing s with
  | nil => exact True.intro
  | cons i is ih => exact ⟨hPQ s i hs h.1, fun s' hs' => ih (hI s i s' hs h.1 hs') (h.2 s' hs')⟩

@[simp]
theorem runs_nil (step : σ → ι → Option σ) (s : σ) : runs step s [] = some s := rfl

theorem runs_cons_eq_some {step : σ → ι → Option σ} {s s' : σ} {i : ι} {is : List ι} :
    runs step s (i :: is) = some s' ↔ ∃ s1, step s i = some s1 ∧ runs step s1 is = some s' := by
  simp [runs, Option.bind_eq_some_iff]

/-- A run over `is ++ js` is a run over `is` followed by one over `js`. -/
theorem runs_append (step : σ → ι → Option σ) (s : σ) (is js : List ι) :
    runs step s (is ++ js) = (runs step s is).bind fun s' => runs step s' js := by
  induction is generalizing s with
  | nil => rfl
  | cons i is ih =>
    simp only [List.cons_append, runs]
    cases step s i with
    | none => rfl
    | some s1 => exact ih s1

/-- The invariant rule: what every step that meets `P` preserves holds after every run whose steps
all meet `P`. -/
theorem runs_inv {step : σ → ι → Option σ} {P : σ → ι → Prop} {I : σ → Prop}
    (hstep : ∀ s i s', I s → P s i → step s i = some s' → I s') :
    ∀ {is : List ι} {s s' : σ}, I s → AllSteps step P s is → runs step s is = some s' → I s' := by
  intro is
  induction is with
  | nil =>
    intro s s' hI _ hr
    cases hr
    exact hI
  | cons i is ih =>
    intro s s' hI hP hr
    obtain ⟨s1, h1, hr⟩ := runs_cons_eq_some.mp hr
    exact ih (hstep s i s1 hI hP.1 h1) (hP.2 s1 h1) hr

/-! ## Answers -/

variable {τ : Type*}

/-- The answers to a list of inputs and the state after them, if every step is defined. -/
def transcript (step : σ → ι → Option (ο × σ)) : σ → List ι → Option (List ο × σ)
  | s, [] => some ([], s)
  | s, i :: is =>
    (step s i).bind fun r => (transcript step r.2 is).map fun rs => (r.1 :: rs.1, rs.2)

/-- The answers are the same, and the states after them are related. -/
def SameAnswers (R : σ → τ → Prop) {κ : Type*} (a : κ × σ) (b : κ × τ) : Prop := a.1 = b.1 ∧ R a.2 b.2

/-- The simulation rule: if related states give the same answer to every input, or both none, and are
related after it, then they give the same answers to every list of inputs. -/
theorem transcript_rel {step : σ → ι → Option (ο × σ)} {step' : τ → ι → Option (ο × τ)}
    {R : σ → τ → Prop} (hstep : ∀ s t i, R s t → Option.Rel (SameAnswers R) (step s i) (step' t i)) :
    ∀ {is : List ι} {s : σ} {t : τ}, R s t →
      Option.Rel (SameAnswers R) (transcript step s is) (transcript step' t is) := by
  intro is
  induction is with
  | nil => exact fun hR => Option.Rel.some ⟨rfl, hR⟩
  | cons i is ih =>
    intro s t hR
    have h1 := hstep s t i hR
    unfold transcript
    generalize step s i = o at h1
    generalize step' t i = o' at h1
    cases h1 with
    | none => exact Option.Rel.none
    | @some a b hab =>
      have h2 := ih hab.2
      simp only [Option.bind_some]
      generalize transcript step a.2 is = r at h2
      generalize transcript step' b.2 is = r' at h2
      cases h2 with
      | none => exact Option.Rel.none
      | some hrs =>
        refine Option.Rel.some ⟨?_, hrs.2⟩
        show a.1 :: _ = b.1 :: _
        rw [hab.1, hrs.1]

end Foundations
