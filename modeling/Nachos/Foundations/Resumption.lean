import Mathlib.Algebra.Ring.Int.Defs
import Mathlib.Algebra.Ring.Nat
import Mathlib.Data.List.Basic
import Mathlib.Data.Option.Basic

/-!
# Resumptions

A thread that works on a shared state is a resumption: it has returned, has failed, reads the state,
replaces the state, or waits. `await c` is the only place where another thread may run: the thread
goes on in a later state in which `c` holds. `run` executes a resumption with no other thread around;
`advance` executes it up to its next `await`, which is one step of an interleaving.
-/

namespace Foundations

/-- A thread over states of type `σ` that returns an `α`. -/
inductive Resumption (σ α : Type) where
  /-- The thread returns `a`. -/
  | ret (a : α)
  /-- The thread fails (an assertion is violated or the behaviour is undefined). -/
  | fail
  /-- The thread reads the state. -/
  | get (k : σ → Resumption σ α)
  /-- The thread replaces the state. -/
  | put (s : σ) (k : Resumption σ α)
  /-- The thread waits until it is scheduled in a state with `c`. -/
  | await (c : σ → Bool) (k : Resumption σ α)

namespace Resumption

variable {σ α β : Type}

/-- Sequential composition. -/
def bind : Resumption σ α → (α → Resumption σ β) → Resumption σ β
  | ret a, f => f a
  | fail, _ => fail
  | get k, f => get fun s => (k s).bind f
  | put s k, f => put s (k.bind f)
  | await c k, f => await c (k.bind f)

instance : Monad (Resumption σ) where
  pure := ret
  bind := bind

/-- The current state. -/
def getState : Resumption σ σ := get ret

/-- Change the state. -/
def modifyState (f : σ → σ) : Resumption σ Unit := get fun s => put (f s) (ret ())

/-- Wait for a state with `c`. -/
def awaitUntil (c : σ → Bool) : Resumption σ Unit := await c (ret ())

/-- A point at which another thread may run. -/
def yield : Resumption σ Unit := awaitUntil fun _ => true

/-- Fail unless `c`. -/
def assert (c : Bool) : Resumption σ Unit := if c then ret () else fail

/-- The value of an option; `none` is a failure. -/
def ofOption : Option α → Resumption σ α
  | some a => ret a
  | none => fail

/-- The run of the thread alone: its value and the last state, or nothing when it fails or waits for
something that will not happen. -/
def run : Resumption σ α → σ → Option (α × σ)
  | ret a, s => some (a, s)
  | fail, _ => none
  | get k, s => (k s).run s
  | put s k, _ => k.run s
  | await c k, s => if c s then k.run s else none

/-- Run up to the next point at which the thread waits, returns or has failed. -/
def advance : Resumption σ α → σ → Resumption σ α × σ
  | ret a, s => (ret a, s)
  | fail, s => (fail, s)
  | get k, s => (k s).advance s
  | put s k, _ => k.advance s
  | await c k, s => (await c k, s)

/-- One step of a thread in an interleaving: the waiting thread is resumed in a state that it waits
for. -/
def resume : Resumption σ α → σ → Option (Resumption σ α × σ)
  | await c k, s => if c s then some (k.advance s) else none
  | _, _ => none

/-! ## Running -/

section Run

variable {m : Resumption σ α} {f : α → Resumption σ β} {s s' : σ} {a : α} {b : β}

@[simp]
theorem run_pure (a : α) (s : σ) : (pure a : Resumption σ α).run s = some (a, s) := rfl

@[simp]
theorem run_fail (s : σ) : (fail : Resumption σ α).run s = none := rfl

@[simp]
theorem run_getState (s : σ) : (getState : Resumption σ σ).run s = some (s, s) := rfl

@[simp]
theorem run_modifyState (f : σ → σ) (s : σ) : (modifyState f).run s = some ((), f s) := rfl

@[simp]
theorem run_yield (s : σ) : (yield : Resumption σ Unit).run s = some ((), s) := rfl

theorem run_awaitUntil (c : σ → Bool) (s : σ) :
    (awaitUntil c).run s = if c s then some ((), s) else none := rfl

theorem run_assert (c : Bool) (s : σ) :
    (assert c : Resumption σ Unit).run s = if c then some ((), s) else none := by
  cases c <;> rfl

theorem run_assert_eq_some {c : Bool} {u : Unit} (h : (assert c).run s = some (u, s')) :
    c = true ∧ s' = s := by
  cases c with
  | true =>
    cases h
    exact ⟨rfl, rfl⟩
  | false => cases h

theorem run_ofOption_eq_some {o : Option α} (h : (ofOption o).run s = some (a, s')) :
    o = some a ∧ s' = s := by
  cases o with
  | none => cases h
  | some b =>
    cases h
    exact ⟨rfl, rfl⟩

/-- A composition runs the first thread and then the second one from where the first one ended. -/
@[simp]
theorem run_bind (m : Resumption σ α) (f : α → Resumption σ β) (s : σ) :
    (m >>= f).run s = (m.run s).bind fun r => (f r.1).run r.2 := by
  show (m.bind f).run s = _
  induction m generalizing s with
  | ret a => rfl
  | fail => rfl
  | get k ih => exact ih s s
  | put s' k ih => exact ih s'
  | await c k ih =>
    simp only [bind, run]
    split
    · exact ih s
    · rfl

theorem run_bind_eq_some :
    (m >>= f).run s = some (b, s') ↔
      ∃ a s1, m.run s = some (a, s1) ∧ (f a).run s1 = some (b, s') := by
  rw [run_bind, Option.bind_eq_some_iff]
  exact ⟨fun ⟨r, h1, h2⟩ => ⟨r.1, r.2, h1, h2⟩, fun ⟨a, s1, h1, h2⟩ => ⟨(a, s1), h1, h2⟩⟩

end Run

/-! ## Pre- and postconditions -/

/-- Run alone from `s`, the thread returns, and its value and last state satisfy `Q`. -/
def Returns (m : Resumption σ α) (s : σ) (Q : α → σ → Prop) : Prop :=
  ∃ a s', m.run s = some (a, s') ∧ Q a s'

/-- If the thread, run alone from `s`, returns, then its value and last state satisfy `Q`. -/
def Ensures (m : Resumption σ α) (s : σ) (Q : α → σ → Prop) : Prop :=
  ∀ a s', m.run s = some (a, s') → Q a s'

section Rules

variable {m : Resumption σ α} {f : α → Resumption σ β} {s : σ} {Q R : α → σ → Prop}
  {P : β → σ → Prop}

theorem Returns.mono (h : m.Returns s Q) (hQ : ∀ a s', Q a s' → R a s') : m.Returns s R := by
  obtain ⟨a, s', hr, hq⟩ := h
  exact ⟨a, s', hr, hQ a s' hq⟩

theorem Ensures.mono (h : m.Ensures s Q) (hQ : ∀ a s', Q a s' → R a s') : m.Ensures s R :=
  fun a s' hr => hQ a s' (h a s' hr)

/-- A thread that returns with `Q` ensures `Q`: it has one run. -/
theorem Returns.ensures (h : m.Returns s Q) : m.Ensures s Q := by
  obtain ⟨a, s', hr, hq⟩ := h
  intro b s1 hb
  rw [hr] at hb
  cases hb
  exact hq

theorem Returns.bind (hm : m.Returns s Q) (hf : ∀ a s', Q a s' → (f a).Returns s' P) :
    (m >>= f).Returns s P := by
  obtain ⟨a, s1, h1, hq⟩ := hm
  obtain ⟨b, s2, h2, hp⟩ := hf a s1 hq
  exact ⟨b, s2, run_bind_eq_some.mpr ⟨a, s1, h1, h2⟩, hp⟩

theorem Ensures.bind (hm : m.Ensures s Q) (hf : ∀ a s', Q a s' → (f a).Ensures s' P) :
    (m >>= f).Ensures s P := by
  intro b s' hr
  obtain ⟨a, s1, h1, h2⟩ := run_bind_eq_some.mp hr
  exact hf a s1 (hm a s1 h1) b s' h2

/-- The rule for a first thread whose run is known. -/
theorem Returns.bind_run {a : α} {s1 : σ} (h : m.run s = some (a, s1))
    (hf : (f a).Returns s1 P) : (m >>= f).Returns s P :=
  Returns.bind (Q := fun b s' => b = a ∧ s' = s1) ⟨a, s1, h, rfl, rfl⟩
    (by rintro _ _ ⟨rfl, rfl⟩; exact hf)

theorem Ensures.bind_run {a : α} {s1 : σ} (h : m.run s = some (a, s1))
    (hf : (f a).Ensures s1 P) : (m >>= f).Ensures s P := by
  intro b s' hr
  obtain ⟨a', s2, h1, h2⟩ := run_bind_eq_some.mp hr
  rw [h] at h1
  cases h1
  exact hf b s' h2

theorem Returns.pure {a : α} (h : Q a s) : (Pure.pure a : Resumption σ α).Returns s Q :=
  ⟨a, s, rfl, h⟩

theorem Ensures.pure {a : α} (h : Q a s) : (Pure.pure a : Resumption σ α).Ensures s Q := by
  intro b s' hr
  cases hr
  exact h

theorem Ensures.fail : (Resumption.fail : Resumption σ α).Ensures s Q := by
  intro a s' hr
  cases hr

end Rules

/-! ## Where a thread waits -/

section Along

variable {m : Resumption σ α} {f : α → Resumption σ β} {s : σ} {P Q : σ → Prop}

/-- `P` holds wherever the thread, run alone from a state, waits. -/
def Along (P : σ → Prop) : Resumption σ α → σ → Prop
  | ret _, _ => True
  | fail, _ => True
  | get k, s => (k s).Along P s
  | put s k, _ => k.Along P s
  | await c k, s => P s ∧ (c s = true → k.Along P s)

theorem Along.mono (h : m.Along P s) (hPQ : ∀ s, P s → Q s) : m.Along Q s := by
  induction m generalizing s with
  | ret a => exact True.intro
  | fail => exact True.intro
  | get k ih => exact ih s h
  | put s' k ih => exact ih h
  | await c k ih => exact ⟨hPQ s h.1, fun hc => ih (h.2 hc)⟩

theorem Along.bind (h : m.Along P s) (hf : ∀ a s', m.run s = some (a, s') → (f a).Along P s') :
    (m >>= f).Along P s := by
  show (m.bind f).Along P s
  induction m generalizing s with
  | ret a => exact hf a s rfl
  | fail => exact True.intro
  | get k ih => exact ih s h hf
  | put s' k ih => exact ih h hf
  | await c k ih =>
    refine ⟨h.1, fun hc => ih (h.2 hc) fun a s' hr => hf a s' ?_⟩
    simp only [run, hc, if_true]
    exact hr

theorem Along.advance (h : m.Along P s) : (m.advance s).1.Along P (m.advance s).2 := by
  induction m generalizing s with
  | ret a => exact True.intro
  | fail => exact True.intro
  | get k ih => exact ih s h
  | put s' k ih => exact ih h
  | await c k ih => exact h

end Along

/-! ## Frames -/

/-- Every run of the thread alone that returns leads from a state to one that `R` relates to it. -/
def Moves (R : σ → σ → Prop) (m : Resumption σ α) : Prop :=
  ∀ s a s', m.run s = some (a, s') → R s s'

section Moves

variable {R R' : σ → σ → Prop} {m : Resumption σ α} {f : α → Resumption σ β}

theorem Moves.mono (h : m.Moves R) (hR : ∀ s s', R s s' → R' s s') : m.Moves R' :=
  fun s a s' hr => hR s s' (h s a s' hr)

theorem Moves.fail : (Resumption.fail : Resumption σ α).Moves R := by
  intro s a s' hr
  cases hr

theorem Moves.modifyState {g : σ → σ} (hg : ∀ s, R s (g s)) : (Resumption.modifyState g).Moves R := by
  intro s a s' hr
  cases hr
  exact hg s

/-- The rule for a thread that goes on with the state that it reads. -/
theorem Moves.getState_bind {k : σ → Resumption σ α}
    (hk : ∀ s a s', (k s).run s = some (a, s') → R s s') : (getState >>= k).Moves R := by
  intro s a s' hr
  rw [run_bind, run_getState, Option.bind_some] at hr
  exact hk s a s' hr

theorem Moves.ite {c : Prop} [Decidable c] {m m' : Resumption σ α} (h : m.Moves R)
    (h' : m'.Moves R) : (if c then m else m').Moves R := by
  split
  · exact h
  · exact h'

variable [IsPreorder σ R]

theorem Moves.pure (a : α) : (Pure.pure a : Resumption σ α).Moves R := by
  intro s b s' hr
  cases hr
  exact refl s

theorem Moves.bind (hm : m.Moves R) (hf : ∀ a, (f a).Moves R) : (m >>= f).Moves R := by
  intro s b s' hr
  obtain ⟨a, s1, h1, h2⟩ := run_bind_eq_some.mp hr
  exact IsTrans.trans s s1 s' (hm s a s1 h1) (hf a s1 b s' h2)

theorem Moves.getState : (Resumption.getState : Resumption σ σ).Moves R := by
  intro s a s' hr
  cases hr
  exact refl s

theorem Moves.awaitUntil (c : σ → Bool) : (Resumption.awaitUntil c).Moves R := by
  intro s a s' hr
  rw [run_awaitUntil] at hr
  split at hr
  · cases hr
    exact refl s
  · cases hr

theorem Moves.assert (c : Bool) : (Resumption.assert c : Resumption σ Unit).Moves R := by
  intro s a s' hr
  rw [run_assert] at hr
  split at hr
  · cases hr
    exact refl s
  · cases hr

theorem Moves.ofOption (o : Option α) : (Resumption.ofOption o : Resumption σ α).Moves R := by
  cases o with
  | none => exact Moves.fail
  | some a => exact Moves.pure a

end Moves

/-- The thread also stays within `R` wherever it waits. -/
structure MovesAlong (R : σ → σ → Prop) (m : Resumption σ α) : Prop where
  moves : m.Moves R
  along : ∀ s, m.Along (R s) s

section MovesAlong

variable {R : σ → σ → Prop} {m : Resumption σ α} {f : α → Resumption σ β}

theorem MovesAlong.fail : (Resumption.fail : Resumption σ α).MovesAlong R :=
  ⟨Moves.fail, fun _ => True.intro⟩

theorem MovesAlong.modifyState {g : σ → σ} (hg : ∀ s, R s (g s)) :
    (Resumption.modifyState g).MovesAlong R :=
  ⟨Moves.modifyState hg, fun _ => True.intro⟩

theorem MovesAlong.ite {c : Prop} [Decidable c] {m m' : Resumption σ α} (h : m.MovesAlong R)
    (h' : m'.MovesAlong R) : (if c then m else m').MovesAlong R := by
  split
  · exact h
  · exact h'

variable [IsPreorder σ R]

theorem MovesAlong.pure (a : α) : (Pure.pure a : Resumption σ α).MovesAlong R :=
  ⟨Moves.pure a, fun _ => True.intro⟩

theorem MovesAlong.bind (hm : m.MovesAlong R) (hf : ∀ a, (f a).MovesAlong R) :
    (m >>= f).MovesAlong R where
  moves := hm.moves.bind fun a => (hf a).moves
  along := by
    intro s
    refine (hm.along s).bind fun a s1 hr => ?_
    exact ((hf a).along s1).mono fun s2 h2 => IsTrans.trans s s1 s2 (hm.moves s a s1 hr) h2

/-- The rule for a first thread that stays within `R`, where the second one need not. -/
theorem MovesAlong.bind_along (hm : m.MovesAlong R) {s0 s : σ} (hs : R s0 s)
    (hf : ∀ a s', m.run s = some (a, s') → R s0 s' → (f a).Along (R s0) s') :
    (m >>= f).Along (R s0) s := by
  refine Along.bind ((hm.along s).mono fun s1 h1 => IsTrans.trans s0 s s1 hs h1) fun a s' hr => ?_
  exact hf a s' hr (IsTrans.trans s0 s s' hs (hm.moves s a s' hr))

theorem MovesAlong.getState : (Resumption.getState : Resumption σ σ).MovesAlong R :=
  ⟨Moves.getState, fun _ => True.intro⟩

theorem MovesAlong.awaitUntil (c : σ → Bool) : (Resumption.awaitUntil c).MovesAlong R :=
  ⟨Moves.awaitUntil c, fun s => ⟨refl s, fun _ => True.intro⟩⟩

theorem MovesAlong.assert (c : Bool) : (Resumption.assert c : Resumption σ Unit).MovesAlong R := by
  refine ⟨Moves.assert c, fun s => ?_⟩
  cases c <;> exact True.intro

theorem MovesAlong.ofOption (o : Option α) : (Resumption.ofOption o : Resumption σ α).MovesAlong R := by
  refine ⟨Moves.ofOption o, fun s => ?_⟩
  cases o <;> exact True.intro

end MovesAlong

/-! ## Failures, with other threads around -/

section Safe

variable {τ : Type} {E : σ → σ → Prop} {m : Resumption σ α} {f : α → Resumption σ β} {s s' : σ}

/-- The thread never fails: while it waits, other threads may change the state as `E` says. -/
def Safe (E : σ → σ → Prop) : Resumption σ α → σ → Prop
  | ret _, _ => True
  | fail, _ => False
  | get k, s => (k s).Safe E s
  | put s k, _ => k.Safe E s
  | await c k, s => ∀ s', E s s' → c s' = true → k.Safe E s'

/-- The thread may return `a` in the state `s'`. -/
def MayReturn (E : σ → σ → Prop) : Resumption σ α → σ → α → σ → Prop
  | ret a, s, b, s' => a = b ∧ s = s'
  | fail, _, _, _ => False
  | get k, s, b, s' => (k s).MayReturn E s b s'
  | put s k, _, b, s' => k.MayReturn E s b s'
  | await c k, s, b, s' => ∃ s1, E s s1 ∧ c s1 = true ∧ k.MayReturn E s1 b s'

theorem safe_bind :
    (m >>= f).Safe E s ↔ m.Safe E s ∧ ∀ a s', m.MayReturn E s a s' → (f a).Safe E s' := by
  show (m.bind f).Safe E s ↔ _
  induction m generalizing s with
  | ret a =>
    refine ⟨fun h => ⟨True.intro, ?_⟩, fun h => h.2 a s ⟨rfl, rfl⟩⟩
    rintro _ _ ⟨rfl, rfl⟩
    exact h
  | fail => exact ⟨fun h => absurd h not_false, fun h => h.1⟩
  | get k ih => exact ih s
  | put s' k ih => exact ih
  | await c k ih =>
    constructor
    · intro h
      refine ⟨fun s1 hE hc => (ih.mp (h s1 hE hc)).1, ?_⟩
      rintro a s' ⟨s1, hE, hc, hr⟩
      exact (ih.mp (h s1 hE hc)).2 a s' hr
    · rintro ⟨hm, hf⟩ s1 hE hc
      exact ih.mpr ⟨hm s1 hE hc, fun a s' hr => hf a s' ⟨s1, hE, hc, hr⟩⟩

theorem mayReturn_bind {b : β} :
    (m >>= f).MayReturn E s b s' ↔ ∃ a s1, m.MayReturn E s a s1 ∧ (f a).MayReturn E s1 b s' := by
  show (m.bind f).MayReturn E s b s' ↔ _
  induction m generalizing s with
  | ret a =>
    refine ⟨fun h => ⟨a, s, ⟨rfl, rfl⟩, h⟩, ?_⟩
    rintro ⟨_, _, ⟨rfl, rfl⟩, h⟩
    exact h
  | fail => exact ⟨fun h => absurd h not_false, fun ⟨_, _, h, _⟩ => h⟩
  | get k ih => exact ih s
  | put s1 k ih => exact ih
  | await c k ih =>
    constructor
    · rintro ⟨s1, hE, hc, hr⟩
      obtain ⟨a, s2, hk, hf⟩ := ih.mp hr
      exact ⟨a, s2, ⟨s1, hE, hc, hk⟩, hf⟩
    · rintro ⟨a, s2, ⟨s1, hE, hc, hk⟩, hf⟩
      exact ⟨s1, hE, hc, ih.mpr ⟨a, s2, hk, hf⟩⟩

@[simp]
theorem safe_pure (a : α) : (pure a : Resumption σ α).Safe E s := True.intro

@[simp]
theorem safe_fail : ¬ (fail : Resumption σ α).Safe E s := not_false

@[simp]
theorem safe_modifyState (g : σ → σ) : (modifyState g).Safe E s := True.intro

@[simp]
theorem safe_awaitUntil (c : σ → Bool) : (awaitUntil c).Safe E s := fun _ _ _ => True.intro

@[simp]
theorem safe_assert (c : Bool) : (assert c : Resumption σ Unit).Safe E s ↔ c = true := by
  cases c
  · exact ⟨fun h => absurd h not_false, fun h => by cases h⟩
  · exact ⟨fun _ => rfl, fun _ => True.intro⟩

/-- The rules for a first thread that does not wait. -/
@[simp]
theorem safe_pure_bind (a : α) : ((pure a : Resumption σ α) >>= f).Safe E s ↔ (f a).Safe E s := Iff.rfl

@[simp]
theorem safe_getState_bind {k : σ → Resumption σ α} :
    ((getState : Resumption σ σ) >>= k).Safe E s ↔ (k s).Safe E s := Iff.rfl

@[simp]
theorem safe_modifyState_bind {g : σ → σ} {k : Unit → Resumption σ α} :
    (modifyState g >>= k).Safe E s ↔ (k ()).Safe E (g s) := Iff.rfl

@[simp]
theorem safe_assert_bind {c : Bool} {k : Unit → Resumption σ α} :
    ((assert c : Resumption σ Unit) >>= k).Safe E s ↔ c = true ∧ (k ()).Safe E s := by
  cases c
  · exact ⟨fun h => absurd h not_false, fun h => by cases h.1⟩
  · exact ⟨fun h => ⟨rfl, h⟩, fun h => h.2⟩

@[simp]
theorem safe_ofOption_bind {o : Option α} :
    ((ofOption o : Resumption σ α) >>= f).Safe E s ↔ ∃ a, o = some a ∧ (f a).Safe E s := by
  cases o with
  | none => exact ⟨fun h => absurd h not_false, fun ⟨_, h, _⟩ => by cases h⟩
  | some a => exact ⟨fun h => ⟨a, rfl, h⟩, fun ⟨_, h, hf⟩ => by cases h; exact hf⟩

theorem safe_awaitUntil_bind {c : σ → Bool} {k : Unit → Resumption σ α} :
    (awaitUntil c >>= k).Safe E s ↔ ∀ s', E s s' → c s' = true → (k ()).Safe E s' := Iff.rfl

/-- Run a thread on a part of a larger state. -/
def zoom (view : σ → τ) (update : τ → σ → σ) : Resumption τ α → Resumption σ α
  | ret a => ret a
  | fail => fail
  | get k => get fun s => (k (view s)).zoom view update
  | put t k => get fun s => put (update t s) (k.zoom view update)
  | await c k => await (fun s => c (view s)) (k.zoom view update)

variable {view : σ → τ} {update : τ → σ → σ} {n : Resumption τ α}

/-- What such a thread and the others leave alone stays. -/
theorem mayReturn_zoom_frame {R : σ → σ → Prop} [IsPreorder σ R] (hupdate : ∀ t s, R s (update t s))
    (hE : ∀ s s', E s s' → R s s') {a : α} (h : (n.zoom view update).MayReturn E s a s') : R s s' := by
  induction n generalizing s with
  | ret b =>
    obtain ⟨_, rfl⟩ := h
    exact refl s
  | fail => exact absurd h not_false
  | get k ih => exact ih (view s) h
  | put t k ih => exact IsTrans.trans s (update t s) s' (hupdate t s) (ih h)
  | await c k ih =>
    obtain ⟨s1, hs1, _, hr⟩ := h
    exact IsTrans.trans s s1 s' (hE s s1 hs1) (ih hr)

/-- Such a thread, run alone, changes the part as the thread of the part does. -/
theorem run_zoom (hview : ∀ t s, view (update t s) = t) (hself : ∀ s, update (view s) s = s)
    (htwice : ∀ t t' s, update t (update t' s) = update t s) (s : σ) :
    (n.zoom view update).run s = (n.run (view s)).map fun r => (r.1, update r.2 s) := by
  induction n generalizing s with
  | ret a =>
    show some (a, s) = some (a, update (view s) s)
    rw [hself]
  | fail => rfl
  | get k ih => exact ih (view s) s
  | put t k ih =>
    show (k.zoom view update).run (update t s) = (k.run t).map fun r => (r.1, update r.2 s)
    rw [ih, hview]
    simp only [htwice]
  | await c k ih =>
    simp only [zoom, run]
    split
    · exact ih s
    · rfl

end Safe

/-! ## Threads that wait for nothing -/

section NeverWaits

variable {τ : Type} {E : σ → σ → Prop} {m m' : Resumption σ α} {f : α → Resumption σ β} {s : σ}

/-- Wherever the thread waits, it may go on at once. -/
def NeverWaits : Resumption σ α → Prop
  | ret _ => True
  | fail => True
  | get k => ∀ s, (k s).NeverWaits
  | put _ k => k.NeverWaits
  | await c k => (∀ s, c s = true) ∧ k.NeverWaits

/-- Such a thread returns, unless it fails. -/
theorem NeverWaits.exists_mayReturn (h : m.NeverWaits) (hE : ∀ s, E s s) (hsafe : m.Safe E s) :
    ∃ a s', m.MayReturn E s a s' := by
  induction m generalizing s with
  | ret a => exact ⟨a, s, rfl, rfl⟩
  | fail => exact absurd hsafe not_false
  | get k ih => exact ih s (h s) hsafe
  | put s1 k ih => exact ih h hsafe
  | await c k ih =>
    obtain ⟨a, s', hr⟩ := ih h.2 (hsafe s (hE s) (h.1 s))
    exact ⟨a, s', s, hE s, h.1 s, hr⟩

theorem NeverWaits.pure (a : α) : (Pure.pure a : Resumption σ α).NeverWaits := True.intro

theorem NeverWaits.bind (hm : m.NeverWaits) (hf : ∀ a, (f a).NeverWaits) : (m >>= f).NeverWaits := by
  show (m.bind f).NeverWaits
  induction m with
  | ret a => exact hf a
  | fail => exact True.intro
  | get k ih => exact fun s => ih s (hm s)
  | put s1 k ih => exact ih hm
  | await c k ih => exact ⟨hm.1, ih hm.2⟩

theorem NeverWaits.ite {c : Prop} [Decidable c] (h : m.NeverWaits) (h' : m'.NeverWaits) :
    (if c then m else m').NeverWaits := by
  split
  · exact h
  · exact h'

theorem NeverWaits.getState : (Resumption.getState : Resumption σ σ).NeverWaits := fun _ => True.intro

theorem NeverWaits.modifyState (g : σ → σ) : (Resumption.modifyState g).NeverWaits := fun _ => True.intro

theorem NeverWaits.yield : (Resumption.yield : Resumption σ Unit).NeverWaits :=
  ⟨fun _ => rfl, True.intro⟩

theorem NeverWaits.assert (c : Bool) : (Resumption.assert c : Resumption σ Unit).NeverWaits := by
  cases c <;> exact True.intro

theorem NeverWaits.ofOption (o : Option α) : (Resumption.ofOption o : Resumption σ α).NeverWaits := by
  cases o <;> exact True.intro

theorem NeverWaits.zoom {n : Resumption τ α} (h : n.NeverWaits) (view : σ → τ) (update : τ → σ → σ) :
    (n.zoom view update).NeverWaits := by
  induction n with
  | ret a => exact True.intro
  | fail => exact True.intro
  | get k ih => exact fun s => ih (view s) (h (view s))
  | put t k ih => exact fun _ => ih h
  | await c k ih => exact ⟨fun s => h.1 (view s), ih h.2⟩

end NeverWaits

end Resumption

end Foundations
