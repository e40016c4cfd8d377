import Mathlib.Data.Fintype.Basic
import Nachos.Threads.Inheritance
import Nachos.Threads.Proofs.LockProofs

/-!
# Proofs: inherited priorities

A node of a thread's list names a lock that the thread owns, and no lock is named twice. Where no call
loses a priority, the nodes of the owner of a lock cover the threads that wait for it, and each stands
for one of them: so the priority of the owner is the greatest of them all.
-/

namespace Nachos.Synch

open Foundations

/-! ## The list of a thread -/

section Nodes

variable {L : Type} [DecidableEq L] {nodes : List (Option L × Int)} {l lock : L} {p q : Int}

/-- No lock is named by two nodes. -/
def Distinct (nodes : List (Option L × Int)) : Prop :=
  nodes.Pairwise fun x y => x.1 = none ∨ x.1 ≠ y.1

theorem getPriority_le (priority : Int) (nodes : List (Option L × Int)) :
    priority ≤ getPriority priority nodes := by
  induction nodes generalizing priority with
  | nil => exact Int.le_refl priority
  | cons x nodes ih =>
    refine Int.le_trans ?_ (ih _)
    dsimp only
    split
    · rename_i h
      exact Int.le_of_lt h.2
    · exact Int.le_refl priority

theorem node_le_getPriority (priority : Int) (h : (some l, p) ∈ nodes) :
    p ≤ getPriority priority nodes := by
  induction nodes generalizing priority with
  | nil => cases h
  | cons x nodes ih =>
    rcases List.mem_cons.mp h with rfl | hmem
    · refine Int.le_trans ?_ (getPriority_le _ nodes)
      by_cases hlt : priority < p
      · simp [hlt]
      · simp only [hlt, and_false, if_false]
        omega
    · exact ih _ hmem

/-- The priority of a thread is its own or that of a node. -/
theorem getPriority_cases (priority : Int) (nodes : List (Option L × Int)) :
    getPriority priority nodes = priority ∨
      ∃ l p, (some l, p) ∈ nodes ∧ getPriority priority nodes = p := by
  induction nodes generalizing priority with
  | nil => exact Or.inl rfl
  | cons x nodes ih =>
    obtain ⟨lock, q⟩ := x
    have hcons : getPriority priority ((lock, q) :: nodes) =
        getPriority (if lock ≠ none ∧ priority < q then q else priority) nodes := rfl
    rw [hcons]
    rcases ih (if lock ≠ none ∧ priority < q then q else priority) with h | ⟨l, p, hmem, h⟩
    · rw [h]
      split
      · rename_i hlock
        obtain ⟨l, rfl⟩ := Option.ne_none_iff_exists'.mp hlock.1
        exact Or.inr ⟨l, q, List.mem_cons_self, rfl⟩
      · exact Or.inl rfl
    · exact Or.inr ⟨l, p, List.mem_cons_of_mem _ hmem, h⟩

/-- Two nodes of one lock are one node. -/
theorem Distinct.index (h : Distinct nodes) {i j : Nat} (hi : nodes[i]? = some (some l, p))
    (hj : nodes[j]? = some (some l, q)) : i = j := by
  obtain ⟨hi, hp⟩ := List.getElem?_eq_some_iff.mp hi
  obtain ⟨hj, hq⟩ := List.getElem?_eq_some_iff.mp hj
  have hpair := List.pairwise_iff_getElem.mp h
  rcases Nat.lt_trichotomy i j with hlt | heq | hgt
  · have := hpair i j hi hj hlt
    simp [hp, hq] at this
  · exact heq
  · have := hpair j i hj hi hgt
    simp [hp, hq] at this

/-- `SetInheritedPriority` names no lock twice. -/
theorem Distinct.set (h : Distinct nodes) (lock : L) (p : Int) :
    Distinct (setInheritedPriority nodes lock p) := by
  unfold setInheritedPriority
  split
  · rename_i i hi
    obtain ⟨hlt, hlock, -⟩ := List.findIdx?_eq_some_iff_getElem.mp hi
    have hfst : (nodes.set i (some lock, p)).map Prod.fst = nodes.map Prod.fst := by
      rw [List.map_set, ← eq_of_beq hlock, ← List.getElem_map Prod.fst (h := by simpa using hlt)]
      exact List.set_getElem_self _
    unfold Distinct at h ⊢
    rw [← List.pairwise_map (f := Prod.fst) (R := fun x y : Option L => x = none ∨ x ≠ y)] at h ⊢
    rw [hfst]
    exact h
  · rename_i hnone
    refine List.pairwise_cons.mpr ⟨?_, h⟩
    intro x hx
    refine Or.inr fun hlock => ?_
    have := List.findIdx?_eq_none_iff.mp hnone x hx
    simp [← hlock] at this

/-- The nodes after `SetInheritedPriority`. -/
theorem mem_set (h : Distinct nodes) :
    (some l, q) ∈ setInheritedPriority nodes lock p ↔
      (l = lock ∧ q = p) ∨ (l ≠ lock ∧ (some l, q) ∈ nodes) := by
  unfold setInheritedPriority
  split
  · rename_i i hi
    obtain ⟨hlt, hlock, -⟩ := List.findIdx?_eq_some_iff_getElem.mp hi
    have hold : nodes[i]? = some (some lock, (nodes[i]).2) := by
      rw [List.getElem?_eq_getElem hlt, ← eq_of_beq hlock]
    constructor
    · intro hmem
      obtain ⟨j, hj⟩ := List.mem_iff_getElem?.mp hmem
      rw [List.getElem?_set] at hj
      split at hj
      · cases hj
        exact Or.inl ⟨rfl, rfl⟩
      · rename_i hne
        refine Or.inr ⟨?_, List.mem_iff_getElem?.mpr ⟨j, hj⟩⟩
        rintro rfl
        exact hne (h.index hold hj)
    · rintro (⟨rfl, rfl⟩ | ⟨hne, hmem⟩)
      · exact List.mem_iff_getElem?.mpr ⟨i, by rw [List.getElem?_set, if_pos rfl, if_pos hlt]⟩
      · obtain ⟨j, hj⟩ := List.mem_iff_getElem?.mp hmem
        refine List.mem_iff_getElem?.mpr ⟨j, ?_⟩
        rw [List.getElem?_set, if_neg, hj]
        rintro rfl
        rw [hold] at hj
        cases hj
        exact hne rfl
  · rename_i hnone
    have hfresh : (some lock, q) ∉ nodes := by
      intro hmem
      have := List.findIdx?_eq_none_iff.mp hnone _ hmem
      simp at this
    rw [List.mem_cons, Prod.mk.injEq, Option.some.injEq]
    constructor
    · rintro (hnew | hmem)
      · exact Or.inl hnew
      · refine Or.inr ⟨?_, hmem⟩
        rintro rfl
        exact hfresh hmem
    · rintro (hnew | ⟨-, hmem⟩)
      · exact Or.inl hnew
      · exact Or.inr hmem

theorem Distinct.remove (h : Distinct nodes) (lock : L) :
    Distinct (removeInheritedPriority nodes lock) := by
  unfold removeInheritedPriority Distinct
  rw [List.pairwise_map]
  refine List.Pairwise.imp ?_ h
  rintro ⟨x, p⟩ ⟨y, q⟩ hxy
  dsimp only at hxy ⊢
  by_cases hx : x = some lock
  · rw [if_pos hx]
    exact Or.inl rfl
  · rw [if_neg hx]
    by_cases hy : y = some lock
    · rw [if_pos hy]
      exact eq_or_ne x none
    · rw [if_neg hy]
      exact hxy

/-- The nodes after `RemoveInheritedPriority`. -/
theorem mem_remove :
    (some l, q) ∈ removeInheritedPriority nodes lock ↔ l ≠ lock ∧ (some l, q) ∈ nodes := by
  unfold removeInheritedPriority
  rw [List.mem_map]
  constructor
  · rintro ⟨⟨lock', q'⟩, hmem, heq⟩
    dsimp only at heq
    split at heq
    · cases heq
    · rename_i hne
      cases heq
      exact ⟨fun e => hne (congrArg some e), hmem⟩
  · rintro ⟨hne, hmem⟩
    refine ⟨(some l, q), hmem, if_neg ?_⟩
    rw [Option.some.injEq]
    exact hne

end Nodes

/-! ## Nodes and owners -/

section Owners

variable {L C S κ ι σ : Type} [DecidableEq L] [DecidableEq C] [DecidableEq S]
  {sys : System L C S κ ι σ} {d : Discipline sys} {s s' s0 : State L C S κ σ} {t : Tid} {l : L}

/-- Every node names a lock of its thread, and no lock is named by two nodes of a thread. -/
structure NodesOk (s : State L C S κ σ) : Prop where
  owned : ∀ t l p, (some l, p) ∈ s.inheritedPriorities t → s.lockOwner l = some t
  distinct : ∀ t, Distinct (s.inheritedPriorities t)

/-- A thread that is about to become the owner finds no owner. -/
theorem LocksOk.no_owner_of_own (h : LocksOk d s) {rest : List (Frame L C S κ)}
    (hstack : s.stack t = .own l :: rest) : s.lockOwner l = none := by
  have hgot : s.phase d t l = .got := by
    rw [State.phase, hstack]
    simp [phaseOf, Frame.use]
  by_contra hne
  obtain ⟨u, hu⟩ := Option.ne_none_iff_exists'.mp hne
  have hheld := ((h.lock l).owner u).mp hu
  have hut := (h.lock l).unique u t (by rw [hheld]; simp) (by rw [hgot]; simp)
  rw [hut, hgot] at hheld
  cases hheld

namespace NodesOk

theorem same (h : NodesOk s) (hnodes : s'.inheritedPriorities = s.inheritedPriorities)
    (hown : s'.lockOwner = s.lockOwner) : NodesOk s' := by
  refine ⟨?_, ?_⟩
  · rw [hnodes, hown]
    exact h.owned
  · rw [hnodes]
    exact h.distinct

/-- `Acquire` gives the owner a node for the lock. -/
theorem acquire (h : NodesOk s) (hnodes : s'.inheritedPriorities = s.inherit t l)
    (hown : s'.lockOwner = s.lockOwner) : NodesOk s' := by
  unfold State.inherit at hnodes
  split at hnodes
  · exact h.same hnodes hown
  · rename_i owner howner
    refine ⟨?_, ?_⟩
    · intro u l' p hmem
      rw [hown]
      rw [hnodes] at hmem
      by_cases hu : u = owner
      · subst hu
        rw [Function.update_self] at hmem
        rcases (mem_set (h.distinct u)).mp hmem with ⟨rfl, -⟩ | ⟨-, hmem⟩
        · exact howner
        · exact h.owned u l' p hmem
      · rw [Function.update_of_ne hu] at hmem
        exact h.owned u l' p hmem
    · intro u
      rw [hnodes]
      by_cases hu : u = owner
      · subst hu
        rw [Function.update_self]
        exact (h.distinct u).set l _
      · rw [Function.update_of_ne hu]
        exact h.distinct u

/-- A lock without an owner gets one. -/
theorem own (h : NodesOk s) (hnone : s.lockOwner l = none)
    (hnodes : s'.inheritedPriorities = s.inheritedPriorities)
    (hown : s'.lockOwner = Function.update s.lockOwner l (some t)) : NodesOk s' := by
  refine ⟨?_, ?_⟩
  · intro u l' p hmem
    rw [hnodes] at hmem
    have ho := h.owned u l' p hmem
    rw [hown, Function.update_of_ne]
    · exact ho
    · rintro rfl
      rw [hnone] at ho
      cases ho
  · rw [hnodes]
    exact h.distinct

/-- `Release` takes the node for the lock out of the owner's list. -/
theorem release (h : NodesOk s) (howner : s.lockOwner l = some t)
    (hnodes : s'.inheritedPriorities = Function.update s.inheritedPriorities t
      (removeInheritedPriority (s.inheritedPriorities t) l))
    (hown : s'.lockOwner = Function.update s.lockOwner l none) : NodesOk s' := by
  refine ⟨?_, ?_⟩
  · intro u l' p hmem
    rw [hnodes] at hmem
    have hold : l' ≠ l ∧ (some l', p) ∈ s.inheritedPriorities u := by
      by_cases hu : u = t
      · subst hu
        rw [Function.update_self] at hmem
        exact mem_remove.mp hmem
      · rw [Function.update_of_ne hu] at hmem
        refine ⟨?_, hmem⟩
        rintro rfl
        rw [h.owned u l' p hmem, Option.some.injEq] at howner
        exact hu howner
    rw [hown, Function.update_of_ne hold.1]
    exact h.owned u l' p hold.2
  · intro u
    rw [hnodes]
    by_cases hu : u = t
    · subst hu
      rw [Function.update_self]
      exact (h.distinct u).remove l
    · rw [Function.update_of_ne hu]
      exact h.distinct u

theorem exec (h : NodesOk s) (hlocks : LocksOk d s) (hs : s.step sys (.exec t) = some s') :
    NodesOk s' := by
  obtain ⟨-, f, rest, hstack, hexec⟩ := step_exec_iff.mp hs
  cases f with
  | acquire l =>
    simp only [State.execFrame] at hexec
    split at hexec
    · cases hexec
    · cases hexec
      exact h.acquire rfl rfl
  | own l =>
    cases hexec
    exact h.own (hlocks.no_owner_of_own hstack) rfl rfl
  | release l =>
    simp only [State.execFrame] at hexec
    split at hexec
    · rename_i hheld
      cases hexec
      exact h.release (eq_of_beq hheld) rfl rfl
    · cases hexec
  | code k =>
    simp only [State.execFrame, Option.map_eq_some_iff] at hexec
    obtain ⟨r, -, rfl⟩ := hexec
    exact h.same rfl rfl
  | _ =>
    simp only [State.execFrame, State.p, State.v] at hexec
    repeat' split at hexec
    all_goals cases hexec
    all_goals exact h.same rfl rfl

theorem step {e : Event ι} (h : NodesOk s) (hlocks : LocksOk d s) (hs : s.step sys e = some s') :
    NodesOk s' := by
  cases e with
  | call t i =>
    obtain ⟨-, -, r, -, rfl⟩ := step_call_iff.mp hs
    exact h.same rfl rfl
  | exec t => exact h.exec hlocks hs

theorem start (initialValue : S → Int) (priority : Tid → Int) (shared : σ) :
    NodesOk (State.start initialValue priority shared : State L C S κ σ) where
  owned := by
    intro t l p hmem
    cases hmem
  distinct := fun _ => List.Pairwise.nil

theorem reachable (h : NodesOk s0) (hlocks : LocksOk d s0) (hr : Reachable sys s0 s) : NodesOk s := by
  obtain ⟨es, hrun⟩ := hr
  refine (runs_inv (I := fun s => NodesOk s ∧ LocksOk d s) ?_ ⟨h, hlocks⟩ (AllSteps.trivial es s0) hrun).1
  intro s e s' hI _ hs
  exact ⟨hI.1.step hI.2 hs, hI.2.step hs⟩

end NodesOk

end Owners

/-- Whatever threads call `Acquire` and `Release` in whatever order: a node of a thread's list names a
lock that the thread owns, no lock is named by two nodes, and the priority of a thread that owns no lock
is its own. -/
theorem inherited_priority_owned (L : Type) [DecidableEq L] (priority : Tid → Int) {s : LockState L}
    (hr : Reachable (lockUsers L) (LockState.start L priority) s) :
    (∀ t l p, (some l, p) ∈ s.inheritedPriorities t → s.lockOwner l = some t) ∧
    (∀ (t u : Tid) (i j : Nat) (l : L) (p q : Int), (s.inheritedPriorities t)[i]? = some (some l, p) →
      (s.inheritedPriorities u)[j]? = some (some l, q) → t = u ∧ i = j) ∧
    (∀ t, (∀ l, s.lockOwner l ≠ some t) → s.effective t = s.priority t) := by
  have h : NodesOk s := (NodesOk.start _ _ _).reachable
    (LocksOk.start (d := lockDiscipline L) fun _ _ => rfl) hr
  refine ⟨h.owned, ?_, ?_⟩
  · intro t u i j l p q hi hj
    have ht := h.owned t l p (List.mem_iff_getElem?.mpr ⟨i, hi⟩)
    have hu := h.owned u l q (List.mem_iff_getElem?.mpr ⟨j, hj⟩)
    rw [ht, Option.some.injEq] at hu
    subst hu
    exact ⟨rfl, (h.distinct t).index hi hj⟩
  · intro t hfree
    rcases getPriority_cases (s.priority t) (s.inheritedPriorities t) with heq | ⟨l, p, hmem, -⟩
    · exact heq
    · exact absurd (h.owned t l p hmem) (hfree l)

/-- The thread 1 waits for the lock of the thread 0, which has its priority meanwhile. -/
theorem inherited_priority_owned_twoAcquires : ∃ s,
    runs (State.step (lockUsers Unit)) (LockState.start Unit fun t => if t = 1 then 5 else 0)
      twoAcquires = some s ∧ s.effective 0 = 5 ∧ s.lockOwner () = some 0 ∧ s.effective 1 = s.priority 1 := by
  obtain ⟨s, hs⟩ := Option.isSome_iff_exists.mp (show (runs (State.step (lockUsers Unit))
    (LockState.start Unit fun t => if t = 1 then 5 else 0) twoAcquires).isSome = true by rfl)
  have hview : (some s).map (fun s => (s.inheritedPriorities 0, s.lockOwner (), s.effective 0)) =
      some ([(some (), 5)], some 0, 5) := by
    rw [← hs]
    rfl
  simp only [Option.map_some, Option.some.injEq, Prod.mk.injEq] at hview
  obtain ⟨hnodes, hown, heff⟩ := hview
  have h := inherited_priority_owned Unit (fun t => if t = 1 then 5 else 0) ⟨_, hs⟩
  refine ⟨s, hs, heff, h.1 0 () 5 (by rw [hnodes]; exact List.mem_singleton_self _), h.2.2 1 ?_⟩
  intro l
  rw [hown]
  decide

/-! ## Steps of the source -/

section Steps

variable {L : Type} [DecidableEq L] {s s' : LockState L} {t : Tid} {l : L}

/-- The frames of a thread where the CPU can change hands. -/
def AtRest (frames : List (Frame L Empty Empty Empty)) : Prop :=
  frames = [] ∨ (∃ l, frames = [.p (.lock l), .own l]) ∨ ∃ l, frames = [.own l]

/-- The waiters of each lock after `t` has gone to sleep on `l`. -/
def WaitersAppend (s s' : LockState L) (t : Tid) (l : L) : Prop :=
  s'.waiters l = s.waiters l ++ [t] ∧ ∀ l', l' ≠ l → s'.waiters l' = s.waiters l'

theorem waiters_update_of_ne {l' : L} (f : SemId L Empty → Semaphore) (sem : Semaphore) (h : l' ≠ l) :
    (Function.update f (.lock l) sem (.lock l')).queue = (f (.lock l')).queue := by
  rw [Function.update_of_ne]
  intro e
  cases e
  exact h rfl

/-- What a call of `Acquire` does. -/
theorem step_acquire (h : s.step (.acquire t l) = some s') :
    s.asleep t = false ∧ s.stack t = [] ∧ s.lockOwner l ≠ some t ∧ s'.priority = s.priority ∧
      s'.lockOwner = s.lockOwner ∧ s'.inheritedPriorities = s.inherit t l ∧
      (∀ u, u ≠ t → s'.stack u = s.stack u) ∧ AtRest (s'.stack t) ∧
      ((s.semaphores (.lock l)).value = 0 ∧ WaitersAppend s s' t l ∨
        (s.semaphores (.lock l)).value ≠ 0 ∧ s'.waiters = s.waiters) := by
  simp only [LockState.step, LockEvent.pieces, runs_cons_eq_some, runs_nil, Option.some.injEq] at h
  obtain ⟨s1, hcall, s2, hacq, s3, hp, rfl⟩ := h
  obtain ⟨hstack, hawake, r, hr, rfl⟩ := step_call_iff.mp hcall
  simp only [lockUsers] at hr
  split at hr
  · cases hr
  cases hr
  obtain ⟨-, f, rest, hf, hacq⟩ := step_exec_iff.mp hacq
  simp only [State.setStack, Function.update_self] at hf
  cases hf
  simp only [State.execFrame] at hacq
  split at hacq
  · cases hacq
  rename_i hheld
  cases hacq
  obtain ⟨-, f, rest, hf, hp⟩ := step_exec_iff.mp hp
  simp only [State.setStack, Function.update_self] at hf
  cases hf
  simp only [State.execFrame, Option.some.injEq] at hp
  have hne : s.lockOwner l ≠ some t := by
    intro e
    exact hheld (by simp [State.isHeldByCurrentThread, State.setStack, e])
  refine ⟨hawake, hstack, hne, ?_⟩
  unfold State.p at hp
  dsimp only [State.setStack] at hp
  split at hp
  · rename_i hzero
    subst hp
    refine ⟨rfl, rfl, rfl, fun u hu => ?_, Or.inr (Or.inl ⟨l, ?_⟩), Or.inl ⟨hzero, ?_, ?_⟩⟩
    · simp [hu]
    · simp
    · simp [State.waiters]
    · intro l' hl
      exact waiters_update_of_ne _ _ hl
  · rename_i hunit
    subst hp
    refine ⟨rfl, rfl, rfl, fun u hu => ?_, Or.inr (Or.inr ⟨l, ?_⟩), Or.inr ⟨hunit, ?_⟩⟩
    · simp [hu]
    · simp
    · funext l'
      by_cases hl : l' = l
      · subst hl
        simp [State.waiters]
      · exact waiters_update_of_ne _ _ hl

/-- What a thread does when it goes on in `Acquire`. -/
theorem step_resume (hrest : AtRest (s.stack t)) (h : s.step (.resume t) = some s') :
    s.asleep t = false ∧ s'.priority = s.priority ∧ s'.inheritedPriorities = s.inheritedPriorities ∧
      (∀ u, u ≠ t → s'.stack u = s.stack u) ∧ AtRest (s'.stack t) ∧
      ((∃ l, s.stack t = [.p (.lock l), .own l] ∧ s'.lockOwner = s.lockOwner ∧
          ((s.semaphores (.lock l)).value = 0 ∧ WaitersAppend s s' t l ∨ s'.waiters = s.waiters)) ∨
        ∃ l, s.stack t = [.own l] ∧ s'.lockOwner = Function.update s.lockOwner l (some t) ∧
          s'.waiters = s.waiters) := by
  simp only [LockState.step, LockEvent.pieces, runs_cons_eq_some, runs_nil, Option.some.injEq] at h
  obtain ⟨s1, hexec, rfl⟩ := h
  obtain ⟨hawake, f, rest, hf, hexec⟩ := step_exec_iff.mp hexec
  refine ⟨hawake, ?_⟩
  rcases hrest with hnil | ⟨l, hp⟩ | ⟨l, hown⟩
  · rw [hnil] at hf
    cases hf
  · rw [hp] at hf
    cases hf
    simp only [State.execFrame, Option.some.injEq] at hexec
    unfold State.p at hexec
    dsimp only at hexec
    split at hexec
    · rename_i hzero
      subst hexec
      refine ⟨rfl, rfl, fun _ _ => rfl, Or.inr (Or.inl ⟨l, hp⟩), Or.inl ⟨l, hp, rfl, Or.inl ⟨hzero, ?_, ?_⟩⟩⟩
      · simp [State.waiters]
      · intro l' hl
        exact waiters_update_of_ne _ _ hl
    · subst hexec
      refine ⟨rfl, rfl, fun u hu => ?_, Or.inr (Or.inr ⟨l, ?_⟩), Or.inl ⟨l, hp, rfl, Or.inr ?_⟩⟩
      · simp [hu]
      · simp
      · funext l'
        by_cases hl : l' = l
        · subst hl
          simp [State.waiters]
        · exact waiters_update_of_ne _ _ hl
  · rw [hown] at hf
    cases hf
    cases hexec
    refine ⟨rfl, rfl, fun u hu => ?_, Or.inl ?_, Or.inr ⟨l, hown, rfl, rfl⟩⟩
    · simp [State.setStack, hu]
    · simp [State.setStack]

/-- What a call of `Release` does. -/
theorem step_release (h : s.step (.release t l) = some s') :
    s.asleep t = false ∧ s.stack t = [] ∧ s.lockOwner l = some t ∧ s'.priority = s.priority ∧
      s'.lockOwner = Function.update s.lockOwner l none ∧
      s'.inheritedPriorities = Function.update s.inheritedPriorities t
        (removeInheritedPriority (s.inheritedPriorities t) l) ∧
      (∀ u, u ≠ t → s'.stack u = s.stack u) ∧ s'.stack t = [] ∧
      ∀ l', l' ≠ l → s'.waiters l' = s.waiters l' := by
  simp only [LockState.step, LockEvent.pieces, runs_cons_eq_some, runs_nil, Option.some.injEq] at h
  obtain ⟨s1, hcall, s2, hrel, s3, hv, rfl⟩ := h
  obtain ⟨hstack, hawake, r, hr, rfl⟩ := step_call_iff.mp hcall
  simp only [lockUsers] at hr
  split at hr
  · cases hr
    obtain ⟨-, f, rest, hf, hrel⟩ := step_exec_iff.mp hrel
    simp only [State.setStack, Function.update_self] at hf
    cases hf
    simp only [State.execFrame] at hrel
    split at hrel
    · rename_i hheld
      cases hrel
      obtain ⟨-, f, rest, hf, hv⟩ := step_exec_iff.mp hv
      simp only [State.setStack, Function.update_self] at hf
      cases hf
      simp only [State.execFrame, Option.some.injEq] at hv
      refine ⟨hawake, hstack, eq_of_beq hheld, ?_⟩
      unfold State.v at hv
      dsimp only [State.setStack] at hv
      split at hv
      · subst hv
        refine ⟨rfl, rfl, rfl, fun u hu => by simp [hu], by simp, fun l' hl => ?_⟩
        exact waiters_update_of_ne _ _ hl
      · subst hv
        refine ⟨rfl, rfl, rfl, fun u hu => by simp [hu], by simp, fun l' hl => ?_⟩
        exact waiters_update_of_ne _ _ hl
    · cases hrel
  · cases hr

end Steps

/-! ## The invariant -/

section Invariant

variable {L : Type} [DecidableEq L] {priority : Tid → Int} {s s' : LockState L} {t : Tid} {l : L}

/-- The parts of the invariant that hold in every run. -/
structure LockRun (s : LockState L) : Prop where
  locks : LocksOk (lockDiscipline L) s
  nodes : NodesOk s
  queued : ∀ l u, u ∈ s.waiters l ↔ s.BlockedOn u l

/-- What holds where the CPU can change hands, if no priority was lost. -/
structure InheritInv (s : LockState L) : Prop extends LockRun s where
  atRest : ∀ t, AtRest (s.stack t)
  /-- Each node stands for a thread that waits. -/
  sound : ∀ o l p, (some l, p) ∈ s.inheritedPriorities o → ∃ w ∈ s.waiters l, p ≤ s.effective w
  /-- The owner of a lock has the priorities of those who wait for it. -/
  complete : ∀ l o, s.lockOwner l = some o → ∀ w ∈ s.waiters l,
    s.effective w ≤ s.priority o ∨ ∃ p, (some l, p) ∈ s.inheritedPriorities o ∧ s.effective w ≤ p

namespace InheritInv

theorem notMem_waiters (h : InheritInv s) (hawake : s.asleep t = false) (l : L) : t ∉ s.waiters l := by
  intro hmem
  rw [((h.queued l t).mp hmem).1] at hawake
  cases hawake

/-- Nobody waits for a lock of its own. -/
theorem owner_notMem (h : InheritInv s) {o : Tid} (ho : s.lockOwner l = some o) : o ∉ s.waiters l := by
  intro hmem
  have hheld := ((h.locks.lock l).owner o).mp ho
  have hhead := ((h.queued l o).mp hmem).2
  rcases h.atRest o with hnil | ⟨l', hp⟩ | ⟨l', hown⟩
  · rw [hnil] at hhead
    cases hhead
  · rw [hp] at hhead
    cases hhead
    rw [State.phase, hp] at hheld
    simp [phaseOf, Frame.use] at hheld
  · rw [hown] at hhead
    cases hhead

/-- A lock with an owner has no unit. -/
theorem value_eq_zero (h : InheritInv s) {o : Tid} (ho : s.lockOwner l = some o) :
    (s.semaphores (.lock l)).value = 0 := by
  obtain ⟨-, hout⟩ | ⟨hzero, -⟩ := (h.locks.lock l).value
  · have hheld := ((h.locks.lock l).owner o).mp ho
    rw [hout o] at hheld
    cases hheld
  · exact hzero

/-- What a lock covers, its owner has through it. -/
theorem covered (h : InheritInv s) {o : Tid} {p : Int} (ho : s.lockOwner l = some o)
    (hcov : s.Covers o l p) :
    p ≤ s.priority o ∨ ∃ q, (some l, q) ∈ s.inheritedPriorities o ∧ p ≤ q := by
  rcases hcov with hown | ⟨w, hw, hle⟩
  · exact Or.inl hown
  · rcases h.complete l o ho w hw with hle' | ⟨q, hq, hle'⟩
    · exact Or.inl (Int.le_trans hle hle')
    · exact Or.inr ⟨q, hq, Int.le_trans hle hle'⟩

/-- The equation holds. -/
theorem inherits (h : InheritInv s) : s.Inherits := by
  intro t
  have hupper : ∀ l u, s.lockOwner l = some t → u ∈ s.waiters l → s.effective u ≤ s.effective t := by
    intro l u ho hu
    rcases h.complete l t ho u hu with hle | ⟨p, hp, hle⟩
    · exact Int.le_trans hle (getPriority_le _ _)
    · exact Int.le_trans hle (node_le_getPriority _ hp)
  refine ⟨?_, ?_⟩
  · rcases getPriority_cases (s.priority t) (s.inheritedPriorities t) with heq | ⟨l, p, hmem, heq⟩
    · exact Or.inl heq
    · -- the node stands for a waiter, whose priority the owner has
      obtain ⟨w, hw, hle⟩ := h.sound t l p hmem
      have ho := h.nodes.owned t l p hmem
      refine Or.inr ⟨l, w, ho, (h.queued l w).mp hw, ?_⟩
      have heff : s.effective t = p := heq
      have := hupper l w ho hw
      omega
  · rintro p (rfl | ⟨l, u, ho, hblocked, rfl⟩)
    · exact getPriority_le _ _
    · exact hupper l u ho ((h.queued l u).mpr hblocked)

end InheritInv

theorem lockRun_of_reachable (hr : Reachable (lockUsers L) (LockState.start L priority) s) : LockRun s := by
  have hlocks : LocksOk (lockDiscipline L) (LockState.start L priority) := LocksOk.start fun _ _ => rfl
  refine ⟨hlocks.reachable hr, (NodesOk.start _ _ _).reachable hlocks hr, ?_⟩
  have hsem := (SemInv.start (L := L) (C := Empty) (κ := Empty) Empty.elim priority
    (fun _ _ => false : Tid → L → Bool) Empty.rec).reachable hr
  intro l u
  exact hsem.mem_queue (.lock l) u

namespace InheritInv

theorem effective_congr {u : Tid} (hprio : s'.priority = s.priority)
    (hnodes : s'.inheritedPriorities u = s.inheritedPriorities u) : s'.effective u = s.effective u := by
  rw [State.effective, State.effective, hprio, hnodes]

/-- A thread goes to sleep on `l`, or takes its unit; nobody inherits anything. -/
theorem quiet (h : InheritInv s) (hrun : LockRun s') (hprio : s'.priority = s.priority)
    (hnodes : s'.inheritedPriorities = s.inheritedPriorities) (hown : s'.lockOwner = s.lockOwner)
    (hstack : ∀ u, AtRest (s'.stack u))
    (hwaiters : WaitersAppend s s' t l ∧ (∀ o, s.lockOwner l = some o → s.Covers o l (s.effective t)) ∨
      s'.waiters = s.waiters) : InheritInv s' := by
  have heff : ∀ u, s'.effective u = s.effective u := fun u => effective_congr hprio (by rw [hnodes])
  have hsub : ∀ l' w, w ∈ s.waiters l' → w ∈ s'.waiters l' := by
    intro l' w hw
    rcases hwaiters with ⟨⟨happend, hother⟩, -⟩ | hsame
    · by_cases hl : l' = l
      · subst hl
        rw [happend]
        exact List.mem_append_left _ hw
      · rw [hother l' hl]
        exact hw
    · rw [hsame]
      exact hw
  refine ⟨hrun, hstack, ?_, ?_⟩
  · intro o l' p hmem
    rw [hnodes] at hmem
    obtain ⟨w, hw, hle⟩ := h.sound o l' p hmem
    exact ⟨w, hsub l' w hw, by rwa [heff]⟩
  · intro l' o ho w hw
    rw [hown] at ho
    rw [heff, hprio, hnodes]
    rcases hwaiters with ⟨⟨happend, hother⟩, hcov⟩ | hsame
    · by_cases hl : l' = l
      · subst hl
        rw [happend, List.mem_append, List.mem_singleton] at hw
        rcases hw with hw | rfl
        · exact h.complete l' o ho w hw
        · exact h.covered ho (hcov o ho)
      · rw [hother l' hl] at hw
        exact h.complete l' o ho w hw
    · rw [hsame] at hw
      exact h.complete l' o ho w hw

/-- `Acquire` of a lock that has an owner. -/
theorem donate (h : InheritInv s) {o : Tid} (hrun : LockRun s') (hto : s.lockOwner l = some o)
    (hne : o ≠ t) (hprio : s'.priority = s.priority)
    (hnodes : s'.inheritedPriorities = Function.update s.inheritedPriorities o
      (setInheritedPriority (s.inheritedPriorities o) l (s.effective t)))
    (hown : s'.lockOwner = s.lockOwner) (hstack : ∀ u, AtRest (s'.stack u))
    (hwaiters : WaitersAppend s s' t l)
    (hhigh : ∀ w ∈ s.waiters l, s.effective w ≤ s.effective t ∨ s.effective w ≤ s.priority o)
    (hchain : ∀ l', o ∈ s.waiters l' → ∀ o' ∈ s.lockOwner l', s.Covers o' l' (s.effective t)) :
    InheritInv s' := by
  obtain ⟨happend, hother⟩ := hwaiters
  have heff : ∀ u, u ≠ o → s'.effective u = s.effective u := fun u hu =>
    effective_congr hprio (by rw [hnodes, Function.update_of_ne hu])
  -- the nodes of the owner
  have hmem : ∀ l' p, (some l', p) ∈ s'.inheritedPriorities o ↔
      (l' = l ∧ p = s.effective t) ∨ (l' ≠ l ∧ (some l', p) ∈ s.inheritedPriorities o) := by
    intro l' p
    rw [hnodes, Function.update_self]
    exact mem_set (h.nodes.distinct o)
  have hkept : ∀ u l' p, l' ≠ l → (some l', p) ∈ s.inheritedPriorities u →
      (some l', p) ∈ s'.inheritedPriorities u := by
    intro u l' p hl hp
    by_cases hu : u = o
    · subst hu
      exact (hmem l' p).mpr (Or.inr ⟨hl, hp⟩)
    · rw [hnodes, Function.update_of_ne hu]
      exact hp
  have hown_le : s.priority o ≤ s'.effective o := by
    rw [← hprio]
    exact getPriority_le _ _
  have hnew_le : s.effective t ≤ s'.effective o :=
    node_le_getPriority _ ((hmem l _).mpr (Or.inl ⟨rfl, rfl⟩))
  -- the priority of the owner does not fall
  have hup : s.effective o ≤ s'.effective o := by
    rcases getPriority_cases (s.priority o) (s.inheritedPriorities o) with heq | ⟨l', p, hp, heq⟩
    · exact Int.le_trans (Int.le_of_eq heq) hown_le
    · refine Int.le_trans (Int.le_of_eq heq) ?_
      by_cases hl : l' = l
      · subst hl
        obtain ⟨w, hw, hle⟩ := h.sound o l' p hp
        rcases hhigh w hw with hwt | hwo
        · exact Int.le_trans hle (Int.le_trans hwt hnew_le)
        · exact Int.le_trans hle (Int.le_trans hwo hown_le)
      · exact node_le_getPriority _ ((hmem l' p).mpr (Or.inr ⟨hl, hp⟩))
  -- and rises to that of the caller at most
  have hdown : s'.effective o ≤ s.effective o ∨ s'.effective o = s.effective t := by
    rcases getPriority_cases (s'.priority o) (s'.inheritedPriorities o) with heq | ⟨l', p, hp, heq⟩
    · refine Or.inl (Int.le_trans (Int.le_of_eq heq) ?_)
      rw [hprio]
      exact getPriority_le _ _
    · rcases (hmem l' p).mp hp with ⟨-, rfl⟩ | ⟨-, hp⟩
      · exact Or.inr heq
      · exact Or.inl (Int.le_trans (Int.le_of_eq heq) (node_le_getPriority _ hp))
  have hle : ∀ u, s.effective u ≤ s'.effective u := by
    intro u
    by_cases hu : u = o
    · rw [hu]
      exact hup
    · exact Int.le_of_eq (heff u hu).symm
  have hold : ∀ u l' p, (some l', p) ∈ s.inheritedPriorities u → ∃ w ∈ s'.waiters l', p ≤ s'.effective w := by
    intro u l' p hp
    obtain ⟨w, hw, hpw⟩ := h.sound u l' p hp
    refine ⟨w, ?_, Int.le_trans hpw (hle w)⟩
    by_cases hl : l' = l
    · subst hl
      rw [happend]
      exact List.mem_append_left _ hw
    · rw [hother l' hl]
      exact hw
  refine ⟨hrun, hstack, ?_, ?_⟩
  · intro u l' p hp
    by_cases hu : u = o
    · subst hu
      rcases (hmem l' p).mp hp with ⟨rfl, rfl⟩ | ⟨-, hp⟩
      · refine ⟨t, ?_, hle t⟩
        rw [happend]
        exact List.mem_append_right _ (List.mem_singleton_self t)
      · exact hold u l' p hp
    · rw [hnodes, Function.update_of_ne hu] at hp
      exact hold u l' p hp
  · intro l' o' ho w hw
    rw [hown] at ho
    rw [hprio]
    by_cases hl : l' = l
    · subst hl
      rw [hto, Option.some.injEq] at ho
      subst ho
      have hnode := (hmem l' (s.effective t)).mpr (Or.inl ⟨rfl, rfl⟩)
      rw [happend, List.mem_append, List.mem_singleton] at hw
      rcases hw with hw | rfl
      · have hwo : w ≠ o := by
          rintro rfl
          exact h.owner_notMem hto hw
        rw [heff w hwo]
        rcases hhigh w hw with hwt | hwo'
        · exact Or.inr ⟨s.effective t, hnode, hwt⟩
        · exact Or.inl hwo'
      · rw [heff w hne.symm]
        exact Or.inr ⟨_, hnode, Int.le_refl _⟩
    · rw [hother l' hl] at hw
      have hlift : ∀ p, (p ≤ s.priority o' ∨ ∃ q, (some l', q) ∈ s.inheritedPriorities o' ∧ p ≤ q) →
          p ≤ s.priority o' ∨ ∃ q, (some l', q) ∈ s'.inheritedPriorities o' ∧ p ≤ q := by
        intro p hp
        refine hp.imp id ?_
        rintro ⟨q, hq, hpq⟩
        exact ⟨q, hkept o' l' q hl hq, hpq⟩
      by_cases hwo : w = o
      · subst hwo
        rcases hdown with hsame | htop
        · rcases hlift _ (h.complete l' o' ho w hw) with hle' | ⟨q, hq, hle'⟩
          · exact Or.inl (Int.le_trans hsame hle')
          · exact Or.inr ⟨q, hq, Int.le_trans hsame hle'⟩
        · rw [htop]
          exact hlift _ (h.covered ho (hchain l' hw o' ho))
      · rw [heff w hwo]
        exact hlift _ (h.complete l' o' ho w hw)

/-- A thread becomes the owner of a lock. -/
theorem own (h : InheritInv s) (hrun : LockRun s') (hprio : s'.priority = s.priority)
    (hnodes : s'.inheritedPriorities = s.inheritedPriorities)
    (hown : s'.lockOwner = Function.update s.lockOwner l (some t)) (hwaiters : s'.waiters = s.waiters)
    (hstack : ∀ u, AtRest (s'.stack u)) (hlow : ∀ w ∈ s.waiters l, s.effective w ≤ s.priority t) :
    InheritInv s' := by
  have heff : ∀ u, s'.effective u = s.effective u := fun u => effective_congr hprio (by rw [hnodes])
  refine ⟨hrun, hstack, ?_, ?_⟩
  · intro o l' p hmem
    rw [hnodes] at hmem
    obtain ⟨w, hw, hle⟩ := h.sound o l' p hmem
    exact ⟨w, by rwa [hwaiters], by rwa [heff]⟩
  · intro l' o ho w hw
    rw [hwaiters] at hw
    rw [heff, hprio, hnodes]
    by_cases hl : l' = l
    · subst hl
      rw [hown, Function.update_self, Option.some.injEq] at ho
      subst ho
      exact Or.inl (hlow w hw)
    · rw [hown, Function.update_of_ne hl] at ho
      exact h.complete l' o ho w hw

/-- The owner of a lock releases it: what it inherited through other locks stays. -/
theorem release (h : InheritInv s) (hrun : LockRun s') (hawake : s.asleep t = false)
    (howner : s.lockOwner l = some t) (hprio : s'.priority = s.priority)
    (hnodes : s'.inheritedPriorities = Function.update s.inheritedPriorities t
      (removeInheritedPriority (s.inheritedPriorities t) l))
    (hown : s'.lockOwner = Function.update s.lockOwner l none)
    (hwaiters : ∀ l', l' ≠ l → s'.waiters l' = s.waiters l') (hstack : ∀ u, AtRest (s'.stack u)) :
    InheritInv s' := by
  have heff : ∀ u, u ≠ t → s'.effective u = s.effective u := fun u hu =>
    effective_congr hprio (by rw [hnodes, Function.update_of_ne hu])
  have hne : ∀ l' w, w ∈ s.waiters l' → w ≠ t := by
    rintro l' w hw rfl
    exact h.notMem_waiters hawake l' hw
  refine ⟨hrun, hstack, ?_, ?_⟩
  · intro o l' p hmem
    have hold : l' ≠ l ∧ (some l', p) ∈ s.inheritedPriorities o := by
      rw [hnodes] at hmem
      by_cases ho : o = t
      · subst ho
        rw [Function.update_self] at hmem
        exact mem_remove.mp hmem
      · rw [Function.update_of_ne ho] at hmem
        refine ⟨?_, hmem⟩
        rintro rfl
        rw [h.nodes.owned o l' p hmem, Option.some.injEq] at howner
        exact ho howner
    obtain ⟨w, hw, hle⟩ := h.sound o l' p hold.2
    refine ⟨w, by rwa [hwaiters l' hold.1], ?_⟩
    rwa [heff w (hne l' w hw)]
  · intro l' o ho w hw
    have hl : l' ≠ l := by
      rintro rfl
      rw [hown, Function.update_self] at ho
      cases ho
    rw [hown, Function.update_of_ne hl] at ho
    rw [hwaiters l' hl] at hw
    rw [heff w (hne l' w hw), hprio]
    refine (h.complete l' o ho w hw).imp id ?_
    rintro ⟨p, hp, hle⟩
    refine ⟨p, ?_, hle⟩
    rw [hnodes]
    by_cases ho' : o = t
    · subst ho'
      rw [Function.update_self]
      exact mem_remove.mpr ⟨hl, hp⟩
    · rw [Function.update_of_ne ho']
      exact hp

/-- A call that loses no priority keeps the invariant. -/
theorem step (h : InheritInv s) {e : LockEvent L} (hkeep : s.KeepsInheritance e)
    (hs : s.step e = some s') (hrun : LockRun s') : InheritInv s' := by
  have hrest : ∀ {u}, AtRest (s'.stack u) → (∀ w, w ≠ u → s'.stack w = s.stack w) →
      ∀ w, AtRest (s'.stack w) := by
    intro u hu hothers w
    by_cases hw : w = u
    · rw [hw]
      exact hu
    · rw [hothers w hw]
      exact h.atRest w
  cases e with
  | acquire t l =>
    obtain ⟨-, -, hne, hprio, hown, hnodes, hothers, hat, hwait⟩ := step_acquire hs
    cases ho : s.lockOwner l with
    | none =>
      have hsame : s'.inheritedPriorities = s.inheritedPriorities := by
        rw [hnodes, State.inherit, ho]
      refine h.quiet (t := t) (l := l) hrun hprio hsame hown (hrest hat hothers) ?_
      refine hwait.imp (fun hz => ⟨hz.2, ?_⟩) fun hz => hz.2
      intro o ho'
      rw [ho] at ho'
      cases ho'
    | some o =>
      have hnodes' := hnodes
      rw [State.inherit, ho] at hnodes'
      obtain ⟨hhigh, hchain⟩ := hkeep o ho
      refine h.donate hrun ho ?_ hprio hnodes' hown (hrest hat hothers) ?_ hhigh hchain
      · rintro rfl
        exact hne ho
      · rcases hwait with hz | hz
        · exact hz.2
        · exact absurd (h.value_eq_zero ho) hz.1
  | resume t =>
    obtain ⟨-, hprio, hnodes, hothers, hat, hcase⟩ := step_resume (h.atRest t) hs
    rcases hcase with ⟨l, hstack, hown, hwait⟩ | ⟨l, hstack, hown, hwaiters⟩
    · have hcov : (s.semaphores (.lock l)).value = 0 →
          ∀ o ∈ s.lockOwner l, s.Covers o l (s.effective t) := by
        simpa [State.KeepsInheritance, State.KeepsOnResume, hstack] using hkeep
      refine h.quiet (t := t) (l := l) hrun hprio hnodes hown (hrest hat hothers) ?_
      exact hwait.imp (fun hz => ⟨hz.2, hcov hz.1⟩) id
    · have hlow : ∀ w ∈ s.waiters l, s.effective w ≤ s.priority t := by
        simpa [State.KeepsInheritance, State.KeepsOnResume, hstack] using hkeep
      exact h.own hrun hprio hnodes hown hwaiters (hrest hat hothers) hlow
  | release t l =>
    obtain ⟨hawake, -, howner, hprio, hown, hnodes, hothers, hstack, hwaiters⟩ := step_release hs
    exact h.release hrun hawake howner hprio hnodes hown hwaiters
      (hrest (Or.inl hstack) hothers)

theorem start (L : Type) [DecidableEq L] (priority : Tid → Int) : InheritInv (LockState.start L priority) where
  toLockRun := lockRun_of_reachable ⟨[], rfl⟩
  atRest := fun _ => Or.inl rfl
  sound := by
    intro o l p hmem
    cases hmem
  complete := by
    intro l o ho
    cases ho

end InheritInv

/-- The steps of the source are steps of `Synch`. -/
theorem reachable_step {s0 : LockState L} {e : LockEvent L} (hr : Reachable (lockUsers L) s0 s)
    (hs : s.step e = some s') : Reachable (lockUsers L) s0 s' := by
  obtain ⟨es, hrun⟩ := hr
  refine ⟨es ++ e.pieces, ?_⟩
  rw [runs_append, hrun]
  exact hs

/-- In every run of calls that lose no priority, the priority of every thread is the greatest of its own
and those of the threads that are blocked on its locks. -/
theorem priority_inheritance (L : Type) [DecidableEq L] (priority : Tid → Int)
    {events : List (LockEvent L)} {s : LockState L}
    (hkeep : AllSteps LockState.step State.KeepsInheritance (LockState.start L priority) events)
    (hrun : runs LockState.step (LockState.start L priority) events = some s) : s.Inherits := by
  have hinv : Reachable (lockUsers L) (LockState.start L priority) s ∧ InheritInv s := by
    refine runs_inv (I := fun s => Reachable (lockUsers L) (LockState.start L priority) s ∧ InheritInv s)
      ?_ ⟨⟨[], rfl⟩, InheritInv.start L priority⟩ hkeep hrun
    intro s e s' hI hP hs
    have hr := reachable_step hI.1 hs
    exact ⟨hr, hI.2.step hP hs (lockRun_of_reachable hr)⟩
  exact hinv.2.inherits

end Invariant

/-- The priorities of the threads in the runs below. -/
def samplePriority (t : Tid) : Int := if t = 1 then 5 else if t = 2 then 3 else 0

/-- The thread 0 takes the lock, and two others wait for it. -/
def lockAndWait (first second : Tid) : List (LockEvent Unit) :=
  [.acquire 0 (), .resume 0, .acquire first (), .acquire second ()]

instance {L : Type} [DecidableEq L] (s : LockState L) (o : Tid) (l : L) (p : Int) :
    Decidable (s.Covers o l p) := inferInstanceAs (Decidable (_ ≤ _ ∨ ∃ w ∈ s.waiters l, _))

instance {L : Type} [DecidableEq L] (s : LockState L) (t : Tid) : DecidablePred (s.KeepsOnResume t)
  | some (.p (.lock l)) => inferInstanceAs (Decidable (_ = _ → ∀ o ∈ s.lockOwner l, _))
  | some (.own l) => inferInstanceAs (Decidable (∀ w ∈ s.waiters l, _ ≤ _))
  | none | some (.p (.sleeper _)) | some (.v _) | some (.acquire _) | some (.release _) =>
    inferInstanceAs (Decidable True)

instance {L : Type} [DecidableEq L] [Fintype L] (s : LockState L) :
    DecidablePred s.KeepsInheritance
  | .acquire t l => inferInstanceAs (Decidable (∀ o ∈ s.lockOwner l, _))
  | .resume t => inferInstanceAs (Decidable (s.KeepsOnResume t _))
  | .release t l => inferInstanceAs (Decidable True)

/-- The waiters arrive in the order of their priorities. -/
theorem priority_inheritance_rising : ∃ s,
    runs LockState.step (LockState.start Unit samplePriority) (lockAndWait 2 1) = some s ∧
      s.effective 0 = 5 ∧ s.Inherits := by
  have hview : (runs LockState.step (LockState.start Unit samplePriority) (lockAndWait 2 1)).map
      (fun s => s.effective 0) = some 5 := by rfl
  obtain ⟨s, hs, heff⟩ := Option.map_eq_some_iff.mp hview
  refine ⟨s, hs, heff, priority_inheritance Unit samplePriority ?_ hs⟩
  decide

/-- The priority of the second waiter takes the place of the higher one of the first. -/
theorem lower_waiter_overwrites :
    ¬ ∀ (priority : Tid → Int) (events : List (LockEvent Unit)) (s : LockState Unit),
      runs LockState.step (LockState.start Unit priority) events = some s → s.Inherits := by
  intro hall
  have hview : (runs LockState.step (LockState.start Unit samplePriority) (lockAndWait 1 2)).map
      (fun s => (s.effective 0, s.effective 1, s.lockOwner (), s.asleep 1, s.stack 1)) =
      some (3, 5, some 0, true, [.p (.lock ()), .own ()]) := by rfl
  obtain ⟨s, hs, hvals⟩ := Option.map_eq_some_iff.mp hview
  simp only [Prod.mk.injEq] at hvals
  obtain ⟨h0, h1, hown, hasleep, hstack⟩ := hvals
  have hle := (hall samplePriority _ s hs 0).2
    (Or.inr ⟨(), 1, hown, ⟨hasleep, by rw [hstack]; rfl⟩, rfl⟩)
  rw [h0, h1] at hle
  exact absurd hle (by decide)

end Nachos.Synch
