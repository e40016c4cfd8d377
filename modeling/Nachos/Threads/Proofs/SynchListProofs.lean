import Nachos.Threads.Proofs.ConditionProofs
import Nachos.Threads.SynchList

/-!
# Proofs: synchronised lists

While threads are queued on `listEmpty`, every item of the list has a thread that was signalled for it
and has not tested the list again, or the thread that holds the lock is about to signal or to take it.
-/

namespace Nachos.Synch

open Foundations

variable {α : Type} {s s' : ListState α} {t u : Tid}

/-! ## The lock -/

/-- The code of a list runs with the lock held. -/
def listDiscipline (α : Type) : Discipline (listUsers α) where
  use := fun _ _ => some ⟨.held, .held⟩
  home := fun _ _ _ => .out
  call_home := by
    intros
    rfl
  call_fits := by
    intro i t sh r hr l
    cases i with
    | append item =>
      cases hr
      simp [SynchList.append, Fits, phaseOf, Frame.use]
    | pop =>
      cases hr
      simp [SynchList.pop, Fits, phaseOf, Frame.use]
  exec_home := by
    intros
    rfl
  exec_fits := by
    intro code t sh r hr l last hlast
    have hheld := hlast _ rfl
    subst hheld
    cases code with
    | append item =>
      cases hr
      simp [Fits, phaseOf]
    | loop =>
      simp only [listUsers, SynchList.exec] at hr
      split at hr
      · cases hr
        simp [Fits, phaseOf, Frame.use]
      · cases hr
        simp [Fits, phaseOf]
    | pop =>
      cases hr
      simp [Fits, phaseOf]

theorem listUsers_plain (α : Type) : PlainSystem (listUsers α) where
  call := by
    intro i t sh r hr
    cases i with
    | append item =>
      cases hr
      simp [SynchList.append, Frame.Plain]
    | pop =>
      cases hr
      simp [SynchList.pop, Frame.Plain]
  exec := by
    intro code t sh r hr
    cases code with
    | append item | pop =>
      cases hr
      simp
    | loop =>
      simp only [listUsers, SynchList.exec] at hr
      split at hr
      · cases hr
        simp [Frame.Plain]
      · cases hr
        simp

/-- The invariant of the primitives, for the list. -/
abbrev ListOk (s : ListState α) : Prop := ∃ init, SynchInv (listDiscipline α) init s

/-- A thread whose first frame needs the lock holds it. -/
theorem ListOk.owner {f : ListFrame α} {rest : List (ListFrame α)} {a : Phase} (h : ListOk s)
    (hstack : s.stack t = f :: rest)
    (huse : f.use (fun _ => ()) (fun _ _ => some ⟨.held, .held⟩) () = some ⟨.held, a⟩) :
    s.lockOwner () = some t := by
  obtain ⟨_, h⟩ := h
  refine ((h.locks.lock ()).owner t).mpr ?_
  simp only [State.phase, hstack, phaseOf]
  rw [show f.use (listUsers α).lockOf (listDiscipline α).use () = _ from huse]

/-- The lock has no owner when a thread is past the `P` of its `Acquire`. -/
theorem ListOk.no_owner {rest : List (ListFrame α)} (h : ListOk s) (hstack : s.stack t = .own () :: rest) :
    s.lockOwner () = none := by
  obtain ⟨_, h⟩ := h
  have hgot : s.phase (listDiscipline α) t () = .got := by
    simp [State.phase, hstack, phaseOf, Frame.use]
  by_contra hne
  obtain ⟨u, hu⟩ := Option.ne_none_iff_exists'.mp hne
  have hheld := ((h.locks.lock ()).owner u).mp hu
  have hut := (h.locks.lock ()).unique u t (by rw [hheld]; simp) (by rw [hgot]; simp)
  rw [hut, hgot] at hheld
  cases hheld

/-! ## The stacks -/

/-- What is left of a `Pop` that has the lock. -/
def popRest (α : Type) : List (ListFrame α) := [.code .loop, .code .pop, .release ()]

/-- What a thread does once it has the lock. -/
inductive Start : List (ListFrame α) → Prop where
  | append {item : α} : Start [.code (.append item), .signal (), .release ()]
  | pop : Start (popRest α)
  | again {n : Nat} : Start (.waitReturn () n :: popRest α)

/-- The stacks of the threads. -/
inductive Shape : List (ListFrame α) → Prop where
  | idle : Shape []
  | acquire {rest : List (ListFrame α)} : Start rest → Shape (.acquire () :: rest)
  | p {rest : List (ListFrame α)} : Start rest → Shape (.p (.lock ()) :: .own () :: rest)
  | own {rest : List (ListFrame α)} : Start rest → Shape (.own () :: rest)
  | start {rest : List (ListFrame α)} : Start rest → Shape rest
  | signal : Shape [.signal (), .release ()]
  | raise {n : Nat} : Shape [.v (.sleeper n), .release ()]
  | wait : Shape (.wait () :: popRest α)
  | releasing {n : Nat} : Shape (.release () :: .p (.sleeper n) :: .acquire () :: .waitReturn () n :: popRest α)
  | freeing {n : Nat} :
      Shape (.v (.lock ()) :: .p (.sleeper n) :: .acquire () :: .waitReturn () n :: popRest α)
  | sleeping {n : Nat} : Shape (.p (.sleeper n) :: .acquire () :: .waitReturn () n :: popRest α)
  | found : Shape [.code .pop, .release ()]
  | release : Shape [.release ()]
  | v : Shape [.v (.lock ())]

/-! ## The invariant -/

/-- One if the thread with this stack, which has the lock, takes care of an item: it is about to signal,
or to test the list or take the item. -/
def covers : List (ListFrame α) → Nat
  | .signal _ :: _ | .code .loop :: _ | .code .pop :: _ => 1
  | _ => 0

/-- One if the thread that holds the lock takes care of an item. -/
def covered (s : ListState α) : Nat := (s.lockOwner ()).elim 0 fun t => covers (s.stack t)

structure ListInv (s : ListState α) : Prop where
  ok : ListOk s
  shape : ∀ t, Shape (s.stack t)
  fifo : s.shared.appended.map some = s.shared.popped.map Prod.snd ++ s.shared.list.map some
  found : ∀ t rest, s.stack t = .code .pop :: rest → s.shared.list ≠ []
  empty : ∀ t rest, s.stack t = .wait () :: rest → s.shared.list = []
  /-- While threads are queued, others were signalled for the items. -/
  enough : s.colaProcesosDormidos () ≠ [] →
    s.shared.list.length ≤ (signalled (s.log ())).length + covered s

namespace ListInv

theorem start (α : Type) (priority : Tid → Int) : ListInv (listStart α priority) where
  ok := ⟨_, SynchInv.start (fun n => n.elim) fun _ _ => rfl⟩
  shape := fun _ => .idle
  fifo := rfl
  found := by simp [listStart, State.start]
  empty := by simp [listStart, State.start]
  enough := by simp [listStart, State.start]

theorem shape_update (h : ListInv s) (hother : ∀ u, u ≠ t → s'.stack u = s.stack u)
    (hshape : Shape (s'.stack t)) (u : Tid) : Shape (s'.stack u) := by
  by_cases hu : u = t
  · subst hu
    exact hshape
  · rw [hother u hu]
    exact h.shape u

/-- A thread that takes no care of an item makes a step inside the lock or a semaphore. -/
theorem quiet (h : ListInv s) (hok : ListOk s') (hother : ∀ u, u ≠ t → s'.stack u = s.stack u)
    (hshape : Shape (s'.stack t)) (hpop : ∀ rest, s'.stack t ≠ .code .pop :: rest)
    (hwait : ∀ rest, s'.stack t ≠ .wait () :: rest) (hzero : covers (s.stack t) = 0)
    (howner : s'.lockOwner () = s.lockOwner () ∨ s.lockOwner () = none ∨ s.lockOwner () = some t)
    (hshared : s'.shared = s.shared) (hcola : s'.colaProcesosDormidos = s.colaProcesosDormidos)
    (hlog : s'.log = s.log) : ListInv s' := by
  refine ⟨hok, h.shape_update hother hshape, by rw [hshared]; exact h.fifo, ?_, ?_, ?_⟩
  · intro u rest hu
    have hut : u ≠ t := by
      rintro rfl
      exact hpop rest hu
    rw [hother u hut] at hu
    rw [hshared]
    exact h.found u rest hu
  · intro u rest hu
    have hut : u ≠ t := by
      rintro rfl
      exact hwait rest hu
    rw [hother u hut] at hu
    rw [hshared]
    exact h.empty u rest hu
  · have hle : covered s ≤ covered s' := by
      unfold covered
      rcases howner with ho | ho | ho
      · rw [ho]
        cases hown : s.lockOwner () with
        | none => exact Nat.le_refl _
        | some u =>
          by_cases hu : u = t
          · rw [hu]
            show covers (s.stack t) ≤ _
            rw [hzero]
            exact Nat.zero_le _
          · show covers (s.stack u) ≤ covers (s'.stack u)
            rw [hother u hu]
      · rw [ho]
        exact Nat.zero_le _
      · rw [ho]
        show covers (s.stack t) ≤ _
        rw [hzero]
        exact Nat.zero_le _
    intro hq
    rw [hcola] at hq
    have := h.enough hq
    rw [hshared, hlog]
    omega

/-- A thread that holds the lock makes a step. -/
theorem owned (h : ListInv s) (hok : ListOk s') (hother : ∀ u, u ≠ t → s'.stack u = s.stack u)
    (hshape : Shape (s'.stack t)) (ho : s'.lockOwner () = some t)
    (hfifo : s'.shared.appended.map some = s'.shared.popped.map Prod.snd ++ s'.shared.list.map some)
    (hfound : ∀ rest, s'.stack t = .code .pop :: rest → s'.shared.list ≠ [])
    (hempty : ∀ rest, s'.stack t = .wait () :: rest → s'.shared.list = [])
    (henough : s'.colaProcesosDormidos () ≠ [] →
      s'.shared.list.length ≤ (signalled (s'.log ())).length + covers (s'.stack t)) : ListInv s' := by
  -- no other thread has the lock
  have honly : ∀ u, s'.lockOwner () = some u → u = t := by
    intro u hu
    rw [ho, Option.some.injEq] at hu
    exact hu.symm
  refine ⟨hok, h.shape_update hother hshape, hfifo, ?_, ?_, ?_⟩
  · intro u rest hu
    have hut := honly u (hok.owner hu rfl)
    subst hut
    exact hfound rest hu
  · intro u rest hu
    have hut := honly u (hok.owner hu rfl)
    subst hut
    exact hempty rest hu
  · unfold covered
    rw [ho]
    exact henough

end ListInv

/-! ## Steps -/

section Exec

variable {f : ListFrame α} {rest : List (ListFrame α)}

theorem start_ne_pop (h : Start rest) (r : List (ListFrame α)) : rest ≠ .code .pop :: r := by
  cases h <;> simp [popRest]

theorem start_ne_wait (h : Start rest) (r : List (ListFrame α)) : rest ≠ .wait () :: r := by
  cases h <;> simp [popRest]

/-- A thread that has the lock and starts to use the list. -/
theorem ListInv.exec_start (h : ListInv s) (hok : ListOk s') (hstart : Start (f :: rest))
    (hstack : s.stack t = f :: rest) (hexec : s.execFrame (listUsers α) t f rest = some s') :
    ListInv s' := by
  have hother : ∀ u, u ≠ t → s'.stack u = s.stack u := fun u hu => execFrame_stack_other hexec hu
  cases hstart with
  | append =>
    rename_i item
    have ho := h.ok.owner hstack rfl
    cases hexec
    have henough := h.enough
    refine h.owned hok hother (by simpa [State.setStack] using Shape.signal) ho ?_ ?_ ?_ ?_
    · simp [h.fifo]
    · simp [State.setStack]
    · simp [State.setStack]
    · intro hq
      have := henough hq
      simp only [covered, ho, Option.elim_some, hstack, covers] at this
      simp [State.setStack, covers]
      exact this
  | pop =>
    have ho := h.ok.owner hstack rfl
    simp only [State.execFrame, listUsers, SynchList.exec, Option.map_eq_some_iff] at hexec
    obtain ⟨r, hr, rfl⟩ := hexec
    have henough := h.enough
    simp only [covered, ho, Option.elim_some, hstack, covers] at henough
    split at hr
    · rename_i hempty
      cases hr
      have hnil : s.shared.list = [] := List.isEmpty_iff.mp hempty
      refine h.owned hok hother (by simpa [State.setStack, popRest] using Shape.wait) ho h.fifo ?_ ?_ ?_
      · simp [State.setStack]
      · exact fun _ _ => hnil
      · intro hq
        simp [hnil]
    · rename_i hne
      cases hr
      refine h.owned hok hother (by simpa [State.setStack] using Shape.found) ho h.fifo ?_ ?_ ?_
      · intro r _ hnil
        exact hne (List.isEmpty_iff.mpr hnil)
      · simp [State.setStack]
      · intro hq
        simp [State.setStack, covers]
        exact henough hq
  | again =>
    rename_i n
    obtain ⟨_, hs⟩ := h.ok
    have ho : s.lockOwner () = some t := hs.owner_of_waitReturn hstack
    obtain ⟨role, status, hc⟩ := hs.cond
    have hreturn := signalled_return (hc.selects_nodup ()) t n
    have henough := h.enough
    simp only [covered, ho, Option.elim_some, hstack, covers] at henough
    cases hexec
    refine h.owned hok hother (by simpa [State.setStack, State.addLog] using Shape.start Start.pop) ho
      h.fifo ?_ ?_ ?_
    · simp [State.setStack, State.addLog, popRest]
    · simp [State.setStack, State.addLog, popRest]
    · intro hq
      have := henough hq
      simp only [State.setStack, State.addLog, Function.update_self, covers, popRest]
      omega

/-- A thread is in `P`. -/
theorem ListInv.exec_p {j : SemId Unit Empty} (h : ListInv s) (hok : ListOk (s.p t j rest))
    (hstack : s.stack t = .p j :: rest) (hshape : Shape rest) (hpop : ∀ r, rest ≠ .code .pop :: r)
    (hwait : ∀ r, rest ≠ .wait () :: r) : ListInv (s.p t j rest) := by
  have hexec : s.execFrame (listUsers α) t (.p j) rest = some (s.p t j rest) := rfl
  obtain ⟨hsh, hown, hcola, hlog, hst⟩ := p_same s t j rest
  refine h.quiet (t := t) hok (fun u hu => execFrame_stack_other hexec hu) ?_ ?_ ?_
    (by rw [hstack]; rfl) (Or.inl (by rw [hown])) hsh hcola hlog
  all_goals rcases hst with hst | hst
  all_goals rw [hst]
  · exact h.shape t
  · exact hshape
  · simp [hstack]
  · exact hpop
  · simp [hstack]
  · exact hwait

/-- A thread is in `V`. -/
theorem ListInv.exec_v {j : SemId Unit Empty} (h : ListInv s) (hok : ListOk (s.v t j rest))
    (hstack : s.stack t = .v j :: rest) (hshape : Shape rest) (hpop : ∀ r, rest ≠ .code .pop :: r)
    (hwait : ∀ r, rest ≠ .wait () :: r) : ListInv (s.v t j rest) := by
  have hexec : s.execFrame (listUsers α) t (.v j) rest = some (s.v t j rest) := rfl
  obtain ⟨hsh, hown, hcola, hlog, hst⟩ := v_same s t j rest
  refine h.quiet (t := t) hok (fun u hu => execFrame_stack_other hexec hu) ?_ ?_ ?_
    (by rw [hstack]; rfl) (Or.inl (by rw [hown])) hsh hcola hlog
  all_goals rw [hst]
  · exact hshape
  · exact hpop
  · exact hwait

/-- A thread is in `Release`. -/
theorem ListInv.exec_release (h : ListInv s) (hok : ListOk s') (hstack : s.stack t = .release () :: rest)
    (hshape : Shape (.v (.lock ()) :: rest))
    (hexec : s.execFrame (listUsers α) t (.release ()) rest = some s') : ListInv s' := by
  have hother : ∀ u, u ≠ t → s'.stack u = s.stack u := fun u hu => execFrame_stack_other hexec hu
  have ho := h.ok.owner hstack rfl
  simp only [State.execFrame] at hexec
  split at hexec
  · cases hexec
    exact h.quiet hok hother (by simpa [State.setStack] using hshape) (by simp [State.setStack])
      (by simp [State.setStack]) (by rw [hstack]; rfl) (Or.inr (Or.inr ho)) rfl rfl rfl
  · cases hexec

/-- A thread signals that the list is not empty. -/
theorem ListInv.exec_signal (h : ListInv s) (hok : ListOk s')
    (hstack : s.stack t = [.signal (), .release ()])
    (hexec : s.execFrame (listUsers α) t (.signal ()) [.release ()] = some s') : ListInv s' := by
  have hother : ∀ u, u ≠ t → s'.stack u = s.stack u := fun u hu => execFrame_stack_other hexec hu
  have ho := h.ok.owner hstack rfl
  obtain ⟨_, hs⟩ := h.ok
  obtain ⟨role, status, hc⟩ := hs.cond
  have henough := h.enough
  simp only [covered, ho, Option.elim_some, hstack, covers] at henough
  simp only [State.execFrame] at hexec
  split at hexec
  · split at hexec
    · rename_i hnil
      cases hexec
      refine h.owned hok hother (by simpa [State.setStack] using Shape.release) ho h.fifo
        (by simp [State.setStack]) (by simp [State.setStack]) fun hq => ?_
      exact absurd hnil hq
    · rename_i n q hcola
      cases hexec
      have hret : n ∉ returns (s.log ()) := hc.notMem_returns (by rw [hcola]; exact List.mem_cons_self)
      refine h.owned hok hother (by simpa [State.setStack, State.select] using Shape.raise) ho h.fifo
        (by simp [State.setStack, State.select]) (by simp [State.setStack, State.select]) fun _ => ?_
      have hle := henough (by rw [hcola]; simp)
      simp only [State.setStack, State.select, Function.update_self, covers, signalled_select t hret,
        List.length_append, List.length_singleton]
      omega
  · cases hexec

/-- A thread goes to wait for an item. -/
theorem ListInv.exec_wait (h : ListInv s) (hok : ListOk s') (hstack : s.stack t = .wait () :: popRest α)
    (hexec : s.execFrame (listUsers α) t (.wait ()) (popRest α) = some s') : ListInv s' := by
  have hother : ∀ u, u ≠ t → s'.stack u = s.stack u := fun u hu => execFrame_stack_other hexec hu
  have ho := h.ok.owner hstack rfl
  have hnil := h.empty t _ hstack
  simp only [State.execFrame] at hexec
  split at hexec
  · cases hexec
    refine h.owned hok hother (by simpa [State.setStack] using Shape.releasing) ho h.fifo
      (by simp [State.setStack]) (by simp [State.setStack]) fun _ => ?_
    show s.shared.list.length ≤ _
    rw [hnil]
    exact Nat.zero_le _
  · cases hexec

/-- A thread takes an item. -/
theorem ListInv.exec_pop (h : ListInv s) (hok : ListOk s') (hstack : s.stack t = [.code .pop, .release ()])
    (hexec : s.execFrame (listUsers α) t (.code .pop) [.release ()] = some s') : ListInv s' := by
  have hother : ∀ u, u ≠ t → s'.stack u = s.stack u := fun u hu => execFrame_stack_other hexec hu
  have ho := h.ok.owner hstack rfl
  have hfound := h.found t _ hstack
  have henough := h.enough
  simp only [covered, ho, Option.elim_some, hstack, covers] at henough
  cases hexec
  obtain ⟨item, list, hlist⟩ := List.exists_cons_of_ne_nil hfound
  refine h.owned hok hother (by simpa [State.setStack] using Shape.release) ho ?_
    (by simp [State.setStack]) (by simp [State.setStack]) fun hq => ?_
  · show s.shared.appended.map some = (s.shared.popped ++ [(t, s.shared.list.head?)]).map Prod.snd ++
      s.shared.list.tail.map some
    rw [h.fifo, hlist]
    simp
  · have hle := henough hq
    show s.shared.list.tail.length ≤ _
    rw [List.length_tail]
    simp only [State.setStack]
    omega

/-- A thread executes its first frame. -/
theorem ListInv.exec (h : ListInv s) (hok : ListOk s') (hstack : s.stack t = f :: rest)
    (hexec : s.execFrame (listUsers α) t f rest = some s') : ListInv s' := by
  have hother : ∀ u, u ≠ t → s'.stack u = s.stack u := fun u hu => execFrame_stack_other hexec hu
  have hshape := h.shape t
  rw [hstack] at hshape
  cases hshape with
  | start hstart => exact h.exec_start hok hstart hstack hexec
  | acquire hstart =>
    simp only [State.execFrame] at hexec
    split at hexec
    · cases hexec
    · cases hexec
      exact h.quiet hok hother (by simpa [State.setStack] using Shape.p hstart) (by simp [State.setStack])
        (by simp [State.setStack]) (by rw [hstack]; rfl) (Or.inl rfl) rfl rfl rfl
  | p hstart =>
    cases hexec
    exact h.exec_p hok hstack (.own hstart) (by simp) (by simp)
  | own hstart =>
    have hnone := h.ok.no_owner hstack
    cases hexec
    refine h.quiet hok hother (by simpa [State.setStack] using Shape.start hstart) ?_ ?_
      (by rw [hstack]; rfl) (Or.inr (Or.inl hnone)) rfl rfl rfl
    · simpa [State.setStack] using start_ne_pop hstart
    · simpa [State.setStack] using start_ne_wait hstart
  | signal => exact h.exec_signal hok hstack hexec
  | raise =>
    cases hexec
    exact h.exec_v hok hstack .release (by simp) (by simp)
  | wait => exact h.exec_wait hok hstack hexec
  | releasing => exact h.exec_release hok hstack .freeing hexec
  | freeing =>
    cases hexec
    exact h.exec_v hok hstack .sleeping (by simp) (by simp)
  | sleeping =>
    cases hexec
    exact h.exec_p hok hstack (.acquire .again) (by simp) (by simp)
  | found => exact h.exec_pop hok hstack hexec
  | release => exact h.exec_release hok hstack .v hexec
  | v =>
    cases hexec
    exact h.exec_v hok hstack .idle (by simp) (by simp)

end Exec

namespace ListInv

/-- Every step keeps the invariant. -/
theorem step {e : Event (ListCall α)} (h : ListInv s) (hs : s.step (listUsers α) e = some s') :
    ListInv s' := by
  have hok : ListOk s' := by
    obtain ⟨init, hi⟩ := h.ok
    exact ⟨init, hi.step (listUsers_plain α) hs⟩
  cases e with
  | exec t =>
    obtain ⟨-, f, rest, hstack, hexec⟩ := step_exec_iff.mp hs
    exact h.exec hok hstack hexec
  | call t i =>
    obtain ⟨hstack, -, r, hr, rfl⟩ := step_call_iff.mp hs
    have hother : ∀ u, u ≠ t → (s.setStack t r.2).stack u = s.stack u := by
      intro u hu
      simp [State.setStack, hu]
    cases i with
    | append item =>
      cases hr
      exact h.quiet hok hother (by simpa [State.setStack, SynchList.append] using Shape.acquire Start.append)
        (by simp [State.setStack, SynchList.append]) (by simp [State.setStack, SynchList.append])
        (by rw [hstack]; rfl) (Or.inl rfl) rfl rfl rfl
    | pop =>
      cases hr
      exact h.quiet hok hother (by simpa [State.setStack, SynchList.pop, popRest] using Shape.acquire Start.pop)
        (by simp [State.setStack, SynchList.pop]) (by simp [State.setStack, SynchList.pop])
        (by rw [hstack]; rfl) (Or.inl rfl) rfl rfl rfl

/-- The invariant in every reachable state. -/
theorem reachable {priority : Tid → Int} (hr : Reachable (listUsers α) (listStart α priority) s) :
    ListInv s := by
  obtain ⟨es, hrun⟩ := hr
  exact runs_inv (fun _ _ _ hI _ hs => step hI hs) (start α priority) (AllSteps.trivial es _) hrun

end ListInv

/-! ## A blocking queue -/

/-- What the `Pop`s took are the first items that were appended, in the same order, and the list holds
the others. While the lock is free and the list is not empty, a thread is queued on `listEmpty` only if
another one was signalled and has not tested the list again. -/
theorem synchList_fifo (α : Type) (priority : Tid → Int) {s : ListState α}
    (hr : Reachable (listUsers α) (listStart α priority) s) :
    (s.shared.popped.map Prod.snd <+: s.shared.appended.map some) ∧
    (s.shared.appended.map some = s.shared.popped.map Prod.snd ++ s.shared.list.map some) ∧
    (∀ p ∈ s.shared.popped, p.2 ≠ none) ∧
    (s.lockOwner () = none → s.shared.list ≠ [] → s.colaProcesosDormidos () ≠ [] →
      ∃ t, s.Signalled t ()) := by
  have h := ListInv.reachable hr
  refine ⟨?_, h.fifo, ?_, fun hfree hne hq => ?_⟩
  · rw [h.fifo]
    exact List.prefix_append _ _
  · intro p hp hnone
    have hmem : none ∈ s.shared.appended.map some := by
      rw [h.fifo, ← hnone]
      exact List.mem_append_left _ (List.mem_map_of_mem hp)
    obtain ⟨item, -, hitem⟩ := List.mem_map.mp hmem
    cases hitem
  · obtain ⟨init, hok⟩ := h.ok
    obtain ⟨role, status, hcond⟩ := hok.cond
    obtain ⟨W, hW, hcard⟩ := hcond.signalled_threads ()
    have hle := h.enough hq
    have hpos : 0 < s.shared.list.length := List.length_pos_iff.mpr hne
    simp only [covered, hfree, Option.elim_none] at hle
    obtain ⟨t, ht⟩ := Finset.card_pos.mp (show 0 < W.card by omega)
    exact ⟨t, hW t ht⟩

/-- Two threads wait for an item and a third one appends one. -/
def twoPops : List (Event (ListCall Nat)) :=
  Event.call 0 ListCall.pop :: List.replicate 8 (Event.exec 0) ++
    Event.call 1 ListCall.pop :: List.replicate 8 (Event.exec 1) ++
    Event.call 2 (ListCall.append 5) :: List.replicate 8 (Event.exec 2)

/-- The first of them was signalled, the second one is still queued. -/
theorem synchList_fifo_twoPops : ∃ s,
    runs (State.step (listUsers Nat)) (listStart Nat fun _ => 0) twoPops = some s ∧
    s.shared.list = [5] ∧ s.colaProcesosDormidos () = [1] ∧ ∃ t, s.Signalled t () := by
  obtain ⟨s, hs⟩ := Option.isSome_iff_exists.mp (show (runs (State.step (listUsers Nat))
    (listStart Nat fun _ => 0) twoPops).isSome = true by rfl)
  have hview : (some s).map (fun s => (s.lockOwner (), s.shared.list, s.colaProcesosDormidos ())) =
      some (none, [5], [1]) := by
    rw [← hs]
    rfl
  simp only [Option.map_some, Option.some.injEq, Prod.mk.injEq] at hview
  obtain ⟨hfree, hlist, hcola⟩ := hview
  exact ⟨s, hs, hlist, hcola, (synchList_fifo Nat (fun _ => 0) ⟨_, hs⟩).2.2.2 hfree (by simp [hlist])
    (by simp [hcola])⟩

end Nachos.Synch
