import Nachos.Lib.Proofs.SortedListProofs
import Nachos.Threads.Proofs.SchedulerProofs

/-!
# Proofs: the choice of `FindNextToRun`

`FindNextToRun` pops the first thread of both ready lists and puts one of them back. What that means for
the thread it returns, when the lists were filled by `ReadyToRun`, and for the threads that stay.
-/

namespace Nachos.Kernel

variable {k k' : Kernel}

/-! ## What `FindNextToRun` does -/

/-- A list whose first thread was popped and put back. -/
def putBack : List (Tid × Int) → List (Tid × Int)
  | [] => []
  | e :: l => sortedInsert e.1 e.2 l

theorem chosen_eq_one_iff :
    k.chosen = some 1 ↔
      -1 < headKey (k.readyList 1) ∧ headKey (k.readyList 0) < headKey (k.readyList 1) := by
  unfold chosen
  split_ifs with h1 h0
  · simp only [true_iff]
    omega
  · simp only [Option.some.injEq, Fin.zero_eq_one_iff, false_iff]
    omega
  · simp only [reduceCtorEq, false_iff]
    omega

theorem chosen_eq_zero_iff :
    k.chosen = some 0 ↔
      -1 < headKey (k.readyList 0) ∧ headKey (k.readyList 1) ≤ headKey (k.readyList 0) := by
  unfold chosen
  split_ifs with h1 h0
  · simp only [Option.some.injEq, Fin.one_eq_zero_iff, false_iff]
    omega
  · simp only [true_iff]
    omega
  · simp only [reduceCtorEq, false_iff]
    omega

theorem chosen_eq_none_iff :
    k.chosen = none ↔ headKey (k.readyList 0) ≤ -1 ∧ headKey (k.readyList 1) ≤ -1 := by
  unfold chosen
  split_ifs with h1 h0
  · simp only [reduceCtorEq, false_iff]
    omega
  · simp only [reduceCtorEq, false_iff]
    omega
  · simp only [true_iff]
    omega

/-- Two states that differ in nothing but the ready lists. -/
theorem setReadyLists_ext {f g : Fin 2 → List (Tid × Int)} (h0 : f 0 = g 0) (h1 : f 1 = g 1) :
    ({ k with readyList := f } : Kernel) = { k with readyList := g } := by
  have hfg : f = g := funext (Fin.forall_fin_two.mpr ⟨h0, h1⟩)
  rw [hfg]

/-- One of the lists loses its first thread; that of the other is put back. -/
theorem findNextToRun_eq (k : Kernel) :
    k.findNextToRun =
      (k.chosen.bind fun i => (k.readyList i).head?.map Prod.fst,
        { k with
          readyList := fun i =>
            if k.chosen = some i then (k.readyList i).tail else putBack (k.readyList i) }) := by
  unfold findNextToRun findInList
  cases h0 : k.readyList 0 with
  | nil =>
    cases h1 : k.readyList 1 with
    | nil =>
      have hc : k.chosen = none := chosen_eq_none_iff.mpr (by simp only [h0, h1, headKey]; omega)
      simp only [sortedPop, hc, h1]
      exact Prod.ext rfl (setReadyLists_ext (by simp [h0, putBack]) (by simp [h1, putBack]))
    | cons e1 l1 =>
      by_cases hp : e1.2 > -1
      · have hc : k.chosen = some 1 := chosen_eq_one_iff.mpr (by simp only [h0, h1, headKey]; omega)
        simp only [sortedPop, hc, h1, hp, if_true]
        refine Prod.ext (by simp [h1]) (setReadyLists_ext ?_ ?_)
        · simp [h0, putBack]
        · simp [h1]
      · have hc : k.chosen = none := chosen_eq_none_iff.mpr (by simp only [h0, h1, headKey]; omega)
        simp only [sortedPop, hc, h1, hp, if_false]
        refine Prod.ext rfl (setReadyLists_ext ?_ ?_)
        · simp [h0, putBack]
        · simp [h1, putBack]
  | cons e0 l0 =>
    by_cases hp0 : e0.2 > -1
    · cases h1 : k.readyList 1 with
      | nil =>
        have hc : k.chosen = some 0 := chosen_eq_zero_iff.mpr (by simp only [h0, h1, headKey]; omega)
        simp only [sortedPop, hc, hp0, if_true]
        have h1' : (k.setReadyList 0 l0).readyList 1 = [] := by simp [setReadyList, h1]
        simp only [h1']
        refine Prod.ext (by simp [h0]) (setReadyLists_ext ?_ ?_)
        · simp [h0]
        · simp [h1, putBack]
      | cons e1 l1 =>
        have h1' : (k.setReadyList 0 l0).readyList 1 = e1 :: l1 := by simp [setReadyList, h1]
        by_cases hp : e1.2 > e0.2
        · have hc : k.chosen = some 1 := chosen_eq_one_iff.mpr (by simp only [h0, h1, headKey]; omega)
          simp only [sortedPop, hc, hp0, if_true, h1', hp]
          refine Prod.ext (by simp [h1]) (setReadyLists_ext ?_ ?_)
          · simp [h0, putBack, setReadyList]
          · simp [h1, setReadyList]
        · have hc : k.chosen = some 0 := chosen_eq_zero_iff.mpr (by simp only [h0, h1, headKey]; omega)
          simp only [sortedPop, hc, hp0, if_true, h1', hp, if_false]
          refine Prod.ext (by simp [h0]) (setReadyLists_ext ?_ ?_)
          · simp [h0, setReadyList]
          · simp [h1, putBack]
    · have hk0 : ∀ l, (k.setReadyList 0 l).readyList 1 = k.readyList 1 := by simp [setReadyList]
      cases h1 : k.readyList 1 with
      | nil =>
        have hc : k.chosen = none := chosen_eq_none_iff.mpr (by simp only [h0, h1, headKey]; omega)
        simp only [sortedPop, hc, hp0, if_false, hk0, h1]
        refine Prod.ext rfl (setReadyLists_ext ?_ ?_)
        · simp [h0, putBack]
        · simp [h1, putBack]
      | cons e1 l1 =>
        by_cases hp : e1.2 > -1
        · have hc : k.chosen = some 1 := chosen_eq_one_iff.mpr (by simp only [h0, h1, headKey]; omega)
          simp only [sortedPop, hc, hp0, if_false, hk0, h1, hp, if_true]
          refine Prod.ext (by simp [h1]) (setReadyLists_ext ?_ ?_)
          · simp [h0, putBack, setReadyList]
          · simp [h1]
        · have hc : k.chosen = none := chosen_eq_none_iff.mpr (by simp only [h0, h1, headKey]; omega)
          simp only [sortedPop, hc, hp0, if_false, hk0, h1, hp]
          refine Prod.ext rfl (setReadyLists_ext ?_ ?_)
          · simp [h0, putBack, setReadyList]
          · simp [h1, putBack]

/-- The main thread runs; thread `n + 1` has the queue and the priority that the list gives. -/
def sampleThreads (ths : List (Fin 2 × UInt32)) : Kernel :=
  { start (fun _ => 0) with
    threads := fun t => match t with
      | 0 => some { Thread.new false 0 0 with status := .running }
      | n + 1 => ths[n]?.map fun th => { Thread.new false th.2 (n + 1) with preassignedQueue := th.1 } }

/-! ## The threads that stay -/

/-- The returned thread leaves its list, if there is one; all else stays as it is. -/
def RemovesOnly (k : Kernel) (o : Option Tid) (k' : Kernel) : Prop :=
  match o with
  | none => k'.readyList = k.readyList
  | some t => ∃ i l1 l2 key, k.readyList i = l1 ++ (t, key) :: l2 ∧
      k'.readyList = Function.update k.readyList i (l1 ++ l2)

/-- The first thread of the list `i` is put back: its key is negative, or less than that of the other
list, or equal to it and the other list comes first. -/
def PutsBack (k : Kernel) (i : Fin 2) : Prop :=
  headKey (k.readyList i) < 0 ∨
    ∃ j ≠ i, headKey (k.readyList i) < headKey (k.readyList j) ∨
      headKey (k.readyList i) = headKey (k.readyList j) ∧ j < i

/-- Behind the first thread no other one has its key. -/
def StaysFirst (l : List (Tid × Int)) : Prop :=
  ∀ e r, l = e :: r → ∀ e' ∈ r.takeWhile (·.2 ≤ e.2), e' = e

theorem putBack_eq_self_iff (l : List (Tid × Int)) : putBack l = l ↔ StaysFirst l := by
  cases l with
  | nil => simp [putBack, StaysFirst]
  | cons e l =>
    unfold putBack StaysFirst
    rw [sortedInsert_eq_cons_iff]
    constructor
    · intro h e' r hl
      cases hl
      exact h
    · intro h
      exact h e l rfl

theorem putsBack_iff (k : Kernel) (i : Fin 2) : k.PutsBack i ↔ k.chosen ≠ some i := by
  unfold PutsBack
  match i with
  | 0 =>
    rw [Ne, chosen_eq_zero_iff]
    simp only [ne_eq, Fin.exists_fin_two, not_true_eq_false, false_and, false_or, Fin.one_eq_zero_iff,
      Nat.succ_ne_self, not_false_eq_true, true_and, Fin.not_lt_zero, and_false, or_false]
    omega
  | 1 =>
    rw [Ne, chosen_eq_one_iff]
    simp only [ne_eq, Fin.exists_fin_two, not_true_eq_false, false_and, or_false, Fin.zero_eq_one_iff,
      Nat.succ_ne_self, not_false_eq_true, true_and, Fin.zero_lt_one, and_true]
    omega

/-- The list that `FindNextToRun` chooses is not empty. -/
theorem chosen_cons {i : Fin 2} (h : k.chosen = some i) : ∃ e l, k.readyList i = e :: l := by
  have hkey : -1 < headKey (k.readyList i) := by
    match i with
    | 0 => exact (chosen_eq_zero_iff.mp h).1
    | 1 => exact (chosen_eq_one_iff.mp h).1
  cases hl : k.readyList i with
  | nil =>
    rw [hl] at hkey
    exact absurd hkey (by decide)
  | cons e l => exact ⟨e, l, rfl⟩

/-- `FindNextToRun` leaves the other threads as they are exactly if no thread that is put back has
another one with the same key behind it. -/
theorem findNextToRun_removesOnly_iff (k : Kernel) :
    RemovesOnly k k.findNextToRun.1 k.findNextToRun.2 ↔
      ∀ i, k.PutsBack i → StaysFirst (k.readyList i) := by
  rw [findNextToRun_eq]
  simp only [putsBack_iff, ← putBack_eq_self_iff]
  cases hc : k.chosen with
  | none =>
    simp only [Option.bind_none, RemovesOnly, reduceCtorEq, if_false, ne_eq, not_false_eq_true,
      true_implies]
    exact funext_iff
  | some i =>
    obtain ⟨e, l, hl⟩ := chosen_cons hc
    simp only [Option.bind_some, hl, List.head?_cons, Option.map_some, RemovesOnly, ne_eq,
      Option.some.injEq]
    constructor
    · rintro ⟨i', l1, l2, key, hi', hlists⟩ j hj
      -- the list that got shorter is the chosen one
      have hii : i' = i := by
        by_contra hne
        have hlen := congrArg List.length (congrFun hlists i)
        rw [Function.update_of_ne (Ne.symm hne), if_pos rfl, hl] at hlen
        simp at hlen
      have hj' := congrFun hlists j
      rwa [if_neg hj, hii, Function.update_of_ne (fun h => hj h.symm)] at hj'
    · intro h
      refine ⟨i, [], l, e.2, hl, funext fun j => ?_⟩
      by_cases hj : i = j
      · subst hj
        rw [if_pos rfl, hl, Function.update_self]
        rfl
      · rw [if_neg hj, h j hj, Function.update_of_ne (Ne.symm hj)]

/-- Three threads with the same priority became ready, one in queue 0 and two in queue 1. The search
returns the first and makes the others change places. -/
theorem findNextToRun_reorders :
    ∃ k, [1, 2, 3].foldlM readyToRun (sampleThreads [(0, 0), (1, 0), (1, 0)]) = some k ∧
      ¬RemovesOnly k k.findNextToRun.1 k.findNextToRun.2 := by
  obtain ⟨k, hk⟩ := Option.isSome_iff_exists.mp (show ([1, 2, 3].foldlM readyToRun
    (sampleThreads [(0, 0), (1, 0), (1, 0)])).isSome by decide)
  have hrun : ([1, 2, 3].foldlM readyToRun (sampleThreads [(0, 0), (1, 0), (1, 0)])).map
      (fun k => (k.readyList 1, k.findNextToRun.1, k.findNextToRun.2.readyList 1)) =
      some ([(2, 2147483647), (3, 2147483647)], some 1, [(3, 2147483647), (2, 2147483647)]) := by
    decide
  rw [hk, Option.map_some, Option.some.injEq, Prod.mk.injEq, Prod.mk.injEq] at hrun
  obtain ⟨hbefore, hfound, hafter⟩ := hrun
  refine ⟨k, hk, ?_⟩
  rw [hfound]
  rintro ⟨i, l1, l2, key, hi, hlists⟩
  by_cases h1 : i = 1
  · -- the thread that was found is not in queue 1
    subst h1
    have hmem : (1, key) ∈ k.readyList 1 := by simp [hi]
    rw [hbefore] at hmem
    simp at hmem
  · rw [hlists, Function.update_of_ne (Ne.symm h1), hbefore] at hafter
    exact absurd hafter (by decide)

/-! ## The thread that is returned -/

/-- `INT_MAX` of `limits.h`. -/
def intMax : Int := 2 ^ 31 - 1

/-- The threads `ts` became ready in this order. The thread that was found has the highest priority; of
those with this priority it is one of queue 0 if there is one, and the first one of its queue. -/
def PicksHighest (k : Kernel) (ts : List Tid) (o : Option Tid) : Prop :=
  match o with
  | none => ts = []
  | some t =>
    t ∈ ts ∧ (∀ u ∈ ts, k.priorityOf u ≤ k.priorityOf t) ∧
      (∀ u ∈ ts, k.priorityOf u = k.priorityOf t → k.queueOf t ≤ k.queueOf u) ∧
      ts.find? (fun u => k.queueOf u = k.queueOf t ∧ k.priorityOf u = k.priorityOf t) = some t

/-- If both queues have threads, their highest priorities are equal. -/
def Level (k : Kernel) (ts : List Tid) : Prop :=
  ∀ t ∈ ts, ∀ u ∈ ts, k.queueOf u ≠ k.queueOf t →
    ∃ v ∈ ts, k.queueOf v = k.queueOf u ∧ k.priorityOf t ≤ k.priorityOf v

/-- The key of a thread in the ready lists. -/
def readyKey (k : Kernel) (t : Tid) : Int := intMax - k.priorityOf t

theorem toInt32_eq {x : Int} (h0 : 0 ≤ x) (h1 : x ≤ intMax) : toInt32 x = x := by
  unfold toInt32
  unfold intMax at h1
  omega

/-- `ReadyToRun` puts the thread in its list and changes no priority and no queue. -/
theorem readyToRun_lists {t : Tid} (h : k.readyToRun t = some k') (h0 : 0 ≤ k.priorityOf t)
    (h1 : k.priorityOf t ≤ intMax) :
    k'.priorityOf = k.priorityOf ∧ k'.queueOf = k.queueOf ∧
      k'.readyList = Function.update k.readyList (k.queueOf t)
        (sortedInsert t (k.readyKey t) (k.readyList (k.queueOf t))) := by
  simp only [readyToRun, Option.bind_eq_bind, Option.bind_eq_some_iff, Option.pure_def,
    Option.some.injEq] at h
  obtain ⟨th, hth, rfl⟩ := h
  have hprio : k.priorityOf t = getPriority th := by simp [priorityOf, hth]
  have hqueue : k.queueOf t = th.preassignedQueue := by simp [queueOf, hth]
  have hkey : toInt32 (2 ^ 31 - 1 - getPriority th) = k.readyKey t := by
    rw [← hprio]
    exact toInt32_eq (by unfold intMax at h1; omega) (by unfold intMax; omega)
  have hthreads : ∀ {β : Type} (f : Thread → β) (u : Tid), (∀ th st, f { th with status := st } = f th) →
      ((k.setStatus t .ready).threads u).map f = (k.threads u).map f := by
    intro β f u hf
    unfold setStatus modifyThread
    by_cases hu : u = t
    · subst hu
      simp [hth, hf]
    · simp [Function.update_of_ne hu]
  refine ⟨funext fun u => ?_, funext fun u => ?_, ?_⟩
  · exact congrArg (Option.getD · 0) (hthreads getPriority u fun _ _ => rfl)
  · exact congrArg (Option.getD · 0) (hthreads Thread.preassignedQueue u fun _ _ => rfl)
  · rw [hkey, hqueue]
    rfl

/-- What `ReadyToRun`, called for the threads of a list in turn, makes of the ready lists. -/
theorem readyToRun_all {ts : List Tid} (h : ts.foldlM readyToRun k = some k')
    (hprio : ∀ t ∈ ts, 0 ≤ k.priorityOf t ∧ k.priorityOf t ≤ intMax) :
    k'.priorityOf = k.priorityOf ∧ k'.queueOf = k.queueOf ∧
      ∀ i, k'.readyList i =
        (ts.filter fun t => k.queueOf t = i).foldl (fun l t => sortedInsert t (k.readyKey t) l)
          (k.readyList i) := by
  induction ts generalizing k with
  | nil =>
    cases h
    exact ⟨rfl, rfl, fun i => rfl⟩
  | cons t ts ih =>
    rw [List.foldlM_cons] at h
    obtain ⟨k1, hk1, h⟩ := Option.bind_eq_some_iff.mp h
    obtain ⟨ht0, ht1⟩ := hprio t List.mem_cons_self
    obtain ⟨hp1, hq1, hl1⟩ := readyToRun_lists hk1 ht0 ht1
    obtain ⟨hp, hq, hl⟩ := ih h fun u hu => by
      rw [hp1]
      exact hprio u (List.mem_cons_of_mem t hu)
    refine ⟨hp.trans hp1, hq.trans hq1, fun i => ?_⟩
    have hkey : k1.readyKey = k.readyKey := by
      funext u
      rw [readyKey, hp1]
      rfl
    rw [hl, hq1, hkey, hl1]
    by_cases hi : k.queueOf t = i
    · subst hi
      simp
    · rw [Function.update_of_ne (Ne.symm hi)]
      simp [hi]

/-- Of the threads `ts`, `a` is the first one with the highest priority of queue `i`. -/
structure Leads (k : Kernel) (ts : List Tid) (i : Fin 2) (a : Tid) : Prop where
  mem : a ∈ ts
  queue : k.queueOf a = i
  highest : ∀ u ∈ ts, k.queueOf u = i → k.priorityOf u ≤ k.priorityOf a
  first : ts.find? (fun u => k.queueOf u = k.queueOf a ∧ k.priorityOf u = k.priorityOf a) = some a

/-- The first thread of a list that was filled by `ReadyToRun` leads its queue. -/
theorem leads_or_empty {ts : List Tid} (i : Fin 2) {l : List (Tid × Int)}
    (hl : l = sortedInsertAll k.readyKey (ts.filter fun t => k.queueOf t = i)) :
    ((∀ t ∈ ts, k.queueOf t ≠ i) ∧ l.head? = none) ∨
      ∃ a, l.head? = some (a, k.readyKey a) ∧ Leads k ts i a := by
  subst hl
  rcases head?_sortedInsertAll k.readyKey (ts.filter fun t => k.queueOf t = i) with
    ⟨hnil, hhead⟩ | ⟨a, hhead, hmem, hleast, hfirst⟩
  · left
    refine ⟨fun t ht hi => ?_, hhead⟩
    have hin : t ∈ ts.filter fun t => k.queueOf t = i := by simp [ht, hi]
    rw [hnil] at hin
    cases hin
  · right
    rw [List.mem_filter, decide_eq_true_eq] at hmem
    obtain ⟨hmem, hqueue⟩ := hmem
    refine ⟨a, hhead, hmem, hqueue, ?_, ?_⟩
    · intro u hu hi
      have hle := hleast u (by simp [hu, hi])
      unfold readyKey at hle
      omega
    · rw [List.find?_filter] at hfirst
      rw [← hfirst]
      congr 1
      funext u
      have hkey : k.readyKey u = k.readyKey a ↔ k.priorityOf u = k.priorityOf a := by
        unfold readyKey
        omega
      simp [hqueue, hkey]

theorem headKey_of_head? {l : List (Tid × Int)} {e : Tid × Int} (h : l.head? = some e) :
    headKey l = e.2 := by
  cases l with
  | nil => cases h
  | cons e' l =>
    cases h
    rfl

theorem headKey_of_none {l : List (Tid × Int)} (h : l.head? = none) : headKey l = -1 := by
  rw [List.head?_eq_none_iff.mp h]
  rfl

/-- A thread that leads its queue is the right choice if no thread of the other queue comes before it. -/
theorem Leads.picksHighest {ts : List Tid} {i : Fin 2} {a : Tid} (ha : Leads k ts i a)
    (hother : ∀ u ∈ ts, k.queueOf u ≠ i → k.priorityOf u ≤ k.priorityOf a ∧
      (k.priorityOf u = k.priorityOf a → i ≤ k.queueOf u)) :
    PicksHighest k ts (some a) := by
  refine ⟨ha.mem, ?_, ?_, ha.first⟩
  · intro u hu
    by_cases hi : k.queueOf u = i
    · exact ha.highest u hu hi
    · exact (hother u hu hi).1
  · intro u hu heq
    rw [ha.queue]
    by_cases hi : k.queueOf u = i
    · exact Fin.le_of_eq hi.symm
    · exact (hother u hu hi).2 heq

/-- The highest priorities of the two queues are those of the threads that lead them. -/
theorem level_iff {ts : List Tid} {a b : Tid} (ha : Leads k ts 0 a) (hb : Leads k ts 1 b) :
    Level k ts ↔ k.priorityOf a = k.priorityOf b := by
  have h01 : ∀ i j : Fin 2, j ≠ i → i = 0 ∧ j = 1 ∨ i = 1 ∧ j = 0 := by decide
  constructor
  · intro h
    obtain ⟨v, hv, hvq, hle⟩ := h a ha.mem b hb.mem (by rw [ha.queue, hb.queue]; decide)
    obtain ⟨v', hv', hvq', hle'⟩ := h b hb.mem a ha.mem (by rw [ha.queue, hb.queue]; decide)
    have hvb := hb.highest v hv (hvq.trans hb.queue)
    have hva := ha.highest v' hv' (hvq'.trans ha.queue)
    omega
  · intro heq t ht u hu hne
    rcases h01 _ _ hne with ⟨ht0, hu1⟩ | ⟨ht1, hu0⟩
    · exact ⟨b, hb.mem, hb.queue.trans hu1.symm, heq ▸ ha.highest t ht ht0⟩
    · exact ⟨a, ha.mem, ha.queue.trans hu0.symm, heq ▸ hb.highest t ht ht1⟩

/-- The choice is right exactly if one of the queues is empty or both have the same highest priority. -/
theorem findNextToRun_picksHighest_iff {ts : List Tid} (hempty : ∀ i, k.readyList i = [])
    (hprio : ∀ t ∈ ts, 0 ≤ k.priorityOf t ∧ k.priorityOf t ≤ intMax)
    (hbuilt : ts.foldlM readyToRun k = some k') :
    PicksHighest k' ts k'.findNextToRun.1 ↔ Level k' ts := by
  obtain ⟨hp, hq, hl⟩ := readyToRun_all hbuilt hprio
  have hkey : k.readyKey = k'.readyKey := by
    funext t
    rw [readyKey, readyKey, hp]
  rw [← hp] at hprio
  have hl : ∀ i, k'.readyList i =
      sortedInsertAll k'.readyKey (ts.filter fun t => k'.queueOf t = i) := by
    intro i
    rw [hl i, hempty i, hkey, hq]
    rfl
  have hfound : k'.findNextToRun.1 = k'.chosen.bind fun i => (k'.readyList i).head?.map Prod.fst := by
    rw [findNextToRun_eq]
  have hfin : ∀ i : Fin 2, i ≠ 0 → i ≠ 1 → False := by decide
  have hkeyLe : ∀ t ∈ ts, -1 < k'.readyKey t := by
    intro t ht
    have := (hprio t ht).2
    unfold readyKey
    omega
  rcases leads_or_empty 0 (hl 0) with ⟨hno0, hh0⟩ | ⟨a, hh0, ha⟩
  · rcases leads_or_empty 1 (hl 1) with ⟨hno1, hh1⟩ | ⟨b, hh1, hb⟩
    · have hts : ts = [] := by
        rw [List.eq_nil_iff_forall_not_mem]
        exact fun t ht => hfin _ (hno0 t ht) (hno1 t ht)
      have hc : k'.chosen = none :=
        chosen_eq_none_iff.mpr (by rw [headKey_of_none hh0, headKey_of_none hh1]; decide)
      rw [hfound, hc]
      subst hts
      exact ⟨fun _ t ht => absurd ht List.not_mem_nil, fun _ => rfl⟩
    · have hc : k'.chosen = some 1 := chosen_eq_one_iff.mpr (by
        rw [headKey_of_none hh0, headKey_of_head? hh1]
        exact ⟨hkeyLe b hb.mem, hkeyLe b hb.mem⟩)
      have hpick : PicksHighest k' ts (some b) :=
        hb.picksHighest fun u hu h1 => (hfin _ (hno0 u hu) h1).elim
      rw [hfound, hc, Option.bind_some, hh1]
      refine ⟨fun _ t ht u hu hne => ?_, fun _ => hpick⟩
      exact absurd (by have := hno0 t ht; have := hno0 u hu; omega) hne
  · rcases leads_or_empty 1 (hl 1) with ⟨hno1, hh1⟩ | ⟨b, hh1, hb⟩
    · have hc : k'.chosen = some 0 := chosen_eq_zero_iff.mpr (by
        rw [headKey_of_head? hh0, headKey_of_none hh1]
        exact ⟨hkeyLe a ha.mem, Int.le_of_lt (hkeyLe a ha.mem)⟩)
      have hpick : PicksHighest k' ts (some a) :=
        ha.picksHighest fun u hu h0 => (hfin _ h0 (hno1 u hu)).elim
      rw [hfound, hc, Option.bind_some, hh0]
      refine ⟨fun _ t ht u hu hne => ?_, fun _ => hpick⟩
      exact absurd (by have := hno1 t ht; have := hno1 u hu; omega) hne
    · -- both queues have threads: the code compares the keys, which are in the other order
      have hkey0 : headKey (k'.readyList 0) = k'.readyKey a := headKey_of_head? hh0
      have hkey1 : headKey (k'.readyList 1) = k'.readyKey b := headKey_of_head? hh1
      rw [hfound, level_iff ha hb]
      by_cases hlt : k'.readyKey a < k'.readyKey b
      · have hc : k'.chosen = some 1 := chosen_eq_one_iff.mpr (by
          rw [hkey0, hkey1]
          exact ⟨hkeyLe b hb.mem, hlt⟩)
        rw [hc, Option.bind_some, hh1]
        unfold readyKey at hlt
        constructor
        · intro hpick
          have hle : k'.priorityOf a ≤ k'.priorityOf b := hpick.2.1 a ha.mem
          omega
        · intro heq
          omega
      · have hc : k'.chosen = some 0 := chosen_eq_zero_iff.mpr (by
          rw [hkey0, hkey1]
          exact ⟨hkeyLe a ha.mem, by omega⟩)
        rw [hc, Option.bind_some, hh0]
        unfold readyKey at hlt
        constructor
        · intro hpick
          have hle : k'.priorityOf b ≤ k'.priorityOf a := hpick.2.1 b hb.mem
          omega
        · intro heq
          refine ha.picksHighest fun u hu h0 => ⟨?_, fun _ => Fin.zero_le _⟩
          have := hb.highest u hu (by have := k'.queueOf u; omega)
          omega

/-- With one queue empty the choice is right. -/
theorem findNextToRun_picksHighest_one_queue :
    ∃ k, [1, 2].foldlM readyToRun (sampleThreads [(1, 3), (1, 7)]) = some k ∧
      PicksHighest k [1, 2] k.findNextToRun.1 := by
  obtain ⟨k, hk⟩ := Option.isSome_iff_exists.mp (show ([1, 2].foldlM readyToRun
    (sampleThreads [(1, 3), (1, 7)])).isSome by decide)
  have hqueues : ([1, 2].foldlM readyToRun (sampleThreads [(1, 3), (1, 7)])).map
      (fun k => (k.queueOf 1, k.queueOf 2)) = some (1, 1) := by
    decide
  rw [hk, Option.map_some, Option.some.injEq, Prod.mk.injEq] at hqueues
  refine ⟨k, hk, (findNextToRun_picksHighest_iff (fun _ => rfl) (by decide) hk).mpr ?_⟩
  intro t ht u hu hne
  have hall : ∀ t ∈ [1, 2], k.queueOf t = 1 := by simp [hqueues]
  exact absurd ((hall u hu).trans (hall t ht).symm) hne

/-- A thread with priority 7 in queue 0 and one with priority 3 in queue 1: the second is chosen. -/
theorem findNextToRun_picks_lower :
    ∃ k, [1, 2].foldlM readyToRun (sampleThreads [(0, 7), (1, 3)]) = some k ∧
      ¬PicksHighest k [1, 2] k.findNextToRun.1 := by
  obtain ⟨k, hk⟩ := Option.isSome_iff_exists.mp (show ([1, 2].foldlM readyToRun
    (sampleThreads [(0, 7), (1, 3)])).isSome by decide)
  have hrun : ([1, 2].foldlM readyToRun (sampleThreads [(0, 7), (1, 3)])).map
      (fun k => (k.priorityOf 1, k.priorityOf 2, k.findNextToRun.1)) = some (7, 3, some 2) := by
    decide
  rw [hk, Option.map_some, Option.some.injEq, Prod.mk.injEq, Prod.mk.injEq] at hrun
  obtain ⟨h1, h2, hfound⟩ := hrun
  refine ⟨k, hk, ?_⟩
  rw [hfound]
  intro hpick
  have hle : k.priorityOf 1 ≤ k.priorityOf 2 := hpick.2.1 1 (by decide)
  omega

end Nachos.Kernel
