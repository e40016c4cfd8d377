import Nachos.Lib.Proofs.TableProofs
import Nachos.Threads.ProcessTable

/-!
# Proofs: the process table

As long as every new thread gets an index and none is destroyed, the table tracks the threads. The
first event that breaks this breaks the table.
-/

namespace Nachos.Processes

open Foundations

namespace State

variable {s s' : State} {e : Event} {p q : ThreadPtr} {th : Thread}

/-- The table tracks the threads, and nothing was removed from it. -/
structure Inv (s : State) : Prop extends Tracks s where
  freed_nil : s.threadUPS.freed = []
  fresh : ∀ p, s.nextThread ≤ p → s.threads p = none

/-- Only the stages of threads, or what `Exec` has answered, may have changed. -/
theorem Inv.of_same (h : Inv s) (htable : s'.threadUPS = s.threadUPS)
    (hnext : s'.nextThread = s.nextThread)
    (hthreads : ∀ p, (s'.threads p).map Thread.tId = (s.threads p).map Thread.tId)
    (hexecs : ∀ started, (-1, started) ∈ s'.execs → started = false) : Inv s' := by
  have hback : ∀ {p th'}, s'.threads p = some th' → ∃ th, s.threads p = some th ∧ th.tId = th'.tId := by
    intro p th' hp
    have hmap := hthreads p
    rw [hp, Option.map_some] at hmap
    exact Option.map_eq_some_iff.mp hmap.symm
  have hforth : ∀ {p th}, s.threads p = some th → ∃ th', s'.threads p = some th' ∧ th'.tId = th.tId := by
    intro p th hp
    have hmap := hthreads p
    rw [hp, Option.map_some] at hmap
    exact Option.map_eq_some_iff.mp hmap
  exact {
    hasKey_iff := by
      intro t
      rw [htable, h.hasKey_iff t]
      constructor
      · rintro ⟨p, th, hp, rfl⟩
        obtain ⟨th', hp', ht⟩ := hforth hp
        exact ⟨p, th', hp', ht⟩
      · rintro ⟨p, th', hp, rfl⟩
        obtain ⟨th, hp', ht⟩ := hback hp
        exact ⟨p, th, hp', ht⟩
    get_eq := by
      intro p th' hp
      obtain ⟨th, hp', ht⟩ := hback hp
      rw [htable, ← ht]
      exact h.get_eq p th hp'
    tId_inj := by
      intro p q th₁ th₂ hp hq heq
      obtain ⟨th, hp', ht⟩ := hback hp
      obtain ⟨th', hq', ht'⟩ := hback hq
      exact h.tId_inj p q th th' hp' hq' (ht.trans (heq.trans ht'.symm))
    exec_failed := hexecs
    freed_nil := by rw [htable]; exact h.freed_nil
    fresh := by
      intro p hp
      rw [hnext] at hp
      have hmap := hthreads p
      rw [h.fresh p hp, Option.map_none] at hmap
      exact Option.map_eq_none_iff.mp hmap }

theorem Inv.setStage (h : Inv s) (hp : s.threads p = some th) (stage : Stage) :
    Inv (s.setStage p th stage) := by
  refine h.of_same rfl rfl (fun q => ?_) h.exec_failed
  by_cases hq : q = p
  · subst hq
    simp [State.setStage, hp]
  · simp [State.setStage, hq]

theorem running_eq_some (h : s.running p = some th) : s.threads p = some th := by
  simp only [State.running, Option.bind_eq_bind, Option.bind_eq_some_iff] at h
  obtain ⟨th', hp, h⟩ := h
  split at h
  · cases h
    exact hp
  · cases h

/-- What `Exec` does: it fails and starts nothing, or it makes a thread. -/
theorem exec_cases {call : ExecCall} (hexec : s.exec call = some s') :
    ((call.fileDir = 0 ∨ call.fileName = none ∨ call.fileExists = false) ∧
        s' = { s with execs := s.execs ++ [(-1, false)] }) ∨
      ((call.fileDir ≠ 0 ∧ call.fileName ≠ none ∧ call.fileExists = true) ∧
        s' = { (s.newThread call.joinable).2 with
          execs := s.execs ++ [((s.newThread call.joinable).1, true)] }) := by
  unfold State.exec at hexec
  split at hexec
  next hfail =>
    cases hexec
    exact Or.inl ⟨hfail, rfl⟩
  next hok =>
    simp only [not_or] at hok
    simp only [Option.bind_eq_bind, Option.bind_eq_some_iff] at hexec
    obtain ⟨_, _, hexec⟩ := hexec
    cases hexec
    exact Or.inr ⟨⟨hok.1, hok.2.1, by simpa using hok.2.2⟩, rfl⟩

/-! ## A new thread -/

section NewThread

variable (h : Inv s)

include h

/-- The index of a new thread is `current`. -/
theorem Inv.newThread_eq (hroom : s.HasRoom) (joinable : Bool) :
    (s.newThread joinable).1 = s.threadUPS.current ∧
      (s.newThread joinable).2.threadUPS.current = s.threadUPS.current + 1 ∧
      (s.newThread joinable).2.threadUPS.freed = [] ∧
      (s.newThread joinable).2.threadUPS.data =
        Function.update s.threadUPS.data s.threadUPS.current (some s.nextThread) ∧
      (s.newThread joinable).2.threads = Function.update s.threads s.nextThread
        (some { tId := s.threadUPS.current, joinable := joinable, stage := .running }) := by
  unfold State.newThread
  rw [Table.add_of_lt h.freed_nil hroom]
  exact ⟨rfl, rfl, h.freed_nil, rfl, rfl⟩

/-- The ids in use are below `current`. -/
theorem Inv.tId_lt (hp : s.threads p = some th) : 0 ≤ th.tId ∧ th.tId < s.threadUPS.current := by
  have hkey := Table.hasKey_eq_true.mp ((h.hasKey_iff th.tId).mpr ⟨p, th, hp, rfl⟩)
  rw [Table.has_of_freed_nil h.freed_nil] at hkey
  have hlt := of_decide_eq_true hkey.2
  omega

theorem Inv.newThread (hroom : s.HasRoom) (joinable : Bool) : Inv (s.newThread joinable).2 := by
  obtain ⟨_, hcurrent, hfreed, hdata, hthreads⟩ := h.newThread_eq hroom joinable
  have hne : ∀ {p th}, s.threads p = some th → p ≠ s.nextThread := by
    rintro p th hp rfl
    rw [h.fresh s.nextThread (Nat.le_refl _)] at hp
    cases hp
  have hcases : ∀ p th, (s.newThread joinable).2.threads p = some th →
      (p = s.nextThread ∧ th.tId = s.threadUPS.current) ∨ s.threads p = some th := by
    intro p th hp
    rw [hthreads] at hp
    by_cases hpn : p = s.nextThread
    · subst hpn
      rw [Function.update_self] at hp
      cases hp
      exact Or.inl ⟨rfl, rfl⟩
    · rw [Function.update_of_ne hpn] at hp
      exact Or.inr hp
  have hhas : ∀ n, (s.newThread joinable).2.threadUPS.has n = decide (n < s.threadUPS.current + 1) := by
    intro n
    rw [Table.has_of_freed_nil hfreed, hcurrent]
  exact {
    hasKey_iff := by
      intro t
      rw [Table.hasKey_eq_true, hhas, decide_eq_true_iff]
      constructor
      · rintro ⟨ht, hlt⟩
        rcases Nat.lt_succ_iff_lt_or_eq.mp hlt with hlt | heq
        · have hkey : s.threadUPS.hasKey t = some true := by
            rw [Table.hasKey_eq_true, Table.has_of_freed_nil h.freed_nil, decide_eq_true_iff]
            exact ⟨ht, hlt⟩
          obtain ⟨p, th, hp, hth⟩ := (h.hasKey_iff t).mp hkey
          exact ⟨p, th, by rw [hthreads, Function.update_of_ne (hne hp), hp], hth⟩
        · refine ⟨s.nextThread, _, by rw [hthreads, Function.update_self], ?_⟩
          show (s.threadUPS.current : Int) = t
          omega
      · rintro ⟨p, th, hp, rfl⟩
        rcases hcases p th hp with ⟨_, hth⟩ | hp
        · omega
        · have hlt := h.tId_lt hp
          omega
    get_eq := by
      intro p th hp
      rcases hcases p th hp with ⟨rfl, hth⟩ | hp
      · rw [hth, Table.get_natCast (by rw [hhas]; exact decide_eq_true (Nat.lt_succ_self _)), hdata,
          Function.update_self]
      · have hlt := h.tId_lt hp
        have hget := h.get_eq p th hp
        obtain ⟨n, hn⟩ := Int.eq_ofNat_of_zero_le hlt.1
        rw [hn] at hget hlt ⊢
        have hn' : n < s.threadUPS.current := by omega
        have hold : s.threadUPS.has n = true := by
          rw [Table.has_of_freed_nil h.freed_nil]
          exact decide_eq_true hn'
        rw [Table.get_natCast hold] at hget
        rw [Table.get_natCast (by rw [hhas]; exact decide_eq_true (Nat.lt_succ_of_lt hn')), hdata,
          Function.update_of_ne (Nat.ne_of_lt hn'), hget]
    tId_inj := by
      intro p q th th' hp hq heq
      rcases hcases p th hp with ⟨rfl, hth⟩ | hp
      · rcases hcases q th' hq with ⟨rfl, _⟩ | hq
        · rfl
        · have hlt := h.tId_lt hq
          omega
      · rcases hcases q th' hq with ⟨rfl, hth'⟩ | hq
        · have hlt := h.tId_lt hp
          omega
        · exact h.tId_inj p q th th' hp hq heq
    exec_failed := h.exec_failed
    freed_nil := hfreed
    fresh := by
      intro p hp
      have hlt : s.nextThread < p := hp
      rw [hthreads, Function.update_of_ne (Nat.ne_of_gt hlt)]
      exact h.fresh p (Nat.le_of_lt hlt) }

/-- Without an index the new thread has the id -1, which is no key. -/
theorem Inv.newThread_full (hfull : ¬ s.HasRoom) (joinable : Bool) :
    ¬ (s.newThread joinable).2.Tracks := by
  intro htracks
  have hadd := Table.add_full h.freed_nil (Nat.not_lt.mp hfull) (some s.nextThread)
  have hlive : (s.newThread joinable).2.threads s.nextThread =
      some { tId := -1, joinable := joinable, stage := .running } := by
    simp [State.newThread, hadd]
  have hkey := (htracks.hasKey_iff (-1)).mpr ⟨s.nextThread, _, hlive, rfl⟩
  exact absurd (Table.hasKey_eq_true.mp hkey).1 (by decide)

end NewThread

/-! ## Runs -/

section Runs

variable (h : Inv s)

include h

theorem Inv.log (started : Int × Bool) (hok : started.1 = -1 → started.2 = false) :
    Inv { s with execs := s.execs ++ [started] } := by
  refine h.of_same rfl rfl (fun _ => rfl) ?_
  intro b hb
  rcases List.mem_append.mp hb with hb | hb
  · exact h.exec_failed b hb
  · rw [List.mem_singleton] at hb
    subst hb
    exact hok rfl

/-- An event that keeps the table right keeps the invariant. -/
theorem Inv.step_keeps (hstep : s.step e = some s') (hkeeps : s.KeepsTable e) : Inv s' := by
  cases e with
  | create joinable =>
    cases hstep
    exact h.newThread hkeeps joinable
  | exec p call =>
    simp only [State.step, Option.bind_eq_bind, Option.bind_eq_some_iff] at hstep
    obtain ⟨_, _, hexec⟩ := hstep
    rcases exec_cases hexec with ⟨_, rfl⟩ | ⟨hok, rfl⟩
    · exact h.log (-1, false) fun _ => rfl
    · have hnew := h.newThread (hkeeps hok) call.joinable
      refine hnew.log _ fun hid => ?_
      rw [(h.newThread_eq (hkeeps hok) call.joinable).1] at hid
      omega
  | exit p v =>
    simp only [State.step, Option.bind_eq_bind, Option.bind_eq_some_iff] at hstep
    obtain ⟨th, hrun, hstep⟩ := hstep
    cases hstep
    unfold State.finish
    split
    · exact h.setStage (running_eq_some hrun) _
    · exact h.setStage (running_eq_some hrun) _
  | join p tid =>
    simp only [State.step, Option.bind_eq_bind, Option.bind_eq_some_iff] at hstep
    obtain ⟨_, _, hjoin⟩ := hstep
    simp only [State.join, Option.bind_eq_bind, Option.bind_eq_some_iff] at hjoin
    obtain ⟨key, _, hjoin⟩ := hjoin
    split at hjoin
    · simp only [Option.bind_eq_some_iff] at hjoin
      obtain ⟨_, _, q, _, th, hq, _, _, hjoin⟩ := hjoin
      split at hjoin
      · cases hjoin
        exact h.setStage hq _
      · cases hjoin
    · cases hjoin
      exact h
  | destroy p => exact absurd hkeeps not_false

/-- Any other event leaves a table that does not track the threads. -/
theorem Inv.step_breaks (hstep : s.step e = some s') (hbreaks : ¬ s.KeepsTable e) : ¬ s'.Tracks := by
  cases e with
  | create joinable =>
    cases hstep
    exact h.newThread_full hbreaks joinable
  | exec p call =>
    simp only [State.step, Option.bind_eq_bind, Option.bind_eq_some_iff] at hstep
    obtain ⟨_, _, hexec⟩ := hstep
    simp only [State.KeepsTable, Classical.not_imp] at hbreaks
    obtain ⟨hok, hfull⟩ := hbreaks
    rcases exec_cases hexec with ⟨hfail, _⟩ | ⟨_, rfl⟩
    · rcases hfail with hfail | hfail | hfail
      · exact absurd hfail hok.1
      · exact absurd hfail hok.2.1
      · rw [hok.2.2] at hfail
        cases hfail
    · intro htracks
      refine h.newThread_full hfull call.joinable
        ⟨htracks.hasKey_iff, htracks.get_eq, htracks.tId_inj, h.exec_failed⟩
  | exit => exact absurd True.intro hbreaks
  | join => exact absurd True.intro hbreaks
  | destroy p =>
    simp only [State.step, State.destroy, Option.bind_eq_bind, Option.bind_eq_some_iff] at hstep
    obtain ⟨th, hp, hstep⟩ := hstep
    split at hstep
    · cases hstep
      intro htracks
      -- the id is still a key, and no other thread has it
      obtain ⟨q, th', hq, hid⟩ :=
        (htracks.hasKey_iff th.tId).mp ((h.hasKey_iff th.tId).mpr ⟨p, th, hp, rfl⟩)
      have hq' : Function.update s.threads p none q = some th' := hq
      have hqp : q ≠ p := by
        rintro rfl
        rw [Function.update_self] at hq'
        cases hq'
      rw [Function.update_of_ne hqp] at hq'
      exact hqp (h.tId_inj q p th' th hq' hp hid)
    · cases hstep

/-- Along a run the table tracks the threads exactly as long as every event keeps it right. -/
theorem Inv.tracks_iff {es : List Event} (hrun : ∃ s', runs State.step s es = some s') :
    (∀ n s', runs State.step s (es.take n) = some s' → s'.Tracks) ↔
      AllSteps State.step KeepsTable s es := by
  induction es generalizing s with
  | nil =>
    refine ⟨fun _ => True.intro, fun _ n s' hs' => ?_⟩
    rw [List.take_nil] at hs'
    cases hs'
    exact h.toTracks
  | cons e es ih =>
    obtain ⟨s', hrun⟩ := hrun
    obtain ⟨s1, hstep, hrun⟩ := runs_cons_eq_some.mp hrun
    constructor
    · intro htracks
      have hkeeps : s.KeepsTable e := by
        by_contra hbreaks
        refine h.step_breaks hstep hbreaks (htracks 1 s1 ?_)
        exact runs_cons_eq_some.mpr ⟨s1, hstep, rfl⟩
      refine ⟨hkeeps, fun s2 hs2 => ?_⟩
      rw [hstep] at hs2
      cases hs2
      refine (ih (h.step_keeps hstep hkeeps) ⟨s', hrun⟩).mp fun n s2 hs2 => ?_
      exact htracks (n + 1) s2 (runs_cons_eq_some.mpr ⟨s1, hstep, hs2⟩)
    · rintro ⟨hkeeps, hrest⟩ n s2 hs2
      cases n with
      | zero =>
        cases hs2
        exact h.toTracks
      | succ n =>
        obtain ⟨s3, hs3, hs2⟩ := runs_cons_eq_some.mp hs2
        rw [hstep] at hs3
        cases hs3
        exact (ih (h.step_keeps hstep hkeeps) ⟨s', hrun⟩).mpr (hrest s1 hstep) n s2 hs2

end Runs

theorem Inv.boot (data : Nat → Option ThreadPtr) : Inv (boot data) := by
  refine Inv.newThread ?_ ?_ false
  · exact {
      hasKey_iff := by simp [Table.hasKey_eq_true, Table.has, Table.new]
      get_eq := by simp
      tId_inj := by simp
      exec_failed := by simp
      freed_nil := rfl
      fresh := fun _ _ => rfl }
  · show 0 < Table.size
    decide

end State

open State

/-- In a run the process table tracks the threads in every state exactly if no thread is destroyed and
none is made when the table is full. -/
theorem process_table_tracks (data : Nat → Option ThreadPtr) (es : List Event)
    (hrun : ∃ s, runs State.step (boot data) es = some s) :
    (∀ n s, runs State.step (boot data) (es.take n) = some s → s.Tracks) ↔
      AllSteps State.step KeepsTable (boot data) es :=
  (Inv.boot data).tracks_iff hrun

/-- A file that can be executed. -/
def execShell : ExecCall where
  fileDir := 4
  fileName := some [115, 104]
  fileExists := true
  checkMagic := true
  joinable := true

/-- The main thread starts a program, which exits, and joins it. -/
theorem process_table_tracks_join :
    (∃ s, runs State.step (boot fun _ => none) [.exec 0 execShell, .exit 1 7, .join 0 1] = some s) ∧
    ∀ n s, runs State.step (boot fun _ => none)
      (List.take n [.exec 0 execShell, .exit 1 7, .join 0 1]) = some s → s.Tracks :=
  ⟨⟨_, rfl⟩, (process_table_tracks (fun _ => none) [.exec 0 execShell, .exit 1 7, .join 0 1] ⟨_, rfl⟩).mpr
    (by decide)⟩

/-- The id of a thread that was destroyed is still a key, and with 20 threads an `Exec` starts a thread
and returns -1. -/
theorem ids_never_released :
    (∃ s, runs State.step (boot fun _ => none) [.create false, .exit 1 0, .destroy 1] = some s ∧
      s.threadUPS.hasKey 1 = some true ∧ s.threads 1 = none ∧ ¬ s.Tracks) ∧
    ∃ s, runs State.step (boot fun _ => none)
        (List.replicate 19 (.create false) ++ [.exec 0 execShell]) = some s ∧
      (-1, true) ∈ s.execs ∧ ¬ s.Tracks := by
  constructor
  · refine ⟨_, rfl, rfl, rfl, fun htracks => ?_⟩
    obtain ⟨q, th, hq, hid⟩ := (htracks.hasKey_iff 1).mp rfl
    match q with
    | 0 =>
      cases hq
      cases hid
    | 1 => cases hq
    | q + 2 => cases hq
  · refine ⟨_, rfl, by decide, fun htracks => ?_⟩
    exact absurd (htracks.exec_failed true (by decide)) (by decide)

end Nachos.Processes
