import Nachos.Lib.Proofs.SortedListProofs
import Nachos.Machine.Interrupt

/-!
# Proofs: interrupts

While all times of the pending interrupts are on the same side of `2 ^ 31`, the order of the keys is the
order of the times, and the first interrupt of the list is the next one. The invariant relates the
times, which count from the last restart of the ticks, to the time since the machine was started.
-/

namespace Nachos.Interrupt

open Foundations

variable {s s' : Interrupt} {base : Nat}

/-! ## Keys -/

theorem ofKey_toKey {when : Nat} (h : when < 2 ^ 32) : ofKey (toKey when) = when := by
  unfold ofKey toKey
  split
  · omega
  · omega

/-- On one side of `2 ^ 31`, the keys are in the order of the times. -/
theorem toKey_le_iff {v w : Nat} (h : v < 2 ^ 31 ↔ w < 2 ^ 31) : toKey v ≤ toKey w ↔ v ≤ w := by
  unfold toKey
  split
  · rw [if_pos (h.mp ‹_›)]
    omega
  · rw [if_neg (mt h.mpr ‹_›)]
    omega

/-- The new time of an interrupt that is not overdue. -/
theorem newWhen_eq {ticks when : Nat} (h : ticks ≤ when) (hw : when < 2 ^ 32) :
    newWhen ticks when = when - ticks := by
  unfold newWhen
  omega

theorem OneHalf.iff {l : List Nat} (h : OneHalf l) {v w : Nat} (hv : v ∈ l) (hw : w ∈ l) :
    v < 2 ^ 31 ↔ w < 2 ^ 31 := by
  rcases h with h | h
  · exact iff_of_true (h v hv) (h w hw)
  · have hv' := h v hv
    have hw' := h w hw
    omega

/-- Times that are among others on one side of `2 ^ 31`. -/
theorem OneHalf.subset {l l' : List Nat} (h : OneHalf l) (hsub : ∀ w ∈ l', w ∈ l) : OneHalf l' := by
  rcases h with h | h
  · exact Or.inl fun w hw => h w (hsub w hw)
  · exact Or.inr fun w hw => h w (hsub w hw)

/-! ## The pending interrupts -/

/-- The interrupts of the list have keys that say when they are due, and are in the order of these
times; `base` is the time of the last restart of the ticks. -/
structure Scheduled (base : Nat) (pending : List (PendingInterrupt × Int)) : Prop where
  times : ∀ i ∈ pending, ∃ when < 2 ^ 32, i.2 = toKey when ∧ i.1.due = base + when
  oneHalf : OneHalf (pending.map fun i => ofKey i.2)
  sorted : KeySorted pending

namespace Scheduled

variable {pending pending' : List (PendingInterrupt × Int)} {i : PendingInterrupt × Int}

/-- The time that a key stands for. -/
theorem ofKey_eq (h : Scheduled base pending) (hi : i ∈ pending) :
    ofKey i.2 < 2 ^ 32 ∧ i.2 = toKey (ofKey i.2) ∧ i.1.due = base + ofKey i.2 := by
  obtain ⟨when, hlt, hkey, hdue⟩ := h.times i hi
  have hof : ofKey i.2 = when := by rw [hkey, ofKey_toKey hlt]
  rw [hof]
  exact ⟨hlt, hkey, hdue⟩

/-- The order of the keys is the order of the due times. -/
theorem due_le (h : Scheduled base pending) {j : PendingInterrupt × Int} (hi : i ∈ pending)
    (hj : j ∈ pending) (hle : i.2 ≤ j.2) : i.1.due ≤ j.1.due := by
  obtain ⟨-, hkeyi, hduei⟩ := h.ofKey_eq hi
  obtain ⟨-, hkeyj, hduej⟩ := h.ofKey_eq hj
  have hhalf := h.oneHalf.iff (List.mem_map_of_mem hi) (List.mem_map_of_mem hj)
  rw [hkeyi, hkeyj, toKey_le_iff hhalf] at hle
  omega

/-- The first interrupt of the list is the next one. -/
theorem head_due_le {l : List (PendingInterrupt × Int)} (h : Scheduled base (i :: l)) :
    ∀ j ∈ i :: l, i.1.due ≤ j.1.due := by
  intro j hj
  rcases List.mem_cons.mp hj with rfl | hjl
  · exact Nat.le_refl _
  · exact h.due_le List.mem_cons_self hj ((List.pairwise_cons.mp h.sorted).1 j hjl)

/-- A list with the same interrupts, in the order of the keys. -/
theorem perm (h : Scheduled base pending) (hp : pending'.Perm pending) (hs : KeySorted pending') :
    Scheduled base pending' := by
  refine ⟨fun i hi => h.times i (hp.mem_iff.mp hi), ?_, hs⟩
  exact h.oneHalf.subset fun w hw => (hp.map _).mem_iff.mp hw

theorem tail {l : List (PendingInterrupt × Int)} (h : Scheduled base (i :: l)) : Scheduled base l :=
  ⟨fun j hj => h.times j (List.mem_cons_of_mem i hj),
    h.oneHalf.subset fun w hw => List.mem_cons_of_mem _ hw, (List.pairwise_cons.mp h.sorted).2⟩

/-- The first interrupt is put back. -/
theorem putBack {l : List (PendingInterrupt × Int)} (h : Scheduled base (i :: l)) :
    Scheduled base (sortedInsert i.1 (toKey (ofKey i.2)) l) := by
  obtain ⟨-, hkey, -⟩ := h.ofKey_eq List.mem_cons_self
  rw [← hkey]
  exact h.perm (sortedInsert_perm i.1 i.2 l) (h.tail.sorted.sortedInsert _ _)

theorem mem_putBack {l : List (PendingInterrupt × Int)} {j : PendingInterrupt × Int}
    (h : Scheduled base (i :: l)) (hj : j ∈ sortedInsert i.1 (toKey (ofKey i.2)) l) : j ∈ i :: l := by
  obtain ⟨-, hkey, -⟩ := h.ofKey_eq List.mem_cons_self
  rw [← hkey] at hj
  exact (sortedInsert_perm _ _ _).mem_iff.mp hj

/-- A new interrupt is inserted. -/
theorem insert (h : Scheduled base pending) {toOccur : PendingInterrupt} {when : Nat}
    (hw : when < 2 ^ 32) (hdue : toOccur.due = base + when)
    (hhalf : OneHalf (when :: pending.map fun i => ofKey i.2)) :
    Scheduled base (sortedInsert toOccur (toKey when) pending) := by
  have hmem : ∀ {i}, i ∈ sortedInsert toOccur (toKey when) pending →
      i = (toOccur, toKey when) ∨ i ∈ pending := fun hi =>
    List.mem_cons.mp ((sortedInsert_perm toOccur (toKey when) pending).mem_iff.mp hi)
  refine ⟨fun i hi => ?_, ?_, h.sorted.sortedInsert _ _⟩
  · rcases hmem hi with rfl | hi
    · exact ⟨when, hw, rfl, hdue⟩
    · exact h.times i hi
  · refine hhalf.subset fun w hw' => ?_
    obtain ⟨i, hi, rfl⟩ := List.mem_map.mp hw'
    rcases hmem hi with rfl | hi
    · rw [ofKey_toKey hw]
      exact List.mem_cons_self
    · exact List.mem_cons_of_mem _ (List.mem_map_of_mem hi)

end Scheduled

/-! ## The invariant -/

/-- The clock and the pending interrupts count from the same time. -/
structure Timed (s : Interrupt) (base : Nat) : Prop where
  clock : s.elapsed = base + s.totalTicks
  ticks : s.totalTicks < 2 ^ 64
  pending : Scheduled base s.pending

/-- The handlers were invoked in time, and no pending interrupt is due before one of them. -/
structure FiredInv (s : Interrupt) : Prop where
  ordered : (s.fired.map Prod.fst).Pairwise (· ≤ ·)
  notEarly : ∀ f ∈ s.fired, f.1 ≤ f.2 ∧ f.2 ≤ s.elapsed
  before : ∀ f ∈ s.fired, ∀ i ∈ s.pending, f.1 ≤ i.1.due

/-- The machine is idle in `Idle` only. -/
def StatusInv (s : Interrupt) : Prop :=
  match s.control with
  | .calls | .loop .oneTick => s.status ≠ .idle
  | .handler .oneTick old => old ≠ .idle
  | _ => True

structure Inv (s : Interrupt) : Prop where
  timed : ∃ base, Timed s base
  fired : FiredInv s
  status : StatusInv s

theorem inv_start : Inv start :=
  ⟨⟨0, rfl, by decide, ⟨by simp [start], Or.inl (by simp [start]), List.Pairwise.nil⟩⟩,
    ⟨List.Pairwise.nil, by simp [start], by simp [start]⟩, by simp [StatusInv, start]⟩

/-- The interrupts of the list after a restart of the ticks. -/
theorem mem_restartTicks {i : PendingInterrupt × Int} :
    i ∈ s.restartTicks.pending ↔
      ∃ j ∈ s.pending, (j.1, toKey (newWhen s.totalTicks (ofKey j.2))) = i := by
  have hp := foldl_sortedInsert_perm (fun j : PendingInterrupt × Int => j.1)
    (fun j => toKey (newWhen s.totalTicks (ofKey j.2))) s.pending []
  rw [List.nil_append] at hp
  rw [← List.mem_map]
  exact hp.mem_iff

/-- The ticks are restarted when no interrupt is overdue. -/
theorem Timed.restartTicks (h : Timed s base) (hdue : ∀ when ∈ s.whens, s.totalTicks ≤ when)
    (hhalf : OneHalf s.restartTicks.whens) : Timed s.restartTicks (base + s.totalTicks) := by
  refine ⟨h.clock, Nat.two_pow_pos 64, ?_, hhalf, KeySorted.foldl_sortedInsert _ _ _ List.Pairwise.nil⟩
  intro i hi
  obtain ⟨j, hj, rfl⟩ := mem_restartTicks.mp hi
  obtain ⟨hlt, -, hduej⟩ := h.pending.ofKey_eq hj
  have hle : s.totalTicks ≤ ofKey j.2 := hdue _ (List.mem_map_of_mem hj)
  refine ⟨newWhen s.totalTicks (ofKey j.2), ?_, rfl, ?_⟩
  · rw [newWhen_eq hle hlt]
    omega
  · rw [newWhen_eq hle hlt, hduej]
    omega

/-- The first part of `Schedule`. -/
theorem Inv.makeRoom {fromNow : Nat} (h : Inv s) (hok : ScheduleOk s fromNow) :
    Inv (s.makeRoom fromNow) := by
  unfold Interrupt.makeRoom
  have hhalf : OneHalf (s.makeRoom fromNow).whens :=
    hok.oneHalf.subset fun w hw => List.mem_cons_of_mem _ hw
  unfold Interrupt.makeRoom at hhalf
  obtain ⟨base, ht⟩ := h.timed
  by_cases hr : s.restarts fromNow = true
  · rw [if_pos hr] at hhalf ⊢
    refine ⟨⟨_, ht.restartTicks (hok.notOverdue hr) hhalf⟩, ⟨h.fired.ordered, h.fired.notEarly, ?_⟩,
      h.status⟩
    intro f hf i hi
    obtain ⟨j, hj, rfl⟩ := mem_restartTicks.mp hi
    exact h.fired.before f hf j hj
  · rw [if_neg hr]
    exact h

/-- `Schedule` keeps the invariant. -/
theorem Inv.schedule {handler fromNow : Nat} {type : IntType} (h : Inv s) (hok : ScheduleOk s fromNow)
    (hs : s.schedule handler fromNow type = some s') : Inv s' := by
  simp only [Interrupt.schedule, Option.bind_eq_bind, Option.bind_eq_some_iff, Option.pure_def,
    Option.some.injEq] at hs
  obtain ⟨_, -, rfl⟩ := hs
  have h1 := h.makeRoom hok
  obtain ⟨base, ht⟩ := h1.timed
  have hcut := hok.notCut
  unfold uintMax at hcut
  have hwhen : ((s.makeRoom fromNow).totalTicks + fromNow) % 2 ^ 64 % 2 ^ 32 =
      (s.makeRoom fromNow).totalTicks + fromNow := by
    omega
  refine ⟨⟨base, ht.clock, ht.ticks, ?_⟩, ⟨h1.fired.ordered, h1.fired.notEarly, ?_⟩, h1.status⟩
  · rw [hwhen]
    refine ht.pending.insert (by omega) ?_ hok.oneHalf
    show (s.makeRoom fromNow).elapsed + fromNow = _
    rw [ht.clock]
    omega
  · intro f hf i hi
    obtain ⟨hle, hnow⟩ := h1.fired.notEarly f hf
    rcases List.mem_cons.mp ((sortedInsert_perm _ _ _).mem_iff.mp hi) with rfl | hi
    · show f.1 ≤ (s.makeRoom fromNow).elapsed + fromNow
      omega
    · exact h1.fired.before f hf i hi

/-! ## `CheckIfDue` -/

/-- The time is advanced. -/
theorem Timed.addTicks {n : Nat} (h : Timed s base) (hn : s.totalTicks + n < 2 ^ 64) :
    Timed (s.addTicks n) base := by
  have hticks : (s.totalTicks + n) % 2 ^ 64 = s.totalTicks + n := Nat.mod_eq_of_lt hn
  refine ⟨?_, ?_, h.pending⟩
  · show s.elapsed + n = base + (s.totalTicks + n) % 2 ^ 64
    rw [hticks, h.clock]
    omega
  · show (s.totalTicks + n) % 2 ^ 64 < 2 ^ 64
    rwa [hticks]

theorem FiredInv.addTicks (h : FiredInv s) (n : Nat) : FiredInv (s.addTicks n) := by
  refine ⟨h.ordered, fun f hf => ?_, h.before⟩
  obtain ⟨hle, hnow⟩ := h.notEarly f hf
  exact ⟨hle, Nat.le_add_right_of_le hnow⟩

/-- A list with the same interrupts. -/
theorem FiredInv.perm {pending : List (PendingInterrupt × Int)} (h : FiredInv s)
    (hp : ∀ i ∈ pending, i ∈ s.pending) : FiredInv { s with pending := pending } :=
  ⟨h.ordered, h.notEarly, fun f hf i hi => h.before f hf i (hp i hi)⟩

/-- What `CheckIfDue` does: it calls the handler of the next interrupt, which is due, or calls none. -/
structure Checked (s : Interrupt) (o : Option PendingInterrupt) (s' : Interrupt) : Prop where
  timed : ∃ base, Timed s' base
  fired : FiredInv s'
  sameFired : s'.fired = s.fired
  control : s'.control = s.control
  status : s'.status = s.status
  due : ∀ toOccur ∈ o, toOccur.due ≤ s'.elapsed ∧ (∀ i ∈ s'.pending, toOccur.due ≤ i.1.due) ∧
    ∀ f ∈ s'.fired, f.1 ≤ toOccur.due

/-- The next interrupt is due. -/
theorem fire_spec {i : PendingInterrupt × Int} {l : List (PendingInterrupt × Int)} (ht : Timed s base)
    (hf : FiredInv s) (hl : s.pending = i :: l) (hdue : ofKey i.2 ≤ s.totalTicks) :
    Checked s (s.fire i.1 (ofKey i.2) l).1 (s.fire i.1 (ofKey i.2) l).2 ∧
      ((s.fire i.1 (ofKey i.2) l).1 = none → s.status = .idle) := by
  have hpend : Scheduled base (i :: l) := hl ▸ ht.pending
  obtain ⟨-, -, hduei⟩ := hpend.ofKey_eq List.mem_cons_self
  unfold fire
  split
  · rename_i hquit
    refine ⟨⟨⟨base, ht.clock, ht.ticks, hpend.putBack⟩, hf.perm ?_, rfl, rfl, rfl, ?_⟩, fun _ => hquit.1⟩
    · intro j hj
      rw [hl]
      exact hpend.mem_putBack hj
    · intro toOccur hto
      cases hto
  · refine ⟨⟨⟨base, ht.clock, ht.ticks, hpend.tail⟩, hf.perm ?_, rfl, rfl, rfl, ?_⟩, fun h => by cases h⟩
    · intro j hj
      rw [hl]
      exact List.mem_cons_of_mem i hj
    · intro toOccur hto
      cases hto
      refine ⟨?_, ?_, ?_⟩
      · show i.1.due ≤ s.elapsed
        rw [hduei, ht.clock]
        omega
      · exact fun j hj => hpend.head_due_le j (List.mem_cons_of_mem i hj)
      · exact fun f hf' => hf.before f hf' i (hl ▸ List.mem_cons_self)

/-- `CheckIfDue`; when it advances no clock and the machine is not idle, it calls no handler only if no
interrupt is due. -/
theorem checkIfDue_spec (advanceClock : Bool) (ht : ∃ base, Timed s base) (hf : FiredInv s) :
    Checked s (s.checkIfDue advanceClock).1 (s.checkIfDue advanceClock).2 ∧
      (advanceClock = false → s.status ≠ .idle → (s.checkIfDue advanceClock).1 = none →
        ∀ i ∈ (s.checkIfDue advanceClock).2.pending, (s.checkIfDue advanceClock).2.elapsed < i.1.due) := by
  obtain ⟨base, ht⟩ := ht
  unfold checkIfDue
  cases hl : s.pending with
  | nil =>
    refine ⟨⟨⟨base, ht⟩, hf, rfl, rfl, rfl, fun _ h => by cases h⟩, fun _ _ _ i hi => ?_⟩
    have hi' : i ∈ s.pending := hi
    rw [hl] at hi'
    cases hi'
  | cons i l =>
    have hpend : Scheduled base (i :: l) := hl ▸ ht.pending
    obtain ⟨hlt, -, hduei⟩ := hpend.ofKey_eq List.mem_cons_self
    simp only [sortedPop]
    split_ifs with hadv hnot
    · -- the clock is advanced to the time of the next interrupt
      have ht' : Timed (s.addTicks (ofKey i.2 - s.totalTicks)) base := ht.addTicks (by omega)
      have hticks : (s.addTicks (ofKey i.2 - s.totalTicks)).totalTicks = ofKey i.2 := by
        show (s.totalTicks + (ofKey i.2 - s.totalTicks)) % 2 ^ 64 = _
        omega
      obtain ⟨hc, -⟩ := fire_spec ht' (hf.addTicks _) hl (Nat.le_of_eq hticks.symm)
      refine ⟨⟨hc.timed, hc.fired, hc.sameFired, hc.control, hc.status, hc.due⟩, fun hfalse => ?_⟩
      rw [hfalse] at hadv
      exact absurd hadv.1 (by decide)
    · refine ⟨⟨⟨base, ht.clock, ht.ticks, hpend.putBack⟩, hf.perm ?_, rfl, rfl, rfl,
        fun _ h => by cases h⟩, fun _ _ _ j hj => ?_⟩
      · intro j hj
        rw [hl]
        exact hpend.mem_putBack hj
      · have hle := hpend.head_due_le j (hpend.mem_putBack hj)
        show s.elapsed < j.1.due
        rw [ht.clock]
        omega
    · obtain ⟨hc, hidle⟩ := fire_spec ht hf hl (by omega)
      exact ⟨hc, fun _ hne hnone => absurd (hidle hnone) hne⟩

/-- The handler of an interrupt that is due is invoked. -/
theorem Checked.invoke {toOccur : PendingInterrupt} {caller : Caller} (h : Checked s (some toOccur) s')
    (hstatus : caller = .oneTick → s'.status ≠ .idle) : Inv (s'.invoke caller toOccur) := by
  obtain ⟨hdue, hnext, hlast⟩ := h.due toOccur rfl
  obtain ⟨base, ht⟩ := h.timed
  refine ⟨⟨base, ht.clock, ht.ticks, ht.pending⟩, ⟨?_, ?_, ?_⟩, ?_⟩
  · show ((s'.fired ++ [(toOccur.due, s'.elapsed)]).map Prod.fst).Pairwise (· ≤ ·)
    rw [List.map_append, List.pairwise_append]
    refine ⟨h.fired.ordered, List.pairwise_singleton _ _, fun a ha b hb => ?_⟩
    obtain ⟨f, hf, rfl⟩ := List.mem_map.mp ha
    rw [List.map_cons, List.map_nil, List.mem_singleton] at hb
    rw [hb]
    exact hlast f hf
  · intro f hf
    rcases List.mem_append.mp hf with hf | hf
    · exact h.fired.notEarly f hf
    · rw [List.mem_singleton.mp hf]
      exact ⟨hdue, Nat.le_refl _⟩
  · intro f hf i hi
    rcases List.mem_append.mp hf with hf | hf
    · exact h.fired.before f hf i hi
    · rw [List.mem_singleton.mp hf]
      exact hnext i hi
  · show StatusInv (s'.invoke caller toOccur)
    cases caller with
    | oneTick => exact hstatus rfl
    | idle => exact True.intro

/-! ## Steps -/

/-- One iteration of the loop; when that of `OneTick` is left, no interrupt is due. -/
theorem Inv.check {caller : Caller} (h : Inv s) (hc : s.control = .loop caller) :
    Inv (s.check caller) ∧
      (caller = .oneTick → (s.check caller).control = .calls →
        ∀ i ∈ (s.check caller).pending, (s.check caller).elapsed < i.1.due) := by
  obtain ⟨hchecked, hnone⟩ := checkIfDue_spec false h.timed h.fired
  have hstatus : caller = .oneTick → s.status ≠ .idle := by
    rintro rfl
    have := h.status
    simpa [StatusInv, hc] using this
  unfold Interrupt.check
  cases hd : s.checkIfDue false with
  | mk o s1 =>
    rw [hd] at hchecked hnone
    cases o with
    | some toOccur =>
      refine ⟨hchecked.invoke fun h => by rw [hchecked.status]; exact hstatus h, fun _ hcalls => ?_⟩
      cases hcalls
    | none =>
      obtain ⟨base, ht⟩ := hchecked.timed
      cases caller with
      | oneTick =>
        refine ⟨⟨⟨base, ht.clock, ht.ticks, ht.pending⟩,
          ⟨hchecked.fired.ordered, hchecked.fired.notEarly, hchecked.fired.before⟩, ?_⟩, fun _ _ => ?_⟩
        · show s1.status ≠ .idle
          rw [hchecked.status]
          exact hstatus rfl
        · exact hnone rfl (hstatus rfl) rfl
      | idle =>
        refine ⟨⟨⟨base, ht.clock, ht.ticks, ht.pending⟩,
          ⟨hchecked.fired.ordered, hchecked.fired.notEarly, hchecked.fired.before⟩, ?_⟩, fun h => ?_⟩
        · show MachineStatus.system ≠ .idle
          decide
        · cases h

/-- `Idle` keeps the invariant. -/
theorem Inv.idle (h : Inv s) (consoleRunning : Bool) : Inv (s.idle consoleRunning) := by
  obtain ⟨base, ht⟩ := h.timed
  have ht' : ∃ base, Timed { s with status := .idle } base := ⟨base, ht.clock, ht.ticks, ht.pending⟩
  have hf' : FiredInv { s with status := .idle } :=
    ⟨h.fired.ordered, h.fired.notEarly, h.fired.before⟩
  unfold Interrupt.idle
  cases consoleRunning with
  | true =>
    exact ⟨⟨base, ht.clock, ht.ticks, ht.pending⟩,
      ⟨h.fired.ordered, h.fired.notEarly, h.fired.before⟩, True.intro⟩
  | false =>
    obtain ⟨hchecked, -⟩ := checkIfDue_spec true ht' hf'
    simp only [Bool.false_eq_true, if_false]
    cases hd : checkIfDue { s with status := .idle } true with
    | mk o s1 =>
      rw [hd] at hchecked
      cases o with
      | some toOccur => exact hchecked.invoke fun h => by cases h
      | none =>
        obtain ⟨base, ht⟩ := hchecked.timed
        exact ⟨⟨base, ht.clock, ht.ticks, ht.pending⟩,
          ⟨hchecked.fired.ordered, hchecked.fired.notEarly, hchecked.fired.before⟩, True.intro⟩

/-- Every step that meets the condition keeps the invariant. -/
theorem Inv.step {ev : Event} (h : Inv s) (hok : StepOk s ev) (hs : s.step ev = some s') : Inv s' := by
  obtain ⟨base, ht⟩ := h.timed
  unfold Interrupt.step at hs
  split at hs
  · exact h.schedule hok hs
  · exact h.schedule hok hs
  · cases hs
    refine ⟨⟨base, ht.clock, ht.ticks, ht.pending⟩,
      ⟨h.fired.ordered, h.fired.notEarly, h.fired.before⟩, ?_⟩
    rename_i hc
    simp only [StatusInv, hc]
    split <;> decide
  · cases hs
    have ht' := ht.addTicks hok
    have hf' := h.fired.addTicks s.tick
    refine ⟨⟨base, ht'.clock, ht'.ticks, ht'.pending⟩, ⟨hf'.ordered, hf'.notEarly, hf'.before⟩, ?_⟩
    rename_i hc
    have hstatus := h.status
    simp only [StatusInv, hc] at hstatus
    exact hstatus
  · cases hs
    exact h.idle _
  · cases hs
    exact (h.check ‹_›).1
  · cases hs
    refine ⟨⟨base, ht.clock, ht.ticks, ht.pending⟩,
      ⟨h.fired.ordered, h.fired.notEarly, h.fired.before⟩, ?_⟩
    rename_i caller old hc
    have hstatus := h.status
    simp only [StatusInv, hc] at hstatus
    cases caller with
    | oneTick => exact hstatus
    | idle => exact True.intro
  · cases hs

theorem Inv.inTime (h : Inv s) : InTime s :=
  ⟨h.fired.ordered, fun f hf => (h.fired.notEarly f hf).1, fun hc => (h.check hc).2 rfl⟩

/-- In every run in which the times stay in order, interrupts fire in time. -/
theorem inTime_of_run (evs : List Event) (s : Interrupt) (hok : AllSteps Interrupt.step StepOk start evs)
    (hrun : runs Interrupt.step start evs = some s) : InTime s :=
  (runs_inv (fun _ _ _ hI hP hs => Inv.step hI hP hs) inv_start hok hrun).inTime

/-- The clock is advanced to just before `UINT_MAX`; the next `Schedule` restarts the ticks. -/
def acrossRestart : List Event :=
  [.schedule 0 (2 ^ 32 - 10) .disk, .idle false, .ret, .check, .schedule 1 100 .timer,
    .schedule 2 5 .disk, .oneTick, .check, .schedule 2 7 .disk, .ret]

/-- The disk interrupt that is due 5 ticks after the restart fires at the next tick. -/
theorem inTime_acrossRestart :
    ∃ s, runs Interrupt.step start acrossRestart = some s ∧
      s.fired = [(2 ^ 32 - 10, 2 ^ 32 - 10), (2 ^ 32 - 5, 2 ^ 32)] ∧ InTime s := by
  obtain ⟨s, hs⟩ := Option.isSome_iff_exists.mp (show (runs Interrupt.step start acrossRestart).isSome by
    decide)
  have hfired : (runs Interrupt.step start acrossRestart).map Interrupt.fired =
      some [(2 ^ 32 - 10, 2 ^ 32 - 10), (2 ^ 32 - 5, 2 ^ 32)] := by
    decide
  rw [hs, Option.map_some, Option.some.injEq] at hfired
  exact ⟨s, hs, hfired, inTime_of_run acrossRestart s (by decide) hs⟩

/-- An interrupt 5 ticks from now and one `2 ^ 31` ticks from now, whose key is negative. -/
def bothSides : List Event := [.schedule 0 5 .disk, .schedule 1 (2 ^ 31) .timer, .oneTick]

/-- After 10 ticks the loop of `OneTick` finds the later interrupt first and leaves the other one
pending. -/
theorem not_inTime_bothSides :
    ∃ s, runs Interrupt.step start bothSides = some s ∧ ¬InTime s := by
  obtain ⟨s, hs⟩ := Option.isSome_iff_exists.mp (show (runs Interrupt.step start bothSides).isSome by
    decide)
  have hloop : (runs Interrupt.step start bothSides).map (fun s => (s.control,
      (s.check .oneTick).control, (s.check .oneTick).elapsed,
      (s.check .oneTick).pending.map fun i => i.1.due)) =
      some (.loop .oneTick, .calls, 10, [2 ^ 31, 5]) := by
    decide
  rw [hs, Option.map_some, Option.some.injEq, Prod.mk.injEq, Prod.mk.injEq, Prod.mk.injEq] at hloop
  obtain ⟨hcontrol, hcalls, helapsed, hdues⟩ := hloop
  refine ⟨s, hs, fun h => ?_⟩
  have hmem : 5 ∈ (s.check .oneTick).pending.map fun i => i.1.due := by
    rw [hdues]
    decide
  obtain ⟨i, hi, hdue⟩ := List.mem_map.mp hmem
  have hlt := h.noneDue hcontrol hcalls i hi
  rw [helapsed, hdue] at hlt
  exact absurd hlt (by decide)

end Nachos.Interrupt
