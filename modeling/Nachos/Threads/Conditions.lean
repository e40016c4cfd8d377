import Nachos.Threads.Discipline

/-!
# The use of conditions

What the log of a condition has to look like, what a thread is doing with conditions according to its
stack, and where each semaphore of a `Wait` is on its way: fresh, queued, selected by a signal whose `V`
is still to come, raised, and passed.
-/

namespace Nachos.Synch

/-! ## Logs -/

/-- The waiters in the order in which they joined the queue. -/
def waits (log : List CondEvent) : List Nat := log.filterMap fun
  | .wait _ n => some n
  | _ => none

/-- The waiters in the order in which they were selected. -/
def selects (log : List CondEvent) : List Nat := log.filterMap fun
  | .select _ n => some n
  | _ => none

/-- The waiters that returned from their `Wait`. -/
def returns (log : List CondEvent) : List Nat := log.filterMap fun
  | .waitReturn _ n => some n
  | _ => none

/-- The waiters that were selected and have not returned yet. -/
def signalled (log : List CondEvent) : List Nat :=
  (selects log).filter fun n => n ∉ returns log

/-- The event `e` is in order after the events `pre`: a waiter is new, a signal selects the longest
waiting one of those that were not selected before, a broadcast has selected those that were waiting
when it began, and only a selected waiter returns. -/
def EventOk (pre : List CondEvent) : CondEvent → Prop
  | .wait _ n => n ∉ waits pre
  | .select _ n => ∃ q, waits pre = selects pre ++ n :: q
  | .broadcast _ queued selected => selected = queued
  | .waitReturn t n => .wait t n ∈ pre ∧ n ∈ selects pre

/-- Every event of the log is in order after those before it. -/
def LogOk (log : List CondEvent) : Prop :=
  ∀ pre e post, log = pre ++ e :: post → EventOk pre e

/-! ## What a thread is doing with conditions -/

/-- What a thread is doing: nothing of the following, waiting (up to its `P`), returning from its
`Wait`, about to raise the semaphore that it selected (with the rest of its broadcast), and in the loop
of a broadcast. -/
inductive Role (C : Type) where
  | plain
  | waiting (c : C) (n : Nat)
  | returning (c : C) (n : Nat)
  | signalling (n : Nat) (after : Option (C × List Nat × List Nat))
  | looping (c : C) (queued selected : List Nat)

/-- The broadcast that a thread is in: its condition, the waiters at its beginning, and those selected
so far. -/
def Role.broadcasts {C : Type} : Role C → Option (C × List Nat × List Nat)
  | .signalling _ after => after
  | .looping c queued selected => some (c, queued, selected)
  | _ => none

variable {L C S κ ι σ : Type}

/-- A frame that is not of a `Wait`, a `Signal` or a `Broadcast` in progress. -/
def Frame.Plain : Frame L C S κ → Prop
  | .p (.sleeper _) => False
  | .v (.sleeper _) => False
  | .waitReturn _ _ => False
  | .broadcast _ (some _) => False
  | _ => True

/-- The stack shows this role. -/
inductive HasRole (lockOf : C → L) : List (Frame L C S κ) → Role C → Prop where
  | plain {fs} : (∀ f ∈ fs, f.Plain) → HasRole lockOf fs .plain
  | releasing {c n rest} : (∀ f ∈ rest, f.Plain) → HasRole lockOf
      (.release (lockOf c) :: .p (.sleeper n) :: .acquire (lockOf c) :: .waitReturn c n :: rest)
      (.waiting c n)
  | freeing {c n rest} : (∀ f ∈ rest, f.Plain) → HasRole lockOf
      (.v (.lock (lockOf c)) :: .p (.sleeper n) :: .acquire (lockOf c) :: .waitReturn c n :: rest)
      (.waiting c n)
  | sleeping {c n rest} : (∀ f ∈ rest, f.Plain) → HasRole lockOf
      (.p (.sleeper n) :: .acquire (lockOf c) :: .waitReturn c n :: rest) (.waiting c n)
  | acquiring {c n rest} : (∀ f ∈ rest, f.Plain) → HasRole lockOf
      (.acquire (lockOf c) :: .waitReturn c n :: rest) (.returning c n)
  | taking {c n rest} : (∀ f ∈ rest, f.Plain) → HasRole lockOf
      (.p (.lock (lockOf c)) :: .own (lockOf c) :: .waitReturn c n :: rest) (.returning c n)
  | owning {c n rest} : (∀ f ∈ rest, f.Plain) → HasRole lockOf
      (.own (lockOf c) :: .waitReturn c n :: rest) (.returning c n)
  | returning {c n rest} : (∀ f ∈ rest, f.Plain) → HasRole lockOf
      (.waitReturn c n :: rest) (.returning c n)
  | signalling {n rest} : (∀ f ∈ rest, f.Plain) → HasRole lockOf
      (.v (.sleeper n) :: rest) (.signalling n none)
  | broadcasting {c n queued selected rest} : (∀ f ∈ rest, f.Plain) → HasRole lockOf
      (.v (.sleeper n) :: .broadcast c (some (queued, selected)) :: rest)
      (.signalling n (some (c, queued, selected)))
  | looping {c queued selected rest} : (∀ f ∈ rest, f.Plain) → HasRole lockOf
      (.broadcast c (some (queued, selected)) :: rest) (.looping c queued selected)

/-! ## Where a semaphore of a `Wait` is -/

/-- The way of a semaphore that `Condition::Wait` makes; `t` is the waiter and `u` the thread that
selected it. -/
inductive Status (C : Type) where
  | fresh
  | queued (c : C) (t : Tid)
  | selected (c : C) (t u : Tid)
  | raised (c : C) (t : Tid)
  | passed (c : C) (t : Tid)

namespace Status

/-- The thread that has not yet passed its `P`. -/
def waiter : Status C → Option (C × Tid)
  | .queued c t | .selected c t _ | .raised c t => some (c, t)
  | _ => none

/-- The thread that is about to raise the semaphore. -/
def signaller : Status C → Option Tid
  | .selected _ _ u => some u
  | _ => none

/-- The value of the semaphore. -/
def units : Status C → Int
  | .raised _ _ => 1
  | _ => 0

/-- The condition and the thread of the `Wait` that made the semaphore. -/
def origin : Status C → Option (C × Tid)
  | .fresh => none
  | .queued c t | .selected c t _ | .raised c t | .passed c t => some (c, t)

end Status

/-! ## Waiting and returning -/

/-- The thread `t` is in the `Wait` on `c` that made the semaphore `n`, and has not passed its `P`. -/
def State.WaitsOn (s : State L C S κ σ) (t : Tid) (c : C) (n : Nat) : Prop :=
  .p (.sleeper n) ∈ s.stack t ∧ .waitReturn c n ∈ s.stack t

/-- Nothing lets the `Wait` on the semaphore `n` go on. -/
def State.Stuck (s : State L C S κ σ) (n : Nat) : Prop :=
  (s.semaphores (.sleeper n)).value = 0 ∧ ∀ u, .v (.sleeper n) ∉ s.stack u

/-- The `Wait` of the thread `t` on the semaphore `n` can go on: some thread that is not asleep is about
to raise the semaphore, or it was raised and `t` is awake to take the unit. -/
def State.CanGoOn (s : State L C S κ σ) (t : Tid) (n : Nat) : Prop :=
  (∃ u rest, s.asleep u = false ∧ s.stack u = .v (.sleeper n) :: rest) ∨
    ((s.semaphores (.sleeper n)).value = 1 ∧ s.asleep t = false)

/-- The thread `t` is in a `Wait` on `c`, and was selected by a signal. -/
def State.Signalled (s : State L C S κ σ) (t : Tid) (c : C) : Prop :=
  ∃ n, .waitReturn c n ∈ s.stack t ∧ n ∉ s.colaProcesosDormidos c

/-! ## Threads that use conditions -/

/-- The calls of threads that use locks and conditions. -/
inductive CondCall (L C : Type) where
  | acquire (l : L)
  | release (l : L)
  | wait (c : C)
  | signal (c : C)
  | broadcast (c : C)

/-- Threads that use locks through pairs of `Acquire` and `Release`, and conditions with their lock
held. -/
def conditionUsers [DecidableEq L] (lockOf : C → L) :
    System L C Empty Empty (CondCall L C) (Tid → L → Bool) where
  lockOf := lockOf
  call := fun
    | .acquire l, t, taken =>
      if taken t l then none
      else some (Function.update taken t (Function.update (taken t) l true), [.acquire l])
    | .release l, t, taken =>
      if taken t l then
        some (Function.update taken t (Function.update (taken t) l false), [.release l])
      else none
    | .wait c, t, taken => if taken t (lockOf c) then some (taken, [.wait c]) else none
    | .signal c, t, taken => if taken t (lockOf c) then some (taken, [.signal c]) else none
    | .broadcast c, t, taken => if taken t (lockOf c) then some (taken, [.broadcast c none]) else none
  exec := Empty.elim

end Nachos.Synch
