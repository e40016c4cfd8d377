import Mathlib.Order.Bounds.Basic
import Nachos.Threads.Discipline

/-!
# Inherited priorities

What `documentation/explicacion_practica2.txt` asks of `Lock` and `Thread::GetPriority`: the thread that
has a lock has the greatest of its own priority and those of the threads that wait for its locks.

The equation is about states between the pieces of code that run with the CPU held. So the steps here are
those of `Acquire` and `Release` as the source makes them: the interrupts are only looked at when `P` or
`V` enables them again and when `P` sleeps.
-/

namespace Nachos.Synch

open Foundations

section State

variable {L C S κ σ : Type}

/-- `GetPriority` of the thread `t`. -/
def State.effective (s : State L C S κ σ) (t : Tid) : Int :=
  getPriority (s.priority t) (s.inheritedPriorities t)

/-- The threads that sleep in the queue of the lock's semaphore. -/
def State.waiters (s : State L C S κ σ) (l : L) : List Tid := (s.semaphores (.lock l)).queue

/-- The thread `u` is blocked in `Acquire` on the lock `l`. -/
def State.BlockedOn (s : State L C S κ σ) (u : Tid) (l : L) : Prop :=
  s.asleep u = true ∧ (s.stack u).head? = some (.p (.lock l))

/-- Every thread has the greatest of its own priority and those of the threads that are blocked on a
lock of its own. -/
def State.Inherits (s : State L C S κ σ) : Prop :=
  ∀ t, IsGreatest
    {p | p = s.priority t ∨ ∃ l u, s.lockOwner l = some t ∧ s.BlockedOn u l ∧ p = s.effective u}
    (s.effective t)

end State

/-! ## Steps of the source -/

/-- What the CPU does between two points where it can change hands. -/
inductive LockEvent (L : Type) where
  /-- The thread calls `Acquire`, up to the first test of the value in `P`. -/
  | acquire (t : Tid) (l : L)
  /-- The thread goes on in `Acquire`: with the next test after it was woken, or behind `P`. -/
  | resume (t : Tid)
  /-- The thread calls `Release`. -/
  | release (t : Tid) (l : L)

/-- The steps of `Synch` that it consists of. -/
def LockEvent.pieces {L : Type} : LockEvent L → List (Event (LockCall L))
  | .acquire t l => [.call t (.acquire l), .exec t, .exec t]
  | .resume t => [.exec t]
  | .release t l => [.call t (.release l), .exec t, .exec t]

variable {L : Type} [DecidableEq L]

/-- The state of threads that use locks. -/
abbrev LockState (L : Type) := State L Empty Empty Empty (Tid → L → Bool)

/-- The state at the beginning. -/
def LockState.start (L : Type) (priority : Tid → Int) : LockState L :=
  State.start Empty.elim priority fun _ _ => false

/-- The state after an event. -/
def LockState.step (s : LockState L) (e : LockEvent L) : Option (LockState L) :=
  runs (State.step (lockUsers L)) s e.pieces

/-! ## Where nothing is lost -/

/-- A priority that the thread `o` has of its own, or that it has inherited through the lock `l`, if it
inherits from everybody who waits for it. -/
def State.Covers (s : LockState L) (o : Tid) (l : L) (p : Int) : Prop :=
  p ≤ s.priority o ∨ ∃ w ∈ s.waiters l, p ≤ s.effective w

/-- Where the thread `t`, whose first frame is given, loses no priority by going on. -/
def State.KeepsOnResume (s : LockState L) (t : Tid) : Option (Frame L Empty Empty Empty) → Prop
  | some (.p (.lock l)) =>
    (s.semaphores (.lock l)).value = 0 → ∀ o ∈ s.lockOwner l, s.Covers o l (s.effective t)
  | some (.own l) => ∀ w ∈ s.waiters l, s.effective w ≤ s.priority t
  | _ => True

/-- The calls that do not lose a priority.
* `Acquire` of a lock that has an owner: no thread waits with a higher priority than the caller, unless
  the owner has that priority of its own; and if the owner itself is blocked, whoever it waits for has
  the priority of the caller already.
* A thread that was woken and has to sleep again because another one took the lock: the new owner has
  its priority already.
* A thread that becomes the owner: nobody is blocked on the lock with a higher priority than its own. -/
def State.KeepsInheritance (s : LockState L) : LockEvent L → Prop
  | .acquire t l => ∀ o ∈ s.lockOwner l,
    (∀ w ∈ s.waiters l, s.effective w ≤ s.effective t ∨ s.effective w ≤ s.priority o) ∧
      ∀ l', o ∈ s.waiters l' → ∀ o' ∈ s.lockOwner l', s.Covers o' l' (s.effective t)
  | .resume t => s.KeepsOnResume t (s.stack t).head?
  | .release _ _ => True

end Nachos.Synch
