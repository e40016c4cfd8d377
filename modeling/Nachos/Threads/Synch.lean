import Mathlib.Logic.Function.Basic
import Nachos.Foundations.Runs
import Nachos.Threads.Kernel

/-!
# Synchronisation under any schedule

`Semaphore`, `Lock` and `Condition` of `threads/semaphore.cc`, `lock.cc` and `condition.cc`, used by
any number of threads that run in any order. Here the scheduler is left open: a step is made by any
thread that is not asleep, and it executes the next piece of that thread's routines. The pieces are at
least as fine as the source allows, where the CPU may change hands only when `P` or `V` enables the
interrupts again and when `P` sleeps.

What the threads use the primitives for is a parameter, a `System`: the calls that a thread can make
and the atomic pieces of code between the uses of the primitives, on a shared state `σ`.
-/

namespace Nachos.Synch

/-- The semaphores: those of the programs, those of the locks, and those that `Condition::Wait`
makes, in the order of their creation. -/
inductive SemId (L S : Type) where
  | user (s : S)
  | lock (l : L)
  | sleeper (n : Nat)
deriving DecidableEq

/-- What is left to do of a routine; `κ` are the pieces of code of the system. -/
inductive Frame (L C S κ : Type) where
  /-- `Semaphore::P`, from its loop on. -/
  | p (s : SemId L S)
  /-- `Semaphore::V`. -/
  | v (s : SemId L S)
  /-- `Lock::Acquire`, and its last assignment. -/
  | acquire (l : L)
  | own (l : L)
  /-- `Lock::Release`. -/
  | release (l : L)
  /-- `Condition::Wait`. -/
  | wait (c : C)
  /-- The return of the `Wait` that sleeps on the semaphore `n`. -/
  | waitReturn (c : C) (n : Nat)
  /-- `Condition::Signal`. -/
  | signal (c : C)
  /-- The loop of `Condition::Broadcast`. Not in the source: once it runs, the waiters at its
  beginning and those that it has selected so far. -/
  | broadcast (c : C) (progress : Option (List Nat × List Nat))
  /-- Code of the system. -/
  | code (k : κ)

/-- A semaphore, with the numbers of completed increments and decrements, which the source does not
have. -/
structure Semaphore where
  value : Int
  queue : List Tid
  ups : Nat
  downs : Nat

/-- What happens at a condition; only for the statements about it. A `Wait` is named by its
semaphore. -/
inductive CondEvent where
  /-- The thread joins the queue. -/
  | wait (t : Tid) (n : Nat)
  /-- A signal of the thread selects the waiter `n`. -/
  | select (t : Tid) (n : Nat)
  /-- A `Broadcast` ends: the waiters at its beginning, and those that it selected. -/
  | broadcast (t : Tid) (queued selected : List Nat)
  /-- The `Wait` returns. -/
  | waitReturn (t : Tid) (n : Nat)
deriving DecidableEq

/-- The state of the threads, the synchronisation objects and the system. -/
structure State (L C S κ σ : Type) where
  /-- The routines that each thread is in; empty when it is in the code of its program. -/
  stack : Tid → List (Frame L C S κ)
  /-- The thread sleeps (its status is `BLOCKED`). -/
  asleep : Tid → Bool
  /-- Not in the source: `V` took the thread out of a queue, and it has not tested the value since. -/
  woken : Tid → Bool
  priority : Tid → Int
  /-- The priorities inherited through locks; a lock is `none` after its release. -/
  inheritedPriorities : Tid → List (Option L × Int)
  semaphores : SemId L S → Semaphore
  lockOwner : L → Option Tid
  /-- The semaphores of the waiters of each condition. -/
  colaProcesosDormidos : C → List Nat
  /-- The number of semaphores that `Condition::Wait` made. -/
  sleepers : Nat
  shared : σ
  log : C → List CondEvent

/-- A system of threads: the lock of each condition, the calls `ι` that a thread can make from its
program, and the pieces of code `κ`, each with the routines that come next. -/
structure System (L C S κ ι σ : Type) where
  lockOf : C → L
  call : ι → Tid → σ → Option (σ × List (Frame L C S κ))
  exec : κ → Tid → σ → Option (σ × List (Frame L C S κ))

/-- What can happen: a thread makes a call, or goes on with what it is in. -/
inductive Event (ι : Type) where
  | call (t : Tid) (i : ι)
  | exec (t : Tid)

/-! ## Inherited priorities -/

section Priority

variable {L : Type} [DecidableEq L]

/-- `Thread::GetPriority`. -/
def getPriority (priority : Int) (inherited : List (Option L × Int)) : Int :=
  inherited.foldl (fun p i => if i.1 ≠ none ∧ p < i.2 then i.2 else p) priority

/-- `Thread::SetInheritedPriority`. -/
def setInheritedPriority (l : List (Option L × Int)) (lock : L) (newPriority : Int) :
    List (Option L × Int) :=
  match l.findIdx? fun i => i.1 == some lock with
  | some i => l.set i (some lock, newPriority)
  | none => (some lock, newPriority) :: l

/-- `Thread::RemoveInheritedPriority`. -/
def removeInheritedPriority (l : List (Option L × Int)) (lock : L) : List (Option L × Int) :=
  l.map fun i => if i.1 = some lock then (none, i.2) else i

end Priority

variable {L C S κ ι σ : Type} [DecidableEq L] [DecidableEq C] [DecidableEq S]

namespace State

def setStack (s : State L C S κ σ) (t : Tid) (frames : List (Frame L C S κ)) : State L C S κ σ :=
  { s with stack := Function.update s.stack t frames }

def addLog (s : State L C S κ σ) (c : C) (e : CondEvent) : State L C S κ σ :=
  { s with log := Function.update s.log c (s.log c ++ [e]) }

/-! ## The primitives -/

/-- The thread `t` tests the value in `Semaphore::P`: it goes to sleep, or takes a unit and goes on
with `rest`. -/
def p (s : State L C S κ σ) (t : Tid) (k : SemId L S) (rest : List (Frame L C S κ)) :
    State L C S κ σ :=
  let sem := s.semaphores k
  if sem.value = 0 then
    { s with
      semaphores := Function.update s.semaphores k { sem with queue := sem.queue ++ [t] }
      asleep := Function.update s.asleep t true
      woken := Function.update s.woken t false }
  else
    { s with
      semaphores := Function.update s.semaphores k
        { sem with value := sem.value - 1, downs := sem.downs + 1 }
      stack := Function.update s.stack t rest
      woken := Function.update s.woken t false }

/-- `Semaphore::V` by the thread `t`, which goes on with `rest`. -/
def v (s : State L C S κ σ) (t : Tid) (k : SemId L S) (rest : List (Frame L C S κ)) :
    State L C S κ σ :=
  let sem := s.semaphores k
  let up := { sem with value := sem.value + 1, ups := sem.ups + 1 }
  match sem.queue with
  | [] =>
    { s with
      semaphores := Function.update s.semaphores k up
      stack := Function.update s.stack t rest }
  | u :: queue =>
    { s with
      semaphores := Function.update s.semaphores k { up with queue := queue }
      asleep := Function.update s.asleep u false
      woken := Function.update s.woken u true
      stack := Function.update s.stack t rest }

/-- `Lock::IsHeldByCurrentThread`, for the thread `t`. -/
def isHeldByCurrentThread (s : State L C S κ σ) (t : Tid) (l : L) : Bool := s.lockOwner l == some t

/-- `Lock::Acquire` by the thread `t` up to its `P`: the owner, if there is one, inherits the priority
of `t`. -/
def inherit (s : State L C S κ σ) (t : Tid) (l : L) : Tid → List (Option L × Int) :=
  match s.lockOwner l with
  | none => s.inheritedPriorities
  | some owner => Function.update s.inheritedPriorities owner
      (setInheritedPriority (s.inheritedPriorities owner) l
        (getPriority (s.priority t) (s.inheritedPriorities t)))

/-- A signal of the thread `t` selects the first waiter `n`, where `q` are the others. -/
def select (s : State L C S κ σ) (t : Tid) (c : C) (n : Nat) (q : List Nat) : State L C S κ σ :=
  { s with
    colaProcesosDormidos := Function.update s.colaProcesosDormidos c q
    log := Function.update s.log c (s.log c ++ [.select t n]) }

/-- The thread `t` executes its first frame; `rest` are the others. `none` is a failed `ASSERT`. -/
def execFrame (sys : System L C S κ ι σ) (s : State L C S κ σ) (t : Tid) (frame : Frame L C S κ)
    (rest : List (Frame L C S κ)) : Option (State L C S κ σ) :=
  match frame with
  | .p k => some (s.p t k rest)
  | .v k => some (s.v t k rest)
  | .acquire l =>
    if s.isHeldByCurrentThread t l then none
    else some { s.setStack t (.p (.lock l) :: .own l :: rest) with
      inheritedPriorities := s.inherit t l }
  | .own l => some { s.setStack t rest with lockOwner := Function.update s.lockOwner l (some t) }
  | .release l =>
    if s.isHeldByCurrentThread t l then
      some { s.setStack t (.v (.lock l) :: rest) with
        inheritedPriorities := Function.update s.inheritedPriorities t
          (removeInheritedPriority (s.inheritedPriorities t) l)
        lockOwner := Function.update s.lockOwner l none }
    else none
  | .wait c =>
    let l := sys.lockOf c
    let n := s.sleepers
    if s.isHeldByCurrentThread t l then
      some { s.setStack t (.release l :: .p (.sleeper n) :: .acquire l :: .waitReturn c n :: rest) with
        colaProcesosDormidos := Function.update s.colaProcesosDormidos c
          (s.colaProcesosDormidos c ++ [n])
        sleepers := n + 1
        log := Function.update s.log c (s.log c ++ [.wait t n]) }
    else none
  | .waitReturn c n => some ((s.setStack t rest).addLog c (.waitReturn t n))
  | .signal c =>
    if s.isHeldByCurrentThread t (sys.lockOf c) then
      match s.colaProcesosDormidos c with
      | [] => some (s.setStack t rest)
      | n :: q => some ((s.select t c n q).setStack t (.v (.sleeper n) :: rest))
    else none
  | .broadcast c progress =>
    let r := progress.getD (s.colaProcesosDormidos c, [])
    match s.colaProcesosDormidos c with
    | [] => some ((s.setStack t rest).addLog c (.broadcast t r.1 r.2))
    | n :: q =>
      -- the `Signal` of the loop
      if s.isHeldByCurrentThread t (sys.lockOf c) then
        some ((s.select t c n q).setStack t
          (.v (.sleeper n) :: .broadcast c (some (r.1, r.2 ++ [n])) :: rest))
      else none
  | .code k => (sys.exec k t s.shared).map fun r =>
    { s.setStack t (r.2 ++ rest) with shared := r.1 }

/-- The state after an event; `none` where the event cannot happen or an `ASSERT` fails. -/
def step (sys : System L C S κ ι σ) (s : State L C S κ σ) : Event ι → Option (State L C S κ σ)
  | .call t i =>
    if (s.stack t).isEmpty ∧ s.asleep t = false then
      (sys.call i t s.shared).map fun r => { s.setStack t r.2 with shared := r.1 }
    else none
  | .exec t =>
    if s.asleep t then none
    else match s.stack t with
      | [] => none
      | frame :: rest => s.execFrame sys t frame rest

/-- The state at the beginning: the values of the programs' semaphores and the priorities of the
threads are given. -/
def start (initialValue : S → Int) (priority : Tid → Int) (shared : σ) : State L C S κ σ where
  stack := fun _ => []
  asleep := fun _ => false
  woken := fun _ => false
  priority := priority
  inheritedPriorities := fun _ => []
  semaphores := fun
    | .user n => { value := initialValue n, queue := [], ups := 0, downs := 0 }
    | .lock _ => { value := 1, queue := [], ups := 0, downs := 0 }
    | .sleeper _ => { value := 0, queue := [], ups := 0, downs := 0 }
  lockOwner := fun _ => none
  colaProcesosDormidos := fun _ => []
  sleepers := 0
  shared := shared
  log := fun _ => []

end State

/-- The states that the system reaches from the state `s0`. -/
def Reachable (sys : System L C S κ ι σ) (s0 s : State L C S κ σ) : Prop :=
  ∃ es, Foundations.runs (State.step sys) s0 es = some s

/-! ## Threads that use semaphores -/

/-- The calls of threads that use semaphores only. -/
inductive SemCall (S : Type) where
  | p (s : S)
  | v (s : S)

/-- Threads that call `P` and `V`. -/
def semaphoreUsers (S : Type) : System Empty Empty S Empty (SemCall S) Unit where
  lockOf := Empty.elim
  call := fun
    | .p s, _, _ => some ((), [.p (.user s)])
    | .v s, _, _ => some ((), [.v (.user s)])
  exec := Empty.elim

end Nachos.Synch
