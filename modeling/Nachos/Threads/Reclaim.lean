import Nachos.Foundations.Runs
import Nachos.Threads.Kernel

/-!
# Reclaiming finished threads

`threadToBeDestroyed`, which `Thread::Finish` sets and `Scheduler::Run` deletes. The part of `Run` that
deletes stands behind `SWITCH`. A thread goes on there if it gave up the CPU in `Run`; one that was only
forked starts at `ThreadRoot`, where `StackAllocate` let its program counter point to.

Threads block in the queue of a semaphore, as in `Semaphore::P`, and are woken as by `Semaphore::V`. A
step is what happens between two points where interrupts are looked at.
-/

namespace Nachos

/-- The threads, with what `Finish` and `Run` do about the finished ones. -/
structure Reclaim where
  kernel : Kernel
  threadToBeDestroyed : Option Tid
  /-- Does the saved state of the thread lead behind `SWITCH` in `Run`? -/
  switched : Tid → Bool
  /-- Not in the source: the threads that called `Finish` and those that were deleted, in order. -/
  finished : List Tid
  deleted : List Tid

namespace Reclaim

/-- What can happen. -/
inductive Event where
  /-- The running thread makes a thread and forks it. -/
  | fork (t : Tid) (joinable : Bool) (priority : UInt32) (tId : Int)
  /-- The running thread yields, or the timer makes it. -/
  | yield
  /-- The running thread goes to sleep in the queue of a semaphore. -/
  | block (n : Nat)
  /-- A thread or an interrupt handler wakes the first thread of a queue. -/
  | wake (n : Nat)
  /-- The running thread is in the last part of `Finish`. -/
  | finish
  /-- One iteration of the loop of `Sleep`. -/
  | loop

/-- Is the current thread in the loop of `Sleep`? -/
def sleeping (s : Reclaim) : Bool :=
  match s.kernel.threads s.kernel.currentThread with
  | some th => th.stack.head? == some .sleep
  | none => false

/-- `Scheduler::Run`, once the scheduler is in the state `k`. -/
def run (s : Reclaim) (k : Kernel) (nextThread : Tid) : Option Reclaim := do
  let oldThread := k.currentThread
  let k := k.run nextThread
  let switched := Function.update s.switched oldThread true
  if switched nextThread then
    -- behind `SWITCH`; the destructor asserts that the thread does not run
    guard (s.threadToBeDestroyed ≠ some k.currentThread)
    return { s with
      kernel := k
      switched := switched
      threadToBeDestroyed := none
      deleted := s.deleted ++ s.threadToBeDestroyed.toList }
  else
    -- at `ThreadRoot`
    return { s with kernel := k, switched := switched }

/-- `Thread::Fork` of a new thread. -/
def fork (s : Reclaim) (t : Tid) (joinable : Bool) (priority : UInt32) (tId : Int) : Option Reclaim := do
  guard (s.kernel.threads t).isNone
  let k ← (s.kernel.addThread t (Kernel.Thread.new joinable priority tId)).readyToRun t
  return { s with kernel := k, switched := Function.update s.switched t false }

/-- `Thread::Yield`. -/
def yield (s : Reclaim) : Option Reclaim :=
  let this := s.kernel.currentThread
  match (s.kernel.setPreAssignedQueue this (Fin.last 1)).findNextToRun with
  | (none, k) => some { s with kernel := k }
  | (some nextThread, k) => do
    let k ← k.readyToRun this
    s.run k nextThread

/-- `Semaphore::P` with value 0, up to the loop of `Sleep`. -/
def block (s : Reclaim) (n : Nat) : Reclaim :=
  let sem := s.kernel.semaphores (.user n)
  let k := s.kernel.setSemaphore (.user n) { sem with queue := sem.queue ++ [s.kernel.currentThread] }
  { s with kernel := k.sleep [] }

/-- The last part of `Thread::Finish`, up to the loop of `Sleep`. -/
def finish (s : Reclaim) : Reclaim :=
  { s with
    kernel := s.kernel.sleep []
    threadToBeDestroyed := some s.kernel.currentThread
    finished := s.finished ++ [s.kernel.currentThread] }

/-- One iteration of the loop of `Thread::Sleep`. -/
def sleepLoop (s : Reclaim) (rest : List Frame) : Option Reclaim :=
  match s.kernel.findNextToRun with
  | (none, k) => some { s with kernel := k }
  | (some nextThread, k) => s.run (k.setStack k.currentThread rest) nextThread

/-- The state after an event; nothing where the event cannot happen or stops the kernel. -/
def step (s : Reclaim) (ev : Event) : Option Reclaim :=
  match ev with
  | .fork t joinable priority tId => do
    guard (s.sleeping = false)
    s.fork t joinable priority tId
  | .yield => do
    guard (s.sleeping = false)
    s.yield
  | .block n => do
    guard (s.sleeping = false)
    return s.block n
  | .wake n => do
    let k ← s.kernel.v (.user n)
    return { s with kernel := k }
  | .finish => do
    guard (s.sleeping = false)
    return s.finish
  | .loop => do
    match (← s.kernel.threads s.kernel.currentThread).stack with
    | .sleep :: rest => s.sleepLoop rest
    | _ => none

/-- System start: the main thread runs. -/
def start : Reclaim where
  kernel := Kernel.start fun _ => 0
  threadToBeDestroyed := none
  switched := fun _ => false
  finished := []
  deleted := []

/-- Every thread that has finished was deleted, once and in its turn, or is the one that is to be
destroyed; and that one still has the CPU. -/
structure Reclaimed (s : Reclaim) : Prop where
  deletedOnce : s.finished = s.deleted ++ s.threadToBeDestroyed.toList
  finishedOnce : s.finished.Nodup
  prompt : ∀ t ∈ s.threadToBeDestroyed, t = s.kernel.currentThread

/-- A thread that has finished does not give the CPU to a thread that never had it. -/
def HandsOver (s : Reclaim) : Event → Prop
  | .loop => s.threadToBeDestroyed ≠ none → ∀ t ∈ s.kernel.findNextToRun.1, s.switched t = true
  | _ => True

end Reclaim

end Nachos
