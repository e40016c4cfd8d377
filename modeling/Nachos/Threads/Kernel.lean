import Mathlib.Logic.Function.Basic
import Nachos.Lib.SortedList

/-!
# Threads

`threads/scheduler.cc`, `thread.cc`, `semaphore.cc` and, as far as `Join` and `Finish` use them,
`lock.cc`, `condition.cc` and `channel.cc`. A state holds every thread with the routines it is in the
middle of: a `Frame` is what is left of a routine, and one step executes the first frame of the
running thread, which may call further routines. Between two steps the interrupt handlers of devices
may run, and the timer may make the thread yield. The memory of a finished thread is not modelled: it
stays blocked.
-/

namespace Nachos

/-- The name of a thread. -/
abbrev Tid := Nat

inductive ThreadStatus where
  | justCreated
  | running
  | ready
  | blocked
deriving DecidableEq

/-- The semaphores: those of the programs, those of the locks of the threads' channels, and those that
`Condition::Wait` makes. -/
inductive SemId where
  | user (n : Nat)
  | lock (channel : Tid)
  | sleeper (n : Nat)
deriving DecidableEq

/-- The two conditions of a channel. -/
inductive CondName where
  | bloqueanteSend
  | bloqueanteReceive
deriving DecidableEq

/-- What is left to do of a routine. A channel is named by its thread. -/
inductive Frame where
  /-- `Semaphore::P`, from its loop on. -/
  | p (s : SemId)
  /-- `Semaphore::V`. -/
  | v (s : SemId)
  /-- The loop of `Thread::Sleep`. -/
  | sleep
  /-- `Thread::Yield`. -/
  | yield
  /-- `Lock::Acquire`, its last assignment, and `Lock::Release`, of the lock of a channel. -/
  | acquire (c : Tid)
  | own (c : Tid)
  | release (c : Tid)
  /-- `Condition::Wait` and `Condition::Signal`. -/
  | wait (c : Tid) (cond : CondName)
  | signal (c : Tid) (cond : CondName)
  /-- The steps of `Channel::Send`. -/
  | sendAppend (c : Tid) (mensaje : Int)
  | sendHead (c : Tid)
  | sendLoop (c : Tid) (b : Int)
  /-- The steps of `Channel::Receive`. -/
  | receiveLoop (c : Tid)
  | receivePop (c : Tid)
  /-- The last part of `Thread::Join`: it asks the scheduler for a thread. -/
  | joinFind
  /-- The last part of `Thread::Finish`. -/
  | finishSleep
deriving DecidableEq

structure Thread where
  status : ThreadStatus
  joinable : Bool
  priority : Int
  /-- The priorities inherited through locks; a lock is `none` after its release. -/
  inheritedPriorities : List (Option Tid × Int)
  preassignedQueue : Fin 2
  tId : Int
  /-- The routines the thread is in; empty when it runs the code of its program. -/
  stack : List Frame

structure Semaphore where
  value : Int
  queue : List Tid

/-- The data of a thread's channel, with its lock and its conditions. -/
structure Channel where
  lockOwner : Option Tid
  buzon : List Int
  /-- The semaphores on which threads wait for a condition. -/
  colaProcesosDormidos : CondName → List SemId

structure Kernel where
  threads : Tid → Option Thread
  readyList : Fin 2 → List (Tid × Int)
  currentThread : Tid
  semaphores : SemId → Semaphore
  channels : Tid → Channel
  /-- The number of semaphores that `Condition::Wait` made. -/
  sleepers : Nat

namespace Kernel

/-- Change the thread `t`. -/
def modifyThread (k : Kernel) (t : Tid) (f : Thread → Thread) : Kernel :=
  { k with threads := Function.update k.threads t ((k.threads t).map f) }

/-- Add a thread. -/
def addThread (k : Kernel) (t : Tid) (th : Thread) : Kernel :=
  { k with threads := Function.update k.threads t (some th) }

/-- The status of a thread, if it exists. -/
def status (k : Kernel) (t : Tid) : Option ThreadStatus := (k.threads t).map Thread.status

def setStatus (k : Kernel) (t : Tid) (st : ThreadStatus) : Kernel :=
  k.modifyThread t fun th => { th with status := st }

def setStack (k : Kernel) (t : Tid) (stack : List Frame) : Kernel :=
  k.modifyThread t fun th => { th with stack := stack }

def setPreAssignedQueue (k : Kernel) (t : Tid) (index : Fin 2) : Kernel :=
  k.modifyThread t fun th => { th with preassignedQueue := index }

def setReadyList (k : Kernel) (i : Fin 2) (l : List (Tid × Int)) : Kernel :=
  { k with readyList := Function.update k.readyList i l }

def setSemaphore (k : Kernel) (s : SemId) (sem : Semaphore) : Kernel :=
  { k with semaphores := Function.update k.semaphores s sem }

def setChannel (k : Kernel) (c : Tid) (ch : Channel) : Kernel :=
  { k with channels := Function.update k.channels c ch }

/-! ## The scheduler -/

/-- The value of an `int` after arithmetic modulo `2 ^ 32`. -/
def toInt32 (x : Int) : Int := (x + 2 ^ 31) % 2 ^ 32 - 2 ^ 31

/-- `Thread::GetPriority`. -/
def getPriority (th : Thread) : Int :=
  th.inheritedPriorities.foldl
    (fun p i => if i.1 ≠ none ∧ p < i.2 then i.2 else p) th.priority

/-- `Scheduler::ReadyToRun`. -/
def readyToRun (k : Kernel) (t : Tid) : Option Kernel := do
  let th ← k.threads t
  let i := th.preassignedQueue
  return (k.setStatus t .ready).setReadyList i
    (sortedInsert t (toInt32 (2 ^ 31 - 1 - getPriority th)) (k.readyList i))

/-- The variables of the loop of `FindNextToRun`: `toExecute`, its key `bestPriority` and its queue. -/
abbrev Best := Option (Tid × Int × Fin 2)

/-- One iteration of the loop of `FindNextToRun`, for the ready list `i`. -/
def findInList (k : Kernel) (best : Best) (i : Fin 2) : Best × Kernel :=
  match sortedPop (k.readyList i) with
  | none => (best, k)
  | some ((thread, priority), l) =>
    let bestPriority := match best with
      | none => -1
      | some (_, p, _) => p
    if priority > bestPriority then
      let k := k.setReadyList i l
      match best with
      | none => (some (thread, priority, i), k)
      | some (toExecute, p, queue) =>
        (some (thread, priority, i), k.setReadyList queue (sortedInsert toExecute p (k.readyList queue)))
    else (best, k.setReadyList i (sortedInsert thread priority l))

/-- `Scheduler::FindNextToRun`. -/
def findNextToRun (k : Kernel) : Option Tid × Kernel :=
  let (best, k) := findInList k none 0
  let (best, k) := findInList k best 1
  (best.map Prod.fst, k)

/-- The threads of the ready lists. -/
def ready (k : Kernel) : List Tid := (k.readyList 0 ++ k.readyList 1).map Prod.fst

/-- `Scheduler::Run`: dispatch the CPU to `nextThread`. -/
def run (k : Kernel) (nextThread : Tid) : Kernel :=
  { k.setStatus nextThread .running with currentThread := nextThread }

/-! ## What is read of the ready lists -/

/-- `GetPriority` of a thread. -/
def priorityOf (k : Kernel) (t : Tid) : Int := ((k.threads t).map getPriority).getD 0

/-- `GetPreAssignedQueue` of a thread. -/
def queueOf (k : Kernel) (t : Tid) : Fin 2 := ((k.threads t).map Thread.preassignedQueue).getD 0

/-- The key of the first thread of a list, and -1 as in `bestPriority` where there is none. -/
def headKey : List (Tid × Int) → Int
  | [] => -1
  | e :: _ => e.2

/-- The ready list whose first thread `FindNextToRun` returns. -/
def chosen (k : Kernel) : Option (Fin 2) :=
  if -1 < headKey (k.readyList 1) ∧ headKey (k.readyList 0) < headKey (k.readyList 1) then some 1
  else if -1 < headKey (k.readyList 0) then some 0
  else none

/-! ## Routines of the running thread -/

/-- `Thread::Yield`. -/
def yield (k : Kernel) : Option Kernel :=
  let this := k.currentThread
  match (k.setPreAssignedQueue this 1).findNextToRun with
  | (none, k) => some k
  | (some nextThread, k) => do
    let k ← k.readyToRun this
    return k.run nextThread

/-- `Thread::Sleep` up to its loop, which is left as a frame. -/
def sleep (k : Kernel) (rest : List Frame) : Kernel :=
  let this := k.currentThread
  ((k.setPreAssignedQueue this 0).setStatus this .blocked).setStack this (.sleep :: rest)

/-- One iteration of the loop of `Thread::Sleep`: without a ready thread the machine idles until an
interrupt handler has run. -/
def sleepLoop (k : Kernel) (rest : List Frame) : Kernel :=
  match k.findNextToRun with
  | (none, k) => k
  | (some nextThread, k) => (k.setStack k.currentThread rest).run nextThread

/-- `Semaphore::V`. -/
def v (k : Kernel) (s : SemId) : Option Kernel := do
  let sem := k.semaphores s
  match sem.queue with
  | [] => return k.setSemaphore s { value := sem.value + 1, queue := [] }
  | t :: queue => do
    let k ← k.readyToRun t
    return k.setSemaphore s { value := sem.value + 1, queue := queue }

/-- `Thread::SetInheritedPriority`. -/
def setInheritedPriority (l : List (Option Tid × Int)) (lock : Tid) (newPriority : Int) :
    List (Option Tid × Int) :=
  match l.findIdx? fun i => i.1 == some lock with
  | some i => l.set i (some lock, newPriority)
  | none => (some lock, newPriority) :: l

/-- `Thread::RemoveInheritedPriority`. -/
def removeInheritedPriority (l : List (Option Tid × Int)) (lock : Tid) : List (Option Tid × Int) :=
  l.map fun i => if i.1 = some lock then (none, i.2) else i

/-- The running thread executes its first frame; `rest` are the others. `none` is a failed `ASSERT`. -/
def exec (k : Kernel) (frame : Frame) (rest : List Frame) : Option Kernel :=
  let this := k.currentThread
  let done := k.setStack this rest
  match frame with
  | .p s =>
    let sem := k.semaphores s
    if sem.value = 0 then
      some ((k.setSemaphore s { sem with queue := sem.queue ++ [this] }).sleep (.p s :: rest))
    else
      some (done.setSemaphore s { sem with value := sem.value - 1 })
  | .v s => done.v s
  | .sleep => some (k.sleepLoop rest)
  | .yield => done.yield
  | .acquire c => do
    let ch := k.channels c
    guard (ch.lockOwner ≠ some this)
    let k := match ch.lockOwner with
      | some owner => k.modifyThread owner fun th =>
        { th with
          inheritedPriorities := setInheritedPriority th.inheritedPriorities c
            (((k.threads this).map getPriority).getD 0) }
      | none => k
    return k.setStack this (.p (.lock c) :: .own c :: rest)
  | .own c => some (done.setChannel c { k.channels c with lockOwner := some this })
  | .release c => do
    let ch := k.channels c
    guard (ch.lockOwner = some this)
    let k := k.modifyThread this fun th =>
      { th with inheritedPriorities := removeInheritedPriority th.inheritedPriorities c }
    return (k.setChannel c { ch with lockOwner := none }).setStack this (.v (.lock c) :: rest)
  | .wait c cond => do
    let ch := k.channels c
    guard (ch.lockOwner = some this)
    let aDormir := SemId.sleeper k.sleepers
    let cola := ch.colaProcesosDormidos cond ++ [aDormir]
    let k := k.setChannel c
      { ch with colaProcesosDormidos := Function.update ch.colaProcesosDormidos cond cola }
    return { k.setStack this (.release c :: .p aDormir :: .acquire c :: rest) with
      sleepers := k.sleepers + 1 }
  | .signal c cond => do
    let ch := k.channels c
    guard (ch.lockOwner = some this)
    match ch.colaProcesosDormidos cond with
    | [] => return done
    | s :: cola =>
      let k := k.setChannel c
        { ch with colaProcesosDormidos := Function.update ch.colaProcesosDormidos cond cola }
      return k.setStack this (.v s :: rest)
  | .sendAppend c mensaje =>
    let ch := k.channels c
    some (done.setChannel c { ch with buzon := ch.buzon ++ [mensaje] })
  | .sendHead c => do
    -- `Head` fails on an empty mailbox; `b` stays 0 when the first message is 0
    let b ← (k.channels c).buzon.head?
    return k.setStack this (.sendLoop c b :: rest)
  | .sendLoop c b =>
    if (k.channels c).buzon.head? = some b then
      some (k.setStack this (.wait c .bloqueanteSend :: .sendLoop c b :: rest))
    else some done
  | .receiveLoop c =>
    if (k.channels c).buzon = [] then
      some (k.setStack this (.wait c .bloqueanteReceive :: .receiveLoop c :: rest))
    else some done
  | .receivePop c =>
    let ch := k.channels c
    some (done.setChannel c { ch with buzon := ch.buzon.tail })
  | .joinFind =>
    let tId := fun t => (k.threads t).map Thread.tId
    match done.findNextToRun with
    | (none, k) => some k
    | (some isEmp, k) =>
      if tId this = some 0 ∧ tId isEmp ≠ some 0 then some (k.setStack this (.yield :: rest))
      else some k
  | .finishSleep => some (k.sleep rest)

/-- `Channel::Send` of a thread's channel. -/
def send (c : Tid) (mensaje : Int) : List Frame :=
  [.acquire c, .sendAppend c mensaje, .signal c .bloqueanteReceive, .sendHead c, .release c]

/-- `Channel::Receive` of a thread's channel. -/
def receive (c : Tid) : List Frame :=
  [.acquire c, .receiveLoop c, .receivePop c, .signal c .bloqueanteSend, .release c]

/-! ## Runs -/

/-- The calls that the program of a thread makes. -/
inductive Call where
  /-- `new Thread`; `priority` is an unsigned integer, `tId` comes from the table of threads. -/
  | newThread (t : Tid) (joinable : Bool) (priority : UInt32) (tId : Int)
  | fork (t : Tid)
  | p (n : Nat)
  | v (n : Nat)
  | yield
  | join (t : Tid)
  | finish (returnValue : Int)

/-- What can happen. -/
inductive Event where
  /-- The program of the running thread makes a call. -/
  | call (c : Call)
  /-- The running thread executes its first frame. -/
  | exec
  /-- The timer makes the running thread yield. -/
  | timer
  /-- The handler of a device interrupt calls `V`. -/
  | interrupt (n : Nat)

/-- A new thread. -/
def Thread.new (joinable : Bool) (priority : UInt32) (tId : Int) : Thread where
  status := .justCreated
  joinable := joinable
  priority := toInt32 priority.toNat
  inheritedPriorities := []
  preassignedQueue := 0
  tId := tId
  stack := []

/-- The running thread, in the code of its program, makes a call. -/
def call (k : Kernel) (this : Thread) : Call → Option Kernel
  | .newThread t joinable priority tId => do
    guard (k.threads t).isNone
    return k.addThread t (Thread.new joinable priority tId)
  | .fork t => k.readyToRun t
  | .p n => some (k.setStack k.currentThread [.p (.user n)])
  | .v n => some (k.setStack k.currentThread [.v (.user n)])
  | .yield => some (k.setStack k.currentThread [.yield])
  | .join t => do
    let th ← k.threads t
    guard (th.joinable = true)
    return k.setStack k.currentThread (receive t ++ [.joinFind])
  | .finish returnValue =>
    some (k.setStack k.currentThread
      ((if this.joinable then send k.currentThread returnValue else []) ++ [.finishSleep]))

/-- The state after an event; `none` where the event cannot happen or an `ASSERT` fails. -/
def step (k : Kernel) (ev : Event) : Option Kernel := do
  let this ← k.threads k.currentThread
  match ev with
  | .call c =>
    guard (this.stack = [] ∧ this.status = .running)
    k.call this c
  | .exec =>
    match this.stack with
    | [] => none
    | frame :: rest => k.exec frame rest
  | .timer =>
    -- not while the machine idles in `Sleep`
    guard (this.stack.head? ≠ some .sleep)
    return k.setStack k.currentThread (.yield :: this.stack)
  | .interrupt n => k.v (.user n)

/-- The state when the system starts: the main thread runs, and `initialValue` gives the values of the
programs' semaphores. -/
def start (initialValue : Nat → Int) : Kernel where
  threads := fun t => if t = 0 then some { Thread.new false 0 0 with status := .running } else none
  readyList := fun _ => []
  currentThread := 0
  semaphores := fun
    | .user n => { value := initialValue n, queue := [] }
    | .lock _ => { value := 1, queue := [] }
    | .sleeper _ => { value := 0, queue := [] }
  channels := fun _ => { lockOwner := none, buzon := [], colaProcesosDormidos := fun _ => [] }
  sleepers := 0

end Kernel

end Nachos
