import Nachos.Foundations.Runs
import Nachos.Lib.Table

/-!
# The process table

`threadUPS`, the table from which the constructor of `threads/thread.cc` takes the id of a thread, with
the calls of `userprog/exception.cc` that make threads and use ids. The destructor does not remove the
thread: that line is commented out.
-/

namespace Nachos.Processes

open Foundations

/-- Addresses of `Thread` objects. -/
abbrev ThreadPtr := Nat

/-- How far a thread is. -/
inductive Stage where
  | running
  /-- In `Finish`, where the return value waits to be taken by `Join`. -/
  | finishing (returnValue : Int)
  /-- `threadToBeDestroyed`. -/
  | finished

/-- A `Thread` object. -/
structure Thread where
  tId : Int
  joinable : Bool
  stage : Stage

/-- The process table and the threads. -/
structure State where
  threadUPS : Table (Option ThreadPtr)
  /-- The `Thread` objects that have not been destroyed. -/
  threads : Nat → Option Thread
  nextThread : ThreadPtr
  /-- Not in the source: what each `Exec` returned, and whether it has started a thread. -/
  execs : List (Int × Bool)

/-- What `Exec` finds: the address of the name, the name unless it is too long, whether `Open` finds
the file, whether it is an executable, and `joinable`. -/
structure ExecCall where
  fileDir : Int
  fileName : Option (List UInt8)
  fileExists : Bool
  checkMagic : Bool
  joinable : Bool

/-- What can happen. -/
inductive Event where
  /-- Code of the kernel makes a thread. -/
  | create (joinable : Bool)
  | exec (p : ThreadPtr) (call : ExecCall)
  | exit (p : ThreadPtr) (returnValue : Int)
  /-- A `Join` returns. -/
  | join (p : ThreadPtr) (tidJoin : Int)
  /-- `Scheduler::Run` deletes a thread that has finished. -/
  | destroy (p : ThreadPtr)

namespace State

/-- The constructor `Thread::Thread`: the id of the new thread. -/
def newThread (s : State) (joinable : Bool) : Int × State :=
  let added := s.threadUPS.add (some s.nextThread)
  (added.1, { s with
    threadUPS := added.2
    threads := Function.update s.threads s.nextThread
      (some { tId := added.1, joinable := joinable, stage := .running })
    nextThread := s.nextThread + 1 })

def setStage (s : State) (p : ThreadPtr) (th : Thread) (stage : Stage) : State :=
  { s with threads := Function.update s.threads p (some { th with stage := stage }) }

/-- A running thread. -/
def running (s : State) (p : ThreadPtr) : Option Thread := do
  let th ← s.threads p
  match th.stage with
  | .running => return th
  | _ => none

/-- `SC_EXEC`. -/
def exec (s : State) (call : ExecCall) : Option State :=
  if call.fileDir = 0 ∨ call.fileName = none ∨ call.fileExists = false then
    some { s with execs := s.execs ++ [(-1, false)] }
  else do
    let made := s.newThread call.joinable
    -- the constructor of the address space asserts it
    guard call.checkMagic
    return { made.2 with execs := s.execs ++ [(made.1, true)] }

/-- `Finish`. -/
def finish (s : State) (p : ThreadPtr) (th : Thread) (returnValue : Int) : State :=
  if th.joinable then s.setStage p th (.finishing returnValue) else s.setStage p th .finished

/-- `SC_JOIN`, when it returns. -/
def join (s : State) (tidJoin : Int) : Option State := do
  if ← s.threadUPS.hasKey tidJoin then
    let q ← ← s.threadUPS.get tidJoin
    let th ← s.threads q
    guard th.joinable
    match th.stage with
    | .finishing _ => return s.setStage q th .finished
    | _ => none
  else
    return s

/-- The destructor `Thread::~Thread`. -/
def destroy (s : State) (p : ThreadPtr) : Option State := do
  let th ← s.threads p
  match th.stage with
  | .finished => return { s with threads := Function.update s.threads p none }
  | _ => none

/-- The state after an event; nothing when the event cannot happen or stops the kernel. -/
def step (s : State) : Event → Option State
  | .create joinable => some (s.newThread joinable).2
  | .exec p call => do
    let _ ← s.running p
    s.exec call
  | .exit p returnValue => do
    let th ← s.running p
    return s.finish p th returnValue
  | .join p tidJoin => do
    let _ ← s.running p
    s.join tidJoin
  | .destroy p => s.destroy p

/-- System start: the main thread is the first one. -/
def boot (data : Nat → Option ThreadPtr) : State :=
  (newThread { threadUPS := Table.new data, threads := fun _ => none, nextThread := 0, execs := [] }
    false).2

/-! ## Tracking -/

/-- The process table tracks the threads that exist. -/
structure Tracks (s : State) : Prop where
  hasKey_iff : ∀ t, s.threadUPS.hasKey t = some true ↔ ∃ p th, s.threads p = some th ∧ th.tId = t
  get_eq : ∀ p th, s.threads p = some th → s.threadUPS.get th.tId = some (some p)
  tId_inj : ∀ p q th th', s.threads p = some th → s.threads q = some th' → th.tId = th'.tId → p = q
  exec_failed : ∀ started, (-1, started) ∈ s.execs → started = false

/-- Is there an index for one more thread? -/
def HasRoom (s : State) : Prop := s.threadUPS.current < Table.size

/-- The events that keep the table right: no thread is destroyed, and each new one gets an index. -/
def KeepsTable (s : State) : Event → Prop
  | .create _ => s.HasRoom
  | .exec _ call =>
    call.fileDir ≠ 0 ∧ call.fileName ≠ none ∧ call.fileExists = true → s.HasRoom
  | .destroy _ => False
  | _ => True

instance (s : State) : Decidable s.HasRoom := inferInstanceAs (Decidable (_ < _))

instance (s : State) : DecidablePred s.KeepsTable
  | .create _ => inferInstanceAs (Decidable s.HasRoom)
  | .exec _ _ => inferInstanceAs (Decidable (_ ∧ _ ∧ _ → s.HasRoom))
  | .exit _ _ => inferInstanceAs (Decidable True)
  | .join _ _ => inferInstanceAs (Decidable True)
  | .destroy _ => inferInstanceAs (Decidable False)

end State

end Nachos.Processes
