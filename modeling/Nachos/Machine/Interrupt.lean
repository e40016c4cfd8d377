import Mathlib.Data.Option.Basic
import Nachos.Foundations.Runs
import Nachos.Lib.SortedList

/-!
# Interrupts

`machine/interrupt.cc`, built with `DFS_TICKS_FIX` on a 64-bit host: `unsigned long` has 64 bits,
`unsigned` has 32. The times of pending interrupts are `unsigned`, and `int` as keys of the sorted list.

A handler may call `Schedule` and nothing else of this class, so it is a sequence of such calls between
two steps of the loop that invoked it. What `YieldOnReturn` asks for happens when `OneTick` has left
that loop: other threads then call `Schedule`, `OneTick` and `Idle`.
-/

namespace Nachos

inductive IntType where
  | timer
  | disk
  | consoleWrite
  | consoleRead
  | networkSend
  | networkRecv
deriving DecidableEq

inductive MachineStatus where
  | idle
  | system
  | user
deriving DecidableEq

structure PendingInterrupt where
  /-- The procedure with its argument. -/
  handler : Nat
  type : IntType
  /-- Not in the source: the time since the machine was started at which the interrupt is due. -/
  due : Nat
deriving DecidableEq

/-- The routines with a loop that calls `CheckIfDue`. -/
inductive Caller where
  | oneTick
  | idle
deriving DecidableEq

/-- Where the machine is. -/
inductive Control where
  /-- Outside of `OneTick` and `Idle`. -/
  | calls
  /-- In the loop, about to call `CheckIfDue(false)`. -/
  | loop (caller : Caller)
  /-- In a handler; `old` is the status that `CheckIfDue` restores. -/
  | handler (caller : Caller) (old : MachineStatus)
  /-- `Halt` was called. -/
  | halted
deriving DecidableEq

structure Interrupt where
  pending : List (PendingInterrupt × Int)
  status : MachineStatus
  control : Control
  /-- `stats->totalTicks`. -/
  totalTicks : Nat
  /-- Not in the source: the ticks since the machine was started, and when each handler that was invoked
  was due and was invoked. -/
  elapsed : Nat
  fired : List (Nat × Nat)

namespace Interrupt

/-- `UINT_MAX` of `limits.h`. -/
def uintMax : Nat := 2 ^ 32 - 1

/-- The ticks of `machine/statistics.hh`. -/
def userTick : Nat := 1
def systemTick : Nat := 10

/-- An `unsigned` as a key of type `int`. -/
def toKey (when : Nat) : Int := if when < 2 ^ 31 then when else when - 2 ^ 32

/-- A key of type `int` read as an `unsigned`. -/
def ofKey (key : Int) : Nat := (key % 2 ^ 32).toNat

/-- Add to `totalTicks`, an `unsigned long`. -/
def addTicks (s : Interrupt) (n : Nat) : Interrupt :=
  { s with totalTicks := (s.totalTicks + n) % 2 ^ 64, elapsed := s.elapsed + n }

/-- The new time of an interrupt: a difference of type `unsigned long`, cut to `unsigned`. -/
def newWhen (totalTicks oldWhen : Nat) : Nat := (oldWhen + (2 ^ 64 - totalTicks)) % 2 ^ 64 % 2 ^ 32

/-- `Interrupt::RestartTicks`. -/
def restartTicks (s : Interrupt) : Interrupt :=
  { s with
    pending := s.pending.foldl
      (fun pending i => sortedInsert i.1 (toKey (newWhen s.totalTicks (ofKey i.2))) pending) []
    totalTicks := 0 }

/-- Does `Schedule` restart the ticks? The difference is of type `unsigned long`. -/
def restarts (s : Interrupt) (fromNow : Nat) : Bool :=
  (uintMax + (2 ^ 64 - s.totalTicks)) % 2 ^ 64 < fromNow

/-- The first part of `Interrupt::Schedule`. -/
def makeRoom (s : Interrupt) (fromNow : Nat) : Interrupt :=
  if s.restarts fromNow then s.restartTicks else s

/-- `Interrupt::Schedule`. -/
def schedule (s : Interrupt) (handler fromNow : Nat) (type : IntType) : Option Interrupt := do
  guard (0 < fromNow)
  let s1 := s.makeRoom fromNow
  let when := (s1.totalTicks + fromNow) % 2 ^ 64 % 2 ^ 32
  let toOccur := { handler := handler, type := type, due := s1.elapsed + fromNow }
  return { s1 with pending := sortedInsert toOccur (toKey when) s1.pending }

/-- The last part of `CheckIfDue`, up to the call of the handler: `toOccur` is due. -/
def fire (s : Interrupt) (toOccur : PendingInterrupt) (when : Nat) (pending : List (PendingInterrupt × Int)) :
    Option PendingInterrupt × Interrupt :=
  if s.status = .idle ∧ toOccur.type = .timer ∧ pending = [] then
    -- nothing more to do
    (none, { s with pending := sortedInsert toOccur (toKey when) pending })
  else (some toOccur, { s with pending := pending })

/-- `Interrupt::CheckIfDue`, up to the call of a handler: the interrupt whose handler it calls. -/
def checkIfDue (s : Interrupt) (advanceClock : Bool) : Option PendingInterrupt × Interrupt :=
  match sortedPop s.pending with
  | none => (none, s)
  | some ((toOccur, key), pending) =>
    let when := ofKey key
    if advanceClock ∧ when > s.totalTicks then
      (s.addTicks (when - s.totalTicks)).fire toOccur when pending
    else if when > s.totalTicks then
      -- not time yet
      (none, { s with pending := sortedInsert toOccur (toKey when) pending })
    else s.fire toOccur when pending

/-- `CheckIfDue` calls a handler. -/
def invoke (s : Interrupt) (caller : Caller) (toOccur : PendingInterrupt) : Interrupt :=
  { s with
    control := .handler caller s.status
    status := .system
    fired := s.fired ++ [(toOccur.due, s.elapsed)] }

/-- The ticks by which `OneTick` advances the time. -/
def tick (s : Interrupt) : Nat := if s.status = .system then systemTick else userTick

/-- `Interrupt::OneTick`, up to its loop. -/
def oneTick (s : Interrupt) : Interrupt :=
  { s.addTicks s.tick with control := .loop .oneTick }

/-- `Interrupt::Idle`, up to its loop. -/
def idle (s : Interrupt) (consoleRunning : Bool) : Interrupt :=
  let s := { s with status := .idle }
  if consoleRunning then { s with control := .halted }
  else
    match s.checkIfDue true with
    | (none, s) => { s with control := .halted }
    | (some toOccur, s) => s.invoke .idle toOccur

/-- One iteration of the loop of `OneTick` or `Idle`. -/
def check (s : Interrupt) (caller : Caller) : Interrupt :=
  match s.checkIfDue false with
  | (some toOccur, s) => s.invoke caller toOccur
  | (none, s) =>
    match caller with
    | .oneTick => { s with control := .calls }
    | .idle => { s with control := .calls, status := .system }

/-- What can happen. -/
inductive Event where
  /-- A device, or a handler, schedules an interrupt. -/
  | schedule (handler fromNow : Nat) (type : IntType)
  /-- The CPU enters or leaves user mode. -/
  | setStatus (user : Bool)
  | oneTick
  | idle (consoleRunning : Bool)
  /-- The loop of `OneTick` or `Idle` goes on. -/
  | check
  /-- A handler returns. -/
  | ret

/-- The state after an event; nothing where the event cannot happen or an `ASSERT` fails. -/
def step (s : Interrupt) (ev : Event) : Option Interrupt :=
  match ev, s.control with
  | .schedule handler fromNow type, .calls => s.schedule handler fromNow type
  | .schedule handler fromNow type, .handler _ _ => s.schedule handler fromNow type
  | .setStatus user, .calls => some { s with status := if user then .user else .system }
  | .oneTick, .calls => some s.oneTick
  | .idle consoleRunning, .calls => some (s.idle consoleRunning)
  | .check, .loop caller => some (s.check caller)
  | .ret, .handler caller old => some { s with control := .loop caller, status := old }
  | _, _ => none

/-- The machine when it is started. -/
def start : Interrupt where
  pending := []
  status := .system
  control := .calls
  totalTicks := 0
  elapsed := 0
  fired := []

/-! ## What the interrupts are for -/

/-- Handlers were invoked in the order of their due times and not before them; and where the loop of
`OneTick` is left, no interrupt is due. -/
structure InTime (s : Interrupt) : Prop where
  ordered : (s.fired.map Prod.fst).Pairwise (· ≤ ·)
  notEarly : ∀ f ∈ s.fired, f.1 ≤ f.2
  noneDue : s.control = .loop .oneTick → (s.check .oneTick).control = .calls →
    ∀ i ∈ (s.check .oneTick).pending, (s.check .oneTick).elapsed < i.1.due

/-- All times are below `2 ^ 31`, or none is. -/
def OneHalf (whens : List Nat) : Prop :=
  (∀ when ∈ whens, when < 2 ^ 31) ∨ ∀ when ∈ whens, 2 ^ 31 ≤ when

/-- The times of the pending interrupts. -/
def whens (s : Interrupt) : List Nat := s.pending.map fun i => ofKey i.2

/-- `Schedule` keeps the times in order: if it restarts the ticks then no interrupt is overdue, the new
time is not cut, and the times are not on both sides of `2 ^ 31`. -/
structure ScheduleOk (s : Interrupt) (fromNow : Nat) : Prop where
  notOverdue : s.restarts fromNow = true → ∀ when ∈ s.whens, s.totalTicks ≤ when
  notCut : (s.makeRoom fromNow).totalTicks + fromNow ≤ uintMax
  oneHalf : OneHalf (((s.makeRoom fromNow).totalTicks + fromNow) :: (s.makeRoom fromNow).whens)

/-- The condition on a step. -/
def StepOk (s : Interrupt) : Event → Prop
  | .schedule _ fromNow _ => ScheduleOk s fromNow
  | .oneTick => s.totalTicks + s.tick < 2 ^ 64
  | _ => True

instance (whens : List Nat) : Decidable (OneHalf whens) :=
  inferInstanceAs (Decidable ((∀ when ∈ whens, when < 2 ^ 31) ∨ ∀ when ∈ whens, 2 ^ 31 ≤ when))

instance (s : Interrupt) (fromNow : Nat) : Decidable (ScheduleOk s fromNow) :=
  decidable_of_iff
    ((s.restarts fromNow = true → ∀ when ∈ s.whens, s.totalTicks ≤ when) ∧
      (s.makeRoom fromNow).totalTicks + fromNow ≤ uintMax ∧
      OneHalf (((s.makeRoom fromNow).totalTicks + fromNow) :: (s.makeRoom fromNow).whens))
    ⟨fun h => ⟨h.1, h.2.1, h.2.2⟩, fun h => ⟨h.notOverdue, h.notCut, h.oneHalf⟩⟩

instance (s : Interrupt) : DecidablePred (StepOk s)
  | .schedule _ fromNow _ => inferInstanceAs (Decidable (ScheduleOk s fromNow))
  | .oneTick => inferInstanceAs (Decidable (s.totalTicks + s.tick < 2 ^ 64))
  | .setStatus _ | .idle _ | .check | .ret => inferInstanceAs (Decidable True)

end Interrupt

end Nachos
