import Mathlib.Logic.Function.Basic
import Nachos.Foundations.Runs
import Nachos.Filesys.World

/-!
# Closing a file

`OpenFile::~OpenFile` of `filesys/open_file.cc` at the points where a thread may lose the CPU, the
`Acquire` and the `Release` of `closeLock` among them, with the constructor and with the part of
`FileSystem::Remove` that waits for the last close. The state is the entry of one file in
`tableDeArchivosAbierta`, and where each thread is.
-/

namespace Nachos.Filesys

open Foundations

/-- Where a thread is with the file. -/
inductive Place where
  /-- In none of the routines. -/
  | out
  /-- In the constructor, waiting for the header. -/
  | opening
  /-- In the destructor: before `Acquire`, and behind it. -/
  | acquiring
  | locked
  /-- Before `Release`: the thread has decremented the count, or found it 0. -/
  | counted
  | notCounted
  /-- Behind `Release`, before the test of the count. -/
  | testing
  /-- In the last-close actions: before `Send`, waiting for the message to be taken, before the
  write lock is deleted. -/
  | sending
  | sent
  | deleting
  /-- In `Remove`: waiting for the message, and behind it. -/
  | receiving
  | removing
deriving DecidableEq

/-- The entry of the file, and the threads. -/
structure Closing where
  place : Tid → Place
  closeLock : Option Tid
  /-- The `OpenFile` objects of each thread that it has not begun to delete. -/
  handles : Tid → Nat
  count : Nat
  removing : Bool
  removed : Bool
  /-- Messages for the remover that have not been taken. -/
  removeChannel : Nat
  /-- Not in the source: how many times the count has become positive. -/
  period : Nat
  /-- Not in the source: the period of each deletion of a write lock, of each message, and of each
  `Remove` that waits. -/
  deleted : List Nat
  messages : List Nat
  waited : List Nat

/-- What can happen: a thread calls a routine, or goes on with the one it is in. -/
inductive CloseEvent where
  | open (t : Tid)
  | close (t : Tid)
  | remove (t : Tid)
  | go (t : Tid)

namespace Closing

def setPlace (s : Closing) (t : Tid) (p : Place) : Closing :=
  { s with place := Function.update s.place t p }

/-- The constructor counts itself in; the first one makes a write lock. -/
def countIn (s : Closing) (t : Tid) : Closing :=
  { s with
    count := s.count + 1
    period := if s.count = 0 then s.period + 1 else s.period
    handles := Function.update s.handles t (s.handles t + 1) }

/-- `Remove` marks the file and waits if it is open. -/
def startRemove (s : Closing) (t : Tid) : Closing :=
  if 0 < s.count then
    { s.setPlace t .receiving with removing := true, waited := s.waited ++ [s.period] }
  else
    { s.setPlace t .removing with removing := true }

/-- The thread goes on; `none` where it has to wait. -/
def go (s : Closing) (t : Tid) : Option Closing :=
  match s.place t with
  | .out => none
  | .opening => some ((s.countIn t).setPlace t .out)
  | .acquiring =>
    if s.closeLock = none then some { s.setPlace t .locked with closeLock := some t } else none
  | .locked =>
    if 0 < s.count then some { s.setPlace t .counted with count := s.count - 1 }
    else some (s.setPlace t .notCounted)
  | .counted => some { s.setPlace t .testing with closeLock := none }
  | .notCounted => some { s.setPlace t .out with closeLock := none }
  | .testing =>
    if s.count = 0 then
      -- the thread of `removerSpaceId` is in the process table: none is ever removed from it
      if s.removing then some (s.setPlace t .sending) else some (s.setPlace t .deleting)
    else
      some (s.setPlace t .out)
  | .sending =>
    some { s.setPlace t .sent with
      removeChannel := s.removeChannel + 1
      messages := s.messages ++ [s.period] }
  | .sent => if s.removeChannel = 0 then some (s.setPlace t .deleting) else none
  | .deleting => some { s.setPlace t .out with deleted := s.deleted ++ [s.period] }
  | .receiving =>
    if 0 < s.removeChannel then
      some { s.setPlace t .removing with removeChannel := s.removeChannel - 1 }
    else
      none
  | .removing => some { s.setPlace t .out with removing := false, removed := true }

/-- The state after an event. A file that is being removed, or was, is not found by `Open`; a second
`Remove` waits for the first one and finds the file gone. -/
def step (s : Closing) : CloseEvent → Option Closing
  | .open t =>
    if s.place t = .out ∧ s.removing = false ∧ s.removed = false then some (s.setPlace t .opening)
    else none
  | .close t =>
    if s.place t = .out ∧ 0 < s.handles t then
      some { s.setPlace t .acquiring with
        handles := Function.update s.handles t (s.handles t - 1) }
    else
      none
  | .remove t =>
    if s.place t = .out ∧ s.removing = false ∧ s.removed = false then some (s.startRemove t) else none
  | .go t => s.go t

/-- Nobody has the file open. -/
def start : Closing where
  place := fun _ => .out
  closeLock := none
  handles := fun _ => 0
  count := 0
  removing := false
  removed := false
  removeChannel := 0
  period := 0
  deleted := []
  messages := []
  waited := []

/-! ## The last close -/

/-- The thread has counted itself out and is not through. -/
def Late (s : Closing) (t : Tid) : Prop :=
  s.place t = .counted ∨ s.place t = .testing ∨ s.place t = .sending ∨ s.place t = .sent ∨
    s.place t = .deleting

/-- The count has been 0 since the period `p` began. -/
def Ended (s : Closing) (p : Nat) : Prop := 0 < p ∧ (p < s.period ∨ p = s.period ∧ s.count = 0)

/-- In no period the last-close actions are done twice; when nobody is on the way out, they have been
done once in each that has ended: the write lock was deleted, and a `Remove` that waited got a
message. -/
def OneLastCloser (s : Closing) : Prop :=
  (∀ p, s.deleted.count p ≤ 1 ∧ s.messages.count p ≤ 1) ∧
    ∀ p, s.Ended p → (∀ t, ¬ s.Late t) →
      s.deleted.count p = 1 ∧ (p ∈ s.waited → s.messages.count p = 1)

/-- The steps that keep the decision with one thread: the count reaches 0, and it leaves 0, only when
nobody is between its decrement and the end of its close. -/
def OneDecides (s : Closing) : CloseEvent → Prop
  | .go t =>
    (s.place t = .locked → s.count = 1 → ∀ u, ¬ s.Late u) ∧
      (s.place t = .opening → s.count = 0 → ∀ u, ¬ s.Late u)
  | _ => True

end Closing

end Nachos.Filesys
