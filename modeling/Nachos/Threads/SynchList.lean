import Nachos.Threads.Conditions

/-!
# Synchronised lists

`SynchList` of `threads/synch_list.hh`: a list with a lock and the condition `listEmpty`. Any number of
threads call `Append` and `Pop`, in any order. The state records what was appended and what each `Pop`
took; the source has neither.
-/

namespace Nachos.Synch

/-- The list and its history. -/
structure SynchList (α : Type) where
  list : List α
  appended : List α
  /-- The thread of each `Pop` and what it took; from an empty list `List::Pop` takes no item. -/
  popped : List (Tid × Option α)

/-- The code between the uses of the lock and the condition. -/
inductive ListCode (α : Type) where
  /-- `list->Append`. -/
  | append (item : α)
  /-- The loop of `Pop`. -/
  | loop
  /-- `list->Pop`. -/
  | pop

/-- The calls of a thread. -/
inductive ListCall (α : Type) where
  | append (item : α)
  | pop

/-- The lock and the condition have no names: there is one of each. -/
abbrev ListFrame (α : Type) := Frame Unit Unit Empty (ListCode α)

namespace SynchList

variable {α : Type}

/-- `SynchList::Append`. -/
def append (item : α) : List (ListFrame α) :=
  [.acquire (), .code (.append item), .signal (), .release ()]

/-- `SynchList::Pop`. -/
def pop : List (ListFrame α) := [.acquire (), .code .loop, .code .pop, .release ()]

/-- A call, with the frames of the routine. -/
def call (c : ListCall α) (_ : Tid) (sh : SynchList α) : Option (SynchList α × List (ListFrame α)) :=
  match c with
  | .append item => some (sh, append item)
  | .pop => some (sh, pop)

/-- A piece of code, with the frames that come next. -/
def exec (code : ListCode α) (t : Tid) (sh : SynchList α) :
    Option (SynchList α × List (ListFrame α)) :=
  match code with
  | .append item =>
    some ({ sh with list := sh.list ++ [item], appended := sh.appended ++ [item] }, [])
  | .loop => if sh.list.isEmpty then some (sh, [.wait (), .code .loop]) else some (sh, [])
  | .pop =>
    some ({ sh with list := sh.list.tail, popped := sh.popped ++ [(t, sh.list.head?)] }, [])

end SynchList

/-- Threads that use a synchronised list. -/
def listUsers (α : Type) : System Unit Unit Empty (ListCode α) (ListCall α) (SynchList α) where
  lockOf := fun _ => ()
  call := SynchList.call
  exec := SynchList.exec

abbrev ListState (α : Type) := State Unit Unit Empty (ListCode α) (SynchList α)

/-- The state at the beginning: the list is empty. -/
def listStart (α : Type) (priority : Tid → Int) : ListState α :=
  State.start Empty.elim priority ⟨[], [], []⟩

end Nachos.Synch
