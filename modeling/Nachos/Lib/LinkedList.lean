import Nachos.Foundations.Chains
import Nachos.Lib.SortedList

/-!
# Linked lists

`lib/list.hh` as it works on memory: elements that point to the next one, and the list's own pointers to its first
and its last element. A null pointer that is followed, or one to memory that is not allocated, makes a method
`none`; so does a loop that goes on for more than a given number of passes. `new` is given the address that the
allocator answers.
-/

namespace Nachos

variable {α : Type}

/-- `ListElement`. -/
structure ListElement (α : Type) where
  next : Option Nat
  key : Int
  item : α

/-- A list, with the memory that holds its elements and those of other lists. -/
structure LinkedList (α : Type) where
  nodes : Nat → Option (ListElement α)
  first : Option Nat
  last : Option Nat

namespace LinkedList

/-- The constructor of `List`. -/
def new (nodes : Nat → Option (ListElement α)) : LinkedList α where
  nodes := nodes
  first := none
  last := none

/-- `IsEmpty`. -/
def isEmpty (s : LinkedList α) : Bool := s.first = none

/-! ## Elements -/

/-- `new ListNode(item, key)` at the address `a`. -/
def newElement (s : LinkedList α) (a : Nat) (item : α) (key : Int) : LinkedList α :=
  { s with nodes := Function.update s.nodes a (some { next := none, key := key, item := item }) }

/-- The element at a pointer. -/
def element (s : LinkedList α) (p : Option Nat) : Option (ListElement α) := do
  let a ← p
  s.nodes a

/-- `p->next = q`. -/
def setNext (s : LinkedList α) (p q : Option Nat) : Option (LinkedList α) := do
  let a ← p
  let e ← s.nodes a
  return { s with nodes := Function.update s.nodes a (some { e with next := q }) }

/-- `delete` of an element. -/
def delete (s : LinkedList α) (a : Nat) : Option (LinkedList α) := do
  let _ ← s.nodes a
  return { s with nodes := Function.update s.nodes a none }

/-! ## Adding -/

/-- `Append`. -/
def append (s : LinkedList α) (a : Nat) (item : α) : Option (LinkedList α) :=
  let s := s.newElement a item 0
  if s.isEmpty then
    some { s with first := some a, last := some a }
  else do
    let s ← s.setNext s.last (some a)
    return { s with last := some a }

/-- `Prepend`. -/
def prepend (s : LinkedList α) (a : Nat) (item : α) : Option (LinkedList α) :=
  let s := s.newElement a item 0
  if s.isEmpty then
    some { s with first := some a, last := some a }
  else do
    let s ← s.setNext (some a) s.first
    return { s with first := some a }

/-- The loop of `SortedInsert`, of at most `n` passes, and what follows it. -/
def insertLoop (s : LinkedList α) (a : Nat) (sortKey : Int) : Nat → Option Nat → Option (LinkedList α)
  | 0, _ => none
  | n + 1, ptr => do
    let e ← s.element ptr
    match e.next with
    | some next => do
      let e ← s.nodes next
      if sortKey < e.key then do
        let s ← s.setNext (some a) (some next)
        s.setNext ptr (some a)
      else
        s.insertLoop a sortKey n (some next)
    | none => do
      let s ← s.setNext s.last (some a)
      return { s with last := some a }

/-- `SortedInsert`. -/
def sortedInsert (s : LinkedList α) (n a : Nat) (item : α) (sortKey : Int) : Option (LinkedList α) :=
  let s := s.newElement a item sortKey
  if s.isEmpty then
    some { s with first := some a, last := some a }
  else do
    let e ← s.element s.first
    if sortKey < e.key then do
      let s ← s.setNext (some a) s.first
      return { s with first := some a }
    else
      s.insertLoop a sortKey n s.first

/-! ## Removing -/

/-- `SortedPop`: the item, and what is stored in `*keyPtr`. -/
def sortedPop [Inhabited α] (s : LinkedList α) : Option ((α × Option Int) × LinkedList α) :=
  match s.first with
  | none => some ((default, none), s)
  | some element => do
    let e ← s.nodes element
    let s :=
      if s.first = s.last then { s with first := none, last := none } else { s with first := e.next }
    let s ← s.delete element
    return ((e.item, some e.key), s)

/-- `Pop`. -/
def pop [Inhabited α] (s : LinkedList α) : Option (α × LinkedList α) :=
  s.sortedPop.map fun r => (r.1.1, r.2)

/-- The loop of `Remove`, of at most `n` passes. -/
def removeLoop [DecidableEq α] (s : LinkedList α) (item : α) : Nat → Option Nat → Option Nat → Option (LinkedList α)
  | _, none, _ => some s
  | 0, some _, _ => none
  | n + 1, some ptr, prevPtr => do
    let e ← s.nodes ptr
    if item = e.item then do
      let s ← if prevPtr = none then some s else s.setNext prevPtr e.next
      let s := if s.first = some ptr then { s with first := e.next } else s
      let s := if s.last = some ptr then { s with last := prevPtr } else s
      s.delete ptr
    else
      s.removeLoop item n e.next (some ptr)

/-- `Remove`. -/
def remove [DecidableEq α] (s : LinkedList α) (n : Nat) (item : α) : Option (LinkedList α) :=
  s.removeLoop item n s.first none

/-! ## Calls -/

/-- A call of a method; those that add an item come with the address of the new element. -/
inductive Call (α : Type) where
  | append (a : Nat) (item : α)
  | prepend (a : Nat) (item : α)
  | sortedInsert (a : Nat) (item : α) (sortKey : Int)
  | pop
  | sortedPop
  | remove (item : α)

/-- What a call answers. -/
inductive Answer (α : Type) where
  | done
  | item (item : α)
  | itemWithKey (item : α) (key : Option Int)

/-- One call, in which no loop makes more than `n` passes. -/
def step [DecidableEq α] [Inhabited α] (n : Nat) (s : LinkedList α) : Call α → Option (Answer α × LinkedList α)
  | .append a item => (s.append a item).map (.done, ·)
  | .prepend a item => (s.prepend a item).map (.done, ·)
  | .sortedInsert a item sortKey => (s.sortedInsert n a item sortKey).map (.done, ·)
  | .pop => s.pop.map fun r => (.item r.1, r.2)
  | .sortedPop => s.sortedPop.map fun r => (.itemWithKey r.1.1 r.1.2, r.2)
  | .remove item => (s.remove n item).map (.done, ·)

/-- The address of the new element is not in use. -/
def NewIsFree (s : LinkedList α) : Call α → Prop
  | .append a _ => (s.nodes a).isNone
  | .prepend a _ => (s.nodes a).isNone
  | .sortedInsert a _ _ => (s.nodes a).isNone
  | .pop => True
  | .sortedPop => True
  | .remove _ => True

instance NewIsFree.decidable (s : LinkedList α) : DecidablePred s.NewIsFree
  | .append a _ => inferInstanceAs (Decidable ((s.nodes a).isNone = true))
  | .prepend a _ => inferInstanceAs (Decidable ((s.nodes a).isNone = true))
  | .sortedInsert a _ _ => inferInstanceAs (Decidable ((s.nodes a).isNone = true))
  | .pop => inferInstanceAs (Decidable True)
  | .sortedPop => inferInstanceAs (Decidable True)
  | .remove _ => inferInstanceAs (Decidable True)

/-! ## Lists of items -/

/-- The calls on a list of items with their keys. -/
def listStep [DecidableEq α] [Inhabited α] (l : List (α × Int)) : Call α → Answer α × List (α × Int)
  | .append _ item => (.done, l ++ [(item, 0)])
  | .prepend _ item => (.done, (item, 0) :: l)
  | .sortedInsert _ item sortKey => (.done, Nachos.sortedInsert item sortKey l)
  | .pop =>
    match Nachos.sortedPop l with
    | none => (.item default, l)
    | some (e, l) => (.item e.1, l)
  | .sortedPop =>
    match Nachos.sortedPop l with
    | none => (.itemWithKey default none, l)
    | some (e, l) => (.itemWithKey e.1 (some e.2), l)
  | .remove item => (.done, l.eraseP fun e => e.1 = item)

end LinkedList

end Nachos
