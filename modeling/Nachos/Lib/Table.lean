import Mathlib.Data.Option.Basic
import Mathlib.Logic.Function.Basic
import Nachos.Lib.SortedList

/-!
# Tables

The map from small numbers to items of `lib/table.hh`. The indices below `current` that are not on the
list `freed` have an item. An index that an `ASSERT` refuses makes an operation `none`.
-/

namespace Nachos

variable {α : Type}

/-- A table. -/
structure Table (α : Type) where
  /-- Data items; the slots that were never used hold anything. -/
  data : Nat → α
  /-- Current greatest index for a new item. -/
  current : Nat
  /-- The indices below `current` that have been freed, with their sort keys. -/
  freed : List (Nat × Int)

namespace Table

/-- `SIZE`. -/
def size : Nat := 20

/-- The constructor, over any content of the slots. -/
def new (data : Nat → α) : Table α where
  data := data
  current := 0
  freed := []

/-- Put an item into a slot. -/
def store (t : Table α) (i : Nat) (item : α) : Table α :=
  { t with data := Function.update t.data i item }

/-- `Add`: the index of the item, or -1. -/
def add (t : Table α) (item : α) : Int × Table α :=
  match sortedPop t.freed with
  | some ((i, _), freed) => (i, { t.store i item with freed := freed })
  | none =>
    if t.current < size then (t.current, { t.store t.current item with current := t.current + 1 })
    else (-1, t)

/-- `freed.Has(i)`. -/
def isFreed (t : Table α) (i : Nat) : Bool := t.freed.any fun e => e.1 == i

/-- `HasKey` of an index that is not negative. -/
def has (t : Table α) (i : Nat) : Bool := decide (i < t.current) && !t.isFreed i

/-- `HasKey`. -/
def hasKey (t : Table α) (i : Int) : Option Bool := do
  guard (0 ≤ i)
  return t.has i.toNat

/-- `Get`; `default` is `T()`. -/
def get [Inhabited α] (t : Table α) (i : Int) : Option α := do
  guard (0 ≤ i)
  return if t.has i.toNat then t.data i.toNat else default

/-- `freed.Remove(i)`. -/
def unfree (t : Table α) (i : Nat) : Table α :=
  { t with freed := t.freed.eraseP fun e => e.1 == i }

/-- The loop of `Remove`: give back the freed indices at the end of the table. -/
def trim : Nat → Table α → Table α
  | 0, t => { t with current := 0 }
  | n + 1, t => if t.isFreed n then trim n (t.unfree n) else { t with current := n + 1 }

/-- `Remove`: the item that was there, or `T()`. -/
def remove [Inhabited α] (t : Table α) (i : Int) : Option (α × Table α) := do
  guard (0 ≤ i)
  if t.has i.toNat then
    if i.toNat + 1 = t.current then
      return (t.data i.toNat, trim i.toNat t)
    else
      return (t.data i.toNat, { t with freed := sortedInsert i.toNat i t.freed })
  else
    return (default, t)

/-- `IsEmpty`. -/
def isEmpty (t : Table α) : Bool := t.current == 0

/-- `Update`: the old item. -/
def update (t : Table α) (i : Int) (item : α) : Option (α × Table α) := do
  guard (0 ≤ i)
  guard (i < t.current)
  guard (!t.isFreed i.toNat)
  return (t.data i.toNat, t.store i.toNat item)

/-- The loop of `Remove` over the indices below `n`, with its `ASSERT`. -/
def trimLoop : Nat → Table α → Option (Table α)
  | 0, t => some t
  | j + 1, t =>
    if t.has j then some t
    else do
      guard (t.isFreed j)
      trimLoop j { t.unfree j with current := t.current - 1 }

/-- `Remove` with the `ASSERT` of its loop, which `remove` leaves out. -/
def removeAsserting [Inhabited α] (t : Table α) (i : Int) : Option (α × Table α) := do
  guard (0 ≤ i)
  if t.has i.toNat then
    if i.toNat + 1 = t.current then do
      let t' ← trimLoop i.toNat { t with current := t.current - 1 }
      return (t.data i.toNat, t')
    else
      return (t.data i.toNat, { t with freed := sortedInsert i.toNat i t.freed })
  else
    return (default, t)

end Table

end Nachos
