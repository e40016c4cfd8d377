import Nachos.Foundations.Runs
import Nachos.Lib.Table

/-!
# Tables as maps

What a `Table` is for: a map from the numbers below `SIZE` to items that puts a new item at the smallest
free number.
-/

namespace Nachos.Table

variable {α : Type}

/-- The calls that change a table. -/
inductive Call (α : Type) where
  | add (item : α)
  | remove (i : Int)
  | update (i : Int) (item : α)

/-- The answers: an index or an item. -/
inductive Answer (α : Type) where
  | index (i : Int)
  | item (a : α)

/-- A call on a table; nothing if an `ASSERT` fails. -/
def call [Inhabited α] (t : Table α) : Call α → Option (Answer α × Table α)
  | .add item => some (.index (t.add item).1, (t.add item).2)
  | .remove i => do
    let (a, t) ← t.removeAsserting i
    return (.item a, t)
  | .update i item => do
    let (a, t) ← t.update i item
    return (.item a, t)

/-! ## The map -/

/-- The smallest index below `SIZE` without an item. -/
def firstFree (m : Nat → Option α) : Option Nat := (List.range size).find? fun i => (m i).isNone

/-- What a call should do to a map: `Remove` accepts every index that is not negative, `Update` those with
an item. -/
def mapCall [Inhabited α] (m : Nat → Option α) : Call α → Option (Answer α × (Nat → Option α))
  | .add item =>
    match firstFree m with
    | some i => some (.index i, Function.update m i (some item))
    | none => some (.index (-1), m)
  | .remove i => do
    guard (0 ≤ i)
    return (.item ((m i.toNat).getD default), Function.update m i.toNat none)
  | .update i item => do
    guard (0 ≤ i)
    let a ← m i.toNat
    return (.item a, Function.update m i.toNat (some item))

/-- To anyone who asks, the table is this map. -/
structure IsMap [Inhabited α] (t : Table α) (m : Nat → Option α) : Prop where
  hasKey : ∀ i : Nat, t.hasKey i = some (m i).isSome
  get : ∀ i : Nat, t.get i = some ((m i).getD default)
  isEmpty : t.isEmpty = true ↔ ∀ i, m i = none

end Nachos.Table
