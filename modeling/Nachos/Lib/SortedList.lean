import Mathlib.Algebra.Ring.Int.Defs
import Mathlib.Algebra.Ring.Nat
import Mathlib.Data.List.Perm.Basic

/-!
# Sorted lists

`SortedInsert` and `SortedPop` of `lib/list.hh`: a list of items with integer keys, in increasing
order of the keys. An item goes behind the items with the same key.
-/

namespace Nachos

variable {α : Type*}

/-- `SortedInsert`: put the item in front of the first one with a bigger key. -/
def sortedInsert (item : α) (sortKey : Int) : List (α × Int) → List (α × Int)
  | [] => [(item, sortKey)]
  | e :: l => if sortKey < e.2 then (item, sortKey) :: e :: l else e :: sortedInsert item sortKey l

/-- `SortedPop`: the first item with its key and the rest of the list. -/
def sortedPop : List (α × Int) → Option ((α × Int) × List (α × Int))
  | [] => none
  | e :: l => some (e, l)

/-- Insertion adds the item and loses none. -/
theorem sortedInsert_perm (item : α) (sortKey : Int) (l : List (α × Int)) :
    (sortedInsert item sortKey l).Perm ((item, sortKey) :: l) := by
  induction l with
  | nil => exact List.Perm.refl _
  | cons e l ih =>
    unfold sortedInsert
    split
    · exact List.Perm.refl _
    · exact (ih.cons e).trans (List.Perm.swap _ _ _)

end Nachos
