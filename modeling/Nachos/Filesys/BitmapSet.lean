import Mathlib.Data.Finset.Basic
import Mathlib.Data.Finset.Filter
import Mathlib.Data.Finset.Range
import Nachos.Filesys.OpenFile
import Nachos.Foundations.Runs

/-!
# Bitmaps as sets

The calls that a bitmap of `lib/bitmap.cc` takes, with their `ASSERT`s and with the `int` that `Find` answers, the
way of its words to a file and back, and what the calls do to a set of numbers.
-/

namespace Nachos.Bitmap

/-- A call on a bitmap. -/
inductive Call where
  | mark (which : Nat)
  | clear (which : Nat)
  | find

/-- The `int` that `Find` returns for an `unsigned` index. -/
def findAnswer : Option Nat → Int
  | some i => (BitVec.ofNat 32 i).toInt
  | none => -1

/-- One call: what `Find` answers, and the bitmap after the call. -/
def step (b : Bitmap) : Call → Option (Option Int × Bitmap)
  | .mark which => if which < b.numBits then some (none, b.mark which) else none
  | .clear which => if which < b.numBits then some (none, b.clear which) else none
  | .find => some (some (findAnswer b.find.1), b.find.2)

/-! ## Files -/

open Filesys

/-- `FetchFrom`. -/
def fetchFrom (b : Bitmap) (file : FileId) : Fs Bitmap := do
  let bs ← readAt file (mapBytes b).length 0
  return overlayMap b bs

/-- `WriteBack`. -/
def writeBack (b : Bitmap) (file : FileId) : Fs Unit := do
  let _ ← writeAt file (mapBytes b) 0
  return ()

/-! ## Sets -/

/-- The bits of the bitmap that are set. -/
def members (b : Bitmap) : Finset Nat := (Finset.range b.numBits).filter fun i => b.test i

/-- The least number below `n` that is not in the set. -/
def leastOutside (n : Nat) (s : Finset Nat) : Option Nat := (List.range n).find? fun i => decide (i ∉ s)

/-- What a call does to a set of numbers below `n`. -/
def setStep (n : Nat) (s : Finset Nat) : Call → Option (Option Int × Finset Nat)
  | .mark which => if which < n then some (none, insert which s) else none
  | .clear which => if which < n then some (none, s.erase which) else none
  | .find =>
    match leastOutside n s with
    | some i => some (some (findAnswer (some i)), insert i s)
    | none => some (some (findAnswer none), s)

end Nachos.Bitmap
