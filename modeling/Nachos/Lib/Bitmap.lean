import Mathlib.Algebra.Ring.Int.Defs
import Mathlib.Algebra.Ring.Nat
import Mathlib.Data.List.Basic
import Mathlib.Data.Option.Basic

/-!
# Bitmaps

The bitmap of `lib/bitmap.cc`: an array of 32-bit words of which bit `which % 32` of word `which / 32`
is the bit number `which`. The free map of the disk, the frame map of the coremap and the swap map of
an address space are bitmaps.
-/

namespace Nachos

/-- `DivRoundUp` of `lib/utility.hh`. -/
def divRoundUp (n s : Nat) : Nat := n / s + if n % s > 0 then 1 else 0

/-- Number of bits of a machine word. -/
def bitsInWord : Nat := 32

/-- A machine word (`unsigned`). -/
abbrev Word := BitVec 32

/-- A bitmap: the number of bits and the words that hold them. -/
structure Bitmap where
  /-- Number of bits in the bitmap. -/
  numBits : Nat
  /-- Bit storage. -/
  map : List Word
  /-- There are as many words as the bits need. -/
  numWords_eq : map.length = divRoundUp numBits bitsInWord

namespace Bitmap

/-- The word with only bit `which % BITS_IN_WORD` set. -/
def mask (which : Nat) : Word := 1#32 <<< (which % bitsInWord)

/-- Is the bit `which` set? -/
def test (b : Bitmap) (which : Nat) : Bool :=
  b.map.getD (which / bitsInWord) 0 &&& mask which != 0

/-- Set the bit `which`. -/
def mark (b : Bitmap) (which : Nat) : Bitmap where
  numBits := b.numBits
  map := b.map.modify (which / bitsInWord) fun w => w ||| mask which
  numWords_eq := by rw [List.length_modify]; exact b.numWords_eq

/-- Clear the bit `which`. -/
def clear (b : Bitmap) (which : Nat) : Bitmap where
  numBits := b.numBits
  map := b.map.modify (which / bitsInWord) fun w => w &&& ~~~mask which
  numWords_eq := by rw [List.length_modify]; exact b.numWords_eq

/-- The constructor: `heap` is the content of the freshly allocated words, of which every bit of the
bitmap is cleared. -/
def new (nitems : Nat) (heap : Nat → Word) : Bitmap :=
  (List.range nitems).foldl clear
    { numBits := nitems
      map := (List.range (divRoundUp nitems bitsInWord)).map heap
      numWords_eq := by simp }

/-- The first clear bit, which is set; `none` is the `-1` of the source. -/
def find (b : Bitmap) : Option Nat × Bitmap :=
  match (List.range b.numBits).find? fun i => !b.test i with
  | some i => (some i, b.mark i)
  | none => (none, b)

/-- How many bits are clear? -/
def countClear (b : Bitmap) : Nat := (List.range b.numBits).countP fun i => !b.test i

end Bitmap

end Nachos
