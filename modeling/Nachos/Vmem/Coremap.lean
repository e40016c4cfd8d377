import Nachos.Lib.Bitmap

/-!
# The coremap

`vmem/coremap.cc`: which physical frames are in use, and for each of them the address space and the
virtual page that it holds. An address space is named by a number, and `none` is a null pointer. A
failed `ASSERT` makes a function `none`.
-/

namespace Nachos

/-- The name of an address space. -/
abbrev SpaceId := Nat

/-- The frames of the machine with their owners. -/
structure Coremap where
  size : Nat
  framesMap : Bitmap
  addrSpaces : Nat → Option SpaceId
  vpns : Nat → Nat

namespace Coremap

/-- The constructor; `addrSpaces` and `vpns` are what the allocated arrays happen to hold. -/
def new (nitems : Nat) (heap : Nat → Word) (addrSpaces : Nat → Option SpaceId) (vpns : Nat → Nat) :
    Coremap where
  size := nitems
  framesMap := Bitmap.new nitems heap
  addrSpaces := addrSpaces
  vpns := vpns

/-- Is the frame in use? A frame in use must have an owner. -/
def test (c : Coremap) (which : Nat) : Option Bool := do
  guard (which < c.size)
  guard (c.framesMap.test which → (c.addrSpaces which).isSome)
  return c.framesMap.test which

/-- The owner of a frame, the null pointer for a free one. -/
def getAddressSpace (c : Coremap) (frame : Nat) : Option (Option SpaceId) := do
  return if ← c.test frame then c.addrSpaces frame else none

/-- The virtual page in a frame, `-1` for a free one. -/
def getVpn (c : Coremap) (frame : Nat) : Option Nat := do
  return if ← c.test frame then c.vpns frame else 2 ^ 32 - 1

/-- Record the owner and the virtual page of a frame. -/
def setOwner (c : Coremap) (which : Nat) (space : SpaceId) (vpn : Nat) : Coremap :=
  { c with
    addrSpaces := Function.update c.addrSpaces which (some space)
    vpns := Function.update c.vpns which vpn }

/-- Give a frame to a page, whoever had it before. -/
def mark (c : Coremap) (which : Nat) (space : SpaceId) (vpn : Nat) : Option Coremap := do
  guard (which < c.size)
  return { c with framesMap := c.framesMap.mark which }.setOwner which space vpn

/-- Give the first free frame to a page; `none` is the `-1` of the source. -/
def find (c : Coremap) (space : SpaceId) (vpn : Nat) : Option Nat × Coremap :=
  match c.framesMap.find with
  | (some which, framesMap) =>
    (some which, { c with framesMap := framesMap }.setOwner which space vpn)
  | (none, framesMap) => (none, { c with framesMap := framesMap })

/-- Free a frame. -/
def clear (c : Coremap) (which : Nat) : Option Coremap := do
  guard (which < c.size)
  return { c with
    framesMap := c.framesMap.clear which
    addrSpaces := Function.update c.addrSpaces which none }

end Coremap

end Nachos
