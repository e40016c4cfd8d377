import Nachos.Filesys.ByteFile

/-!
# Headers in memory

An `OpenFile` reads the header of its file when it is opened and when it passes to another header. In between
another `OpenFile` may extend the file, so the header in memory may be an earlier version of the one on disk.
-/

namespace Nachos.Filesys

open Foundations

/-- `old` is the header `new`, or an earlier version of it, of before a header was put behind it. -/
def Earlier (old new : RawFileHeader) : Prop :=
  old = new ∨ old.nextFileHeader = 0 ∧ old.numBytes ≤ new.numBytes ∧ old.dataOf <+: new.dataOf

/-- The bytes that an `OpenFile` can find from its position on: those of the header in memory, and those of
the headers `post` if it leads to them. -/
def visible (d : Disk) (file : OpenFile) (post : List Nat) : List UInt8 :=
  (dataBytes d file.hdr).drop file.seekPosition ++ if file.hdr.nextFileHeader = 0 then [] else content d post

/-- The bytes that the file has from a position under the header `x` on. -/
def bytesFrom (d : Disk) (x : Nat) (post : List Nat) (seek : Nat) : List UInt8 :=
  (dataBytes d (hdrAt d x)).drop seek ++ content d post

/-- The object `f` stands at the header `x` of the file with the headers `c`; what it has in memory of that
header may be an earlier version. -/
structure Viewing (f : FileId) (w : World) (c pre : List Nat) (x : Nat) (post : List Nat) (file : OpenFile) :
    Prop where
  file_eq : w.files f = some file
  chain_eq : c = pre ++ x :: post
  ok : file.hdr.Ok
  earlier : Earlier file.hdr (hdrAt w.disk x)
  seek_le : file.seekPosition ≤ file.hdr.numBytes

/-- Every byte of a request for `n` bytes is under the header in memory, or that header still says what the one
on disk says of where the file ends. -/
def UpToDate (d : Disk) (file : OpenFile) (x n : Nat) : Prop :=
  file.seekPosition + n ≤ file.hdr.numBytes ∨
    (hdrAt d x).numBytes = file.hdr.numBytes ∧ (hdrAt d x).nextFileHeader = file.hdr.nextFileHeader

/-! ## A file that is open more than once -/

/-- What is done with a file: it is opened once more, or a thread makes a call on one of its objects. -/
inductive Use where
  | «open»
  | call (me : Tid) (f : FileId) (call : Call)

/-- The state after it, for the file that starts at sector `s`. -/
def useStep (s : Nat) (w : World) : Use → Option World
  | .open => ((newOpenFile s).run w).map Prod.snd
  | .call me f call => callStep me f w call

/-- The object `f` is open on the file that starts at sector `s`. -/
def OpenOn (s : Nat) (f : FileId) (w : World) : Prop := ∃ file, w.files f = some file ∧ file.sector = s

/-- The end of the request does not wrap around. -/
def NoWrap (f : FileId) (w : World) : Call → Prop
  | .read numBytes => ∀ file, w.files f = some file → file.seekPosition + numBytes.toNat < 2 ^ 32
  | _ => True

/-- The calls are `Read`s, and `Write`s that find the free sectors by which they extend the headers that the
file has, on objects of the file. -/
def ProperUse (s : Nat) (w : World) : Use → Prop
  | .open => True
  | .call _ f call => OpenOn s f w ∧ ReadOrExtend f w call ∧ NoWrap f w call

/-- A header behind the first one is not empty. -/
def NoEmptyEnd (d : Disk) (s : Nat) : Prop :=
  ∀ pre last, HeaderChain d s (pre ++ [last]) → pre ≠ [] → 0 < (hdrAt d last).numBytes

end Nachos.Filesys
