import Nachos.Foundations.Runs
import Nachos.Filesys.Proofs.WriteCallProofs

/-!
# An open file as an array of bytes

The calls on one `OpenFile`, and the object that they are meant to work on: the bytes of the file and
one position in them. The calls run one after another, with no other thread around.
-/

namespace Nachos.Filesys

open Foundations Resumption

/-! ## Calls -/

/-- A call on an `OpenFile`. Sizes and positions are `unsigned`. -/
inductive Call where
  | seek (position : UInt32)
  | read (numBytes : UInt32)
  | write (data : List UInt8)
deriving DecidableEq

/-- What a call hands back: nothing, the bytes read, or the number of bytes written. -/
inductive Answer where
  | done
  | bytes (bs : List UInt8)
  | count (n : Nat)
deriving DecidableEq

/-- The code of a call by the thread `me` on the object `f`, which is not a directory. -/
def Call.code (me : Tid) (f : FileId) : Call → Fs Answer
  | .seek position => do
    Filesys.seek f position.toNat
    return .done
  | .read numBytes => do
    let bs ← Filesys.read f numBytes.toNat false
    return .bytes bs
  | .write data => do
    let n ← Filesys.write me f data false
    return .count n

/-- The state after a call. -/
def callStep (me : Tid) (f : FileId) (w : World) (call : Call) : Option World :=
  ((call.code me f).run w).map Prod.snd

/-! ## The byte file -/

/-- The bytes of a file and the position of the next `Read` or `Write`. -/
structure ByteFile where
  bytes : List UInt8
  cursor : Nat
deriving DecidableEq

/-- The bytes with `data` over them from `pos` on; a gap behind the end is filled with zeros. -/
def overwrite (bytes : List UInt8) (pos : Nat) (data : List UInt8) : List UInt8 :=
  splice (bytes ++ List.replicate (pos - bytes.length) 0) pos data

/-- The answer to a call and the byte file after it: `Seek` sets the cursor, `Read` and `Write` work at
the cursor and advance it. -/
def ByteFile.call (b : ByteFile) : Call → Answer × ByteFile
  | .seek position => (.done, { b with cursor := position.toNat })
  | .read numBytes =>
    let bs := (b.bytes.drop b.cursor).take numBytes.toNat
    (.bytes bs, { b with cursor := b.cursor + bs.length })
  | .write data =>
    (.count data.length,
      { bytes := overwrite b.bytes b.cursor data, cursor := b.cursor + data.length })

/-- A fresh `OpenFile` of the file that starts at sector `s` reads `bytes`, and then the end. -/
def Contents (w : World) (s : Nat) (bytes : List UInt8) : Prop :=
  ∀ n : UInt32, 0 < n → (do let f ← newOpenFile s; read f n.toNat false).Returns w fun bs _ =>
    bs = bytes.take n.toNat

/-- From `w` on, the calls answer as the byte file `b` does, and the contents of the file are those of
the byte file all along. -/
def Agrees (me : Tid) (f : FileId) (s : Nat) : World → ByteFile → List Call → Prop
  | w, b, [] => Contents w s b.bytes
  | w, b, call :: calls => Contents w s b.bytes ∧
    (call.code me f).Returns w fun answer w' =>
      answer = (b.call call).1 ∧ Agrees me f s w' (b.call call).2 calls

/-! ## Files in order -/

/-- The file that starts at sector `s` has the headers `c`, it can be opened and its write lock, if
there is one, is free. The disk is in order, and `m` is the free map on it. -/
structure Ready (w : World) (own : Nat → Option Nat) (m : Bitmap) (s : Nat) (c : List Nat) : Prop where
  layout : Layout w.disk own
  marked : Marked m own
  mapIs : MapIs w.disk m
  mapFile : MapFileOk w
  start_ne : s ≠ 0
  file : FileOk w.disk own s c
  full : Full w.disk c
  /-- A file with a second header does not fit in one. -/
  long : 1 < c.length → maxHeaderBytes < (content w.disk c).length
  mapFile_lt : w.freeMapFile < w.nextFile
  lock : (w.table s).count = 0 ∨
    ∃ l, (w.table s).writeLock = some l ∧ w.locks l = some { lockOwner := none }

/-- There is a file in order at sector `s`. -/
def FileReady (w : World) (s : Nat) : Prop := ∃ own m c, Ready w own m s c

/-- The free sectors that a `Write` of `n` bytes through an `OpenFile` finds are at least `need`, a
function of the disk, the header at which the `Write` starts, the headers behind it, the position and
the number of bytes. -/
def SectorsFor (need : Disk → Nat → List Nat → Nat → Nat → Nat) (f : FileId) (w : World) (n : Nat) :
    Prop :=
  ∃ file m pre post, w.files f = some file ∧ MapIs w.disk m ∧
    HeaderChain w.disk file.sector (pre ++ file.currentSector :: post) ∧
    need w.disk file.currentSector post file.seekPosition n ≤ m.countClear

/-! ## Conditions on the calls -/

/-- The call is a `Read`, or a `Write` that finds the free sectors by which it extends the headers that
the file has. -/
def ReadOrExtend (f : FileId) (w : World) : Call → Prop
  | .seek _ => False
  | .read _ => True
  | .write data => SectorsFor needOld f w data.length

/-- The header in memory is the one at the sector that `current` picks. -/
def HeaderIs (current : OpenFile → Nat) (f : FileId) (w : World) : Prop :=
  ∃ file, w.files f = some file ∧ file.hdr = hdrAt w.disk (current file)

/-- The conditions under which a call works on the object `f` as on the byte file `b`.
- `Seek`: the file has one header, or the header in memory is the first one and covers the position.
- `Read`: the end of the request does not wrap around.
- `Write`: the cursor is not behind the end, the header in memory is the one at which the last `Write`
  stopped (no `Read` has passed to another header since), and there is enough free space. -/
def Faithful (f : FileId) (w : World) (b : ByteFile) : Call → Prop
  | .seek position =>
    b.bytes.length ≤ maxHeaderBytes ∨
      HeaderIs OpenFile.sector f w ∧ position.toNat ≤ maxHeaderBytes
  | .read numBytes =>
    0 < numBytes ∧ (b.cursor + numBytes.toNat < 2 ^ 32 ∨ b.bytes.length ≤ b.cursor)
  | .write data =>
    data ≠ [] ∧ b.cursor ≤ b.bytes.length ∧ HeaderIs OpenFile.currentSector f w ∧
      SectorsFor needWrite f w data.length

/-- Every call of the list meets its condition, in the state and for the byte file it finds. -/
def AllFaithful (me : Tid) (f : FileId) : World → ByteFile → List Call → Prop
  | _, _, [] => True
  | w, b, call :: calls => Faithful f w b call ∧
    ∀ w', callStep me f w call = some w' → AllFaithful me f w' (b.call call).2 calls

end Nachos.Filesys
