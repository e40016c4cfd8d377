import Nachos.Foundations.ByteMemory
import Nachos.Machine.Mmu

/-!
# Executables

The NOFF executables of `userprog/executable.cc`. The file is a list of bytes; reading past its end
delivers fewer bytes, as `ReadPartial` of the stub file system does. A failed `ASSERT` makes a
function `none`.
-/

namespace Nachos

open Foundations

/-- A segment of a NOFF file. -/
structure NoffSegment where
  virtualAddr : UInt32
  inFileAddr : UInt32
  size : UInt32

/-- The header of a NOFF file, after `CheckMagic`. -/
structure NoffHeader where
  code : NoffSegment
  initData : NoffSegment
  uninitData : NoffSegment

/-- An executable: the header and the bytes of the file. -/
structure Executable where
  header : NoffHeader
  file : List UInt8

namespace Executable

/-- `ReadAt` of the executable's file: at most `numBytes` bytes from `position` on. -/
def readAt (exe : Executable) (numBytes position : UInt32) : List UInt8 :=
  (exe.file.drop position.toNat).take numBytes.toNat

/-- Bytes of all the segments together. -/
def getSize (exe : Executable) : UInt32 :=
  exe.header.code.size + exe.header.initData.size + exe.header.uninitData.size

/-- A block of the code segment. -/
def readCodeBlock (exe : Executable) (size offset : UInt32) : Option (List UInt8) := do
  guard (size ≠ 0)
  guard (offset < exe.header.code.size)
  return exe.readAt size (exe.header.code.inFileAddr + offset)

/-- A block of the initialised data segment. -/
def readDataBlock (exe : Executable) (size offset : UInt32) : Option (List UInt8) := do
  guard (size ≠ 0)
  guard (offset < exe.header.initData.size)
  return exe.readAt size (exe.header.initData.inFileAddr + offset)

end Executable

end Nachos
