import Nachos.Userprog.Syscall

/-!
# The system call Ls

What `SC_LS` should do for a directory: the text fits in the buffer, and the user gets the line of each entry
in use.
-/

namespace Nachos.Userprog

open Foundations Filesys Resumption

/-- The entries in use, in the order of the table. -/
def entriesInUse (d : Directory) : List Nat := (List.range d.tableSize).filter (entryInUse d.table)

/-- The line of an entry: its name, and a slash if it is a directory. -/
def entryLine (t : List UInt8) (i : Nat) : List UInt8 :=
  nameKey (entryName t i) ++ if entryIsDirectory t i then [slash, 10] else [10]

/-- The text has a line for each entry in use. If there is none, it is an empty line. -/
def Lists (d : Directory) (text : List UInt8) : Prop :=
  text = (entriesInUse d).flatMap (entryLine d.table) ∨ entriesInUse d = [] ∧ text = [10]

/-- `Ls` of the directory `d`: the text and its terminator fit in the buffer, the text is the list of the
entries, and it arrives in the buffer of the user. -/
structure LsFits (d : Directory) : Prop where
  fits : (printNames d ++ [0]).length ≤ lsBufferSize
  lists : Lists d (printNames d)
  delivers : ∀ (k k₁ : Kernel) (canal : Word),
    (fs (malloc .buffer) >>= fun _ => fs fetchDirectory).run k = some (d, k₁) → canal ≠ 0#32 →
    BufferReadable k.mem canal lsBufferSize →
    ∃ k', (scLs canal).run k = some ((), k') ∧
      readStringFromUser k'.mem canal lsBufferSize = some (printNames d, true)

/-- Names of `FILE_NAME_MAX_LEN` bytes have a terminator, and there is room for the lines. -/
structure ListingFits (d : Directory) : Prop where
  terminated : ∀ i ∈ entriesInUse d, (nameKey (entryName d.table i)).length = fileNameMaxLen →
    d.table.getD (i * dirEntrySize + 8 + fileNameMaxLen) 0 = 0
  room : ((entriesInUse d).flatMap (entryLine d.table)).length + 1 ≤ lsBufferSize

end Nachos.Userprog
