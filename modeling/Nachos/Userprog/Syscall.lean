import Nachos.Threads.ProcessTable
import Nachos.Userprog.FilesysSwap
import Nachos.Userprog.Transfer

/-!
# System calls

`SyscallHandler` of `userprog/exception.cc` in the build of `filesys/Makefile`. The code of the handler
is a resumption over the state of the kernel that it works on; it fails where an `ASSERT` is violated,
a method of a null or deleted object is called, or a buffer of a negative size is allocated.
-/

namespace Nachos.Userprog

open Foundations Filesys Resumption
open Processes (ThreadPtr)

/-- What the handler works on. -/
structure Kernel where
  /-- The file system. -/
  world : World
  /-- `threadUPS` and the threads. -/
  processes : Processes.State
  /-- `opFD` of the thread that makes the call. -/
  opFD : Table (Option FileId)
  /-- The memory of its program. -/
  mem : UserMemory
  /-- What was typed and not yet read, and what was printed. -/
  consoleIn : List UInt8
  consoleOut : List UInt8
  /-- The register in which the answer is returned. -/
  r2 : Word
  halted : Bool

/-- Code of the kernel. -/
abbrev Handler (α : Type) := Resumption Kernel α

/-- The registers with the call number and the arguments. -/
structure Registers where
  r2 : Word
  r4 : Word
  r5 : Word
  r6 : Word

/-- A call of the file system. -/
def fs {α : Type} (m : Fs α) : Handler α := m.zoom Kernel.world fun w k => { k with world := w }

/-- `machine->WriteRegister(2, value)`. -/
def answer (value : Int) : Handler Unit := modifyState fun k => { k with r2 := BitVec.ofInt 32 value }

/-- The string at an address; `none` is the answer false. -/
def readName (userAddress : Word) (maxByteCount : Nat) : Handler (Option Name) := do
  let k ← getState
  let (bs, terminated) ← ofOption (readStringFromUser k.mem userAddress maxByteCount)
  return if terminated then some bs else none

/-- `new char[sizeBytes + 1]`: the addition is one of 32 bits. -/
def newBuffer (sizeBytes : Word) : Handler ByteMemory := do
  assert (decide (0 ≤ (sizeBytes + 1#32).toInt))
  fs (malloc .buffer)

/-- `WriteBufferToUser`. -/
def copyOut (buffer : List UInt8) (userAddress : Word) : Handler Unit := do
  let k ← getState
  let mem ← ofOption (writeBufferToUser k.mem buffer userAddress)
  modifyState fun k => { k with mem := mem }

/-! ## Files -/

/-- `SC_CREATE`. -/
def scCreate (me : Filesys.Tid) (filenameAddr : Word) (isDirectory : Bool) : Handler Unit :=
  if filenameAddr = 0#32 then
    answer 1
  else do
    match ← readName filenameAddr (fileNameMaxLen + 1) with
    | none => answer 1
    | some filename => do
      let success ← fs (if isDirectory then createDir me filename else create me filename)
      answer (if success then 0 else 1)

/-- `SC_REMOVE`. -/
def scRemove (me : Filesys.Tid) (fileDir : Word) (isDirectory : Bool) : Handler Unit :=
  if fileDir = 0#32 then
    answer 1
  else do
    match ← readName fileDir (fileNameMaxLen + 1) with
    | none => answer 1
    | some fileName =>
      if isDirectory then
        answer (-2)
      else do
        let success ← fs (remove me fileName)
        answer (if success then 0 else 1)

/-- `SC_OPEN`. -/
def scOpen (me : Filesys.Tid) (fileDir : Word) : Handler Unit :=
  if fileDir = 0#32 then
    answer (-1)
  else do
    match ← readName fileDir (fileNameMaxLen + 1) with
    | none => answer (-1)
    | some fileName => do
      match ← fs (openFile fileName) with
      | none => answer (-1)
      | some file => do
        let k ← getState
        let added := k.opFD.add (some file)
        if added.1 < 0 then do
          answer (-1)
          fs (deleteOpenFile me file)
        else do
          modifyState fun k => { k with opFD := added.2 }
          answer added.1

/-- `SC_CLOSE`. -/
def scClose (me : Filesys.Tid) (fid : Int) : Handler Unit :=
  if fid = 0 ∨ fid = 1 then
    answer (-1)
  else do
    let k ← getState
    if ← ofOption (k.opFD.hasKey fid) then do
      let file ← ofOption (k.opFD.get fid)
      let file ← ofOption file
      fs (deleteOpenFile me file)
      let k ← getState
      let removed ← ofOption (k.opFD.remove fid)
      modifyState fun k => { k with opFD := removed.2 }
      answer 0
    else
      answer (-1)

/-- Print characters: the thread waits for the console after each. -/
def printChars : List UInt8 → Handler Unit
  | [] => return ()
  | c :: cs => do
    modifyState fun k => { k with consoleOut := k.consoleOut ++ [c] }
    yield
    printChars cs

/-- Wait for `n` characters of the console. -/
def readConsole : Nat → Handler (List UInt8)
  | 0 => return []
  | n + 1 => do
    awaitUntil fun k => !k.consoleIn.isEmpty
    let k ← getState
    modifyState fun k => { k with consoleIn := k.consoleIn.tail }
    let cs ← readConsole n
    return k.consoleIn.headD 0 :: cs

/-- `SC_WRITE`. -/
def scWrite (me : Filesys.Tid) (bufferDir sizeBytes : Word) (fdId : Int) : Handler Unit :=
  if bufferDir = 0#32 ∨ sizeBytes.toInt < 0 ∨ fdId < 0 ∨ fdId = 0 then
    answer 0
  else do
    let _ ← newBuffer sizeBytes
    let k ← getState
    let buffer ← ofOption (readBufferFromUser k.mem bufferDir sizeBytes.toNat)
    if fdId = 1 then do
      printChars buffer
      answer sizeBytes.toInt
    else if ← ofOption (k.opFD.hasKey fdId) then do
      let file ← ofOption (k.opFD.get fdId)
      let file ← ofOption file
      let bytesWrited ← fs (write me file buffer false)
      answer bytesWrited
    else
      answer 0

/-- `SC_READ`. -/
def scRead (bufferDir sizeBytes : Word) (fdId : Int) : Handler Unit :=
  if bufferDir = 0#32 ∨ sizeBytes.toInt ≤ 0 ∨ fdId < 0 then
    answer 0
  else do
    let buffer ← newBuffer sizeBytes
    let k ← getState
    if fdId = 0 then do
      let cs ← readConsole sizeBytes.toNat
      copyOut cs bufferDir
      answer sizeBytes.toInt
    else if ← ofOption (k.opFD.hasKey fdId) then do
      let file ← ofOption (k.opFD.get fdId)
      let file ← ofOption file
      let bytesRead ← fs (read file sizeBytes.toNat false)
      if bytesRead.length = 0 then
        answer 0
      else do
        -- the whole buffer is copied
        copyOut (slice (blit buffer 0 bytesRead) 0 sizeBytes.toNat) bufferDir
        answer bytesRead.length
    else
      answer 0

/-! ## Programs -/

/-- `NOFF_MAGIC`, as it stands at the start of a file. -/
def noffMagic : List UInt8 := [0xAD, 0xDF, 0xBA, 0x00]

/-- `sizeof header` of a NOFF file. -/
def noffHeaderSize : Nat := 40

/-- The constructor `AddressSpace::AddressSpace`. -/
def newAddressSpace (me : Filesys.Tid) (executableFile : FileId) (pid : UInt32) : Fs Unit := do
  let header ← malloc .buffer
  let bytes ← readAt executableFile noffHeaderSize 0
  -- `CheckMagic`; what the file does not hold of the header is what was in memory
  assert (slice (blit header 0 bytes) 0 4 == noffMagic)
  let _ ← FsVm.newSwapFile me pid
  return ()

/-- Make a thread: its id. -/
def newThread (joinable : Bool) : Handler Int := do
  let k ← getState
  let made := k.processes.newThread joinable
  modifyState fun k => { k with processes := made.2 }
  return made.1

/-- `SC_EXEC`. -/
def scExec (me : Filesys.Tid) (fileDir argumentsPosition : Word) (joinable : Bool) : Handler Unit :=
  if fileDir = 0#32 then
    answer (-1)
  else do
    match ← readName fileDir (fileNameMaxLen + 1) with
    | none => answer (-1)
    | some fileName => do
      let k ← getState
      let _ ← ofOption (if argumentsPosition = 0#32 then some none else saveArgs k.mem argumentsPosition)
      match ← fs (openFile fileName) with
      | none => answer (-1)
      | some file => do
        let tId ← newThread joinable
        fs (newAddressSpace me file (UInt32.ofInt tId))
        answer tId

/-- Has the thread finished, so that `Join` finds its message? -/
def hasFinished (q : ThreadPtr) (k : Kernel) : Bool :=
  match k.processes.threads q with
  | some { stage := .finishing _, .. } => true
  | _ => false

/-- Take the message of a finished thread. -/
def takeReturnValue (q : ThreadPtr) : Handler Unit := do
  let k ← getState
  match k.processes.threads q with
  | some { tId, joinable, stage := .finishing v } => do
    modifyState fun k => { k with
      processes := k.processes.setStage q { tId, joinable, stage := .finishing v } .finished }
    answer v
  | _ => return ()

/-- `SC_JOIN`. -/
def scJoin (tidJoin : Int) : Handler Unit := do
  let k ← getState
  if ← ofOption (k.processes.threadUPS.hasKey tidJoin) then do
    let q ← ofOption (k.processes.threadUPS.get tidJoin)
    let q ← ofOption q
    let th ← ofOption (k.processes.threads q)
    assert th.joinable
    awaitUntil (hasFinished q)
    takeReturnValue q
  else
    answer (-1)

/-- `SC_EXIT`: the thread finishes. -/
def scExit (self : ThreadPtr) (r : Int) : Handler Unit :=
  modifyState fun k =>
    match k.processes.threads self with
    | some th => { k with processes := k.processes.finish self th r }
    | none => k

/-! ## Directories -/

/-- The name of entry `i` as `sprintf` prints it: it goes on to the next zero byte. -/
def printedName (t : List UInt8) (i : Nat) : List UInt8 :=
  (t.drop (i * dirEntrySize + 8)).takeWhile (· != 0)

/-- `PrintNames`: the text. -/
def printNames (d : Directory) : List UInt8 :=
  let names := (List.range d.tableSize).filter (entryInUse d.table)
  if names = [] then [10]
  else names.flatMap fun i =>
    printedName d.table i ++ (if entryIsDirectory d.table i then [slash, 10] else [10])

/-- The size of the buffer of `SC_LS`. -/
def lsBufferSize : Nat := 200

/-- `SC_LS`. What is printed behind the end of the buffer is left out. -/
def scLs (canal : Word) : Handler Unit := do
  let lsResult ← fs (malloc .buffer)
  let dir ← fs fetchDirectory
  let bytesRead := printNames dir
  if bytesRead.length = 0 then
    return ()
  else
    copyOut (slice (blit lsResult 0 (bytesRead ++ [0])) 0 lsBufferSize) canal

/-- `SC_CD`. -/
def scCd (me : Filesys.Tid) (dirPath : Word) : Handler Unit :=
  if dirPath = 0#32 then
    answer 1
  else do
    match ← readName dirPath (filePathMaxLen + 1) with
    | none => answer 1
    | some path => do
      let cdOk ← fs (changeDir me path true)
      answer (if cdOk then 0 else 1)

/-! ## The handler -/

/-- The system calls. -/
inductive Syscall where
  | halt
  | exit
  | exec
  | join
  | create
  | remove
  | open
  | close
  | read
  | write
  | ps
  | ls
  | cd
deriving DecidableEq

/-- The call of a number; the handler has no case for the others. -/
def Syscall.ofNumber (scid : Word) : Option Syscall :=
  match scid.toNat with
  | 0 => some .halt
  | 1 => some .exit
  | 2 => some .exec
  | 3 => some .join
  | 10 => some .create
  | 11 => some .remove
  | 12 => some .open
  | 13 => some .close
  | 14 => some .read
  | 15 => some .write
  | 16 => some .ps
  | 17 => some .ls
  | 18 => some .cd
  | _ => none

/-- The cases of `SyscallHandler`; `self` is the thread that makes the call and `me` its id. -/
def handle (me : Filesys.Tid) (self : ThreadPtr) (r : Registers) : Syscall → Handler Unit
  | .halt => do
    answer 0
    modifyState fun k => { k with halted := true }
  | .exit => scExit self r.r4.toInt
  | .exec => scExec me r.r4 r.r5 (r.r6 != 0#32)
  | .join => scJoin r.r4.toInt
  | .create => scCreate me r.r4 (r.r5 != 0#32)
  | .remove => scRemove me r.r4 (r.r5 != 0#32)
  | .open => scOpen me r.r4
  | .close => scClose me r.r4.toInt
  | .read => scRead r.r4 r.r5 r.r6.toInt
  | .write => scWrite me r.r4 r.r5 r.r6.toInt
  | .ps => return ()
  | .ls => scLs r.r4
  | .cd => scCd me r.r4

/-- `SyscallHandler`. -/
def syscallHandler (me : Filesys.Tid) (self : ThreadPtr) (r : Registers) : Handler Unit :=
  match Syscall.ofNumber r.r2 with
  | some call => handle me self r call
  | none => fail

/-! ## What a call needs -/

/-- The string that `ReadStringFromUser` accepts at an address. -/
def userName (mem : UserMemory) (a : Word) (maxByteCount : Nat) : Option Name :=
  match readStringFromUser mem a maxByteCount with
  | some (bs, true) => some bs
  | _ => none

/-- The `OpenFile` of a descriptor that stands for a file. -/
def openFileOf (k : Kernel) (fdId : Int) : Option FileId :=
  if k.opFD.has fdId.toNat then k.opFD.data fdId.toNat else none

/-- The buffers and the strings of a call are in the address space. -/
def ArgumentsReadable (k : Kernel) (r : Registers) : Syscall → Prop
  | .create | .remove | .open => r.r4 ≠ 0#32 → StringReadable k.mem r.r4 (fileNameMaxLen + 1)
  | .cd => r.r4 ≠ 0#32 → StringReadable k.mem r.r4 (filePathMaxLen + 1)
  | .exec =>
    (r.r4 ≠ 0#32 → StringReadable k.mem r.r4 (fileNameMaxLen + 1)) ∧
      (r.r5 ≠ 0#32 → ArgsReadable k.mem r.r5)
  | .read | .write => r.r4 ≠ 0#32 → 0 ≤ r.r5.toInt → BufferReadable k.mem r.r4 r.r5.toNat
  | .ls => r.r4 ≠ 0#32 → BufferReadable k.mem r.r4 lsBufferSize
  | _ => True

/-- The biggest `int`. -/
def intMax : Int := 2 ^ 31 - 1

/-- A thread that may be joined: it has not been destroyed, and it is joinable. -/
def Joinable (k : Kernel) (tId : Int) : Prop :=
  ∃ q th, k.processes.threadUPS.data tId.toNat = some q ∧ k.processes.threads q = some th ∧
    th.joinable = true

/-- The arguments that a call can take. -/
def GoodArguments (k : Kernel) (r : Registers) : Syscall → Prop
  | .close => 0 ≤ r.r4.toInt
  | .read =>
    r.r4 = 0#32 ∨ r.r5.toInt ≤ 0 ∨ r.r6.toInt < 0 ∨ r.r5.toInt < intMax ∧ r.r6.toInt ≠ 1
  | .write => r.r4 = 0#32 ∨ r.r5.toInt < 0 ∨ r.r6.toInt ≤ 0 ∨ 0 < r.r5.toInt ∧ r.r5.toInt < intMax
  | .exec =>
    r.r4 = 0#32 ∨ userName k.mem r.r4 (fileNameMaxLen + 1) = none ∨ r.r5.toNat % 4 = 0
  | .join =>
    0 ≤ r.r4.toInt ∧
      (k.processes.threadUPS.has r.r4.toInt.toNat = true → Joinable k r.r4.toInt)
  | .ls => r.r4 ≠ 0#32
  | _ => True

/-- The file system, in which other threads work as `E` says, fails in none of the routines that the
call uses. -/
def FileSystemSafe (E : Kernel → Kernel → Prop) (me : Filesys.Tid) (k : Kernel) (r : Registers) :
    Syscall → Prop
  | .create => ∀ name, r.r4 ≠ 0#32 → userName k.mem r.r4 (fileNameMaxLen + 1) = some name →
      (fs (if r.r5 != 0#32 then createDir me name else create me name)).Safe E k
  | .remove => ∀ name, r.r4 ≠ 0#32 → userName k.mem r.r4 (fileNameMaxLen + 1) = some name → r.r5 = 0#32 →
      (fs (remove me name)).Safe E k
  | .open => ∀ name, r.r4 ≠ 0#32 → userName k.mem r.r4 (fileNameMaxLen + 1) = some name →
      (fs (openFile name)).Safe E k ∧
        ∀ f k', (fs (openFile name)).MayReturn E k (some f) k' → (k.opFD.add (some f)).1 < 0 →
          (fs (deleteOpenFile me f)).Safe E { k' with r2 := BitVec.ofInt 32 (-1) }
  | .close => ∀ f, 2 ≤ r.r4.toInt → openFileOf k r.r4.toInt = some f →
      (fs (deleteOpenFile me f)).Safe E k
  | .read => ∀ f, r.r4 ≠ 0#32 → 0 < r.r5.toInt → 2 ≤ r.r6.toInt → openFileOf k r.r6.toInt = some f →
      (fs (malloc .buffer) >>= fun _ => fs (read f r.r5.toNat false)).Safe E k
  | .write => ∀ f buffer, 0 ≤ r.r5.toInt → 2 ≤ r.r6.toInt → openFileOf k r.r6.toInt = some f →
      readBufferFromUser k.mem r.r4 r.r5.toNat = some buffer →
      (fs (malloc .buffer) >>= fun _ => fs (write me f buffer false)).Safe E k
  | .exec => ∀ name, r.r4 ≠ 0#32 → userName k.mem r.r4 (fileNameMaxLen + 1) = some name →
      (fs (openFile name)).Safe E k ∧
        ∀ f k', (fs (openFile name)).MayReturn E k (some f) k' →
          (newThread (r.r6 != 0#32) >>= fun tId =>
            fs (newAddressSpace me f (UInt32.ofInt tId))).Safe E k'
  | .ls => (fs (malloc .buffer) >>= fun _ => fs fetchDirectory).Safe E k
  | .cd => ∀ path, r.r4 ≠ 0#32 → userName k.mem r.r4 (filePathMaxLen + 1) = some path →
      (fs (changeDir me path true)).Safe E k
  | _ => True

/-- The descriptor tables of a process: the console has the first two descriptors, and files are opened
and closed. -/
inductive DescriptorTable : Table (Option FileId) → Prop
  | new (data : Nat → Option FileId) : DescriptorTable (((Table.new data).add none).2.add none).2
  | open (t : Table (Option FileId)) (f : FileId) : DescriptorTable t →
      DescriptorTable (t.add (some f)).2
  | close (t t' : Table (Option FileId)) (fid : Int) (file : Option FileId) : DescriptorTable t →
      fid ≠ 0 → fid ≠ 1 → t.remove fid = some (file, t') → DescriptorTable t'

end Nachos.Userprog
