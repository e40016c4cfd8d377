import Nachos.Filesys.Proofs.CachedHeaderProofs
import Nachos.Filesys.Proofs.HandleProofs
import Nachos.Userprog.ReadCall
import Nachos.Userprog.Proofs.SyscallProofs
import Nachos.Userprog.Proofs.TransferProofs

/-!
# Proofs: the system call Read

`SC_READ` copies the whole buffer, `sizeBytes` bytes, when the file had fewer. The bytes behind those that were
read are what the memory of the buffer held before.
-/

namespace Nachos

open Foundations

/-! ## Writing to the user's memory -/

section Transfer

variable {mem mem' : UserMemory} {a : Word}

theorem put_nil (mem : UserMemory) (a : Word) : mem.put a [] = mem := by
  funext x
  exact if_neg (Nat.not_lt_zero _)

/-- One byte, and the others behind it. -/
theorem put_cons (mem : UserMemory) (a : Word) (b : UInt8) {bs : List UInt8} (hlen : bs.length < 2 ^ 32) :
    UserMemory.put (Function.update mem a (some b)) (a + 1#32) bs = mem.put a (b :: bs) := by
  funext x
  unfold UserMemory.put
  by_cases hx : x = a
  · subst hx
    have hlast : (x - (x + 1#32)).toNat = 2 ^ 32 - 1 := by bv_omega
    have hzero : (x - x).toNat = 0 := by bv_omega
    rw [hlast, hzero, if_neg (by omega), Function.update_self,
      if_pos (by rw [List.length_cons]; omega)]
    rfl
  · have hsucc : (x - a).toNat = (x - (a + 1#32)).toNat + 1 := by bv_omega
    rw [hsucc, Function.update_of_ne hx, List.length_cons, List.getElem?_cons_succ]
    by_cases hlt : (x - (a + 1#32)).toNat < bs.length
    · rw [if_pos hlt, if_pos (Nat.succ_lt_succ hlt)]
    · rw [if_neg hlt, if_neg (by omega)]

theorem writeBytes_eq {bs : List UInt8} (hlen : bs.length < 2 ^ 32) (h : writeBytes mem a bs = some mem') :
    mem' = mem.put a bs ∧ BufferReadable mem a bs.length := by
  induction bs generalizing mem a with
  | nil =>
    cases h
    exact ⟨(put_nil _ a).symm, fun i hi => absurd hi (Nat.not_lt_zero i)⟩
  | cons b bs ih =>
    rw [List.length_cons] at hlen
    simp only [writeBytes, Option.bind_eq_bind, Option.bind_eq_some_iff, Option.guard_eq_some'] at h
    obtain ⟨_, hhead, h⟩ := h
    obtain ⟨heq, hread⟩ := ih (by omega) h
    refine ⟨heq.trans (put_cons mem a b (by omega)), fun i hi => ?_⟩
    cases i with
    | zero =>
      rw [add_ofNat_zero]
      exact hhead
    | succ i =>
      rw [← add_ofNat_succ]
      have htail := hread i (Nat.lt_of_succ_lt_succ hi)
      by_cases hsame : a + 1#32 + BitVec.ofNat 32 i = a
      · rw [hsame]
        exact hhead
      · rw [Function.update_of_ne hsame] at htail
        exact htail

theorem writeBytes_readable {bs : List UInt8} (hlen : bs.length < 2 ^ 32) (h : BufferReadable mem a bs.length) :
    writeBytes mem a bs = some (mem.put a bs) := by
  obtain ⟨mem', hmem⟩ := writeBytes_of_readable h
  rw [hmem, (writeBytes_eq hlen hmem).1]

end Transfer

namespace Userprog

open Filesys Resumption

/-! ## The call -/

section Call

variable {k k' : Kernel} {bufferDir sizeBytes : Word} {fdId : Int} {f : FileId} {c pre post : List Nat} {x : Nat}
  {file : OpenFile} {α : Type}

theorem run_ofOption_some (a : α) (k : Kernel) : (ofOption (some a) : Handler α).run k = some (a, k) := rfl

/-- A call of the file system, run alone. -/
theorem run_fs (m : Fs α) (k : Kernel) :
    (fs m).run k = (m.run k.world).map fun r => (r.1, { k with world := r.2 }) := by
  refine run_zoom ?_ ?_ ?_ k
  · exact fun _ _ => rfl
  · exact fun _ => rfl
  · exact fun _ _ _ => rfl

/-- The world after the buffer has been allocated. -/
def afterNew (w : World) : World :=
  { w with heap := Function.update w.heap .buffer fun n => w.heap .buffer (n + 1) }

theorem run_newBuffer {w : Word} (h0 : 0 ≤ w.toInt) (k : Kernel) :
    (newBuffer w).run k = if w.toInt < intMax then
      some (k.world.heap .buffer 0, { k with world := afterNew k.world }) else none := by
  simp only [newBuffer, run_bind, run_assert, run_fs]
  have hiff := succ_toInt_nonneg h0
  by_cases hlt : w.toInt < intMax
  · rw [if_pos hlt, decide_eq_true (hiff.mpr hlt)]
    rfl
  · rw [if_neg hlt, decide_eq_false fun h => hlt (hiff.mp h)]
    rfl

theorem run_copyOut (buffer : List UInt8) (a : Word) (k : Kernel) :
    (copyOut buffer a).run k = (writeBufferToUser k.mem buffer a).map fun mem => ((), { k with mem := mem }) := by
  simp only [copyOut, run_bind, run_getState, Option.bind_some]
  cases writeBufferToUser k.mem buffer a <;> rfl

/-- `WriteBufferToUser` of a buffer at an address that is not null. -/
theorem writeBufferToUser_eq {mem : UserMemory} {buffer : List UInt8} (ha : bufferDir ≠ 0#32) (hne : buffer ≠ []) :
    writeBufferToUser mem buffer bufferDir = writeBytes mem bufferDir buffer := by
  simp [writeBufferToUser, guard, ha, hne]

/-- The descriptor `fdId` stands for the `OpenFile` `f`. -/
structure OnFile (k : Kernel) (fdId : Int) (f : FileId) : Prop where
  two_le : 2 ≤ fdId
  hasKey : k.opFD.hasKey fdId = some true
  get : k.opFD.get fdId = some (some f)

theorem onFile_of_open (hfd : DescriptorTable k.opFD) (hge : 2 ≤ fdId) (hfile : openFileOf k fdId = some f) :
    OnFile k fdId f := by
  rcases descriptor_cases hfd.ok hge with ⟨-, hnone⟩ | ⟨g, hkey, hget, hsome⟩
  · rw [hfile] at hnone
    cases hnone
  · rw [hfile] at hsome
    cases hsome
    exact ⟨hge, hkey, hget⟩

/-- What the handler does after `Read` of the file has returned the bytes `bs`. -/
def deliver (buffer : ByteMemory) (sizeBytes bufferDir : Word) (bs : List UInt8) : Handler Unit :=
  if bs.length = 0 then answer 0
  else do
    copyOut (slice (blit buffer 0 bs) 0 sizeBytes.toNat) bufferDir
    answer bs.length

/-- The call on a file, for arguments that are not refused. -/
theorem run_scRead (hon : OnFile k fdId f) (hview : Viewing f k.world c pre x post file)
    (hchain : ReadableChain k.world.disk c) (ha : bufferDir ≠ 0#32) (hpos : 0 < sizeBytes.toInt)
    (hmax : sizeBytes.toInt < intMax) (heap : HeapUse → Nat → ByteMemory) :
    ∃ world, (scRead bufferDir sizeBytes fdId).run (k.withHeap heap) =
      (deliver (heap .buffer 0) sizeBytes bufferDir ((visible k.world.disk file post).take sizeBytes.toNat)).run
        { k with world := world } := by
  have hnat := toNat_toInt (w := sizeBytes) (by omega)
  have hbad : ¬ (bufferDir = 0#32 ∨ sizeBytes.toInt ≤ 0 ∨ fdId < 0) := by
    have := hon.two_le
    simp only [not_or]
    exact ⟨ha, by omega, by omega⟩
  have hview' : Viewing f (afterNew { k.world with heap := heap }) c pre x post file :=
    ⟨hview.file_eq, hview.chain_eq, hview.ok, hview.earlier, hview.seek_le⟩
  obtain ⟨w1, hread⟩ : ∃ w1, (Filesys.read f sizeBytes.toNat false).run (afterNew (k.withHeap heap).world) =
      some ((visible k.world.disk file post).take sizeBytes.toNat, w1) := by
    have hseek := Nat.le_trans hview.seek_le hview.ok.numBytes_le
    have hheader : maxHeaderBytes = 3712 := rfl
    obtain ⟨_, _, _, _, hrun, -⟩ := hview'.run_read hchain (n := sizeBytes.toNat) (by omega)
      (by unfold intMax at hmax; omega)
    exact ⟨_, hrun⟩
  refine ⟨w1, ?_⟩
  rw [scRead, if_neg hbad]
  simp only [run_bind, run_newBuffer (Int.le_of_lt hpos), if_pos hmax, Option.bind_some, run_getState]
  rw [if_neg (by have := hon.two_le; omega)]
  have hkey : (k.withHeap heap).opFD.hasKey fdId = some true := hon.hasKey
  have hget : (k.withHeap heap).opFD.get fdId = some (some f) := hon.get
  simp only [run_bind, hkey, hget, run_ofOption_some, Option.bind_some, if_true, run_fs, hread, Option.map_some]
  rfl

/-- Something was read: the whole buffer is copied, and the number of bytes read is the answer. -/
theorem run_deliver {buffer : ByteMemory} {bs : List UInt8} (ha : bufferDir ≠ 0#32) (hpos : 0 < sizeBytes.toNat)
    (hbs : bs ≠ []) (k : Kernel) :
    (deliver buffer sizeBytes bufferDir bs).run k =
      (writeBytes k.mem bufferDir (slice (blit buffer 0 bs) 0 sizeBytes.toNat)).map fun mem =>
        ((), { k with mem := mem, r2 := BitVec.ofInt 32 bs.length }) := by
  have hne : slice (blit buffer 0 bs) 0 sizeBytes.toNat ≠ [] := by
    intro h
    have hlen := length_slice (blit buffer 0 bs) 0 sizeBytes.toNat
    rw [h] at hlen
    simp only [List.length_nil] at hlen
    omega
  have hlen : bs.length ≠ 0 := fun h => hbs (List.length_eq_zero_iff.mp h)
  rw [deliver, if_neg hlen]
  simp only [run_bind, run_copyOut, writeBufferToUser_eq ha hne, answer, run_modifyState]
  cases writeBytes k.mem bufferDir (slice (blit buffer 0 bs) 0 sizeBytes.toNat) <;> rfl

/-- A call that is refused or that finds nothing changes nothing. -/
theorem readsOnly_answer {bytes : List UInt8} (h : ∀ heap, ∃ world, (scRead bufferDir sizeBytes fdId).run
      (k.withHeap heap) = (answer 0).run { k with world := world }) :
    ReadsOnly k bufferDir sizeBytes fdId bytes := by
  intro heap k' hrun
  obtain ⟨world, hanswer⟩ := h heap
  rw [hanswer] at hrun
  cases hrun
  exact ⟨0, Nat.zero_le _, rfl, (put_nil _ _).symm⟩

/-- As much as was asked for is found: exactly these bytes are copied. -/
theorem readsOnly_whole {bytes found : List UInt8} (hbegin : found <+: bytes) (ha : bufferDir ≠ 0#32)
    (hpos : 0 < sizeBytes.toNat) (hle : sizeBytes.toNat ≤ found.length)
    (h : ∀ heap : HeapUse → Nat → ByteMemory, ∃ world, (scRead bufferDir sizeBytes fdId).run (k.withHeap heap) =
      (deliver (heap .buffer 0) sizeBytes bufferDir (found.take sizeBytes.toNat)).run { k with world := world }) :
    ReadsOnly k bufferDir sizeBytes fdId bytes := by
  intro heap k' hrun
  obtain ⟨world, heq⟩ := h heap
  have hlen : (found.take sizeBytes.toNat).length = sizeBytes.toNat := by
    rw [List.length_take]
    omega
  have hne : found.take sizeBytes.toNat ≠ [] := by
    intro hnil
    rw [hnil, List.length_nil] at hlen
    omega
  rw [heq, run_deliver ha hpos hne, slice_blit _ _ hlen, Option.map_eq_some_iff] at hrun
  obtain ⟨mem, hwrite, hk⟩ := hrun
  cases hk
  have htake : found.take sizeBytes.toNat = bytes.take sizeBytes.toNat :=
    List.prefix_iff_eq_take.mp hbegin ▸ by rw [List.take_take, Nat.min_eq_left hle]
  refine ⟨sizeBytes.toNat, Nat.le_trans hle hbegin.length_le, ?_, ?_⟩
  · rw [hlen]
    rfl
  · rw [← htake]
    exact (writeBytes_eq (by rw [hlen]; exact sizeBytes.isLt) hwrite).1

/-- Fewer bytes than asked for are found: what the memory of the buffer held is copied behind them. -/
theorem not_readsOnly_short {bytes found : List UInt8} (hbytes : bytes.length < 2 ^ 32)
    (ha : bufferDir ≠ 0#32) (hne : found ≠ []) (hlt : found.length < sizeBytes.toNat)
    (hread : BufferReadable k.mem bufferDir sizeBytes.toNat)
    (h : ∀ heap : HeapUse → Nat → ByteMemory, ∃ world, (scRead bufferDir sizeBytes fdId).run (k.withHeap heap) =
      (deliver (heap .buffer 0) sizeBytes bufferDir (found.take sizeBytes.toNat)).run { k with world := world }) :
    ¬ ReadsOnly k bufferDir sizeBytes fdId bytes := by
  intro honly
  obtain ⟨b, hb⟩ := Option.isSome_iff_exists.mp (hread found.length hlt)
  -- a byte that differs from the user's byte behind those that are found
  let other : UInt8 := if b = 0 then 1 else 0
  have hother : other ≠ b := by
    show (if b = 0 then (1 : UInt8) else 0) ≠ b
    split
    · rename_i hzero
      rw [hzero]
      decide
    · rename_i hzero
      exact fun heq => hzero heq.symm
  obtain ⟨world, heq⟩ := h fun _ _ _ => other
  rw [List.take_of_length_le (Nat.le_of_lt hlt), run_deliver ha (by omega) hne] at heq
  have hlen : (slice (blit (fun _ => other) 0 found) 0 sizeBytes.toNat).length = sizeBytes.toNat :=
    length_slice ..
  have hreadable : BufferReadable k.mem bufferDir (slice (blit (fun _ => other) 0 found) 0 sizeBytes.toNat).length := by
    rw [hlen]
    exact hread
  have hwrite := writeBytes_readable (by rw [hlen]; exact sizeBytes.isLt) hreadable
  rw [show ({ k with world := world } : Kernel).mem = k.mem from rfl, hwrite, Option.map_some] at heq
  obtain ⟨n, hn, hr2, hmem⟩ := honly _ _ heq
  have hsize := sizeBytes.isLt
  have hcount : n = found.length := by
    have hnat := congrArg BitVec.toNat hr2
    simp only [BitVec.ofInt_natCast, BitVec.toNat_ofNat] at hnat
    omega
  have hat := congrFun hmem (bufferDir + BitVec.ofNat 32 found.length)
  have haddr : (bufferDir + BitVec.ofNat 32 found.length - bufferDir).toNat = found.length := by
    rw [BitVec.add_comm, BitVec.add_sub_cancel, BitVec.toNat_ofNat]
    omega
  have htake : (bytes.take n).length = found.length := by
    rw [List.length_take]
    omega
  simp only [UserMemory.put, haddr, hlen, if_pos hlt, htake, Nat.lt_irrefl, if_false, hb] at hat
  have hbyte := getD_slice (blit (fun _ => other) 0 found) 0 (0 : UInt8) hlt
  rw [List.getD_eq_getElem?_getD, hat, Nat.zero_add, blit_outside (by omega)] at hbyte
  exact hother hbyte.symm

end Call

/-! ## A file of one byte -/

section Sample

/-- The header of a file of one byte. -/
def byteHeader : RawFileHeader where
  numBytes := 1
  numSectors := 1
  dataSectors := 4 :: List.replicate 28 0
  nextFileHeader := 0
  length_dataSectors := rfl

/-- A disk with this header at sector 3 and the byte 7 at sector 4. -/
def byteDisk : Disk := fun x => if x = 3 then byteHeader.toSector else Sector.ofBytes [7]

/-- What the `OpenFile` is after the file has been opened. -/
def byteFile : OpenFile := { hdr := byteHeader, seekPosition := 0, sector := 3, currentSector := 3 }

/-- A process that has opened the file, as descriptor 2. -/
def byteKernel : Kernel :=
  { freshKernel with
    world := { World.initial byteDisk fun _ _ _ => 0 with files := Function.update (fun _ => none) 0 (some byteFile) }
    opFD := (freshKernel.opFD.add (some 0)).2 }

theorem byteDisk_hdrAt : hdrAt byteDisk 3 = byteHeader := by
  rw [hdrAt, byteDisk, if_pos rfl]
  exact RawFileHeader.ofSector_toSector (RawFileHeader.fits_iff.mpr (by decide))

theorem byteFile_viewing : Viewing 0 byteKernel.world [3] [] 3 [] byteFile where
  file_eq := rfl
  chain_eq := rfl
  ok := ⟨rfl, by decide⟩
  earlier := Or.inl byteDisk_hdrAt.symm
  seek_le := Nat.zero_le _

theorem byteFile_readable : ReadableChain byteKernel.world.disk [3] := by
  have hhdr : hdrAt byteKernel.world.disk 3 = byteHeader := byteDisk_hdrAt
  refine ⟨?_, by decide, ?_, ?_, by decide⟩
  · intro x hx
    rw [List.mem_singleton.mp hx, hhdr]
    exact ⟨rfl, by decide⟩
  · intro x hx
    rw [List.mem_singleton.mp hx, hhdr]
    decide
  · intro pre x post hc
    obtain ⟨rfl, hpost⟩ | ⟨l, -, hl⟩ := List.cons_eq_append_iff.mp hc
    · cases hpost
      rw [hhdr]
      rfl
    · cases (List.append_eq_nil_iff.mp hl.symm).2

end Sample

end Userprog

end Nachos
