import Nachos.Foundations.ByteList

/-!
# From COFF to NOFF

The loop of `bin/coff2noff.c` over the sections of a COFF file, with `CoffReaderNextSection` and the
functions of `bin/coff_section.c`. A section is copied behind the header of the NOFF file, which says where
each segment is and where it goes in the address space.
-/

namespace Nachos.Bin

open Foundations

/-! ## COFF -/

/-- `coffSectionHeader`. -/
structure CoffSection where
  /-- The bytes of `name`, not all of which need be in use. -/
  name : List UInt8
  physAddr : UInt32
  size : UInt32
  /-- File pointer to the raw data. -/
  sectionPtr : UInt32
deriving DecidableEq

/-- A COFF file: its bytes, and the section headers in it. -/
structure CoffFile where
  bytes : List UInt8
  sections : List CoffSection
  /-- The program keeps positions in files in an `int`. -/
  length_lt : bytes.length < 2 ^ 31

/-- What the program says when it gives up. -/
inductive DieMessage where
  /-- "File is too short". -/
  | tooShort
  /-- "Cannot handle both data and rdata". -/
  | dataAndRdata
  /-- "Cannot handle both bss and sbss". -/
  | bssAndSbss
deriving DecidableEq

/-- `CoffSectionEmpty`. -/
def coffSectionEmpty (sc : CoffSection) : Bool := sc.size == 0

/-- `CoffSectionName`, as a string. -/
def coffSectionName (sc : CoffSection) : List UInt8 := sc.name.takeWhile (· ≠ 0)

/-- `CoffSectionRead`. -/
def coffSectionRead (bytes : List UInt8) (sc : CoffSection) : Except DieMessage (List UInt8) :=
  let buffer := (bytes.drop sc.sectionPtr.toNat).take sc.size.toNat
  if buffer.length = sc.size.toNat then .ok buffer else .error .tooShort

/-- `.text`. -/
def textName : List UInt8 := [46, 116, 101, 120, 116]

/-- `.data`. -/
def dataName : List UInt8 := [46, 100, 97, 116, 97]

/-- `.rdata`. -/
def rdataName : List UInt8 := [46, 114, 100, 97, 116, 97]

/-- `.bss`. -/
def bssName : List UInt8 := [46, 98, 115, 115]

/-- `.sbss`. -/
def sbssName : List UInt8 := [46, 115, 98, 115, 115]

/-! ## NOFF -/

/-- `noffSegment`. -/
structure NoffSegment where
  virtualAddr : UInt32
  inFileAddr : UInt32
  size : UInt32
deriving DecidableEq

/-- `noffHeader`, less its magic number. -/
structure NoffHeader where
  code : NoffSegment
  initData : NoffSegment
  uninitData : NoffSegment
deriving DecidableEq

/-- `NOFF_MAGIC`. -/
def noffMagic : UInt32 := 0xBADFAD

/-- The words of a segment. -/
def NoffSegment.words (s : NoffSegment) : List Nat := [s.virtualAddr.toNat, s.inFileAddr.toNat, s.size.toNat]

/-- The bytes of the header. -/
def NoffHeader.bytes (h : NoffHeader) : List UInt8 :=
  packWords (noffMagic.toNat :: (h.code.words ++ h.initData.words ++ h.uninitData.words))

/-- `sizeof noffH`. -/
def noffHeaderSize : Nat := 40

/-- The state of the loop: the header so far, the position in the NOFF file, and the bytes written behind
the place of the header. -/
structure Translation where
  header : NoffHeader
  inNoffFile : UInt32
  out : List UInt8

/-- The state before the loop. Only the sizes of the segments are set. -/
def Translation.start (garbage : NoffHeader) : Translation where
  header :=
    { code := { garbage.code with size := 0 }
      initData := { garbage.initData with size := 0 }
      uninitData := { garbage.uninitData with size := 0 } }
  inNoffFile := UInt32.ofNat noffHeaderSize
  out := []

/-- The segment of a section that is copied to the current position. -/
def Translation.segment (st : Translation) (sc : CoffSection) : NoffSegment where
  virtualAddr := sc.physAddr
  inFileAddr := st.inNoffFile
  size := sc.size

/-- Copy the data of a section, for which the header has been changed. -/
def Translation.copy (st : Translation) (bytes : List UInt8) (sc : CoffSection) (header : NoffHeader) :
    Except DieMessage Translation := do
  let buffer ← coffSectionRead bytes sc
  return { header := header, inNoffFile := st.inNoffFile + sc.size, out := st.out ++ buffer }

/-- The `.bss` and `.sbss` sections are merged. -/
def mergeBss (u : NoffSegment) (sc : CoffSection) : Except DieMessage NoffSegment :=
  if u.size ≠ 0 then
    if sc.physAddr = u.virtualAddr + u.size then .error .bssAndSbss
    else .ok { u with size := u.size + sc.size }
  else
    .ok { u with virtualAddr := sc.physAddr, size := sc.size }

/-- A round of the loop. -/
def translateSection (bytes : List UInt8) (st : Translation) (sc : CoffSection) :
    Except DieMessage Translation :=
  if coffSectionEmpty sc then .ok st
  else if coffSectionName sc = textName then
    st.copy bytes sc { st.header with code := st.segment sc }
  else if coffSectionName sc = dataName ∨ coffSectionName sc = rdataName then
    if st.header.initData.size ≠ 0 then .error .dataAndRdata
    else st.copy bytes sc { st.header with initData := st.segment sc }
  else if coffSectionName sc = bssName ∨ coffSectionName sc = sbssName then do
    let u ← mergeBss st.header.uninitData sc
    return { st with header := { st.header with uninitData := u } }
  else
    -- the other sections are ignored
    .ok st

/-- A NOFF file with its header. -/
structure NoffFile where
  header : NoffHeader
  bytes : List UInt8

/-- `main` of `coff2noff`, on a COFF file that has been loaded. -/
def coff2noff (garbage : NoffHeader) (file : CoffFile) : Except DieMessage NoffFile := do
  let st ← file.sections.foldlM (translateSection file.bytes) (Translation.start garbage)
  return { header := st.header, bytes := st.header.bytes ++ st.out }

/-! ## The memory image -/

/-- A section with one of these names that is not empty. -/
def IsSection (names : List (List UInt8)) (sc : CoffSection) : Prop :=
  coffSectionEmpty sc = false ∧ coffSectionName sc ∈ names

instance (names : List (List UInt8)) : DecidablePred (IsSection names) :=
  fun sc => inferInstanceAs (Decidable (coffSectionEmpty sc = false ∧ coffSectionName sc ∈ names))

/-- The sections of the file with one of these names that are not empty. -/
def CoffFile.sectionsNamed (file : CoffFile) (names : List (List UInt8)) : List CoffSection :=
  file.sections.filter (IsSection names)

/-- The non-empty `.bss` and `.sbss` sections. -/
def CoffFile.bss (file : CoffFile) : List CoffSection := file.sectionsNamed [bssName, sbssName]

/-- The address `a` lies in the range of `size` bytes from `addr` on. -/
def InRange (addr size : UInt32) (a : Nat) : Prop := addr.toNat ≤ a ∧ a < addr.toNat + size.toNat

/-- A segment of the NOFF file has the address, the size and the bytes of the section of a COFF file that it
is for; if there is none, it is empty. -/
structure SegmentOf (file : CoffFile) (noff : NoffFile) (names : List (List UInt8)) (s : NoffSegment) :
    Prop where
  absent : file.sectionsNamed names = [] → s.size = 0
  present : ∀ sc ∈ file.sectionsNamed names, s.virtualAddr = sc.physAddr ∧ s.size = sc.size ∧
    (noff.bytes.drop s.inFileAddr.toNat).take s.size.toNat =
      (file.bytes.drop sc.sectionPtr.toNat).take sc.size.toNat ∧
    ((noff.bytes.drop s.inFileAddr.toNat).take s.size.toNat).length = s.size.toNat

/-- The NOFF file has the memory image of the COFF file. -/
structure KeepsImage (file : CoffFile) (noff : NoffFile) : Prop where
  code : SegmentOf file noff [textName] noff.header.code
  initData : SegmentOf file noff [dataName, rdataName] noff.header.initData
  uninitData : ∀ a, InRange noff.header.uninitData.virtualAddr noff.header.uninitData.size a ↔
    ∃ sc ∈ file.bss, InRange sc.physAddr sc.size a

/-- Each section starts where the one before it ends. -/
def Contiguous (l : List CoffSection) : Prop :=
  l.IsChain fun a b => b.physAddr.toNat = a.physAddr.toNat + a.size.toNat

/-- The file without its `.bss` and `.sbss` sections. -/
def CoffFile.withoutBss (file : CoffFile) : CoffFile :=
  { file with sections := file.sections.filter fun sc => ¬ IsSection [bssName, sbssName] sc }

/-- `coff2noff` accepts the file. -/
def Accepts (garbage : NoffHeader) (file : CoffFile) : Prop := ∃ noff, coff2noff garbage file = .ok noff

/-- The conversion of a file is faithful: what is accepted keeps its memory image, and the file is not
rejected because of `.bss` and `.sbss` sections that are contiguous. -/
structure ConvertsFaithfully (garbage : NoffHeader) (file : CoffFile) : Prop where
  keepsImage : ∀ noff, coff2noff garbage file = .ok noff → KeepsImage file noff
  contiguous : Contiguous file.bss → Accepts garbage file.withoutBss → Accepts garbage file

/-! ## Merging -/

/-- The range into which sections are merged: the address of the first one, and all the sizes. -/
def mergedRange (u : NoffSegment) (sc : CoffSection) : NoffSegment :=
  if u.size ≠ 0 then { u with size := u.size + sc.size }
  else { u with virtualAddr := sc.physAddr, size := sc.size }

/-- A section starts where the range of those before it ends. -/
def MeetsEnd (u : NoffSegment) (l : List CoffSection) : Prop :=
  ∃ pre sc post, l = pre ++ sc :: post ∧ (pre.foldl mergedRange u).size ≠ 0 ∧
    sc.physAddr = (pre.foldl mergedRange u).virtualAddr + (pre.foldl mergedRange u).size

/-- The sections fill the range into which they are merged. -/
def Fills (u : NoffSegment) (l : List CoffSection) : Prop :=
  ∀ a, InRange (l.foldl mergedRange u).virtualAddr (l.foldl mergedRange u).size a ↔
    ∃ sc ∈ l, InRange sc.physAddr sc.size a

end Nachos.Bin
