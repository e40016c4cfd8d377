import Nachos.Filesys.Ownership

/-!
# The integrity check

`FileSystem::Check` of `filesys/file_system.cc`: it marks the sectors that it meets in a bitmap of its own, the
shadow map, and compares this with the free map. It looks at the first header of the files of the current
directory only, and reports what it finds by its answer.
-/

namespace Nachos.Filesys

open Foundations Resumption

/-- `AddToShadowBitmap`: mark a sector that was not marked. -/
def addToShadowBitmap (sector : Nat) (map : Bitmap) : Bool × Bitmap :=
  if map.test sector then (false, map) else (true, map.mark sector)

/-- `CheckForError`. -/
def checkForError (value : Bool) : Bool := !value

/-- `CheckSector`. -/
def checkSector (sector : Nat) (shadowMap : Bitmap) : Bool × Bitmap :=
  if checkForError (decide (sector < numSectors)) then
    (true, shadowMap)
  else
    let added := addToShadowBitmap sector shadowMap
    (checkForError added.1, added.2)

/-- The loop over the data sectors in `CheckFileHeader`. -/
def checkSectors (sectors : List Nat) (error : Bool) (shadowMap : Bitmap) : Bool × Bitmap :=
  sectors.foldl (fun (state : Bool × Bitmap) s =>
    let checked := checkSector s state.2
    (state.1 || checked.1, checked.2)) (error, shadowMap)

/-- `CheckFileHeader`; it is undefined behaviour if the header counts more sectors than it has room for. -/
def checkFileHeader (rh : RawFileHeader) (shadowMap : Bitmap) : Option (Bool × Bitmap) :=
  let error := checkForError (decide (divRoundUp rh.numBytes sectorSize ≤ rh.numSectors)) ||
    checkForError (decide (rh.numSectors < numDirect))
  if rh.numSectors ≤ numDirect then some (checkSectors (rh.dataSectors.take rh.numSectors) error shadowMap) else none

/-- `CheckBitmaps`. -/
def checkBitmaps (freeMap shadowMap : Bitmap) : Bool :=
  (List.range numSectors).foldl
    (fun error i => error || checkForError (freeMap.test i == shadowMap.test i)) false

/-- The C string that begins at the name of entry `i`; it is undefined behaviour if the table ends before it. -/
def entryString (t : List UInt8) (i : Nat) : Option (List UInt8) :=
  let bytes := t.drop (i * dirEntrySize + 8)
  if 0 ∈ bytes then some (bytes.takeWhile (· != 0)) else none

/-- The state of the loop of `CheckDirectory`. -/
structure Checking where
  error : Bool
  knownNames : List (List UInt8)
  shadowMap : Bitmap

/-- A round of the loop of `CheckDirectory`, for the entry `i` in use. -/
def checkEntry (rd : Directory) (i : Nat) (st : Checking) : Fs Checking := do
  let name ← ofOption (entryString rd.table i)
  let error := st.error || decide (fileNameMaxLen < name.length)
  let repeated := decide (name ∈ st.knownNames)
  let knownNames := if repeated then st.knownNames else st.knownNames ++ [name]
  let checked := checkSector (entrySector rd.table i) st.shadowMap
  let error := error || repeated || checked.1
  let sector ← readSector (entrySector rd.table i)
  let header ← ofOption (checkFileHeader (RawFileHeader.ofSector sector) checked.2)
  return { error := error || header.1, knownNames := knownNames, shadowMap := header.2 }

/-- The loop of `CheckDirectory` over the entries from `i` on; the table may not be shorter than
`NUM_DIR_ENTRIES`. -/
def checkEntries (rd : Directory) : List Nat → Checking → Fs Checking
  | [], st => return st
  | i :: is, st =>
    if i < rd.tableSize then
      if entryInUse rd.table i then do
        let st ← checkEntry rd i st
        checkEntries rd is st
      else
        checkEntries rd is st
    else
      fail

/-- `CheckDirectory`. -/
def checkDirectory (rd : Directory) (shadowMap : Bitmap) : Fs (Bool × Bitmap) := do
  let st ← checkEntries rd (List.range numDirEntries) { error := false, knownNames := [], shadowMap := shadowMap }
  return (st.error, st.shadowMap)

/-- `Check`. -/
def check : Fs Bool := do
  let heap := fun _ => 0
  let shadowMap := ((Bitmap.new numSectors heap).mark freeMapSector).mark directorySector
  let bitH ← readSector freeMapSector
  let bitRH := RawFileHeader.ofSector bitH
  let error := checkForError (decide (bitRH.numBytes = freeMapFileSize)) ||
    checkForError (decide (bitRH.numSectors = freeMapFileSize / sectorSize))
  let bitmap ← ofOption (checkFileHeader bitRH shadowMap)
  let dirH ← readSector directorySector
  let header ← ofOption (checkFileHeader (RawFileHeader.ofSector dirH) bitmap.2)
  let freeMap ← fetchFreeMap
  let dir ← fetchDirectory
  let entries ← checkDirectory dir header.2
  let error := error || bitmap.1 || header.1 || entries.1
  return !(error || checkBitmaps freeMap entries.2)

/-! ## What the check looks for -/

/-- The entries that the check looks at. -/
def checkedEntries (t : List UInt8) : List Nat := (List.range numDirEntries).filter (entryInUse t)

/-- The headers that the check looks at. -/
def checkedHeaders (t : List UInt8) : List Nat :=
  freeMapSector :: directorySector :: (checkedEntries t).map (entrySector t)

/-- What the check asks of a header. -/
structure HeaderFits (rh : RawFileHeader) : Prop where
  enough : divRoundUp rh.numBytes sectorSize ≤ rh.numSectors
  few : rh.numSectors < numDirect

/-- The names of the entries `is` are short enough, and distinct. -/
structure NamesFit (t : List UInt8) (is : List Nat) : Prop where
  short : ∀ i ∈ is, ∃ name, entryString t i = some name ∧ name.length ≤ fileNameMaxLen
  distinct : (is.map (entryString t)).Nodup

/-- The disk `d`, with the current directory `t`, as the check wants it. -/
structure ChecksOut (d : Disk) (freeMap : Bitmap) (t : List UInt8) : Prop where
  mapBytes_eq : (hdrAt d freeMapSector).numBytes = freeMapFileSize
  mapSectors_eq : (hdrAt d freeMapSector).numSectors = freeMapFileSize / sectorSize
  headers : ∀ s ∈ checkedHeaders t, HeaderFits (hdrAt d s)
  names : NamesFit t (checkedEntries t)
  nodup : (sectorsOf d (checkedHeaders t)).Nodup
  lt : ∀ s ∈ sectorsOf d (checkedHeaders t), s < numSectors
  freeMap_iff : ∀ s < numSectors, freeMap.test s = true ↔ s ∈ sectorsOf d (checkedHeaders t)

/-- The check looks at the file at `x`, which has one header, and this is not full. -/
structure Checkable (d : Disk) (t : List UInt8) (x : Nat) : Prop where
  mem : x ∈ checkedHeaders t
  chain : HeaderChain d x [x]
  few : (hdrAt d x).numSectors < numDirect

/-- Every sector that is marked in the free map on the disk belongs to a file. -/
def NothingLost (w : World) : Prop :=
  ∀ z, (storedFreeMap w.disk).test z = true → ∃ x c, Stored w x ∧ HeaderChain w.disk x c ∧ z ∈ sectorsOf w.disk c

end Nachos.Filesys
