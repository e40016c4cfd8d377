import Nachos.Filesys.World

/-!
# Open files

`OpenFile` of `filesys/open_file.cc`, and the transfer of a bitmap to and from a file of
`lib/bitmap.cc`. The header of an open file stands in memory; `Read` and `Write` walk the chain of
headers of the file, and `Write` takes new sectors from the free map, of which it keeps a copy from
its first to its last disk request.
-/

namespace Nachos.Filesys

open Foundations Resumption

/-! ## Opening and closing -/

/-- The lock of a table entry, made if there is none yet. -/
def ensureLock : Option LockId → Fs (Option LockId)
  | some l => return some l
  | none => do
    let l ← newLock
    return some l

/-- The locks that the constructor sets up when nobody else has the file open. -/
def initLocks (sector : Nat) (e : OpenDirEntry) : Fs Unit :=
  if e.count = 0 then do
    let writeLock ← newLock
    let removeLock ← ensureLock e.removeLock
    let closeLock ← ensureLock e.closeLock
    modifyEntry sector fun e =>
      { e with writeLock := some writeLock, removeLock := removeLock, closeLock := closeLock }
  else
    return ()

/-- The constructor `OpenFile(sector)`: the header is read before the open count is incremented. -/
def newOpenFile (sector : Nat) : Fs FileId := do
  let hdr ← readSector sector
  let e ← getEntry sector
  initLocks sector e
  modifyEntry sector fun e => { e with count := e.count + 1 }
  let w ← getState
  modifyState fun w =>
    { w with
      files := Function.update w.files w.nextFile (some
        { hdr := RawFileHeader.ofSector hdr, seekPosition := 0, sector := sector,
          currentSector := sector })
      nextFile := w.nextFile + 1 }
  return w.nextFile

/-- Wake up the thread that waits for the last close of the file. -/
def notifyRemover (e : OpenDirEntry) : Fs Unit :=
  if e.removing then channelSend e.removerSpaceId else return ()

/-- What the destructor does after it has counted itself out. -/
def closeLast (sector : Nat) : Fs Unit := do
  let e ← getEntry sector
  if e.count = 0 then do
    notifyRemover e
    let e ← getEntry sector
    deleteLock e.writeLock
  else
    return ()

/-- The object is gone. -/
def forgetFile (f : FileId) : Fs Unit :=
  modifyState fun w => { w with files := Function.update w.files f none }

/-- The destructor `~OpenFile`. -/
def deleteOpenFile (me : Tid) (f : FileId) : Fs Unit := do
  let file ← getFile f
  let e ← getEntry file.sector
  acquire me e.closeLock
  let e ← getEntry file.sector
  if e.count > 0 then do
    modifyEntry file.sector fun e => { e with count := e.count - 1 }
    release me e.closeLock
    closeLast file.sector
    forgetFile f
  else do
    -- more closes than opens
    release me e.closeLock
    forgetFile f

/-! ## Positional access -/

/-- `hdr->FetchFrom(sector)`. -/
def fetchHdr (f : FileId) (sector : Nat) : Fs Unit := do
  let s ← readSector sector
  modifyFile f fun file => { file with hdr := RawFileHeader.ofSector s }

/-- The loop of `ReadAt` over `count` sectors from number `i` on. -/
def readSectors (f : FileId) : Nat → Nat → Fs (List UInt8)
  | 0, _ => return []
  | count + 1, i => do
    let file ← getFile f
    let sectorToRead ← ofOption (file.hdr.byteToSector (i * sectorSize))
    let s ← readSector sectorToRead
    let rest ← readSectors f count (i + 1)
    return s.bytes ++ rest

/-- `ReadAt`: the bytes read. -/
def readAt (f : FileId) (numBytes position : Nat) : Fs (List UInt8) := do
  assert (decide (0 < numBytes))
  let file ← getFile f
  let fileLength := file.hdr.numBytes
  if position ≥ fileLength then
    return []
  else do
    -- a request whose end wraps around copies from outside of the buffer
    assert (decide (position + numBytes < 2 ^ 32))
    let numBytes := min numBytes (fileLength - position)
    let firstSector := position / sectorSize
    let lastSector := (position + numBytes - 1) / sectorSize
    let buf ← readSectors f (1 + lastSector - firstSector) firstSector
    return (buf.drop (position - firstSector * sectorSize)).take numBytes

/-- The loop of `WriteAt` over `count` sectors from number `i` on. -/
def writeSectors (f : FileId) : Nat → Nat → List UInt8 → Fs Unit
  | 0, _, _ => return ()
  | count + 1, i, buf => do
    let file ← getFile f
    let s ← ofOption (file.hdr.byteToSector (i * sectorSize))
    writeSector s (Sector.ofBytes buf)
    writeSectors f count (i + 1) (buf.drop sectorSize)

/-- Read a sector that will be partially modified into the buffer of `WriteAt`, if `needed`. -/
def fillSector (f : FileId) (needed : Bool) (firstSector i : Nat) (buf : List UInt8) :
    Fs (List UInt8) :=
  if needed then do
    let bs ← readAt f sectorSize (i * sectorSize)
    return splice buf ((i - firstSector) * sectorSize) bs
  else
    return buf

/-- `WriteAt`: the number of bytes written. -/
def writeAt (f : FileId) (data : List UInt8) (position : Nat) : Fs Nat := do
  assert (decide (0 < data.length))
  let file ← getFile f
  let fileLength := file.hdr.numBytes
  if position ≥ fileLength then
    return 0
  else do
    assert (decide (position + data.length < 2 ^ 32))
    let numBytes := min data.length (fileLength - position)
    let firstSector := position / sectorSize
    let lastSector := (position + numBytes - 1) / sectorSize
    let numSectors := 1 + lastSector - firstSector
    let heap ← malloc .buffer
    let buf := slice heap 0 (numSectors * sectorSize)
    let firstAligned := position == firstSector * sectorSize
    let lastAligned := position + numBytes == (lastSector + 1) * sectorSize
    let buf ← fillSector f (!firstAligned) firstSector firstSector buf
    let buf ← fillSector f (!lastAligned && (firstSector != lastSector || firstAligned))
      firstSector lastSector buf
    let buf := splice buf (position - firstSector * sectorSize) (data.take numBytes)
    writeSectors f numSectors firstSector buf
    return numBytes

/-- `Length`: the number of bytes that the header in memory covers. -/
def length (f : FileId) : Fs Nat := do
  let file ← getFile f
  return file.hdr.numBytes

/-! ## Bitmaps in files -/

/-- The bytes of the words of a bitmap. -/
def mapBytes (b : Bitmap) : List UInt8 := packWords (b.map.map BitVec.toNat)

/-- The bitmap with bytes copied over the beginning of its words. -/
def overlayMap (b : Bitmap) (bs : List UInt8) : Bitmap where
  numBits := b.numBits
  map := ((unpackWords (splice (mapBytes b) 0 bs)).map (BitVec.ofNat 32) ++ b.map).take b.map.length
  numWords_eq := by simp [b.numWords_eq]

/-- `new Bitmap(NUM_SECTORS)` and `FetchFrom(freeMapFile)`. The constructor clears all bits, so it
does not matter what the new memory held. -/
def fetchFreeMap : Fs Bitmap := do
  let w ← getState
  let freeMap := Bitmap.new numSectors fun _ => 0
  let bs ← readAt w.freeMapFile (mapBytes freeMap).length 0
  return overlayMap freeMap bs

/-- `freeMap->WriteBack(freeMapFile)`. -/
def writeBackFreeMap (freeMap : Bitmap) : Fs Unit := do
  let w ← getState
  let _ ← writeAt w.freeMapFile (mapBytes freeMap) 0
  return ()

/-! ## Sequential access -/

/-- `Seek`. -/
def seek (f : FileId) (position : Nat) : Fs Unit :=
  modifyFile f fun file => { file with seekPosition := position }

/-- Advance the position. -/
def advanceSeek (f : FileId) (n : Nat) : Fs Unit :=
  modifyFile f fun file => { file with seekPosition := u32 (file.seekPosition + n) }

/-- The loop of `Read` over the further headers of the file. -/
def readNext (f : FileId) : Nat → Nat → Nat → List UInt8 → Fs (List UInt8)
  | 0, _, _, _ => fail
  | fuel + 1, nextSector, numBytes, into =>
    if nextSector ≠ 0 ∧ numBytes > 0 then do
      modifyFile f fun file => { file with seekPosition := 0 }
      fetchHdr f nextSector
      let file ← getFile f
      let bs ← readAt f numBytes file.seekPosition
      advanceSeek f bs.length
      let file ← getFile f
      readNext f fuel file.hdr.nextFileHeader (numBytes - bs.length) (into ++ bs)
    else
      return into

/-- More iterations than the loop of `Read` can make on a chain of headers without a cycle. -/
def readFuel (numBytes : Nat) : Nat := (numBytes + 1) * (numSectors + 1)

/-- A directory is always read from its first header on. -/
def rewindRead (f : FileId) (isDirectory : Bool) : Fs Unit :=
  if isDirectory then do
    let file ← getFile f
    fetchHdr f file.sector
    modifyFile f fun file => { file with seekPosition := 0 }
  else
    return ()

/-- `Read`: the bytes read. -/
def read (f : FileId) (numBytes : Nat) (isDirectory : Bool) : Fs (List UInt8) := do
  assert (decide (0 < numBytes))
  rewindRead f isDirectory
  let file ← getFile f
  if u32 (file.seekPosition + numBytes) > file.hdr.numBytes then do
    let bs ← readAt f numBytes file.seekPosition
    advanceSeek f bs.length
    let file ← getFile f
    readNext f (readFuel numBytes) file.hdr.nextFileHeader (numBytes - bs.length) bs
  else do
    let bs ← readAt f numBytes file.seekPosition
    advanceSeek f bs.length
    return bs

/-- The local state of a `Write`: its copy of the free map, the bytes that are not written yet and
the number of bytes written. -/
structure Writing where
  freeMap : Bitmap
  data : List UInt8
  result : Nat

/-- Let the header in memory, which stands on disk at `sector`, cover `needed` bytes. If there are
not enough free sectors, the `Write` returns. -/
def extendHeader (f : FileId) (sector needed : Nat) (st : Writing) : Fs (Bool × Writing) := do
  let file ← getFile f
  if needed > file.hdr.numBytes then do
    let (success, hdr, freeMap) ← ofOption (file.hdr.allocate st.freeMap (needed - file.hdr.numBytes))
    modifyFile f fun file => { file with hdr := hdr }
    if success then do
      writeBackFreeMap freeMap
      let file ← getFile f
      writeSector sector file.hdr.toSector
      return (true, { st with freeMap := freeMap })
    else
      return (false, { st with freeMap := freeMap })
  else
    return (true, st)

/-- Write the next `n` bytes at the current position and advance. -/
def writeChunk (f : FileId) (n : Nat) (st : Writing) : Fs Writing := do
  let file ← getFile f
  let r ← writeAt f (st.data.take n) file.seekPosition
  advanceSeek f r
  return { st with data := st.data.drop r, result := st.result + r }

/-- `Write` in the current header. -/
def writeCurrent (f : FileId) (bytesToWrite : Nat) (st : Writing) : Fs (Bool × Writing) :=
  if bytesToWrite > 0 then do
    let file ← getFile f
    let (success, st) ← extendHeader f file.currentSector (u32 (file.seekPosition + bytesToWrite)) st
    if success then do
      let st ← writeChunk f bytesToWrite st
      return (true, st)
    else
      return (false, st)
  else
    return (true, st)

/-- `Write` in the headers that already follow the current one. -/
def writeNext (f : FileId) : Nat → Nat → Writing → Fs (Bool × Writing)
  | 0, _, _ => fail
  | fuel + 1, iterFh, st =>
    if st.data ≠ [] ∧ iterFh ≠ 0 then do
      fetchHdr f iterFh
      let bytesToWrite := min st.data.length maxHeaderBytes
      let (success, st) ← extendHeader f iterFh bytesToWrite st
      if success then do
        modifyFile f fun file => { file with currentSector := iterFh, seekPosition := 0 }
        let st ← writeChunk f bytesToWrite st
        let file ← getFile f
        writeNext f fuel file.hdr.nextFileHeader st
      else
        return (false, st)
    else
      return (true, st)

/-- Find sectors for `count` new headers; the free map is written back after each. -/
def findHeaderSectors : Nat → List Nat → Bitmap → Fs (List Nat × Bitmap)
  | 0, sectors, freeMap => return (sectors, freeMap)
  | count + 1, sectors, freeMap => do
    let r := freeMap.find
    writeBackFreeMap r.2
    findHeaderSectors count (sectors ++ [r.1.getD (2 ^ 32 - 1)]) r.2

/-- Put the new header `hdr` at `sector` behind the header in memory, which stands on disk at `prev`,
and go on at its beginning. -/
def linkHeader (f : FileId) (prev sector : Nat) (hdr : RawFileHeader) (freeMap : Bitmap) :
    Fs Unit := do
  writeBackFreeMap freeMap
  writeSector sector hdr.toSector
  modifyFile f fun file => { file with hdr := { file.hdr with nextFileHeader := sector } }
  let file ← getFile f
  writeSector prev file.hdr.toSector
  modifyFile f fun file => { file with hdr := hdr, seekPosition := 0 }

/-- The bytes that the next appended header takes: what is left to write, at most a whole header, and
at most what the free sectors can hold. -/
def bytesToAppend (st : Writing) : Nat :=
  let bytesToAllocate := min st.data.length maxHeaderBytes
  if st.freeMap.countClear < divRoundUp bytesToAllocate sectorSize then
    st.freeMap.countClear * sectorSize
  else
    bytesToAllocate

/-- The loop that appends headers behind the one at `prev`; the answer is the sector of the last
header. The header sectors that were not used are cleared in the copy of the free map only, which is
not written back. -/
def writeMore (f : FileId) : Nat → List Nat → Writing → Fs (Nat × Writing)
  | prev, [], st => return (prev, st)
  | prev, sector :: sectors, st => do
    let heap ← malloc .header
    let bytesToAllocate := bytesToAppend st
    if bytesToAllocate > 0 then do
      let (success, hdr, freeMap) ←
        ofOption ((RawFileHeader.empty heap).allocate st.freeMap bytesToAllocate)
      if success then do
        linkHeader f prev sector hdr freeMap
        let st ← writeChunk f bytesToAllocate { st with freeMap := freeMap }
        writeMore f sector sectors st
      else
        return (prev, { st with freeMap := freeMap })
    else
      return (prev, st)

/-- `Write` in new headers, appended to the file. -/
def writeAppend (f : FileId) (st : Writing) : Fs Writing := do
  let totalSectors := divRoundUp st.data.length sectorSize
  let fileHeaderSectors := divRoundUp totalSectors numDirect
  if st.freeMap.countClear < fileHeaderSectors then
    return st
  else do
    let (sectors, freeMap) ← findHeaderSectors fileHeaderSectors [] st.freeMap
    let heap ← malloc .header
    let bytesToAllocate := min st.data.length maxHeaderBytes
    let (success, firstHeader, freeMap) ←
      ofOption ((RawFileHeader.empty heap).allocate freeMap bytesToAllocate)
    if success then do
      let first ← ofOption sectors.head?
      let file ← getFile f
      linkHeader f file.currentSector first firstHeader freeMap
      let st ← writeChunk f bytesToAllocate { st with freeMap := freeMap }
      let (last, st) ← writeMore f first sectors.tail st
      modifyFile f fun file => { file with currentSector := last }
      return st
    else
      return { st with freeMap := freeMap }

/-- `Write` after the free map has been fetched, up to the release of the write lock. -/
def writeBody (f : FileId) (bytesToWrite : Nat) (st : Writing) : Fs Writing := do
  let (success, st) ← writeCurrent f bytesToWrite st
  if success then do
    let file ← getFile f
    let (success, st) ← writeNext f (st.data.length + 1) file.hdr.nextFileHeader st
    if success ∧ st.data ≠ [] then writeAppend f st else return st
  else
    return st

/-- A directory is always written from its first header on. -/
def rewindWrite (f : FileId) (isDirectory : Bool) : Fs Unit :=
  if isDirectory then
    modifyFile f fun file => { file with seekPosition := 0, currentSector := file.sector }
  else
    return ()

/-- `Write`: the number of bytes written. -/
def write (me : Tid) (f : FileId) (data : List UInt8) (isDirectory : Bool) : Fs Nat := do
  assert (decide (0 < data.length))
  let file ← getFile f
  let e ← getEntry file.sector
  acquire me e.writeLock
  rewindWrite f isDirectory
  let file ← getFile f
  fetchHdr f file.currentSector
  let file ← getFile f
  let maxBytesToWrite := u32 (maxHeaderBytes + 2 ^ 32 - file.seekPosition)
  let bytesToWrite := min data.length maxBytesToWrite
  let freeMap ← fetchFreeMap
  let st ← writeBody f bytesToWrite { freeMap := freeMap, data := data, result := 0 }
  let e ← getEntry file.sector
  release me e.writeLock
  return st.result

end Nachos.Filesys
