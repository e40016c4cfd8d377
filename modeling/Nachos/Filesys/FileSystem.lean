import Nachos.Filesys.Directory

/-!
# The file system

`FileSystem` of `filesys/file_system.cc`: formatting, `Create`, `CreateDir`, `Open`, `ChangeDir` and
`Remove`. The calls follow the source up to the order of their disk requests; `me` is the thread that
makes the call.
-/

namespace Nachos.Filesys

open Foundations Resumption

/-- `FREE_MAP_SECTOR`. -/
def freeMapSector : Nat := 0

/-- `DIRECTORY_SECTOR`. -/
def directorySector : Nat := 1

/-- `FREE_MAP_FILE_SIZE`. -/
def freeMapFileSize : Nat := numSectors / 8

/-- `DIRECTORY_FILE_SIZE`. -/
def directoryFileSize : Nat := dirEntrySize * numDirEntries

/-- `FILE_PATH_MAX_LEN`. -/
def filePathMaxLen : Nat := 150

/-- `MAX_DIR_LEVEL`. -/
def maxDirLevel : Nat := 10

/-- The character `/`. -/
def slash : UInt8 := 47

/-! ## Formatting -/

/-- Allocate the data of one of the two files of an empty disk; it has to succeed. -/
def allocateSystemFile (heap : ByteMemory) (freeMap : Bitmap) (size : Nat) :
    Option (RawFileHeader × Bitmap) := do
  let (success, hdr, freeMap) ← (RawFileHeader.ofMemory heap).allocate freeMap size
  if success then some ({ hdr with nextFileHeader := 0 }, freeMap) else none

/-- The constructor `FileSystem(true)`. -/
def format : Fs Unit := do
  let freeMap := ((Bitmap.new numSectors fun _ => 0).mark freeMapSector).mark directorySector
  let dir ← Directory.new numDirEntries
  let mapHeap ← malloc .header
  let dirHeap ← malloc .header
  let (mapH, freeMap) ← ofOption (allocateSystemFile mapHeap freeMap freeMapFileSize)
  let (dirH, freeMap) ← ofOption (allocateSystemFile dirHeap freeMap directoryFileSize)
  writeSector freeMapSector mapH.toSector
  writeSector directorySector dirH.toSector
  let freeMapFile ← newOpenFile freeMapSector
  modifyState fun w => { w with freeMapFile := freeMapFile }
  let directoryFile ← newOpenFile directorySector
  modifyState fun w => { w with directoryFile := directoryFile }
  writeBackFreeMap freeMap
  dir.writeBackFirst directoryFile
  -- the number of entries that the directory of `NUM_DIR_ENTRIES` entries reads back
  let bs ← read directoryFile (numDirEntries * dirEntrySize) true
  modifyState fun w => { w with directorySize := bs.length / dirEntrySize }

/-- The constructor `FileSystem(false)`: the disk has been formatted before. -/
def mount : Fs Unit := do
  let freeMapFile ← newOpenFile freeMapSector
  modifyState fun w => { w with freeMapFile := freeMapFile }
  let directoryFile ← newOpenFile directorySector
  modifyState fun w => { w with directoryFile := directoryFile }
  let tableSize ← Directory.fetchTableSize directoryFile
  modifyState fun w => { w with directorySize := tableSize }

/-! ## Looking up -/

/-- `new Directory(directorySize)` and `FetchFrom(directoryFile)`: the current directory. -/
def fetchDirectory : Fs Directory := do
  let w ← getState
  let dir ← Directory.new w.directorySize
  let w ← getState
  dir.fetchFrom w.directoryFile

/-- Open the file of a sector found in a directory, unless it is being removed. -/
def openSector (sector : Nat) : Fs (Option FileId) := do
  let e ← getEntry sector
  if e.removing then
    return none
  else do
    let f ← newOpenFile sector
    return some f

/-- `Open`: the new `OpenFile`, or null. -/
def openFile (name : Name) : Fs (Option FileId) := do
  let dir ← fetchDirectory
  let sector := dir.find name
  if 0 ≤ sector then openSector sector.toNat else return none

/-! ## Changing the directory -/

/-- The text that `sprintf` prints for a null pointer. -/
def nullName : Name := [40, 110, 117, 108, 108, 41]

/-- `SeparateDir`: the pieces of a path, at most `MAX_DIR_LEVEL`, with a null pointer printed behind
the last one if there is room. -/
def separateDir (name : Name) : List Name :=
  (((name.splitOn slash).filter (· ≠ [])) ++ [nullName]).take maxDirLevel

/-- Make `f` the current directory in place of `old`, which is deleted. -/
def switchDirectory (me : Tid) (f old : FileId) : Fs Unit := do
  modifyState fun w => { w with directoryFile := f }
  deleteOpenFile me old
  let w ← getState
  let tableSize ← Directory.fetchTableSize w.directoryFile
  modifyState fun w => { w with directorySize := tableSize }

/-- The loop of `ChangeDirRootPath` over the pieces of the path; `currDir` is the table of the
directory reached so far. -/
def walkPath (me : Tid) : List Name → Directory → Fs Bool
  | [], _ => return true
  | name :: names, currDir =>
    if currDir.findDir name then do
      let w ← getState
      let opened ← openFile name
      let f ← ofOption opened
      switchDirectory me f w.directoryFile
      let currDir ← fetchDirectory
      walkPath me names currDir
    else
      return false

/-- Drop the directory that was current before, if the call is only to change it. -/
def dropBackup (me : Tid) (backup : FileId) (onlyChange : Bool) : Fs Unit :=
  if onlyChange then deleteOpenFile me backup else return ()

/-- `ChangeDirRootPath`. -/
def changeDirRootPath (me : Tid) (name : Name) (onlyChange : Bool) : Fs Bool := do
  -- the pieces are copied to buffers of this size
  assert (decide (name.tail.length < filePathMaxLen))
  let backup ← getState
  let root ← newOpenFile directorySector
  let tableSize ← Directory.fetchTableSize root
  let currDir ← Directory.new tableSize
  let currDir ← currDir.fetchFrom root
  modifyState fun w => { w with directoryFile := root, directorySize := tableSize }
  let success ← walkPath me (separateDir name.tail).dropLast currDir
  if success then do
    dropBackup me backup.directoryFile onlyChange
    return true
  else do
    modifyState fun w =>
      { w with directoryFile := backup.directoryFile, directorySize := backup.directorySize }
    return false

/-- `ChangeDirRelativePath`. -/
def changeDirRelativePath (me : Tid) (name : Name) : Fs Bool := do
  let dir ← fetchDirectory
  if dir.findDir name then do
    let opened ← openFile name
    let f ← ofOption opened
    let w ← getState
    switchDirectory me f w.directoryFile
    return true
  else
    return false

/-- `ChangeDir`. -/
def changeDir (me : Tid) (name : Name) (onlyChange : Bool) : Fs Bool :=
  if name.head? = some slash then
    changeDirRootPath me name onlyChange
  else
    changeDirRelativePath me name

/-! ## Paths -/

/-- `LastSlash`: the index of the last slash of a path, 0 if there is none after the first
character. -/
def lastSlash (name : Name) : Nat :=
  (List.range name.length).foldl (fun last i => if 0 < i ∧ name[i]? = some slash then i else last) 0

/-- The beginning of `Create`, `CreateDir` and `Remove`: an absolute path changes to the directory of
the file. The answer is the directory file to go back to and the last piece of the path, or nothing
when the call returns false. -/
def resolvePath (me : Tid) (name : Name) : Fs (Option (Option FileId × Name)) :=
  if name.head? = some slash then
    if name.tail = [] then
      return none
    else do
      assert (decide (name.length < filePathMaxLen))
      let last := lastSlash name
      let w ← getState
      let success ← changeDir me (if last = 0 then [slash] else name.take last) false
      if success then
        return some (some w.directoryFile, name.drop (last + 1))
      else
        return none
  else
    return some (none, name)

/-- Go back to the directory before the call, if it had changed. -/
def restoreDirectory (me : Tid) : Option FileId → Fs Unit
  | none => return ()
  | some backup => do
    let w ← getState
    switchDirectory me backup w.directoryFile

/-! ## Creating -/

/-- Reset the open-file table for a new file. -/
def resetEntry (sector : Nat) (madeByCreate : Bool) : Fs Unit := do
  let removeLock ← newLock
  modifyEntry sector fun e =>
    { e with
      removed := false
      removing := false
      removeLock := some removeLock
      writeLock := none
      closeLock := none
      count := 0
      madeByCreate := madeByCreate }

/-- Write back the current directory. -/
def writeBackDirectory (me : Tid) (dir : Directory) : Fs Unit := do
  let w ← getState
  dir.writeBack me w.directoryFile

/-- `Create` once its directory entry is made in memory: flush header, free map and directory. -/
def flushNewFile (me : Tid) (sector : Nat) (freeMap : Bitmap) (dir : Directory) : Fs Unit := do
  let heap ← malloc .header
  writeSector sector (RawFileHeader.empty heap).toSector
  writeBackFreeMap freeMap
  writeBackDirectory me dir
  resetEntry sector true

/-- `Create` in the current directory. -/
def createFile (me : Tid) (name : Name) : Fs Bool := do
  let dir ← fetchDirectory
  if dir.find name ≠ -1 then
    return false
  else do
    let freeMap ← fetchFreeMap
    match freeMap.find with
    | (none, _) => return false
    | (some sector, freeMap) => do
      let (added, dir) ← dir.add name sector false
      if added then do
        flushNewFile me sector freeMap dir
        return true
      else
        return false

/-- `Create`. -/
def create (me : Tid) (name : Name) : Fs Bool := do
  acquire me (some filesysCreateLock)
  let path ← resolvePath me name
  match path with
  | none => do
    release me (some filesysCreateLock)
    return false
  | some (backup, name) => do
    let success ← createFile me name
    restoreDirectory me backup
    release me (some filesysCreateLock)
    return success

/-- `CreateDir` once its directory entry is made in memory and its header has its sectors. The
`OpenFile` of the new directory is never deleted. -/
def flushNewDirectory (me : Tid) (sector : Nat) (hdr : RawFileHeader) (freeMap : Bitmap)
    (dir : Directory) : Fs Unit := do
  writeSector sector hdr.toSector
  writeBackFreeMap freeMap
  let newDir ← Directory.new numDirEntries
  let newDirectoryFile ← newOpenFile sector
  newDir.writeBackFirst newDirectoryFile
  writeBackDirectory me dir
  resetEntry sector false

/-- `CreateDir` in the current directory; `none` when it returns false at once. -/
def createDirectory (me : Tid) (name : Name) : Fs (Option Bool) := do
  let dir ← fetchDirectory
  if dir.find name ≠ -1 then
    return some false
  else do
    let freeMap ← fetchFreeMap
    let found := freeMap.find
    -- the entry is added in memory also when there is no sector
    let (added, dir) ← dir.add name (found.1.getD (2 ^ 32 - 1)) true
    match added, found with
    | true, (some sector, freeMap) => do
      let heap ← malloc .header
      let (success, hdr, freeMap) ←
        ofOption ((RawFileHeader.empty heap).allocate freeMap directoryFileSize)
      if success then do
        flushNewDirectory me sector hdr freeMap dir
        return some true
      else
        return none
    | _, _ => return some false

/-- `CreateDir`. -/
def createDir (me : Tid) (name : Name) : Fs Bool := do
  acquire me (some filesysCreateLock)
  let path ← resolvePath me name
  match path with
  | none => do
    release me (some filesysCreateLock)
    return false
  | some (backup, name) => do
    let result ← createDirectory me name
    match result with
    | none => do
      -- not enough space: the current directory is not restored
      release me (some filesysCreateLock)
      return false
    | some success => do
      restoreDirectory me backup
      release me (some filesysCreateLock)
      return success

/-! ## Removing -/

/-- Acquire the remove lock of a file, if it has one. -/
def acquireRemove (me : Tid) : Option LockId → Fs Unit
  | none => return ()
  | some l => acquire me (some l)

/-- Release the remove lock of a file, if it has one. -/
def releaseRemove (me : Tid) : Option LockId → Fs Unit
  | none => return ()
  | some l => release me (some l)

/-- Wait for the last close of the file, if it is open. -/
def waitForClose (me : Tid) (sector : Nat) : Fs Unit := do
  let e ← getEntry sector
  if e.count > 0 then do
    let msg ← channelReceive me
    assert (msg == 0)
  else
    return ()

/-- Free the header `h` at `sector` and the headers behind it, with their data sectors. -/
def freeHeaders : Nat → Nat → RawFileHeader → Bitmap → Fs Bitmap
  | 0, _, _, _ => fail
  | fuel + 1, sector, h, freeMap => do
    let freeMap ← ofOption (h.deallocate freeMap)
    let freeMap := freeMap.clear sector
    if h.nextFileHeader ≠ 0 then do
      let s ← readSector h.nextFileHeader
      freeHeaders fuel h.nextFileHeader (RawFileHeader.ofSector s) freeMap
    else
      return freeMap

/-- `Remove` of the file at `sector` once its remove lock is taken. -/
def removeSector (me : Tid) (sector : Nat) (name : Name) (dir : Directory) : Fs Unit := do
  let fileH ← readSector sector
  let freeMap ← fetchFreeMap
  modifyEntry sector fun e => { e with removing := true, removerSpaceId := me }
  waitForClose me sector
  let freeMap ← freeHeaders (numSectors + 1) sector (RawFileHeader.ofSector fileH) freeMap
  writeBackFreeMap freeMap
  writeBackDirectory me (dir.remove name)
  modifyEntry sector fun e => { e with removed := true }
  let e ← getEntry sector
  releaseRemove me e.removeLock
  modifyEntry sector fun e => { e with removing := false }

/-- `Remove` in the current directory. -/
def removeFile (me : Tid) (backup : Option FileId) (name : Name) : Fs Bool := do
  let dir ← fetchDirectory
  let found := dir.find name
  if found = -1 then do
    restoreDirectory me backup
    return false
  else do
    let sector := (found % 2 ^ 32).toNat
    let e ← getEntry sector
    acquireRemove me e.removeLock
    let e ← getEntry sector
    if e.removed then do
      restoreDirectory me backup
      let e ← getEntry sector
      release me e.removeLock
      return false
    else do
      removeSector me sector name dir
      restoreDirectory me backup
      return true

/-- `Remove`. -/
def remove (me : Tid) (name : Name) : Fs Bool := do
  let path ← resolvePath me name
  match path with
  | none => return false
  | some (backup, name) => removeFile me backup name

end Nachos.Filesys
