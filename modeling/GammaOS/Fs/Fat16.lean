import GammaOS.CString
import GammaOS.Fs.Fat16Read
import GammaOS.Fs.Vfs

namespace GammaOS.Fs

open Function Foundation Foundation.Program Memory

def fat16Signature : ℕ := 0x29
def fat16FileSubdirectory : UInt8 := 0x10

structure Fat16File where
  name : List UInt8
  extention : List UInt8
  attributes : UInt8
  high16BitsOfFirstCluster : ℕ
  low16BitsOfFirstCluster : ℕ
  size : ℕ

def Fat16File.ofBytes (b : ByteMemory) : Fat16File where
  name := (List.range 8).map b
  extention := (List.range 3).map (fun i ↦ b (8 + i))
  attributes := b 11
  high16BitsOfFirstCluster := b.load16 20
  low16BitsOfFirstCluster := b.load16 26
  size := b.load32 28

def Fat16File.firstCluster (f : Fat16File) : ℕ :=
  f.low16BitsOfFirstCluster ||| f.high16BitsOfFirstCluster

def Fat16File.isDirectory (f : Fat16File) : Bool := f.attributes &&& fat16FileSubdirectory != 0

/-- `struct fat16_unit`, a union by its type. The directory or the file comes
with its address, none where it is null. -/
inductive UnitContent
  | directory (dir : Option (ℕ × Fat16Directory))
  | file (file : Option (ℕ × Fat16File))

structure Fat16Unit where
  addr : ℕ
  content : UnitContent

structure Fat16FileDescriptor where
  unit : Fat16Unit
  filePosition : ℕ

abbrev Fat16Files := ℕ → Option Fat16FileDescriptor

/-- A disk with what `fat16_resolve` keeps of it. -/
structure Fat16Volume where
  disk : Disk
  pd : Fat16PrivateData

def fat16ToProperString (bytes : List UInt8) : List UInt8 :=
  bytes.takeWhile (fun c ↦ decide (c ≠ 0 ∧ c ≠ 0x20))

def fat16GetFullRelativeName (f : Fat16File) : List UInt8 :=
  fat16ToProperString f.name ++
    if f.extention.headD 0 ≠ 0 ∧ f.extention.headD 0 ≠ 0x20 then
      46 :: fat16ToProperString f.extention
    else []

def totalFilesLoop (disk : Disk) : ℕ → ℕ → ℕ → Except Fault ℕ
  | 0, _, _ => .error .loop
  | n + 1, pos, totalFiles =>
    let tempFile := diskStreamRead disk pos 32
    let first := tempFile.bytes.getD 0 0
    if first = 0 then .ok totalFiles
    else if first = 0xE5 then totalFilesLoop disk n tempFile.pos totalFiles
    else totalFilesLoop disk n tempFile.pos (u32 (totalFiles + 1))

/-- There are `2 ^ 27` positions for an entry: a loop that has found no end at
any of them goes on forever. -/
def fat16TotalFilesInDirectory (disk : Disk) (firstSector : ℕ) : Except Fault ℕ :=
  totalFilesLoop disk (2 ^ 27 + 1) (u32 (firstSector * sectorSize)) 0

variable {σ : Type} [Allocator σ]

def fat16LoadDirectory (v : Fat16Volume) (file : Fat16File) :
    ArenaM σ (Option (ℕ × Fat16Directory)) := do
  let dir ← kzalloc 16
  if dir = 0 then pure none
  else if ¬ file.isDirectory then do
    kfree dir
    pure none
  else do
    let firstSector := fat16ClusterToSector v.pd file.firstCluster
    let totalFiles ← ofExcept (fat16TotalFilesInDirectory v.disk firstSector)
    let directorySize := u32 (totalFiles * 32)
    let files ← kzalloc directorySize
    if files = 0 then pure none
    else do
      let (status, bytes) ←
        ofExcept (fat16ReadFromDisk v.disk v.pd file.firstCluster 0 directorySize)
      modifyState (fun s ↦ { s with mem := s.mem.writeBytes files bytes })
      if status < 0 then do
        kfree files
        pure none
      else pure (some (dir, ⟨files, bytes, totalFiles, firstSector, 0⟩))

def fat16CloneFile (file : Fat16File) : ArenaM σ (Option (ℕ × Fat16File)) := do
  let fileCopy ← kzalloc 32
  if fileCopy = 0 then pure none else pure (some (fileCopy, file))

def fat16NewFatUnitForDirectoryUnit (v : Fat16Volume) (file : Fat16File) :
    ArenaM σ (Option Fat16Unit) := do
  let unit ← kzalloc 8
  if unit = 0 then pure none
  else if file.isDirectory then do
    let dir ← fat16LoadDirectory v file
    pure (some ⟨unit, .directory dir⟩)
  else do
    let file ← fat16CloneFile file
    pure (some ⟨unit, .file file⟩)

/-- Entry `i` of the array of a directory, with the bytes of `alien` behind its end. -/
def Fat16Directory.fileAt (dir : Fat16Directory) (alien : ByteMemory) (i : ℕ) : Fat16File :=
  .ofBytes (fun k ↦ (dir.image[32 * i + k]?).getD (alien (dir.files + 32 * i + k)))

def sameName (file : Fat16File) (unitStr : List UInt8) : Bool :=
  strncmp (zeroPadded (fat16GetFullRelativeName file)) (zeroPadded unitStr)
    fsMaxPathUnitLength == 0

/-- The loop of `fat16_find_unit_in_directory` with `n` entries left. It goes on
behind a match, so the last match counts. -/
def findUnitLoop (v : Fat16Volume) (alien : ByteMemory) (dir : Fat16Directory)
    (unitStr : Option UnitStr) : ℕ → ℕ → Option Fat16Unit → ArenaM σ (Option Fat16Unit)
  | 0, _, unit => pure unit
  | n + 1, dirUnit, unit =>
    match unitStr with
    | none => fault Fault.nullDeref
    | some str => do
      if sameName (dir.fileAt alien dirUnit) str.str then do
        let unit ← fat16NewFatUnitForDirectoryUnit v (dir.fileAt alien dirUnit)
        findUnitLoop v alien dir unitStr n (dirUnit + 1) unit
      else findUnitLoop v alien dir unitStr n (dirUnit + 1) unit

def fat16FindUnitInDirectory (v : Fat16Volume) (alien : ByteMemory) (dir : Fat16Directory)
    (unitStr : Option UnitStr) : ArenaM σ (Option Fat16Unit) :=
  findUnitLoop v alien dir unitStr dir.totalFiles 0 none

def getUnitLoop (v : Fat16Volume) (alien : ByteMemory) :
    List UnitStr → Option Fat16Unit → ArenaM σ (Option Fat16Unit)
  | [], currentUnit => pure currentUnit
  | nextPathUnit :: rest, currentUnit =>
    match currentUnit with
    | none => fault Fault.nullDeref
    | some unit =>
      match unit.content with
      | .file _ => pure none
      | .directory none => fault Fault.nullDeref
      | .directory (some (_, dir)) => do
        let tempUnit ← fat16FindUnitInDirectory v alien dir (some nextPathUnit)
        getUnitLoop v alien rest tempUnit

def fat16GetUnit (v : Fat16Volume) (alien : ByteMemory) (path : Path) :
    ArenaM σ (Option Fat16Unit) := do
  match ← fat16FindUnitInDirectory v alien v.pd.root path.first with
  | none => pure none
  | some root => getUnitLoop v alien path.rest (some root)

def setHandle (p : ℕ) (fd : Option Fat16FileDescriptor) : DriveM σ Fat16Files Unit :=
  modifyState (fun s ↦ { s with files := update s.files p fd })

def fat16Open (v : Fat16Volume) (alien : ByteMemory) (path : Path) (mode : UInt8) :
    DriveM σ Fat16Files ℕ := do
  if mode ≠ modeRead then pure 0
  else do
    let fd ← onArena (kzallocUnchecked 8)
    match ← onArena (fat16GetUnit v alien path) with
    | none => do
      onArena (kfree fd)
      pure 0
    | some unit => do
      setHandle fd (some ⟨unit, 0⟩)
      pure fd

def handleAt (p : ℕ) : DriveM σ Fat16Files Fat16FileDescriptor := fun s ↦
  match s.files p with
  | none => .error .dangling
  | some fd => .ok (fd, s)

def readMembers (v : Fat16Volume) (file : Fat16File) (size : ℕ) :
    ℕ → ℕ → ℕ → ℕ → ArenaM σ ℕ
  | 0, _, _, membersReadSuccessfully => pure membersReadSuccessfully
  | n + 1, offset, out, membersReadSuccessfully => do
    let (status, bytes) ← ofExcept (fat16ReadFromDisk v.disk v.pd file.firstCluster offset size)
    modifyState (fun s ↦ { s with mem := s.mem.writeBytes out bytes })
    if status < 0 then pure membersReadSuccessfully
    else
      readMembers v file size n (u32 (offset + size)) (u32 (out + size))
        (membersReadSuccessfully + 1)

/-- The count of the members is a signed 32-bit value. -/
def fat16Read (v : Fat16Volume) (handle size nmemb out : ℕ) : DriveM σ Fat16Files ℤ := do
  let fd ← handleAt handle
  match fd.unit.content with
  | .directory _ => pure (-errInvarg)
  | .file none => if nmemb = 0 then pure 0 else fault Fault.nullDeref
  | .file (some (_, file)) => do
    let membersReadSuccessfully ← onArena (readMembers v file size nmemb fd.filePosition out 0)
    pure (toInt32 membersReadSuccessfully)

def fat16Seek (handle offset seekMode : ℕ) : DriveM σ Fat16Files ℤ := do
  let fd ← handleAt handle
  match fd.unit.content with
  | .directory _ => pure (-errInvarg)
  | .file none => fault Fault.nullDeref
  | .file (some (_, file)) =>
    if file.size ≤ offset then pure (-errInvarg)
    else if seekMode = seekSet then do
      setHandle handle (some { fd with filePosition := offset })
      pure 0
    else if seekMode = seekCur then do
      setHandle handle (some { fd with filePosition := u32 (fd.filePosition + offset) })
      pure 0
    else if seekMode = seekEnd then pure (-1)
    else pure (-errInvarg)

def fat16Stat (handle : ℕ) : DriveM σ Fat16Files (ℤ × Option FileStat) := do
  let fd ← handleAt handle
  match fd.unit.content with
  | .directory _ => pure (-errInvarg, none)
  | .file none => fault Fault.nullDeref
  | .file (some (_, file)) => pure ((success : ℤ), some ⟨file.size, file.attributes.toNat⟩)

def fat16DestroyDirectory : Option (ℕ × Fat16Directory) → ArenaM σ Unit
  | none => pure ()
  | some (addr, dir) => do
    if dir.files ≠ 0 then kfree dir.files
    kfree addr

def fat16DestroyUnit (unit : Fat16Unit) : ArenaM σ Unit := do
  match unit.content with
  | .directory dir => fat16DestroyDirectory dir
  | .file file => kfree (file.elim 0 Prod.fst)
  kfree unit.addr

def fat16Close (handle : ℕ) : DriveM σ Fat16Files ℤ := do
  let fd ← handleAt handle
  onArena (fat16DestroyUnit fd.unit)
  onArena (kfree handle)
  setHandle handle none
  pure success

def fat16 (v : Fat16Volume) : Filesystem σ Fat16Files where
  fsOpen := fat16Open v
  fsRead := fat16Read v
  fsSeek := fat16Seek
  fsClose := fat16Close
  fsStat := fat16Stat

def Fat16Header.ofBytes (b : ByteMemory) : Fat16Header where
  sectorsPerCluster := (b 13).toNat
  reservedSectors := b.load16 14
  fatCopies := (b 16).toNat
  rootDirEntries := b.load16 17
  sectorsPerFat := b.load16 22
  signature := (b 38).toNat

def diskStreamNew : ArenaM σ ℕ := kzallocUnchecked 4

def fat16GetRoot (disk : Disk) (header : Fat16Header) : ArenaM σ (Option Fat16Directory) := do
  let rootSector := u32 (header.fatCopies * header.sectorsPerFat + header.reservedSectors)
  let rootSize := header.rootDirEntries * 32
  let rootSectorsOccupied :=
    rootSize / sectorSize + if rootSize % sectorSize ≠ 0 then 1 else 0
  let rootFile ← kzalloc rootSize
  let rootStreamer ← diskStreamNew
  if rootFile = 0 then pure none
  else do
    let image := (diskStreamRead disk (u32 (rootSector * sectorSize)) rootSize).bytes
    modifyState (fun s ↦ { s with mem := s.mem.writeBytes rootFile image })
    let totalFiles ← ofExcept (fat16TotalFilesInDirectory disk rootSector)
    kfree rootStreamer
    pure (some ⟨rootFile, image, totalFiles, rootSector,
      subU32 (u32 (rootSector + rootSectorsOccupied)) 1⟩)

def fat16Resolve (disk : Disk) : ArenaM σ (Option Fat16PrivateData) := do
  let fat16Private ← kzallocUnchecked 92
  let _ ← diskStreamNew
  let _ ← diskStreamNew
  let _ ← diskStreamNew
  let fat16Streamer ← diskStreamNew
  let header := Fat16Header.ofBytes (zeroPadded (diskStreamRead disk 0 62).bytes)
  if header.signature ≠ fat16Signature then do
    kfree fat16Streamer
    kfree fat16Private
    pure none
  else
    match ← fat16GetRoot disk header with
    | none => do
      kfree fat16Streamer
      kfree fat16Private
      pure none
    | some root => do
      kfree fat16Streamer
      pure (some ⟨header, root⟩)

end GammaOS.Fs
