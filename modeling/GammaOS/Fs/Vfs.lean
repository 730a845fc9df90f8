import GammaOS.Fs.Parser

namespace GammaOS.Fs

open Function Foundation Foundation.Program Memory

def fsTotalFileDescriptors : ℕ := 1024

/-! The modes of `vfs_fopen` and the values of `whence` that the source tests. -/

def modeRead : UInt8 := 114
def modeInvalid : UInt8 := 98
def seekSet : ℕ := 0
def seekCur : ℕ := 1
def seekEnd : ℕ := 2

structure FileStat where
  size : ℕ
  flags : ℕ

/-- The heap and the memory, and the objects that a driver keeps on the heap. -/
structure Drive (σ δ : Type) where
  arena : Arena σ
  files : δ

abbrev DriveM (σ δ : Type) := Program Fault (Drive σ δ)

/-- `struct filesystem`: the operations of a driver on the disk it is mounted on.
`fsOpen` returns the address of a handle, and is told what it finds behind the
buffers it reads past; `fsStat` returns with its status what it stored. -/
structure Filesystem (σ δ : Type) where
  fsOpen : ByteMemory → Path → UInt8 → DriveM σ δ ℕ
  fsRead : ℕ → ℕ → ℕ → ℕ → DriveM σ δ ℤ
  fsSeek : ℕ → ℕ → ℕ → DriveM σ δ ℤ
  fsClose : ℕ → DriveM σ δ ℤ
  fsStat : ℕ → DriveM σ δ (ℤ × Option FileStat)

structure FileDescriptor (σ δ : Type) where
  index : ℕ
  fs : Filesystem σ δ
  fsFileDescriptor : ℕ

structure Vfs (σ δ : Type) where
  drive : Drive σ δ
  fdList : ℕ → Option (FileDescriptor σ δ)
  disks : UInt8 → Option (Filesystem σ δ)

abbrev VfsM (σ δ : Type) := Program Fault (Vfs σ δ)

variable {σ δ α : Type} [Allocator σ]

def onArena (m : ArenaM σ α) : DriveM σ δ α :=
  onPart Drive.arena (fun a s ↦ { s with arena := a }) m

def onDrive (m : DriveM σ δ α) : VfsM σ δ α :=
  onPart Vfs.drive (fun d s ↦ { s with drive := d }) m

def Vfs.setFd (s : Vfs σ δ) (index : ℕ) (fd : Option (FileDescriptor σ δ)) : Vfs σ δ :=
  { s with fdList := update s.fdList index fd }

def freeIndexLoop (fdList : ℕ → Option (FileDescriptor σ δ)) : ℕ → ℕ → Option ℕ
  | 0, _ => none
  | n + 1, index =>
    if (fdList index).isNone then some index else freeIndexLoop fdList n (index + 1)

def Vfs.freeIndex (s : Vfs σ δ) : Option ℕ := freeIndexLoop s.fdList fsTotalFileDescriptors 0

def Vfs.fileDescriptor (s : Vfs σ δ) (fd : ℕ) : Option (FileDescriptor σ δ) :=
  if fd < fsTotalFileDescriptors then s.fdList fd else none

def vfsGetFileDescriptor (fd : ℕ) : VfsM σ δ (Option (FileDescriptor σ δ)) :=
  gets (fun s ↦ s.fileDescriptor fd)

/-- Takes the two fields that `vfs_fopen` fills in. -/
def vfsNewFileDescriptor (fs : Filesystem σ δ) (fileData : ℕ) : VfsM σ δ (Option ℕ) := do
  match ← gets Vfs.freeIndex with
  | none => pure none
  | some index => do
    let _ ← onDrive (onArena (kzallocUnchecked 16))
    modifyState (fun s ↦ s.setFd index (some ⟨index, fs, fileData⟩))
    pure (some index)

def vfsFopen (alien : ByteMemory) (filename : List UInt8) (mode : UInt8) : VfsM σ δ ℤ := do
  if mode = modeInvalid then pure (-errFsInvFileMode)
  else
    match ← onDrive (onArena (parsePath alien filename)) with
    | none => fault Fault.nullDeref
    | some filePath => do
      if filePath.driveId < 65 ∨ filePath.driveId > 90 then pure (-errFsFopenFailed)
      else
        match ← gets (fun s ↦ s.disks filePath.driveId) with
        | none => fault Fault.nullDeref
        | some fs => do
          let fileData ← onDrive (fs.fsOpen alien filePath mode)
          if fileData = 0 then pure (-errFsFopenFailed)
          else
            match ← vfsNewFileDescriptor fs fileData with
            | none => pure (-errFsFopenFailed)
            | some index => pure index

def vfsFread (dest size nmemb : ℕ) (fd : ℤ) : VfsM σ δ ℤ := do
  if fd < 0 ∨ fd ≥ fsTotalFileDescriptors then pure (-errInvarg)
  else
    match ← vfsGetFileDescriptor (ofInt32 fd) with
    | none => pure (-errFdNotFound)
    | some d => do
      let _ ← onDrive (d.fs.fsRead d.fsFileDescriptor size nmemb dest)
      pure success

def vfsFseek (fd : ℤ) (offset whence : ℕ) : VfsM σ δ ℤ := do
  match ← vfsGetFileDescriptor (ofInt32 fd) with
  | none => pure (-errFdNotFound)
  | some d => do
    let _ ← onDrive (d.fs.fsSeek d.fsFileDescriptor offset whence)
    pure success

def vfsFclose (fd : ℤ) : VfsM σ δ ℤ := do
  match ← vfsGetFileDescriptor (ofInt32 fd) with
  | none => pure (-errFdNotFound)
  | some d => do
    modifyState (fun s ↦ s.setFd d.index none)
    let _ ← onDrive (d.fs.fsClose d.fsFileDescriptor)
    pure success

/-- Returns with its status what the driver stored in the caller's `file_stat`. -/
def vfsFstat (fd : ℤ) : VfsM σ δ (ℤ × Option FileStat) := do
  match ← vfsGetFileDescriptor (ofInt32 fd) with
  | none => pure (-errFdNotFound, none)
  | some d => do
    let (_, stat) ← onDrive (d.fs.fsStat d.fsFileDescriptor)
    pure ((success : ℤ), stat)

end GammaOS.Fs
