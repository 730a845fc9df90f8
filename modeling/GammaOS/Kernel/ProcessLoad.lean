import GammaOS.Fs.ReadSeek
import GammaOS.Loader.GLoader

namespace GammaOS.Kernel

open Function Foundation Foundation.Program Memory Fs Loader

/-- The data of a process, by its `file_type`: the ELF file, or the buffer of a
raw binary with its size. -/
inductive ProcessData
  | elf (elfData : ElfFile)
  | bin (rawData size : ℕ)

/-- What `process_new` finds in memory that it reads without having written it:
in its two loads, and outside the ELF file when `init_task` reads the entry
point and when a program header is mapped. -/
structure ProcessEnv where
  elf : LoadEnv
  bin : LoadEnv
  entry : ByteMemory
  mapped : ℕ → ByteMemory

variable {σ δ : Type} [Allocator σ]

def processLoadBinary (env : LoadEnv) (filename : List UInt8) :
    VfsM σ δ (ℤ × Option ProcessData) := do
  let fd ← vfsFopen env.path filename modeRead
  if fd < 0 then pure (-errProcessLoadFail, none)
  else do
    let (status, stat) ← vfsFstat fd
    if status = -errFdNotFound then do
      let _ ← vfsFclose fd
      pure (-errProcessLoadFail, none)
    else do
      let size := (stat.getD env.stat).size
      let rawData ← onDrive (onArena (kzalloc size))
      if rawData = 0 then do
        let _ ← vfsFclose fd
        pure (-errProcessLoadFail, none)
      else do
        let read ← vfsFread rawData size 1 fd
        if read < 0 then do
          onDrive (onArena (kfree rawData))
          let _ ← vfsFclose fd
          pure (-errProcessLoadFail, none)
        else do
          let _ ← vfsFclose fd
          pure ((success : ℤ), some (.bin rawData size))

def processLoadElf (env : LoadEnv) (filename : List UInt8) :
    VfsM σ δ (ℤ × Option ProcessData) := do
  let (status, elfFile) ← gloaderLoadElf env filename
  if status < 0 then pure (-errProcessLoadFail, none)
  else pure ((success : ℤ), elfFile.map .elf)

def processLoadData (env : ProcessEnv) (filename : List UInt8) :
    VfsM σ δ (ℤ × Option ProcessData) := do
  let (elfLoadStatus, data) ← processLoadElf env.elf filename
  if elfLoadStatus < 0 then do
    let (status, data) ← processLoadBinary env.bin filename
    if status < 0 then pure (-errProcessLoadFail, none) else pure ((success : ℤ), data)
  else pure ((success : ℤ), data)

variable {env : ProcessEnv} {filename : List UInt8} {s t : Vfs σ δ} {fd : ℤ} {elfFile : ElfFile}

theorem processLoadData_loaded (h : FileLoaded env.elf filename s fd elfFile t) :
    processLoadData env filename s =
      .ok (((success : ℤ), some (.elf (acceptedFile env.elf elfFile t))), t) := by
  have hload : processLoadElf env.elf filename s =
      .ok (((success : ℤ), some (.elf (acceptedFile env.elf elfFile t))), t) := by
    rw [processLoadElf, bind_run_ok (gloaderLoadElf_loaded h)]
    rfl
  rw [processLoadData, bind_run_ok hload]
  rfl

def testedHeader (env : LoadEnv) (elfFile : ElfFile) (t : Vfs σ δ) : Elf32Ehdr :=
  elfGetEhdr (elfFile.view env.header t.drive.arena.mem) elfFile

/-- The files are split by the header test: the status of `gloader_load_elf` is
success on those that pass, and on the others it is negative and the data of
the process is raw. -/
def SplitsBy (hdr : Elf32Ehdr) (status : ℤ) (data : Option ProcessData) : Prop :=
  (status = success ↔ HeaderTest hdr) ∧
    (¬ HeaderTest hdr → status < 0 ∧ ∃ rawData size, data = some (.bin rawData size))

/-- Whatever the bytes of a file that was read, `gloader_load_elf` and
`process_load_data` return, and they treat it as the header test says exactly
when it passes the test. -/
theorem elf_acceptance_iff (h : FileLoaded env.elf filename s fd elfFile t) :
    ∃ status elfOut data, gloaderLoadElf env.elf filename s = .ok ((status, elfOut), t) ∧
      processLoadData env filename s = .ok (((success : ℤ), data), t) ∧
      (SplitsBy (testedHeader env.elf elfFile t) status data ↔
        HeaderTest (testedHeader env.elf elfFile t)) := by
  refine ⟨_, _, _, gloaderLoadElf_loaded h, processLoadData_loaded h, ?_⟩
  constructor
  · exact fun hs ↦ hs.1.mp rfl
  · exact fun ht ↦ ⟨iff_of_true rfl ht, fun hn ↦ absurd ht hn⟩

def quietEnv : ProcessEnv where
  elf := ⟨fun _ ↦ 0, ⟨0, 0⟩, fun _ ↦ 0, fun _ _ ↦ 0⟩
  bin := ⟨fun _ ↦ 0, ⟨0, 0⟩, fun _ ↦ 0, fun _ _ ↦ 0⟩
  entry _ := 0
  mapped _ _ := 0

omit [Allocator σ] in
theorem testedHeader_accepted (env : LoadEnv) (elfFile : ElfFile) (t : Vfs σ δ) :
    testedHeader env (acceptedFile env elfFile t) t = testedHeader env elfFile t := by
  obtain ⟨-, hdata, hsize⟩ := acceptedFile_buffer env elfFile t
  unfold testedHeader elfGetEhdr ElfFile.view
  rw [hdata, hsize]

theorem fileLoaded_of_passes {env : LoadEnv} {test : ElfFile → Vfs σ δ → Bool}
    (h : passes (gloaderLoadElf env filename) s (fun r t ↦ r.2.any (fun e ↦ test e t)) = true) :
    ∃ fd elfFile t, FileLoaded env filename s fd elfFile t ∧
      test (acceptedFile env elfFile t) t = true := by
  obtain ⟨⟨status, elfOut⟩, t, hload, htest⟩ := of_passes h
  cases gloaderLoadElf_result hload with
  | unopened => cases htest
  | noStruct => cases htest
  | noBuffer => cases htest
  | unread => cases htest
  | loaded hf => exact ⟨_, _, t, hf, htest⟩

theorem shortVolume_loaded : ∃ (fd : ℤ) (elfFile : ElfFile) (t : Vfs (KHeap false) Fat16Files),
    FileLoaded quietEnv.elf [65, 58, 47, 70] (mountedVfs shortVolume) fd elfFile t ∧
      ¬ HeaderTest (testedHeader quietEnv.elf elfFile t) := by
  obtain ⟨fd, elfFile, t, hf, htest⟩ := @fileLoaded_of_passes _ _ _
    [65, 58, 47, 70] (mountedVfs shortVolume) quietEnv.elf
    (fun e t ↦ decide (¬ HeaderTest (testedHeader quietEnv.elf e t))) (by decide +kernel)
  rw [testedHeader_accepted] at htest
  exact ⟨fd, elfFile, t, hf, of_decide_eq_true htest⟩

theorem elf_acceptance_iff_short :
    ∃ (elfFile : ElfFile) (t : Vfs (KHeap false) Fat16Files) (status : ℤ) (elfOut : Option ElfFile)
      (data : Option ProcessData),
      gloaderLoadElf quietEnv.elf [65, 58, 47, 70] (mountedVfs shortVolume) =
        .ok ((status, elfOut), t) ∧
      (SplitsBy (testedHeader quietEnv.elf elfFile t) status data ↔
        HeaderTest (testedHeader quietEnv.elf elfFile t)) := by
  obtain ⟨fd, elfFile, t, hf, -⟩ := shortVolume_loaded
  obtain ⟨status, elfOut, data, h₁, -, h₂⟩ := @elf_acceptance_iff _ _ _ quietEnv _ _ _ _ _ hf
  exact ⟨elfFile, t, status, elfOut, data, h₁, h₂⟩

/-- A file of the bytes 0 and 1 is accepted as ELF, and is not taken as a raw binary. -/
theorem short_file_accepted :
    ∃ (fd : ℤ) (elfFile : ElfFile) (t : Vfs (KHeap false) Fat16Files),
      FileLoaded quietEnv.elf [65, 58, 47, 70] (mountedVfs shortVolume) fd elfFile t ∧
      ¬ HeaderTest (testedHeader quietEnv.elf elfFile t) ∧
      gloaderLoadElf quietEnv.elf [65, 58, 47, 70] (mountedVfs shortVolume) =
        .ok (((success : ℤ), some (acceptedFile quietEnv.elf elfFile t)), t) ∧
      processLoadData quietEnv [65, 58, 47, 70] (mountedVfs shortVolume) =
        .ok (((success : ℤ), some (.elf (acceptedFile quietEnv.elf elfFile t))), t) := by
  obtain ⟨fd, elfFile, t, hf, hn⟩ := shortVolume_loaded
  exact ⟨fd, elfFile, t, hf, hn, gloaderLoadElf_loaded hf,
    @processLoadData_loaded _ _ _ quietEnv _ _ _ _ _ hf⟩

end GammaOS.Kernel
