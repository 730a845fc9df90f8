import GammaOS.Fs.FdTable
import GammaOS.Loader.Elf

namespace GammaOS.Loader

open Function Foundation Foundation.Program Memory Fs

/-- What a load finds in memory that it reads without having written it: behind
the buffers of the path, in the `file_stat` on its stack, and outside the bytes
of the file, in the header test and in each turn over the program headers. -/
structure LoadEnv where
  path : ByteMemory
  stat : FileStat
  header : ByteMemory
  phdrs : ℕ → ByteMemory

def elfFileSize : ℕ := 536

def gloaderProcessProgramHeaderPtload (elfFile : ElfFile) (phdr : Elf32Phdr) : ElfFile :=
  { elfFile with
    vbase := phdr.pVaddr
    vend := u32 (phdr.pVaddr + phdr.pFilesz)
    pbase := u32 (elfFile.data + phdr.pOffset)
    pend := u32 (elfFile.data + phdr.pOffset + phdr.pFilesz) }

/-- The loop of `gloader_process_program_headers` with a bound on its turns.
The file is read afresh in each of them. -/
def processHeadersLoop (view : ℕ → ByteMemory) : ℕ → ℕ → ElfFile → ElfFile
  | 0, _, elfFile => elfFile
  | n + 1, nphdr, elfFile =>
    if nphdr < (elfGetEhdr (view nphdr) elfFile).ePhnum then
      let phdr := elfGetPhdr (view nphdr) elfFile nphdr
      processHeadersLoop view n (nphdr + 1)
        (if phdr.pType = ptLoad then gloaderProcessProgramHeaderPtload elfFile phdr else elfFile)
    else elfFile

/-- `e_phnum` has 16 bits, so there are fewer than `2 ^ 16` turns. -/
def gloaderProcessProgramHeaders (view : ℕ → ByteMemory) (elfFile : ElfFile) : ℤ × ElfFile :=
  (success, processHeadersLoop view (2 ^ 16) 0 elfFile)

variable {σ δ : Type} [Allocator σ]

def gloaderLoadElf (env : LoadEnv) (filename : List UInt8) : VfsM σ δ (ℤ × Option ElfFile) := do
  let fd ← vfsFopen env.path filename modeRead
  if fd < 0 then pure (-errFsFopenFailed, none)
  else do
    let addr ← onDrive (onArena (kzalloc elfFileSize))
    if addr = 0 then do
      let _ ← vfsFclose fd
      pure (-errMallocFail, none)
    else do
      let (_, stat) ← vfsFstat fd
      let size := (stat.getD env.stat).size
      let data ← onDrive (onArena (kzalloc size))
      if data = 0 then do
        onDrive (onArena (kfree addr))
        let _ ← vfsFclose fd
        pure (-errMallocFail, none)
      else do
        let read ← vfsFread data size 1 fd
        if read < 0 then do
          onDrive (onArena (kfree addr))
          onDrive (onArena (kfree data))
          let _ ← vfsFclose fd
          pure (-errFsFreadFailed, none)
        else do
          let elfFile : ElfFile := ⟨addr, data, size, 0, 0, 0, 0⟩
          let mem ← gets (fun s ↦ s.drive.arena.mem)
          if elfValidateElfFile (elfFile.view env.header mem) elfFile < 0 then do
            onDrive (onArena (kfree addr))
            onDrive (onArena (kfree data))
            let _ ← vfsFclose fd
            pure (-errInvalidElfFile, none)
          else do
            let (status, elfFile) :=
              gloaderProcessProgramHeaders (fun k ↦ elfFile.view (env.phdrs k) mem) elfFile
            if status < 0 then do
              onDrive (onArena (kfree addr))
              onDrive (onArena (kfree data))
              let _ ← vfsFclose fd
              pure (-errElfPhdrFail, none)
            else pure ((success : ℤ), some elfFile)

def gloaderCloseElf (elfFile : ElfFile) : ArenaM σ ℤ := do
  kfree elfFile.data
  kfree elfFile.addr
  pure success

/-- The file behind `filename` is open at `fd`, and its bytes are in memory:
the open, both allocations and the read have succeeded. -/
inductive FileLoaded (env : LoadEnv) (filename : List UInt8) (s : Vfs σ δ) :
    ℤ → ElfFile → Vfs σ δ → Prop
  | mk {fd st read : ℤ} {addr data : ℕ} {stat : Option FileStat} {s₁ s₂ s₃ s₄ t : Vfs σ δ} :
      vfsFopen env.path filename modeRead s = .ok (fd, s₁) → 0 ≤ fd →
      onDrive (onArena (kzalloc elfFileSize)) s₁ = .ok (addr, s₂) → addr ≠ 0 →
      vfsFstat fd s₂ = .ok ((st, stat), s₃) →
      onDrive (onArena (kzalloc (stat.getD env.stat).size)) s₃ = .ok (data, s₄) → data ≠ 0 →
      vfsFread data (stat.getD env.stat).size 1 fd s₄ = .ok (read, t) → 0 ≤ read →
      FileLoaded env filename s fd ⟨addr, data, (stat.getD env.stat).size, 0, 0, 0, 0⟩ t

def acceptedFile (env : LoadEnv) (elfFile : ElfFile) (t : Vfs σ δ) : ElfFile :=
  (gloaderProcessProgramHeaders (fun k ↦ elfFile.view (env.phdrs k) t.drive.arena.mem) elfFile).2

inductive LoadResult (env : LoadEnv) (filename : List UInt8) (s : Vfs σ δ) :
    ℤ × Option ElfFile → Vfs σ δ → Prop
  | unopened {fd : ℤ} {t : Vfs σ δ} :
      vfsFopen env.path filename modeRead s = .ok (fd, t) → fd < 0 →
      LoadResult env filename s (-errFsFopenFailed, none) t
  | noStruct {fd x : ℤ} {s₁ s₂ t : Vfs σ δ} :
      vfsFopen env.path filename modeRead s = .ok (fd, s₁) → 0 ≤ fd →
      onDrive (onArena (kzalloc elfFileSize)) s₁ = .ok (0, s₂) → vfsFclose fd s₂ = .ok (x, t) →
      LoadResult env filename s (-errMallocFail, none) t
  | noBuffer {fd st x : ℤ} {addr : ℕ} {stat : Option FileStat} {s₁ s₂ s₃ s₄ s₅ t : Vfs σ δ} :
      vfsFopen env.path filename modeRead s = .ok (fd, s₁) → 0 ≤ fd →
      onDrive (onArena (kzalloc elfFileSize)) s₁ = .ok (addr, s₂) → addr ≠ 0 →
      vfsFstat fd s₂ = .ok ((st, stat), s₃) →
      onDrive (onArena (kzalloc (stat.getD env.stat).size)) s₃ = .ok (0, s₄) →
      onDrive (onArena (kfree addr)) s₄ = .ok ((), s₅) → vfsFclose fd s₅ = .ok (x, t) →
      LoadResult env filename s (-errMallocFail, none) t
  | unread {fd st x read : ℤ} {addr data : ℕ} {stat : Option FileStat}
      {s₁ s₂ s₃ s₄ s₅ s₆ s₇ t : Vfs σ δ} :
      vfsFopen env.path filename modeRead s = .ok (fd, s₁) → 0 ≤ fd →
      onDrive (onArena (kzalloc elfFileSize)) s₁ = .ok (addr, s₂) → addr ≠ 0 →
      vfsFstat fd s₂ = .ok ((st, stat), s₃) →
      onDrive (onArena (kzalloc (stat.getD env.stat).size)) s₃ = .ok (data, s₄) → data ≠ 0 →
      vfsFread data (stat.getD env.stat).size 1 fd s₄ = .ok (read, s₅) → read < 0 →
      onDrive (onArena (kfree addr)) s₅ = .ok ((), s₆) →
      onDrive (onArena (kfree data)) s₆ = .ok ((), s₇) → vfsFclose fd s₇ = .ok (x, t) →
      LoadResult env filename s (-errFsFreadFailed, none) t
  | loaded {fd : ℤ} {elfFile : ElfFile} {t : Vfs σ δ} :
      FileLoaded env filename s fd elfFile t →
      LoadResult env filename s ((success : ℤ), some (acceptedFile env elfFile t)) t

variable {env : LoadEnv} {filename : List UInt8} {s t : Vfs σ δ}

/-- `gloader_load_elf` accepts every file whose bytes it has read. -/
theorem gloaderLoadElf_loaded {fd : ℤ} {elfFile : ElfFile}
    (h : FileLoaded env filename s fd elfFile t) :
    gloaderLoadElf env filename s = .ok (((success : ℤ), some (acceptedFile env elfFile t)), t) := by
  obtain ⟨h₁, hfd, h₂, haddr, h₃, h₄, hdata, h₅, hread⟩ := h
  rw [gloaderLoadElf, bind_run_ok h₁, if_neg (by omega), bind_run_ok h₂, if_neg haddr,
    bind_run_ok h₃]
  dsimp only
  rw [bind_run_ok h₄, if_neg hdata, bind_run_ok h₅, if_neg (by omega)]
  rfl

theorem gloaderLoadElf_result {r : ℤ × Option ElfFile}
    (h : gloaderLoadElf env filename s = .ok (r, t)) : LoadResult env filename s r t := by
  obtain ⟨fd, s₁, h₁, h⟩ := bind_eq_ok.mp h
  by_cases hfd : fd < 0
  · rw [if_pos hfd] at h
    cases h
    exact .unopened h₁ hfd
  rw [if_neg hfd] at h
  obtain ⟨addr, s₂, h₂, h⟩ := bind_eq_ok.mp h
  by_cases haddr : addr = 0
  · rw [if_pos haddr] at h
    obtain ⟨x, u, hc, h⟩ := bind_eq_ok.mp h
    cases h
    exact .noStruct h₁ (by omega) (haddr ▸ h₂) hc
  rw [if_neg haddr] at h
  obtain ⟨⟨st, stat⟩, s₃, h₃, h⟩ := bind_eq_ok.mp h
  dsimp only at h
  obtain ⟨data, s₄, h₄, h⟩ := bind_eq_ok.mp h
  by_cases hdata : data = 0
  · rw [if_pos hdata] at h
    obtain ⟨_, s₅, h₅, h⟩ := bind_eq_ok.mp h
    obtain ⟨x, u, hc, h⟩ := bind_eq_ok.mp h
    cases h
    exact .noBuffer h₁ (by omega) h₂ haddr h₃ (hdata ▸ h₄) h₅ hc
  rw [if_neg hdata] at h
  obtain ⟨read, s₅, h₅, h⟩ := bind_eq_ok.mp h
  by_cases hread : read < 0
  · rw [if_pos hread] at h
    obtain ⟨_, s₆, h₆, h⟩ := bind_eq_ok.mp h
    obtain ⟨_, s₇, h₇, h⟩ := bind_eq_ok.mp h
    obtain ⟨x, u, hc, h⟩ := bind_eq_ok.mp h
    cases h
    exact .unread h₁ (by omega) h₂ haddr h₃ h₄ hdata h₅ hread h₆ h₇ hc
  · rw [if_neg hread] at h
    cases h
    exact .loaded (.mk h₁ (by omega) h₂ haddr h₃ h₄ hdata h₅ (by omega))

theorem processHeadersLoop_buffer (view : ℕ → ByteMemory) : ∀ n nphdr (elfFile : ElfFile),
    (processHeadersLoop view n nphdr elfFile).addr = elfFile.addr ∧
      (processHeadersLoop view n nphdr elfFile).data = elfFile.data ∧
      (processHeadersLoop view n nphdr elfFile).fileSize = elfFile.fileSize := by
  intro n
  induction n with
  | zero => exact fun _ _ ↦ ⟨rfl, rfl, rfl⟩
  | succ n ih =>
    intro nphdr elfFile
    rw [processHeadersLoop]
    split
    · obtain ⟨h₁, h₂, h₃⟩ := ih (nphdr + 1) (if (elfGetPhdr (view nphdr) elfFile nphdr).pType = ptLoad
        then gloaderProcessProgramHeaderPtload elfFile (elfGetPhdr (view nphdr) elfFile nphdr)
        else elfFile)
      dsimp only
      rw [h₁, h₂, h₃]
      split <;> exact ⟨rfl, rfl, rfl⟩
    · exact ⟨rfl, rfl, rfl⟩

omit [Allocator σ] in
theorem acceptedFile_buffer (env : LoadEnv) (elfFile : ElfFile) (t : Vfs σ δ) :
    (acceptedFile env elfFile t).addr = elfFile.addr ∧
      (acceptedFile env elfFile t).data = elfFile.data ∧
      (acceptedFile env elfFile t).fileSize = elfFile.fileSize :=
  processHeadersLoop_buffer _ _ _ _

end GammaOS.Loader
