import GammaOS.Kernel.ProcessLoad
import GammaOS.Kernel.TaskList
import GammaOS.Paging.Paging

namespace GammaOS.Kernel

open Function Foundation Foundation.Program Memory Paging Fs Loader

def processMaxProcesses : ℕ := 16
def processMaxProcessMemAllocations : ℕ := 1024
def processMaxProcessStackSize : ℕ := 65536

def processSize : ℕ := 9760
def taskSize : ℕ := 64

structure KeyboardBuffer where
  buffer : ℕ → UInt8
  head : ℤ
  tail : ℤ

/-- `struct process`. Pointers are addresses. -/
structure Process where
  pid : ℕ
  file : List UInt8
  task : ℕ
  memAllocations : ℕ → ℕ
  memAllocationsSize : ℕ → ℕ
  data : ProcessData
  stack : ℕ
  keyboardBuf : KeyboardBuffer

/-- The state of the kernel: the file system with the heap and the memory below
it, the task list, the processes that are allocated, by address, and the
globals that refer to them. -/
structure KernelState (σ δ : Type) where
  vfs : Vfs σ δ
  taskList : TaskList
  processes : ℕ → Option Process
  processList : ℕ → ℕ
  currentProcess : ℕ
  kernelSpace : ℕ
  currentPageDirectory : ℕ

abbrev KernelM (σ δ : Type) := Program Fault (KernelState σ δ)

variable {σ δ α : Type}

def KernelState.arena (s : KernelState σ δ) : Arena σ := s.vfs.drive.arena

def onVfs (m : VfsM σ δ α) : KernelM σ δ α :=
  onPart KernelState.vfs (fun v s ↦ { s with vfs := v }) m

def onTasks (m : TaskM α) : KernelM σ δ α :=
  onPart KernelState.taskList (fun l s ↦ { s with taskList := l }) m

def onHeap (m : ArenaM σ α) : KernelM σ δ α := onVfs (onDrive (onArena m))

def onMemStatus (f : ByteMemory → ℤ × ByteMemory) : ArenaM σ ℤ := fun s ↦
  .ok ((f s.mem).1, { s with mem := (f s.mem).2 })

def processAt (p : ℕ) : KernelM σ δ Process := fun s ↦
  if p = 0 then .error .nullDeref
  else match s.processes p with
    | none => .error .dangling
    | some x => .ok (x, s)

def setProcess (p : ℕ) (x : Option Process) : KernelM σ δ Unit :=
  modifyState (fun s ↦ { s with processes := update s.processes p x })

section Runs

variable {s s' : KernelState σ δ} {a : α}

theorem onVfs_eq_ok {m : VfsM σ δ α} :
    onVfs m s = .ok (a, s') ↔ ∃ v, m s.vfs = .ok (a, v) ∧ s' = { s with vfs := v } :=
  onPart_eq_ok

theorem onTasks_eq_ok {m : TaskM α} :
    onTasks m s = .ok (a, s') ↔ ∃ l, m s.taskList = .ok (a, l) ∧ s' = { s with taskList := l } :=
  onPart_eq_ok

def KernelState.setArena (s : KernelState σ δ) (b : Arena σ) : KernelState σ δ :=
  { s with vfs := { s.vfs with drive := { s.vfs.drive with arena := b } } }

@[simp] theorem setArena_arena (s : KernelState σ δ) (b : Arena σ) : (s.setArena b).arena = b := rfl

@[simp] theorem setArena_fdList (s : KernelState σ δ) (b : Arena σ) :
    (s.setArena b).vfs.fdList = s.vfs.fdList := rfl

@[simp] theorem setArena_files (s : KernelState σ δ) (b : Arena σ) :
    (s.setArena b).vfs.drive.files = s.vfs.drive.files := rfl

@[simp] theorem setArena_disks (s : KernelState σ δ) (b : Arena σ) :
    (s.setArena b).vfs.disks = s.vfs.disks := rfl

@[simp] theorem setArena_taskList (s : KernelState σ δ) (b : Arena σ) :
    (s.setArena b).taskList = s.taskList := rfl

@[simp] theorem setArena_processes (s : KernelState σ δ) (b : Arena σ) :
    (s.setArena b).processes = s.processes := rfl

@[simp] theorem setArena_processList (s : KernelState σ δ) (b : Arena σ) :
    (s.setArena b).processList = s.processList := rfl

@[simp] theorem setArena_currentProcess (s : KernelState σ δ) (b : Arena σ) :
    (s.setArena b).currentProcess = s.currentProcess := rfl

@[simp] theorem setArena_currentPageDirectory (s : KernelState σ δ) (b : Arena σ) :
    (s.setArena b).currentPageDirectory = s.currentPageDirectory := rfl

@[simp] theorem setArena_kernelSpace (s : KernelState σ δ) (b : Arena σ) :
    (s.setArena b).kernelSpace = s.kernelSpace := rfl

theorem onHeap_eq_ok {m : ArenaM σ α} :
    onHeap m s = .ok (a, s') ↔ ∃ b, m s.arena = .ok (a, b) ∧ s' = s.setArena b := by
  unfold onHeap
  rw [onVfs_eq_ok]
  constructor
  · rintro ⟨v, hv, rfl⟩
    obtain ⟨d, hd, rfl⟩ := onDrive_eq_ok.mp hv
    obtain ⟨b, hb, rfl⟩ := onArena_eq_ok.mp hd
    exact ⟨b, hb, rfl⟩
  · rintro ⟨b, hb, rfl⟩
    exact ⟨_, onDrive_eq_ok.mpr ⟨_, onArena_eq_ok.mpr ⟨b, hb, rfl⟩, rfl⟩, rfl⟩

theorem processAt_eq_ok {p : ℕ} {x : Process} :
    processAt p s = .ok (x, s') ↔ p ≠ 0 ∧ s.processes p = some x ∧ s = s' := by
  unfold processAt
  by_cases hp : p = 0
  · simp [hp]
  · rw [if_neg hp]
    cases h : s.processes p with
    | none => simp
    | some y => simp [hp]

theorem taskAt_eq_ok {p : ℕ} {x : Task} {l l' : TaskList} :
    taskAt p l = .ok (x, l') ↔ p ≠ 0 ∧ l.tasks p = some x ∧ l = l' := by
  unfold taskAt
  by_cases hp : p = 0
  · simp [hp]
  · rw [if_neg hp]
    cases h : l.tasks p with
    | none => simp
    | some y => simp [hp]

theorem onTasks_taskAt_eq_ok {p : ℕ} {x : Task} :
    onTasks (taskAt p) s = .ok (x, s') ↔ p ≠ 0 ∧ s.taskList.tasks p = some x ∧ s = s' := by
  rw [onTasks_eq_ok]
  constructor
  · rintro ⟨l, hl, rfl⟩
    obtain ⟨h0, hx, rfl⟩ := taskAt_eq_ok.mp hl
    exact ⟨h0, hx, rfl⟩
  · rintro ⟨h0, hx, rfl⟩
    exact ⟨_, taskAt_eq_ok.mpr ⟨h0, hx, rfl⟩, rfl⟩

theorem onMemStatus_eq_ok {f : ByteMemory → ℤ × ByteMemory} {b b' : Arena σ} {r : ℤ} :
    onMemStatus f b = .ok (r, b') ↔ r = (f b.mem).1 ∧ b' = { b with mem := (f b.mem).2 } := by
  unfold onMemStatus
  rw [Except.ok.injEq, Prod.mk.injEq]
  exact and_congr eq_comm eq_comm

end Runs

def deleteTask [Allocator σ] (task : ℕ) : KernelM σ δ Unit := do
  onTasks (taskListDelete task)
  onHeap (kfree task)

end GammaOS.Kernel
