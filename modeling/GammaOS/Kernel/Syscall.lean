import GammaOS.Kernel.Keyboard
import GammaOS.Kernel.Process

namespace GammaOS.Kernel

open Function Foundation Foundation.Program Memory Paging Fs Loader

def fsMaxPathLength : ℕ := 512

def printBufferSize : ℕ := 1024

variable {σ δ : Type}

def loadPageDirectory (vspace : ℕ) : KernelM σ δ Unit :=
  modifyState (fun s ↦ { s with currentPageDirectory := s.arena.mem.load32 vspace })

def changeToKernelPageDirectory : KernelM σ δ Unit := do
  let vspace ← gets KernelState.kernelSpace
  loadPageDirectory vspace

def changeToGivenTaskPageDirectory (task : ℕ) : KernelM σ δ Unit := do
  let t ← onTasks (taskAt task)
  loadPageDirectory t.taskSpace

def currentTask : KernelM σ δ ℕ := gets (fun s ↦ s.taskList.curTask)

def changeToCurrentTaskPageDirectory : KernelM σ δ Unit := do
  let task ← currentTask
  changeToGivenTaskPageDirectory task

def taskSwitch (task : ℕ) : KernelM σ δ Unit := do
  onTasks (modifyState (fun l ↦ { l with curTask := task }))
  changeToGivenTaskPageDirectory task

/-- `enter_task` with the registers of a task: control goes to user mode. -/
def enterTask (task : ℕ) : KernelM σ δ Unit := do
  let _ ← onTasks (taskAt task)
  pure ()

def currentTaskSaveState (iframe : Reg) : KernelM σ δ Unit := do
  let task ← currentTask
  require (task ≠ 0) Fault.panic
  onTasks (do
    let t ← taskAt task
    modifyState (fun l ↦ l.setTask task (some { t with registers := iframe })))

/-- What the stack of the task holds is chosen by its program, and a parameter here. -/
def taskAccessStack (task stackElem : ℕ) : KernelM σ δ ℕ := do
  changeToGivenTaskPageDirectory task
  changeToKernelPageDirectory
  pure stackElem

theorem taskAccessStack_total {s : KernelState σ δ} {t : Task} {task elem : ℕ} (h0 : task ≠ 0)
    (ht : s.taskList.tasks task = some t) : taskAccessStack task elem s =
      .ok (elem, { s with currentPageDirectory := s.arena.mem.load32 s.kernelSpace }) := by
  have htask : onTasks (taskAt task) s = .ok (t, s) := onTasks_taskAt_eq_ok.mpr ⟨h0, ht, rfl⟩
  have hgiven : changeToGivenTaskPageDirectory task s =
      .ok ((), { s with currentPageDirectory := s.arena.mem.load32 t.taskSpace }) :=
    (bind_run_ok htask).trans rfl
  exact (bind_run_ok hgiven).trans rfl

variable [Allocator σ]

/-- Copies the string `data` of the task through a page that both spaces see.
The bytes that arrive in the kernel are returned with the status. -/
def copyDataFromTaskToKernel (task : ℕ) (data : List UInt8) (size : ℕ) :
    KernelM σ δ (ℤ × List UInt8) := do
  if size > pageSize then pure (-errInvarg, [])
  else do
    let sharedMemBase ← onHeap (kzalloc size)
    if sharedMemBase = 0 then pure (-errMallocFail, [])
    else do
      let t ← onTasks (taskAt task)
      let m ← gets (fun s ↦ s.arena.mem)
      let oldPtEntry := (pagingVirtToPhy m t.taskSpace sharedMemBase).getD 0
      onHeap (onMem (fun m ↦ (mapVaddrToVal m (m.load32 t.taskSpace) sharedMemBase
        (sharedMemBase ||| (pagePresent ||| pageWriteAccess ||| pageUserAccess))).2))
      loadPageDirectory t.taskSpace
      onHeap (onMem (fun m ↦ m.writeBytes sharedMemBase (data.take size)))
      changeToKernelPageDirectory
      onHeap (onMem (fun m ↦
        (mapVaddrToVal m (m.load32 t.taskSpace) sharedMemBase oldPtEntry).2))
      onHeap (kfree sharedMemBase)
      pure (((data.take size).length : ℤ), data.take size)

/-- The commands of the system call interrupt, with what they find in the
memory of the task: `unknown` is a number without a function. -/
inductive Command
  | print (data : List UInt8)
  | getch
  | putch
  | malloc (size : ℕ)
  | free (base : ℕ)
  | exec (env : ProcessEnv) (data rest : List UInt8)
  | exit
  | unknown

/-- The name that `__0x80_EXEC` is given: the bytes that were copied, and behind
them what its buffer on the stack held before, up to the first zero. -/
def execFilename (data rest : List UInt8) : KernelM σ δ (List UInt8) := do
  let task ← currentTask
  let _ ← taskAccessStack task 0
  let (_, copied) ← copyDataFromTaskToKernel task data fsMaxPathLength
  pure (copied ++ rest)

def processBackToGshell : KernelM σ δ Unit := do
  let gshell ← gets (fun s ↦ s.processList 0)
  processSwitch gshell
  let p ← processAt gshell
  taskSwitch p.task
  enterTask p.task

def runProcess (process : ℕ) : KernelM σ δ Unit := do
  processSwitch process
  let p ← processAt process
  taskSwitch p.task
  enterTask p.task

/-- The functions of the commands. The result is none when control has gone to
a task and does not come back. -/
def commandHandler : Command → KernelM σ Fat16Files (Option ℕ)
  | .print data => do
    let task ← currentTask
    let _ ← taskAccessStack task 0
    let task ← currentTask
    let _ ← copyDataFromTaskToKernel task data printBufferSize
    pure (some success)
  | .getch => do
    let ch ← keyboardGet
    pure (some (ofInt32 ch.toInt8.toInt))
  | .putch => do
    let task ← currentTask
    let _ ← taskAccessStack task 0
    pure (some success)
  | .malloc size => do
    let task ← currentTask
    let size ← taskAccessStack task size
    let base ← processMalloc size
    pure (some base)
  | .free base => do
    let task ← currentTask
    let base ← taskAccessStack task base
    let base ← processFree base
    pure (some base)
  | .exec env data rest => do
    let filename ← execFilename data rest
    let process ← processNew env filename
    if process = 0 then pure (some (negU32 errProcessCreationFailed))
    else do
      runProcess process
      pure none
  | .exit => do
    let current ← gets KernelState.currentProcess
    let _ ← processKill current
    processBackToGshell
    pure none
  | .unknown => pure (some 0)

def isr0x80Handler (command : Command) (iframe : Reg) : KernelM σ Fat16Files Unit := do
  changeToKernelPageDirectory
  currentTaskSaveState iframe
  match ← commandHandler command with
  | none => pure ()
  | some _ => changeToCurrentTaskPageDirectory

/-- `ps2_interrupt_handler` with the character of the key, none for a key that is released. -/
def ps2InterruptHandler (ch : Option UInt8) : KernelM σ Fat16Files Unit := do
  changeToKernelPageDirectory
  match ch with
  | none => pure ()
  | some ch => do
    keyboardPut ch
    let task ← currentTask
    if task = 0 then pure () else changeToCurrentTaskPageDirectory

def generalInterruptHandler (ch : Option UInt8) (iframe : Reg) : KernelM σ Fat16Files Unit := do
  changeToKernelPageDirectory
  let task ← currentTask
  if task = 0 then pure () else currentTaskSaveState iframe
  ps2InterruptHandler ch
  let task ← currentTask
  if task = 0 then pure () else changeToCurrentTaskPageDirectory

/-- `no_int_handler`: it only acknowledges the interrupt. -/
def noIntHandler : KernelM σ δ Unit := pure ()

/-- What is between the two switches of `general_interrupt_handler`, with the
handler in `isr_handlers`. -/
def callHandler (iframe : Reg) : Option (KernelM σ δ Unit) → KernelM σ δ Unit
  | none => pure ()
  | some handler => do
    let task ← currentTask
    if task = 0 then pure () else currentTaskSaveState iframe
    handler

def interruptHandler (handler : Option (KernelM σ δ Unit)) (iframe : Reg) : KernelM σ δ Unit := do
  changeToKernelPageDirectory
  callHandler iframe handler
  let task ← currentTask
  if task = 0 then pure () else changeToCurrentTaskPageDirectory

omit [Allocator σ] in
theorem generalInterruptHandler_eq (ch : Option UInt8) (iframe : Reg) :
    (generalInterruptHandler ch iframe : KernelM σ Fat16Files Unit) =
      interruptHandler (some (ps2InterruptHandler ch)) iframe := by
  unfold generalInterruptHandler interruptHandler callHandler
  refine congrArg _ (funext fun _ ↦ ?_)
  rw [bind_assoc]
  refine congrArg _ (funext fun task ↦ ?_)
  by_cases ht : task = 0
  · rw [if_pos ht, if_pos ht]
  · rw [if_neg ht, if_neg ht, bind_assoc]

/-- What takes the processor from user mode to the kernel. -/
inductive Entry
  | syscall (command : Command) (iframe : Reg)
  | keyboard (ch : Option UInt8) (iframe : Reg)

def Entry.run : Entry → KernelM σ Fat16Files Unit
  | syscall command iframe => isr0x80Handler command iframe
  | keyboard ch iframe => generalInterruptHandler ch iframe

end GammaOS.Kernel
