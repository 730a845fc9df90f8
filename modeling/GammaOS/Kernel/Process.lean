import GammaOS.Kernel.ProcessMap
import GammaOS.Kernel.State

namespace GammaOS.Kernel

open Function Foundation Foundation.Program Memory Paging Fs Loader

def userDataSelector : ℕ := 0x23
def userCodeSelector : ℕ := 0x1B

variable {σ δ : Type} [Allocator σ]

def freeProcessIdLoop (processList : ℕ → ℕ) : ℕ → ℕ → Option ℕ
  | 0, _ => none
  | n + 1, pid => if processList pid = 0 then some pid else freeProcessIdLoop processList n (pid + 1)

/-- A `uint16_t`: with every entry taken it is the code negated modulo `2 ^ 16`. -/
def processGetFreeProcessId (s : KernelState σ δ) : ℕ :=
  (freeProcessIdLoop s.processList processMaxProcesses 0).getD (2 ^ 16 - errMaxProcessLimitReached)

/-- The registers that `init_task` sets in a zeroed task. -/
def initRegisters (alien m : ByteMemory) (data : ProcessData) : Reg where
  eax := 0
  ebx := 0
  ecx := 0
  edx := 0
  esi := 0
  edi := 0
  esp := taskDefaultStackBegin
  ebp := 0
  ip := match data with
    | .elf elfData => (elfGetEhdr (elfData.view alien m) elfData).eEntry
    | .bin _ _ => taskDefaultStart
  cs := userCodeSelector
  ss := userDataSelector
  flags := 0

def newTask (alien : ByteMemory) (process : ℕ) (data : ProcessData) : KernelM σ δ ℕ := do
  let task ← onHeap (kzalloc taskSize)
  if task = 0 then pure 0
  else do
    let taskSpace ← onHeap (createVirtualAddressSpace (pagePresent ||| pageUserAccess))
    if taskSpace = 0 then pure 0
    else do
      let m ← gets (fun s ↦ s.arena.mem)
      onTasks (modifyState (fun l ↦ l.setTask task
        (some ⟨taskSpace, initRegisters alien m data, process, 0, 0⟩)))
      onTasks (taskListAdd task)
      pure task

/-- `close_task`, and `task_kill`, which does the same: the task is freed by
`task_list_delete`, and again behind it. -/
def closeTask (task : ℕ) : KernelM σ δ ℤ := do
  let t ← onTasks (taskAt task)
  onHeap (destroyVirtualAddressSpace t.taskSpace)
  deleteTask task
  onHeap (kfree task)
  pure success

/-- The bytes from the `file` field of a process on to the end of its blocks. -/
def processNameRoom : ℕ := pageSize * blocksOf processSize - 2

def newProcess (pid : ℕ) (filename : List UInt8) (task : ℕ) (data : ProcessData) (stack : ℕ) :
    Process where
  pid := pid
  file := filename
  task := task
  memAllocations _ := 0
  memAllocationsSize _ := 0
  data := data
  stack := stack
  keyboardBuf := ⟨fun _ ↦ 0, 0, 0⟩

/-- The struct is filled in on the way, and seen by others only once it is in
the process list. The `strcpy` of the name ends the run when it leaves the
blocks of the struct. -/
def processNew (env : ProcessEnv) (filename : List UInt8) : KernelM σ δ ℕ := do
  let process ← onHeap (kzalloc processSize)
  if process = 0 then pure 0
  else do
    let pid ← gets processGetFreeProcessId
    if (pid : ℤ) = -errMaxProcessLimitReached then do
      onHeap (kfree process)
      pure 0
    else do
      require (filename.length < processNameRoom) Fault.outOfBounds
      let stack ← onHeap (kzalloc processMaxProcessStackSize)
      if stack = 0 then do
        onHeap (kfree process)
        pure 0
      else do
        let (status, data) ← onVfs (processLoadData env filename)
        if status < 0 then do
          onHeap (kfree stack)
          onHeap (kfree process)
          pure 0
        else
          match data with
          | none => fault Fault.nullDeref
          | some data => do
            let task ← newTask env.entry process data
            if task = 0 then do
              onHeap (kfree stack)
              onHeap (kfree process)
              pure 0
            else do
              let t ← onTasks (taskAt task)
              let status ← onHeap (onMemStatus (processMapMemory env.mapped t.taskSpace data stack))
              if status < 0 then do
                onHeap (kfree stack)
                let _ ← closeTask task
                onHeap (kfree process)
                pure 0
              else do
                require (pid < processMaxProcesses) Fault.outOfBounds
                setProcess process (some (newProcess pid filename task data stack))
                modifyState (fun s ↦ { s with
                  processList := update s.processList pid process
                  currentProcess :=
                    if s.currentProcess = 0 then process else s.currentProcess })
                pure process

def allocationLoop (memAllocations : ℕ → ℕ) (addr : ℕ) : ℕ → ℕ → Option ℕ
  | 0, _ => none
  | n + 1, allocation =>
    if memAllocations allocation = addr then some allocation
    else allocationLoop memAllocations addr n (allocation + 1)

def Process.allocationOf (p : Process) (addr : ℕ) : Option ℕ :=
  allocationLoop p.memAllocations addr processMaxProcessMemAllocations 0

def Process.record (p : Process) (allocation base size : ℕ) : Process :=
  { p with
    memAllocations := update p.memAllocations allocation base
    memAllocationsSize := update p.memAllocationsSize allocation size }

def mallocCall (base size : ℕ) : MapCall where
  vaddr := base
  paddr := pagingAlignToPageLower base
  endaddr := pagingAlignToPageUpper (u32 (base + u32 (size + pageSize - 1) / pageSize * pageSize))
  flags := pagePresent ||| pageWriteAccess ||| pageUserAccess

def processMalloc (size : ℕ) : KernelM σ δ ℕ := do
  let current ← gets KernelState.currentProcess
  let p ← processAt current
  match p.allocationOf 0 with
  | none => pure 0
  | some allocation => do
    let base ← onHeap (kzalloc size)
    setProcess current (some (p.record allocation base size))
    let t ← onTasks (taskAt p.task)
    onHeap (onMem ((mallocCall base size).run t.taskSpace))
    pure base

/-- What `process_free` maps for a block. Its count of pages divides by the size. -/
def freeCall (base size : ℕ) : MapCall where
  vaddr := pagingAlignToPageLower base
  paddr := pagingAlignToPageLower base
  endaddr := u32 (base + u32 (size + pageSize - 1) / size * pageSize)
  flags := pagePresent ||| pageUserAccess ||| pageWriteAccess

def processFree (baseAddr : ℕ) : KernelM σ δ ℕ := do
  let current ← gets KernelState.currentProcess
  let p ← processAt current
  match p.allocationOf baseAddr with
  | none => pure 0
  | some allocation => do
    setProcess current (some (p.record allocation 0 0))
    require (p.memAllocationsSize allocation ≠ 0) Fault.divideError
    let t ← onTasks (taskAt p.task)
    onHeap (onMem ((freeCall baseAddr (p.memAllocationsSize allocation)).run t.taskSpace))
    onHeap (kfree baseAddr)
    pure baseAddr

def processKill (process : ℕ) : KernelM σ δ ℤ := do
  if process = 0 then pure (-errInvarg)
  else do
    let p ← processAt process
    modifyState (fun s ↦ { s with processList := update s.processList p.pid 0 })
    onHeap (kfree p.stack)
    match p.data with
    | .elf elfData => do
      let _ ← onHeap (gloaderCloseElf elfData)
    | .bin rawData _ => onHeap (kfree rawData)
    let _ ← closeTask p.task
    onHeap (kfree process)
    setProcess process none
    pure success

def processSwitch (process : ℕ) : KernelM σ δ Unit :=
  modifyState (fun s ↦ { s with currentProcess := process })

end GammaOS.Kernel
