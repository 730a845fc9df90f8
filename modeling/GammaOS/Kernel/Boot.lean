import GammaOS.Kernel.Entries
import GammaOS.Kernel.ProcessRuns

namespace GammaOS.Kernel

open Function Foundation Foundation.Program Memory Paging Fs Loader

def diskSize : ℕ := 16

def maxNumberOfDisks : ℕ := 26

/-- `"A:/usrspc/gshell/main.o"` -/
def gshellPath : List UInt8 :=
  [65, 58, 47, 117, 115, 114, 115, 112, 99, 47, 103, 115, 104, 101, 108, 108, 47,
    109, 97, 105, 110, 46, 111]

section Source

variable {σ : Type} [Allocator σ]

def newDisks : ℕ → ArenaM σ (List ℕ)
  | 0 => pure []
  | n + 1 => do
    let disk ← kzalloc diskSize
    let rest ← newDisks n
    pure (disk :: rest)

/-- `disk_init` of the first disk, with `fat16` as the file system that is attached. -/
def diskInit (disk : Disk) : KernelM σ Fat16Files Unit := do
  let disks ← onHeap (newDisks maxNumberOfDisks)
  require (disks.headD 0 ≠ 0) Fault.nullDeref
  let pd ← onHeap (fat16Resolve disk)
  modifyState (fun s ↦ { s with vfs := { s.vfs with
    disks := update s.vfs.disks 65 (pd.map (fun pd ↦ fat16 ⟨disk, pd⟩)) } })

def gammaosFirstEverTask : KernelM σ Fat16Files Unit := do
  let task ← currentTask
  require (task ≠ 0) Fault.panic
  let head ← gets (fun s ↦ s.taskList.taskListHead)
  taskSwitch head
  let task ← currentTask
  enterTask task

/-- The part of `kernel_start` that makes the address space of the kernel. -/
def kernelSpaceInit : KernelM σ Fat16Files Unit := do
  let space ← onHeap
    (createVirtualAddressSpace (pagePresent ||| pageUserAccess ||| pageWriteAccess))
  require (space ≠ 0) Fault.panic
  modifyState (fun s ↦ { s with kernelSpace := space })
  loadPageDirectory space

/-- `kernel_start`, from behind `keyboard_init` to the shell. -/
def kernelSetup (disk : Disk) : KernelM σ Fat16Files Unit := do
  kernelSpaceInit
  diskInit disk

def kernelStart (disk : Disk) (env : ProcessEnv) : KernelM σ Fat16Files Unit := do
  kernelSetup disk
  let gshell ← processNew env gshellPath
  require (gshell ≠ 0) Fault.panic
  gammaosFirstEverTask

end Source

/-- The kernel behind `kheap_init` and `process_init`, over a memory and a heap
table of any bytes. -/
def bootState (whole : Bool) (entries : ℕ → UInt8) (m : ByteMemory) :
    KernelState (KHeap whole) Fat16Files where
  vfs := ⟨⟨⟨KHeap.init entries, m⟩, fun _ ↦ none⟩, fun _ ↦ none, fun _ ↦ none⟩
  taskList := .empty
  processes _ := none
  processList _ := 0
  currentProcess := 0
  kernelSpace := 0
  currentPageDirectory := 0

variable {whole : Bool} {rule : PageRule} {s s₁ s₂ : KernelState (KHeap whole) Fat16Files}
  {disk : Disk} {env : ProcessEnv} {entries : ℕ → UInt8} {m : ByteMemory}

structure SetUp (s : KernelState (KHeap whole) Fat16Files) : Prop where
  mounted : Fat16Mounted s.vfs
  processes : ∀ p, s.processes p = none
  processList : ∀ i, s.processList i = 0
  currentProcess : s.currentProcess = 0
  taskList : s.taskList = .empty

theorem bootState_setUp : SetUp (bootState whole entries m) where
  mounted _ _ h := nomatch h
  processes _ := rfl
  processList _ := rfl
  currentProcess := rfl
  taskList := rfl

namespace SetUp

theorem kernelSpaceInit (h : SetUp s) (hr : kernelSpaceInit s = .ok ((), s₁)) : SetUp s₁ := by
  unfold Kernel.kernelSpaceInit at hr
  generalize (createVirtualAddressSpace (pagePresent ||| pageUserAccess ||| pageWriteAccess) :
    ArenaM (KHeap whole) ℕ) = create at hr
  obtain ⟨space, s₂, h₂, hr⟩ := bind_eq_ok.mp hr
  obtain ⟨b, -, rfl⟩ := onHeap_eq_ok.mp h₂
  obtain ⟨_, s₃, h₃, hr⟩ := bind_eq_ok.mp hr
  obtain ⟨-, rfl⟩ := require_eq_ok.mp h₃
  cases hr
  exact ⟨h.mounted, h.processes, h.processList, h.currentProcess, h.taskList⟩

theorem diskInit (h : SetUp s) (hr : diskInit disk s = .ok ((), s₁)) : SetUp s₁ := by
  unfold Kernel.diskInit at hr
  generalize (newDisks maxNumberOfDisks : ArenaM (KHeap whole) (List ℕ)) = disks at hr
  generalize (fat16Resolve disk : ArenaM (KHeap whole) _) = resolve at hr
  obtain ⟨_, s₂, h₂, hr⟩ := bind_eq_ok.mp hr
  obtain ⟨b, -, rfl⟩ := onHeap_eq_ok.mp h₂
  obtain ⟨_, s₃, h₃, hr⟩ := bind_eq_ok.mp hr
  obtain ⟨-, rfl⟩ := require_eq_ok.mp h₃
  obtain ⟨pd, s₄, h₄, hr⟩ := bind_eq_ok.mp hr
  obtain ⟨c, -, rfl⟩ := onHeap_eq_ok.mp h₄
  cases hr
  refine ⟨fun drive fs hfs ↦ ?_, h.processes, h.processList, h.currentProcess, h.taskList⟩
  have hfs' : update s.vfs.disks 65 (pd.map (fun pd ↦ fat16 ⟨disk, pd⟩)) drive = some fs := hfs
  by_cases hd : drive = 65
  · rw [hd, update_self] at hfs'
    obtain ⟨pd', -, rfl⟩ := Option.map_eq_some_iff.mp hfs'
    exact ⟨_, rfl⟩
  · rw [update_of_ne hd] at hfs'
    exact h.mounted drive fs hfs'

theorem kernelSetup (h : SetUp s) (hr : kernelSetup disk s = .ok ((), s₁)) : SetUp s₁ := by
  obtain ⟨_, s₂, h₂, hr⟩ := bind_eq_ok.mp hr
  exact (h.kernelSpaceInit h₂).diskInit hr

end SetUp

def BootAllowed (rule : PageRule) (disk : Disk) (env : ProcessEnv)
    (s₀ : KernelState (KHeap whole) Fat16Files) : Prop :=
  ∀ s, kernelSetup disk s₀ = .ok ((), s) → NewAllowed rule env gshellPath s

/-- A boot that comes to user mode leaves the shell in control, and its blocks
apart from its tables. -/
theorem SetUp.kernelStart_apart {s₀ : KernelState (KHeap whole) Fat16Files} (h₀ : SetUp s₀)
    (henv : env.Words) (hok : BootAllowed rule disk env s₀)
    (h : kernelStart disk env s₀ = .ok ((), s)) :
    ∃ hold, InControl rule s hold ∧ (∃ x t, Agrees s x t) ∧
      ∀ p x, s.processes p = some x → x.TablesApart (hold p).space := by
  obtain ⟨_, s₁, h₁, h⟩ := bind_eq_ok.mp h
  have hset := h₀.kernelSetup h₁
  obtain ⟨p, s₂, h₂, h⟩ := bind_eq_ok.mp h
  obtain ⟨_, s₃, h₃, h⟩ := bind_eq_ok.mp h
  obtain ⟨hp, rfl⟩ := require_eq_ok.mp h₃
  obtain ⟨_, x, t, S, hc, hap⟩ := processNew_apart hset.mounted henv h₂ hp
  have hinv : KernelInv s₁ (fun _ ↦ ⟨S, []⟩) :=
    NoProcesses.inv ⟨hset.mounted, hset.processes, fun i _ ↦ hset.processList i⟩ _
  have hsound : Sound rule s₁ (fun _ ↦ ⟨S, []⟩) :=
    ⟨hinv, fun p x hx ↦ by rw [hset.processes p] at hx; cases hx⟩
  have hself : s₂.processes p = some x := by rw [hc.processes, update_self]
  have hsound₂ := hsound.step (hinv.created hc) (fun y hy v hv hva ↦ by
    cases hself.symm.trans hy
    rw [hc.entry v hv hva]
    exact hok s₁ h₁ _ _ _ _ _ _ hc v hv hva)
  have hpid : x.pid = 0 := by
    rw [hc.fresh]
    show processGetFreeProcessId s₁ = 0
    rw [processGetFreeProcessId, processMaxProcesses, freeProcessIdLoop, if_pos (hset.processList 0)]
    rfl
  have hlist : s₂.processList 0 = p := by rw [hc.processList, hpid, update_self]
  have hcur : s₂.currentProcess = p := by rw [hc.currentProcess, if_pos hset.currentProcess]
  have hhead : s₂.taskList.taskListHead = x.task := by
    obtain ⟨z, hz⟩ := hc.added
    rw [taskListAdd_first (by rw [hset.taskList]; rfl)] at hz
    rw [← (Prod.mk.inj (Except.ok.inj hz)).2]
  have hg : ∃ y, s₂.processes (s₂.processList 0) = some y ∧ s₂.taskList.taskListHead = y.task :=
    ⟨x, by rw [hlist, hself], hhead⟩
  obtain ⟨_, s₄, h₄, h⟩ := bind_eq_ok.mp h
  cases h₄
  obtain ⟨_, s₅, h₅, h⟩ := bind_eq_ok.mp h
  obtain ⟨-, rfl⟩ := require_eq_ok.mp h₅
  obtain ⟨_, s₆, h₆, h⟩ := bind_eq_ok.mp h
  cases h₆
  obtain ⟨_, s₇, h₇, h⟩ := bind_eq_ok.mp h
  obtain ⟨_, s₈, h₈, h₇⟩ := bind_eq_ok.mp h₇
  cases h₈
  obtain ⟨u, s₉, h₉, h₇⟩ := bind_eq_ok.mp h₇
  obtain ⟨-, hu, rfl⟩ := onTasks_taskAt_eq_ok.mp h₉
  cases h₇
  obtain ⟨_, s₁₀, h₁₀, h⟩ := bind_eq_ok.mp h
  cases h₁₀
  obtain ⟨_, s₁₁, h₁₁, h⟩ := bind_eq_ok.mp h
  obtain ⟨-, -, rfl⟩ := onTasks_taskAt_eq_ok.mp h₁₁
  cases h
  have htask : s₂.taskList.tasks x.task = some u := hhead ▸ hu
  obtain ⟨h', hagrees⟩ := InControl.switched hsound₂ hg (hcur.symm ▸ hself) htask
    (by rw [← hhead])
  refine ⟨_, h', ⟨x, u, hagrees⟩, fun q y hy ↦ ?_⟩
  have hy' : s₂.processes q = some y := hy
  by_cases hq : q = p
  · subst hq
    cases hself.symm.trans hy'
    rw [update_self]
    exact Process.tablesApart hap
  · rw [hc.processes, update_of_ne hq, hset.processes] at hy'
    cases hy'

theorem SetUp.kernelStart {s₀ : KernelState (KHeap whole) Fat16Files} (h₀ : SetUp s₀)
    (henv : env.Words) (hok : BootAllowed rule disk env s₀)
    (h : kernelStart disk env s₀ = .ok ((), s)) :
    ∃ hold, InControl rule s hold ∧ ∃ x t, Agrees s x t := by
  obtain ⟨hold, hin, hagrees, -⟩ := h₀.kernelStart_apart henv hok h
  exact ⟨hold, hin, hagrees⟩

end GammaOS.Kernel
