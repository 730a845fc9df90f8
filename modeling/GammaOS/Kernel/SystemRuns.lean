import GammaOS.Kernel.BootRun

namespace GammaOS.Kernel

open Function Foundation Foundation.Program Memory Paging Fs Loader

variable {whole : Bool} {rule : PageRule} {disk : Disk} {env : ProcessEnv} {entries : ℕ → UInt8}
  {m : ByteMemory} {s s' s₀ : KernelState (KHeap whole) Fat16Files}
  {cond : KernelState (KHeap whole) Fat16Files → Entry → Prop}

/-- The first process does not give the command to end itself. -/
def Command.Stays (s : KernelState σ Fat16Files) : Command → Prop
  | .exit => s.currentProcess ≠ s.processList 0
  | _ => True

def Entry.Stays (s : KernelState σ Fat16Files) : Entry → Prop
  | .syscall command _ => command.Stays s
  | .keyboard _ _ => True

/-- The states in which control comes to user mode: behind the boot, and behind
each entry to the kernel that meets the condition and returns. -/
inductive SystemRun (cond : KernelState (KHeap whole) Fat16Files → Entry → Prop) (disk : Disk)
    (env : ProcessEnv) (s₀ : KernelState (KHeap whole) Fat16Files) :
    KernelState (KHeap whole) Fat16Files → Prop
  | boot {s : KernelState (KHeap whole) Fat16Files} (hw : env.Words)
      (hr : kernelStart disk env s₀ = .ok ((), s)) : SystemRun cond disk env s₀ s
  | entry {s s' : KernelState (KHeap whole) Fat16Files} {e : Entry}
      (h : SystemRun cond disk env s₀ s) (hw : e.Words) (hc : cond s e)
      (hr : e.run s = .ok ((), s')) : SystemRun cond disk env s₀ s'

theorem SystemRun.inControl (h : SystemRun cond disk env s₀ s) (h₀ : SetUp s₀)
    (hboot : BootAllowed rule disk env s₀)
    (hcond : ∀ s e, e.Words → cond s e → e.Allowed rule s) :
    ∃ hold, InControl rule s hold ∧ ∃ x t, Agrees s x t := by
  induction h with
  | boot hw hr => exact h₀.kernelStart hw hboot hr
  | entry _ hw hc hr ih =>
    obtain ⟨hold, hin, -⟩ := ih
    exact hin.entry hw (hcond _ _ hw hc) hr

def anyPage : PageRule where
  Ok _ _ _ := True
  mono _ _ := trivial

theorem bootAllowed_any : BootAllowed anyPage disk env s₀ :=
  fun _ _ _ _ _ _ _ _ _ _ _ _ ↦ trivial

theorem Entry.allowed_any (e : Entry) (s : KernelState (KHeap whole) Fat16Files) :
    e.Allowed anyPage s := by
  cases e with
  | keyboard _ _ => trivial
  | syscall command iframe =>
    intro s₁ _
    cases command with
    | malloc size => exact fun _ _ _ _ _ _ _ _ _ _ _ _ _ ↦ trivial
    | free base => exact fun _ _ _ _ _ ↦ ⟨fun _ _ _ _ _ _ ↦ trivial, fun _ _ _ _ _ _ ↦ trivial⟩
    | exec env data rest => exact fun _ _ _ _ _ _ _ _ _ _ _ _ _ ↦ trivial
    | _ => trivial

def zeroRegisters : Reg := ⟨0, 0, 0, 0, 0, 0, 0, 0, 0, 0, 0, 0⟩

theorem exec_run {shell program : List UInt8} (hshell : Image shell) (hs : shell.length = 92)
    (hprogram : Image program) (hp : program.length = 92)
    (hcond : ∀ s, cond s (.syscall (.exec quietEnv filePath []) zeroRegisters)) :
    ∃ s s' : KernelState (KHeap whole) Fat16Files,
      SystemRun cond (shellDisk shell program) quietEnv (bootState whole (fun _ ↦ 0) (fun _ ↦ 0)) s ∧
      (Entry.syscall (.exec quietEnv filePath []) zeroRegisters).run s = .ok ((), s') ∧
      SystemRun cond (shellDisk shell program) quietEnv (bootState whole (fun _ ↦ 0) (fun _ ↦ 0)) s' ∧
      RunsImage quietEnv program s' := by
  have hset : SetUp (bootState whole (fun _ ↦ 0) (fun _ ↦ 0)) := bootState_setUp
  obtain ⟨s, files, hstart, hready, -, hpid⟩ := kernelStart_total (k := 1060) program
    hset (fun _ ↦ rfl) (RoomyAllocator.room_mono _ _ _ (by decide) (KHeap.init_room _))
    quietEnv_words hshell hs
  have hboot : SystemRun cond (shellDisk shell program) quietEnv
    (bootState whole (fun _ ↦ 0) (fun _ ↦ 0)) s := .boot quietEnv_words hstart
  obtain ⟨hold, hin, -⟩ := hset.kernelStart quietEnv_words bootAllowed_any hstart
  obtain ⟨s', hrun, -, hruns⟩ := exec_total (k := 0) hin (program_stores hp) hprogram hready
    (by decide)
    quietEnv_words hpid zeroRegisters
  have hw : (Entry.syscall (.exec quietEnv filePath []) zeroRegisters).Words := quietEnv_words
  exact ⟨s, s', hboot, hrun, .entry hboot hw (hcond s) hrun, hruns⟩

/-- When the first process does not end itself, the current process is the one
whose task and page directory are in place whenever control comes to user mode. -/
theorem current_agrees
    (h : SystemRun (fun s e ↦ e.Stays s) disk env (bootState whole entries m) s) :
    ∃ x t, Agrees s x t := by
  obtain ⟨_, -, hagrees⟩ := h.inControl bootState_setUp bootAllowed_any
    (fun s e _ _ ↦ e.allowed_any s)
  exact hagrees

theorem current_agrees_sample : ∃ (s : KernelState (KHeap false) Fat16Files) (x : Process) (t : Task),
    SystemRun (fun s e ↦ e.Stays s) (shellDisk sampleImage sampleImage) quietEnv
      (bootState false (fun _ ↦ 0) (fun _ ↦ 0)) s ∧ Agrees s x t := by
  obtain ⟨_, s, -, -, hrun, -⟩ := @exec_run false (fun s e ↦ e.Stays s) _ _ sampleImage_image
    (by decide) sampleImage_image (by decide) (fun _ ↦ trivial)
  obtain ⟨x, t, hagrees⟩ := current_agrees hrun
  exact ⟨s, x, t, hrun, hagrees⟩

end GammaOS.Kernel
