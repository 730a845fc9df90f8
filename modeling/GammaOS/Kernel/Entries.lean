import GammaOS.Kernel.Undisturbed

namespace GammaOS.Kernel

open Function Foundation Foundation.Program Memory Paging Fs Loader

variable {σ : Type} [Allocator σ] {rule : PageRule} {s s' s₁ : KernelState σ Fat16Files}
  {size addr : ℕ} {hold : ℕ → Holding} {data rest filename : List UInt8} {r : ℤ × List UInt8}
  {command : Command} {ret : Option ℕ} {iframe : Reg} {ch : Option UInt8} {e : Entry}

/-- What a system call does before it comes to the function of its command. -/
def enterKernel {σ δ : Type} (iframe : Reg) : KernelM σ δ Unit := do
  changeToKernelPageDirectory
  currentTaskSaveState iframe

/-- The file that an EXEC names meets the condition where `process_new` is called. -/
def Command.Loads {δ : Type} (P : ProcessEnv → List UInt8 → KernelState σ δ → Prop)
    (s : KernelState σ δ) : Command → Prop
  | .exec env data rest => ∀ filename s₁, execFilename data rest s = .ok (filename, s₁) →
      P env filename s₁
  | _ => True

def Command.Allowed (rule : PageRule) (s : KernelState σ Fat16Files) : Command → Prop
  | .malloc size => MallocAllowed rule s size
  | .free base => FreeAllowed rule s base
  | command => command.Loads (NewAllowed rule) s

def Entry.Meets {σ δ : Type} (P : KernelState σ δ → Command → Prop) (s : KernelState σ δ) :
    Entry → Prop
  | .syscall command iframe => ∀ s₁, enterKernel iframe s = .ok ((), s₁) → P s₁ command
  | .keyboard _ _ => True

def Entry.Allowed (rule : PageRule) (s : KernelState σ Fat16Files) (e : Entry) : Prop :=
  e.Meets (Command.Allowed rule) s

def Command.Words : Command → Prop
  | .malloc size => size < 2 ^ 32
  | .exec env _ _ => env.Words
  | _ => True

def Entry.Words : Entry → Prop
  | .syscall command _ => command.Words
  | .keyboard _ _ => True

theorem MallocAllowed.idle (h : MallocAllowed rule s size) (hs : Idle s s') :
    MallocAllowed rule s' size := by
  intro x base b hx
  rw [hs.processes, hs.currentProcess] at hx
  rw [hs.arena]
  exact h x base b hx

omit [Allocator σ] in
theorem FreeAllowed.idle (h : FreeAllowed rule s addr) (hs : Idle s s') :
    FreeAllowed rule s' addr := by
  intro x i hx
  rw [hs.processes, hs.currentProcess] at hx
  exact h x i hx

theorem InControl.idle (h : InControl rule s hold) (hs : Idle s s') : InControl rule s' hold :=
  h.quiet hs.quiet

/-- How an EXEC ends: without a process, or in the process it has created. -/
inductive ExecResult (env : ProcessEnv) (data rest : List UInt8) (s s' : KernelState σ Fat16Files) :
    Option ℕ → Prop
  | failed {filename : List UInt8} {s₁ : KernelState σ Fat16Files}
      (h₁ : execFilename data rest s = .ok (filename, s₁))
      (h₂ : processNew env filename s₁ = .ok (0, s')) (hf : NewFailed s₁ s') :
      ExecResult env data rest s s' (some (negU32 errProcessCreationFailed))
  | ran {filename : List UInt8} {s₁ s₂ s₃ : KernelState σ Fat16Files} {p : ℕ} {x : Process}
      {t : Task} {S : Space} (h₁ : execFilename data rest s = .ok (filename, s₁))
      (h₂ : processNew env filename s₁ = .ok (p, s₂)) (hc : Created env filename s₁ s₃ s₂ p x t S)
      (hap : ∀ b ∈ (x.stack, processMaxProcessStackSize) :: x.data.blocks, ∀ r ∈ S.runs,
        (blockRun b.1 b.2).Apart r)
      (h₃ : runProcess p s₂ = .ok ((), s')) : ExecResult env data rest s s' none

namespace InControl

variable [LawfulAllocator σ]

theorem copy {task : ℕ} (h : InControl rule s hold) (htask : task = s.taskList.curTask)
    (hr : copyDataFromTaskToKernel task data size s = .ok (r, s')) :
    Calm hold s s' ∧ Untouched hold s s' := by
  obtain ⟨x, t, hl, hcur⟩ := h.current_live
  have hr' := hr
  rw [htask, hcur] at hr
  have hquiet := copyDataFromTaskToKernel_quiet hl.at_task hl.space hl.holds
    (fun r hr ↦ hl.owned_live r (Process.space_owned hr)) hr
  exact ⟨⟨hquiet, (Untouched.copy hr' hquiet).aside⟩, .copy hr' hquiet⟩

theorem execFilename_calm (h : InControl rule s hold)
    (hr : execFilename data rest s = .ok (filename, s')) :
    Calm hold s s' ∧ Untouched hold s s' := by
  obtain ⟨_, s₁, h₁, hr⟩ := bind_eq_ok.mp hr
  cases h₁
  obtain ⟨_, s₂, h₂, hr⟩ := bind_eq_ok.mp hr
  have hidle := taskAccessStack_idle _ _ _ _ _ h₂
  obtain ⟨r, s₃, h₃, hr⟩ := bind_eq_ok.mp hr
  cases hr
  obtain ⟨hcalm, hu⟩ := (h.idle hidle).copy hidle.curTask.symm h₃
  exact ⟨(Calm.accessStack h₂).trans hcalm, (Untouched.load (taskAccessStack_loading _ _) h₂).trans hu⟩

theorem print (h : InControl rule s hold)
    (hr : commandHandler (.print data) s = .ok (ret, s')) :
    Calm hold s s' ∧ ret = some success := by
  obtain ⟨_, s₁, h₁, hr⟩ := bind_eq_ok.mp hr
  cases h₁
  obtain ⟨_, s₂, h₂, hr⟩ := bind_eq_ok.mp hr
  have hidle := taskAccessStack_idle _ _ _ _ _ h₂
  obtain ⟨_, s₃, h₃, hr⟩ := bind_eq_ok.mp hr
  cases h₃
  obtain ⟨r, s₄, h₄, hr⟩ := bind_eq_ok.mp hr
  cases hr
  exact ⟨(Calm.accessStack h₂).trans ((h.idle hidle).copy rfl h₄).1, rfl⟩

theorem exec_result {env : ProcessEnv} (h : InControl rule s hold) (henv : env.Words)
    (hr : commandHandler (.exec env data rest) s = .ok (ret, s')) :
    ExecResult env data rest s s' ret := by
  obtain ⟨filename, s₁, h₁, hr⟩ := bind_eq_ok.mp hr
  have hmounted := (h.quiet (h.execFilename_calm h₁).1.toQuiet).mounted
  obtain ⟨p, s₂, h₂, hr⟩ := bind_eq_ok.mp hr
  by_cases hp : p = 0
  · subst hp
    rw [if_pos rfl] at hr
    cases hr
    exact .failed h₁ h₂ (processNew_failed hmounted henv h₂)
  · rw [if_neg hp] at hr
    obtain ⟨_, s₃, h₃, hr⟩ := bind_eq_ok.mp hr
    cases hr
    obtain ⟨_, x, t, S, hc, hap⟩ := processNew_apart hmounted henv h₂ hp
    exact .ran h₁ h₂ hc hap h₃

theorem exec {env : ProcessEnv} (h : InControl rule s hold) (henv : env.Words)
    (hok : (Command.exec env data rest).Allowed rule s)
    (hr : commandHandler (.exec env data rest) s = .ok (ret, s')) :
    ∃ hold', InControl rule s' hold' ∧ Evolves hold hold' s s' ∧
      (ret = none → ∃ x t, Agrees s' x t) := by
  cases h.exec_result henv hr with
  | failed h₁ h₂ hf =>
    obtain ⟨hcalm, -⟩ := h.execFilename_calm h₁
    exact ⟨hold, (h.quiet hcalm.toQuiet).newFailed hf,
      hcalm.evolves.trans h (.newFailed hf) hcalm.currentProcess hcalm.curTask, nofun⟩
  | ran h₁ h₂ hc hap h₃ =>
    obtain ⟨hcalm, -⟩ := h.execFilename_calm h₁
    have hquiet := h.quiet hcalm.toQuiet
    have hcreated := hquiet.created hc (hok _ _ h₁)
    obtain ⟨hrun, hagrees⟩ := InControl.run hcreated.toSound hcreated.gshell h₃
    have hev := (Evolves.created hquiet.toKernelInv hc hap).trans hquiet (.run h₃)
      (hquiet.created_current hc).1 (hquiet.created_current hc).2
    exact ⟨_, hrun, hcalm.evolves.trans h hev hcalm.currentProcess hcalm.curTask, fun _ ↦ hagrees⟩

theorem not_first {p : ℕ} {x : Process} {t : Task} {b : Arena σ} {l : TaskList}
    (h : InControl rule s hold) (hk : Killed s s₁ p x t b l)
    (hr : processBackToGshell s₁ = .ok ((), s')) : p ≠ s.processList 0 := by
  intro hp
  obtain ⟨y, hy, -⟩ := h.gshell
  obtain ⟨u, hu⟩ := h.live _ y hy
  have hx := hk.at_process
  rw [hp] at hx
  cases hx.symm.trans hy
  have hne : s.processList 0 ≠ 0 := hu.ne_zero
  obtain ⟨z, hz, hz0⟩ := h.slots 0 (by decide) hne
  cases hy.symm.trans hz
  have hgone : s₁.processList 0 = 0 := by
    rw [hk.state]
    show update s.processList x.pid 0 0 = 0
    rw [hz0, update_self]
  obtain ⟨gshell, s₂, h₂, hr⟩ := bind_eq_ok.mp hr
  cases h₂
  obtain ⟨_, s₃, h₃, hr⟩ := bind_eq_ok.mp hr
  cases h₃
  obtain ⟨_, s₄, h₄, -⟩ := bind_eq_ok.mp hr
  exact (processAt_eq_ok.mp h₄).1 hgone

theorem exit (h : InControl rule s hold) (hr : commandHandler .exit s = .ok (ret, s')) :
    InControl rule s' hold ∧ Evolves hold hold s s' ∧ ∃ x t, Agrees s' x t := by
  obtain ⟨_, s₁, h₁, hr⟩ := bind_eq_ok.mp hr
  cases h₁
  obtain ⟨status, s₂, h₂, hr⟩ := bind_eq_ok.mp hr
  obtain ⟨_, s₃, h₃, hr⟩ := bind_eq_ok.mp hr
  cases hr
  obtain ⟨x, t, hl, -⟩ := h.current_live
  obtain ⟨_, _, _, _, hk⟩ := processKill_result h₂ hl.ne_zero
  obtain ⟨hsound, hg⟩ := h.killed hk (h.not_first hk h₃)
  obtain ⟨h', hagrees⟩ := InControl.run hsound hg h₃
  exact ⟨h', .killed_run h.toKernelInv hk h₃, hagrees⟩

/-- Every command that returns, or goes to a task, leaves the kernel in control,
and the processes but the current one as they were. -/
theorem handler (h : InControl rule s hold) (hw : command.Words)
    (hok : command.Allowed rule s) (hr : commandHandler command s = .ok (ret, s')) :
    ∃ hold', InControl rule s' hold' ∧ Evolves hold hold' s s' ∧
      (ret = none → ∃ x t, Agrees s' x t) := by
  cases command with
  | print data =>
    obtain ⟨hcalm, rfl⟩ := h.print hr
    exact ⟨hold, h.quiet hcalm.toQuiet, hcalm.evolves, nofun⟩
  | getch =>
    obtain ⟨c, s₁, h₁, hr⟩ := bind_eq_ok.mp hr
    cases hr
    exact ⟨hold, h.quiet (keyboardGet_quiet h₁), (Calm.get h₁).evolves, nofun⟩
  | putch =>
    obtain ⟨_, s₁, h₁, hr⟩ := bind_eq_ok.mp hr
    cases h₁
    obtain ⟨_, s₂, h₂, hr⟩ := bind_eq_ok.mp hr
    cases hr
    exact ⟨hold, h.idle (taskAccessStack_idle _ _ _ _ _ h₂), (Calm.accessStack h₂).evolves, nofun⟩
  | malloc size =>
    obtain ⟨_, s₁, h₁, hr⟩ := bind_eq_ok.mp hr
    cases h₁
    obtain ⟨size', s₂, h₂, hr⟩ := bind_eq_ok.mp hr
    have hidle := taskAccessStack_idle _ _ _ _ _ h₂
    cases taskAccessStack_elem h₂
    obtain ⟨base, s₃, h₃, hr⟩ := bind_eq_ok.mp hr
    cases hr
    obtain ⟨x, table, own, hx, hcall, h'⟩ := (h.idle hidle).malloc hw (hok.idle hidle) h₃
    exact ⟨_, h', (Calm.accessStack h₂).evolves.trans h (.call hx hcall) hidle.currentProcess
      hidle.curTask, nofun⟩
  | free base =>
    obtain ⟨_, s₁, h₁, hr⟩ := bind_eq_ok.mp hr
    cases h₁
    obtain ⟨base', s₂, h₂, hr⟩ := bind_eq_ok.mp hr
    have hidle := taskAccessStack_idle _ _ _ _ _ h₂
    cases taskAccessStack_elem h₂
    obtain ⟨base, s₃, h₃, hr⟩ := bind_eq_ok.mp hr
    cases hr
    obtain ⟨x, table, own, hx, hcall, h'⟩ := (h.idle hidle).free (hok.idle hidle) h₃
    exact ⟨_, h', (Calm.accessStack h₂).evolves.trans h (.call hx hcall) hidle.currentProcess
      hidle.curTask, nofun⟩
  | exec env data rest => exact h.exec hw hok hr
  | exit =>
    obtain ⟨h', hev, hagrees⟩ := h.exit hr
    exact ⟨hold, h', hev, fun _ ↦ hagrees⟩
  | unknown =>
    cases hr
    exact ⟨hold, h, Evolves.of_quiet (Quiet.refl s) (Untouched.refl s).aside, nofun⟩

theorem syscall (h : InControl rule s hold) (hw : command.Words)
    (hok : (Entry.syscall command iframe).Allowed rule s)
    (hr : isr0x80Handler command iframe s = .ok ((), s')) :
    ∃ hold', InControl rule s' hold' ∧ Evolves hold hold' s s' ∧ ∃ x t, Agrees s' x t := by
  obtain ⟨_, s₁, h₁, hr⟩ := bind_eq_ok.mp hr
  obtain ⟨_, s₂, h₂, hr⟩ := bind_eq_ok.mp hr
  obtain ⟨ret, s₃, h₃, hr⟩ := bind_eq_ok.mp hr
  have henter : enterKernel iframe s = .ok ((), s₂) := bind_eq_ok.mpr ⟨(), s₁, h₁, h₂⟩
  have hidle : Idle s s₂ := (changeToKernelPageDirectory_idle _ _ _ h₁).trans
    (currentTaskSaveState_idle _ _ _ _ h₂)
  have hcalm : Calm hold s s₂ := (Calm.kernelDirectory h₁).trans (.saveState h₂)
  obtain ⟨hold', h', hev, hagrees⟩ := (h.idle hidle).handler hw (hok s₂ henter) h₃
  have hev' := hcalm.evolves.trans h hev hidle.currentProcess hidle.curTask
  cases ret with
  | none =>
    cases hr
    exact ⟨hold', h', hev', hagrees rfl⟩
  | some ret =>
    obtain ⟨hback, hagrees⟩ := h'.back hr
    exact ⟨hold', hback, hev'.load changeToCurrentTaskPageDirectory_loading hr, hagrees⟩

omit [LawfulAllocator σ] in
theorem ps2_calm {u : Unit} (hr : ps2InterruptHandler ch s = .ok (u, s')) : Calm hold s s' := by
  obtain ⟨_, s₁, h₁, hr⟩ := bind_eq_ok.mp hr
  have hload : Calm hold s s₁ := .kernelDirectory h₁
  cases ch with
  | none =>
    cases hr
    exact hload
  | some ch =>
    obtain ⟨_, s₂, h₂, hr⟩ := bind_eq_ok.mp hr
    have hput := hload.trans (.put h₂)
    obtain ⟨task, s₃, h₃, hr⟩ := bind_eq_ok.mp hr
    cases h₃
    by_cases ht : s₂.taskList.curTask = 0
    · rw [if_pos ht] at hr
      cases hr
      exact hput
    · rw [if_neg ht] at hr
      exact hput.trans (.taskDirectory hr)

theorem interrupt {handler : Option (KernelM σ Fat16Files Unit)} (h : InControl rule s hold)
    (hcalm : ∀ f ∈ handler, ∀ s s', f s = .ok ((), s') → Calm hold s s')
    (hr : interruptHandler handler iframe s = .ok ((), s')) :
    InControl rule s' hold ∧ Evolves hold hold s s' ∧ ∃ x t, Agrees s' x t := by
  obtain ⟨_, s₁, h₁, hr⟩ := bind_eq_ok.mp hr
  have hload : Calm hold s s₁ := .kernelDirectory h₁
  obtain ⟨_, s₂, h₂, hr⟩ := bind_eq_ok.mp hr
  have hhandled : Calm hold s s₂ := by
    cases handler with
    | none =>
      cases h₂
      exact hload
    | some f =>
      obtain ⟨x, t, hl, hcur⟩ := (h.quiet hload.toQuiet).current_live
      have hne : s₁.taskList.curTask ≠ 0 := hcur ▸ hl.task_ne
      obtain ⟨task, s₃, h₃, h₂⟩ := bind_eq_ok.mp h₂
      cases h₃
      rw [if_neg hne] at h₂
      obtain ⟨_, s₄, h₄, h₂⟩ := bind_eq_ok.mp h₂
      exact (hload.trans (.saveState h₄)).trans (hcalm f rfl _ _ h₂)
  have h' := h.quiet hhandled.toQuiet
  obtain ⟨x, t, hl, hcur⟩ := h'.current_live
  obtain ⟨task, s₅, h₅, hr⟩ := bind_eq_ok.mp hr
  cases h₅
  have hne : s₂.taskList.curTask ≠ 0 := hcur ▸ hl.task_ne
  rw [if_neg hne] at hr
  obtain ⟨hback, hagrees⟩ := h'.back hr
  exact ⟨hback, (hhandled.trans (.taskDirectory hr)).evolves, hagrees⟩

theorem keyboard (h : InControl rule s hold)
    (hr : generalInterruptHandler ch iframe s = .ok ((), s')) :
    InControl rule s' hold ∧ Evolves hold hold s s' ∧ ∃ x t, Agrees s' x t := by
  rw [generalInterruptHandler_eq] at hr
  refine h.interrupt (fun f hf s s' hs ↦ ?_) hr
  cases hf
  exact ps2_calm hs

/-- Whenever control returns to user mode the kernel has been left in control, and
the processes but the one that was current are as they were. -/
theorem entry_evolves (h : InControl rule s hold) (hw : e.Words) (hok : e.Allowed rule s)
    (hr : e.run s = .ok ((), s')) :
    ∃ hold', InControl rule s' hold' ∧ Evolves hold hold' s s' ∧ ∃ x t, Agrees s' x t := by
  cases e with
  | syscall command iframe => exact h.syscall hw hok hr
  | keyboard ch iframe => exact ⟨hold, h.keyboard hr⟩

theorem entry (h : InControl rule s hold) (hw : e.Words) (hok : e.Allowed rule s)
    (hr : e.run s = .ok ((), s')) :
    ∃ hold', InControl rule s' hold' ∧ ∃ x t, Agrees s' x t := by
  obtain ⟨hold', h', -, hagrees⟩ := h.entry_evolves hw hok hr
  exact ⟨hold', h', hagrees⟩

end InControl

end GammaOS.Kernel
