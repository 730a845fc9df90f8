import GammaOS.Kernel.InnerSteps

namespace GammaOS.Kernel

open Function Foundation Foundation.Program Memory Paging Fs Loader

section Entries

variable {σ : Type} [Allocator σ] [LawfulAllocator σ] {rule : PageRule}
  {s s' : KernelState σ Fat16Files} {hold : ℕ → Holding} {p : ℕ} {x : Process} {t : Task}
  {g : Holding} {iframe : Reg} {env : ProcessEnv} {data rest : List UInt8}

omit [LawfulAllocator σ] in
theorem LiveProcess.entered (hl : LiveProcess s p x t g)
    (hr : enterKernel iframe s = .ok ((), s')) :
    ∃ t', LiveProcess s' p x t' g ∧ t'.taskSpace = t.taskSpace ∧
      t'.registers = if x.task = s.taskList.curTask then iframe else t.registers := by
  obtain ⟨_, s₁, h₁, hr⟩ := bind_eq_ok.mp hr
  have hidle := (changeToKernelPageDirectory_idle _ _ _ h₁).trans
    (currentTaskSaveState_idle _ _ _ _ hr)
  obtain ⟨t', hl', -⟩ := hl.keep (congrFun hidle.processes p) (hidle.placeAt x.task)
    (fun r hr ↦ hidle.quiet.grows r (hl.owned_live r hr))
  refine ⟨t', hl', hl'.space.symm.trans hl.space, ?_⟩
  have hat := hl'.at_task
  obtain ⟨d, rfl⟩ := changeToKernelPageDirectory_loading _ _ _ h₁
  obtain ⟨task, s₂, h₂, hr⟩ := bind_eq_ok.mp hr
  cases h₂
  obtain ⟨_, s₃, h₃, hr⟩ := bind_eq_ok.mp hr
  obtain ⟨-, rfl⟩ := require_eq_ok.mp h₃
  obtain ⟨l, hsave, rfl⟩ := onTasks_eq_ok.mp hr
  obtain ⟨u, l₁, h₄, hsave⟩ := bind_eq_ok.mp hsave
  obtain ⟨-, hu, rfl⟩ := taskAt_eq_ok.mp h₄
  cases hsave
  by_cases hx : x.task = s.taskList.curTask
  · rw [if_pos hx]
    rw [hx] at hat
    cases (TaskList.setTask_self ..).symm.trans hat
    rfl
  · rw [if_neg hx]
    cases (hl.at_task.symm.trans (TaskList.setTask_other hx).symm).trans hat
    rfl

end Entries

variable {whole : Bool} {disk : Disk} {env : ProcessEnv} {entries : ℕ → UInt8} {m : ByteMemory}
  {s s₁ s₂ s₃ : KernelState (KHeap whole) Fat16Files} {p : ℕ}
  {cond : KernelState (KHeap whole) Fat16Files → Entry → Prop}

def ProgramSteps (cond : KernelState (KHeap whole) Fat16Files → Entry → Prop) :
    KernelState (KHeap whole) Fat16Files → KernelState (KHeap whole) Fat16Files → Prop :=
  Relation.ReflTransGen (MachineStep (fun s e ↦ cond s e ∧ e.Inner))

theorem MachineStep.mono {cond' : KernelState (KHeap whole) Fat16Files → Entry → Prop}
    (h : MachineStep cond s s₁) (hc : ∀ s e, cond s e → cond' s e) : MachineStep cond' s s₁ := by
  cases h with
  | entry hw hcond hr => exact .entry hw (hc _ _ hcond) hr
  | interrupt hh hr => exact .interrupt hh hr
  | store hv hr => exact .store hv hr

theorem ProgramSteps.steps (h : ProgramSteps cond s s₁) :
    Relation.ReflTransGen (MachineStep cond) s s₁ := by
  refine Relation.ReflTransGen.mono (fun _ _ hstep ↦ ?_) _ _ h
  exact MachineStep.mono hstep (fun _ _ hc ↦ hc.1)

section Program

variable {rule : PageRule} {hold : ℕ → Holding} {x : Process} {t : Task} {child : ℕ} {y : Process}
  {iframe iframe' : Reg} {data rest : List UInt8} {env' : ProcessEnv}

end Program

end GammaOS.Kernel
