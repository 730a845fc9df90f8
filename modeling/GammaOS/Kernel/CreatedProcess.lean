import GammaOS.Kernel.NewFrame

namespace GammaOS.Kernel

open Function Foundation Foundation.Program Memory Paging Fs Loader

variable {σ : Type} [Allocator σ] {env : ProcessEnv} {filename : List UInt8}
  {s s' s₁ s₂ : KernelState σ Fat16Files} {p process task stack : ℕ} {data : ProcessData}
  {alien : ByteMemory} {r : Run}

/-- The blocks of a process at `p`, besides its allocations: their addresses,
and the sizes asked for. -/
def Process.blocks (x : Process) (p : ℕ) : List (ℕ × ℕ) :=
  (p, processSize) :: (x.stack, processMaxProcessStackSize) :: (x.task, taskSize) :: x.data.blocks

def Process.runs (x : Process) (p : ℕ) (S : Space) : List Run :=
  (x.blocks p).map (fun b ↦ blockRun b.1 b.2) ++ S.runs

def taskMap : PageMap := fun v ↦ v ||| (pagePresent ||| pageUserAccess)

/-- What a `process_new` that creates the process at `p` does. `s₁` is the state
behind the load of its data. -/
structure Created (env : ProcessEnv) (filename : List UInt8) (s s₁ s' : KernelState σ Fat16Files)
    (p : ℕ) (x : Process) (t : Task) (S : Space) : Prop where
  prepared : ∃ status, 0 ≤ status ∧ Prepared env filename s p x.stack status (some x.data) s₁
  fresh : x = newProcess (processGetFreeProcessId s) filename x.task x.data x.stack
  pid_lt : processGetFreeProcessId s < processMaxProcesses
  grows : Grows s.arena s'.arena
  disks : s'.vfs.disks = s.vfs.disks
  block : ∀ b ∈ x.blocks p, Block s'.arena b.1 b.2
  sizes : ∀ b ∈ x.data.blocks, b.2 < 2 ^ 32
  taken : Taken s.arena s'.arena (x.runs p S)
  loaded : ∀ r ∈ x.data.runs, Kept r s₁.arena s'.arena
  zeroed : ∀ i, x.stack ≤ i → i < x.stack + processMaxProcessStackSize → s'.arena.mem i = 0
  holds : Holds s'.arena.mem S
  space : S.vspace = t.taskSpace
  vspace_lt : S.vspace < 2 ^ 32
  accepted : ∀ c ∈ memoryCalls env.mapped s₁.arena.mem x.data x.stack, c.Accepted
  entry : ∀ v < 2 ^ 32, v % pageSize = 0 → entries s'.arena.mem S v =
    PageMap.mapAll taskMap (memoryCalls env.mapped s₁.arena.mem x.data x.stack) v
  at_task : s'.taskList.tasks x.task = some t
  process_eq : t.process = p
  added : ∃ y, taskListAdd x.task (s.taskList.setTask x.task (some y)) = .ok ((), s'.taskList)
  processes : s'.processes = update s.processes p (some x)
  processList : s'.processList = update s.processList x.pid p
  currentProcess : s'.currentProcess = if s.currentProcess = 0 then p else s.currentProcess
  kernelSpace : s'.kernelSpace = s.kernelSpace

variable [LawfulAllocator σ]

/-- What is in place once the data is loaded and a task is made: the mapping of
the data and the stack has succeeded, and there is a free entry in the table. -/
theorem Prepared.created_apart (hm : Fat16Mounted s.vfs) (henv : env.Words) {status : ℤ} {t : Task}
    (hprep : Prepared env filename s p stack status (some data) s₁) (hs : 0 ≤ status)
    (hnew : TaskResult env.entry p data s₁ task s₂) (ht : task ≠ 0)
    (htask : s₂.taskList.tasks task = some t) (hmapped : 0 ≤ (mapResult env t data stack s₂).1)
    (hpid : processGetFreeProcessId s < processMaxProcesses) :
    ∃ S, Created env filename s s₁ ((s₂.setMem (mapResult env t data stack s₂).2).register p
      (newProcess (processGetFreeProcessId s) filename task data stack)) p
      (newProcess (processGetFreeProcessId s) filename task data stack) t S ∧
      ∀ b ∈ (stack, processMaxProcessStackSize) :: data.blocks, ∀ r ∈ S.runs,
        (blockRun b.1 b.2).Apart r := by
  have hf := hprep.frame hm henv
  obtain ⟨d, hd, hdata, htaken⟩ := hf.loaded hs
  cases hd
  obtain ⟨t', S, hT⟩ := hnew.frame ht
  cases hT.at_task.symm.trans htask
  have hmap : MapFrame env s₁.arena.mem data stack t S s₂ := hT.map hf.stackBlock.lt hdata
  obtain ⟨hacc, hentry⟩ := hmap.entry hmapped
  let s₃ := s₂.setMem (mapResult env t data stack s₂).2
  have hkept : ∀ r ∈ s₁.arena.live, Kept r s₁.arena s₃.arena := by
    intro r hr
    refine ⟨(hT.grows r hr).live, fun i hi ↦ ?_⟩
    exact (hmap.outside i (Space.offTables_of_apart
      (fun q hq ↦ hT.taken.fresh q (List.mem_append_left _ hq) r hr) hi)).trans
        ((hT.grows r hr).bytes i hi)
  have hall : Taken s.arena s₃.arena ((S.runs ++ [blockRun task taskSize]) ++
      (data.runs ++ [blockRun stack processMaxProcessStackSize, blockRun p processSize])) :=
    htaken.append (hT.taken.mono (u := s₃.arena) hT.taken.live) hf.grows
      (fun r hr ↦ hkept r (htaken.live r hr))
  obtain ⟨y, hy⟩ := hT.added
  obtain ⟨v, hs₁⟩ := hprep.state
  obtain ⟨a, l, hs₂⟩ := hnew.state
  let x := newProcess (processGetFreeProcessId s) filename task data stack
  have hblock : ∀ b ∈ x.blocks p, Block s₃.arena b.1 b.2 := by
    have hdata' := fun b hb ↦ (hdata b hb).1.keep (hkept _ (hdata b hb).1.live).live
    refine List.forall_mem_cons.mpr ⟨hf.processBlock.keep (hkept _ hf.processBlock.live).live,
      List.forall_mem_cons.mpr ⟨hf.stackBlock.keep (hkept _ hf.stackBlock.live).live,
      List.forall_mem_cons.mpr ⟨hT.taskBlock.keep hT.taskBlock.live, hdata'⟩⟩⟩
  have hsub : x.runs p S ⊆ (S.runs ++ [blockRun task taskSize]) ++
      (data.runs ++ [blockRun stack processMaxProcessStackSize, blockRun p processSize]) := by
    intro r hr
    simp only [Process.runs, Process.blocks, List.map_cons, List.mem_append, List.mem_cons] at hr ⊢
    simp only [List.not_mem_nil, or_false]
    rcases hr with (hr | hr | hr | hr) | hr
    · exact Or.inr (Or.inr (Or.inr hr))
    · exact Or.inr (Or.inr (Or.inl hr))
    · exact Or.inl (Or.inr hr)
    · exact Or.inr (Or.inl hr)
    · exact Or.inl (Or.inl hr)
  have hzero : ∀ i, stack ≤ i → i < stack + processMaxProcessStackSize →
      s₃.arena.mem i = 0 := by
    intro i h₁ h₂
    have hi := hf.stackBlock.asked_mem (by decide) h₁ h₂
    exact ((hkept _ hf.stackBlock.live).bytes i hi).trans (hf.zeroed i h₁ h₂)
  have hap : ∀ b ∈ (stack, processMaxProcessStackSize) :: data.blocks, ∀ r ∈ S.runs,
      (blockRun b.1 b.2).Apart r := by
    have hlive : ∀ b ∈ (stack, processMaxProcessStackSize) :: data.blocks,
        blockRun b.1 b.2 ∈ s₁.arena.live :=
      List.forall_mem_cons.mpr ⟨hf.stackBlock.live, fun b hb ↦ (hdata b hb).1.live⟩
    exact fun b hb r hr ↦ (hT.taken.fresh r (List.mem_append_left _ hr) _ (hlive b hb)).symm
  refine ⟨S, ⟨⟨status, hs, hprep⟩, rfl, hpid,
    hf.grows.trans (fun r hr ↦ hkept r hr), hT.vfs.trans hf.disks, hblock,
    fun b hb ↦ (hdata b hb).2, hall.subset hsub,
    fun r hr ↦ hkept r (htaken.live r (List.mem_append_left _ hr)), hzero, hmap.holds, hT.space,
    hT.vspace_lt, hacc, hentry, hT.at_task, hT.process_eq, ⟨y, ?_⟩, ?_, ?_, ?_, ?_⟩, hap⟩
  · rw [hs₁] at hy
    exact hy
  all_goals
    subst hs₂
    subst hs₁
    rfl

theorem Prepared.created (hm : Fat16Mounted s.vfs) (henv : env.Words) {status : ℤ} {t : Task}
    (hprep : Prepared env filename s p stack status (some data) s₁) (hs : 0 ≤ status)
    (hnew : TaskResult env.entry p data s₁ task s₂) (ht : task ≠ 0)
    (htask : s₂.taskList.tasks task = some t) (hmapped : 0 ≤ (mapResult env t data stack s₂).1)
    (hpid : processGetFreeProcessId s < processMaxProcesses) :
    ∃ S, Created env filename s s₁ ((s₂.setMem (mapResult env t data stack s₂).2).register p
      (newProcess (processGetFreeProcessId s) filename task data stack)) p
      (newProcess (processGetFreeProcessId s) filename task data stack) t S := by
  obtain ⟨S, hS, -⟩ := hprep.created_apart hm henv hs hnew ht htask hmapped hpid
  exact ⟨S, hS⟩

theorem processNew_apart (hm : Fat16Mounted s.vfs) (henv : env.Words)
    (h : processNew env filename s = .ok (p, s')) (hp : p ≠ 0) :
    ∃ s₁ x t S, Created env filename s s₁ s' p x t S ∧
      ∀ b ∈ (x.stack, processMaxProcessStackSize) :: x.data.blocks, ∀ r ∈ S.runs,
        (blockRun b.1 b.2).Apart r := by
  cases processNew_result h with
  | noStruct _ => exact absurd rfl hp
  | noStack _ _ _ _ => exact absurd rfl hp
  | notLoaded _ _ => exact absurd rfl hp
  | noTask _ _ _ => exact absurd rfl hp
  | unmapped _ _ _ _ _ _ _ => exact absurd rfl hp
  | created hprep hs hnew ht htask hmapped hpid =>
    obtain ⟨S, hS, hap⟩ := hprep.created_apart hm henv hs hnew ht htask hmapped hpid
    exact ⟨_, _, _, S, hS, hap⟩

theorem processNew_made (hm : Fat16Mounted s.vfs) (henv : env.Words)
    (h : processNew env filename s = .ok (p, s')) (hp : p ≠ 0) :
    ∃ s₁ x t S, Created env filename s s₁ s' p x t S := by
  obtain ⟨s₁, x, t, S, hc, -⟩ := processNew_apart hm henv h hp
  exact ⟨s₁, x, t, S, hc⟩

end GammaOS.Kernel
