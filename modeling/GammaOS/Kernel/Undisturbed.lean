import GammaOS.Kernel.InControl

namespace GammaOS.Kernel

open Function Foundation Foundation.Program Memory Paging Fs Loader

def Task.context (t : Task) : (ℕ × ℕ) × Reg := (t.place, t.registers)

def TaskList.contextAt (l : TaskList) (u : ℕ) : Option ((ℕ × ℕ) × Reg) :=
  (l.tasks u).map Task.context

theorem context_linkless : Linkless Task.context := fun _ _ ↦ ⟨rfl, rfl⟩

theorem contextAt_eq_some {l : TaskList} {u : ℕ} {c : (ℕ × ℕ) × Reg}
    (h : l.contextAt u = some c) : ∃ t, l.tasks u = some t ∧ t.context = c :=
  Option.map_eq_some_iff.mp h

variable {σ δ α : Type}

section Memory

variable [Allocator σ] {s s' s'' : KernelState σ δ} {p : ℕ} {x : Process} {g : Holding}

/-- The step leaves the process at `p` alone: its struct, its task but for the
links, and every byte of what it holds. -/
structure Undisturbed (p : ℕ) (x : Process) (g : Holding) (s s' : KernelState σ δ) : Prop where
  process : s'.processes p = s.processes p
  context : s'.taskList.contextAt x.task = s.taskList.contextAt x.task
  kept : ∀ r ∈ x.owned p g, Kept r s.arena s'.arena

theorem Undisturbed.trans (h : Undisturbed p x g s s') (h' : Undisturbed p x g s' s'') :
    Undisturbed p x g s s'' where
  process := h'.process.trans h.process
  context := h'.context.trans h.context
  kept r hr := (h.kept r hr).trans (h'.kept r hr)

end Memory

section Loads

variable {s s' : KernelState σ δ}

def Loading (m : KernelM σ δ α) : Prop :=
  ∀ s a s', m s = .ok (a, s') → ∃ d, s' = { s with currentPageDirectory := d }

theorem loadPageDirectory_loading (vspace : ℕ) :
    Loading (loadPageDirectory vspace : KernelM σ δ Unit) := by
  intro s a s' h
  cases h
  exact ⟨_, rfl⟩

theorem changeToKernelPageDirectory_loading :
    Loading (changeToKernelPageDirectory : KernelM σ δ Unit) := by
  intro s a s' h
  obtain ⟨_, s₁, h₁, h⟩ := bind_eq_ok.mp h
  cases h₁
  exact loadPageDirectory_loading _ _ _ _ h

theorem changeToGivenTaskPageDirectory_loading (task : ℕ) :
    Loading (changeToGivenTaskPageDirectory task : KernelM σ δ Unit) := by
  intro s a s' h
  obtain ⟨_, s₁, h₁, h⟩ := bind_eq_ok.mp h
  obtain ⟨-, -, rfl⟩ := onTasks_taskAt_eq_ok.mp h₁
  exact loadPageDirectory_loading _ _ _ _ h

theorem changeToCurrentTaskPageDirectory_loading :
    Loading (changeToCurrentTaskPageDirectory : KernelM σ δ Unit) := by
  intro s a s' h
  obtain ⟨_, s₁, h₁, h⟩ := bind_eq_ok.mp h
  cases h₁
  exact changeToGivenTaskPageDirectory_loading _ _ _ _ h

theorem taskAccessStack_loading (task elem : ℕ) :
    Loading (taskAccessStack task elem : KernelM σ δ ℕ) := by
  intro s a s' h
  obtain ⟨_, s₁, h₁, h⟩ := bind_eq_ok.mp h
  obtain ⟨_, s₂, h₂, h⟩ := bind_eq_ok.mp h
  cases h
  obtain ⟨d, rfl⟩ := changeToGivenTaskPageDirectory_loading _ _ _ _ h₁
  obtain ⟨d', rfl⟩ := changeToKernelPageDirectory_loading _ _ _ h₂
  exact ⟨d', rfl⟩

end Loads

variable [Allocator σ] {rule : PageRule} {s s' s'' s₁ : KernelState σ Fat16Files} {p c : ℕ}
  {x y : Process} {t : Task} {S : Space} {g : Holding} {hold hold' : ℕ → Holding} {env : ProcessEnv}
  {filename : List UInt8} {b : Arena σ} {l : TaskList}

theorem LiveProcess.undisturbed (h : LiveProcess s p x t g) (hu : Undisturbed p x g s s') :
    ∃ t', LiveProcess s' p x t' g ∧ t'.context = t.context ∧
      ∀ v < 2 ^ 32, entries s'.arena.mem g.space v = entries s.arena.mem g.space v := by
  have hcontext : s'.taskList.contextAt x.task = some t.context := by
    rw [hu.context, TaskList.contextAt, h.at_task]
    rfl
  obtain ⟨u, hu', hc⟩ := contextAt_eq_some hcontext
  have hplace : s'.taskList.placeAt x.task = s.taskList.placeAt x.task := by
    rw [TaskList.placeAt, TaskList.placeAt, hu', h.at_task]
    exact congrArg some (congrArg Prod.fst hc)
  obtain ⟨t', ht', he⟩ := h.keep hu.process hplace hu.kept
  cases hu'.symm.trans ht'.at_task
  exact ⟨u, ht', hc, he⟩

def Untouched (hold : ℕ → Holding) (s s' : KernelState σ Fat16Files) : Prop :=
  ∀ p x t, LiveProcess s p x t (hold p) → Undisturbed p x (hold p) s s'

namespace Untouched

theorem of_eq (hp : s'.processes = s.processes) (ht : s'.taskList.tasks = s.taskList.tasks)
    (hg : Grows s.arena s'.arena) : Untouched hold s s' := by
  intro p x t h
  refine ⟨congrFun hp p, ?_, fun r hr ↦ hg r (h.owned_live r hr)⟩
  rw [TaskList.contextAt, TaskList.contextAt, ht]

theorem refl (s : KernelState σ Fat16Files) : Untouched hold s s := of_eq rfl rfl (Grows.refl _)

theorem trans (h : Untouched hold s s') (h' : Untouched hold s' s'') : Untouched hold s s'' := by
  intro p x t hl
  have hu := h p x t hl
  obtain ⟨t', hl', -⟩ := hl.undisturbed hu
  exact hu.trans (h' p x t' hl')

theorem load {m : KernelM σ Fat16Files α} {a : α} (hm : Loading m) (h : m s = .ok (a, s')) :
    Untouched hold s s' := by
  obtain ⟨d, rfl⟩ := hm _ _ _ h
  exact of_eq rfl rfl (Grows.refl _)

theorem copy {task size : ℕ} {data : List UInt8} {r : ℤ × List UInt8}
    (h : copyDataFromTaskToKernel task data size s = .ok (r, s')) (hq : Quiet s s') :
    Untouched hold s s' := by
  refine of_eq ?_ ?_ hq.grows
  all_goals
    unfold copyDataFromTaskToKernel at h
    by_cases hsize : size > pageSize
    · rw [if_pos hsize] at h
      cases h
      rfl
    rw [if_neg hsize] at h
    obtain ⟨base, s₁, h₁, h⟩ := bind_eq_ok.mp h
    obtain ⟨a₁, -, rfl⟩ := onHeap_eq_ok.mp h₁
    by_cases hne : base = 0
    · rw [if_pos hne] at h
      cases h
      rfl
    rw [if_neg hne] at h
    obtain ⟨t', s₂, h₂, h⟩ := bind_eq_ok.mp h
    obtain ⟨-, -, rfl⟩ := onTasks_taskAt_eq_ok.mp h₂
    cases h
    rfl

theorem created (h : KernelInv s hold) (hc : Created env filename s s₁ s' p x t S) :
    Untouched hold s s' := by
  intro q y u hl
  have hq : q ≠ p := by
    rintro rfl
    cases (h.created_none hc).symm.trans hl.at_process
  have hx : y.task ≠ x.task :=
    hc.taken.ne (List.mem_append_left _ (List.mem_map_of_mem (x.task_mem p)))
      (hc.block _ (x.task_mem p)) (hl.block _ (y.task_mem q))
  obtain ⟨z, hz⟩ := hc.added
  refine ⟨by rw [hc.processes, update_of_ne hq], ?_, fun r hr ↦ hc.grows r (hl.owned_live r hr)⟩
  rw [TaskList.contextAt, taskListAdd_view context_linkless hz, TaskList.setTask_other hx]
  rfl

theorem newFailed (hf : NewFailed s s') : Untouched hold s s' := by
  intro q y u hl
  refine ⟨by rw [hf.processes], ?_, fun r hr ↦ hf.grows r (hl.owned_live r hr)⟩
  rcases hf.tasks with hsame | ⟨task, z, l, hfresh, hadd, hdelete⟩
  · rw [hsame]
  · have hx : y.task ≠ task := hfresh.2 _ (hl.block _ (y.task_mem q))
    rw [TaskList.contextAt, taskListDelete_view context_linkless hdelete, if_neg hx,
      taskListAdd_view context_linkless hadd, TaskList.setTask_other hx]
    rfl

omit [Allocator σ] in
theorem run_eq {u : Unit} (h : runProcess c s = .ok (u, s')) : ∃ y d, s.processes c = some y ∧
    s' = { s with
      currentProcess := c
      taskList := { s.taskList with curTask := y.task }
      currentPageDirectory := d } := by
  obtain ⟨_, s₁, h₁, h⟩ := bind_eq_ok.mp h
  cases h₁
  obtain ⟨y, s₂, h₂, h⟩ := bind_eq_ok.mp h
  obtain ⟨-, hy, rfl⟩ := processAt_eq_ok.mp h₂
  obtain ⟨_, s₃, h₃, h⟩ := bind_eq_ok.mp h
  obtain ⟨_, s₄, h₄, h₃⟩ := bind_eq_ok.mp h₃
  cases h₄
  obtain ⟨d, rfl⟩ := changeToGivenTaskPageDirectory_loading _ _ _ _ h₃
  obtain ⟨_, s₅, h₅, h⟩ := bind_eq_ok.mp h
  obtain ⟨-, -, rfl⟩ := onTasks_taskAt_eq_ok.mp h₅
  cases h
  exact ⟨y, d, hy, rfl⟩

theorem run {u : Unit} (h : runProcess c s = .ok (u, s')) : Untouched hold s s' := by
  obtain ⟨y, d, -, rfl⟩ := run_eq h
  exact of_eq rfl rfl (Grows.refl _)

end Untouched

def Aside (hold : ℕ → Holding) (s s' : KernelState σ Fat16Files) : Prop :=
  ∀ p x t, p ≠ s.currentProcess → x.task ≠ s.taskList.curTask → LiveProcess s p x t (hold p) →
    Undisturbed p x (hold p) s s'

theorem Untouched.aside (h : Untouched hold s s') : Aside hold s s' :=
  fun p x t _ _ hl ↦ h p x t hl

namespace Aside

theorem trans (h : Aside hold s s') (h' : Aside hold s' s'')
    (hc : s'.currentProcess = s.currentProcess) (ht : s'.taskList.curTask = s.taskList.curTask) :
    Aside hold s s'' := by
  intro p x t hp hx hl
  have hu := h p x t hp hx hl
  obtain ⟨t', hl', -⟩ := hl.undisturbed hu
  exact hu.trans (h' p x t' (hc ▸ hp) (ht ▸ hx) hl')

theorem thenUntouched (h : Aside hold s s') (h' : Untouched hold s' s'') : Aside hold s s'' := by
  intro p x t hp hx hl
  have hu := h p x t hp hx hl
  obtain ⟨t', hl', -⟩ := hl.undisturbed hu
  exact hu.trans (h' p x t' hl')

theorem setProcess {y : Option Process} :
    Aside hold s { s with processes := update s.processes s.currentProcess y } := by
  intro p x t hp _ h
  exact ⟨update_of_ne hp _ _, rfl, fun r hr ↦ Kept.refl (h.owned_live r hr)⟩

theorem saveState {iframe : Reg} {u : Unit} (h : currentTaskSaveState iframe s = .ok (u, s')) :
    Aside hold s s' := by
  obtain ⟨task, s₁, h₁, h⟩ := bind_eq_ok.mp h
  cases h₁
  obtain ⟨_, s₂, h₂, h⟩ := bind_eq_ok.mp h
  obtain ⟨-, rfl⟩ := require_eq_ok.mp h₂
  obtain ⟨l, hl, rfl⟩ := onTasks_eq_ok.mp h
  obtain ⟨t, l₁, h₃, hl⟩ := bind_eq_ok.mp hl
  obtain ⟨-, -, rfl⟩ := taskAt_eq_ok.mp h₃
  cases hl
  intro p x u _ hx hlive
  refine ⟨rfl, ?_, fun r hr ↦ Kept.refl (hlive.owned_live r hr)⟩
  exact congrArg (Option.map Task.context) (TaskList.setTask_other hx)

theorem put {ch : UInt8} {u : Unit} (h : keyboardPut ch s = .ok (u, s')) : Aside hold s s' := by
  obtain ⟨current, s₀, h₀, h⟩ := bind_eq_ok.mp h
  cases h₀
  by_cases hc : s.currentProcess = 0
  · rw [if_pos hc] at h
    cases h
    exact (Untouched.refl s).aside
  · rw [if_neg hc] at h
    obtain ⟨x, s₁, h₁, h⟩ := bind_eq_ok.mp h
    obtain ⟨-, -, rfl⟩ := processAt_eq_ok.mp h₁
    obtain ⟨x', s₂, h₂, h₃⟩ := bind_eq_ok.mp h
    obtain ⟨-, rfl⟩ := ofExcept_eq_ok.mp h₂
    cases h₃
    exact setProcess

theorem get {ch : UInt8} (h : keyboardGet s = .ok (ch, s')) : Aside hold s s' := by
  obtain ⟨current, s₀, h₀, h⟩ := bind_eq_ok.mp h
  cases h₀
  by_cases hc : s.currentProcess = 0
  · rw [if_pos hc] at h
    cases h
    exact (Untouched.refl s).aside
  · rw [if_neg hc] at h
    obtain ⟨x, s₁, h₁, h⟩ := bind_eq_ok.mp h
    obtain ⟨-, -, rfl⟩ := processAt_eq_ok.mp h₁
    obtain ⟨⟨ch', x'⟩, s₂, h₂, h⟩ := bind_eq_ok.mp h
    obtain ⟨-, rfl⟩ := ofExcept_eq_ok.mp h₂
    obtain ⟨_, s₃, h₃, h₄⟩ := bind_eq_ok.mp h
    cases h₃
    cases h₄
    exact setProcess

theorem call {table : (ℕ → ℕ) × (ℕ → ℕ)} {own : List (ℕ × ℕ)}
    (h : CallStep s s' hold s.currentProcess x table own) : Aside hold s s' := by
  intro p y t hp _ hl
  refine ⟨h.step.others p hp, ?_, h.step.kept p y hp hl.at_process⟩
  rw [h.taskList]

theorem killed [LawfulAllocator σ] (h : KernelInv s hold)
    (hk : Killed s s' s.currentProcess x t b l) : Aside hold s s' := by
  intro q y u hq _ hl
  have hstep := h.killed hk
  obtain ⟨v, hv⟩ := h.live _ x hk.at_process
  have hx : y.task ≠ x.task := hl.task_ne_of_apart hv (h.apart hl.at_process hk.at_process hq)
  refine ⟨hstep.others q hq, ?_, hstep.kept q y hq hl.at_process⟩
  have hlist : s'.taskList = l := by
    rw [hk.state]
    rfl
  rw [hlist, TaskList.contextAt, taskListDelete_view context_linkless hk.deleted, if_neg hx]
  rfl

end Aside

theorem InControl.task_ne (h : InControl rule s hold)
    (hl : LiveProcess s p x t (hold p)) (hp : p ≠ s.currentProcess) :
    x.task ≠ s.taskList.curTask := by
  obtain ⟨y, u, hl', hcur⟩ := h.current_live
  rw [hcur]
  exact hl.task_ne_of_apart hl' (h.apart hl.at_process hl'.at_process hp)

def Process.TablesApart (x : Process) (S : Space) : Prop :=
  ∀ b ∈ x.userBlocks [], ∀ r ∈ S.runs, (blockRun b.1 b.2).Apart r

theorem Process.tablesApart (h : ∀ b ∈ (x.stack, processMaxProcessStackSize) :: x.data.blocks,
    ∀ r ∈ S.runs, (blockRun b.1 b.2).Apart r) : x.TablesApart S := by
  intro b hb
  rcases List.mem_cons.mp hb with rfl | hb
  · exact h _ List.mem_cons_self
  · cases List.mem_singleton.mp hb
    exact h _ (List.mem_cons_of_mem _ x.data.buffer_mem)

/-- What a step does to each process: all but the current one are left alone, and
the current one keeps its stack, its file and its address space, unless it is
new or gone. -/
structure Evolves (hold hold' : ℕ → Holding) (s s' : KernelState σ Fat16Files) : Prop where
  aside : Aside hold s s'
  held : ∀ p, p ≠ s.currentProcess → s.processes p ≠ none → hold' p = hold p
  origin : ∀ p y, s'.processes p = some y →
    (∃ x, s.processes p = some x ∧ y.userBlocks [] = x.userBlocks [] ∧
      (hold' p).space = (hold p).space) ∨ y.TablesApart (hold' p).space

namespace Evolves

theorem of_quiet (hq : Quiet s s') (ha : Aside hold s s') : Evolves hold hold s s' where
  aside := ha
  held _ _ _ := rfl
  origin p y hy := by
    obtain ⟨k, hk⟩ := hq.processes p
    obtain ⟨x, hx, rfl⟩ := Option.map_eq_some_iff.mp (hk.symm.trans hy)
    exact Or.inl ⟨x, hx, rfl, rfl⟩

theorem trans {hold'' : ℕ → Holding} (hin : InControl rule s hold)
    (h : Evolves hold hold' s s') (h' : Evolves hold' hold'' s' s'')
    (hc : s'.currentProcess = s.currentProcess)
    (ht : s'.taskList.curTask = s.taskList.curTask) : Evolves hold hold'' s s'' := by
  have hkept : ∀ p x t, p ≠ s.currentProcess → LiveProcess s p x t (hold p) →
      hold' p = hold p ∧ Undisturbed p x (hold p) s s' := fun p x t hp hl ↦
    ⟨h.held p hp (by rw [hl.at_process]; exact Option.some_ne_none x),
      h.aside p x t hp (hin.task_ne hl hp) hl⟩
  refine ⟨fun p x t hp hx hl ↦ ?_, fun p hp hne ↦ ?_, fun p z hz ↦ ?_⟩
  · obtain ⟨heq, hu⟩ := hkept p x t hp hl
    obtain ⟨t', hl', -⟩ := hl.undisturbed hu
    rw [← heq] at hl' hu ⊢
    exact hu.trans (h'.aside p x t' (hc ▸ hp) (ht ▸ hx) hl')
  · obtain ⟨x, hx⟩ := Option.ne_none_iff_exists'.mp hne
    obtain ⟨t, hl⟩ := hin.live p x hx
    obtain ⟨heq, hu⟩ := hkept p x t hp hl
    exact (h'.held p (hc ▸ hp) (by rw [hu.process]; exact hne)).trans heq
  · rcases h'.origin p z hz with ⟨y, hy, hzy, hs'⟩ | hnew
    · rcases h.origin p y hy with ⟨x, hx, hyx, hs⟩ | hnew
      · exact Or.inl ⟨x, hx, hzy.trans hyx, hs'.trans hs⟩
      · refine Or.inr ?_
        rw [Process.TablesApart, hzy, hs']
        exact hnew
    · exact Or.inr hnew

theorem call {table : (ℕ → ℕ) × (ℕ → ℕ)} {own : List (ℕ × ℕ)}
    (hx : s.processes s.currentProcess = some x)
    (h : CallStep s s' hold s.currentProcess x table own) :
    Evolves hold (update hold s.currentProcess ⟨(hold s.currentProcess).space, own⟩) s s' where
  aside := .call h
  held p hp _ := update_of_ne hp _ _
  origin p y hy := by
    rw [h.processes] at hy
    by_cases hp : p = s.currentProcess
    · subst hp
      rw [update_self] at hy
      cases hy
      exact Or.inl ⟨x, hx, rfl, by rw [update_self]⟩
    · rw [update_of_ne hp] at hy
      exact Or.inl ⟨y, hy, rfl, by rw [update_of_ne hp]⟩

theorem created (h : KernelInv s hold) (hc : Created env filename s s₁ s' p x t S)
    (hap : ∀ b ∈ (x.stack, processMaxProcessStackSize) :: x.data.blocks, ∀ r ∈ S.runs,
      (blockRun b.1 b.2).Apart r) : Evolves hold (update hold p ⟨S, []⟩) s s' where
  aside := (Untouched.created h hc).aside
  held q _ hne := by
    refine update_of_ne ?_ _ _
    rintro rfl
    exact hne (h.created_none hc)
  origin q y hy := by
    rw [hc.processes] at hy
    by_cases hq : q = p
    · subst hq
      rw [update_self] at hy
      cases hy
      refine Or.inr ?_
      rw [update_self]
      exact Process.tablesApart hap
    · rw [update_of_ne hq] at hy
      exact Or.inl ⟨y, hy, rfl, by rw [update_of_ne hq]⟩

theorem newFailed (hf : NewFailed s s') : Evolves hold hold s s' where
  aside := (Untouched.newFailed hf).aside
  held _ _ _ := rfl
  origin _ y hy := Or.inl ⟨y, hf.processes ▸ hy, rfl, rfl⟩

theorem killed [LawfulAllocator σ] (h : KernelInv s hold)
    (hk : Killed s s' s.currentProcess x t b l) : Evolves hold hold s s' where
  aside := .killed h hk
  held _ _ _ := rfl
  origin p y hy := by
    have hp : p ≠ s.currentProcess := by
      rintro rfl
      rw [hk.state] at hy
      cases (update_self _ _ _).symm.trans hy
    exact Or.inl ⟨y, ((h.killed hk).others p hp).symm.trans hy, rfl, rfl⟩

theorem run {u : Unit} (h : runProcess p s = .ok (u, s')) : Evolves hold hold s s' where
  aside := (Untouched.run h).aside
  held _ _ _ := rfl
  origin q y hy := by
    obtain ⟨z, d, -, rfl⟩ := Untouched.run_eq h
    exact Or.inl ⟨y, hy, rfl, rfl⟩

theorem killed_run [LawfulAllocator σ] {u : Unit} (h : KernelInv s hold)
    (hk : Killed s s₁ s.currentProcess x t b l) (hr : runProcess p s₁ = .ok (u, s')) :
    Evolves hold hold s s' where
  aside := (Aside.killed h hk).thenUntouched (.run hr)
  held _ _ _ := rfl
  origin q y hy := by
    obtain ⟨z, d, -, rfl⟩ := Untouched.run_eq hr
    exact (killed h hk).origin q y hy

theorem load {m : KernelM σ Fat16Files α} {a : α} (h : Evolves hold hold' s s') (hm : Loading m)
    (hr : m s' = .ok (a, s'')) : Evolves hold hold' s s'' := by
  obtain ⟨d, rfl⟩ := hm _ _ _ hr
  refine ⟨fun p x t hp hx hl ↦ ?_, h.held, h.origin⟩
  obtain ⟨hprocess, hcontext, hkept⟩ := h.aside p x t hp hx hl
  exact ⟨hprocess, hcontext, hkept⟩

end Evolves

structure Calm (hold : ℕ → Holding) (s s' : KernelState σ Fat16Files) : Prop
    extends Quiet s s' where
  aside : Aside hold s s'

namespace Calm

theorem trans (h : Calm hold s s') (h' : Calm hold s' s'') : Calm hold s s'' where
  toQuiet := h.toQuiet.trans h'.toQuiet
  aside := h.aside.trans h'.aside h.currentProcess h.curTask

theorem evolves (h : Calm hold s s') : Evolves hold hold s s' := .of_quiet h.toQuiet h.aside

theorem load {m : KernelM σ Fat16Files α} {a : α} (hi : Idling m) (hm : Loading m)
    (h : m s = .ok (a, s')) : Calm hold s s' := ⟨(hi _ _ _ h).quiet, (Untouched.load hm h).aside⟩

theorem kernelDirectory {u : Unit} (h : changeToKernelPageDirectory s = .ok (u, s')) :
    Calm hold s s' := .load changeToKernelPageDirectory_idle changeToKernelPageDirectory_loading h

theorem taskDirectory {u : Unit} (h : changeToCurrentTaskPageDirectory s = .ok (u, s')) :
    Calm hold s s' :=
  .load changeToCurrentTaskPageDirectory_idle changeToCurrentTaskPageDirectory_loading h

theorem accessStack {task elem a : ℕ} (h : taskAccessStack task elem s = .ok (a, s')) :
    Calm hold s s' := .load (taskAccessStack_idle _ _) (taskAccessStack_loading _ _) h

theorem saveState {iframe : Reg} {u : Unit} (h : currentTaskSaveState iframe s = .ok (u, s')) :
    Calm hold s s' := ⟨(currentTaskSaveState_idle _ _ _ _ h).quiet, .saveState h⟩

theorem put {ch : UInt8} {u : Unit} (h : keyboardPut ch s = .ok (u, s')) : Calm hold s s' :=
  ⟨keyboardPut_quiet h, .put h⟩

theorem get {ch : UInt8} (h : keyboardGet s = .ok (ch, s')) : Calm hold s s' :=
  ⟨keyboardGet_quiet h, .get h⟩

end Calm

end GammaOS.Kernel
