import GammaOS.Kernel.CreatedProcess

namespace GammaOS.Kernel

open Function Foundation Foundation.Program Memory Paging Fs Loader

variable {σ δ : Type} [Allocator σ] {s s' : KernelState σ δ} {p : ℕ} {r : ℤ} {x : Process} {t : Task}
  {a b : Arena σ} {l : TaskList}

def freedAll (addrs : List ℕ) (b : Arena σ) : Arena σ := addrs.foldl (fun b p ↦ freed p b) b

def Process.killAddrs (x : Process) : List ℕ := x.stack :: x.data.blocks.map Prod.fst

/-- What `process_kill` leaves of the process at `p`, whose address space has
been destroyed in `b` and whose task is out of the list `l`. -/
def KernelState.killed (s : KernelState σ δ) (p : ℕ) (x : Process) (b : Arena σ) (l : TaskList) :
    KernelState σ δ :=
  { s.setArena (freedAll [x.task, x.task, p] b) with
    taskList := l
    processList := update s.processList x.pid 0
    processes := update s.processes p none }

structure Killed (s s' : KernelState σ δ) (p : ℕ) (x : Process) (t : Task) (b : Arena σ)
    (l : TaskList) : Prop where
  at_process : s.processes p = some x
  task_ne : x.task ≠ 0
  at_task : s.taskList.tasks x.task = some t
  destroyed : destroyVirtualAddressSpace t.taskSpace (freedAll x.killAddrs s.arena) = .ok ((), b)
  deleted : taskListDelete x.task s.taskList = .ok ((), l)
  state : s' = s.killed p x b l

theorem killed_of_run {c : Arena σ}
    (h : (do
      let _ ← closeTask x.task
      onHeap (kfree p)
      setProcess p none
      pure (success : ℤ) : KernelM σ δ ℤ) (({ s with
        processList := update s.processList x.pid 0 } : KernelState σ δ).setArena c) = .ok (r, s'))
    (hx : s.processes p = some x) (hc : c = freedAll x.killAddrs s.arena) :
    ∃ t b l, Killed s s' p x t b l := by
  obtain ⟨_, s₁, h₁, h⟩ := bind_eq_ok.mp h
  obtain ⟨t, b, l, ht, htask, hb, hl, rfl⟩ := closeTask_eq_ok h₁
  obtain ⟨_, s₂, h₂, h⟩ := bind_eq_ok.mp h
  obtain rfl := onHeap_kfree_eq_ok.mp h₂
  obtain ⟨_, s₃, h₃, h⟩ := bind_eq_ok.mp h
  cases h₃
  cases h
  subst hc
  exact ⟨t, b, l, hx, ht, htask, hb, hl, rfl⟩

theorem processKill_result (h : processKill p s = .ok (r, s')) (hp : p ≠ 0) :
    ∃ x t b l, Killed s s' p x t b l := by
  rw [processKill, if_neg hp] at h
  obtain ⟨x, s₁, h₁, h⟩ := bind_eq_ok.mp h
  obtain ⟨-, hx, rfl⟩ := processAt_eq_ok.mp h₁
  obtain ⟨_, s₂, h₂, h⟩ := bind_eq_ok.mp h
  cases h₂
  obtain ⟨_, s₃, h₃, h⟩ := bind_eq_ok.mp h
  obtain rfl := onHeap_kfree_eq_ok.mp h₃
  cases hd : x.data with
  | elf elfData =>
    rw [hd] at h
    obtain ⟨_, s₄, h₄, h⟩ := bind_eq_ok.mp h
    obtain ⟨c, hc, rfl⟩ := onHeap_eq_ok.mp h₄
    cases hc
    refine ⟨x, killed_of_run h hx ?_⟩
    rw [Process.killAddrs, hd]
    rfl
  | bin rawData size =>
    rw [hd] at h
    obtain ⟨_, s₄, h₄, h⟩ := bind_eq_ok.mp h
    obtain rfl := onHeap_kfree_eq_ok.mp h₄
    refine ⟨x, killed_of_run h hx ?_⟩
    rw [Process.killAddrs, hd]
    rfl

theorem closeTask_run {task : ℕ} (ht : task ≠ 0) (htask : s.taskList.tasks task = some t)
    (hb : destroyVirtualAddressSpace t.taskSpace s.arena = .ok ((), b))
    (hl : taskListDelete task s.taskList = .ok ((), l)) :
    closeTask task s = .ok ((success : ℤ),
      { s.setArena (freed task (freed task b)) with taskList := l }) := by
  have hlist : onTasks (taskListDelete task) (s.setArena b) =
      .ok ((), { s.setArena b with taskList := l }) := onTasks_eq_ok.mpr ⟨l, hl, rfl⟩
  have hd : deleteTask task (s.setArena b) =
      .ok ((), { s.setArena (freed task b) with taskList := l }) := by
    rw [deleteTask, bind_run_ok hlist]
    exact onHeap_kfree _
  have hdestroy : onHeap (destroyVirtualAddressSpace t.taskSpace) s = .ok ((), s.setArena b) :=
    onHeap_eq_ok.mpr ⟨b, hb, rfl⟩
  rw [closeTask, bind_run_ok (onTasks_taskAt_eq_ok.mpr ⟨ht, htask, rfl⟩)]
  generalize destroyVirtualAddressSpace (σ := σ) t.taskSpace = destroy at hdestroy ⊢
  refine (bind_run_ok hdestroy).trans ?_
  refine (bind_run_ok hd).trans ?_
  exact bind_run_ok (a := ()) (onHeap_kfree _)

theorem processKill_runs (hp : p ≠ 0) (hx : s.processes p = some x) (ht : x.task ≠ 0)
    (htask : s.taskList.tasks x.task = some t)
    (hl : taskListDelete x.task s.taskList = .ok ((), l)) :
    ∃ b, processKill p s = .ok ((success : ℤ), s.killed p x b l) := by
  obtain ⟨b, hb⟩ := destroyVirtualAddressSpace_runs t.taskSpace (freedAll x.killAddrs s.arena)
  refine ⟨b, ?_⟩
  let s₁ : KernelState σ δ := { s with processList := update s.processList x.pid 0 }
  have hclose := closeTask_run (s := s₁.setArena (freedAll x.killAddrs s.arena)) ht htask hb hl
  have htail : (do
      let _ ← closeTask x.task
      onHeap (kfree p)
      setProcess p none
      pure (success : ℤ) : KernelM σ δ ℤ) (s₁.setArena (freedAll x.killAddrs s.arena)) =
      .ok ((success : ℤ), s.killed p x b l) := by
    refine (bind_run_ok hclose).trans ?_
    exact bind_run_ok (a := ()) (onHeap_kfree _)
  rw [processKill, if_neg hp, bind_run_ok (processAt_eq_ok.mpr ⟨hp, hx, rfl⟩)]
  refine (bind_run_ok (a := ()) (t := s₁) rfl).trans ?_
  refine (bind_run_ok (a := ()) (onHeap_kfree _)).trans ?_
  unfold Process.killAddrs at htail
  cases hd : x.data with
  | elf elfData =>
    rw [hd] at htail
    exact (bind_run_ok (a := (success : ℤ)) (onHeap_eq_ok.mpr ⟨_, rfl, rfl⟩)).trans htail
  | bin rawData size =>
    rw [hd] at htail
    exact (bind_run_ok (a := ()) (onHeap_kfree _)).trans htail

end GammaOS.Kernel
