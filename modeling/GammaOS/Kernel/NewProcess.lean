import GammaOS.Kernel.Process
import GammaOS.Paging.SpaceRuns

namespace GammaOS.Kernel

open Function Foundation Foundation.Program Memory Paging Fs Loader

variable {σ δ : Type} [Allocator σ] {env : ProcessEnv} {filename : List UInt8} {alien : ByteMemory}
  {s s' : KernelState σ δ} {p process task stack : ℕ} {data : ProcessData}

def freed (p : ℕ) (b : Arena σ) : Arena σ := { b with heap := Allocator.kfree p b.heap }

theorem kfree_eq_ok {b c : Arena σ} {u : Unit} : kfree p b = .ok (u, c) ↔ c = freed p b := by
  constructor
  · intro h
    cases h
    rfl
  · rintro rfl
    rfl

theorem onHeap_kfree (s : KernelState σ δ) :
    onHeap (kfree p) s = .ok ((), s.setArena (freed p s.arena)) :=
  onHeap_eq_ok.mpr ⟨_, rfl, rfl⟩

theorem onHeap_kfree_eq_ok {u : Unit} :
    onHeap (kfree p) s = .ok (u, s') ↔ s' = s.setArena (freed p s.arena) := by
  rw [onHeap_kfree]
  simp only [Except.ok.injEq, Prod.mk.injEq, true_and]
  exact eq_comm

/-- What `close_task` does: its `kfree` of the task is the second. -/
theorem closeTask_eq_ok {x : ℤ} (h : closeTask task s = .ok (x, s')) :
    ∃ t b l, task ≠ 0 ∧ s.taskList.tasks task = some t ∧
      destroyVirtualAddressSpace t.taskSpace s.arena = .ok ((), b) ∧
      taskListDelete task s.taskList = .ok ((), l) ∧
      s' = { s.setArena (freed task (freed task b)) with taskList := l } := by
  obtain ⟨t, s₁, h₁, h⟩ := bind_eq_ok.mp h
  obtain ⟨ht, htask, rfl⟩ := onTasks_taskAt_eq_ok.mp h₁
  generalize hd : (destroyVirtualAddressSpace t.taskSpace : ArenaM σ Unit) = destroy at h
  obtain ⟨_, s₂, h₂, h⟩ := bind_eq_ok.mp h
  obtain ⟨b, hb, rfl⟩ := onHeap_eq_ok.mp h₂
  rw [← hd] at hb
  obtain ⟨_, s₃, h₃, h⟩ := bind_eq_ok.mp h
  obtain ⟨_, s₄, h₄, h₃⟩ := bind_eq_ok.mp h₃
  obtain ⟨l, hl, rfl⟩ := onTasks_eq_ok.mp h₄
  obtain rfl := onHeap_kfree_eq_ok.mp h₃
  obtain ⟨_, s₅, h₅, h⟩ := bind_eq_ok.mp h
  obtain rfl := onHeap_kfree_eq_ok.mp h₅
  simp only [pure_run, Except.ok.injEq, Prod.mk.injEq] at h
  exact ⟨t, b, l, ht, htask, hb, hl, h.2.symm⟩

def freshTask (alien m : ByteMemory) (space process : ℕ) (data : ProcessData) : Task :=
  ⟨space, initRegisters alien m data, process, 0, 0⟩

/-- The ways `new_task` returns: without memory for the struct, or with a task in the list. -/
inductive TaskResult (alien : ByteMemory) (process : ℕ) (data : ProcessData) (s : KernelState σ δ) :
    ℕ → KernelState σ δ → Prop
  | none {a : Arena σ} : kzalloc taskSize s.arena = .ok (0, a) →
      TaskResult alien process data s 0 (s.setArena a)
  | made {task space : ℕ} {a b : Arena σ} {l : TaskList} :
      kzalloc taskSize s.arena = .ok (task, a) → task ≠ 0 →
      createVirtualAddressSpace (pagePresent ||| pageUserAccess) a = .ok (space, b) →
      taskListAdd task (s.taskList.setTask task (some (freshTask alien b.mem space process data))) =
        .ok ((), l) →
      TaskResult alien process data s task { s.setArena b with taskList := l }

theorem createVirtualAddressSpace_ne_zero {flags : ℕ} {a b : Arena σ}
    (h : createVirtualAddressSpace flags a = .ok (p, b)) : p ≠ 0 := by
  obtain ⟨q, s₁, h₁, h⟩ := bind_eq_ok.mp h
  obtain ⟨pd, s₂, -, h⟩ := bind_eq_ok.mp h
  obtain ⟨_, s₃, -, h⟩ := bind_eq_ok.mp h
  cases h
  exact (kzallocUnchecked_eq_ok.mp h₁).2

theorem newTask_result (h : newTask alien process data s = .ok (task, s')) :
    TaskResult alien process data s task s' := by
  obtain ⟨t, s₁, h₁, h⟩ := bind_eq_ok.mp h
  obtain ⟨a, ha, rfl⟩ := onHeap_eq_ok.mp h₁
  by_cases ht : t = 0
  · rw [if_pos ht] at h
    cases h
    exact .none (ht ▸ ha)
  rw [if_neg ht] at h
  obtain ⟨space, s₂, h₂, h⟩ := bind_eq_ok.mp h
  obtain ⟨b, hb, rfl⟩ := onHeap_eq_ok.mp h₂
  rw [if_neg (createVirtualAddressSpace_ne_zero hb)] at h
  obtain ⟨m, s₃, h₃, h⟩ := bind_eq_ok.mp h
  cases h₃
  obtain ⟨_, s₄, h₄, h⟩ := bind_eq_ok.mp h
  cases h₄
  obtain ⟨_, s₅, h₅, h⟩ := bind_eq_ok.mp h
  obtain ⟨l, hl, rfl⟩ := onTasks_eq_ok.mp h₅
  cases h
  exact .made ha ht hb hl

theorem newTask_made {space : ℕ} {a b : Arena σ} {l : TaskList}
    (ha : kzalloc taskSize s.arena = .ok (task, a)) (ht : task ≠ 0)
    (hb : createVirtualAddressSpace (pagePresent ||| pageUserAccess) a = .ok (space, b))
    (hl : taskListAdd task (s.taskList.setTask task
      (some (freshTask alien b.mem space process data))) = .ok ((), l)) :
    newTask alien process data s = .ok (task, { s.setArena b with taskList := l }) := by
  rw [newTask, bind_run_ok (onHeap_eq_ok.mpr ⟨a, ha, rfl⟩), if_neg ht,
    bind_run_ok (onHeap_eq_ok.mpr ⟨b, hb, rfl⟩), if_neg (createVirtualAddressSpace_ne_zero hb),
    bind_run_ok (gets_run _ _)]
  let t := freshTask alien b.mem space process data
  have hset : onTasks (modifyState (fun l ↦ l.setTask task (some t))) (s.setArena b) =
      .ok ((), { s.setArena b with taskList := s.taskList.setTask task (some t) }) := rfl
  refine (bind_run_ok hset).trans ?_
  exact bind_run_ok (a := ()) (onTasks_eq_ok.mpr ⟨l, hl, rfl⟩)

/-- The struct and the stack of a process are allocated, and its data is loaded. -/
inductive Prepared (env : ProcessEnv) (filename : List UInt8) (s : KernelState σ δ) :
    ℕ → ℕ → ℤ → Option ProcessData → KernelState σ δ → Prop
  | mk {process stack : ℕ} {a b : Arena σ} {status : ℤ} {data : Option ProcessData} {v : Vfs σ δ} :
      kzalloc processSize s.arena = .ok (process, a) → process ≠ 0 →
      filename.length < processNameRoom →
      kzalloc processMaxProcessStackSize a = .ok (stack, b) → stack ≠ 0 →
      processLoadData env filename (s.setArena b).vfs = .ok ((status, data), v) →
      Prepared env filename s process stack status data { s with vfs := v }

theorem Prepared.unique {env : ProcessEnv} {filename : List UInt8} {s s₁ s₂ : KernelState σ δ}
    {p p' stack stack' : ℕ} {status status' : ℤ} {data data' : Option ProcessData}
    (h : Prepared env filename s p stack status data s₁)
    (h' : Prepared env filename s p' stack' status' data' s₂) : data = data' ∧ s₁ = s₂ := by
  obtain ⟨ha, -, -, hb, -, hv⟩ := h
  obtain ⟨ha', -, -, hb', -, hv'⟩ := h'
  cases ha.symm.trans ha'
  cases hb.symm.trans hb'
  cases hv.symm.trans hv'
  exact ⟨rfl, rfl⟩

def mapResult (env : ProcessEnv) (t : Task) (data : ProcessData) (stack : ℕ)
    (s : KernelState σ δ) : ℤ × ByteMemory :=
  processMapMemory env.mapped t.taskSpace data stack s.arena.mem

def KernelState.setMem (s : KernelState σ δ) (m : ByteMemory) : KernelState σ δ :=
  s.setArena { s.arena with mem := m }

def KernelState.register (s : KernelState σ δ) (process : ℕ) (p : Process) : KernelState σ δ :=
  { s with
    processes := update s.processes process (some p)
    processList := update s.processList p.pid process
    currentProcess := if s.currentProcess = 0 then process else s.currentProcess }

inductive NewResult (env : ProcessEnv) (filename : List UInt8) (s : KernelState σ δ) :
    ℕ → KernelState σ δ → Prop
  | noStruct {a : Arena σ} : kzalloc processSize s.arena = .ok (0, a) →
      NewResult env filename s 0 (s.setArena a)
  | noStack {process : ℕ} {a b : Arena σ} : kzalloc processSize s.arena = .ok (process, a) →
      process ≠ 0 → filename.length < processNameRoom →
      kzalloc processMaxProcessStackSize a = .ok (0, b) →
      NewResult env filename s 0 (s.setArena (freed process b))
  | notLoaded {process stack : ℕ} {status : ℤ} {data : Option ProcessData} {s₁ : KernelState σ δ} :
      Prepared env filename s process stack status data s₁ → status < 0 →
      NewResult env filename s 0 (s₁.setArena (freed process (freed stack s₁.arena)))
  | noTask {process stack : ℕ} {status : ℤ} {data : ProcessData} {s₁ s₂ : KernelState σ δ} :
      Prepared env filename s process stack status (some data) s₁ → 0 ≤ status →
      TaskResult env.entry process data s₁ 0 s₂ →
      NewResult env filename s 0 (s₂.setArena (freed process (freed stack s₂.arena)))
  | unmapped {process stack task : ℕ} {status x : ℤ} {data : ProcessData} {t : Task}
      {s₁ s₂ s₃ : KernelState σ δ} :
      Prepared env filename s process stack status (some data) s₁ → 0 ≤ status →
      TaskResult env.entry process data s₁ task s₂ → task ≠ 0 → s₂.taskList.tasks task = some t →
      (mapResult env t data stack s₂).1 < 0 →
      closeTask task ((s₂.setMem (mapResult env t data stack s₂).2).setArena
        (freed stack (s₂.setMem (mapResult env t data stack s₂).2).arena)) = .ok (x, s₃) →
      NewResult env filename s 0 (s₃.setArena (freed process s₃.arena))
  | created {process stack task : ℕ} {status : ℤ} {data : ProcessData} {t : Task}
      {s₁ s₂ : KernelState σ δ} :
      Prepared env filename s process stack status (some data) s₁ → 0 ≤ status →
      TaskResult env.entry process data s₁ task s₂ → task ≠ 0 → s₂.taskList.tasks task = some t →
      0 ≤ (mapResult env t data stack s₂).1 → processGetFreeProcessId s < processMaxProcesses →
      NewResult env filename s process ((s₂.setMem (mapResult env t data stack s₂).2).register
        process (newProcess (processGetFreeProcessId s) filename task data stack))

/-- The test for a full table compares an unsigned value with a negative one. -/
theorem pid_ne_error (pid : ℕ) : (pid : ℤ) ≠ -errMaxProcessLimitReached := by
  have hneg : (-errMaxProcessLimitReached : ℤ) < 0 := by decide
  omega

theorem processNew_result (h : processNew env filename s = .ok (p, s')) :
    NewResult env filename s p s' := by
  obtain ⟨process, s₁, h₁, h⟩ := bind_eq_ok.mp h
  obtain ⟨a, ha, rfl⟩ := onHeap_eq_ok.mp h₁
  by_cases hp : process = 0
  · rw [if_pos hp] at h
    cases h
    exact .noStruct (hp ▸ ha)
  rw [if_neg hp] at h
  obtain ⟨pid, s₂, h₂, h⟩ := bind_eq_ok.mp h
  cases h₂
  rw [if_neg (pid_ne_error _)] at h
  obtain ⟨_, s₃, h₃, h⟩ := bind_eq_ok.mp h
  obtain ⟨hname, rfl⟩ := require_eq_ok.mp h₃
  obtain ⟨stack, s₄, h₄, h⟩ := bind_eq_ok.mp h
  obtain ⟨b, hb, rfl⟩ := onHeap_eq_ok.mp h₄
  by_cases hst : stack = 0
  · rw [if_pos hst] at h
    obtain ⟨_, s₅, h₅, h⟩ := bind_eq_ok.mp h
    cases (onHeap_kfree _).symm.trans h₅
    cases h
    exact .noStack ha hp hname (hst ▸ hb)
  rw [if_neg hst] at h
  obtain ⟨⟨status, data⟩, s₅, h₅, h⟩ := bind_eq_ok.mp h
  obtain ⟨v, hv, rfl⟩ := onVfs_eq_ok.mp h₅
  have hprep : Prepared env filename s process stack status data { s with vfs := v } :=
    .mk ha hp hname hb hst hv
  dsimp only at h
  by_cases hs : status < 0
  · rw [if_pos hs] at h
    obtain ⟨_, s₆, h₆, h⟩ := bind_eq_ok.mp h
    cases (onHeap_kfree _).symm.trans h₆
    obtain ⟨_, s₇, h₇, h⟩ := bind_eq_ok.mp h
    cases (onHeap_kfree _).symm.trans h₇
    cases h
    exact .notLoaded hprep hs
  rw [if_neg hs] at h
  cases data with
  | none => cases h
  | some data =>
    obtain ⟨task, s₆, h₆, h⟩ := bind_eq_ok.mp h
    have hres := newTask_result h₆
    by_cases ht : task = 0
    · rw [if_pos ht] at h
      obtain ⟨_, s₇, h₇, h⟩ := bind_eq_ok.mp h
      cases (onHeap_kfree _).symm.trans h₇
      obtain ⟨_, s₈, h₈, h⟩ := bind_eq_ok.mp h
      cases (onHeap_kfree _).symm.trans h₈
      cases h
      exact .noTask hprep (by omega) (ht ▸ hres)
    rw [if_neg ht] at h
    obtain ⟨t, s₇, h₇, h⟩ := bind_eq_ok.mp h
    obtain ⟨-, htask, rfl⟩ := onTasks_taskAt_eq_ok.mp h₇
    obtain ⟨mapped, s₈, h₈, h⟩ := bind_eq_ok.mp h
    obtain ⟨c, hc, rfl⟩ := onHeap_eq_ok.mp h₈
    obtain ⟨hst₁, rfl⟩ := onMemStatus_eq_ok.mp hc
    by_cases hm : mapped < 0
    · rw [if_pos hm] at h
      obtain ⟨_, s₉, h₉, h⟩ := bind_eq_ok.mp h
      cases (onHeap_kfree _).symm.trans h₉
      obtain ⟨x, s₁₀, h₁₀, h⟩ := bind_eq_ok.mp h
      obtain ⟨_, s₁₁, h₁₁, h⟩ := bind_eq_ok.mp h
      cases (onHeap_kfree _).symm.trans h₁₁
      cases h
      exact .unmapped hprep (by omega) hres ht htask (hst₁ ▸ hm) h₁₀
    · rw [if_neg hm] at h
      obtain ⟨_, s₉, h₉, h⟩ := bind_eq_ok.mp h
      obtain ⟨hpid, rfl⟩ := require_eq_ok.mp h₉
      obtain ⟨_, s₁₀, h₁₀, h⟩ := bind_eq_ok.mp h
      cases h₁₀
      obtain ⟨_, s₁₁, h₁₁, h⟩ := bind_eq_ok.mp h
      cases h₁₁
      cases h
      exact .created hprep (by omega) hres ht htask (Int.not_lt.mp (hst₁ ▸ hm)) hpid

theorem processNew_mapped {status : ℤ} {t : Task} {s₁ s₂ : KernelState σ δ}
    (h : Prepared env filename s process stack status (some data) s₁) (hs : 0 ≤ status)
    (hnew : newTask env.entry process data s₁ = .ok (task, s₂)) (ht : task ≠ 0)
    (htask : s₂.taskList.tasks task = some t) (hm : 0 ≤ (mapResult env t data stack s₂).1) :
    processNew env filename s =
      if processGetFreeProcessId s < processMaxProcesses
      then .ok (process, (s₂.setMem (mapResult env t data stack s₂).2).register process
        (newProcess (processGetFreeProcessId s) filename task data stack))
      else .error Fault.outOfBounds := by
  obtain ⟨ha, hp, hname, hb, hst, hv⟩ := h
  rw [processNew, bind_run_ok (onHeap_eq_ok.mpr ⟨_, ha, rfl⟩), if_neg hp,
    bind_run_ok (gets_run _ _), if_neg (pid_ne_error _), bind_run_ok (require_run hname),
    bind_run_ok (onHeap_eq_ok.mpr ⟨_, hb, rfl⟩), if_neg hst]
  refine (bind_run_ok (onVfs_eq_ok.mpr ⟨_, hv, rfl⟩)).trans ?_
  refine (congrFun (if_neg (Int.not_lt.mpr hs)) _).trans ?_
  refine (bind_run_ok hnew).trans ?_
  rw [if_neg ht, bind_run_ok (onTasks_taskAt_eq_ok.mpr ⟨ht, htask, rfl⟩),
    bind_run_ok (onHeap_eq_ok.mpr ⟨_, onMemStatus_eq_ok.mpr ⟨rfl, rfl⟩, rfl⟩)]
  refine (congrFun (if_neg (Int.not_lt.mpr hm)) _).trans ?_
  by_cases hpid : processGetFreeProcessId s < processMaxProcesses
  · rw [if_pos hpid]
    exact bind_run_ok (a := ()) (require_run hpid)
  · rw [if_neg hpid]
    exact bind_run_error (require_error hpid)

end GammaOS.Kernel
