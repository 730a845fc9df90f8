import GammaOS.Kernel.SystemRuns
import GammaOS.Memory.FreeCount

namespace GammaOS.Kernel

open Function Foundation Foundation.Program Memory Paging Fs Loader

/-! The model ends where the code follows a pointer that leads to no object. The
code goes on there, so what is said of runs is said of those without such a step. -/

def BadPointer : Fault → Prop
  | .nullDeref | .dangling | .outOfBounds => True
  | _ => False

def FollowsGood {τ α : Type} (m : Program Fault τ α) (s : τ) : Prop :=
  ∀ e, m s = .error e → ¬ BadPointer e

variable {whole : Bool} {env : ProcessEnv} {filename : List UInt8} {alien : ByteMemory}
  {disk : Disk} {s s₀ s₁ s₂ : KernelState (KHeap whole) Fat16Files} {p n : ℕ} {data : ProcessData}
  {P : ProcessEnv → List UInt8 → KernelState (KHeap whole) Fat16Files → Prop}

/-- What `process_new` uses without a check is there: room for the name in its
struct, the pointers that the load of the file follows, behind it the blocks of
a task and its address space (unless not even the task is granted), and a free
entry in the process list. -/
structure Served (env : ProcessEnv) (filename : List UInt8)
    (s : KernelState (KHeap whole) Fat16Files) : Prop where
  named : filename.length < processNameRoom
  load : ∀ p a stack b, kzalloc processSize s.arena = .ok (p, a) → p ≠ 0 →
    kzalloc processMaxProcessStackSize a = .ok (stack, b) → stack ≠ 0 →
      FollowsGood (processLoadData env filename) (s.setArena b).vfs
  room : ∀ p stack status data s₁, Prepared env filename s p stack status (some data) s₁ →
    0 ≤ status → s₁.arena.freeCount = 0 ∨ 1028 ≤ s₁.arena.freeCount
  listed : processGetFreeProcessId s < processMaxProcesses

/-- An EXEC is served, and its file meets the condition. An EXIT is not that of
the first process. -/
def Command.Serves (P : ProcessEnv → List UInt8 → KernelState (KHeap whole) Fat16Files → Prop)
    (s : KernelState (KHeap whole) Fat16Files) (command : Command) : Prop :=
  command.Stays s ∧
    command.Loads (fun env filename s ↦ Served env filename s ∧ P env filename s) s

structure Boots (P : ProcessEnv → List UInt8 → KernelState (KHeap whole) Fat16Files → Prop)
    (disk : Disk) (env : ProcessEnv) (s₀ : KernelState (KHeap whole) Fat16Files) : Prop where
  setup : FollowsGood (kernelSetup disk) s₀
  served : ∀ s, kernelSetup disk s₀ = .ok ((), s) → Served env gshellPath s
  shell : ∀ s, kernelSetup disk s₀ = .ok ((), s) → P env gshellPath s

theorem FollowsGood.of_ok {τ α : Type} {m : Program Fault τ α} {s t : τ} {a : α}
    (h : m s = .ok (a, t)) : FollowsGood m s := by
  intro e he
  cases h.symm.trans he

theorem FollowsGood.bind {τ α β : Type} {m : Program Fault τ α} {f : α → Program Fault τ β} {s : τ}
    (hm : FollowsGood m s) (hf : ∀ a t, m s = .ok (a, t) → FollowsGood (f a) t) :
    FollowsGood (m >>= f) s := by
  intro e he
  cases hs : m s with
  | error e' =>
    rw [bind_run_error hs] at he
    cases he
    exact hm _ hs
  | ok r =>
    obtain ⟨a, t⟩ := r
    rw [bind_run_ok hs] at he
    exact hf a t hs e he

theorem FollowsGood.onVfs {α : Type} {m : VfsM (KHeap whole) Fat16Files α}
    (h : FollowsGood m s.vfs) : FollowsGood (Kernel.onVfs m) s := by
  intro e he
  unfold Kernel.onVfs onPart at he
  split at he
  · cases he
  · next hm =>
    cases he
    exact h _ hm

/-- With a block for each request, or for none, `new_task` follows no bad pointer,
and the task that it makes can be taken from the list again. -/
theorem newTask_good (h : Addable s) (hr : s.arena.freeCount = 0 ∨ 1028 ≤ s.arena.freeCount) :
    ∃ task s', newTask alien p data s = .ok (task, s') ∧
      (task ≠ 0 → s'.taskList.taskListTail = task) := by
  rcases hr with hfull | hroom
  · obtain ⟨-, hz⟩ | ⟨_, _, -, hcount, -⟩ := kzallocOne_cases (n := taskSize) (by decide) s.arena
    · refine ⟨0, s.setArena s.arena, ?_, fun h0 ↦ absurd rfl h0⟩
      rw [newTask, bind_run_ok (onHeap_eq_ok.mpr ⟨_, hz, rfl⟩)]
      rfl
    · omega
  · obtain ⟨task, s', hnew, ht, htail, -⟩ := @newTask_room _ _ _ data alien p 0 _ _ freeCount_blocks h
      (by simpa using hroom)
    exact ⟨task, s', hnew, fun _ ↦ htail⟩

theorem closeTask_good {task : ℕ} {t : Task} (ht : task ≠ 0)
    (htask : s.taskList.tasks task = some t) (htail : s.taskList.taskListTail = task) :
    ∃ x s', closeTask task s = .ok (x, s') := by
  obtain ⟨b, hb⟩ := destroyVirtualAddressSpace_runs t.taskSpace s.arena
  have hdelete : ∃ l, taskListDelete task s.taskList = .ok ((), l) := by
    by_cases hhead : s.taskList.taskListHead = task
    · exact ⟨_, taskListDelete_run ht (taskListUnlink_head ht hhead htask) htask⟩
    · exact ⟨_, taskListDelete_run ht (taskListUnlink_tail ht hhead htail htask) htask⟩
  obtain ⟨l, hl⟩ := hdelete
  exact ⟨_, _, closeTask_run ht htask hb hl⟩

/-- A `process_new` that is served follows no bad pointer. -/
theorem Served.processNew_good (h : Served env filename s) (hm : Fat16Mounted s.vfs)
    (henv : env.Words) (hadd : Addable s) : FollowsGood (processNew env filename) s := by
  refine FollowsGood.bind (.of_ok rfl) (fun process s₁ h₁ ↦ ?_)
  obtain ⟨a, ha, rfl⟩ := onHeap_eq_ok.mp h₁
  by_cases hp : process = 0
  · rw [if_pos hp]
    exact .of_ok rfl
  rw [if_neg hp]
  refine FollowsGood.bind (.of_ok rfl) (fun pid s₂ h₂ ↦ ?_)
  cases h₂
  rw [if_neg (pid_ne_error _)]
  refine FollowsGood.bind (.of_ok (require_run h.named)) (fun _ s₂ h₂ ↦ ?_)
  obtain ⟨-, rfl⟩ := require_eq_ok.mp h₂
  refine FollowsGood.bind (.of_ok rfl) (fun stack s₃ h₃ ↦ ?_)
  obtain ⟨b, hb, rfl⟩ := onHeap_eq_ok.mp h₃
  by_cases hst : stack = 0
  · rw [if_pos hst]
    exact .of_ok rfl
  rw [if_neg hst]
  refine FollowsGood.bind (.onVfs (h.load _ _ _ _ ha hp hb hst)) (fun r s₄ h₄ ↦ ?_)
  obtain ⟨status, data⟩ := r
  obtain ⟨v, hv, rfl⟩ := onVfs_eq_ok.mp h₄
  have hprep : Prepared env filename s process stack status data { s with vfs := v } :=
    .mk ha hp h.named hb hst hv
  dsimp only
  by_cases hs : status < 0
  · rw [if_pos hs]
    exact .of_ok rfl
  rw [if_neg hs]
  have hf := hprep.frame hm henv
  obtain ⟨d, rfl, -⟩ := hf.loaded (Int.not_lt.mp hs)
  have hadded : Addable { s with vfs := v } := hadd.mono rfl hf.grows
  obtain ⟨task, s₅, hnew, htail⟩ : ∃ task s₅, newTask env.entry process d _ = .ok (task, s₅) ∧
      (task ≠ 0 → s₅.taskList.taskListTail = task) :=
    newTask_good hadded (h.room _ _ _ _ _ hprep (Int.not_lt.mp hs))
  refine FollowsGood.bind (.of_ok hnew) (fun task' s₆ h₆ ↦ ?_)
  cases hnew.symm.trans h₆
  by_cases ht : task = 0
  · rw [if_pos ht]
    exact .of_ok rfl
  rw [if_neg ht]
  obtain ⟨t, S, hT⟩ := (newTask_result hnew).frame ht
  refine FollowsGood.bind (.of_ok (onTasks_taskAt_eq_ok.mpr ⟨ht, hT.at_task, rfl⟩)) (fun t' s₆ h₆ ↦ ?_)
  obtain ⟨-, -, rfl⟩ := onTasks_taskAt_eq_ok.mp h₆
  refine FollowsGood.bind (.of_ok rfl) (fun mapped s₇ h₇ ↦ ?_)
  obtain ⟨c, hc, rfl⟩ := onHeap_eq_ok.mp h₇
  by_cases hmap : mapped < 0
  · rw [if_pos hmap]
    refine FollowsGood.bind (.of_ok rfl) (fun _ s₈ h₈ ↦ ?_)
    obtain rfl := onHeap_kfree_eq_ok.mp h₈
    obtain ⟨x, s₉, hclose⟩ := @closeTask_good _ ((s₅.setArena c).setArena
      (freed stack (s₅.setArena c).arena)) task t ht hT.at_task (htail ht)
    exact FollowsGood.bind (.of_ok hclose) (fun _ _ _ ↦ .of_ok rfl)
  · rw [if_neg hmap]
    exact FollowsGood.bind (.of_ok (require_run h.listed)) (fun _ _ _ ↦ .of_ok rfl)

theorem served_image {v : Fat16Volume} {us : List (List UInt8)} {content : List UInt8}
    {f₀ : Fat16File} {cluster : ℕ} (hv : Stores v us content f₀ cluster) (hc : Image content)
    (h : Ready v n (6 * us.length + 1053) s) (hn : n < fsTotalFileDescriptors) (henv : env.Words)
    (hpid : processGetFreeProcessId s < processMaxProcesses) : Served env (drivePath us) s := by
  obtain ⟨p, stack, _, _, _, _, _, hi⟩ := image_mapped (k := 0) hv hc
    (h.mono (Nat.le_of_eq (Nat.zero_add _))) hn henv
  obtain ⟨ha, -, hname, hb, -, hload⟩ := hi.prepared
  refine ⟨hname, fun p' a' stack' b' ha' _ hb' _ ↦ ?_, fun p' stack' status data s₁ hprep _ ↦ ?_, hpid⟩
  · cases ha.symm.trans ha'
    cases hb.symm.trans hb'
    exact .of_ok hload
  · obtain ⟨_, -, -, hroom⟩ := prepared_image hv hc h hn henv hprep
    exact Or.inr hroom.freeCount

end GammaOS.Kernel
