import GammaOS.Foundation.StepRelation
import GammaOS.Kernel.MachineRuns

namespace GammaOS.Kernel

open Function Foundation Foundation.Program Memory Paging Fs Loader

variable {σ δ α : Type}

section Inner

variable {K : KeyboardBuffer → KeyboardBuffer → Prop} {s s' s'' : KernelState σ δ}

/-- A step within the current process: it goes on, with its number and its task,
and the other processes and the open files are what they were. Its keyboard
buffer has changed as `K` says. -/
structure InnerBy (K : KeyboardBuffer → KeyboardBuffer → Prop) (s s' : KernelState σ δ) : Prop where
  fdList : s'.vfs.fdList = s.vfs.fdList
  processList : s'.processList = s.processList
  currentProcess : s'.currentProcess = s.currentProcess
  curTask : s'.taskList.curTask = s.taskList.curTask
  tail : s'.taskList.taskListTail = s.taskList.taskListTail
  others : ∀ p, p ≠ s.currentProcess → s'.processes p = s.processes p
  own : ∃ k table, s'.processes s.currentProcess =
    (s.processes s.currentProcess).map (fun x ↦ (x.withKeys k).withTable table) ∧
    ∀ x, s.processes s.currentProcess = some x → K x.keyboardBuf k

def anyKeys : KeyboardBuffer → KeyboardBuffer → Prop := fun _ _ ↦ True

instance : IsPreorder KeyboardBuffer anyKeys where
  refl _ := trivial
  trans _ _ _ _ _ := trivial

abbrev Inner : KernelState σ δ → KernelState σ δ → Prop := InnerBy anyKeys

theorem InnerBy.any (h : InnerBy K s s') : Inner s s' :=
  { h with
    own := by
      obtain ⟨k, table, hk, -⟩ := h.own
      exact ⟨k, table, hk, fun _ _ ↦ trivial⟩ }

variable [IsPreorder KeyboardBuffer K]

theorem same_process (K : KeyboardBuffer → KeyboardBuffer → Prop) [IsPreorder KeyboardBuffer K]
    (o : Option Process) : ∃ k table, o = o.map (fun x ↦ (x.withKeys k).withTable table) ∧
      ∀ x, o = some x → K x.keyboardBuf k := by
  cases o with
  | none => exact ⟨⟨fun _ ↦ 0, 0, 0⟩, (fun _ ↦ 0, fun _ ↦ 0), rfl, fun _ h ↦ nomatch h⟩
  | some x =>
    refine ⟨x.keyboardBuf, (x.memAllocations, x.memAllocationsSize), rfl, fun y hy ↦ ?_⟩
    cases hy
    exact refl_of K _

theorem InnerBy.of_eq (hfd : s'.vfs.fdList = s.vfs.fdList) (hl : s'.processList = s.processList)
    (hc : s'.currentProcess = s.currentProcess)
    (ht : s'.taskList.curTask = s.taskList.curTask)
    (htail : s'.taskList.taskListTail = s.taskList.taskListTail)
    (hp : s'.processes = s.processes) : InnerBy K s s' :=
  ⟨hfd, hl, hc, ht, htail, fun p _ ↦ congrFun hp p, hp ▸ same_process K _⟩

theorem InnerBy.refl (s : KernelState σ δ) : InnerBy K s s := .of_eq rfl rfl rfl rfl rfl rfl

theorem InnerBy.trans (h : InnerBy K s s') (h' : InnerBy K s' s'') : InnerBy K s s'' where
  fdList := h'.fdList.trans h.fdList
  processList := h'.processList.trans h.processList
  currentProcess := h'.currentProcess.trans h.currentProcess
  curTask := h'.curTask.trans h.curTask
  tail := h'.tail.trans h.tail
  others p hp := (h'.others p (h.currentProcess ▸ hp)).trans (h.others p hp)
  own := by
    obtain ⟨k, table, hy, hk⟩ := h.own
    obtain ⟨k', table', hz, hk'⟩ := h'.own
    rw [h.currentProcess, hy] at hz hk'
    refine ⟨k', table', by rw [hz, Option.map_map]; rfl, fun x hx ↦ trans_of K (hk x hx) ?_⟩
    exact hk' _ (by rw [hx]; rfl)

instance : IsPreorder (KernelState σ δ) (InnerBy K) where
  refl := InnerBy.refl
  trans _ _ _ := InnerBy.trans

omit [IsPreorder KeyboardBuffer K] in
theorem InnerBy.update {x y : Process} (hx : s.processes s.currentProcess = some x)
    (hy : ∃ k table, y = (x.withKeys k).withTable table ∧ K x.keyboardBuf k)
    (hfd : s'.vfs.fdList = s.vfs.fdList)
    (hl : s'.processList = s.processList) (hc : s'.currentProcess = s.currentProcess)
    (ht : s'.taskList.curTask = s.taskList.curTask)
    (htail : s'.taskList.taskListTail = s.taskList.taskListTail)
    (hp : s'.processes = Function.update s.processes s.currentProcess (some y)) :
    InnerBy K s s' where
  fdList := hfd
  processList := hl
  currentProcess := hc
  curTask := ht
  tail := htail
  others p hne := by rw [hp, update_of_ne hne]
  own := by
    obtain ⟨k, table, rfl, hk⟩ := hy
    refine ⟨k, table, by rw [hp, update_self, hx]; rfl, fun z hz ↦ ?_⟩
    cases hx.symm.trans hz
    exact hk

end Inner

section Steps

variable {K : KeyboardBuffer → KeyboardBuffer → Prop} [IsPreorder KeyboardBuffer K]

theorem onTasks_taskAt_inner {task : ℕ} : Follows (InnerBy K) (onTasks (taskAt task) : KernelM σ δ Task) := by
  intro s t s' h
  obtain ⟨-, -, rfl⟩ := onTasks_taskAt_eq_ok.mp h
  exact .refl s

theorem loadPageDirectory_inner {vspace : ℕ} :
    Follows (InnerBy K) (loadPageDirectory vspace : KernelM σ δ Unit) :=
  .modify (fun _ ↦ .of_eq rfl rfl rfl rfl rfl rfl)

theorem changeToKernelPageDirectory_inner :
    Follows (InnerBy K) (changeToKernelPageDirectory : KernelM σ δ Unit) :=
  (Follows.gets _).bind (fun _ ↦ loadPageDirectory_inner)

theorem changeToGivenTaskPageDirectory_inner {task : ℕ} :
    Follows (InnerBy K) (changeToGivenTaskPageDirectory task : KernelM σ δ Unit) :=
  onTasks_taskAt_inner.bind (fun _ ↦ loadPageDirectory_inner)

theorem changeToCurrentTaskPageDirectory_inner :
    Follows (InnerBy K) (changeToCurrentTaskPageDirectory : KernelM σ δ Unit) :=
  (Follows.gets _).bind (fun _ ↦ changeToGivenTaskPageDirectory_inner)

theorem currentTaskSaveState_inner {iframe : Reg} :
    Follows (InnerBy K) (currentTaskSaveState iframe : KernelM σ δ Unit) := by
  refine (Follows.gets _).bind (fun task ↦ Follows.require.bind (fun _ ↦ ?_))
  intro s u s' h
  obtain ⟨l, hl, rfl⟩ := onTasks_eq_ok.mp h
  obtain ⟨t, l₁, h₁, hl⟩ := bind_eq_ok.mp hl
  obtain ⟨-, -, rfl⟩ := taskAt_eq_ok.mp h₁
  cases hl
  exact .of_eq rfl rfl rfl rfl rfl rfl

section Heap

variable [Allocator σ]

def Command.Inner : Command → Prop
  | .exec _ _ _ => False
  | .exit => False
  | _ => True

def Entry.Inner : Entry → Prop
  | .syscall command _ => command.Inner
  | .keyboard _ _ => True

end Heap

end Steps

variable {whole : Bool} {cond : KernelState (KHeap whole) Fat16Files → Entry → Prop}
  {s s' : KernelState (KHeap whole) Fat16Files}

end GammaOS.Kernel
