import GammaOS.Foundation.LinkedList
import GammaOS.Foundation.Program
import GammaOS.Memory.Arena

namespace GammaOS.Kernel

open Function Foundation Foundation.Program Memory

structure Reg where
  eax : ℕ
  ebx : ℕ
  ecx : ℕ
  edx : ℕ
  esi : ℕ
  edi : ℕ
  esp : ℕ
  ebp : ℕ
  ip : ℕ
  cs : ℕ
  ss : ℕ
  flags : ℕ
deriving DecidableEq

structure Task where
  taskSpace : ℕ
  registers : Reg
  process : ℕ
  nextTask : ℕ
  prevTask : ℕ
deriving DecidableEq

/-- The tasks that are allocated, by address, and the globals of the task list. -/
structure TaskList where
  tasks : ℕ → Option Task
  curTask : ℕ
  taskListHead : ℕ
  taskListTail : ℕ

def TaskList.empty : TaskList := ⟨fun _ ↦ none, 0, 0, 0⟩

def TaskList.setTask (s : TaskList) (p : ℕ) (t : Option Task) : TaskList :=
  { s with tasks := update s.tasks p t }

abbrev TaskM := Program Fault TaskList

def taskAt (p : ℕ) : TaskM Task := fun s ↦
  if p = 0 then .error .nullDeref
  else match s.tasks p with
    | none => .error .dangling
    | some t => .ok (t, s)

def setNext (p next : ℕ) : TaskM Unit := do
  let t ← taskAt p
  modifyState (fun s ↦ s.setTask p (some { t with nextTask := next }))

def setPrev (p prev : ℕ) : TaskM Unit := do
  let t ← taskAt p
  modifyState (fun s ↦ s.setTask p (some { t with prevTask := prev }))

def taskListAdd (task : ℕ) : TaskM Unit := do
  let s ← getState
  if s.taskListHead = 0 then
    modifyState (fun s ↦ { s with taskListHead := task, taskListTail := task, curTask := task })
  else
    setNext s.taskListTail task
    setPrev task s.taskListTail
    let tail ← taskAt s.taskListTail
    modifyState (fun s ↦ { s with taskListTail := tail.nextTask })

/-- The first test of `task_list_delete`: takes the task out of the links. -/
def taskListUnlink (task : ℕ) : TaskM Unit := do
  let s ← getState
  if task = s.taskListHead then
    let head ← taskAt s.taskListHead
    modifyState (fun s ↦ { s with taskListHead := head.nextTask })
  else if task = s.taskListTail then
    let tail ← taskAt s.taskListTail
    modifyState (fun s ↦ { s with taskListTail := tail.prevTask })
  else
    let t ← taskAt task
    setNext t.prevTask t.nextTask
    let t ← taskAt task
    setPrev t.nextTask t.prevTask

/-- The second test of `task_list_delete`: moves `cur_task` on from the task. -/
def taskListAdvance (task : ℕ) : TaskM Unit := do
  let s ← getState
  if task = s.curTask then
    let t ← taskAt task
    modifyState (fun s ↦ { s with curTask := t.nextTask })

/-- The last step is the `kfree` of the task, as the list sees it. -/
def taskListDelete (task : ℕ) : TaskM Unit := do
  taskListUnlink task
  taskListAdvance task
  modifyState (fun s ↦ s.setTask task none)

def nextTask : TaskM ℕ := do
  let s ← getState
  let t ← taskAt s.curTask
  if t.nextTask = 0 then pure s.taskListHead else pure t.nextTask

namespace TaskList

def next (s : TaskList) (p : ℕ) : ℕ := (s.tasks p).elim 0 Task.nextTask

def prev (s : TaskList) (p : ℕ) : ℕ := (s.tasks p).elim 0 Task.prevTask

variable {s : TaskList} {p q : ℕ} {x : Task}

theorem next_of_some (h : s.tasks p = some x) : s.next p = x.nextTask := by
  rw [next, h]
  rfl

theorem prev_of_some (h : s.tasks p = some x) : s.prev p = x.prevTask := by
  rw [prev, h]
  rfl

theorem setTask_self (s : TaskList) (p : ℕ) (o : Option Task) : (s.setTask p o).tasks p = o :=
  update_self _ _ _

theorem setTask_other {o : Option Task} (h : q ≠ p) : (s.setTask p o).tasks q = s.tasks q :=
  update_of_ne h _ _

end TaskList

open TaskList

variable {s : TaskList} {p t n : ℕ} {x : Task}

theorem taskAt_run (hp : p ≠ 0) (h : s.tasks p = some x) : taskAt p s = .ok (x, s) := by
  rw [taskAt, if_neg hp, h]

theorem setNext_run (hp : p ≠ 0) (h : s.tasks p = some x) :
    setNext p n s = .ok ((), s.setTask p (some { x with nextTask := n })) := by
  rw [setNext, bind_run_ok (taskAt_run hp h)]
  rfl

theorem setPrev_run (hp : p ≠ 0) (h : s.tasks p = some x) :
    setPrev p n s = .ok ((), s.setTask p (some { x with prevTask := n })) := by
  rw [setPrev, bind_run_ok (taskAt_run hp h)]
  rfl

theorem taskListAdd_first (h : s.taskListHead = 0) :
    taskListAdd t s = .ok ((), { s with taskListHead := t, taskListTail := t, curTask := t }) := by
  rw [taskListAdd, bind_run_ok (getState_run s), if_pos h]
  rfl

theorem taskListAdd_behind {a : ℕ} {y : Task} (h : s.taskListHead ≠ 0) (ha : s.taskListTail = a)
    (ha0 : a ≠ 0) (ht0 : t ≠ 0) (hat : t ≠ a) (hx : s.tasks a = some x) (hy : s.tasks t = some y) :
    taskListAdd t s = .ok ((), { (s.setTask a (some { x with nextTask := t })).setTask t
      (some { y with prevTask := a }) with taskListTail := t }) := by
  have hy' : (s.setTask a (some { x with nextTask := t })).tasks t = some y := by
    rw [setTask_other hat, hy]
  have hx' : ((s.setTask a (some { x with nextTask := t })).setTask t
      (some { y with prevTask := a })).tasks a = some { x with nextTask := t } := by
    rw [setTask_other hat.symm, setTask_self]
  rw [taskListAdd, bind_run_ok (getState_run s), if_neg h, ha, bind_run_ok (setNext_run ha0 hx),
    bind_run_ok (setPrev_run ht0 hy'), bind_run_ok (taskAt_run ha0 hx')]
  rfl

theorem taskListAdvance_run (ht : t ≠ 0) (hx : s.tasks t = some x) :
    taskListAdvance t s =
      .ok ((), { s with curTask := if t = s.curTask then x.nextTask else s.curTask }) := by
  rw [taskListAdvance, bind_run_ok (getState_run s)]
  by_cases hc : t = s.curTask
  · rw [if_pos hc, if_pos hc, bind_run_ok (taskAt_run ht hx)]
    rfl
  · rw [if_neg hc, if_neg hc]
    rfl

theorem taskListDelete_run {s₁ : TaskList} (ht : t ≠ 0) (hu : taskListUnlink t s = .ok ((), s₁))
    (hx : s₁.tasks t = some x) :
    taskListDelete t s = .ok ((), { s₁ with
      tasks := update s₁.tasks t none
      curTask := if t = s₁.curTask then x.nextTask else s₁.curTask }) := by
  rw [taskListDelete, bind_run_ok hu, bind_run_ok (taskListAdvance_run ht hx)]
  rfl

theorem taskListUnlink_head (ht : t ≠ 0) (hh : s.taskListHead = t) (hx : s.tasks t = some x) :
    taskListUnlink t s = .ok ((), { s with taskListHead := x.nextTask }) := by
  rw [taskListUnlink, bind_run_ok (getState_run s), if_pos hh.symm, hh,
    bind_run_ok (taskAt_run ht hx)]
  rfl

theorem taskListUnlink_tail (ht : t ≠ 0) (hh : s.taskListHead ≠ t) (htl : s.taskListTail = t)
    (hx : s.tasks t = some x) :
    taskListUnlink t s = .ok ((), { s with taskListTail := x.prevTask }) := by
  rw [taskListUnlink, bind_run_ok (getState_run s), if_neg hh.symm, if_pos htl.symm, htl,
    bind_run_ok (taskAt_run ht hx)]
  rfl

theorem taskListUnlink_middle {a b : ℕ} {y z : Task} (ht : t ≠ 0) (hh : s.taskListHead ≠ t)
    (htl : s.taskListTail ≠ t) (hx : s.tasks t = some x) (ha : x.prevTask = a)
    (hb : x.nextTask = b) (ha0 : a ≠ 0) (hb0 : b ≠ 0) (hta : t ≠ a) (hba : b ≠ a)
    (hy : s.tasks a = some y) (hz : s.tasks b = some z) :
    taskListUnlink t s = .ok ((), (s.setTask a (some { y with nextTask := b })).setTask b
      (some { z with prevTask := a })) := by
  have hx' : (s.setTask a (some { y with nextTask := b })).tasks t = some x := by
    rw [setTask_other hta, hx]
  have hz' : (s.setTask a (some { y with nextTask := b })).tasks b = some z := by
    rw [setTask_other hba, hz]
  rw [taskListUnlink, bind_run_ok (getState_run s), if_neg hh.symm, if_neg htl.symm,
    bind_run_ok (taskAt_run ht hx), ha, hb, bind_run_ok (setNext_run ha0 hy),
    bind_run_ok (taskAt_run ht hx'), ha, hb, setPrev_run hb0 hz']

end GammaOS.Kernel
