import GammaOS.Kernel.TaskListOrder

namespace GammaOS.Kernel

open Foundation Foundation.Program Memory

inductive TaskOp
  | add (t : ℕ) (x : Task)
  | delete (t : ℕ)

/-- The live tasks after a sequence of operations, oldest first. The latest
operation is the first of the list. -/
def liveTasks : List TaskOp → List ℕ
  | [] => []
  | .add t _ :: ops => liveTasks ops ++ [t]
  | .delete t :: ops => (liveTasks ops).erase t

/-- A task made by `kzalloc` at an address not in use, or a member of the list. -/
def TaskOp.Valid (live : List ℕ) : TaskOp → Prop
  | .add t x => t ≠ 0 ∧ t ∉ live ∧ x.nextTask = 0 ∧ x.prevTask = 0
  | .delete t => t ∈ live

def ValidTaskOps : List TaskOp → Prop
  | [] => True
  | op :: ops => op.Valid (liveTasks ops) ∧ ValidTaskOps ops

def TaskOp.run (s : TaskList) : TaskOp → Except Fault TaskList
  | .add t x => (taskListAdd t (s.setTask t (some x))).map Prod.snd
  | .delete t => (taskListDelete t s).map Prod.snd

def runTaskOps : List TaskOp → Except Fault TaskList
  | [] => .ok .empty
  | op :: ops => (runTaskOps ops).bind (fun s ↦ op.run s)

def StaysWellFormed (ops : List TaskOp) : Prop :=
  ∀ ops', ops' <:+ ops → ∃ s, runTaskOps ops' = .ok s ∧ s.WellFormed (liveTasks ops')

def TaskOp.Interior (live : List ℕ) : TaskOp → Prop
  | .add _ _ => True
  | .delete t => live.head? ≠ some t ∧ live.getLast? ≠ some t

def InteriorTaskOps : List TaskOp → Prop
  | [] => True
  | op :: ops => op.Interior (liveTasks ops) ∧ InteriorTaskOps ops

variable {s : TaskList} {live : List ℕ} {t : ℕ} {ops : List TaskOp}

theorem erase_split {l r : List ℕ} (h : t ∉ l) : (l ++ t :: r).erase t = l ++ r := by
  rw [List.erase_append_right _ h, List.erase_cons_head]

theorem delete_wellFormed_iff (h : s.WellFormed live) (ht : t ∈ live) :
    (∃ s', taskListDelete t s = .ok ((), s') ∧ s'.WellFormed (live.erase t)) ↔
      live.head? ≠ some t ∧ live.getLast? ≠ some t := by
  obtain ⟨l, r, rfl⟩ := List.append_of_mem ht
  have htl : t ∉ l := fun hm ↦ (List.nodup_append.mp h.nodup).2.2 t hm t List.mem_cons_self rfl
  rw [erase_split htl]
  constructor
  · rintro ⟨s', hd, hw⟩
    constructor
    · intro hh
      cases l with
      | nil => exact h.delete_head hd hw
      | cons a l =>
        rw [List.cons_append, List.head?_cons, Option.some.injEq] at hh
        exact htl (by simp [hh])
    · intro hh
      rcases List.eq_nil_or_concat r with rfl | ⟨r', b, rfl⟩
      · rcases List.eq_nil_or_concat l with rfl | ⟨l', a, rfl⟩
        · exact h.delete_head hd hw
        · rw [List.concat_eq_append] at h hw
          exact TaskList.WellFormed.delete_tail (l := l') (a := a) (by simpa using h) hd
            (by simpa using hw)
      · rw [show l ++ t :: r'.concat b = (l ++ t :: r') ++ [b] by simp] at hh
        have hb : b = t := Option.some.inj (List.getLast?_concat.symm.trans hh)
        exact (List.nodup_cons.mp (List.nodup_append.mp h.nodup).2.1).1 (by simp [hb])
  · rintro ⟨hh, hl⟩
    rcases List.eq_nil_or_concat l with rfl | ⟨l', a, rfl⟩
    · exact absurd rfl hh
    · cases r with
      | nil => exact absurd (by simp) hl
      | cons b r =>
        rw [List.concat_eq_append] at h ⊢
        have hsplit : s.WellFormed (l' ++ a :: t :: b :: r) := by simpa using h
        simpa using hsplit.delete_middle

theorem run_wellFormed_iff {op : TaskOp} (h : s.WellFormed live) (hv : op.Valid live)
    (hops : liveTasks ops = live) :
    (∃ s', op.run s = .ok s' ∧ s'.WellFormed (liveTasks (op :: ops))) ↔ op.Interior live := by
  have hmap : ∀ (r : Except Fault (Unit × TaskList)) (P : TaskList → Prop),
      (∃ s', r.map Prod.snd = .ok s' ∧ P s') ↔ ∃ s', r = .ok ((), s') ∧ P s' := by
    intro r P
    cases r with
    | error e => simp [Except.map]
    | ok a => obtain ⟨u, s'⟩ := a; simp [Except.map]
  cases op with
  | add t x =>
    obtain ⟨ht0, ht, hn, hp⟩ := hv
    refine iff_of_true ((hmap _ _).mpr ?_) trivial
    rw [liveTasks, hops]
    exact h.add ht0 ht hn hp
  | delete t =>
    rw [liveTasks, hops]
    exact (hmap _ _).trans (delete_wellFormed_iff h hv)

theorem StaysWellFormed.cons_iff {op : TaskOp} :
    StaysWellFormed (op :: ops) ↔ StaysWellFormed ops ∧
      ∃ s, runTaskOps (op :: ops) = .ok s ∧ s.WellFormed (liveTasks (op :: ops)) := by
  constructor
  · intro h
    exact ⟨fun ops' hs ↦ h ops' (hs.trans (List.suffix_cons _ _)), h _ (List.suffix_refl _)⟩
  · rintro ⟨h, hlast⟩ ops' hs
    rcases List.suffix_cons_iff.mp hs with rfl | hs
    · exact hlast
    · exact h ops' hs

theorem empty_wellFormed : TaskList.empty.WellFormed [] where
  nodup := List.nodup_nil
  null := List.not_mem_nil
  linked := trivial
  head_eq := rfl
  tail_eq := rfl
  cur := Or.inl rfl
  tasks := fun _ ↦ by simp [TaskList.empty]

/-- The task list is well formed after each operation of a sequence exactly
when the sequence never deletes the first or the last task of the list. -/
theorem taskList_wellFormed_iff (hv : ValidTaskOps ops) :
    StaysWellFormed ops ↔ InteriorTaskOps ops := by
  induction ops with
  | nil =>
    refine iff_of_true (fun ops' hs ↦ ?_) trivial
    rw [List.suffix_nil.mp hs]
    exact ⟨_, rfl, empty_wellFormed⟩
  | cons op ops ih =>
    rw [StaysWellFormed.cons_iff, InteriorTaskOps, ih hv.2, and_comm]
    refine and_congr_left (fun hi ↦ ?_)
    obtain ⟨s, hs, hw⟩ := (ih hv.2).mpr hi ops (List.suffix_refl _)
    rw [runTaskOps, hs]
    exact run_wellFormed_iff hw hv.1 rfl

def idleTask : Task := ⟨0, ⟨0, 0, 0, 0, 0, 0, 0, 0, 0, 0, 0, 0⟩, 0, 0, 0⟩

theorem taskList_wellFormed_iff_three :
    StaysWellFormed [.delete 2, .add 3 idleTask, .add 2 idleTask, .add 1 idleTask] ↔
      InteriorTaskOps [.delete 2, .add 3 idleTask, .add 2 idleTask, .add 1 idleTask] :=
  taskList_wellFormed_iff (by simp [ValidTaskOps, TaskOp.Valid, liveTasks, idleTask])

/-- After deleting the only task the tail still points to it. -/
theorem delete_only_task_dangles :
    ValidTaskOps [.delete 1, .add 1 idleTask] ∧
      ∃ s, runTaskOps [.delete 1, .add 1 idleTask] = .ok s ∧
        liveTasks [.delete 1, .add 1 idleTask] = [] ∧ s.taskListHead = 0 ∧
        s.taskListTail = 1 ∧ s.tasks 1 = none ∧
        ¬ s.WellFormed (liveTasks [.delete 1, .add 1 idleTask]) := by
  refine ⟨by simp [ValidTaskOps, TaskOp.Valid, liveTasks, idleTask], _, rfl, rfl, rfl, rfl, rfl, ?_⟩
  intro h
  exact absurd h.tail_eq (by decide)

end GammaOS.Kernel
