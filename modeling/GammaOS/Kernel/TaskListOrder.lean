import GammaOS.Kernel.TaskList

namespace GammaOS.Kernel

open Function Foundation Foundation.Program Memory TaskList

variable {s : TaskList} {live : List ℕ} {t : ℕ} {x : Task}

theorem behind_tasks (s : TaskList) (x y : Task) (a t u : ℕ) :
    (((s.setTask t (some x)).setTask a (some { y with nextTask := t })).setTask t
      (some { x with prevTask := a })).tasks u =
      if u = t then some { x with prevTask := a }
      else if u = a then some { y with nextTask := t } else s.tasks u := by
  by_cases hut : u = t
  · rw [if_pos hut, hut, setTask_self]
  · rw [if_neg hut, setTask_other hut]
    by_cases hua : u = a
    · rw [if_pos hua, hua, setTask_self]
    · rw [if_neg hua, setTask_other hua, setTask_other hut]

namespace TaskList

/-- The list is well formed and holds exactly the live tasks, oldest first. -/
structure WellFormed (s : TaskList) (live : List ℕ) : Prop where
  nodup : live.Nodup
  null : 0 ∉ live
  linked : Linked s.next s.prev 0 live 0
  head_eq : s.taskListHead = live.headD 0
  tail_eq : s.taskListTail = live.getLastD 0
  cur : s.curTask = 0 ∨ s.curTask ∈ live
  tasks : ∀ t, (s.tasks t).isSome ↔ t ∈ live

theorem WellFormed.task (h : s.WellFormed live) (ht : t ∈ live) :
    t ≠ 0 ∧ ∃ x, s.tasks t = some x :=
  ⟨fun h0 ↦ h.null (h0 ▸ ht), Option.isSome_iff_exists.mp ((h.tasks t).mpr ht)⟩

theorem WellFormed.head_ne (h : s.WellFormed live) (hne : live ≠ []) : s.taskListHead ≠ 0 := by
  obtain ⟨a, l, rfl⟩ := List.exists_cons_of_ne_nil hne
  rw [h.head_eq]
  exact (h.task List.mem_cons_self).1

theorem WellFormed.add_first (h : s.WellFormed []) (ht0 : t ≠ 0) (hn : x.nextTask = 0)
    (hp : x.prevTask = 0) :
    ∃ s', taskListAdd t (s.setTask t (some x)) = .ok ((), s') ∧ s'.WellFormed [t] := by
  have hx : (s.setTask t (some x)).tasks t = some x := setTask_self _ _ _
  refine ⟨_, taskListAdd_first h.head_eq, by simp, by simpa using ht0.symm, ?_, rfl,
    rfl, Or.inr (List.mem_singleton_self t), fun u ↦ ?_⟩
  · exact ⟨(prev_of_some hx).trans hp, (next_of_some hx).trans hn, trivial⟩
  · show ((s.setTask t (some x)).tasks u).isSome ↔ _
    by_cases hu : u = t
    · simp [hu, setTask_self]
    · have := h.tasks u
      simp [setTask_other hu, hu] at this ⊢
      exact this

theorem WellFormed.add_behind {l : List ℕ} {a : ℕ} (h : s.WellFormed (l ++ [a])) (ht0 : t ≠ 0)
    (ht : t ∉ l ++ [a]) (hn : x.nextTask = 0) :
    ∃ s', taskListAdd t (s.setTask t (some x)) = .ok ((), s') ∧
      s'.WellFormed (l ++ [a] ++ [t]) := by
  have hal : a ∈ l ++ [a] := by simp
  obtain ⟨ha0, y, hy⟩ := h.task hal
  have hat : t ≠ a := fun he ↦ ht (he ▸ hal)
  have htail : s.taskListTail = a := by rw [h.tail_eq]; simp
  have hy' : (s.setTask t (some x)).tasks a = some y := by rw [setTask_other hat.symm, hy]
  have hu := behind_tasks s x y a t
  refine ⟨_, taskListAdd_behind (h.head_ne (by simp)) htail ha0 ht0 hat hy' (setTask_self _ _ _), ?_⟩
  have hhead : (((s.setTask t (some x)).setTask a (some { y with nextTask := t })).setTask t
      (some { x with prevTask := a })).taskListHead = s.taskListHead := rfl
  have hcur : (((s.setTask t (some x)).setTask a (some { y with nextTask := t })).setTask t
      (some { x with prevTask := a })).curTask = s.curTask := rfl
  generalize ((s.setTask t (some x)).setTask a (some { y with nextTask := t })).setTask t
    (some { x with prevTask := a }) = s₁ at hu hhead hcur ⊢
  have hnext : ∀ b, s₁.next b = if b = t then 0 else if b = a then t else s.next b := by
    intro b
    rw [next, hu]
    split_ifs
    · exact hn
    · rfl
    · rfl
  have hprev : ∀ b, s₁.prev b = if b = t then a else s.prev b := by
    intro b
    rw [prev, hu]
    split_ifs with h₁ h₂
    · rfl
    · rw [h₂, prev_of_some hy]
      rfl
    · rfl
  refine ⟨?_, ?_, ?_, ?_, ?_, ?_, fun u ↦ ?_⟩
  · exact List.nodup_append.mpr ⟨h.nodup, by simp, fun b hb c hc ↦ by
      rw [List.mem_singleton.mp hc]
      exact fun he ↦ ht (he ▸ hb)⟩
  · have h0 := h.null
    simp only [List.mem_append, List.mem_singleton, not_or] at h0 ⊢
    exact ⟨h0, ht0.symm⟩
  · rw [List.append_assoc]
    refine h.linked.push ht h.nodup (fun b h₁ h₂ ↦ ?_) (fun b h₁ ↦ ?_) ?_ ?_ ?_
    · exact (hnext b).trans ((if_neg h₂).trans (if_neg h₁))
    · exact (hprev b).trans (if_neg h₁)
    · exact (hnext a).trans ((if_neg hat.symm).trans (if_pos rfl))
    · exact (hprev t).trans (if_pos rfl)
    · exact (hnext t).trans (if_pos rfl)
  · show s₁.taskListHead = _
    rw [hhead, h.head_eq]
    cases l <;> rfl
  · simp
  · show s₁.curTask = 0 ∨ s₁.curTask ∈ _
    rw [hcur]
    exact h.cur.imp_right (List.mem_append_left _)
  · show (s₁.tasks u).isSome ↔ _
    have := h.tasks u
    rw [hu]
    split_ifs with h₁ h₂
    · simp [h₁]
    · simp [h₂]
    · rw [this]
      simp [h₁]

theorem WellFormed.add (h : s.WellFormed live) (ht0 : t ≠ 0) (ht : t ∉ live)
    (hn : x.nextTask = 0) (hp : x.prevTask = 0) :
    ∃ s', taskListAdd t (s.setTask t (some x)) = .ok ((), s') ∧ s'.WellFormed (live ++ [t]) := by
  rcases List.eq_nil_or_concat live with rfl | ⟨l, a, rfl⟩
  · exact h.add_first ht0 hn hp
  · rw [List.concat_eq_append] at *
    exact h.add_behind ht0 ht hn

theorem nodup_middle {l₁ l₂ : List ℕ} {a b : ℕ} (h : (l₁ ++ a :: t :: b :: l₂).Nodup) :
    (l₁ ++ a :: b :: l₂).Nodup ∧ t ∉ l₁ ++ a :: b :: l₂ ∧ a ≠ b ∧ a ≠ t ∧ b ≠ t := by
  have hp : (l₁ ++ a :: t :: b :: l₂).Perm (t :: (l₁ ++ a :: b :: l₂)) := by
    rw [show l₁ ++ a :: t :: b :: l₂ = (l₁ ++ [a]) ++ t :: b :: l₂ by simp,
      show l₁ ++ a :: b :: l₂ = (l₁ ++ [a]) ++ b :: l₂ by simp]
    exact List.perm_middle
  obtain ⟨ht, hnd⟩ := List.nodup_cons.mp (hp.nodup_iff.mp h)
  have hab := (List.nodup_cons.mp (List.nodup_append.mp hnd).2.1).1
  exact ⟨hnd, ht, fun he ↦ hab (by simp [he]), fun he ↦ ht (by simp [he]), fun he ↦ ht (by simp [he])⟩

theorem WellFormed.middle_of {s' : TaskList} {l₁ l₂ : List ℕ} {a b : ℕ} {y z : Task}
    (h : s.WellFormed (l₁ ++ a :: t :: b :: l₂)) (hx : s.tasks t = some x) (hnext : x.nextTask = b)
    (hprev : x.prevTask = a) (hy : s.tasks a = some y) (hz : s.tasks b = some z)
    (hu : ∀ u, s'.tasks u = if u = t then none else if u = b then some { z with prevTask := a }
      else if u = a then some { y with nextTask := b } else s.tasks u)
    (hhead : s'.taskListHead = s.taskListHead) (htail : s'.taskListTail = s.taskListTail)
    (hcur : s'.curTask = if t = s.curTask then b else s.curTask) :
    s'.WellFormed (l₁ ++ a :: b :: l₂) := by
  obtain ⟨hnd, ht, hab, hat, hbt⟩ := nodup_middle h.nodup
  have hsn : ∀ u, u ≠ a → u ≠ t → s'.next u = s.next u := by
    intro u hua hut
    rw [next, hu, if_neg hut]
    split_ifs with h₁
    · rw [h₁, next_of_some hz]
      rfl
    · rfl
  have hsp : ∀ u, u ≠ b → u ≠ t → s'.prev u = s.prev u := by
    intro u hub hut
    rw [prev, hu, if_neg hut, if_neg hub]
    split_ifs with h₁
    · rw [h₁, prev_of_some hy]
      rfl
    · rfl
  refine ⟨hnd, fun h0 ↦ h.null (by simp at h0 ⊢; tauto), ?_, ?_, ?_, ?_, fun u ↦ ?_⟩
  · refine h.linked.unlink h.nodup hsn hsp ?_ ?_
    · rw [next_of_some hx, hnext, next, hu, if_neg hat, if_neg hab, if_pos rfl]
      rfl
    · rw [prev_of_some hx, hprev, prev, hu, if_neg hbt, if_pos rfl]
      rfl
  · rw [hhead, h.head_eq]
    cases l₁ <;> rfl
  · rw [htail, h.tail_eq, show l₁ ++ a :: t :: b :: l₂ = (l₁ ++ [a, t]) ++ b :: l₂ by simp,
      show l₁ ++ a :: b :: l₂ = (l₁ ++ [a]) ++ b :: l₂ by simp, getLastD_append_cons,
      getLastD_append_cons]
  · rw [hcur]
    split_ifs with hc
    · exact Or.inr (by simp)
    · rcases h.cur with h0 | hm
      · exact Or.inl h0
      · have : s.curTask ≠ t := fun he ↦ hc he.symm
        simp [this] at hm ⊢
        tauto
  · have hiff := h.tasks u
    rw [hu]
    split_ifs with h₁ h₂ h₃
    · subst h₁
      simpa using ht
    · simp [h₂]
    · simp [h₃]
    · rw [hiff]
      simp [h₁]

theorem WellFormed.tail_ne {l₁ l₂ : List ℕ} {b : ℕ} (h : s.WellFormed (l₁ ++ t :: b :: l₂)) :
    s.taskListTail ≠ t := by
  rw [h.tail_eq, show l₁ ++ t :: b :: l₂ = (l₁ ++ [t]) ++ b :: l₂ by simp, getLastD_append_cons]
  intro he
  have hnd := (List.nodup_cons.mp (List.nodup_append.mp h.nodup).2.1).1
  exact hnd (he ▸ getLastD_mem l₂ b)

theorem WellFormed.not_head {l₁ l₂ : List ℕ} {a : ℕ} (h : s.WellFormed (l₁ ++ a :: t :: l₂)) :
    s.taskListHead ≠ t := by
  rw [h.head_eq]
  obtain ⟨-, h₂, hdis⟩ := List.nodup_append.mp h.nodup
  cases l₁ with
  | nil => exact fun he ↦ (List.nodup_cons.mp h₂).1 (List.mem_cons.mpr (Or.inl he))
  | cons c l => exact hdis c List.mem_cons_self t (by simp)

theorem WellFormed.delete_middle {l₁ l₂ : List ℕ} {a b : ℕ}
    (h : s.WellFormed (l₁ ++ a :: t :: b :: l₂)) :
    ∃ s', taskListDelete t s = .ok ((), s') ∧ s'.WellFormed (l₁ ++ a :: b :: l₂) := by
  have hlink := h.linked
  rw [Linked.append] at hlink
  obtain ⟨-, -, -, hta, htb, -⟩ := hlink
  obtain ⟨ht0, x, hx⟩ := h.task (t := t) (by simp)
  obtain ⟨ha0, y, hy⟩ := h.task (t := a) (by simp)
  obtain ⟨hb0, z, hz⟩ := h.task (t := b) (by simp)
  obtain ⟨-, -, hab, hat, hbt⟩ := nodup_middle h.nodup
  have hsplit : s.WellFormed ((l₁ ++ [a]) ++ t :: b :: l₂) := by simpa using h
  have htail : s.taskListTail ≠ t := hsplit.tail_ne
  have hprev : x.prevTask = a := (prev_of_some hx).symm.trans hta
  have hnext : x.nextTask = b := (next_of_some hx).symm.trans htb
  refine ⟨_, taskListDelete_run ht0 (taskListUnlink_middle ht0 h.not_head htail hx hprev hnext
    ha0 hb0 hat.symm hab.symm hy hz) (x := x) ?_, h.middle_of hx hnext hprev hy hz ?_ rfl rfl ?_⟩
  · rw [setTask_other hbt.symm, setTask_other hat.symm, hx]
  · intro u
    refine (update_apply _ _ _ _).trans (if_congr Iff.rfl rfl ?_)
    by_cases hub : u = b
    · rw [if_pos hub, hub, setTask_self]
    · rw [if_neg hub, setTask_other hub]
      by_cases hua : u = a
      · rw [if_pos hua, hua, setTask_self]
      · rw [if_neg hua, setTask_other hua]
  · rw [hnext]
    rfl

/-- Deleting the first task leaves a stale pointer: the tail, or the new head's link back. -/
theorem WellFormed.delete_head {l s' : _} (h : s.WellFormed (t :: l))
    (hd : taskListDelete t s = .ok ((), s')) : ¬ s'.WellFormed l := by
  obtain ⟨ht0, x, hx⟩ := h.task (t := t) (by simp)
  rw [taskListDelete_run ht0 (taskListUnlink_head ht0 h.head_eq hx) hx] at hd
  cases hd
  intro hw
  cases l with
  | nil => exact ht0 (h.tail_eq.symm.trans hw.tail_eq)
  | cons b l =>
    have hbt : b ≠ t := fun he ↦ (List.nodup_cons.mp h.nodup).1 (by simp [he])
    have h₁ : s.prev b = t := h.linked.2.2.1
    have h₂ := hw.linked.1
    rw [prev] at h₂
    simp only [update_of_ne hbt] at h₂
    exact ht0 (h₁.symm.trans h₂)

theorem WellFormed.delete_tail {l : List ℕ} {a : ℕ} {s' : TaskList}
    (h : s.WellFormed (l ++ [a, t])) (hd : taskListDelete t s = .ok ((), s')) :
    ¬ s'.WellFormed (l ++ [a]) := by
  obtain ⟨ht0, x, hx⟩ := h.task (t := t) (by simp)
  have htail : s.taskListTail = t := by
    rw [h.tail_eq, show l ++ [a, t] = (l ++ [a]) ++ [t] by simp, getLastD_append_cons]
    rfl
  rw [taskListDelete_run ht0 (taskListUnlink_tail ht0 h.not_head htail hx) hx] at hd
  cases hd
  intro hw
  have hat : a ≠ t := by
    have := (List.nodup_append.mp h.nodup).2.1
    simpa using this
  have h₁ := (Linked.append.mp h.linked).2.2.1
  have h₂ := (Linked.append.mp hw.linked).2.2.1
  rw [next] at h₂
  simp only [update_of_ne hat] at h₂
  exact ht0 (h₁.symm.trans h₂)

end TaskList

end GammaOS.Kernel
