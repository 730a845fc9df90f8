import GammaOS.Kernel.State

namespace GammaOS.Kernel

open Function Foundation Foundation.Program Memory TaskList

/-- What the links of the list do not touch: the address space and the process of a task. -/
def Task.place (t : Task) : ℕ × ℕ := (t.taskSpace, t.process)

def TaskList.placeAt (l : TaskList) (u : ℕ) : Option (ℕ × ℕ) := (l.tasks u).map Task.place

variable {l l' : TaskList} {p u n a b : ℕ} {t x : Task}

theorem placeAt_of_some (h : l.tasks u = some t) : l.placeAt u = some (t.taskSpace, t.process) := by
  rw [TaskList.placeAt, h]
  rfl

theorem placeAt_eq_some (h : l.placeAt u = some (a, b)) :
    ∃ t, l.tasks u = some t ∧ t.taskSpace = a ∧ t.process = b := by
  obtain ⟨t, ht, he⟩ := Option.map_eq_some_iff.mp h
  exact ⟨t, ht, congrArg Prod.fst he, congrArg Prod.snd he⟩

theorem placeAt_congr (h : l'.tasks u = l.tasks u) : l'.placeAt u = l.placeAt u :=
  congrArg (Option.map Task.place) h

section Views

variable {β : Type} {f : Task → β}

def Linkless (f : Task → β) : Prop :=
  ∀ t n, f { t with nextTask := n } = f t ∧ f { t with prevTask := n } = f t

theorem place_linkless : Linkless Task.place := fun _ _ ↦ ⟨rfl, rfl⟩

theorem view_setTask {t' : Task} (hx : l.tasks p = some x) (h : f t' = f x) (u : ℕ) :
    ((l.setTask p (some t')).tasks u).map f = (l.tasks u).map f := by
  by_cases hu : u = p
  · rw [hu, setTask_self, hx, Option.map_some, Option.map_some, h]
  · rw [setTask_other hu]

end Views

theorem placeAt_setTask {t' : Task} (hx : l.tasks p = some x) (h : t'.place = x.place) (u : ℕ) :
    (l.setTask p (some t')).placeAt u = l.placeAt u := view_setTask hx h u

theorem setNext_cases (h : setNext p n l = .ok ((), l')) :
    ∃ t, l.tasks p = some t ∧ l' = l.setTask p (some { t with nextTask := n }) := by
  obtain ⟨t, l₁, h₁, h⟩ := bind_eq_ok.mp h
  obtain ⟨-, ht, rfl⟩ := taskAt_eq_ok.mp h₁
  cases h
  exact ⟨t, ht, rfl⟩

theorem setPrev_cases (h : setPrev p n l = .ok ((), l')) :
    ∃ t, l.tasks p = some t ∧ l' = l.setTask p (some { t with prevTask := n }) := by
  obtain ⟨t, l₁, h₁, h⟩ := bind_eq_ok.mp h
  obtain ⟨-, ht, rfl⟩ := taskAt_eq_ok.mp h₁
  cases h
  exact ⟨t, ht, rfl⟩

theorem taskListAdd_cases (h : taskListAdd p l = .ok ((), l')) :
    (l.taskListHead = 0 ∧ l' = { l with taskListHead := p, taskListTail := p, curTask := p }) ∨
    (l.taskListHead ≠ 0 ∧ ∃ l₁ l₂ tail, setNext l.taskListTail p l = .ok ((), l₁) ∧
      setPrev p l.taskListTail l₁ = .ok ((), l₂) ∧ l₂.tasks l.taskListTail = some tail ∧
      l' = { l₂ with taskListTail := tail.nextTask }) := by
  obtain ⟨s, l₁, h₁, h⟩ := bind_eq_ok.mp h
  cases h₁
  by_cases hhead : l.taskListHead = 0
  · rw [if_pos hhead] at h
    cases h
    exact Or.inl ⟨hhead, rfl⟩
  · rw [if_neg hhead] at h
    obtain ⟨_, l₂, h₂, h⟩ := bind_eq_ok.mp h
    obtain ⟨_, l₃, h₃, h⟩ := bind_eq_ok.mp h
    obtain ⟨tail, l₄, h₄, h⟩ := bind_eq_ok.mp h
    obtain ⟨-, htail, rfl⟩ := taskAt_eq_ok.mp h₄
    cases h
    exact Or.inr ⟨hhead, l₂, l₃, tail, h₂, h₃, htail, rfl⟩

theorem taskListUnlink_cases (h : taskListUnlink p l = .ok ((), l')) :
    (p = l.taskListHead ∧ ∃ t, l.tasks p = some t ∧ l' = { l with taskListHead := t.nextTask }) ∨
    (p ≠ l.taskListHead ∧ p = l.taskListTail ∧ ∃ t, l.tasks p = some t ∧
      l' = { l with taskListTail := t.prevTask }) ∨
    (p ≠ l.taskListHead ∧ p ≠ l.taskListTail ∧ ∃ t t' l₁, l.tasks p = some t ∧
      setNext t.prevTask t.nextTask l = .ok ((), l₁) ∧ l₁.tasks p = some t' ∧
      setPrev t'.nextTask t'.prevTask l₁ = .ok ((), l')) := by
  obtain ⟨s, l₁, h₁, h⟩ := bind_eq_ok.mp h
  cases h₁
  by_cases hhead : p = l.taskListHead
  · rw [if_pos hhead] at h
    obtain ⟨t, l₂, h₂, h⟩ := bind_eq_ok.mp h
    obtain ⟨-, ht, rfl⟩ := taskAt_eq_ok.mp h₂
    cases h
    exact Or.inl ⟨hhead, t, hhead ▸ ht, rfl⟩
  by_cases htail : p = l.taskListTail
  · rw [if_neg hhead, if_pos htail] at h
    obtain ⟨t, l₂, h₂, h⟩ := bind_eq_ok.mp h
    obtain ⟨-, ht, rfl⟩ := taskAt_eq_ok.mp h₂
    cases h
    exact Or.inr (Or.inl ⟨hhead, htail, t, htail ▸ ht, rfl⟩)
  · rw [if_neg hhead, if_neg htail] at h
    obtain ⟨t, l₂, h₂, h⟩ := bind_eq_ok.mp h
    obtain ⟨-, ht, rfl⟩ := taskAt_eq_ok.mp h₂
    obtain ⟨_, l₃, h₃, h⟩ := bind_eq_ok.mp h
    obtain ⟨t', l₄, h₄, h⟩ := bind_eq_ok.mp h
    obtain ⟨-, ht', rfl⟩ := taskAt_eq_ok.mp h₄
    exact Or.inr (Or.inr ⟨hhead, htail, t, t', _, ht, h₃, ht', h⟩)

theorem taskListAdvance_cases (h : taskListAdvance p l = .ok ((), l')) :
    (p = l.curTask ∧ ∃ t, l.tasks p = some t ∧ l' = { l with curTask := t.nextTask }) ∨
      (p ≠ l.curTask ∧ l' = l) := by
  obtain ⟨s, l₁, h₁, h⟩ := bind_eq_ok.mp h
  cases h₁
  by_cases hcur : p = l.curTask
  · rw [if_pos hcur] at h
    obtain ⟨t, l₂, h₂, h⟩ := bind_eq_ok.mp h
    obtain ⟨-, ht, rfl⟩ := taskAt_eq_ok.mp h₂
    cases h
    exact Or.inl ⟨hcur, t, ht, rfl⟩
  · rw [if_neg hcur] at h
    cases h
    exact Or.inr ⟨hcur, rfl⟩

section Views

variable {β : Type} {f : Task → β}

theorem setNext_view (hf : Linkless f) (h : setNext p n l = .ok ((), l')) (u : ℕ) :
    (l'.tasks u).map f = (l.tasks u).map f := by
  obtain ⟨t, ht, rfl⟩ := setNext_cases h
  exact @view_setTask _ _ _ _ _ { t with nextTask := n } ht (hf t n).1 u

theorem setPrev_view (hf : Linkless f) (h : setPrev p n l = .ok ((), l')) (u : ℕ) :
    (l'.tasks u).map f = (l.tasks u).map f := by
  obtain ⟨t, ht, rfl⟩ := setPrev_cases h
  exact @view_setTask _ _ _ _ _ { t with prevTask := n } ht (hf t n).2 u

theorem taskListAdd_view (hf : Linkless f) (h : taskListAdd p l = .ok ((), l')) (u : ℕ) :
    (l'.tasks u).map f = (l.tasks u).map f := by
  obtain ⟨-, rfl⟩ | ⟨-, l₁, l₂, tail, h₁, h₂, -, rfl⟩ := taskListAdd_cases h
  · rfl
  · exact (setPrev_view hf h₂ u).trans (setNext_view hf h₁ u)

theorem taskListUnlink_view (hf : Linkless f) (h : taskListUnlink p l = .ok ((), l')) (u : ℕ) :
    (l'.tasks u).map f = (l.tasks u).map f := by
  obtain ⟨-, t, -, rfl⟩ | ⟨-, -, t, -, rfl⟩ | ⟨-, -, t, t', l₁, -, h₁, -, h₂⟩ :=
    taskListUnlink_cases h
  · rfl
  · rfl
  · exact (setPrev_view hf h₂ u).trans (setNext_view hf h₁ u)

end Views

theorem taskListAdd_placeAt (h : taskListAdd p l = .ok ((), l')) (u : ℕ) :
    l'.placeAt u = l.placeAt u := taskListAdd_view place_linkless h u

theorem taskListAdvance_tasks (h : taskListAdvance p l = .ok ((), l')) : l'.tasks = l.tasks := by
  obtain ⟨-, t, -, rfl⟩ | ⟨-, rfl⟩ := taskListAdvance_cases h
  · rfl
  · rfl

theorem setNext_head (h : setNext p n l = .ok ((), l')) :
    l'.taskListHead = l.taskListHead ∧ l'.curTask = l.curTask := by
  obtain ⟨t, -, rfl⟩ := setNext_cases h
  exact ⟨rfl, rfl⟩

theorem setPrev_head (h : setPrev p n l = .ok ((), l')) :
    l'.taskListHead = l.taskListHead ∧ l'.curTask = l.curTask := by
  obtain ⟨t, -, rfl⟩ := setPrev_cases h
  exact ⟨rfl, rfl⟩

theorem taskListAdd_head (h : taskListAdd p l = .ok ((), l')) (hne : l.taskListHead ≠ 0) :
    l'.taskListHead = l.taskListHead ∧ l'.curTask = l.curTask := by
  obtain ⟨hhead, -⟩ | ⟨-, l₁, l₂, tail, h₁, h₂, -, rfl⟩ := taskListAdd_cases h
  · exact absurd hhead hne
  · obtain ⟨hh₁, hc₁⟩ := setNext_head h₁
    obtain ⟨hh₂, hc₂⟩ := setPrev_head h₂
    exact ⟨hh₂.trans hh₁, hc₂.trans hc₁⟩

theorem taskListUnlink_head_eq (h : taskListUnlink p l = .ok ((), l')) (hne : p ≠ l.taskListHead) :
    l'.taskListHead = l.taskListHead ∧ l'.curTask = l.curTask := by
  obtain ⟨hhead, -⟩ | ⟨-, -, t, -, rfl⟩ | ⟨-, -, t, t', l₁, -, h₁, -, h₂⟩ := taskListUnlink_cases h
  · exact absurd hhead hne
  · exact ⟨rfl, rfl⟩
  · obtain ⟨hh₁, hc₁⟩ := setNext_head h₁
    obtain ⟨hh₂, hc₂⟩ := setPrev_head h₂
    exact ⟨hh₂.trans hh₁, hc₂.trans hc₁⟩

theorem taskListAdvance_head (h : taskListAdvance p l = .ok ((), l')) :
    l'.taskListHead = l.taskListHead ∧ (p ≠ l.curTask → l'.curTask = l.curTask) := by
  obtain ⟨hcur, t, -, rfl⟩ | ⟨-, rfl⟩ := taskListAdvance_cases h
  · exact ⟨rfl, fun hne ↦ absurd hcur hne⟩
  · exact ⟨rfl, fun _ ↦ rfl⟩

theorem taskListDelete_head (h : taskListDelete p l = .ok ((), l')) (hne : p ≠ l.taskListHead) :
    l'.taskListHead = l.taskListHead ∧ (p ≠ l.curTask → l'.curTask = l.curTask) := by
  obtain ⟨_, l₁, h₁, h⟩ := bind_eq_ok.mp h
  obtain ⟨_, l₂, h₂, h⟩ := bind_eq_ok.mp h
  cases h
  obtain ⟨hhead, hcur⟩ := taskListUnlink_head_eq h₁ hne
  obtain ⟨hhead', hcur'⟩ := taskListAdvance_head h₂
  exact ⟨hhead'.trans hhead, fun hc ↦ (hcur' (hcur ▸ hc)).trans hcur⟩

theorem taskListDelete_view {β : Type} {f : Task → β} (hf : Linkless f)
    (h : taskListDelete p l = .ok ((), l')) (u : ℕ) :
    (l'.tasks u).map f = if u = p then none else (l.tasks u).map f := by
  obtain ⟨_, l₁, h₁, h⟩ := bind_eq_ok.mp h
  obtain ⟨_, l₂, h₂, h⟩ := bind_eq_ok.mp h
  cases h
  by_cases hu : u = p
  · rw [if_pos hu, hu, setTask_self]
    rfl
  · rw [if_neg hu, setTask_other hu, taskListAdvance_tasks h₂, taskListUnlink_view hf h₁ u]

theorem taskListDelete_placeAt (h : taskListDelete p l = .ok ((), l')) (u : ℕ) :
    l'.placeAt u = if u = p then none else l.placeAt u := taskListDelete_view place_linkless h u

end GammaOS.Kernel
