import GammaOS.Kernel.UserMemory
import GammaOS.Memory.HeldBlocks

namespace GammaOS.Kernel

open Function Foundation Foundation.Program Memory Paging Fs Loader

variable {σ δ : Type} [Allocator σ] {s s' : KernelState σ δ} {r size addr : ℕ} {p : Process}
  {t : Task} {S : Space}

/-- The state behind a `process_free` of the process `p` that found `addr` in the
slot `allocation`. -/
def KernelState.afterFree (s : KernelState σ δ) (p : Process) (t : Task) (allocation addr : ℕ) :
    KernelState σ δ :=
  { s.setArena (freed addr { s.arena with
      mem := (freeCall addr (p.memAllocationsSize allocation)).run t.taskSpace s.arena.mem }) with
    processes := update s.processes s.currentProcess (some (p.record allocation 0 0)) }

theorem processFree_eq_ok : processFree addr s = .ok (r, s') ↔
    ∃ p, s.currentProcess ≠ 0 ∧ s.processes s.currentProcess = some p ∧
      ((p.allocationOf addr = none ∧ r = 0 ∧ s' = s) ∨
        ∃ allocation t, p.allocationOf addr = some allocation ∧
          p.memAllocationsSize allocation ≠ 0 ∧ p.task ≠ 0 ∧ s.taskList.tasks p.task = some t ∧
          r = addr ∧ s' = s.afterFree p t allocation addr) := by
  constructor
  · intro h
    obtain ⟨_, s₁, h₁, h⟩ := bind_eq_ok.mp h
    cases h₁
    obtain ⟨p, s₂, h₂, h⟩ := bind_eq_ok.mp h
    obtain ⟨hc, hp, rfl⟩ := processAt_eq_ok.mp h₂
    refine ⟨p, hc, hp, ?_⟩
    cases hslot : p.allocationOf addr with
    | none =>
      rw [hslot] at h
      cases h
      exact Or.inl ⟨rfl, rfl, rfl⟩
    | some allocation =>
      rw [hslot] at h
      obtain ⟨_, s₃, h₃, h⟩ := bind_eq_ok.mp h
      cases h₃
      obtain ⟨_, s₄, h₄, h⟩ := bind_eq_ok.mp h
      obtain ⟨hsize, rfl⟩ := require_eq_ok.mp h₄
      obtain ⟨t, s₅, h₅, h⟩ := bind_eq_ok.mp h
      obtain ⟨ht0, ht, rfl⟩ := onTasks_taskAt_eq_ok.mp h₅
      obtain ⟨_, s₆, h₆, h⟩ := bind_eq_ok.mp h
      obtain ⟨c, hc', rfl⟩ := onHeap_eq_ok.mp h₆
      cases onMem_eq_ok.mp hc'
      obtain ⟨_, s₇, h₇, h⟩ := bind_eq_ok.mp h
      cases onHeap_kfree_eq_ok.mp h₇
      cases h
      exact Or.inr ⟨allocation, t, rfl, hsize, ht0, ht, rfl, rfl⟩
  · rintro ⟨p, hc, hp, h⟩
    have hget : processAt s.currentProcess s = .ok (p, s) := processAt_eq_ok.mpr ⟨hc, hp, rfl⟩
    rw [processFree, bind_run_ok (gets_run _ _), bind_run_ok hget]
    rcases h with ⟨hslot, rfl, rfl⟩ | ⟨allocation, t, hslot, hsize, ht0, ht, rfl, rfl⟩
    · rw [hslot]
      rfl
    · have htask : ∀ u : KernelState σ δ, u.taskList = s.taskList →
          onTasks (taskAt p.task) u = .ok (t, u) :=
        fun u hu ↦ onTasks_taskAt_eq_ok.mpr ⟨ht0, hu ▸ ht, rfl⟩
      rw [hslot]
      refine (bind_run_ok (modifyState_run _ _)).trans ?_
      refine (bind_run_ok (require_run hsize)).trans ?_
      refine (bind_run_ok (htask _ (by rfl))).trans ?_
      refine (bind_run_ok (a := ())
        (onHeap_eq_ok.mpr ⟨_, onMem_eq_ok.mpr (by rfl), by rfl⟩)).trans ?_
      exact bind_run_ok (a := ()) (onHeap_kfree _)

theorem processFree_divide {allocation : ℕ} (hc : s.currentProcess ≠ 0)
    (hp : s.processes s.currentProcess = some p) (hslot : p.allocationOf addr = some allocation)
    (hsize : p.memAllocationsSize allocation = 0) :
    processFree addr s = .error Fault.divideError := by
  have hget : processAt s.currentProcess s = .ok (p, s) := processAt_eq_ok.mpr ⟨hc, hp, rfl⟩
  rw [processFree, bind_run_ok (gets_run _ _), bind_run_ok hget, hslot]
  refine (bind_run_ok (modifyState_run _ _)).trans ?_
  rw [hsize]
  rfl

theorem freeCall_valid (ha : addr < 2 ^ 32) : (freeCall addr size).Valid where
  vaddr_lt := Nat.lt_of_le_of_lt (alignToPageLower_le addr) ha
  paddr_lt := Nat.lt_of_le_of_lt (alignToPageLower_le addr) ha
  endaddr_lt := u32_lt _
  flags_lt := by
    show pagePresent ||| pageUserAccess ||| pageWriteAccess < pageSize
    decide

theorem allocationLoop_none {memAllocations : ℕ → ℕ} : ∀ n k,
    allocationLoop memAllocations addr n k = none ↔ ∀ i < n, memAllocations (k + i) ≠ addr := by
  intro n
  induction n with
  | zero => exact fun k ↦ iff_of_true rfl (fun i hi ↦ absurd hi (Nat.not_lt_zero i))
  | succ n ih =>
    intro k
    rw [allocationLoop]
    split
    · rename_i hk
      exact iff_of_false (Option.some_ne_none k) (fun h ↦ h 0 n.succ_pos hk)
    · rename_i hk
      rw [ih]
      constructor
      · intro h i hi
        cases i with
        | zero => exact hk
        | succ i =>
          have h' := h i (Nat.lt_of_succ_lt_succ hi)
          rwa [Nat.add_right_comm] at h'
      · intro h i hi
        have h' := h (i + 1) (Nat.succ_lt_succ hi)
        rwa [Nat.add_right_comm]

theorem allocationOf_none : p.allocationOf addr = none ↔
    ∀ i < processMaxProcessMemAllocations, p.memAllocations i ≠ addr := by
  rw [Process.allocationOf, allocationLoop_none]
  simp only [Nat.zero_add]

theorem recorded_record (p : Process) (allocation base size : ℕ) :
    (p.record allocation base size).recorded =
      update p.recorded allocation (if base = 0 then none else some (base, size)) := by
  funext i
  unfold Process.recorded Process.record
  by_cases hi : i = allocation
  · rw [hi]
    simp only [update_self]
  · simp only [update_of_ne hi]

theorem recorded_some {i : ℕ} {b : ℕ × ℕ} : p.recorded i = some b ↔
    p.memAllocations i ≠ 0 ∧ p.memAllocations i = b.1 ∧ p.memAllocationsSize i = b.2 := by
  unfold Process.recorded
  split
  · exact iff_of_false nofun (fun h ↦ h.1 ‹_›)
  · rw [Option.some.injEq, Prod.ext_iff]
    exact (and_iff_right ‹_›).symm

theorem Running.keep {p' : Process} (h : Running s p t S)
    (hc : s'.currentProcess = s.currentProcess) (hp : s'.processes s.currentProcess = some p')
    (htask : p'.task = p.task) (hl : s'.taskList = s.taskList) (hh : Holds s'.arena.mem S)
    (hlive : ∀ r ∈ S.runs, r ∈ s'.arena.live) : Running s' p' t S where
  current_ne := hc ▸ h.current_ne
  at_process := by rw [hc, hp]
  task_ne := htask ▸ h.task_ne
  at_task := by rw [hl, htask, h.at_task]
  space := h.space
  holds := hh
  live := hlive

end GammaOS.Kernel
