import GammaOS.Kernel.KilledProcess
import GammaOS.Kernel.LiveProcess

namespace GammaOS.Kernel

open Function Foundation Foundation.Program Memory Paging Fs Loader

variable {σ : Type} [Allocator σ] {s s' s₁ : KernelState σ Fat16Files} {p n : ℕ} {x y : Process}
  {t : Task} {S : Space} {hold : ℕ → Holding} {r : Run} {env : ProcessEnv} {filename : List UInt8}
  {b : Arena σ} {l : TaskList}

theorem freeProcessIdLoop_some {processList : ℕ → ℕ} : ∀ n k {pid : ℕ},
    freeProcessIdLoop processList n k = some pid → k ≤ pid ∧ pid < k + n ∧ processList pid = 0 := by
  intro n
  induction n with
  | zero => intro k pid h; cases h
  | succ n ih =>
    intro k pid h
    rw [freeProcessIdLoop] at h
    split at h
    · cases h
      exact ⟨Nat.le_refl k, by omega, ‹_›⟩
    · obtain ⟨h₁, h₂, h₃⟩ := ih (k + 1) h
      exact ⟨by omega, by omega, h₃⟩

theorem freeProcessIdLoop_none {processList : ℕ → ℕ} : ∀ n k,
    freeProcessIdLoop processList n k = none → ∀ i, k ≤ i → i < k + n → processList i ≠ 0 := by
  intro n
  induction n with
  | zero => intro k _ i h₁ h₂; omega
  | succ n ih =>
    intro k h i h₁ h₂
    rw [freeProcessIdLoop] at h
    split at h
    · cases h
    · by_cases hik : i = k
      · rwa [hik]
      · exact ih (k + 1) h i (by omega) (by omega)

def HasFreeEntry (s : KernelState σ Fat16Files) : Prop :=
  ∃ i < processMaxProcesses, s.processList i = 0

omit [Allocator σ] in
theorem processGetFreeProcessId_free (h : HasFreeEntry s) :
    processGetFreeProcessId s < processMaxProcesses ∧
      s.processList (processGetFreeProcessId s) = 0 := by
  rw [processGetFreeProcessId]
  cases hloop : freeProcessIdLoop s.processList processMaxProcesses 0 with
  | none =>
    obtain ⟨i, hi, h0⟩ := h
    exact absurd h0 (freeProcessIdLoop_none _ _ hloop i (Nat.zero_le i) (by omega))
  | some pid =>
    obtain ⟨-, hlt, h0⟩ := freeProcessIdLoop_some _ _ hloop
    exact ⟨by simpa using hlt, h0⟩

omit [Allocator σ] in
/-- With every entry taken it is an error code, negated and cut to 16 bits. -/
theorem processGetFreeProcessId_full (h : ¬ HasFreeEntry s) :
    processGetFreeProcessId s = 2 ^ 16 - errMaxProcessLimitReached := by
  rw [processGetFreeProcessId]
  cases hloop : freeProcessIdLoop s.processList processMaxProcesses 0 with
  | none => rfl
  | some pid =>
    obtain ⟨-, hlt, h0⟩ := freeProcessIdLoop_some _ _ hloop
    exact absurd ⟨pid, by simpa using hlt, h0⟩ h

omit [Allocator σ] in
theorem hasFreeEntry_iff : HasFreeEntry s ↔ processGetFreeProcessId s < processMaxProcesses := by
  by_cases h : HasFreeEntry s
  · exact iff_of_true h (processGetFreeProcessId_free h).1
  · refine iff_of_false h ?_
    rw [processGetFreeProcessId_full h]
    decide

omit [Allocator σ] in
theorem addTask_placeAt {task : ℕ} {z : Task} {u : ℕ}
    (h : taskListAdd task (s.taskList.setTask task (some z)) = .ok ((), l)) (hu : u ≠ task) :
    l.placeAt u = s.taskList.placeAt u :=
  (taskListAdd_placeAt h u).trans (placeAt_congr (TaskList.setTask_other hu))

namespace KernelInv

theorem created_none (h : KernelInv s hold) (hc : Created env filename s s₁ s' p x t S) :
    s.processes p = none := by
  cases hp : s.processes p with
  | none => rfl
  | some y =>
    obtain ⟨u, hu⟩ := h.live p y hp
    exact absurd rfl (hc.taken.ne (List.mem_append_left _ (List.mem_map_of_mem (x.self_mem p)))
      (hc.block _ (x.self_mem p)) (hu.block _ (y.self_mem p)))

variable [LawfulAllocator σ]

theorem created_live (hc : Created env filename s s₁ s' p x t S) :
    LiveProcess s' p x t ⟨S, []⟩ where
  at_process := by rw [hc.processes, update_self]
  at_task := hc.at_task
  process_eq := hc.process_eq
  space := hc.space
  vspace_lt := hc.vspace_lt
  holds := hc.holds
  block := hc.block
  slots := hc.owns.slots
  sizes _ hb := nomatch hb
  held := .nil hc.taken.live

theorem created (h : KernelInv s hold) (hc : Created env filename s s₁ s' p x t S) :
    ProcessStep s s' hold p ⟨S, []⟩ := by
  have hnone := h.created_none hc
  have hpid : x.pid = processGetFreeProcessId s := by
    rw [hc.fresh]
    rfl
  have hentry : s.processList x.pid = 0 := by
    rw [hpid]
    exact (processGetFreeProcessId_free (hasFreeEntry_iff.mpr hc.pid_lt)).2
  have hothers : ∀ q ≠ p, s'.processes q = s.processes q := fun q hq ↦ by
    rw [hc.processes, update_of_ne hq]
  have hself : s'.processes p = some x := by rw [hc.processes, update_self]
  refine ⟨hc.disks, hothers, fun q y _ hy ↦ ?_, fun q y _ hy r hr ↦ ?_, fun y hy ↦ ?_,
    fun y hy r hr ↦ Or.inr ?_, fun q y hy ↦ ?_, fun i hi hne ↦ ?_⟩
  · obtain ⟨u, hu⟩ := h.live q y hy
    obtain ⟨z, hz⟩ := hc.added
    exact addTask_placeAt hz (hc.taken.ne
      (List.mem_append_left _ (List.mem_map_of_mem (x.task_mem p))) (hc.block _ (x.task_mem p))
      (hu.block _ (y.task_mem q)))
  · obtain ⟨u, hu⟩ := h.live q y hy
    exact hc.grows r (hu.owned_live r hr)
  · cases hself.symm.trans hy
    exact ⟨t, created_live hc⟩
  · cases hself.symm.trans hy
    rcases List.mem_append.mp hr with hr | hr
    · exact hc.taken.fresh r hr
    · exact absurd hr List.not_mem_nil
  · rw [hc.processList]
    by_cases hq : q = p
    · subst hq
      cases hself.symm.trans hy
      exact ⟨hpid ▸ hc.pid_lt, update_self _ _ _⟩
    · rw [hothers q hq] at hy
      obtain ⟨hlt, hlisted⟩ := h.listed q y hy
      obtain ⟨u, hu⟩ := h.live q y hy
      have hne : y.pid ≠ x.pid := by
        intro heq
        rw [heq, hentry] at hlisted
        exact hu.ne_zero hlisted.symm
      exact ⟨hlt, (update_of_ne hne _ _).trans hlisted⟩
  · rw [hc.processList] at hne ⊢
    by_cases hix : i = x.pid
    · subst hix
      rw [update_self]
      exact ⟨x, hself, rfl⟩
    · rw [update_of_ne hix] at hne ⊢
      obtain ⟨z, hz, hzi⟩ := h.slots i hi hne
      have hq : s.processList i ≠ p := by
        intro heq
        rw [heq, hnone] at hz
        cases hz
      exact ⟨z, (hothers _ hq).trans hz, hzi⟩

theorem newFailed (h : KernelInv s hold) (hf : NewFailed s s') :
    ProcessStep s s' hold 0 (hold 0) := by
  have hzero : s.processes 0 = none := by
    cases hp : s.processes 0 with
    | none => rfl
    | some y =>
      obtain ⟨u, hu⟩ := h.live 0 y hp
      exact absurd rfl hu.ne_zero
  refine ⟨hf.disks, fun q _ ↦ congrFun hf.processes q, fun q y _ hy ↦ ?_, fun q y _ hy r hr ↦ ?_,
    fun y hy ↦ ?_, fun y hy ↦ ?_, fun q y hy ↦ ?_, fun i hi hne ↦ ?_⟩
  · obtain ⟨u, hu⟩ := h.live q y hy
    rcases hf.tasks with hsame | ⟨task, z, l, hfresh, hadd, hdelete⟩
    · rw [hsame]
    · have hne : y.task ≠ task := hfresh.2 _ (hu.block _ (y.task_mem q))
      rw [taskListDelete_placeAt hdelete, if_neg hne, addTask_placeAt hadd hne]
  · obtain ⟨u, hu⟩ := h.live q y hy
    exact hf.grows r (hu.owned_live r hr)
  · rw [hf.processes, hzero] at hy
    cases hy
  · rw [hf.processes, hzero] at hy
    cases hy
  · rw [hf.processList]
    exact h.listed q y (hf.processes ▸ hy)
  · rw [hf.processList] at hne ⊢
    rw [hf.processes]
    exact h.slots i hi hne

end KernelInv

theorem freedAll_mem : ∀ (addrs : List ℕ) (b : Arena σ), (freedAll addrs b).mem = b.mem := by
  intro addrs
  induction addrs with
  | nil => exact fun _ ↦ rfl
  | cons a addrs ih => exact fun b ↦ ih (freed a b)

theorem kept_freedAll [LawfulAllocator σ] {a : Arena σ} :
    ∀ (addrs : List ℕ) (b : Arena σ), (∀ q ∈ addrs, Off r q) → Kept r a b →
      Kept r a (freedAll addrs b) := by
  intro addrs
  induction addrs with
  | nil => exact fun _ _ hk ↦ hk
  | cons q addrs ih =>
    intro b hoff hk
    exact ih (freed q b) (fun q' hq' ↦ hoff q' (List.mem_cons_of_mem _ hq'))
      (kept_freed (hoff q List.mem_cons_self) hk)

theorem Killed.kept [LawfulAllocator σ] {g : Holding} {u : Task} (hk : Killed s s' p x t b l)
    (h : LiveProcess s p x u g) (hr : r ∈ s.arena.live) (hap : ∀ q ∈ x.owned p g, q.Apart r) :
    Kept r s.arena s'.arena := by
  have hoff : ∀ c ∈ x.blocks p, Off r c.1 :=
    fun c hc ↦ (h.block c hc).off (hap _ (Process.block_owned hc))
  have hspace : g.space.vspace = t.taskSpace := by
    rw [h.space, Option.some.inj (h.at_task.symm.trans hk.at_task)]
  have hkill : ∀ q ∈ x.killAddrs, Off r q := by
    intro q hq
    rcases List.mem_cons.mp hq with rfl | hq
    · exact hoff _ (List.mem_cons_of_mem _ List.mem_cons_self)
    · obtain ⟨c, hc, rfl⟩ := List.mem_map.mp hq
      exact hoff c (List.mem_cons_of_mem _ (List.mem_cons_of_mem _ (List.mem_cons_of_mem _ hc)))
  have hmem := freedAll_mem x.killAddrs s.arena
  have hd := hk.destroyed
  rw [← hspace] at hd
  have hb : Kept r s.arena b := (destroyVirtualAddressSpace_kept
    (fun q hq ↦ hap q (Process.space_owned hq)) h.vspace_lt s.arena.mem h.holds _
    ⟨kept_freedAll _ _ hkill (Kept.refl hr), hmem⟩ _ _ hd).1
  rw [hk.state]
  refine kept_freedAll [x.task, x.task, p] b (fun q hq ↦ ?_) hb
  have htask := hoff _ (x.task_mem p)
  have hself := hoff _ (x.self_mem p)
  simp only [List.mem_cons, List.not_mem_nil, or_false] at hq
  rcases hq with rfl | rfl | rfl
  · exact htask
  · exact htask
  · exact hself

theorem KernelInv.killed [LawfulAllocator σ] (h : KernelInv s hold) (hk : Killed s s' p x t b l) :
    ProcessStep s s' hold p (hold p) := by
  obtain ⟨u, hu⟩ := h.live p x hk.at_process
  have hprocesses : s'.processes = update s.processes p none := by rw [hk.state]; rfl
  have hlist : s'.processList = update s.processList x.pid 0 := by rw [hk.state]; rfl
  have hself : s'.processes p = none := by rw [hprocesses, update_self]
  have hothers : ∀ q ≠ p, s'.processes q = s.processes q := fun q hq ↦ by
    rw [hprocesses, update_of_ne hq]
  refine ⟨by rw [hk.state]; rfl, hothers, fun q y hq hy ↦ ?_, fun q y hq hy r hr ↦ ?_,
    fun y hy ↦ ?_, fun y hy ↦ ?_, fun q y hy ↦ ?_, fun i hi hne ↦ ?_⟩
  · obtain ⟨v, hv⟩ := h.live q y hy
    have hne : y.task ≠ x.task := hv.task_ne_of_apart hu (h.apart hy hk.at_process hq)
    have htl : s'.taskList = l := by rw [hk.state]; rfl
    rw [htl, taskListDelete_placeAt hk.deleted, if_neg hne]
  · obtain ⟨v, hv⟩ := h.live q y hy
    exact hk.kept hu (hv.owned_live r hr)
      (fun q' hq' ↦ h.apart hk.at_process hy (Ne.symm hq) q' hq' r hr)
  · cases hself.symm.trans hy
  · cases hself.symm.trans hy
  · have hq : q ≠ p := by
      rintro rfl
      cases hself.symm.trans hy
    rw [hothers q hq] at hy
    obtain ⟨hlt, hlisted⟩ := h.listed q y hy
    have hne : y.pid ≠ x.pid := fun heq ↦ hq (h.of_pid hy hk.at_process heq)
    rw [hlist, update_of_ne hne]
    exact ⟨hlt, hlisted⟩
  · rw [hlist] at hne ⊢
    have hix : i ≠ x.pid := by
      rintro rfl
      exact hne (update_self _ _ _)
    rw [update_of_ne hix] at hne ⊢
    obtain ⟨z, hz, hzi⟩ := h.slots i hi hne
    have hq : s.processList i ≠ p := by
      intro heq
      rw [heq] at hz
      cases hk.at_process.symm.trans hz
      exact hix hzi.symm
    exact ⟨z, (hothers _ hq).trans hz, hzi⟩

end GammaOS.Kernel
