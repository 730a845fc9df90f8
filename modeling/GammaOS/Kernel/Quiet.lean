import GammaOS.Kernel.LiveProcess
import GammaOS.Kernel.Syscall

namespace GammaOS.Kernel

open Function Foundation Foundation.Program Memory Paging Fs Loader

variable {σ δ α β : Type} {s s' s'' : KernelState σ δ} {p task size : ℕ} {x : Process} {t : Task}
  {S : Space}

/-- A step that changes nothing but the loaded page directory and the registers of tasks. -/
structure Idle (s s' : KernelState σ δ) : Prop where
  vfs : s'.vfs = s.vfs
  processes : s'.processes = s.processes
  processList : s'.processList = s.processList
  currentProcess : s'.currentProcess = s.currentProcess
  kernelSpace : s'.kernelSpace = s.kernelSpace
  placeAt : ∀ u, s'.taskList.placeAt u = s.taskList.placeAt u
  curTask : s'.taskList.curTask = s.taskList.curTask
  taskListHead : s'.taskList.taskListHead = s.taskList.taskListHead

theorem Idle.refl (s : KernelState σ δ) : Idle s s := ⟨rfl, rfl, rfl, rfl, rfl, fun _ ↦ rfl, rfl, rfl⟩

theorem Idle.trans (h : Idle s s') (h' : Idle s' s'') : Idle s s'' where
  vfs := h'.vfs.trans h.vfs
  processes := h'.processes.trans h.processes
  processList := h'.processList.trans h.processList
  currentProcess := h'.currentProcess.trans h.currentProcess
  kernelSpace := h'.kernelSpace.trans h.kernelSpace
  placeAt u := (h'.placeAt u).trans (h.placeAt u)
  curTask := h'.curTask.trans h.curTask
  taskListHead := h'.taskListHead.trans h.taskListHead

theorem Idle.arena (h : Idle s s') : s'.arena = s.arena := congrArg (fun v ↦ v.drive.arena) h.vfs

def Idling (m : KernelM σ δ α) : Prop := ∀ s a s', m s = .ok (a, s') → Idle s s'

namespace Idling

theorem pure (a : α) : Idling (Pure.pure a : KernelM σ δ α) := by
  intro s b s' h
  cases h
  exact Idle.refl s

theorem gets (f : KernelState σ δ → α) : Idling (Program.gets f) := by
  intro s b s' h
  cases h
  exact Idle.refl s

theorem bind {m : KernelM σ δ α} {f : α → KernelM σ δ β} (hm : Idling m)
    (hf : ∀ a, Idling (f a)) : Idling (m >>= f) := by
  intro s b s' h
  obtain ⟨a, s₁, h₁, h₂⟩ := bind_eq_ok.mp h
  exact (hm s a s₁ h₁).trans (hf a s₁ b s' h₂)

theorem require {c : Prop} [Decidable c] {e : Fault} :
    Idling (Program.require c e : KernelM σ δ Unit) := by
  intro s b s' h
  obtain ⟨-, rfl⟩ := require_eq_ok.mp h
  exact Idle.refl s

theorem taskAt (task : ℕ) : Idling (onTasks (Kernel.taskAt task) : KernelM σ δ Task) := by
  intro s t s' h
  obtain ⟨-, -, rfl⟩ := onTasks_taskAt_eq_ok.mp h
  exact Idle.refl s

end Idling

theorem loadPageDirectory_idle (vspace : ℕ) :
    Idling (loadPageDirectory vspace : KernelM σ δ Unit) := by
  intro s a s' h
  cases h
  exact { Idle.refl s with }

theorem changeToKernelPageDirectory_idle :
    Idling (changeToKernelPageDirectory : KernelM σ δ Unit) :=
  (Idling.gets _).bind loadPageDirectory_idle

theorem changeToGivenTaskPageDirectory_idle (task : ℕ) :
    Idling (changeToGivenTaskPageDirectory task : KernelM σ δ Unit) :=
  (Idling.taskAt task).bind (fun t ↦ loadPageDirectory_idle t.taskSpace)

theorem changeToCurrentTaskPageDirectory_idle :
    Idling (changeToCurrentTaskPageDirectory : KernelM σ δ Unit) :=
  (Idling.gets _).bind changeToGivenTaskPageDirectory_idle

theorem taskAccessStack_idle (task stackElem : ℕ) :
    Idling (taskAccessStack task stackElem : KernelM σ δ ℕ) :=
  (changeToGivenTaskPageDirectory_idle task).bind (fun _ ↦
    changeToKernelPageDirectory_idle.bind (fun _ ↦ Idling.pure _))

theorem taskAccessStack_elem {stackElem a : ℕ}
    (h : taskAccessStack task stackElem s = .ok (a, s')) : a = stackElem := by
  obtain ⟨_, _, -, h⟩ := bind_eq_ok.mp h
  obtain ⟨_, _, -, h⟩ := bind_eq_ok.mp h
  cases h
  rfl

theorem currentTaskSaveState_idle (iframe : Reg) :
    Idling (currentTaskSaveState iframe : KernelM σ δ Unit) := by
  refine (Idling.gets _).bind (fun task ↦ Idling.require.bind (fun _ ↦ ?_))
  intro s a s' h
  obtain ⟨l, hl, rfl⟩ := onTasks_eq_ok.mp h
  obtain ⟨t, l₁, h₁, hl⟩ := bind_eq_ok.mp hl
  obtain ⟨-, ht, rfl⟩ := taskAt_eq_ok.mp h₁
  cases hl
  exact { Idle.refl s with
    placeAt := fun u ↦ @placeAt_setTask _ _ _ { t with registers := iframe } ht rfl u }

variable [Allocator σ]

/-- A step that leaves the processes, their tasks and the memory in use as they
are, but for the keyboard buffers and the registers of tasks. -/
structure Still (s s' : KernelState σ δ) : Prop where
  grows : Grows s.arena s'.arena
  disks : s'.vfs.disks = s.vfs.disks
  processes : ∀ p, ∃ k, s'.processes p = (s.processes p).map (fun x ↦ x.withKeys k)
  processList : s'.processList = s.processList
  placeAt : ∀ u, s'.taskList.placeAt u = s.taskList.placeAt u
  taskListHead : s'.taskList.taskListHead = s.taskList.taskListHead

structure Quiet (s s' : KernelState σ δ) : Prop extends Still s s' where
  currentProcess : s'.currentProcess = s.currentProcess
  curTask : s'.taskList.curTask = s.taskList.curTask

theorem same_keys (o : Option Process) : ∃ k, o = o.map (fun x ↦ x.withKeys k) := by
  cases o with
  | none => exact ⟨⟨fun _ ↦ 0, 0, 0⟩, rfl⟩
  | some x => exact ⟨x.keyboardBuf, rfl⟩

theorem Idle.quiet (h : Idle s s') : Quiet s s' where
  grows := h.arena ▸ Grows.refl _
  disks := by rw [h.vfs]
  processes p := h.processes ▸ same_keys (s.processes p)
  processList := h.processList
  currentProcess := h.currentProcess
  placeAt := h.placeAt
  curTask := h.curTask
  taskListHead := h.taskListHead

theorem Still.trans (h : Still s s') (h' : Still s' s'') : Still s s'' where
  grows := h.grows.trans h'.grows
  disks := h'.disks.trans h.disks
  processes p := by
    obtain ⟨k, hk⟩ := h.processes p
    obtain ⟨k', hk'⟩ := h'.processes p
    refine ⟨k', ?_⟩
    rw [hk', hk, Option.map_map]
    rfl
  processList := h'.processList.trans h.processList
  placeAt u := (h'.placeAt u).trans (h.placeAt u)
  taskListHead := h'.taskListHead.trans h.taskListHead

theorem Quiet.trans (h : Quiet s s') (h' : Quiet s' s'') : Quiet s s'' where
  toStill := h.toStill.trans h'.toStill
  currentProcess := h'.currentProcess.trans h.currentProcess
  curTask := h'.curTask.trans h.curTask

theorem Quiet.refl (s : KernelState σ δ) : Quiet s s := (Idle.refl s).quiet

theorem setKeys_quiet {x' : Process} (hx : s.processes p = some x) (hk : ∃ k, x' = x.withKeys k) :
    Quiet s { s with processes := update s.processes p (some x') } := by
  refine { Quiet.refl s with processes := fun q ↦ ?_ }
  obtain ⟨k, rfl⟩ := hk
  by_cases hq : q = p
  · subst hq
    exact ⟨k, by rw [hx]; exact update_self _ _ _⟩
  · obtain ⟨k', hk'⟩ := same_keys (s.processes q)
    exact ⟨k', (update_of_ne hq _ _).trans hk'⟩

theorem keyboardPushToBuffer_keys {x x' : Process} {ch : UInt8}
    (h : keyboardPushToBuffer x ch = .ok x') : ∃ k, x' = x.withKeys k := by
  unfold keyboardPushToBuffer at h
  by_cases hch : ch = 0
  · rw [if_pos hch] at h
    cases h
    exact ⟨x.keyboardBuf, rfl⟩
  · rw [if_neg hch] at h
    dsimp only at h
    split at h
    · cases h
      exact ⟨_, rfl⟩
    · cases h

theorem keyboardPopFromBuffer_keys {x x' : Process} {ch : UInt8}
    (h : keyboardPopFromBuffer x = .ok (ch, x')) : ∃ k, x' = x.withKeys k := by
  unfold keyboardPopFromBuffer at h
  dsimp only at h
  split at h
  · split at h
    · cases h
      exact ⟨x.keyboardBuf, rfl⟩
    · cases h
      exact ⟨_, rfl⟩
  · cases h

theorem keyboardPut_quiet {ch : UInt8} {u : Unit} (h : keyboardPut ch s = .ok (u, s')) :
    Quiet s s' := by
  obtain ⟨current, s₀, h₀, h⟩ := bind_eq_ok.mp h
  cases h₀
  by_cases hc : s.currentProcess = 0
  · rw [if_pos hc] at h
    cases h
    exact Quiet.refl s
  · rw [if_neg hc] at h
    obtain ⟨x, s₁, h₁, h⟩ := bind_eq_ok.mp h
    obtain ⟨-, hx, rfl⟩ := processAt_eq_ok.mp h₁
    obtain ⟨x', s₂, h₂, h₃⟩ := bind_eq_ok.mp h
    obtain ⟨hpush, rfl⟩ := ofExcept_eq_ok.mp h₂
    cases h₃
    exact setKeys_quiet hx (keyboardPushToBuffer_keys hpush)

theorem keyboardGet_quiet {ch : UInt8} (h : keyboardGet s = .ok (ch, s')) : Quiet s s' := by
  obtain ⟨current, s₀, h₀, h⟩ := bind_eq_ok.mp h
  cases h₀
  by_cases hc : s.currentProcess = 0
  · rw [if_pos hc] at h
    cases h
    exact Quiet.refl s
  · rw [if_neg hc] at h
    obtain ⟨x, s₁, h₁, h⟩ := bind_eq_ok.mp h
    obtain ⟨-, hx, rfl⟩ := processAt_eq_ok.mp h₁
    obtain ⟨⟨ch', x'⟩, s₂, h₂, h⟩ := bind_eq_ok.mp h
    obtain ⟨hpop, rfl⟩ := ofExcept_eq_ok.mp h₂
    obtain ⟨_, s₃, h₃, h₄⟩ := bind_eq_ok.mp h
    cases h₃
    cases h₄
    exact setKeys_quiet hx (keyboardPopFromBuffer_keys hpop)

section Copy

variable [LawfulAllocator σ] {data : List UInt8} {a a₁ b : Arena σ} {base old : ℕ}

/-- What the shared page of a copy leaves behind: its entry in the page table
is put back, and its block is given back. -/
theorem sharedPage_grows (hS : Holds a.mem S) (hlive : ∀ r ∈ S.runs, r ∈ a.live)
    (hb : kzalloc size a = .ok (base, a₁)) (hne : base ≠ 0) (hsize : size ≤ pageSize)
    (hlen : data.length ≤ size) (val : ℕ) :
    Grows a (freed base { a₁ with mem := (mapVaddrToVal
      ((mapVaddrToVal a₁.mem (a₁.mem.load32 S.vspace) base val).2.writeBytes base data)
      (((mapVaddrToVal a₁.mem (a₁.mem.load32 S.vspace) base val).2.writeBytes base data).load32
        S.vspace) base ((pagingVirtToPhy a₁.mem S.vspace base).getD 0)).2 }) := by
  obtain ⟨hblock, htaken⟩ := kzalloc_taken hb hne
  have hgrows := kzalloc_grows hb
  have hlt := hblock.lt
  have hal := hblock.aligned
  obtain ⟨hS₁, -⟩ := hS.frame (fun r hr ↦ (hgrows r (hlive r hr)).bytes)
  have hclear : ∀ r ∈ a.live, Clear r base data.length := by
    intro r hr
    have hle := lt_blocksOf (u32 size)
    rw [u32_of_lt (by unfold pageSize at hsize; omega)] at hle
    refine ((kzalloc_granted hb hne).clear hr).mono (hlen.trans ?_)
    rwa [u32_of_lt (by unfold pageSize at hsize; omega)]
  have hS₂ : Holds (a₁.mem.store32 (S.slot base) val) S := hS₁.store hlt
  obtain ⟨hS₃, -⟩ : Holds ((a₁.mem.store32 (S.slot base) val).writeBytes base data) S ∧ _ := hS₂.frame
    (fun r hr i hi ↦ ByteMemory.writeBytes_outside (hclear r (hlive r hr) i hi))
  intro r hr
  have hkept := hgrows r hr
  have hstored : Kept r a { a₁ with
      mem := ((a₁.mem.store32 (S.slot base) val).writeBytes base data).store32 (S.slot base)
        (entries a₁.mem S base) } := by
    refine ⟨hkept.live, fun i hi ↦ Eq.trans ?_ (hkept.bytes i hi)⟩
    by_cases hslot : S.slot base ≤ i ∧ i < S.slot base + 4
    · exact ByteMemory.store32_load32 hslot.1 hslot.2
    · refine (ByteMemory.store32_outside (by omega)).trans ?_
      exact (ByteMemory.writeBytes_outside (hclear r hr i hi)).trans
        (ByteMemory.store32_outside (by omega))
  rw [hS₁.pd_eq, hS₁.map_eq hlt hal, hS₃.pd_eq, hS₃.map_eq hlt hal, hS₁.virtToPhy_eq hlt hal]
  exact kfree_kept (hblock.off (htaken.fresh _ (List.mem_singleton_self _) r hr)) _ hstored () _ rfl

theorem copyDataFromTaskToKernel_quiet {r : ℤ × List UInt8} (ht : s.taskList.tasks task = some t)
    (hspace : S.vspace = t.taskSpace) (hS : Holds s.arena.mem S)
    (hlive : ∀ r ∈ S.runs, r ∈ s.arena.live)
    (h : copyDataFromTaskToKernel task data size s = .ok (r, s')) : Quiet s s' := by
  unfold copyDataFromTaskToKernel at h
  by_cases hsize : size > pageSize
  · rw [if_pos hsize] at h
    cases h
    exact Quiet.refl s
  rw [if_neg hsize] at h
  obtain ⟨base, s₁, h₁, h⟩ := bind_eq_ok.mp h
  obtain ⟨a₁, hb, rfl⟩ := onHeap_eq_ok.mp h₁
  by_cases hne : base = 0
  · subst hne
    rw [if_pos rfl] at h
    cases h
    exact { Quiet.refl s with grows := kzalloc_grows hb }
  rw [if_neg hne] at h
  obtain ⟨t', s₂, h₂, h⟩ := bind_eq_ok.mp h
  obtain ⟨-, ht', rfl⟩ := onTasks_taskAt_eq_ok.mp h₂
  cases ht.symm.trans ht'
  have hgrows := sharedPage_grows hS hlive hb hne (Nat.not_lt.mp hsize)
    (List.length_take_le size data)
    (base ||| (pagePresent ||| pageWriteAccess ||| pageUserAccess))
  rw [hspace] at hgrows
  cases h
  exact { Quiet.refl s with grows := hgrows }

end Copy

end GammaOS.Kernel
