import GammaOS.Kernel.NewProcess
import GammaOS.Kernel.ProcessMemory
import GammaOS.Kernel.TaskBodies

namespace GammaOS.Kernel

open Function Foundation Foundation.Program Memory Paging Fs Loader

variable {σ : Type} [Allocator σ] [LawfulAllocator σ] {env : ProcessEnv} {filename : List UInt8}
  {s s' s₁ s₂ : KernelState σ Fat16Files} {p process task stack : ℕ} {data : ProcessData}
  {alien : ByteMemory} {r : Run}

/-- What `process_new` has once it has loaded its data: the struct, the stack
and the data in blocks of their own, and zeros in the stack. -/
structure PreparedFrame (s s₁ : KernelState σ Fat16Files) (process stack : ℕ) (status : ℤ)
    (data : Option ProcessData) : Prop where
  grows : Grows s.arena s₁.arena
  disks : s₁.vfs.disks = s.vfs.disks
  processBlock : Block s₁.arena process processSize
  stackBlock : Block s₁.arena stack processMaxProcessStackSize
  zeroed : ∀ i, stack ≤ i → i < stack + processMaxProcessStackSize → s₁.arena.mem i = 0
  taken : Taken s.arena s₁.arena
    [blockRun stack processMaxProcessStackSize, blockRun process processSize]
  loaded : 0 ≤ status → ∃ d, data = some d ∧ (∀ b ∈ d.blocks, Block s₁.arena b.1 b.2 ∧ b.2 < 2 ^ 32) ∧
    Taken s.arena s₁.arena (d.runs ++
      [blockRun stack processMaxProcessStackSize, blockRun process processSize])

theorem Prepared.frame (hm : Fat16Mounted s.vfs) (henv : env.Words) {status : ℤ}
    {data : Option ProcessData} (h : Prepared env filename s process stack status data s₁) :
    PreparedFrame s s₁ process stack status data := by
  obtain ⟨ha, hp, -, hb, hst, hv⟩ := h
  rename_i a b v
  have hload := processLoadData_frame (s := (s.setArena b).vfs) hm henv hv
  have hgb : Grows b v.drive.arena := hload.frame.grows
  obtain ⟨hpBlock, hpTaken⟩ := kzalloc_taken ha hp
  obtain ⟨hsBlock, hsTaken⟩ := kzalloc_taken hb hst
  have g := kzalloc_granted hb hst
  have hga := kzalloc_grows ha
  have hpKept := kzalloc_grows hb _ hpBlock.live
  have htaken : Taken s.arena b
      [blockRun stack processMaxProcessStackSize, blockRun process processSize] :=
    hpTaken.append hsTaken hga (List.forall_mem_singleton.mpr hpKept)
  have hkept : ∀ r ∈ [blockRun stack processMaxProcessStackSize, blockRun process processSize],
      Kept r b v.drive.arena := fun r hr ↦ hgb r (htaken.live r hr)
  have hsKept := hkept _ List.mem_cons_self
  refine ⟨(hga.trans (kzalloc_grows hb)).trans hgb, hload.frame.disks,
    hpBlock.keep (hkept _ (List.mem_cons_of_mem _ List.mem_cons_self)).live,
    hsBlock.keep hsKept.live, fun i h₁ h₂ ↦ ?_, htaken.mono (fun r hr ↦ (hkept r hr).live),
    fun hs ↦ ?_⟩
  · have hu : u32 processMaxProcessStackSize = processMaxProcessStackSize := by decide
    have hle := lt_blocksOf (u32 processMaxProcessStackSize)
    have hmem := hsKept.bytes i (hsBlock.byte_mem h₁ (by rw [hu] at hle ⊢; omega))
    exact hmem.trans (g.zeroed i h₁ (by rw [hu]; exact h₂))
  · obtain ⟨d, rfl, hd, hsize⟩ := hload.loaded hs
    exact ⟨d, rfl, fun c hc ↦ ⟨hd.block c hc, hsize c hc⟩,
      htaken.append hd.taken (hga.trans (kzalloc_grows hb)) hkept⟩

structure TaskFrame (process : ℕ) (s s' : KernelState σ Fat16Files) (task : ℕ) (t : Task)
    (S : Space) : Prop where
  grows : Grows s.arena s'.arena
  vfs : s'.vfs.disks = s.vfs.disks
  taskBlock : Block s'.arena task taskSize
  space : S.vspace = t.taskSpace
  vspace_lt : S.vspace < 2 ^ 32
  holds : Holds s'.arena.mem S
  identity : ∀ v < 2 ^ 32, v % pageSize = 0 →
    entries s'.arena.mem S v = v ||| (pagePresent ||| pageUserAccess)
  taken : Taken s.arena s'.arena (S.runs ++ [blockRun task taskSize])
  at_task : s'.taskList.tasks task = some t
  process_eq : t.process = process
  added : ∃ x, taskListAdd task (s.taskList.setTask task (some x)) = .ok ((), s'.taskList)

theorem TaskResult.frame (h : TaskResult alien process data s task s') (ht : task ≠ 0) :
    ∃ t S, TaskFrame process s s' task t S := by
  cases h with
  | none => exact absurd rfl ht
  | @made task space a b l ha _ hb hl =>
    obtain ⟨hBlock, hTaken⟩ := kzalloc_taken ha ht
    obtain ⟨S, rfl, hS⟩ := createVirtualAddressSpace_made (by decide) hb
    have hself := TaskList.setTask_self s.taskList task
      (some (freshTask alien b.mem S.vspace process data))
    obtain ⟨t, ht', hspace, hproc⟩ := placeAt_eq_some
      ((taskListAdd_placeAt hl task).trans (placeAt_of_some hself))
    have hkept := hS.kept _ hBlock.live
    have hspaceTaken : Taken a b S.runs := ⟨hS.runs_live, hS.runs_fresh⟩
    refine ⟨t, S, (kzalloc_grows ha).trans hS.kept, rfl, hBlock.keep hkept.live, hspace.symm,
      createVirtualAddressSpace_lt hb, hS.holds, hS.identity,
      hTaken.append hspaceTaken (kzalloc_grows ha) (List.forall_mem_singleton.mpr hkept), ht',
      hproc, _, hl⟩

structure MapFrame (env : ProcessEnv) (m : ByteMemory) (data : ProcessData) (stack : ℕ) (t : Task)
    (S : Space) (s : KernelState σ Fat16Files) : Prop where
  holds : Holds (mapResult env t data stack s).2 S
  outside : ∀ i, S.OffTables i → (mapResult env t data stack s).2 i = s.arena.mem i
  mapped : (∀ c ∈ memoryCalls env.mapped m data stack, c.Accepted) →
    0 ≤ (mapResult env t data stack s).1
  entry : 0 ≤ (mapResult env t data stack s).1 →
    (∀ c ∈ memoryCalls env.mapped m data stack, c.Accepted) ∧ ∀ v < 2 ^ 32, v % pageSize = 0 →
      entries (mapResult env t data stack s).2 S v =
        PageMap.mapAll (fun v ↦ v ||| (pagePresent ||| pageUserAccess))
          (memoryCalls env.mapped m data stack) v

omit [LawfulAllocator σ] in
theorem TaskFrame.map {t : Task} {S : Space} (h : TaskFrame process s₁ s₂ task t S)
    (hstack : stack < 2 ^ 32) (hdata : ∀ b ∈ data.blocks, Block s₁.arena b.1 b.2 ∧ b.2 < 2 ^ 32) :
    MapFrame env s₁.arena.mem data stack t S s₂ := by
  have hbuffer : ∀ elfData, data = .elf elfData → ∀ a, elfData.data ≤ a →
      a < elfData.data + elfData.fileSize →
        pageOf a ∈ blockRun elfData.data elfData.fileSize ∧
          blockRun elfData.data elfData.fileSize ∈ s₁.arena.live := by
    rintro elfData rfl a h₁ h₂
    obtain ⟨hb, hs⟩ := hdata _ List.mem_cons_self
    exact ⟨hb.asked_mem hs h₁ h₂, hb.live⟩
  have hoff : DataOff S data := by
    cases data with
    | elf elfData =>
      intro a h₁ h₂
      obtain ⟨hp, hl⟩ := hbuffer elfData rfl a h₁ h₂
      exact Space.offTables_of_apart
        (fun q hq ↦ h.taken.fresh q (List.mem_append_left _ hq) _ hl) hp
    | bin rawData size => trivial
  have hcalls : memoryCalls env.mapped s₂.arena.mem data stack =
      memoryCalls env.mapped s₁.arena.mem data stack := by
    rw [memoryCalls, memoryCalls, calls_congr]
    intro elfData he a h₁ h₂
    obtain ⟨hp, hl⟩ := hbuffer elfData he a h₁ h₂
    exact (h.grows _ hl).bytes a hp
  have hres : mapResult env t data stack s₂ =
      (mapStatus (mapCalls S.vspace (memoryCalls env.mapped s₁.arena.mem data stack)
        s₂.arena.mem).1, (mapCalls S.vspace (memoryCalls env.mapped s₁.arena.mem data stack)
        s₂.arena.mem).2) := by
    rw [mapResult, ← h.space, processMapMemory_eq h.holds hoff, hcalls]
  have hval := @memoryCalls_valid s₁.arena.mem env.mapped data stack hstack
    (fun b hb ↦ (hdata b hb).1.lt)
  obtain ⟨hh, ho⟩ := mapCalls_holds h.holds hval
  rw [← congrArg Prod.snd hres] at hh ho
  refine ⟨hh, ho, fun hacc ↦ ?_, fun hm ↦ ?_⟩
  · rw [hres]
    exact mapStatus_nonneg.mpr (mapCalls_accepted.mpr hacc)
  rw [hres] at hm
  have hok := mapStatus_nonneg.mp hm
  refine ⟨mapCalls_accepted.mp hok, fun v hv hva ↦ ?_⟩
  rw [hres]
  exact (mapCalls_entries h.holds hval hok v hv hva).trans (mapAll_congr (h.identity v hv hva))

/-- A fresh task at `task`, as a `task_list_add` sees it: no allocated task is there. -/
def FreshTask (s : KernelState σ Fat16Files) (task : ℕ) : Prop :=
  task ≠ 0 ∧ ∀ u, Block s.arena u taskSize → u ≠ task

structure NewFailed (s s' : KernelState σ Fat16Files) : Prop where
  grows : Grows s.arena s'.arena
  disks : s'.vfs.disks = s.vfs.disks
  processes : s'.processes = s.processes
  processList : s'.processList = s.processList
  currentProcess : s'.currentProcess = s.currentProcess
  kernelSpace : s'.kernelSpace = s.kernelSpace
  tasks : s'.taskList = s.taskList ∨ ∃ task x l, FreshTask s task ∧
    taskListAdd task (s.taskList.setTask task (some x)) = .ok ((), l) ∧
    taskListDelete task l = .ok ((), s'.taskList)

theorem closeTask_kept {t : Task} {S : Space} {x : ℤ} {a : Arena σ}
    (h : closeTask task s = .ok (x, s')) (htask : s.taskList.tasks task = some t)
    (hS : Holds s.arena.mem S) (hspace : S.vspace = t.taskSpace) (hlt : S.vspace < 2 ^ 32)
    (hap : ∀ q ∈ S.runs, q.Apart r) (hoff : Off r task) (hk : Kept r a s.arena) :
    Kept r a s'.arena := by
  obtain ⟨t', b, l, -, ht', hd, -, rfl⟩ := closeTask_eq_ok h
  cases htask.symm.trans ht'
  rw [← hspace] at hd
  have hkb := (destroyVirtualAddressSpace_kept hap hlt s.arena.mem hS _ ⟨hk, rfl⟩ _ _ hd).1
  have h₁ := kfree_kept hoff _ hkb () (freed task b) rfl
  exact kfree_kept hoff _ h₁ () (freed task (freed task b)) rfl

omit [LawfulAllocator σ] in
theorem closeTask_state {x : ℤ} (h : closeTask task s = .ok (x, s')) :
    ∃ b l, taskListDelete task s.taskList = .ok ((), l) ∧
      s' = { s.setArena b with taskList := l } := by
  obtain ⟨t, b, l, -, -, -, hl, rfl⟩ := closeTask_eq_ok h
  exact ⟨_, l, hl, rfl⟩

theorem kept_freed {a b : Arena σ} (hoff : Off r p) (hk : Kept r b a) : Kept r b (freed p a) :=
  kfree_kept hoff a hk () _ rfl

omit [LawfulAllocator σ] in
theorem Prepared.state {status : ℤ} {data : Option ProcessData}
    (h : Prepared env filename s process stack status data s₁) : ∃ v, s₁ = { s with vfs := v } := by
  cases h
  exact ⟨_, rfl⟩

omit [LawfulAllocator σ] in
theorem TaskResult.state (h : TaskResult alien process data s task s') :
    ∃ a l, s' = { s.setArena a with taskList := l } := by
  cases h
  · exact ⟨_, s.taskList, rfl⟩
  · exact ⟨_, _, rfl⟩

omit [LawfulAllocator σ] in
theorem PreparedFrame.off {status : ℤ} {data : Option ProcessData}
    (h : PreparedFrame s s₁ process stack status data) (hr : r ∈ s.arena.live) :
    Off r process ∧ Off r stack :=
  ⟨h.processBlock.off (h.taken.fresh _ (by simp) r hr),
    h.stackBlock.off (h.taken.fresh _ (by simp) r hr)⟩

def OutOfMemory (filename : List UInt8) (s : KernelState σ Fat16Files) : Prop :=
  (∃ a, kzalloc processSize s.arena = .ok (0, a)) ∨
    ∃ process a b, kzalloc processSize s.arena = .ok (process, a) ∧ process ≠ 0 ∧
      filename.length < processNameRoom ∧ kzalloc processMaxProcessStackSize a = .ok (0, b)

/-- A `process_new` that returns null is out of memory at once, or it comes to
its load and keeps from there on what is off its struct and its stack. -/
theorem NewResult.keeps (hm : Fat16Mounted s.vfs) (henv : env.Words)
    (h : NewResult env filename s 0 s') : (OutOfMemory filename s ∧ Grows s.arena s'.arena) ∨
      ∃ process stack status data s₁, Prepared env filename s process stack status data s₁ ∧
        ∀ r ∈ s₁.arena.live, Off r process → Off r stack → Kept r s₁.arena s'.arena := by
  generalize hp : (0 : ℕ) = p at h
  cases h with
  | noStruct ha => exact Or.inl ⟨Or.inl ⟨_, ha⟩, kzalloc_grows ha⟩
  | noStack ha hne hname hb =>
    refine Or.inl ⟨Or.inr ⟨_, _, _, ha, hne, hname, hb⟩, fun r hr ↦ ?_⟩
    obtain ⟨hBlock, hTaken⟩ := kzalloc_taken ha hne
    have hoff : Off r _ := hBlock.off (hTaken.fresh _ (List.mem_singleton_self _) r hr)
    exact kept_freed hoff (((kzalloc_grows ha).trans (kzalloc_grows hb)) r hr)
  | @notLoaded _ _ _ _ s₁ hprep _ =>
    refine Or.inr ⟨_, _, _, _, s₁, hprep, fun r hr hop hos ↦ ?_⟩
    exact kept_freed hop (kept_freed hos (Kept.refl hr))
  | @noTask _ _ _ _ s₁ _ hprep _ hnew =>
    refine Or.inr ⟨_, _, _, _, s₁, hprep, fun r hr hop hos ↦ ?_⟩
    cases hnew with
    | none ha => exact kept_freed hop (kept_freed hos (kzalloc_grows ha r hr))
    | made _ hne => exact absurd rfl hne
  | @unmapped process stack task status x data t s₁ s₂ s₃ hprep hs hnew ht htask hneg hclose =>
    refine Or.inr ⟨_, _, _, _, s₁, hprep, fun r hr hop hos ↦ ?_⟩
    have hf := hprep.frame hm henv
    obtain ⟨d, hd, hdata, -⟩ := hf.loaded hs
    cases hd
    obtain ⟨t', S, hT⟩ := hnew.frame ht
    cases hT.at_task.symm.trans htask
    have hmap : MapFrame env s₁.arena.mem data stack t S s₂ := hT.map hf.stackBlock.lt hdata
    have hap : ∀ q ∈ S.runs, q.Apart r :=
      fun q hq ↦ hT.taken.fresh q (List.mem_append_left _ hq) r hr
    have hoff : Off r task := hT.taskBlock.off (hT.taken.fresh _ (by simp) r hr)
    refine kept_freed hop (closeTask_kept hclose htask hmap.holds hT.space hT.vspace_lt hap hoff
      (kept_freed hos ⟨(hT.grows r hr).live, fun i hi ↦ ?_⟩))
    exact (hmap.outside i (Space.offTables_of_apart hap hi)).trans ((hT.grows r hr).bytes i hi)
  | created hprep =>
    exact absurd hp.symm (hprep.frame hm henv).processBlock.ne_zero

theorem NewResult.grows (hm : Fat16Mounted s.vfs) (henv : env.Words)
    (h : NewResult env filename s 0 s') : Grows s.arena s'.arena := by
  rcases h.keeps hm henv with ⟨-, hg⟩ | ⟨process, stack, status, data, s₁, hprep, hkeep⟩
  · exact hg
  · intro r hr
    have hf := hprep.frame hm henv
    have hk := hf.grows r hr
    exact hk.trans (hkeep r hk.live (hf.off hr).1 (hf.off hr).2)

theorem processNew_failed (hm : Fat16Mounted s.vfs) (henv : env.Words)
    (h : processNew env filename s = .ok (0, s')) : NewFailed s s' := by
  have hg := (processNew_result h).grows hm henv
  generalize hp : (0 : ℕ) = p at h
  cases processNew_result h with
  | noStruct _ => exact ⟨hg, rfl, rfl, rfl, rfl, rfl, Or.inl rfl⟩
  | noStack _ _ _ _ => exact ⟨hg, rfl, rfl, rfl, rfl, rfl, Or.inl rfl⟩
  | notLoaded hprep hs =>
    have hf := hprep.frame hm henv
    obtain ⟨v, rfl⟩ := hprep.state
    exact ⟨hg, hf.disks, rfl, rfl, rfl, rfl, Or.inl rfl⟩
  | noTask hprep hs hnew =>
    have hf := hprep.frame hm henv
    obtain ⟨v, rfl⟩ := hprep.state
    cases hnew with
    | none ha => exact ⟨hg, hf.disks, rfl, rfl, rfl, rfl, Or.inl rfl⟩
    | made _ hne => exact absurd rfl hne
  | @unmapped process stack task status x data t s₁ s₂ s₃ hprep hs hnew ht htask hneg hclose =>
    have hf := hprep.frame hm henv
    obtain ⟨t', S, hT⟩ := hnew.frame ht
    have htaskFresh : Taken s.arena s₂.arena (S.runs ++ [blockRun task taskSize]) :=
      hT.taken.after hf.grows
    obtain ⟨y, hy⟩ := hT.added
    obtain ⟨b, l, hl, hs₃⟩ := closeTask_state hclose
    obtain ⟨v, rfl⟩ := hprep.state
    obtain ⟨c, l', rfl⟩ := hnew.state
    subst hs₃
    refine ⟨hg, hT.vfs.trans hf.disks, rfl, rfl, rfl, rfl,
      Or.inr ⟨task, y, l', ⟨ht, fun u hu ↦ ?_⟩, hy, hl⟩⟩
    exact htaskFresh.ne (by simp) hT.taskBlock hu
  | created hprep =>
    exact absurd hp.symm (hprep.frame hm henv).processBlock.ne_zero

end GammaOS.Kernel
