import GammaOS.Kernel.ProcessTable
import GammaOS.Kernel.Quiet
import GammaOS.Kernel.UserCalls

namespace GammaOS.Kernel

open Function Foundation Foundation.Program Memory Paging Fs Loader

def ProcessData.buffer : ProcessData → ℕ × ℕ
  | .elf elfData => (elfData.data, elfData.fileSize)
  | .bin rawData size => (rawData, size)

theorem ProcessData.buffer_mem (data : ProcessData) : data.buffer ∈ data.blocks := by
  cases data with
  | elf elfData => exact List.mem_cons_self
  | bin rawData size => exact List.mem_cons_self

/-- The blocks that are there for the program: its stack, its file and its allocations. -/
def Process.userBlocks (x : Process) (own : List (ℕ × ℕ)) : List (ℕ × ℕ) :=
  (x.stack, processMaxProcessStackSize) :: x.data.buffer :: own

/-- What the entries of a process may be, given the blocks of its program. -/
structure PageRule where
  Ok : List (ℕ × ℕ) → ℕ → ℕ → Prop
  mono : ∀ {bs bs' : List (ℕ × ℕ)} {v entry : ℕ}, bs ⊆ bs' → Ok bs v entry → Ok bs' v entry

variable {σ : Type} [Allocator σ] {rule : PageRule} {s s' s₁ : KernelState σ Fat16Files}
  {p c n size base addr ret : ℕ} {x y : Process} {t : Task} {S : Space} {g : Holding}
  {hold : ℕ → Holding} {env : ProcessEnv} {filename : List UInt8} {b : Arena σ} {l : TaskList}

structure Sound (rule : PageRule) (s : KernelState σ Fat16Files) (hold : ℕ → Holding) : Prop
    extends KernelInv s hold where
  pages : ∀ p x, s.processes p = some x → ∀ v < 2 ^ 32, v % pageSize = 0 →
    rule.Ok (x.userBlocks (hold p).own) v (entries s.arena.mem (hold p).space v)

namespace Sound

theorem still_live (h : KernelInv s hold) (hs : Still s s') (hx : s'.processes p = some y) :
    ∃ x k t, s.processes p = some x ∧ y = x.withKeys k ∧ LiveProcess s' p y t (hold p) ∧
      ∀ v < 2 ^ 32, entries s'.arena.mem (hold p).space v = entries s.arena.mem (hold p).space v := by
  obtain ⟨k, hk⟩ := hs.processes p
  obtain ⟨x, hx', rfl⟩ := Option.map_eq_some_iff.mp (hk.symm.trans hx)
  obtain ⟨t, ht⟩ := h.live p x hx'
  obtain ⟨t', ht', he⟩ := ht.keepKeys hx (hs.placeAt x.task)
    (fun r hr ↦ hs.grows r (ht.owned_live r hr))
  exact ⟨x, k, t', hx', rfl, ht', he⟩

theorem still_inv (h : KernelInv s hold) (hs : Still s s') : KernelInv s' hold where
  mounted := KernelInv.mounted_congr h.mounted hs.disks
  live p y hy := by
    obtain ⟨_, _, t, -, -, ht, -⟩ := still_live h hs hy
    exact ⟨t, ht⟩
  ledger := by
    have hsame : ∀ p, ownedAt s' hold p = ownedAt s hold p := by
      intro p
      obtain ⟨k, hk⟩ := hs.processes p
      rw [ownedAt, ownedAt, hk]
      cases s.processes p <;> rfl
    refine h.ledger.restrict (fun p r hr ↦ hsame p ▸ hr) (fun p r hr ↦ ?_)
    exact (hs.grows r (h.ledger.live p r (hsame p ▸ hr))).live
  listed p y hy := by
    obtain ⟨x, k, -, hx, rfl, -, -⟩ := still_live h hs hy
    rw [hs.processList]
    exact h.listed p x hx
  slots i hi hne := by
    rw [hs.processList] at hne ⊢
    obtain ⟨x, hx, hxi⟩ := h.slots i hi hne
    obtain ⟨k, hk⟩ := hs.processes (s.processList i)
    exact ⟨x.withKeys k, by rw [hk, hx]; rfl, hxi⟩

theorem still (h : Sound rule s hold) (hs : Still s s') : Sound rule s' hold where
  toKernelInv := still_inv h.toKernelInv hs
  pages p y hy v hv hva := by
    obtain ⟨x, k, -, hx, rfl, -, he⟩ := still_live h.toKernelInv hs hy
    rw [he v hv]
    exact h.pages p x hx v hv hva

theorem step (h : Sound rule s hold) (hs : ProcessStep s s' hold c g)
    (hpages : ∀ x, s'.processes c = some x → ∀ v < 2 ^ 32, v % pageSize = 0 →
      rule.Ok (x.userBlocks g.own) v (entries s'.arena.mem g.space v)) :
    Sound rule s' (update hold c g) where
  toKernelInv := h.toKernelInv.step hs
  pages p x hx v hv hva := by
    by_cases hp : p = c
    · subst hp
      rw [update_self]
      exact hpages x hx v hv hva
    · rw [update_of_ne hp]
      rw [hs.others p hp] at hx
      obtain ⟨t, ht⟩ := h.live p x hx
      obtain ⟨-, -, he⟩ := ht.keep (hs.others p hp) (hs.tasks p x hp hx) (hs.kept p x hp hx)
      rw [he v hv]
      exact h.pages p x hx v hv hva

end Sound

/-- The kernel runs its current process, and the first process is the first of the tasks. -/
structure InControl (rule : PageRule) (s : KernelState σ Fat16Files) (hold : ℕ → Holding) : Prop
    extends Sound rule s hold where
  current : ∃ x, s.processes s.currentProcess = some x ∧ s.taskList.curTask = x.task
  gshell : ∃ x, s.processes (s.processList 0) = some x ∧ s.taskList.taskListHead = x.task

namespace InControl

theorem withKeys_task (h : ∃ x, s.processes p = some x ∧ n = x.task) (hs : Still s s') :
    ∃ x, s'.processes p = some x ∧ n = x.task := by
  obtain ⟨x, hx, hn⟩ := h
  obtain ⟨k, hk⟩ := hs.processes p
  exact ⟨x.withKeys k, by rw [hk, hx]; rfl, hn⟩

theorem quiet (h : InControl rule s hold) (hs : Quiet s s') : InControl rule s' hold where
  toSound := h.toSound.still hs.toStill
  current := by
    rw [hs.currentProcess, hs.curTask]
    exact withKeys_task h.current hs.toStill
  gshell := by
    rw [hs.processList, hs.taskListHead]
    exact withKeys_task h.gshell hs.toStill

theorem current_live (h : InControl rule s hold) : ∃ x t,
    LiveProcess s s.currentProcess x t (hold s.currentProcess) ∧ s.taskList.curTask = x.task := by
  obtain ⟨x, hx, hcur⟩ := h.current
  obtain ⟨t, ht⟩ := h.live _ x hx
  exact ⟨x, t, ht, hcur⟩

theorem call {table : (ℕ → ℕ) × (ℕ → ℕ)} {own : List (ℕ × ℕ)} (h : InControl rule s hold)
    (hx : s.processes c = some x) (hs : CallStep s s' hold c x table own)
    (hpages : ∀ v < 2 ^ 32, v % pageSize = 0 →
      rule.Ok (x.userBlocks own) v (entries s'.arena.mem (hold c).space v)) :
    InControl rule s' (update hold c ⟨(hold c).space, own⟩) where
  toSound := h.toSound.step hs.step (fun y hy ↦ by
    rw [hs.processes, update_self] at hy
    cases hy
    exact hpages)
  current := by
    obtain ⟨y, hy, hcur⟩ := h.current
    rw [hs.currentProcess, hs.processes, hs.taskList]
    by_cases hp : s.currentProcess = c
    · rw [hp] at hy ⊢
      cases hx.symm.trans hy
      exact ⟨_, update_self _ _ _, hcur⟩
    · exact ⟨y, (update_of_ne hp _ _).trans hy, hcur⟩
  gshell := by
    obtain ⟨y, hy, hhead⟩ := h.gshell
    rw [hs.processList, hs.processes, hs.taskList]
    by_cases hp : s.processList 0 = c
    · rw [hp] at hy ⊢
      cases hx.symm.trans hy
      exact ⟨_, update_self _ _ _, hhead⟩
    · exact ⟨y, (update_of_ne hp _ _).trans hy, hhead⟩

end InControl

def MallocAllowed (rule : PageRule) (s : KernelState σ Fat16Files) (size : ℕ) : Prop :=
  ∀ x base b, s.processes s.currentProcess = some x → x.allocationOf 0 ≠ none →
    kzalloc size s.arena = .ok (base, b) → ∀ bs, (base ≠ 0 → (base, size) ∈ bs) →
    ∀ v < 2 ^ 32, v % pageSize = 0 → (mallocCall base size).Accepted →
    (mallocCall base size).Covers v → rule.Ok bs v ((mallocCall base size).valueAt v)

/-- A `process_free` maps nothing that the rule forbids, and takes nothing away that it needs. -/
def FreeAllowed (rule : PageRule) (s : KernelState σ Fat16Files) (addr : ℕ) : Prop :=
  ∀ x i, s.processes s.currentProcess = some x → x.allocationOf addr = some i →
    x.memAllocationsSize i ≠ 0 →
    (∀ bs, ∀ v < 2 ^ 32, v % pageSize = 0 → (freeCall addr (x.memAllocationsSize i)).Accepted →
      (freeCall addr (x.memAllocationsSize i)).Covers v →
      rule.Ok bs v ((freeCall addr (x.memAllocationsSize i)).valueAt v)) ∧
    (addr ≠ 0 → ∀ bs bs' v entry, rule.Ok bs v entry → rule.Ok bs' v entry)

def NewAllowed (rule : PageRule) (env : ProcessEnv) (filename : List UInt8)
    (s : KernelState σ Fat16Files) : Prop :=
  ∀ s₁ s' p x t S, Created env filename s s₁ s' p x t S → ∀ v < 2 ^ 32, v % pageSize = 0 →
    rule.Ok (x.userBlocks []) v
      (PageMap.mapAll taskMap (memoryCalls env.mapped s₁.arena.mem x.data x.stack) v)

namespace InControl

variable [LawfulAllocator σ]

theorem malloc (h : InControl rule s hold) (hs : size < 2 ^ 32) (hok : MallocAllowed rule s size)
    (hr : processMalloc size s = .ok (base, s')) :
    ∃ x table own, s.processes s.currentProcess = some x ∧
      CallStep s s' hold s.currentProcess x table own ∧
      InControl rule s' (update hold s.currentProcess ⟨(hold s.currentProcess).space, own⟩) := by
  obtain ⟨x, t, hl, -⟩ := h.current_live
  obtain ⟨table, hcall⟩ := h.toKernelInv.malloc hl rfl hs hr
  refine ⟨x, table, _, hl.at_process, hcall, h.call hl.at_process hcall (fun v hv hva ↦ ?_)⟩
  have hpages := h.pages _ x hl.at_process v hv hva
  obtain ⟨y, -, hy, hcases⟩ := processMalloc_eq_ok.mp hr
  cases hl.at_process.symm.trans hy
  rcases (((hl.owns rfl).malloc_memory hr).2 v hv hva) with hsame | ⟨hslot, hmaps⟩
  · rw [hsame]
    refine rule.mono (fun b hb ↦ ?_) hpages
    split
    · exact hb
    · rcases List.mem_cons.mp hb with rfl | hb
      · exact List.mem_cons_self
      · rcases List.mem_cons.mp hb with rfl | hb
        · exact List.mem_cons_of_mem _ List.mem_cons_self
        · exact List.mem_cons_of_mem _ (List.mem_cons_of_mem _ (List.mem_cons_of_mem _ hb))
  · rcases hcases with ⟨hno, -, -⟩ | ⟨_, _, b, -, -, -, hb, -⟩
    · exact absurd hno hslot
    rw [hmaps.entry]
    refine hok x base b hl.at_process hslot hb _ (fun hne ↦ ?_) v hv hva hmaps.accepted hmaps.covers
    rw [if_neg hne]
    exact List.mem_cons_of_mem _ (List.mem_cons_of_mem _ List.mem_cons_self)

theorem free (h : InControl rule s hold) (hok : FreeAllowed rule s addr)
    (hr : processFree addr s = .ok (ret, s')) :
    ∃ x table own, s.processes s.currentProcess = some x ∧
      CallStep s s' hold s.currentProcess x table own ∧
      InControl rule s' (update hold s.currentProcess ⟨(hold s.currentProcess).space, own⟩) := by
  obtain ⟨x, t, hl, -⟩ := h.current_live
  obtain ⟨table, hcall⟩ := h.toKernelInv.free hl rfl hr
  refine ⟨x, table, _, hl.at_process, hcall, h.call hl.at_process hcall (fun v hv hva ↦ ?_)⟩
  have hpages := h.pages _ x hl.at_process v hv hva
  have ho := hl.owns rfl
  rcases (ho.free_memory hr).2 v hv hva with hsame | ⟨i, hslot, hsize, hmaps⟩
  · rw [hsame]
    cases hslot : x.allocationOf addr with
    | none => rwa [ho.filter_absent hslot]
    | some i =>
      by_cases ha : addr = 0
      · subst ha
        rwa [ho.filter_null]
      · obtain ⟨y, -, hy, hcases⟩ := processFree_eq_ok.mp hr
        cases hl.at_process.symm.trans hy
        rcases hcases with ⟨hno, -, -⟩ | ⟨j, _, hj, hsize, -⟩
        · cases hslot.symm.trans hno
        · exact (hok x j hl.at_process hj hsize).2 ha _ _ v _ hpages
  · rw [hmaps.entry]
    exact (hok x i hl.at_process hslot hsize).1 _ v hv hva hmaps.accepted hmaps.covers

theorem gshell_head (h : InControl rule s hold) : s.taskList.taskListHead ≠ 0 := by
  obtain ⟨x, hx, hhead⟩ := h.gshell
  obtain ⟨t, ht⟩ := h.live _ x hx
  exact hhead ▸ ht.task_ne

theorem created_current (h : InControl rule s hold) (hc : Created env filename s s₁ s' p x t S) :
    s'.currentProcess = s.currentProcess ∧ s'.taskList.curTask = s.taskList.curTask := by
  obtain ⟨z, hz⟩ := hc.added
  obtain ⟨y, u, hl, -⟩ := h.current_live
  rw [hc.currentProcess, if_neg hl.ne_zero]
  exact ⟨rfl, (taskListAdd_head hz h.gshell_head).2⟩

theorem created (h : InControl rule s hold) (hc : Created env filename s s₁ s' p x t S)
    (hok : NewAllowed rule env filename s) : InControl rule s' (update hold p ⟨S, []⟩) := by
  have hnone := h.created_none hc
  have hne : ∀ q y, s.processes q = some y → q ≠ p := by
    rintro q y hy rfl
    cases hnone.symm.trans hy
  obtain ⟨z, hz⟩ := hc.added
  obtain ⟨hhead, -⟩ := taskListAdd_head hz h.gshell_head
  refine ⟨h.toSound.step (h.toKernelInv.created hc) (fun y hy v hv hva ↦ ?_), ?_, ?_⟩
  · rw [hc.processes, update_self] at hy
    cases hy
    rw [hc.entry v hv hva]
    exact hok s₁ s' p x t S hc v hv hva
  · obtain ⟨y, u, hl, hy⟩ := h.current_live
    obtain ⟨hcp, hct⟩ := h.created_current hc
    rw [hcp, hct, hc.processes, update_of_ne (hne _ y hl.at_process)]
    exact ⟨y, hl.at_process, hy⟩
  · obtain ⟨y, hy, hyh⟩ := h.gshell
    obtain ⟨u, hu⟩ := h.live _ y hy
    have hpid : (0 : ℕ) ≠ x.pid := by
      intro he
      have hfree := (processGetFreeProcessId_free (hasFreeEntry_iff.mpr hc.pid_lt)).2
      rw [show processGetFreeProcessId s = x.pid by rw [hc.fresh]; rfl, ← he] at hfree
      exact hu.ne_zero hfree
    rw [hc.processList, update_of_ne hpid, hc.processes, update_of_ne (hne _ y hy), hhead]
    exact ⟨y, hy, hyh⟩

theorem newFailed (h : InControl rule s hold) (hf : NewFailed s s') : InControl rule s' hold := by
  have hstep := h.toSound.step (h.toKernelInv.newFailed hf) (fun y hy ↦ by
    rw [hf.processes] at hy
    obtain ⟨t, ht⟩ := h.live 0 y hy
    exact absurd rfl ht.ne_zero)
  rw [update_eq_self] at hstep
  obtain ⟨x, t, hl, hcur⟩ := h.current_live
  obtain ⟨y, hy, hyh⟩ := h.gshell
  obtain ⟨u, hu⟩ := h.live _ y hy
  have htasks : s'.taskList.taskListHead = s.taskList.taskListHead ∧
      s'.taskList.curTask = s.taskList.curTask := by
    rcases hf.tasks with hsame | ⟨task, z, l, hfresh, hadd, hdelete⟩
    · rw [hsame]
      exact ⟨rfl, rfl⟩
    · obtain ⟨hhead, hcur'⟩ := taskListAdd_head hadd h.gshell_head
      have hneh : task ≠ l.taskListHead := by
        rw [hhead]
        show task ≠ s.taskList.taskListHead
        rw [hyh]
        exact (hfresh.2 _ (hu.block _ (y.task_mem _))).symm
      have hnec : task ≠ l.curTask := by
        rw [hcur']
        show task ≠ s.taskList.curTask
        rw [hcur]
        exact (hfresh.2 _ (hl.block _ (x.task_mem _))).symm
      obtain ⟨hhead', hcur''⟩ := taskListDelete_head hdelete hneh
      exact ⟨hhead'.trans hhead, (hcur'' hnec).trans hcur'⟩
  refine ⟨hstep, ?_, ?_⟩
  · rw [hf.currentProcess, hf.processes, htasks.2]
    exact ⟨x, hl.at_process, hcur⟩
  · rw [hf.processList, hf.processes, htasks.1]
    exact ⟨y, hy, hyh⟩

theorem killed (h : InControl rule s hold) (hk : Killed s s' p x t b l)
    (hne : p ≠ s.processList 0) : Sound rule s' hold ∧
      ∃ y, s'.processes (s'.processList 0) = some y ∧ s'.taskList.taskListHead = y.task := by
  have hself : s'.processes p = none := by
    rw [hk.state]
    exact update_self _ _ _
  have hstep := h.toSound.step (h.toKernelInv.killed hk) (fun y hy ↦ by cases hself.symm.trans hy)
  rw [update_eq_self] at hstep
  refine ⟨hstep, ?_⟩
  obtain ⟨y, hy, hyh⟩ := h.gshell
  obtain ⟨v, hv⟩ := h.live _ y hy
  obtain ⟨u, hu⟩ := h.live p x hk.at_process
  have hpid : (0 : ℕ) ≠ x.pid := by
    intro he
    have hlisted := (h.listed p x hk.at_process).2
    rw [← he] at hlisted
    exact hne hlisted.symm
  have hlist : s'.processList 0 = s.processList 0 := by
    rw [hk.state]
    exact update_of_ne hpid _ _
  have htask : x.task ≠ s.taskList.taskListHead := by
    rw [hyh]
    exact hu.task_ne_of_apart hv (h.apart hk.at_process hy hne)
  have hprocesses : s'.processes (s.processList 0) = some y := by
    rw [hk.state]
    exact (update_of_ne (Ne.symm hne) _ _).trans hy
  have hlast : s'.taskList = l := by
    rw [hk.state]
    rfl
  rw [hlist, hlast, (taskListDelete_head hk.deleted htask).1]
  exact ⟨y, hprocesses, hyh⟩

end InControl

/-- The current process is live and listed under its number, its task is the
current one, and the page directory of its task is loaded. -/
structure Agrees (s : KernelState σ Fat16Files) (x : Process) (t : Task) : Prop where
  live : s.processes s.currentProcess = some x
  pid_lt : x.pid < processMaxProcesses
  listed : s.processList x.pid = s.currentProcess
  task : s.taskList.curTask = x.task
  at_task : s.taskList.tasks x.task = some t
  process : t.process = s.currentProcess
  loaded : s.currentPageDirectory = s.arena.mem.load32 t.taskSpace

namespace InControl

theorem switched (h : Sound rule s hold)
    (hg : ∃ y, s.processes (s.processList 0) = some y ∧ s.taskList.taskListHead = y.task)
    (hx : s.processes s.currentProcess = some x) (ht : s.taskList.tasks x.task = some t)
    (hs : s' = { s with
      taskList := { s.taskList with curTask := x.task }
      currentPageDirectory := s.arena.mem.load32 t.taskSpace }) :
    InControl rule s' hold ∧ Agrees s' x t := by
  obtain ⟨u, hu⟩ := h.live _ x hx
  cases ht.symm.trans hu.at_task
  obtain ⟨hlt, hlisted⟩ := h.listed _ x hx
  subst hs
  have hstill : Still s { s with
      taskList := { s.taskList with curTask := x.task }
      currentPageDirectory := s.arena.mem.load32 t.taskSpace } :=
    ⟨Grows.refl _, rfl, fun p ↦ same_keys (s.processes p), rfl, fun _ ↦ rfl, rfl⟩
  exact ⟨⟨h.still hstill, ⟨x, hx, rfl⟩, hg⟩, hx, hlt, hlisted, rfl, ht, hu.process_eq, rfl⟩

theorem run (h : Sound rule s hold)
    (hg : ∃ y, s.processes (s.processList 0) = some y ∧ s.taskList.taskListHead = y.task)
    (hr : runProcess p s = .ok ((), s')) :
    InControl rule s' hold ∧ ∃ x t, Agrees s' x t := by
  obtain ⟨_, s₁, h₁, hr⟩ := bind_eq_ok.mp hr
  cases h₁
  obtain ⟨x, s₂, h₂, hr⟩ := bind_eq_ok.mp hr
  obtain ⟨-, hx, rfl⟩ := processAt_eq_ok.mp h₂
  obtain ⟨_, s₃, h₃, hr⟩ := bind_eq_ok.mp hr
  obtain ⟨_, s₄, h₄, h₃⟩ := bind_eq_ok.mp h₃
  cases h₄
  obtain ⟨t, s₅, h₅, h₃⟩ := bind_eq_ok.mp h₃
  obtain ⟨-, ht, rfl⟩ := onTasks_taskAt_eq_ok.mp h₅
  cases h₃
  obtain ⟨t', s₆, h₆, hr⟩ := bind_eq_ok.mp hr
  obtain ⟨-, -, rfl⟩ := onTasks_taskAt_eq_ok.mp h₆
  cases hr
  have hsound : Sound rule { s with currentProcess := p } hold :=
    h.still ⟨Grows.refl _, rfl, fun p ↦ same_keys (s.processes p), rfl, fun _ ↦ rfl, rfl⟩
  obtain ⟨h', hagrees⟩ := switched hsound hg hx ht rfl
  exact ⟨h', x, t, hagrees⟩

theorem back (h : InControl rule s hold)
    (hr : changeToCurrentTaskPageDirectory s = .ok ((), s')) :
    InControl rule s' hold ∧ ∃ x t, Agrees s' x t := by
  refine ⟨h.quiet (changeToCurrentTaskPageDirectory_idle _ _ _ hr).quiet, ?_⟩
  obtain ⟨_, s₁, h₁, hr⟩ := bind_eq_ok.mp hr
  cases h₁
  obtain ⟨t, s₂, h₂, hr⟩ := bind_eq_ok.mp hr
  obtain ⟨-, ht, rfl⟩ := onTasks_taskAt_eq_ok.mp h₂
  cases hr
  obtain ⟨x, u, hl, hcur⟩ := h.current_live
  have hxt : s.taskList.tasks x.task = some t := hcur ▸ ht
  cases hxt.symm.trans hl.at_task
  obtain ⟨hlt, hlisted⟩ := h.listed _ x hl.at_process
  exact ⟨x, t, hl.at_process, hlt, hlisted, hcur, hxt, hl.process_eq, rfl⟩

end InControl

end GammaOS.Kernel
