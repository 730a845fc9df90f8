import GammaOS.Kernel.UserStores
import Mathlib.Logic.Relation

namespace GammaOS.Kernel

open Function Foundation Foundation.Program Memory Paging Fs Loader

variable {whole : Bool} {rule : PageRule} {disk : Disk} {env : ProcessEnv} {entries : ℕ → UInt8}
  {m : ByteMemory} {s s' s₀ : KernelState (KHeap whole) Fat16Files} {p : ℕ} {x : Process} {t : Task}
  {hold : ℕ → Holding} {cond : KernelState (KHeap whole) Fat16Files → Entry → Prop}

/-- What happens next when control is in user mode: an entry to the kernel that
meets the condition, an interrupt with no handler but `no_int_handler`, or a
store of the program. -/
inductive MachineStep (cond : KernelState (KHeap whole) Fat16Files → Entry → Prop) :
    KernelState (KHeap whole) Fat16Files → KernelState (KHeap whole) Fat16Files → Prop
  | entry {s s' : KernelState (KHeap whole) Fat16Files} {e : Entry} (hw : e.Words) (hc : cond s e)
      (hr : e.run s = .ok ((), s')) : MachineStep cond s s'
  | interrupt {s s' : KernelState (KHeap whole) Fat16Files}
      {handler : Option (KernelM (KHeap whole) Fat16Files Unit)} {iframe : Reg}
      (hh : ∀ f ∈ handler, f = noIntHandler)
      (hr : interruptHandler handler iframe s = .ok ((), s')) : MachineStep cond s s'
  | store {s s' : KernelState (KHeap whole) Fat16Files} {v : ℕ} {b : UInt8} (hv : v < 2 ^ 32)
      (hr : userStore v b s = .ok ((), s')) : MachineStep cond s s'

/-- The states in which control is in user mode: behind the boot, and behind each step. -/
inductive MachineRun (cond : KernelState (KHeap whole) Fat16Files → Entry → Prop) (disk : Disk)
    (env : ProcessEnv) (s₀ : KernelState (KHeap whole) Fat16Files) :
    KernelState (KHeap whole) Fat16Files → Prop
  | boot {s : KernelState (KHeap whole) Fat16Files} (hw : env.Words)
      (hr : kernelStart disk env s₀ = .ok ((), s)) : MachineRun cond disk env s₀ s
  | step {s s' : KernelState (KHeap whole) Fat16Files} (h : MachineRun cond disk env s₀ s)
      (hs : MachineStep cond s s') : MachineRun cond disk env s₀ s'

theorem MachineRun.steps (h : MachineRun cond disk env s₀ s)
    (hs : Relation.ReflTransGen (MachineStep cond) s s') : MachineRun cond disk env s₀ s' := by
  induction hs with
  | refl => exact h
  | tail _ hstep ih => exact ih.step hstep

theorem SystemRun.machine (h : SystemRun cond disk env s₀ s) : MachineRun cond disk env s₀ s := by
  induction h with
  | boot hw hr => exact .boot hw hr
  | entry _ hw hc hr ih => exact ih.step (.entry hw hc hr)

theorem MachineStep.userSafe (h : MachineStep cond s s') (hs : UserSafe rule s hold)
    (hrule : rule.Inside) (hcond : ∀ s e, e.Words → cond s e → e.Allowed rule s) :
    ∃ hold', UserSafe rule s' hold' ∧ Evolves hold hold' s s' := by
  cases h with
  | entry hw hc hr => exact hs.entry hw (hcond _ _ hw hc) hr
  | interrupt hh hr =>
    refine ⟨hold, hs.interrupt (fun f hf s s' hf' ↦ ?_) hr⟩
    cases hh f hf
    cases hf'
    exact ⟨Quiet.refl s, (Untouched.refl s).aside⟩
  | store hv hr => exact ⟨hold, hs.store hrule hv hr⟩

theorem MachineRun.userSafe (h : MachineRun cond disk env s₀ s) (h₀ : SetUp s₀)
    (hboot : BootAllowed rule disk env s₀) (hrule : rule.Inside)
    (hcond : ∀ s e, e.Words → cond s e → e.Allowed rule s) : ∃ hold, UserSafe rule s hold := by
  induction h with
  | boot hw hr =>
    obtain ⟨hold, hin, ha, htables⟩ := h₀.kernelStart_apart hw hboot hr
    exact ⟨hold, hin, ha, htables⟩
  | step _ hs ih =>
    obtain ⟨hold, hsafe⟩ := ih
    obtain ⟨hold', hsafe', -⟩ := hs.userSafe hsafe hrule hcond
    exact ⟨hold', hsafe'⟩

def Suspended (cond : KernelState (KHeap whole) Fat16Files → Entry → Prop) (p : ℕ) :
    KernelState (KHeap whole) Fat16Files → KernelState (KHeap whole) Fat16Files → Prop :=
  Relation.ReflTransGen (fun s s' ↦ MachineStep cond s s' ∧ s.currentProcess ≠ p)

theorem Suspended.undisturbed (h : Suspended cond p s s') (hs : UserSafe rule s hold)
    (hrule : rule.Inside) (hcond : ∀ s e, e.Words → cond s e → e.Allowed rule s)
    (hl : LiveProcess s p x t (hold p)) : ∃ hold', UserSafe rule s' hold' ∧ hold' p = hold p ∧
      Undisturbed p x (hold p) s s' := by
  induction h with
  | refl => exact ⟨hold, hs, rfl, rfl, rfl, fun r hr ↦ Kept.refl (hl.owned_live r hr)⟩
  | tail _ hstep ih =>
    obtain ⟨hstep, hcur⟩ := hstep
    obtain ⟨hold₁, hs₁, heq, hu⟩ := ih
    obtain ⟨hold₂, hs₂, hev⟩ := hstep.userSafe hs₁ hrule hcond
    obtain ⟨t₁, hl₁, -⟩ := hl.undisturbed hu
    have hp := Ne.symm hcur
    rw [← heq] at hl₁ hu ⊢
    refine ⟨hold₂, hs₂, ?_, hu.trans (hev.aside p x t₁ hp (hs₁.task_ne hl₁ hp) hl₁)⟩
    exact hev.held p hp (by rw [hl₁.at_process]; exact Option.some_ne_none x)

def MayWrite (s : KernelState (KHeap whole) Fat16Files) (p page : ℕ) : Prop :=
  ∃ x t v entry, s.processes p = some x ∧ s.taskList.tasks x.task = some t ∧ v < 2 ^ 32 ∧
    v % pageSize = 0 ∧ pagingVirtToPhy s.arena.mem t.taskSpace v = some entry ∧
    WritableByUser entry ∧ page = entry &&& 0xfffff000

def HoldsTables (s : KernelState (KHeap whole) Fat16Files) (p page : ℕ) : Prop :=
  ∃ x t, s.processes p = some x ∧ s.taskList.tasks x.task = some t ∧
    (page = t.taskSpace ∨ page = s.arena.mem.load32 t.taskSpace ∨
      page = s.arena.mem.load32 (s.arena.mem.load32 t.taskSpace) ∨
      ∃ i < pageDirEntries,
        page = tableOf s.arena.mem (s.arena.mem.load32 (s.arena.mem.load32 t.taskSpace)) i)

/-- Whatever user mode may write is live memory of the process that runs, no two
processes may write to the same page, and none may write to page tables. -/
structure Separated (s : KernelState (KHeap whole) Fat16Files) : Prop where
  own : ∀ p x page, s.processes p = some x → MayWrite s p page → OwnsPage s x page
  disjoint : ∀ p q page, p ≠ q → MayWrite s p page → ¬ MayWrite s q page
  tables : ∀ p q page, MayWrite s p page → ¬ HoldsTables s q page

section Separation

variable {page : ℕ}

theorem MayWrite.live (h : MayWrite s p page) (hs : InControl rule s hold) :
    ∃ x t v, LiveProcess s p x t (hold p) ∧ v < 2 ^ 32 ∧ v % pageSize = 0 ∧
      WritableByUser (Paging.entries s.arena.mem (hold p).space v) ∧
      page = Paging.entries s.arena.mem (hold p).space v &&& 0xfffff000 := by
  obtain ⟨x, t, v, entry, hx, ht, hv, hva, he, hw, rfl⟩ := h
  obtain ⟨u, hl⟩ := hs.live p x hx
  cases ht.symm.trans hl.at_task
  rw [← hl.space, hl.holds.virtToPhy_eq hv hva] at he
  cases he
  exact ⟨x, t, v, hl, hv, hva, hw, rfl⟩

theorem HoldsTables.run (h : HoldsTables s p page) (hs : UserSafe rule s hold) :
    (∃ x, s.processes p = some x) ∧ pageRun page ∈ (hold p).space.runs := by
  obtain ⟨x, t, hx, ht, hpage⟩ := h
  obtain ⟨u, hl⟩ := hs.live p x hx
  cases ht.symm.trans hl.at_task
  refine ⟨⟨x, hx⟩, ?_⟩
  rw [← hl.space, hl.holds.pd_eq, hl.holds.directory_eq] at hpage
  rcases hpage with rfl | rfl | rfl | ⟨i, hi, rfl⟩
  · exact Space.vspace_run
  · exact Space.pd_run
  · exact Space.directory_run
  · rw [hl.holds.table_eq i hi]
    exact Space.table_run hi

theorem UserSafe.separated (h : UserSafe rule s hold) (hrule : rule.Inside) : Separated s where
  own p x page hx hw := by
    obtain ⟨y, t, v, hl, hv, hva, hwrite, rfl⟩ := hw.live h.toInControl
    cases hx.symm.trans hl.at_process
    exact hl.ownsPage (hrule _ _ _ (h.pages p x hx v hv hva)) hwrite
  disjoint p q page hpq hp hq := by
    obtain ⟨x, t, v, hl, hv, hva, hw, rfl⟩ := hp.live h.toInControl
    obtain ⟨y, u, w, hl', hv', hva', hw', hpage⟩ := hq.live h.toInControl
    obtain ⟨block, hb, hin⟩ := h.writable_inBlock hrule hl' hv' hva' hw'
    rw [← hpage] at hin
    obtain ⟨hal, howned⟩ := hl'.userBlock_owned hb
    exact (h.writable_apart hrule hl hv hva hw (Nat.le_refl _)
      (Nat.lt_add_of_pos_right (by decide))).2 q y (Ne.symm hpq) hl'.at_process _ howned
      (hin.mem_blockRun hal (Nat.le_refl _) (Nat.lt_add_of_pos_right (by decide)))
  tables p q page hp hq := by
    obtain ⟨x, t, v, hl, hv, hva, hw, rfl⟩ := hp.live h.toInControl
    obtain ⟨⟨y, hy⟩, hrun⟩ := hq.run h
    obtain ⟨hown, hother⟩ := h.writable_apart hrule hl hv hva hw (Nat.le_refl _)
      (Nat.lt_add_of_pos_right (by decide))
    by_cases hqp : q = p
    · subst hqp
      exact hown _ hrun (mem_pageRun.mpr rfl)
    · exact hother q y hqp hy _ (Process.space_owned hrun) (mem_pageRun.mpr rfl)

end Separation

/-- The process at `p` is as it was and in its entry of the process list, its task
is to go on with the registers, it sees its pages where they were, and its stack,
its file and its allocations are its own still, with the bytes that they had. -/
structure Carried (s s' : KernelState (KHeap whole) Fat16Files) (p : ℕ) (x : Process) (t : Task)
    (registers : Reg) : Prop where
  process : s'.processes p = some x
  slot : s'.processList x.pid = p
  task : ∃ t', s'.taskList.tasks x.task = some t' ∧ t'.taskSpace = t.taskSpace ∧
    t'.registers = registers
  mapped : ∀ v < 2 ^ 32, v % pageSize = 0 →
    pagingVirtToPhy s'.arena.mem t.taskSpace v = pagingVirtToPhy s.arena.mem t.taskSpace v
  own : ∀ page, OwnsPage s x page → OwnsPage s' x page
  bytes : ∀ page, OwnsPage s x page → ∀ i < pageSize,
    s'.arena.mem (page + i) = s.arena.mem (page + i)

section Carried

variable {registers : Reg} {s'' : KernelState (KHeap whole) Fat16Files} {hold' : ℕ → Holding}
  {g : Holding} {page : ℕ}

theorem Carried.trans (h : Carried s s' p x t registers)
    (h' : ∀ t', s'.taskList.tasks x.task = some t' → Carried s' s'' p x t' t'.registers) :
    Carried s s'' p x t registers := by
  obtain ⟨t', ht', hspace, rfl⟩ := h.task
  have hnext := h' t' ht'
  obtain ⟨u, hu, hspace', hregisters⟩ := hnext.task
  refine ⟨hnext.process, hnext.slot, ⟨u, hu, hspace'.trans hspace, hregisters⟩, fun v hv hva ↦ ?_,
    fun page hp ↦ hnext.own page (h.own page hp), fun page hp i hi ↦ ?_⟩
  · rw [← hspace, hnext.mapped v hv hva, hspace, h.mapped v hv hva]
  · rw [hnext.bytes page (h.own page hp) i hi, h.bytes page hp i hi]

end Carried

section Sample

variable {v : Fat16Volume} {us : List (List UInt8)} {f₀ : Fat16File} {cluster k n : ℕ}
  {s s' : KernelState (KHeap false) Fat16Files}

theorem sample_boots_inside : Boots KeepsInside (shellDisk sampleImage sampleImage) quietEnv
    (bootState false (fun _ ↦ 0) (fun _ ↦ 0)) :=
  (@sampleShell_boots Entry.KeepsInside _ (fun _ _ h ↦
    sample_inside (gshell_stores (by decide)) h (by decide) quietEnv_words)).1

end Sample

def PageRule.and (rule rule' : PageRule) : PageRule where
  Ok bs v entry := rule.Ok bs v entry ∧ rule'.Ok bs v entry
  mono hsub h := ⟨rule.mono hsub h.1, rule'.mono hsub h.2⟩

section Both

variable {rule' : PageRule} {e : Entry}

theorem Command.Allowed.and {command : Command} (h : command.Allowed rule s)
    (h' : command.Allowed rule' s) : command.Allowed (rule.and rule') s := by
  cases command with
  | malloc size => exact fun x base b hx hslot hb bs hmem v hv hva hacc hcov ↦
      ⟨h x base b hx hslot hb bs hmem v hv hva hacc hcov,
        h' x base b hx hslot hb bs hmem v hv hva hacc hcov⟩
  | free addr =>
    intro x i hx hslot hsize
    obtain ⟨hmaps, hkeeps⟩ := h x i hx hslot hsize
    obtain ⟨hmaps', hkeeps'⟩ := h' x i hx hslot hsize
    exact ⟨fun bs v hv hva hacc hcov ↦ ⟨hmaps bs v hv hva hacc hcov, hmaps' bs v hv hva hacc hcov⟩,
      fun h0 bs bs' v entry hok ↦ ⟨hkeeps h0 bs bs' v entry hok.1, hkeeps' h0 bs bs' v entry hok.2⟩⟩
  | exec env data rest => exact fun filename s₁ h₁ s₂ s' p x t S hc v hv hva ↦
      ⟨h filename s₁ h₁ s₂ s' p x t S hc v hv hva, h' filename s₁ h₁ s₂ s' p x t S hc v hv hva⟩
  | _ => trivial

theorem Entry.Allowed.and (h : e.Allowed rule s) (h' : e.Allowed rule' s) :
    e.Allowed (rule.and rule') s := by
  cases e with
  | keyboard _ _ => trivial
  | syscall command iframe => exact fun s₁ h₁ ↦ (h s₁ h₁).and (h' s₁ h₁)

end Both

/-- In runs that load no file over the kernel or out of its blocks, the kernel has
its pages in their places whenever it is entered, and user mode writes to none but
those of the heap. -/
theorem machine_kernelPages
    (hclear : Boots ClearOfKernel disk env (bootState whole entries m))
    (hinside : Boots KeepsInside disk env (bootState whole entries m))
    (h : MachineRun (fun s e ↦ KeepsKernel s e ∧ e.KeepsInside s) disk env
      (bootState whole entries m) s) :
    (∀ p x t, s.processes p = some x → s.taskList.tasks x.task = some t →
      ∀ v, KernelPage v → TranslatesToItself s.arena.mem t.taskSpace v) ∧
    ∀ p page, MayWrite s p page →
      kernelHeapBase ≤ page ∧ page + pageSize ≤ kernelHeapBase + kernelHeapSize := by
  have hrule : (kernelPageRule.and ownPageRule).Inside := fun _ _ _ h ↦ h.2
  have hallowed : BootAllowed (kernelPageRule.and ownPageRule) disk env
      (bootState whole entries m) := fun s hs s₁ s' p x t S hc v hv hva ↦
    ⟨(hclear.shell s hs).allowed s₁ s' p x t S hc v hv hva,
      (hinside.shell s hs).allowed s₁ s' p x t S hc v hv hva⟩
  obtain ⟨hold, hs⟩ := h.userSafe bootState_setUp hallowed hrule
    (fun _ _ hw hc ↦ hc.1.allowed.and (hc.2.allowed hw))
  refine ⟨fun p x t hx ht v hv ↦ ?_, fun p page hw ↦ ?_⟩
  · obtain ⟨u, hl⟩ := hs.live p x hx
    cases ht.symm.trans hl.at_task
    have hlt : v < 2 ^ 32 := Nat.lt_of_lt_of_le (Nat.lt_add_of_pos_right (by decide)) hv.lt
    refine ⟨_, ?_, (hs.pages p x hx v hlt hv.1).1 hv⟩
    rw [← hl.space, hl.holds.virtToPhy_eq hlt hv.1]
  · obtain ⟨x, t, v, hl, -⟩ := hw.live hs.toInControl
    obtain ⟨b, hblock, ⟨hle, hend⟩, -⟩ := (hs.separated hrule).own p x page hl.at_process hw
    have hbase : pageOf kernelHeapBase ≤ b.1 / pageSize := KHeap.live_above hblock.live
    have hlimit : b.1 / pageSize + blocksOf (u32 b.2) ≤ pageOf (kernelHeapBase + kernelHeapSize) :=
      KHeap.live_inside hblock.live
    have hal := hblock.aligned
    unfold pageOf kernelHeapBase kernelHeapSize at *
    unfold pageSize at *
    omega

theorem machine_kernelPages_shell : ∃ (s : KernelState (KHeap false) Fat16Files) (x : Process)
    (t : Task), s.processes s.currentProcess = some x ∧ s.taskList.tasks x.task = some t ∧
    (∀ v, KernelPage v → TranslatesToItself s.arena.mem t.taskSpace v) ∧
    ∀ p page, MayWrite s p page →
      kernelHeapBase ≤ page ∧ page + pageSize ≤ kernelHeapBase + kernelHeapSize := by
  obtain ⟨hclear, s, hrun, -⟩ :=
    @sampleShell_boots (fun s e ↦ KeepsKernel s e ∧ e.KeepsInside s) ClearOfKernel
      (fun _ _ ↦ sample_clear)
  obtain ⟨hold, hin, -⟩ := hrun.inControl bootState_setUp bootAllowed_any
    (fun s e _ _ ↦ e.allowed_any s)
  obtain ⟨hpages, hheap⟩ := machine_kernelPages hclear sample_boots_inside hrun.machine
  obtain ⟨x, t, hl, -⟩ := hin.current_live
  exact ⟨s, x, t, hl.at_process, hl.at_task, hpages _ x t hl.at_process hl.at_task, hheap⟩

end GammaOS.Kernel
