import GammaOS.Kernel.Boot
import GammaOS.Loader.ShellVolume

namespace GammaOS.Kernel

open Function Foundation Foundation.Program Memory Paging Fs Loader

theorem newDisks_total {σ : Type} [Allocator σ] [RoomyAllocator σ] (k : ℕ) : ∀ n,
    Total (Arena.HasRoom (σ := σ) (k + n)) (newDisks n)
      (fun disks s ↦ (disks.length = n ∧ ∀ d ∈ disks, d ≠ 0) ∧ s.HasRoom k) := by
  intro n
  induction n with
  | zero => exact .pure (fun _ h ↦ ⟨⟨rfl, fun _ hd ↦ absurd hd List.not_mem_nil⟩, h⟩)
  | succ n ih =>
    intro s hs
    obtain ⟨disk, s₁, h₁, hne, hr₁⟩ := kzallocOne_total (n := diskSize) (by decide) (k + n) s hs
    obtain ⟨rest, s₂, h₂, ⟨hlen, hall⟩, hr₂⟩ := ih s₁ hr₁
    refine ⟨disk :: rest, s₂, (bind_run_ok h₁).trans (bind_run_ok h₂),
      ⟨by rw [List.length_cons, hlen], fun d hd ↦ ?_⟩, hr₂⟩
    rcases List.mem_cons.mp hd with rfl | hd
    · exact hne
    · exact hall d hd

variable {whole : Bool} {s s' : KernelState (KHeap whole) Fat16Files} {shell program : List UInt8}
  {env : ProcessEnv} {entries : ℕ → UInt8} {m : ByteMemory} {k n : ℕ} {v : Fat16Volume}

theorem kernelSpaceInit_total (hr : s.arena.HasRoom (k + 1027)) :
    ∃ s', kernelSpaceInit s = .ok ((), s') ∧ s'.arena.HasRoom k ∧ s'.vfs.fdList = s.vfs.fdList := by
  obtain ⟨space, b, hb, hne, hrb⟩ := createVirtualAddressSpace_total
    (pagePresent ||| pageUserAccess ||| pageWriteAccess) k _ hr
  unfold kernelSpaceInit
  generalize (createVirtualAddressSpace (pagePresent ||| pageUserAccess ||| pageWriteAccess) :
    ArenaM (KHeap whole) ℕ) = create at hb ⊢
  refine ⟨{ s.setArena b with
    kernelSpace := space, currentPageDirectory := b.mem.load32 space }, ?_, hrb, rfl⟩
  refine (bind_run_ok (onHeap_eq_ok.mpr ⟨b, hb, rfl⟩)).trans ?_
  exact (bind_run_ok (require_run hne)).trans rfl

theorem diskInit_total (shell program : List UInt8) (hr : s.arena.HasRoom (k + 33)) :
    ∃ s' files, diskInit (shellDisk shell program) s = .ok ((), s') ∧ s'.arena.HasRoom k ∧
      s'.vfs.fdList = s.vfs.fdList ∧
      s'.vfs.disks 65 = some (fat16 (shellVolume shell program files)) := by
  obtain ⟨disks, b, hb, ⟨hlen, hall⟩, hrb⟩ := newDisks_total (k + 7) maxNumberOfDisks s.arena hr
  obtain ⟨_, c, hc, ⟨files, rfl⟩, hrc⟩ := shellDisk_resolved shell program k b hrb
  unfold diskInit
  generalize (newDisks maxNumberOfDisks : ArenaM (KHeap whole) (List ℕ)) = newDisks at hb ⊢
  generalize hd : shellDisk shell program = disk at hc ⊢
  generalize (fat16Resolve disk : ArenaM (KHeap whole) _) = resolve at hc ⊢
  have hhead : disks.headD 0 ≠ 0 := by
    cases disks with
    | nil => cases hlen
    | cons d ds => exact hall d List.mem_cons_self
  refine ⟨{ s.setArena c with vfs := { (s.setArena c).vfs with
    disks := update s.vfs.disks 65 (some (fat16 ⟨disk, (shellVolume shell program files).pd⟩)) } },
    files, ?_, hrc, rfl, ?_⟩
  · refine (bind_run_ok (onHeap_eq_ok.mpr ⟨b, hb, rfl⟩)).trans ?_
    refine (bind_run_ok (require_run hhead)).trans ?_
    exact (bind_run_ok (onHeap_eq_ok.mpr ⟨c, hc, rfl⟩)).trans rfl
  · subst hd
    have hself : update s.vfs.disks 65 (some (fat16 (shellVolume shell program files))) 65 =
      some (fat16 (shellVolume shell program files)) := update_self _ _ _
    exact hself

theorem kernelSetup_total (shell program : List UInt8) (hset : SetUp s)
    (hfd : ∀ i, s.vfs.fdList i = none)
    (hr : s.arena.HasRoom (k + 1060)) :
    ∃ s' files, kernelSetup (shellDisk shell program) s = .ok ((), s') ∧
      Ready (shellVolume shell program files) 0 k s' ∧ SetUp s' := by
  obtain ⟨s₁, h₁, hr₁, hfd₁⟩ := kernelSpaceInit_total (k := k + 33) hr
  obtain ⟨s₂, files, h₂, hr₂, hfd₂, hdisk⟩ := diskInit_total shell program hr₁
  have h : kernelSetup (shellDisk shell program) s = .ok ((), s₂) := (bind_run_ok h₁).trans h₂
  have hset' := hset.kernelSetup h
  refine ⟨s₂, files, h, ⟨hdisk, hset'.mounted, fun i _ ↦ ?_, Or.inl ?_, hr₂⟩, hset'⟩
  · rw [hfd₂, hfd₁, hfd]
  · rw [hset'.taskList]
    rfl

/-- A process of the image is live: its address space is in place, with the
entries that the headers of the image ask for. -/
def RunsImage (env : ProcessEnv) (content : List UInt8) (s : KernelState (KHeap whole) Fat16Files) :
    Prop :=
  ∃ p x t S f m pid path, s.processes p = some x ∧ x = newProcess pid path x.task (.elf f) x.stack ∧
    s.taskList.tasks x.task = some t ∧ S.vspace = t.taskSpace ∧ Holds s.arena.mem S ∧
    Block s.arena x.stack processMaxProcessStackSize ∧ HoldsImage content m f ∧
    ∀ v < 2 ^ 32, v % pageSize = 0 → Paging.entries s.arena.mem S v =
      PageMap.mapAll taskMap (memoryCalls env.mapped m (.elf f) x.stack) v

theorem Created.runsImage {filename : List UInt8} {s₁ s₂ : KernelState (KHeap whole) Fat16Files}
    {p : ℕ} {x : Process} {t : Task} {S : Space} {f : ElfFile} {content : List UInt8}
    (hc : Created env filename s s₁ s₂ p x t S) (hx : x.data = .elf f)
    (himage : HoldsImage content s₁.arena.mem f) (hvfs : s'.vfs = s₂.vfs)
    (hp : s'.processes = s₂.processes) (ht : s'.taskList.tasks = s₂.taskList.tasks) :
    RunsImage env content s' := by
  have harena : s'.arena = s₂.arena := congrArg (fun v ↦ v.drive.arena) hvfs
  refine ⟨p, x, t, S, f, _, processGetFreeProcessId s, filename, ?_, ?_, ?_, hc.space, ?_, ?_, himage,
    ?_⟩
  · rw [hp, hc.processes, update_self]
  · rw [← hx]
    exact hc.fresh
  · rw [ht, hc.at_task]
  · rw [harena]
    exact hc.holds
  · rw [harena]
    exact hc.block (x.stack, processMaxProcessStackSize) (List.mem_cons_of_mem _ List.mem_cons_self)
  · rw [harena, ← hx]
    exact hc.entry

theorem RunsImage.segment {content : List UInt8} {phdr : Elf32Phdr} {v : ℕ}
    (h : RunsImage env content s) (hc : Image content) (hone : (imageEhdr content).ePhnum = 1)
    (hphdr : imagePhdr content 0 = phdr)
    (hseg : ∀ f : ElfFile, kernelHeapBase ≤ f.data →
      f.data + pageSize ≤ kernelHeapBase + kernelHeapSize → Segment f phdr)
    (hv : v < 2 ^ 32) (hva : v % pageSize = 0) (hin : InRange phdr v)
    (hout : ¬ (taskDefaultStackEnd ≤ v ∧ v < taskDefaultStackBegin)) :
    ∃ p x t f pid path, s.processes p = some x ∧ x = newProcess pid path x.task (.elf f) x.stack ∧
      s.taskList.tasks x.task = some t ∧ Block s.arena x.stack processMaxProcessStackSize ∧
      f.data % pageSize = 0 ∧ kernelHeapBase ≤ f.data ∧
      f.data + pageSize ≤ kernelHeapBase + kernelHeapSize ∧ f.fileSize = content.length ∧
      pagingVirtToPhy s.arena.mem t.taskSpace v = some
        ((u32 (f.data + phdr.pOffset) - phdr.pVaddr % pageSize +
          (v - pagingAlignToPageLower phdr.pVaddr)) ||| (phdrCall f phdr).flags) := by
  obtain ⟨p, x, t, S, f, m, pid, path, hx, hnew, ht, hspace, hS, hstack, himage, he⟩ := h
  refine ⟨p, x, t, f, pid, path, hx, hnew, ht, hstack, himage.aligned, himage.base_le, himage.data_le,
    himage.fileSize, ?_⟩
  rw [← hspace, hS.virtToPhy_eq hv hva, he v hv hva, ← hphdr]
  exact congrArg some (himage.mapAll_segment hc hone
    (hphdr ▸ hseg f himage.base_le himage.data_le) hv hva (hphdr ▸ hin)
    (by rwa [stackCall_covers hstack.aligned (stack_end hstack) hv]))

theorem Ready.step {j : ℕ} (h : Ready v n j s) (hdisks : s'.vfs.disks = s.vfs.disks)
    (hfd : s'.vfs.fdList = s.vfs.fdList) (hg : Grows s.arena s'.arena)
    (hhead : s'.taskList.taskListHead = s.taskList.taskListHead)
    (htail : s'.taskList.taskListTail = s.taskList.taskListTail)
    (htasks : ∀ u, s'.taskList.placeAt u = s.taskList.placeAt u) (hroom : s'.arena.HasRoom k) :
    Ready v n k s' where
  disk := by rw [hdisks, h.disk]
  mounted := KernelInv.mounted_congr h.mounted hdisks
  free i hi := by rw [hfd, h.free i hi]
  addable := by
    refine h.addable.imp (fun h ↦ hhead.trans h) (fun ⟨h₁, h₂, y, hy⟩ ↦ ?_)
    obtain ⟨y', hy', -⟩ := placeAt_eq_some
      ((htasks s.taskList.taskListTail).trans (placeAt_of_some hy))
    rw [htail]
    exact ⟨h₁, h₂.keep (hg _ h₂.live).live, y', hy'⟩
  room := hroom

theorem enterTask_total {t : Task} {task : ℕ} (h0 : task ≠ 0) (ht : s.taskList.tasks task = some t) :
    enterTask task s = .ok ((), s) :=
  bind_run_ok (onTasks_taskAt_eq_ok.mpr ⟨h0, ht, rfl⟩)

theorem taskSwitch_total {t : Task} {task : ℕ} (h0 : task ≠ 0)
    (ht : s.taskList.tasks task = some t) : taskSwitch task s =
      .ok ((), { s with
        taskList := { s.taskList with curTask := task }
        currentPageDirectory := s.arena.mem.load32 t.taskSpace }) := by
  refine (bind_run_ok (onTasks_eq_ok.mpr ⟨{ s.taskList with curTask := task }, rfl, rfl⟩)).trans ?_
  have hat : onTasks (taskAt task) { s with taskList := { s.taskList with curTask := task } } =
      .ok (t, { s with taskList := { s.taskList with curTask := task } }) :=
    onTasks_taskAt_eq_ok.mpr ⟨h0, ht, rfl⟩
  exact (bind_run_ok hat).trans rfl

theorem runProcess_total {p : ℕ} {x : Process} {t : Task} (h : Ready v n k s) (hp : p ≠ 0)
    (hx : s.processes p = some x) (h0 : x.task ≠ 0) (ht : s.taskList.tasks x.task = some t) :
    ∃ s', runProcess p s = .ok ((), s') ∧ Ready v n k s' ∧ s'.vfs = s.vfs ∧
      s'.processes = s.processes ∧ s'.taskList.tasks = s.taskList.tasks ∧
      s'.currentProcess = p := by
  refine ⟨{ s with
    currentProcess := p
    taskList := { s.taskList with curTask := x.task }
    currentPageDirectory := s.arena.mem.load32 t.taskSpace }, ?_,
    h.step rfl rfl (Grows.refl _) rfl rfl (fun _ ↦ rfl) h.room, rfl, rfl, rfl, rfl⟩
  refine (bind_run_ok (m := processSwitch p) rfl).trans ?_
  refine (bind_run_ok (processAt_eq_ok (s := { s with currentProcess := p }).mpr
    ⟨hp, hx, rfl⟩)).trans ?_
  refine (bind_run_ok (taskSwitch_total (s := { s with currentProcess := p }) h0 ht)).trans ?_
  exact enterTask_total h0 ht

theorem gammaosFirstEverTask_total {t : Task} {task : ℕ} (h : Ready v n k s) (h0 : task ≠ 0)
    (hcur : s.taskList.curTask = task) (hhead : s.taskList.taskListHead = task)
    (ht : s.taskList.tasks task = some t) :
    ∃ s', gammaosFirstEverTask s = .ok ((), s') ∧ Ready v n k s' ∧ s'.vfs = s.vfs ∧
      s'.processes = s.processes ∧ s'.processList = s.processList ∧
      s'.taskList.tasks = s.taskList.tasks := by
  refine ⟨{ s with
    taskList := { s.taskList with curTask := task }
    currentPageDirectory := s.arena.mem.load32 t.taskSpace }, ?_,
    h.step rfl rfl (Grows.refl _) rfl rfl (fun _ ↦ rfl) h.room, rfl, rfl, rfl, rfl⟩
  refine (bind_run_ok (m := currentTask) rfl).trans ?_
  refine (bind_run_ok (require_run (c := s.taskList.curTask ≠ 0) (hcur ▸ h0))).trans ?_
  refine (bind_run_ok (gets_run _ _)).trans ?_
  rw [hhead]
  refine (bind_run_ok (taskSwitch_total h0 ht)).trans ?_
  exact (bind_run_ok (m := currentTask) rfl).trans (enterTask_total h0 ht)

theorem SetUp.freeProcessId (h : SetUp s) : processGetFreeProcessId s = 0 := by
  rw [processGetFreeProcessId, processMaxProcesses, freeProcessIdLoop, if_pos (h.processList 0)]
  rfl

theorem kernelStart_total (program : List UInt8) (hset : SetUp s) (hfd : ∀ i, s.vfs.fdList i = none)
    (hr : s.arena.HasRoom (k + 2131)) (henv : env.Words) (hc : Image shell)
    (hlen : shell.length = 92) :
    ∃ s' files, kernelStart (shellDisk shell program) env s = .ok ((), s') ∧
      Ready (shellVolume shell program files) 1 k s' ∧ RunsImage env shell s' ∧
      processGetFreeProcessId s' < processMaxProcesses := by
  obtain ⟨s₁, files, h₁, hready, hset₁⟩ := kernelSetup_total (k := k + 1071) shell program hset hfd hr
  have hpid := hset₁.freeProcessId
  obtain ⟨p, s₂, s₃, x, t, S, f, hnew, hcreated, hx, himage, -, -, hready₂⟩ := processNew_stored
    (gshell_stores hlen) hc hready (by decide) henv (by rw [hpid]; decide)
  obtain ⟨z, hz⟩ := hcreated.added
  rw [taskListAdd_first (by rw [hset₁.taskList]; rfl)] at hz
  have hlist := (Prod.mk.inj (Except.ok.inj hz)).2
  obtain ⟨s₄, h₄, hready₄, hvfs, hprocesses, hprocessList, htasks⟩ :=
    gammaosFirstEverTask_total hready₂
    (hcreated.block _ (x.task_mem p)).ne_zero (by rw [← hlist]) (by rw [← hlist]) hcreated.at_task
  have hfree : HasFreeEntry s₄ := by
    refine ⟨1, by decide, ?_⟩
    have hx0 : x.pid = 0 := by
      rw [hcreated.fresh]
      exact hpid
    rw [hprocessList, hcreated.processList, hx0, update_of_ne Nat.one_ne_zero, hset₁.processList]
  refine ⟨s₄, files, ?_, hready₄, hcreated.runsImage hx himage hvfs hprocesses htasks,
    hasFreeEntry_iff.mp hfree⟩
  refine (bind_run_ok h₁).trans ?_
  refine (bind_run_ok (m := processNew env gshellPath) hnew).trans ?_
  exact (bind_run_ok (require_run (hcreated.block _ (x.self_mem p)).ne_zero)).trans h₄

theorem copyDataFromTaskToKernel_total {t : Task} {task : ℕ} (size : ℕ) (data : List UInt8)
    (h0 : task ≠ 0) (ht : s.taskList.tasks task = some t) (hpos : 0 < size) (hsize : size ≤ pageSize)
    (hr : s.arena.HasRoom (k + 1)) :
    ∃ x s', copyDataFromTaskToKernel task data size s = .ok ((x, data.take size), s') ∧
      s'.arena.HasRoom k ∧ s'.vfs.disks = s.vfs.disks ∧ s'.vfs.fdList = s.vfs.fdList ∧
      s'.taskList = s.taskList := by
  obtain ⟨base, b, hb, hne, hrb⟩ := kzallocOne_total (blocksOf_one hpos hsize) k s.arena hr
  have hstart : ∀ {β : Type} (f : ℕ → KernelM (KHeap whole) Fat16Files β),
      (onHeap (kzalloc size) >>= f) s = f base (s.setArena b) :=
    fun f ↦ bind_run_ok (onHeap_eq_ok.mpr ⟨b, hb, rfl⟩)
  have htask : ∀ {β : Type} (f : Task → KernelM (KHeap whole) Fat16Files β),
      (onTasks (taskAt task) >>= f) (s.setArena b) = f t (s.setArena b) :=
    fun f ↦ bind_run_ok (onTasks_taskAt_eq_ok.mpr ⟨h0, ht, rfl⟩)
  unfold copyDataFromTaskToKernel
  rw [if_neg (Nat.not_lt.mpr hsize), hstart, if_neg hne, htask]
  exact ⟨_, _, rfl, RoomyAllocator.room_kfree b.heap base k hrb, rfl, rfl, rfl⟩

variable {rule : PageRule} {hold : ℕ → Holding}

theorem execFilename_total {data : List UInt8} (h : InControl rule s hold)
    (hr : Ready v n (k + 1) s) (hlen : data.length ≤ fsMaxPathLength) :
    ∃ s', execFilename data [] s = .ok (data, s') ∧ Ready v n k s' ∧ Quiet s s' := by
  obtain ⟨x, t, hl, hcur⟩ := h.current_live
  have h0 : s.taskList.curTask ≠ 0 := hcur ▸ hl.task_ne
  have ht : s.taskList.tasks s.taskList.curTask = some t := hcur ▸ hl.at_task
  obtain ⟨c, s', hcopy, hroom, hdisks, hfd, hlist⟩ := copyDataFromTaskToKernel_total (k := k)
    (s := { s with currentPageDirectory := s.arena.mem.load32 s.kernelSpace }) fsMaxPathLength data
    h0 ht (by decide) (by decide) hr.room
  have hrun : execFilename data [] s = .ok (data, s') := by
    refine (bind_run_ok (m := currentTask) rfl).trans ?_
    refine (bind_run_ok (taskAccessStack_total h0 ht)).trans ?_
    refine (bind_run_ok hcopy).trans ?_
    rw [List.take_of_length_le hlen]
    show Except.ok (data ++ [], s') = _
    rw [List.append_nil]
  have hquiet := (h.execFilename_calm hrun).1.toQuiet
  exact ⟨s', hrun, hr.step hdisks hfd hquiet.grows (by rw [hlist]) (by rw [hlist])
    hquiet.placeAt hroom, hquiet⟩

theorem processGetFreeProcessId_congr (h : s'.processList = s.processList) :
    processGetFreeProcessId s' = processGetFreeProcessId s := by
  rw [processGetFreeProcessId, processGetFreeProcessId, h]

theorem exec_prepared {data : List UInt8} (h : InControl rule s hold) (hr : Ready v n (k + 1) s)
    (hlen : data.length ≤ fsMaxPathLength) (iframe : Reg) :
    ∃ s₁ s₂, enterKernel iframe s = .ok ((), s₁) ∧ execFilename data [] s₁ = .ok (data, s₂) ∧
      Ready v n k s₂ ∧ Idle s s₁ ∧ InControl rule s₁ hold ∧ Quiet s₁ s₂ := by
  obtain ⟨x, t, hl, hcur⟩ := h.current_live
  have h0 : s.taskList.curTask ≠ 0 := hcur ▸ hl.task_ne
  have ht : s.taskList.tasks s.taskList.curTask = some t := hcur ▸ hl.at_task
  obtain ⟨s₁, hs₁⟩ : ∃ s₁, { s with
      taskList := s.taskList.setTask s.taskList.curTask (some { t with registers := iframe })
      currentPageDirectory := s.arena.mem.load32 s.kernelSpace } = s₁ := ⟨_, rfl⟩
  have henter : enterKernel iframe s = .ok ((), s₁) := by
    refine (bind_run_ok (m := changeToKernelPageDirectory) rfl).trans ?_
    refine (bind_run_ok (m := currentTask) rfl).trans ?_
    refine (bind_run_ok (require_run (c := s.taskList.curTask ≠ 0) h0)).trans ?_
    exact onTasks_eq_ok.mpr ⟨_, (bind_run_ok (taskAt_eq_ok.mpr ⟨h0, ht, rfl⟩)).trans rfl, hs₁.symm⟩
  have hidle : Idle s s₁ := by
    obtain ⟨_, s₂, h₂, h₃⟩ := bind_eq_ok.mp henter
    exact (changeToKernelPageDirectory_idle _ _ _ h₂).trans (currentTaskSaveState_idle _ _ _ _ h₃)
  have hr₁ : Ready v n (k + 1) s₁ :=
    hr.step (by rw [hidle.vfs]) (by rw [hidle.vfs]) hidle.quiet.grows hidle.taskListHead
      (by rw [← hs₁]; rfl) hidle.placeAt (hidle.arena ▸ hr.room)
  obtain ⟨s₂, h₂, hr₂, hquiet⟩ := execFilename_total (h.idle hidle) hr₁ hlen
  exact ⟨s₁, s₂, henter, h₂, hr₂, hidle, h.idle hidle, hquiet⟩

theorem exec_starts {us : List (List UInt8)} {content : List UInt8} {f₀ : Fat16File} {cluster : ℕ}
    (h : InControl rule s hold) (hv : Stores v us content f₀ cluster) (hc : Image content)
    (hr : Ready v n (k + (6 * us.length + 1053) + 1) s) (hn : n < fsTotalFileDescriptors)
    (henv : env.Words) (hpid : processGetFreeProcessId s < processMaxProcesses) (iframe : Reg) :
    ∃ s', (Entry.syscall (.exec env (drivePath us) []) iframe).run s = .ok ((), s') ∧
      Ready v (n + 1) k s' ∧ RunsImage env content s' ∧ s.processes s'.currentProcess = none ∧
      ∃ x f, s'.processes s'.currentProcess = some x ∧ x.data = .elf f := by
  obtain ⟨s₁, s₂, henter, h₂, hr₂, hidle, hin, hquiet⟩ := exec_prepared h hr hv.path_le iframe
  obtain ⟨p, s₃, _, y, u, S, f, hnew, hcreated, hdata, himage, -, -, hr₃⟩ := processNew_stored hv hc
    hr₂ hn henv (by
      rwa [processGetFreeProcessId_congr hquiet.processList,
        processGetFreeProcessId_congr hidle.processList])
  have hp := (hcreated.block _ (y.self_mem p)).ne_zero
  obtain ⟨s₄, h₄, hr₄, hvfs, hprocesses, htasks, hcurrent⟩ := runProcess_total hr₃ hp
    (by rw [hcreated.processes, update_self]) (hcreated.block _ (y.task_mem p)).ne_zero
    hcreated.at_task
  refine ⟨s₄, ?_, hr₄, hcreated.runsImage hdata himage hvfs hprocesses htasks, ?_, y, f, ?_, hdata⟩
  · have hcommand : commandHandler (.exec env (drivePath us) []) s₁ = .ok (none, s₄) := by
      refine (bind_run_ok h₂).trans ?_
      refine (bind_run_ok hnew).trans ?_
      rw [if_neg hp]
      exact (bind_run_ok h₄).trans rfl
    obtain ⟨_, s₅, h₅, h₆⟩ := bind_eq_ok.mp henter
    refine (bind_run_ok h₅).trans ?_
    refine (bind_run_ok h₆).trans ?_
    exact (bind_run_ok hcommand).trans rfl
  · obtain ⟨k', hk'⟩ := hquiet.processes p
    have hnone := (hin.quiet hquiet).toKernelInv.created_none hcreated
    rw [hcurrent, ← hidle.processes]
    rw [hk'] at hnone
    exact Option.map_eq_none_iff.mp hnone
  · rw [hcurrent, hprocesses, hcreated.processes, update_self]

theorem exec_total {us : List (List UInt8)} {content : List UInt8} {f₀ : Fat16File} {cluster : ℕ}
    (h : InControl rule s hold) (hv : Stores v us content f₀ cluster) (hc : Image content)
    (hr : Ready v n (k + (6 * us.length + 1053) + 1) s) (hn : n < fsTotalFileDescriptors)
    (henv : env.Words) (hpid : processGetFreeProcessId s < processMaxProcesses) (iframe : Reg) :
    ∃ s', (Entry.syscall (.exec env (drivePath us) []) iframe).run s = .ok ((), s') ∧
      Ready v (n + 1) k s' ∧ RunsImage env content s' := by
  obtain ⟨s', hrun, hready, hruns, -⟩ := exec_starts h hv hc hr hn henv hpid iframe
  exact ⟨s', hrun, hready, hruns⟩

end GammaOS.Kernel
