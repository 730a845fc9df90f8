import GammaOS.Kernel.ElfTails
import GammaOS.Kernel.Served

namespace GammaOS.Kernel

open Function Foundation Foundation.Program Memory Paging Fs Loader

def esp0 : ℕ := 0x600000

/-- A page of the kernel image and its boot stack, of the interrupt stack, or of
the kernel heap. -/
def KernelPage (v : ℕ) : Prop :=
  v % pageSize = 0 ∧ ((0x100000 ≤ v ∧ v < 0x200000) ∨ v = esp0 - pageSize ∨
    (kernelHeapBase ≤ v ∧ v < kernelHeapBase + kernelHeapSize))

def KeepsPage (v entry : ℕ) : Prop := frameOf entry v = v ∧ entry &&& pagePresent ≠ 0

def TranslatesToItself (m : ByteMemory) (vspace v : ℕ) : Prop :=
  ∃ entry, pagingVirtToPhy m vspace v = some entry ∧ KeepsPage v entry

def kernelPageRule : PageRule where
  Ok _ v entry := KernelPage v → KeepsPage v entry
  mono _ h := h

variable {whole : Bool} {s s' : KernelState (KHeap whole) Fat16Files} {disk : Disk}
  {env : ProcessEnv} {entries : ℕ → UInt8} {m : ByteMemory} {filename : List UInt8}
  {c : MapCall} {v flags base size addr : ℕ}
  {cond : KernelState (KHeap false) Fat16Files → Entry → Prop}

theorem KernelPage.lt (h : KernelPage v) : v + pageSize ≤ 2 ^ 32 := by
  have hr := h.2
  unfold kernelHeapBase kernelHeapSize esp0 at hr
  unfold pageSize at *
  omega

theorem keepsPage_or (h : KernelPage v) (hfl : flags < pageSize) (hp : flags &&& pagePresent ≠ 0) :
    KeepsPage v (v ||| flags) := by
  refine ⟨?_, ?_⟩
  · rw [frameOf, mask_entry h.1 h.lt hfl, h.1]
    rfl
  · rwa [flag_of_page h.1 (by decide)]

theorem MapCall.identity (hc : c.vaddr = c.paddr) (hend : c.endaddr ≤ 2 ^ 32) (hcov : c.Covers v)
    (hv : v < 2 ^ 32) : c.paddr + subU32 v c.vaddr = v := by
  unfold MapCall.Covers at hcov
  rw [hc] at hcov ⊢
  unfold subU32 u32 at *
  omega

theorem userFlags_keep : (pagePresent ||| pageWriteAccess ||| pageUserAccess) < pageSize ∧
    (pagePresent ||| pageWriteAccess ||| pageUserAccess) &&& pagePresent ≠ 0 := by decide

theorem mallocAllowed_kernel (s : KernelState (KHeap whole) Fat16Files) (size : ℕ) :
    MallocAllowed kernelPageRule s size := by
  intro x base b _ _ hb bs _ v hv hva hacc hcov hpage
  have heq : (mallocCall base size).vaddr = (mallocCall base size).paddr :=
    (alignToPageLower_of_aligned hacc.vaddr_aligned).symm
  have hid := MapCall.identity heq (Nat.le_of_lt (alignToPageUpper_lt (u32_lt _))) hcov hv
  rw [MapCall.valueAt, hid]
  exact keepsPage_or hpage userFlags_keep.1 userFlags_keep.2

theorem freeAllowed_kernel (s : KernelState (KHeap whole) Fat16Files) (addr : ℕ) :
    FreeAllowed kernelPageRule s addr := by
  intro x i _ _ _
  refine ⟨fun bs v hv hva hacc hcov hpage ↦ ?_, fun _ _ _ _ _ h ↦ h⟩
  have hid := MapCall.identity rfl (Nat.le_of_lt (u32_lt _)) hcov hv
  rw [MapCall.valueAt, hid]
  exact keepsPage_or hpage userFlags_keep.1 userFlags_keep.2

def ClearOfKernel (env : ProcessEnv) (filename : List UInt8)
    (s : KernelState (KHeap whole) Fat16Files) : Prop :=
  ∀ p stack status data s₁, Prepared env filename s p stack status (some data) s₁ →
    ∀ c ∈ data.calls env.mapped s₁.arena.mem, ∀ v, KernelPage v → c.Covers v →
      c.paddr + subU32 v c.vaddr = v

theorem ProcessData.calls_flags {alien : ℕ → ByteMemory} (data : ProcessData) :
    ∀ c ∈ data.calls alien m, c.flags < pageSize ∧ c.flags &&& pagePresent ≠ 0 := by
  cases data with
  | bin rawData size =>
    intro c hc
    cases List.mem_singleton.mp hc
    exact userFlags_keep
  | elf elfData =>
    intro c hc
    obtain ⟨j, rfl⟩ := phdrCalls_eq _ _ c hc
    obtain ⟨hfl, hp, -⟩ := @phdrCall_flags elfData (elfGetPhdr (elfData.view (alien j) m) elfData j)
    exact ⟨hfl, hp⟩

theorem ClearOfKernel.allowed (h : ClearOfKernel env filename s) :
    NewAllowed kernelPageRule env filename s := by
  intro s₁ s' p x t S hc v hv hva hpage
  obtain ⟨status, -, hprep⟩ := hc.prepared
  refine mapAll_induct (keepsPage_or hpage (by decide) (by decide)) (fun c hmem _ hcov ↦ ?_)
  rcases List.mem_append.mp hmem with hmem | hmem
  · obtain ⟨hfl, hp⟩ := x.data.calls_flags c hmem
    rw [MapCall.valueAt, h p x.stack status x.data s₁ hprep c hmem v hpage hcov]
    exact keepsPage_or hpage hfl hp
  · cases List.mem_singleton.mp hmem
    have hstack := hc.block (x.stack, processMaxProcessStackSize)
      (List.mem_cons_of_mem _ List.mem_cons_self)
    obtain ⟨h₁, h₂⟩ := (stackCall_covers hstack.aligned (stack_end hstack) hv).mp hcov
    have hr := hpage.2
    unfold kernelHeapBase esp0 at hr
    unfold taskDefaultStackEnd taskStackSize taskDefaultStackBegin pageSize at *
    omega

/-- The command loads no file that would move a kernel page, and an EXEC is served. -/
def KeepsKernel (s : KernelState (KHeap whole) Fat16Files) (e : Entry) : Prop :=
  e.Meets (Command.Serves ClearOfKernel) s

theorem KeepsKernel.allowed {e : Entry} (h : KeepsKernel s e) : e.Allowed kernelPageRule s := by
  cases e with
  | keyboard _ _ => trivial
  | syscall command iframe =>
    intro s₁ h₁
    have hs := h s₁ h₁
    cases command with
    | malloc size => exact mallocAllowed_kernel s₁ size
    | free base => exact freeAllowed_kernel s₁ base
    | exec env data rest => exact fun filename s₂ h₂ ↦ (hs.2 filename s₂ h₂).2.allowed
    | _ => trivial

/-- In every run that loads no file with a segment over a kernel page, and in
which each EXEC is served, every task translates the kernel pages to themselves. -/
theorem kernelPages_identity
    (hboot : Boots ClearOfKernel disk env (bootState whole entries m))
    (h : SystemRun KeepsKernel disk env (bootState whole entries m) s) :
    ∀ p x t, s.processes p = some x → s.taskList.tasks x.task = some t →
      ∀ v, KernelPage v → TranslatesToItself s.arena.mem t.taskSpace v := by
  obtain ⟨hold, hin, -⟩ := h.inControl bootState_setUp
    (fun s hs ↦ (hboot.shell s hs).allowed) (fun _ _ _ hc ↦ hc.allowed)
  intro p x t hx ht v hv
  obtain ⟨u, hu⟩ := hin.live p x hx
  cases ht.symm.trans hu.at_task
  have hlt : v < 2 ^ 32 := by
    have hle := hv.lt
    unfold pageSize at hle
    omega
  refine ⟨_, ?_, hin.pages p x hx v hlt hv.1 hv⟩
  rw [← hu.space, hu.holds.virtToPhy_eq hlt hv.1]

theorem clear_of_image {volume : Fat16Volume} {us : List (List UInt8)} {content : List UInt8}
    {f₀ : Fat16File} {cluster n : ℕ} {phdr : Elf32Phdr} (hv : Stores volume us content f₀ cluster)
    (hc : Image content) (h : Ready volume n (6 * us.length + 1053) s)
    (hn : n < fsTotalFileDescriptors) (henv : env.Words)
    (hone : (imageEhdr content).ePhnum = 1) (hphdr : imagePhdr content 0 = phdr)
    (hseg : ∀ f : ElfFile, f.data + pageSize ≤ kernelHeapBase + kernelHeapSize → Segment f phdr)
    (haside : ∀ v, KernelPage v → ¬ InRange phdr v) : ClearOfKernel env (drivePath us) s := by
  intro p stack status data s₁ hprep c hmem v hpage hcov
  obtain ⟨f, rfl, himage, -⟩ := prepared_image hv hc h hn henv hprep
  obtain ⟨j, hj, rfl⟩ := (himage.mem_calls hc).mp hmem
  rw [hone, Nat.lt_one_iff] at hj
  rw [hj, hphdr] at hcov
  have hle := hpage.lt
  unfold pageSize at hle
  obtain ⟨-, hcall⟩ := (hseg f himage.data_le).call himage.aligned
  exact absurd ((hcall v (by omega) hpage.1).1.mp hcov) (haside v hpage)

theorem sample_aside : ∀ v, KernelPage v → ¬ InRange samplePhdr v := by
  intro v hv hin
  obtain ⟨h₁, h₂⟩ := hin
  have hlow : pagingAlignToPageLower samplePhdr.pVaddr = 0x400000 := by decide
  have hend : roundUp (samplePhdr.pVaddr + samplePhdr.pMemsz) = 0x401000 := by decide
  have hr := hv.2
  unfold kernelHeapBase esp0 pageSize at hr
  omega

theorem sampleShell_boots
    {P : ProcessEnv → List UInt8 → KernelState (KHeap false) Fat16Files → Prop}
    (hP : ∀ s files, Ready (shellVolume sampleImage sampleImage files) 0 1071 s →
      P quietEnv gshellPath s) :
    Boots P (shellDisk sampleImage sampleImage) quietEnv
      (bootState false (fun _ ↦ 0) (fun _ ↦ 0)) ∧
    ∃ s, SystemRun cond (shellDisk sampleImage sampleImage) quietEnv
      (bootState false (fun _ ↦ 0) (fun _ ↦ 0)) s ∧ RunsImage quietEnv sampleImage s := by
  have hroom : (bootState false (fun _ ↦ 0) (fun _ ↦ 0)).arena.HasRoom (0 + 2131) :=
    RoomyAllocator.room_mono _ _ _ (by decide) (KHeap.init_room _)
  obtain ⟨s, _, hstart, -, hruns, -⟩ := kernelStart_total sampleImage
    bootState_setUp (fun _ ↦ rfl) hroom quietEnv_words sampleImage_image (by decide)
  obtain ⟨s₁, files, hsetup, hready, hset⟩ := kernelSetup_total (k := 1071) sampleImage
    sampleImage bootState_setUp (fun _ ↦ rfl) hroom
  have hserved : Served quietEnv gshellPath s₁ :=
    served_image (gshell_stores (by decide)) sampleImage_image hready (by decide) quietEnv_words
      (by simp [hset.freeProcessId, processMaxProcesses])
  refine ⟨⟨.of_ok hsetup, fun s₂ h₂ ↦ ?_, fun s₂ h₂ ↦ ?_⟩, s, .boot quietEnv_words hstart, hruns⟩
  · cases hsetup.symm.trans h₂
    exact hserved
  · cases hsetup.symm.trans h₂
    exact hP s₁ files hready

theorem sample_clear {s : KernelState (KHeap whole) Fat16Files} {files : ℕ}
    (h : Ready (shellVolume sampleImage sampleImage files) 0 1071 s) :
    ClearOfKernel quietEnv gshellPath s :=
  clear_of_image (gshell_stores (by decide)) sampleImage_image h (by decide) quietEnv_words
    sample_ehdr sample_phdr (fun _ hle ↦ sample_segment hle) sample_aside

theorem kernelPages_identity_shell : ∃ (s : KernelState (KHeap false) Fat16Files) (p : ℕ)
    (x : Process) (t : Task), s.processes p = some x ∧ s.taskList.tasks x.task = some t ∧
      ∀ v, KernelPage v → TranslatesToItself s.arena.mem t.taskSpace v := by
  obtain ⟨hboot, s, hrun, p, x, t, _, _, _, _, _, hx, -, ht, -⟩ :=
    @sampleShell_boots KeepsKernel ClearOfKernel (fun _ _ ↦ sample_clear)
  exact ⟨s, p, x, t, hx, ht, kernelPages_identity hboot hrun p x t hx ht⟩

def kernelImage : List UInt8 :=
  [0x7F, 0x45, 0x4C, 0x46, 1, 1, 0, 0, 0, 0, 0, 0, 0, 0, 0, 0] ++
  [2, 0, 3, 0, 1, 0, 0, 0] ++ [84, 0, 0x40, 0] ++ [52, 0, 0, 0] ++ [92, 0, 0, 0] ++
  [0, 0, 0, 0, 52, 0, 32, 0, 1, 0, 40, 0, 0, 0, 0, 0] ++
  [1, 0, 0, 0] ++ [84, 0, 0, 0] ++ [84, 0, 0x10, 0] ++ [84, 0, 0x10, 0] ++
  [4, 0, 0, 0] ++ [8, 0, 0, 0] ++ [5, 0, 0, 0] ++ [0, 16, 0, 0] ++
  [1, 2, 3, 4] ++ [9, 9, 9, 9]

theorem kernelImage_image : Image kernelImage := by decide +kernel

theorem kernelImage_ehdr : (imageEhdr kernelImage).ePhnum = 1 := by decide +kernel

def kernelPhdr : Elf32Phdr := ⟨1, 84, 0x100054, 4, 8, 5⟩

theorem kernelImage_phdr : imagePhdr kernelImage 0 = kernelPhdr := by decide +kernel

/-- The image is run, and its process sees the page of its file in the place of
the first page of the kernel. -/
theorem kernelImage_moves : ∃ (s s' : KernelState (KHeap false) Fat16Files),
    SystemRun (fun _ _ ↦ True) (shellDisk sampleImage kernelImage) quietEnv
      (bootState false (fun _ ↦ 0) (fun _ ↦ 0)) s ∧
    (Entry.syscall (.exec quietEnv filePath []) zeroRegisters).run s = .ok ((), s') ∧
    ∃ p x t, s'.processes p = some x ∧ s'.taskList.tasks x.task = some t ∧
      KernelPage 0x100000 ∧ ¬ TranslatesToItself s'.arena.mem t.taskSpace 0x100000 := by
  obtain ⟨s, s', hboot, hexec, -, hruns⟩ := @exec_run false (fun _ _ ↦ True) _ _ sampleImage_image
    (by decide) kernelImage_image (by decide) (fun _ ↦ trivial)
  obtain ⟨p, x, t, f, _, _, hx, -, ht, -, hal, hbase, hle, -, hentry⟩ := hruns.segment (v := 0x100000)
    kernelImage_image kernelImage_ehdr kernelImage_phdr (fun f hbase hle ↦ by
      unfold kernelHeapBase kernelHeapSize pageSize at hle
      refine ⟨by decide, by decide, by decide, ?_⟩
      unfold roundUp kernelPhdr
      dsimp only
      rw [u32_of_lt (by omega)]
      unfold pageSize
      omega) (by decide) (by decide) ⟨by decide, by decide⟩ (by decide)
  refine ⟨s, s', hboot, hexec, p, x, t, hx, ht, ⟨by decide, Or.inl (by decide)⟩, ?_⟩
  rintro ⟨entry, he, hframe, -⟩
  have hphys : u32 (f.data + kernelPhdr.pOffset) - kernelPhdr.pVaddr % pageSize +
      (0x100000 - pagingAlignToPageLower kernelPhdr.pVaddr) = f.data := by
    have hv : kernelPhdr.pVaddr % pageSize = 84 := by decide
    have hl : 0x100000 - pagingAlignToPageLower kernelPhdr.pVaddr = 0 := by decide
    have ho : kernelPhdr.pOffset = 84 := rfl
    unfold kernelHeapBase kernelHeapSize pageSize at hle
    rw [hv, hl, ho, u32_of_lt (by omega)]
    omega
  cases hentry.symm.trans he
  unfold kernelHeapBase at hbase hle
  unfold kernelHeapSize at hle
  rw [hphys, frameOf, mask_entry hal (by omega) phdrCall_flags.1] at hframe
  have hmod : 0x100000 % pageSize = 0 := by decide
  omega

end GammaOS.Kernel
