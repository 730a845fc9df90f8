import GammaOS.Kernel.CreatedProcess
import GammaOS.Kernel.ElfBounds
import GammaOS.Kernel.ImageCalls
import GammaOS.Kernel.ProcessFiles

namespace GammaOS.Kernel

open Function Foundation Foundation.Program Memory Paging Fs Loader

variable {σ : Type} [Allocator σ] {env : ProcessEnv} {s s' : KernelState σ Fat16Files}
  {content : List UInt8} {data : ProcessData} {alien : ByteMemory} {p n k : ℕ}

/-- A task can be added to the list: it is empty, or its tail is in memory of its own. -/
def Addable (s : KernelState σ Fat16Files) : Prop :=
  s.taskList.taskListHead = 0 ∨
    (s.taskList.taskListTail ≠ 0 ∧ Block s.arena s.taskList.taskListTail taskSize ∧
      ∃ x, s.taskList.tasks s.taskList.taskListTail = some x)

theorem Addable.mono (h : Addable s) (hl : s'.taskList = s.taskList)
    (hg : Grows s.arena s'.arena) : Addable s' := by
  unfold Addable at h ⊢
  rw [hl]
  exact h.imp_right (fun ⟨h0, hb, hx⟩ ↦ ⟨h0, hb.keep (hg _ hb.live).live, hx⟩)

theorem Addable.add (h : Addable s) {task : ℕ} {x : Task} (ht : task ≠ 0)
    (hne : Block s.arena s.taskList.taskListTail taskSize → s.taskList.taskListTail ≠ task) :
    ∃ l, taskListAdd task (s.taskList.setTask task (some x)) = .ok ((), l) ∧
      l.taskListTail = task := by
  by_cases hhead : s.taskList.taskListHead = 0
  · exact ⟨_, taskListAdd_first hhead, rfl⟩
  · obtain ⟨h0, hb, y, hy⟩ := h.resolve_left hhead
    have hy' : (s.taskList.setTask task (some x)).tasks s.taskList.taskListTail = some y := by
      rw [TaskList.setTask_other (hne hb), hy]
    exact ⟨_, taskListAdd_behind hhead rfl h0 ht (hne hb).symm hy' (TaskList.setTask_self _ _ _),
      rfl⟩

section Room

variable [LawfulAllocator σ] {R : ℕ → Arena σ → Prop}

theorem newTask_room (hR : BlockRoom R) (h : Addable s) (hr : R (k + 1028) s.arena) :
    ∃ task s', newTask alien p data s = .ok (task, s') ∧ task ≠ 0 ∧
      s'.taskList.taskListTail = task ∧ R k s'.arena := by
  obtain ⟨task, a, ha, ht, hra⟩ := hR.grant (n := taskSize) (by decide) (k + 1027) _ hr
  obtain ⟨space, b, hb, -, hrb⟩ := createVirtualAddressSpace_room hR
    (pagePresent ||| pageUserAccess) k a hra
  obtain ⟨hBlock, hTaken⟩ := kzalloc_taken ha ht
  obtain ⟨l, hl, htail⟩ := h.add (x := freshTask alien b.mem space p data) ht
    (fun htb ↦ hTaken.ne List.mem_cons_self hBlock htb)
  exact ⟨task, _, newTask_made ha ht hb hl, ht, htail, hrb⟩

end Room

theorem fileLoaded_inside {whole : Bool} {env : LoadEnv} {filename : List UInt8} {fd : ℤ}
    {f : ElfFile} {s t : Vfs (KHeap whole) Fat16Files} (h : FileLoaded env filename s fd f t) :
    kernelHeapBase ≤ f.data ∧
      f.data + pageSize * blocksOf (u32 f.fileSize) ≤ kernelHeapBase + kernelHeapSize := by
  obtain ⟨-, -, -, -, -, h₄, hdata, -, -⟩ := h
  obtain ⟨d, hd, rfl⟩ := onDrive_eq_ok.mp h₄
  obtain ⟨a, ha, rfl⟩ := onArena_eq_ok.mp hd
  exact KHeap.kzalloc_inside ha hdata

/-- A kernel in which a file of the volume can be run: from `n` on its
descriptors are free, and the heap has room for `k` blocks. -/
structure Ready {σ : Type} [Allocator σ] [RoomyAllocator σ] (v : Fat16Volume) (n k : ℕ)
    (s : KernelState σ Fat16Files) : Prop where
  disk : s.vfs.disks 65 = some (fat16 v)
  mounted : Fat16Mounted s.vfs
  free : ∀ i, n ≤ i → s.vfs.fdList i = none
  addable : Addable s
  room : s.arena.HasRoom k

theorem Ready.mono {σ : Type} [Allocator σ] [RoomyAllocator σ] {s : KernelState σ Fat16Files}
    {v : Fat16Volume} {j : ℕ} (h : Ready v n k s) (hj : j ≤ k) : Ready v n j s :=
  ⟨h.disk, h.mounted, h.free, h.addable, h.room.mono hj⟩

section Heap

variable {whole : Bool} {s : KernelState (KHeap whole) Fat16Files}

theorem stack_end {stack : ℕ} {b : Arena (KHeap whole)}
    (h : Block b stack processMaxProcessStackSize) :
    stack + processMaxProcessStackSize ≤ 2 ^ 32 := by
  have hin := h.inside
  rwa [show pageSize * blocksOf (u32 processMaxProcessStackSize) = processMaxProcessStackSize by
    decide] at hin

theorem stackCall_end {stack : ℕ} (ha : stack % pageSize = 0)
    (hle : stack + processMaxProcessStackSize ≤ 2 ^ 32) :
    (stackCall stack).endaddr = stack + taskStackSize := by
  unfold processMaxProcessStackSize at hle
  rw [stackCall]
  dsimp only
  unfold taskStackSize
  rw [u32_of_lt (by omega), alignToPageUpper_eq (by unfold pageSize; omega)]
  unfold pageSize at *
  omega

theorem stackCall_accepted {stack : ℕ} (ha : stack % pageSize = 0)
    (hle : stack + processMaxProcessStackSize ≤ 2 ^ 32) : (stackCall stack).Accepted := by
  have hv : taskDefaultStackEnd % pageSize = 0 := by decide
  have he := stackCall_end ha hle
  refine ⟨hv, ha, ?_, ?_⟩
  · rw [he]
    unfold taskStackSize
    unfold pageSize at *
    omega
  · rw [he]
    exact Nat.le_add_right _ _

theorem stackCall_covers {stack v : ℕ} (ha : stack % pageSize = 0)
    (hle : stack + processMaxProcessStackSize ≤ 2 ^ 32) (hv : v < 2 ^ 32) :
    (stackCall stack).Covers v ↔ taskDefaultStackEnd ≤ v ∧ v < taskDefaultStackBegin := by
  have hend : taskDefaultStackEnd = 0x3FB000 := by decide
  rw [MapCall.Covers, stackCall_end ha hle,
    show (stackCall stack).vaddr = taskDefaultStackEnd from rfl,
    show (stackCall stack).paddr = stack from rfl, hend]
  unfold subU32 u32 taskStackSize taskDefaultStackBegin
  omega

theorem HoldsImage.mapAll_segment {m : ByteMemory} {elfFile : ElfFile} {mapped : ℕ → ByteMemory}
    {stack v : ℕ} {g : PageMap} (h : HoldsImage content m elfFile) (hc : Image content)
    (hone : (imageEhdr content).ePhnum = 1) (hseg : Segment elfFile (imagePhdr content 0))
    (hv : v < 2 ^ 32) (hva : v % pageSize = 0) (hin : InRange (imagePhdr content 0) v)
    (hout : ¬ (stackCall stack).Covers v) :
    g.mapAll (memoryCalls mapped m (.elf elfFile) stack) v =
      (u32 (elfFile.data + (imagePhdr content 0).pOffset) - (imagePhdr content 0).pVaddr % pageSize +
        (v - pagingAlignToPageLower (imagePhdr content 0).pVaddr)) |||
          (phdrCall elfFile (imagePhdr content 0)).flags := by
  obtain ⟨hacc, hcall⟩ := hseg.call h.aligned
  obtain ⟨hcov, hval⟩ := hcall v hv hva
  have hmem : ∀ c, c ∈ elfCalls mapped m elfFile → c = phdrCall elfFile (imagePhdr content 0) := by
    intro c hmem
    obtain ⟨n, hn, rfl⟩ := (h.mem_calls hc).mp hmem
    rw [hone, Nat.lt_one_iff] at hn
    rw [hn]
  refine mapAll_eq (Or.inr ⟨_, List.mem_append_left _ ((h.mem_calls hc).mpr ⟨0, ?_, rfl⟩), hacc,
    hcov.mpr hin⟩) (fun c hmem' _ hcov' ↦ ?_)
  · rw [hone]
    exact Nat.one_pos
  · rcases List.mem_append.mp hmem' with hm | hm
    · rw [hmem c hm]
      exact hval hin
    · cases List.mem_singleton.mp hm
      exact absurd hcov' hout

structure ImageMapped (env : ProcessEnv) (path content : List UInt8) (n k : ℕ)
    (s : KernelState (KHeap whole) Fat16Files) (p stack task : ℕ) (f : ElfFile) (t : Task)
    (u : Vfs (KHeap whole) Fat16Files) (s₂ : KernelState (KHeap whole) Fat16Files) : Prop where
  prepared : Prepared env path s p stack (success : ℤ) (some (.elf f)) { s with vfs := u }
  made : newTask env.entry p (.elf f) { s with vfs := u } = .ok (task, s₂)
  task_ne : task ≠ 0
  at_task : s₂.taskList.tasks task = some t
  mapped : 0 ≤ (mapResult env t (.elf f) stack s₂).1
  image : HoldsImage content u.drive.arena.mem f
  loads : LoadsFile env path s
  fdList : s₂.vfs.fdList = u.fdList
  fdList_ne : u.fdList ≠ s.vfs.fdList
  free : ∀ i, n + 1 ≤ i → u.fdList i = none
  tail : s₂.taskList.taskListTail = task
  loadRoom : u.drive.arena.HasRoom (k + 1028)
  room : s₂.arena.HasRoom k

section Stored

variable {v : Fat16Volume} {us : List (List UInt8)} {f₀ : Fat16File} {cluster : ℕ}

theorem image_mapped (hv : Stores v us content f₀ cluster) (hc : Image content)
    (h : Ready v n (k + (6 * us.length + 1053)) s) (hn : n < fsTotalFileDescriptors)
    (henv : env.Words) :
    ∃ p stack task f t u s₂, ImageMapped env (drivePath us) content n k s p stack task f t u s₂ := by
  have hlen := hc.ehdr
  unfold ehdrSize at hlen
  have hsum : k + (6 * us.length + 1053) = k + 1028 + (6 * us.length + 6) + 16 + 3 := by omega
  have hroom₀ : s.arena.HasRoom (k + 1028 + (6 * us.length + 6) + 16 + 3) := hsum ▸ h.room
  have hpath : (drivePath us).length < processNameRoom := by
    have hle := hv.path_le
    unfold Fs.fsMaxPathLength at hle
    rw [show processNameRoom = 12286 by decide]
    omega
  obtain ⟨p, a, ha, hp, hra⟩ := kzallocBlocks_total (n := processSize) (j := 3) (by decide)
    (by decide) _ _ hroom₀
  obtain ⟨stack, b, hb, hstack, hrb⟩ := kzallocBlocks_total (n := processMaxProcessStackSize)
    (j := 16) (by decide) (by decide) _ a hra
  obtain ⟨index, hle, hindex⟩ := freeIndex_of_free (h.free n (Nat.le_refl n)) hn
  obtain ⟨f, u, hload, hsize, hbytes, hru⟩ := hv.loaded env.elf (s := (s.setArena b).vfs)
    (by omega) hc.length_le h.disk hindex hrb
  have hslot₀ := fileLoaded_slot hload
  have hslot : SlotTaken s.vfs (index : ℤ) u := hslot₀
  obtain ⟨-, hdata, hfile⟩ := acceptedFile_buffer env.elf f u
  have himage : HoldsImage content u.drive.arena.mem (acceptedFile env.elf f u) := by
    obtain ⟨hbase, hin⟩ := fileLoaded_inside hload
    have hpos := blocksOf_pos (fileLoaded_buffer hload).2.1
    refine ⟨hdata ▸ (fileLoaded_buffer hload).1, hdata ▸ hbase, ?_, hfile.trans hsize, hdata ▸ hbytes⟩
    rw [hdata]
    unfold pageSize at hin ⊢
    omega
  have hprep : Prepared env (drivePath us) s p stack (success : ℤ)
      (some (.elf (acceptedFile env.elf f u))) { s with vfs := u } :=
    .mk ha hp hpath hb hstack (processLoadData_loaded hload)
  have hf := hprep.frame h.mounted henv
  have hs : (0 : ℤ) ≤ (success : ℤ) := Int.natCast_nonneg success
  obtain ⟨d, hd, hblocks, -⟩ := hf.loaded hs
  cases hd
  have haddable : Addable { s with vfs := u } := h.addable.mono rfl hf.grows
  obtain ⟨task, s₂, hnew, ht, htail, hroom⟩ := @newTask_room _ _ _
    (.elf (acceptedFile env.elf f u)) env.entry p k _ _ hasRoom_blocks haddable hru
  have hres := newTask_result hnew
  obtain ⟨t, S, hT⟩ := hres.frame ht
  have hframe : MapFrame env u.drive.arena.mem (.elf (acceptedFile env.elf f u)) stack t S s₂ :=
    hT.map hf.stackBlock.lt hblocks
  have hmap := hframe.mapped (by
    intro c hmem
    rcases List.mem_append.mp hmem with hmem | hmem
    · exact himage.accepted hc c hmem
    · cases List.mem_singleton.mp hmem
      exact stackCall_accepted hf.stackBlock.aligned (stack_end hf.stackBlock))
  obtain ⟨i, e, hi, -, -, -, hnew'⟩ := id hslot
  refine ⟨p, stack, task, _, t, u, s₂, hprep, hnew, ht, hT.at_task, hmap, himage,
    ⟨p, stack, a, b, ha, hp, hb, hstack, index, f, u, hload⟩, hres.fdList, hslot.ne, fun j hj ↦ ?_,
    htail, hru, hroom⟩
  rw [hnew', update_of_ne (by omega)]
  exact h.free j (by omega)

theorem prepared_image {data : ProcessData} {stack : ℕ} {status : ℤ}
    {s₁ : KernelState (KHeap whole) Fat16Files} (hv : Stores v us content f₀ cluster)
    (hc : Image content) (h : Ready v n (6 * us.length + 1053) s) (hn : n < fsTotalFileDescriptors)
    (henv : env.Words) (hprep : Prepared env (drivePath us) s p stack status (some data) s₁) :
    ∃ f, data = .elf f ∧ HoldsImage content s₁.arena.mem f ∧ s₁.arena.HasRoom 1028 := by
  obtain ⟨_, _, _, f, _, _, _, hi⟩ := image_mapped (k := 0) hv hc
    (h.mono (Nat.le_of_eq (Nat.zero_add _))) hn henv
  obtain ⟨hdata, rfl⟩ := hprep.unique hi.prepared
  exact ⟨f, Option.some.inj hdata, hi.image, hi.loadRoom⟩

theorem processNew_stored (hv : Stores v us content f₀ cluster) (hc : Image content)
    (h : Ready v n (k + (6 * us.length + 1053)) s) (hn : n < fsTotalFileDescriptors)
    (henv : env.Words) (hpid : processGetFreeProcessId s < processMaxProcesses) :
    ∃ p s' s₁ x t S f, processNew env (drivePath us) s = .ok (p, s') ∧
      Created env (drivePath us) s s₁ s' p x t S ∧ x.data = .elf f ∧
      HoldsImage content s₁.arena.mem f ∧ LoadsFile env (drivePath us) s ∧
      s'.vfs.fdList ≠ s.vfs.fdList ∧ Ready v (n + 1) k s' := by
  obtain ⟨p, stack, task, f, t, u, s₂, hi⟩ := image_mapped hv hc h hn henv
  have hs : (0 : ℤ) ≤ (success : ℤ) := Int.natCast_nonneg success
  obtain ⟨S, hcreated⟩ := hi.prepared.created h.mounted henv hs (newTask_result hi.made) hi.task_ne
    hi.at_task hi.mapped hpid
  have hrun := processNew_mapped hi.prepared hs hi.made hi.task_ne hi.at_task hi.mapped
  rw [if_pos hpid] at hrun
  obtain ⟨s', hs'⟩ : ∃ s', (s₂.setMem (mapResult env t (.elf f) stack s₂).2).register p
      (newProcess (processGetFreeProcessId s) (drivePath us) task (.elf f) stack) = s' := ⟨_, rfl⟩
  have hfds : s'.vfs.fdList = u.fdList := by
    rw [← hs']
    exact hi.fdList
  have hlast : s'.taskList.taskListTail = task := by
    rw [← hs']
    exact hi.tail
  have hroom' : s'.arena.HasRoom k := by
    rw [Arena.HasRoom, ← hs']
    exact hi.room
  rw [hs'] at hrun hcreated
  refine ⟨p, s', _, _, t, S, f, hrun, hcreated, rfl, hi.image, hi.loads,
    fun he ↦ hi.fdList_ne (hfds.symm.trans he), (congrFun hcreated.disks 65).trans h.disk,
    fun drive fs hfs ↦ h.mounted drive fs ((congrFun hcreated.disks drive).symm.trans hfs),
    fun j hj ↦ (congrFun hfds j).trans (hi.free j hj),
    Or.inr ⟨hlast ▸ hi.task_ne, ?_, t, hlast.symm ▸ hcreated.at_task⟩, hroom'⟩
  rw [hlast]
  exact hcreated.block (task, taskSize) (by simp [Process.blocks, newProcess])

/-- With no free entry in the process list a program image makes `process_new`
write outside the list. -/
theorem processNew_stored_full (hv : Stores v us content f₀ cluster) (hc : Image content)
    (h : Ready v n (k + (6 * us.length + 1053)) s) (hn : n < fsTotalFileDescriptors)
    (henv : env.Words) (hpid : ¬ processGetFreeProcessId s < processMaxProcesses) :
    processNew env (drivePath us) s = .error Fault.outOfBounds := by
  obtain ⟨p, stack, task, f, t, u, s₂, hi⟩ := image_mapped hv hc h hn henv
  rw [processNew_mapped hi.prepared (Int.natCast_nonneg success) hi.made hi.task_ne hi.at_task
    hi.mapped, if_neg hpid]

end Stored

theorem Image.stores (hc : Image content) :
    Stores (fileVolume content) [[70]] content (fileEntry content.length) 2 := by
  have hlen := hc.ehdr
  unfold ehdrSize at hlen
  exact fileVolume_stores (by omega) hc.length_le

theorem processNew_image (hc : Image content) (h : Ready (fileVolume content) n (k + 1059) s)
    (hn : n < fsTotalFileDescriptors) (henv : env.Words)
    (hpid : processGetFreeProcessId s < processMaxProcesses) :
    ∃ p s' s₁ x t S f, processNew env filePath s = .ok (p, s') ∧
      Created env filePath s s₁ s' p x t S ∧ x.data = .elf f ∧
      HoldsImage content s₁.arena.mem f ∧ LoadsFile env filePath s ∧
      s'.vfs.fdList ≠ s.vfs.fdList ∧ Ready (fileVolume content) (n + 1) k s' :=
  processNew_stored hc.stores hc h hn henv hpid

theorem processNew_image_full (hc : Image content) (h : Ready (fileVolume content) n (k + 1059) s)
    (hn : n < fsTotalFileDescriptors) (henv : env.Words)
    (hpid : ¬ processGetFreeProcessId s < processMaxProcesses) :
    processNew env filePath s = .error Fault.outOfBounds :=
  processNew_stored_full hc.stores hc h hn henv hpid

end Heap

def freshKernel (whole : Bool) (content : List UInt8) : KernelState (KHeap whole) Fat16Files where
  vfs := {
    drive := ⟨⟨KHeap.init (fun _ ↦ 0), fun _ ↦ 0⟩, fun _ ↦ none⟩
    fdList := fun _ ↦ none
    disks := fun drive ↦ if drive = 65 then some (fat16 (fileVolume content)) else none }
  taskList := .empty
  processes _ := none
  processList _ := 0
  currentProcess := 0
  kernelSpace := 0
  currentPageDirectory := 0

theorem freshKernel_ready (whole : Bool) (content : List UInt8) :
    Ready (fileVolume content) 0 kheapEntryCount (freshKernel whole content) where
  disk := rfl
  mounted drive fs h := by
    by_cases hd : drive = 65
    · exact ⟨_, (Option.some.inj ((if_pos hd).symm.trans h)).symm⟩
    · cases (if_neg hd).symm.trans h
  free _ _ := rfl
  addable := Or.inl rfl
  room := KHeap.init_room _

theorem freshKernel_pid (whole : Bool) (content : List UInt8) :
    processGetFreeProcessId (freshKernel whole content) < processMaxProcesses :=
  Nat.zero_lt_succ 15

theorem Ready.room_zero {whole : Bool} {s : KernelState (KHeap whole) Fat16Files} {v : Fat16Volume}
    (h : Ready v n kheapEntryCount s) : Ready v n (0 + 1059) s :=
  h.mono (by decide)

theorem quietEnv_words : quietEnv.Words := ⟨by decide, by decide⟩

theorem sampleImage_image : Image sampleImage := by decide +kernel

/-- A `process_new` that returns, with a process or without, leaves the
descriptor table as it was exactly when it does not get as far as a loaded file. -/
theorem processNew_fdList_iff {filename : List UInt8} {δ : Type} {s s' : KernelState σ δ}
    (h : processNew env filename s = .ok (p, s')) :
    s'.vfs.fdList = s.vfs.fdList ↔ ¬ LoadsFile env filename s := by
  cases processNew_result h with
  | noStruct ha =>
    refine iff_of_true rfl (fun ⟨process, stack, a, b, ha', hp, _⟩ ↦ ?_)
    cases ha.symm.trans ha'
    exact hp rfl
  | noStack ha hp hname hb =>
    refine iff_of_true rfl (fun ⟨process, stack, a, b, ha', _, hb', hst, _⟩ ↦ ?_)
    cases ha.symm.trans ha'
    cases hb.symm.trans hb'
    exact hst rfl
  | notLoaded hprep _ => exact hprep.fdList_iff
  | noTask hprep _ hnew =>
    rw [setArena_fdList, hnew.fdList]
    exact hprep.fdList_iff
  | unmapped hprep _ hnew _ _ _ hclose =>
    have hfd : _ = _ := (closeTask_fdList hclose).trans hnew.fdList
    rw [setArena_fdList, hfd]
    exact hprep.fdList_iff
  | created hprep _ hnew =>
    have hfd := hnew.fdList
    refine Iff.trans (Eq.congr hfd rfl) hprep.fdList_iff

theorem processNew_fdList_iff_sample : ∃ (s s' : KernelState (KHeap false) Fat16Files) (p : ℕ),
    processNew quietEnv filePath s = .ok (p, s') ∧
      (s'.vfs.fdList = s.vfs.fdList ↔ ¬ LoadsFile quietEnv filePath s) := by
  obtain ⟨p, s', -, -, -, -, -, h, -⟩ := processNew_image sampleImage_image
    (freshKernel_ready false sampleImage).room_zero (by decide) quietEnv_words (freshKernel_pid _ _)
  exact ⟨_, s', p, h, processNew_fdList_iff h⟩

theorem sample_leaves_descriptor : ∃ (s s' : KernelState (KHeap false) Fat16Files) (p : ℕ),
    processNew quietEnv filePath s = .ok (p, s') ∧ p ≠ 0 ∧ s'.vfs.fdList ≠ s.vfs.fdList := by
  obtain ⟨p, s', _, _, _, _, _, h, hc, -, -, -, hne, -⟩ := processNew_image sampleImage_image
    (freshKernel_ready false sampleImage).room_zero (by decide) quietEnv_words (freshKernel_pid _ _)
  exact ⟨_, s', p, h, (hc.block _ List.mem_cons_self).ne_zero, hne⟩

end GammaOS.Kernel
