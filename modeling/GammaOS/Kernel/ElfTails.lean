import GammaOS.Kernel.FileProcess

namespace GammaOS.Kernel

open Function Foundation Foundation.Program Memory Paging Fs Loader

def frameOf (entry va : ℕ) : ℕ := (entry &&& 0xfffff000) + va % pageSize

def physicalOf (m : ByteMemory) (vspace va : ℕ) : Option ℕ :=
  (pagingVirtToPhy m vspace (pagingAlignToPageLower va)).map (fun entry ↦ frameOf entry va)

def InStack (stack pa : ℕ) : Prop := stack ≤ pa ∧ pa < stack + processMaxProcessStackSize

def InBuffer (elfFile : ElfFile) (pa : ℕ) : Prop :=
  elfFile.data ≤ pa ∧ pa < elfFile.data + pageSize * blocksOf (u32 elfFile.fileSize)

/-- An address of a segment to be loaded that the file holds no byte for. -/
def TailAddress (alien : ℕ → ByteMemory) (m : ByteMemory) (elfFile : ElfFile) (va : ℕ) : Prop :=
  ∃ n < (elfGetEhdr (elfFile.view (alien n) m) elfFile).ePhnum,
    (elfGetPhdr (elfFile.view (alien n) m) elfFile n).pType = ptLoad ∧
    ∃ i, (elfGetPhdr (elfFile.view (alien n) m) elfFile n).pFilesz ≤ i ∧
      i < (elfGetPhdr (elfFile.view (alien n) m) elfFile n).pMemsz ∧
      va = u32 ((elfGetPhdr (elfFile.view (alien n) m) elfFile n).pVaddr + i)

/-- The process at `p` sees zeros in the tails of its segments, in its stack or
in the blocks of its file. -/
def TailsZero {σ δ : Type} (env : ProcessEnv) (s : KernelState σ δ) (p : ℕ) : Prop :=
  ∃ x t elfFile, s.processes p = some x ∧ s.taskList.tasks x.task = some t ∧
    x.data = .elf elfFile ∧ ∀ va, TailAddress env.mapped s.arena.mem elfFile va →
      ∃ pa, physicalOf s.arena.mem t.taskSpace va = some pa ∧ s.arena.mem pa = 0 ∧
        (InStack x.stack pa ∨ InBuffer elfFile pa)

/-- The calls for the file and the stack map the tails of the segments into the
stack, or to bytes of the buffer that the load has left zero. -/
def TailsClear (env : ProcessEnv) (m : ByteMemory) (elfFile : ElfFile) (stack : ℕ) : Prop :=
  ∀ va, TailAddress env.mapped m elfFile va → ∀ pa, pa = frameOf (PageMap.mapAll taskMap
      (memoryCalls env.mapped m (.elf elfFile) stack) (pagingAlignToPageLower va)) va →
    InStack stack pa ∨ (InBuffer elfFile pa ∧ m pa = 0)

variable {σ : Type} [Allocator σ] {env : ProcessEnv} {filename : List UInt8}
  {s s' s₁ : KernelState σ Fat16Files} {elfFile : ElfFile} {p stack : ℕ} {m m' : ByteMemory}
  {x : Process} {t : Task} {S : Space}

theorem TailAddress.congr (alien : ℕ → ByteMemory)
    (h : ∀ a, elfFile.data ≤ a → a < elfFile.data + elfFile.fileSize → m' a = m a) (va : ℕ) :
    TailAddress alien m' elfFile va ↔ TailAddress alien m elfFile va := by
  have hview : ∀ k, elfFile.view (alien k) m' = elfFile.view (alien k) m :=
    fun k ↦ view_eq h (alien k)
  unfold TailAddress
  simp only [hview]

theorem Created.buffer (h : Created env filename s s₁ s' p x t S) (hx : x.data = .elf elfFile)
    {pa : ℕ} (hpa : InBuffer elfFile pa) : s'.arena.mem pa = s₁.arena.mem pa := by
  have hmem : (elfFile.data, elfFile.fileSize) ∈ x.data.blocks := hx ▸ List.mem_cons_self
  have hb := h.block (elfFile.data, elfFile.fileSize)
    (List.mem_cons_of_mem _ (List.mem_cons_of_mem _ (List.mem_cons_of_mem _ hmem)))
  have hrun : blockRun elfFile.data elfFile.fileSize ∈ x.data.runs :=
    List.mem_map_of_mem (f := fun b : ℕ × ℕ ↦ blockRun b.1 b.2) hmem
  exact (h.loaded _ hrun).bytes pa (hb.byte_mem hpa.1 hpa.2)

theorem Created.fileSize_lt (h : Created env filename s s₁ s' p x t S)
    (hx : x.data = .elf elfFile) : elfFile.fileSize < 2 ^ 32 :=
  h.sizes (elfFile.data, elfFile.fileSize) (hx ▸ List.mem_cons_self)

theorem inBuffer_of_lt (hsize : elfFile.fileSize < 2 ^ 32) {a : ℕ} (h₁ : elfFile.data ≤ a)
    (h₂ : a < elfFile.data + elfFile.fileSize) : InBuffer elfFile a := by
  have hle := lt_blocksOf (u32 elfFile.fileSize)
  rw [u32_of_lt hsize] at hle
  refine ⟨h₁, ?_⟩
  rw [u32_of_lt hsize]
  omega

theorem Created.physicalOf (h : Created env filename s s₁ s' p x t S) {va : ℕ} (hva : va < 2 ^ 32) :
    physicalOf s'.arena.mem t.taskSpace va = some (frameOf (PageMap.mapAll taskMap
      (memoryCalls env.mapped s₁.arena.mem x.data x.stack) (pagingAlignToPageLower va)) va) := by
  have hal := alignToPageLower_aligned va
  have hlt := Nat.lt_of_le_of_lt (alignToPageLower_le va) hva
  rw [Kernel.physicalOf, ← h.space, h.holds.virtToPhy_eq hlt hal, h.entry _ hlt hal]
  rfl

theorem Created.tailsZero_iff (h : Created env filename s s₁ s' p x t S)
    (hx : x.data = .elf elfFile) :
    TailsZero env s' p ↔ TailsClear env s₁.arena.mem elfFile x.stack := by
  have hproc : s'.processes p = some x := by
    rw [h.processes, update_self]
  have hbytes : ∀ a, elfFile.data ≤ a → a < elfFile.data + elfFile.fileSize →
      s'.arena.mem a = s₁.arena.mem a :=
    fun a h₁ h₂ ↦ h.buffer hx (inBuffer_of_lt (h.fileSize_lt hx) h₁ h₂)
  have htail := TailAddress.congr env.mapped hbytes
  have hphys : ∀ va, TailAddress env.mapped s₁.arena.mem elfFile va →
      Kernel.physicalOf s'.arena.mem t.taskSpace va = some (frameOf (PageMap.mapAll taskMap
        (memoryCalls env.mapped s₁.arena.mem (.elf elfFile) x.stack)
          (pagingAlignToPageLower va)) va) := by
    rintro va ⟨n, -, -, i, -, -, rfl⟩
    rw [h.physicalOf (u32_lt _), hx]
  constructor
  · rintro ⟨y, u, f, hy, hu, hf, hzero⟩ va hva pa rfl
    cases hproc.symm.trans hy
    cases h.at_task.symm.trans hu
    cases hx.symm.trans hf
    obtain ⟨pa, hpa, hz, hin⟩ := hzero va ((htail va).mpr hva)
    cases (hphys va hva).symm.trans hpa
    exact hin.imp_right (fun hb ↦ ⟨hb, (h.buffer hx hb).symm.trans hz⟩)
  · intro hclear
    refine ⟨x, t, elfFile, hproc, h.at_task, hx, fun va hva ↦ ?_⟩
    have hva' := (htail va).mp hva
    refine ⟨_, hphys va hva', ?_⟩
    rcases hclear va hva' _ rfl with hin | ⟨hin, hz⟩
    · exact ⟨h.zeroed _ hin.1 hin.2, Or.inl hin⟩
    · exact ⟨(h.buffer hx hin).trans hz, Or.inr hin⟩

/-- A process for a file that `gloader_load_elf` has loaded sees zeros in the
tails of its segments exactly when its calls map them to zeros of its own:
nothing clears them. -/
theorem elf_tails_zero_iff [LawfulAllocator σ] {process : ℕ} {a b : Arena σ} {status : ℤ}
    {u : Vfs σ Fat16Files} (hm : Fat16Mounted s.vfs) (henv : env.Words)
    (ha : kzalloc processSize s.arena = .ok (process, a))
    (hb : kzalloc processMaxProcessStackSize a = .ok (stack, b))
    (hload : gloaderLoadElf env.elf filename (s.setArena b).vfs =
      .ok ((status, some elfFile), u))
    (h : processNew env filename s = .ok (p, s')) (hp : p ≠ 0) :
    TailsZero env s' p ↔ TailsClear env u.drive.arena.mem elfFile stack := by
  obtain ⟨s₁, x, t, S, hc⟩ := processNew_made hm henv h hp
  obtain ⟨status', -, hprep⟩ := hc.prepared
  generalize hdata : x.data = data at hprep
  generalize hstack : x.stack = top at hprep
  obtain ⟨ha', -, -, hb', -, hv⟩ := hprep
  cases ha.symm.trans ha'
  cases hb.symm.trans hb'
  cases gloaderLoadElf_result hload with
  | loaded hf =>
    cases (processLoadData_loaded hf).symm.trans hv
    have hiff := hc.tailsZero_iff hdata
    rwa [hstack] at hiff

theorem sample_ehdr : (imageEhdr sampleImage).ePhnum = 1 := by decide +kernel

theorem sample_phdr : imagePhdr sampleImage 0 = samplePhdr := by decide +kernel

theorem sample_segment (hf : elfFile.data + pageSize ≤ kernelHeapBase + kernelHeapSize) :
    Segment elfFile samplePhdr := by
  unfold kernelHeapBase kernelHeapSize pageSize at hf
  refine ⟨by decide, by decide, by decide, ?_⟩
  unfold roundUp samplePhdr
  dsimp only
  rw [u32_of_lt (by omega)]
  unfold pageSize
  omega

theorem sample_tail {alien : ℕ → ByteMemory} (h : HoldsImage sampleImage m elfFile) :
    TailAddress alien m elfFile 0x400058 := by
  have hph : elfGetPhdr (elfFile.view (alien 0) m) elfFile 0 = samplePhdr := by
    rw [h.phdr_eq sampleImage_image (by rw [sample_ehdr]; decide), sample_phdr]
  refine ⟨0, ?_, ?_, 4, ?_⟩
  · rw [h.ehdr_eq sampleImage_image, sample_ehdr]
    decide
  · rw [hph]
    rfl
  · rw [hph]
    decide

theorem sample_frame {stack : ℕ} {mapped : ℕ → ByteMemory}
    (h : HoldsImage sampleImage m elfFile) (ha : stack % pageSize = 0)
    (hle : stack + processMaxProcessStackSize ≤ 2 ^ 32) :
    frameOf (PageMap.mapAll taskMap (memoryCalls mapped m (.elf elfFile) stack)
      (pagingAlignToPageLower 0x400058)) 0x400058 = elfFile.data + 88 := by
  have hlow : pagingAlignToPageLower 0x400058 = 0x400000 := by decide
  have hle' := h.data_le
  have hal := h.aligned
  unfold kernelHeapBase kernelHeapSize at hle'
  have hseg := @HoldsImage.mapAll_segment _ _ _ mapped stack 0x400000 taskMap h
    sampleImage_image sample_ehdr (sample_phdr ▸ sample_segment h.data_le) (by decide) (by decide)
    (by rw [sample_phdr]; exact ⟨by decide, by decide⟩)
    (by rw [stackCall_covers ha hle (by decide)]; decide)
  have hphys : u32 (elfFile.data + samplePhdr.pOffset) - samplePhdr.pVaddr % pageSize +
      (0x400000 - pagingAlignToPageLower samplePhdr.pVaddr) = elfFile.data := by
    have hv : samplePhdr.pVaddr % pageSize = 84 := by decide
    have hl : 0x400000 - pagingAlignToPageLower samplePhdr.pVaddr = 0 := by decide
    have ho : samplePhdr.pOffset = 84 := rfl
    unfold pageSize at hle'
    rw [hv, hl, ho, u32_of_lt (by omega)]
    omega
  rw [sample_phdr, hphys] at hseg
  rw [hlow, hseg, frameOf, mask_entry hal (by omega) phdrCall_flags.1]
  have hmod : 0x400058 % pageSize = 88 := by decide
  rw [hmod]

theorem sample_tail_not_zero : ∃ (s s' : KernelState (KHeap false) Fat16Files) (p : ℕ) (x : Process)
    (t : Task) (f : ElfFile) (pa : ℕ), processNew quietEnv filePath s = .ok (p, s') ∧ p ≠ 0 ∧
      s'.processes p = some x ∧ s'.taskList.tasks x.task = some t ∧ x.data = .elf f ∧
      TailAddress quietEnv.mapped s'.arena.mem f 0x400058 ∧
      physicalOf s'.arena.mem t.taskSpace 0x400058 = some pa ∧ s'.arena.mem pa = 9 := by
  obtain ⟨p, s', s₁, x, t, S, f, h, hc, hx, himage, -, -, -⟩ := processNew_image sampleImage_image
    (freshKernel_ready false sampleImage).room_zero (by decide) quietEnv_words (freshKernel_pid _ _)
  have hstack := hc.block (x.stack, processMaxProcessStackSize)
    (List.mem_cons_of_mem _ List.mem_cons_self)
  have hsize := hc.fileSize_lt hx
  have hlen : f.fileSize = 92 := himage.fileSize
  have hbuf : ∀ a, f.data ≤ a → a < f.data + f.fileSize → s'.arena.mem a = s₁.arena.mem a :=
    fun a h₁ h₂ ↦ hc.buffer hx (inBuffer_of_lt hsize h₁ h₂)
  refine ⟨_, s', p, x, t, f, f.data + 88, h, (hc.block _ List.mem_cons_self).ne_zero, ?_, hc.at_task,
    hx, (TailAddress.congr _ hbuf _).mpr (sample_tail himage), ?_, ?_⟩
  · rw [hc.processes, update_self]
  · rw [hc.physicalOf (by decide), hx, sample_frame himage hstack.aligned (stack_end hstack)]
  · rw [hbuf _ (Nat.le_add_right _ _) (by omega), himage.bytes 88 (by decide)]
    rfl

theorem elf_tails_zero_iff_sample : ∃ (s s' : KernelState (KHeap false) Fat16Files) (p stack : ℕ)
    (f : ElfFile) (u : Vfs (KHeap false) Fat16Files),
    processNew quietEnv filePath s = .ok (p, s') ∧
      (TailsZero quietEnv s' p ↔ TailsClear quietEnv u.drive.arena.mem f stack) := by
  obtain ⟨p, s', s₁, x, t, S, f, h, hc, -, -, hload, -, hready⟩ := processNew_image
    sampleImage_image (freshKernel_ready false sampleImage).room_zero (by decide) quietEnv_words
    (freshKernel_pid _ _)
  obtain ⟨process, stack, a, b, ha, -, hb, -, fd, f', u, hf⟩ := hload
  exact ⟨_, s', p, stack, _, u, h, elf_tails_zero_iff (freshKernel_ready false sampleImage).mounted
    quietEnv_words ha hb (gloaderLoadElf_loaded hf) h (hc.block _ List.mem_cons_self).ne_zero⟩

end GammaOS.Kernel
