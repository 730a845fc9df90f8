import GammaOS.Kernel.ElfSegments

namespace GammaOS.Kernel

open Foundation Foundation.Program Memory Paging Fs Loader

variable {σ δ : Type} [Allocator σ] {env : LoadEnv} {filename : List UInt8} {s t : Vfs σ δ}
  {elfFile : ElfFile} {m : ByteMemory} {view view' : ℕ → ByteMemory} {n : ℕ}

structure SameHeaders (view view' : ℕ → ByteMemory) (elfFile : ElfFile) : Prop where
  ehdr : ∀ k, elfGetEhdr (view' k) elfFile = elfGetEhdr (view k) elfFile
  phdr : ∀ k < (elfGetEhdr (view k) elfFile).ePhnum,
    elfGetPhdr (view' k) elfFile k = elfGetPhdr (view k) elfFile k

theorem SameHeaders.of_inside {alien₀ : ByteMemory} (ht : TableInside (elfFile.view alien₀ m) elfFile)
    (hend : elfFile.data + elfFile.fileSize ≤ 2 ^ 32) (alien alien' : ℕ → ByteMemory) :
    SameHeaders (fun k ↦ elfFile.view (alien k) m) (fun k ↦ elfFile.view (alien' k) m) elfFile := by
  have hehdr : ∀ a : ByteMemory, elfGetEhdr (elfFile.view a m) elfFile =
      elfGetEhdr (elfFile.view alien₀ m) elfFile :=
    fun a ↦ elfGetEhdr_congr ht.ehdr (fun _ _ _ ↦ rfl)
  refine ⟨fun k ↦ (hehdr _).trans (hehdr _).symm, fun k hk ↦ ?_⟩
  rw [hehdr] at hk
  have hphdr : ∀ a : ByteMemory, elfGetPhdr (elfFile.view a m) elfFile k =
      elfGetPhdr (elfFile.view alien₀ m) elfFile k :=
    fun a ↦ elfGetPhdr_congr ht hend (fun _ _ _ ↦ rfl) hk
  exact (hphdr _).trans (hphdr _).symm

theorem processHeadersLoop_congr (h : SameHeaders view view' elfFile) :
    ∀ n k (f : ElfFile), f.data = elfFile.data →
      processHeadersLoop view' n k f = processHeadersLoop view n k f := by
  intro n
  induction n with
  | zero => exact fun _ _ _ ↦ rfl
  | succ n ih =>
    intro k f hf
    have hehdr : elfGetEhdr (view' k) f = elfGetEhdr (view k) f := by
      have := h.ehdr k
      unfold elfGetEhdr at this ⊢
      rwa [hf]
    rw [processHeadersLoop, processHeadersLoop, hehdr]
    by_cases hk : k < (elfGetEhdr (view k) f).ePhnum
    · have hphdr : elfGetPhdr (view' k) f k = elfGetPhdr (view k) f k := by
        have := h.phdr k (by unfold elfGetEhdr at hk ⊢; rwa [← hf])
        unfold elfGetPhdr phdrAddr elfGetEhdr at this ⊢
        rwa [hf]
      rw [if_pos hk, if_pos hk, hphdr]
      refine ih _ _ ?_
      split
      · exact hf
      · exact hf
    · rw [if_neg hk, if_neg hk]

theorem phdrCalls_congr (h : SameHeaders view view' elfFile) :
    ∀ n k, phdrCalls view' elfFile n k = phdrCalls view elfFile n k := by
  intro n
  induction n with
  | zero => exact fun _ ↦ rfl
  | succ n ih =>
    intro k
    rw [phdrCalls, phdrCalls, h.ehdr k]
    by_cases hk : k < (elfGetEhdr (view k) elfFile).ePhnum
    · rw [if_pos hk, if_pos hk, h.phdr k hk, ih]
    · rw [if_neg hk, if_neg hk]

def ReadsInside (elfFile : ElfFile) (m : ByteMemory) : Prop :=
  ∀ alien alien' : ℕ → ByteMemory,
    gloaderProcessProgramHeaders (fun k ↦ elfFile.view (alien k) m) elfFile =
      gloaderProcessProgramHeaders (fun k ↦ elfFile.view (alien' k) m) elfFile ∧
    ∀ S : Space, Holds m S → BufferOff S elfFile →
      processMapElf S.vspace elfFile alien m = processMapElf S.vspace elfFile alien' m

theorem readsInside_of_table {alien₀ : ByteMemory} (ht : TableInside (elfFile.view alien₀ m) elfFile)
    (hend : elfFile.data + elfFile.fileSize ≤ 2 ^ 32) : ReadsInside elfFile m := by
  intro alien alien'
  have h := SameHeaders.of_inside ht hend alien' alien
  refine ⟨congrArg (Prod.mk _) (processHeadersLoop_congr h _ _ _ rfl), fun S hS hb ↦ ?_⟩
  rw [processMapElf_eq hS hb, processMapElf_eq hS hb, elfCalls, elfCalls, phdrCalls_congr h]

theorem fileLoaded_buffer [LawfulAllocator σ] {fd : ℤ} (h : FileLoaded env filename s fd elfFile t) :
    elfFile.data % pageSize = 0 ∧ 0 < u32 elfFile.fileSize ∧
      elfFile.data + pageSize * blocksOf (u32 elfFile.fileSize) ≤ 2 ^ 32 := by
  obtain ⟨-, -, -, -, -, h₄, hdata, -, -⟩ := h
  obtain ⟨d, hd, rfl⟩ := onDrive_eq_ok.mp h₄
  obtain ⟨a, ha, rfl⟩ := onArena_eq_ok.mp hd
  have g := kzalloc_granted ha hdata
  exact ⟨g.aligned, g.pos, g.inside⟩

section Fits

variable {S : Space} {phdr : Elf32Phdr} {v : ℕ} {alien : ℕ → ByteMemory} {b : ByteMemory}

def LoadsFit (b : ByteMemory) (elfFile : ElfFile) : Prop :=
  ∀ n < (elfGetEhdr b elfFile).ePhnum, (elfGetPhdr b elfFile n).pType = ptLoad →
    (elfGetPhdr b elfFile n).pOffset + (elfGetPhdr b elfFile n).pFilesz ≤ elfFile.fileSize

instance (b : ByteMemory) (elfFile : ElfFile) : Decidable (LoadsFit b elfFile) :=
  inferInstanceAs (Decidable (∀ n < (elfGetEhdr b elfFile).ePhnum, _ → _ ≤ _))

/-- What the headers say of the memory of their segments ends in the pages of the file. -/
def SegmentsFit (b : ByteMemory) (elfFile : ElfFile) : Prop :=
  ∀ n < (elfGetEhdr b elfFile).ePhnum, (elfGetPhdr b elfFile n).pOffset +
    (elfGetPhdr b elfFile n).pMemsz ≤ pageSize * blocksOf elfFile.fileSize

instance (b : ByteMemory) (elfFile : ElfFile) : Decidable (SegmentsFit b elfFile) :=
  inferInstanceAs (Decidable (∀ n < (elfGetEhdr b elfFile).ePhnum, _ ≤ _))

def InFile (elfFile : ElfFile) (a length : ℕ) : Prop :=
  ∀ i < length, elfFile.data ≤ a + i ∧ a + i < elfFile.data + elfFile.fileSize

def FilePage (elfFile : ElfFile) (page : ℕ) : Prop :=
  elfFile.data ≤ page ∧ page + pageSize ≤ elfFile.data + pageSize * blocksOf elfFile.fileSize

instance (elfFile : ElfFile) (page : ℕ) : Decidable (FilePage elfFile page) :=
  inferInstanceAs (Decidable (_ ∧ _))

/-- Whatever `process_map_elf` changes in page tables leads to a page of the file. -/
def MapsInside (elfFile : ElfFile) (m : ByteMemory) : Prop :=
  ∀ (alien : ℕ → ByteMemory) (S : Space), Holds m S → BufferOff S elfFile →
    ∀ v < 2 ^ 32, v % pageSize = 0 →
      entries (processMapElf S.vspace elfFile alien m).2 S v = entries m S v ∨
        FilePage elfFile (entries (processMapElf S.vspace elfFile alien m).2 S v &&& 0xfffff000)

theorem inFile_of_fit (hend : elfFile.data + elfFile.fileSize ≤ 2 ^ 32)
    (h : phdr.pOffset + phdr.pFilesz ≤ elfFile.fileSize) :
    InFile elfFile (u32 (elfFile.data + phdr.pOffset)) phdr.pFilesz := by
  intro i hi
  rw [u32_of_lt (by omega)]
  omega

theorem processHeadersLoop_range (hend : elfFile.data + elfFile.fileSize ≤ 2 ^ 32)
    (hfit : ∀ k, LoadsFit (view k) elfFile) :
    ∀ n k (f : ElfFile), f.data = elfFile.data → InFile elfFile f.pbase (subU32 f.pend f.pbase) →
      InFile elfFile (processHeadersLoop view n k f).pbase
        (subU32 (processHeadersLoop view n k f).pend (processHeadersLoop view n k f).pbase) := by
  intro n
  induction n with
  | zero => exact fun _ _ _ h ↦ h
  | succ n ih =>
    intro k f hf h
    have hehdr : elfGetEhdr (view k) f = elfGetEhdr (view k) elfFile := by
      unfold elfGetEhdr
      rw [hf]
    have hphdr : elfGetPhdr (view k) f k = elfGetPhdr (view k) elfFile k := by
      unfold elfGetPhdr phdrAddr
      rw [hehdr, hf]
    rw [processHeadersLoop, hehdr, hphdr]
    by_cases hk : k < (elfGetEhdr (view k) elfFile).ePhnum
    · rw [if_pos hk]
      dsimp only
      by_cases hload : (elfGetPhdr (view k) elfFile k).pType = ptLoad
      · have hle := hfit k k hk hload
        rw [if_pos hload]
        refine ih _ _ hf ?_
        simp only [gloaderProcessProgramHeaderPtload, hf]
        refine fun i hi ↦ inFile_of_fit hend hle i ?_
        unfold subU32 u32 at hi
        omega
      · rw [if_neg hload]
        exact ih _ _ hf h
    · rw [if_neg hk]
      exact h

theorem loadsFit_congr {alien alien' : ByteMemory}
    (ht : TableInside (elfFile.view alien m) elfFile)
    (hend : elfFile.data + elfFile.fileSize ≤ 2 ^ 32) (h : LoadsFit (elfFile.view alien m) elfFile) :
    LoadsFit (elfFile.view alien' m) elfFile := by
  intro n hn
  rw [elfGetEhdr_congr ht.ehdr (fun _ _ _ ↦ rfl)] at hn
  rw [elfGetPhdr_congr ht hend (fun _ _ _ ↦ rfl) hn]
  exact h n hn

theorem phdrCall_filePage (hal : elfFile.data % pageSize = 0)
    (hin : elfFile.data + pageSize * blocksOf elfFile.fileSize ≤ 2 ^ 32)
    (h : phdr.pOffset + phdr.pMemsz ≤ pageSize * blocksOf elfFile.fileSize)
    (hva : v % pageSize = 0) (hcov : (phdrCall elfFile phdr).Covers v) :
    FilePage elfFile ((phdrCall elfFile phdr).paddr + subU32 v (phdrCall elfFile phdr).vaddr) := by
  have hlow := alignToPageLower_aligned phdr.pVaddr
  unfold MapCall.Covers phdrCall at hcov
  unfold FilePage phdrCall
  dsimp only at hcov ⊢
  have hoffset : subU32 v (pagingAlignToPageLower phdr.pVaddr) % pageSize = 0 := by
    unfold subU32 u32
    unfold pageSize at *
    omega
  rw [alignToPageLower_eq (u32 (elfFile.data + phdr.pOffset))] at hcov ⊢
  generalize subU32 v (pagingAlignToPageLower phdr.pVaddr) = offset at hcov hoffset ⊢
  have hend : pagingAlignToPageUpper (u32 (u32 (elfFile.data + phdr.pOffset) + phdr.pMemsz)) ≤
      elfFile.data + pageSize * blocksOf elfFile.fileSize := by
    unfold pagingAlignToPageUpper u32
    unfold pageSize at *
    split <;> omega
  have hstart : pagingAlignToPageUpper (u32 (u32 (elfFile.data + phdr.pOffset) + phdr.pMemsz)) = 0 ∨
      u32 (elfFile.data + phdr.pOffset) = elfFile.data + phdr.pOffset := by
    by_cases hlt : elfFile.data + phdr.pOffset < 2 ^ 32
    · exact Or.inr (u32_of_lt hlt)
    · refine Or.inl ?_
      have h0 : u32 (u32 (elfFile.data + phdr.pOffset) + phdr.pMemsz) = 0 := by
        unfold u32
        omega
      rw [h0]
      rfl
  have hlast := alignToPageUpper_aligned (u32 (u32 (elfFile.data + phdr.pOffset) + phdr.pMemsz))
  generalize pagingAlignToPageUpper (u32 (u32 (elfFile.data + phdr.pOffset) + phdr.pMemsz)) = last
    at hcov hend hstart hlast
  rcases hstart with rfl | hstart
  · omega
  · rw [hstart] at hcov ⊢
    unfold pageSize at *
    omega

theorem mapsInside_of_fit {alien₀ : ByteMemory} (hal : elfFile.data % pageSize = 0)
    (hin : elfFile.data + pageSize * blocksOf elfFile.fileSize ≤ 2 ^ 32)
    (ht : TableInside (elfFile.view alien₀ m) elfFile)
    (hfit : SegmentsFit (elfFile.view alien₀ m) elfFile) : MapsInside elfFile m := by
  intro alien S hS hb v hv hva
  have hle := lt_blocksOf elfFile.fileSize
  rw [processMapElf_eq hS hb]
  rcases mapCalls_maps hS elfCalls_valid hv hva with hsame | ⟨c, hc, hmaps⟩
  · exact Or.inl hsame
  · obtain ⟨j, hj, rfl⟩ := (mem_elfCalls ht (by omega)).mp hc
    have hpage := phdrCall_filePage hal hin (hfit j hj) hva hmaps.covers
    refine Or.inr ?_
    dsimp only
    rw [hmaps.entry, MapCall.valueAt, mask_entry (hmaps.accepted.page hva) (hpage.2.trans hin)
      phdrCall_flags.1]
    exact hpage

end Fits

/-- No bound is checked. The ELF header of a file that was loaded lies in the
pages allocated for the file. A file that holds its header and its table of
program headers is read inside its buffer only; when its PT_LOAD ranges end inside
it they lie in the buffer, with the one that the loader records, and when its
segments end in the pages of the file, so do the pages that are mapped for them. -/
theorem elf_reads_inside [LawfulAllocator σ] {status : ℤ}
    (h : gloaderLoadElf env filename s = .ok ((status, some elfFile), t))
    (hsize : elfFile.fileSize < 2 ^ 32) :
    (elfFile.data % pageSize = 0 ∧
      ehdrSize ≤ pageSize * blocksOf elfFile.fileSize ∧
      elfFile.data + pageSize * blocksOf elfFile.fileSize ≤ 2 ^ 32) ∧
    ∀ alien : ByteMemory, TableInside (elfFile.view alien t.drive.arena.mem) elfFile →
      (∀ n < (elfGetEhdr (elfFile.view alien t.drive.arena.mem) elfFile).ePhnum,
        elfFile.data ≤ phdrAddr (elfFile.view alien t.drive.arena.mem) elfFile n ∧
        phdrAddr (elfFile.view alien t.drive.arena.mem) elfFile n + phdrSize ≤
          elfFile.data + elfFile.fileSize) ∧
      ReadsInside elfFile t.drive.arena.mem ∧
      (LoadsFit (elfFile.view alien t.drive.arena.mem) elfFile →
        (∀ n < (elfGetEhdr (elfFile.view alien t.drive.arena.mem) elfFile).ePhnum,
          (elfGetPhdr (elfFile.view alien t.drive.arena.mem) elfFile n).pType = ptLoad →
          InFile elfFile (u32 (elfFile.data +
              (elfGetPhdr (elfFile.view alien t.drive.arena.mem) elfFile n).pOffset))
            (elfGetPhdr (elfFile.view alien t.drive.arena.mem) elfFile n).pFilesz) ∧
        InFile elfFile elfFile.pbase (subU32 elfFile.pend elfFile.pbase)) ∧
      (SegmentsFit (elfFile.view alien t.drive.arena.mem) elfFile →
        MapsInside elfFile t.drive.arena.mem) := by
  cases gloaderLoadElf_result h with
  | @loaded fd f _ hf =>
    obtain ⟨-, hd, hs⟩ := acceptedFile_buffer env f t
    obtain ⟨hal, hpos, hin⟩ := fileLoaded_buffer hf
    have hu : u32 f.fileSize = f.fileSize := u32_of_lt (hs ▸ hsize)
    rw [hu] at hpos hin
    have hle := lt_blocksOf f.fileSize
    have hend : f.data + f.fileSize ≤ 2 ^ 32 := by omega
    have hview : ∀ a, f.view a t.drive.arena.mem =
        (acceptedFile env f t).view a t.drive.arena.mem := by
      intro a
      unfold ElfFile.view
      rw [hd, hs]
    have hrange := fun hfit ↦ @processHeadersLoop_range (acceptedFile env f t)
      (fun k ↦ f.view (env.phdrs k) t.drive.arena.mem) (by rwa [hd, hs]) hfit (2 ^ 16) 0 f hd.symm
    rw [← hd] at hal hin hend
    rw [← hs] at hpos hin hend hle
    refine ⟨⟨hal, ?_, hin⟩, fun alien ht ↦ ⟨fun n hn ↦ ?_, readsInside_of_table ht hend,
      fun hfit ↦ ⟨fun n hn hload ↦ inFile_of_fit hend (hfit n hn hload), hrange (fun k ↦ ?_) ?_⟩,
      mapsInside_of_fit hal hin ht⟩⟩
    · unfold ehdrSize
      unfold pageSize at hle ⊢
      omega
    · obtain ⟨heq, hin'⟩ := phdrAddr_inside ht hend hn
      exact ⟨by omega, hin'⟩
    · rw [hview]
      exact loadsFit_congr ht hend hfit
    · -- before its headers are gone through, a file has the range from 0 to 0
      obtain ⟨-, -, -, -, -, -, -, -, -⟩ := hf
      simp [InFile, subU32, u32]

instance (b : ByteMemory) (elfFile : ElfFile) : Decidable (TableInside b elfFile) :=
  decidable_of_iff (ehdrSize ≤ elfFile.fileSize ∧
    (elfGetEhdr b elfFile).ePhoff + phdrSize * (elfGetEhdr b elfFile).ePhnum ≤ elfFile.fileSize)
    ⟨fun h ↦ ⟨h.1, h.2⟩, fun h ↦ ⟨h.ehdr, h.table⟩⟩

theorem elfLoaded_of_passes {image : List UInt8} {test : ElfFile → ByteMemory → Bool}
    (h : passes (gloaderLoadElf quietEnv.elf [65, 58, 47, 70]) (mountedVfs (fileVolume image))
      (fun r t ↦ r.2.any (fun e ↦ test e t.drive.arena.mem)) = true) :
    ∃ (f : ElfFile) (t : Vfs (KHeap false) Fat16Files),
      gloaderLoadElf quietEnv.elf [65, 58, 47, 70] (mountedVfs (fileVolume image)) =
        .ok (((success : ℤ), some f), t) ∧ test f t.drive.arena.mem = true := by
  obtain ⟨fd, f, t, hf, htest⟩ := fileLoaded_of_passes h
  exact ⟨_, t, gloaderLoadElf_loaded hf, htest⟩

theorem elf_reads_inside_sample :
    ∃ (f : ElfFile) (t : Vfs (KHeap false) Fat16Files),
      gloaderLoadElf quietEnv.elf [65, 58, 47, 70] (mountedVfs (fileVolume sampleImage)) =
        .ok (((success : ℤ), some f), t) ∧ ReadsInside f t.drive.arena.mem ∧
      InFile f f.pbase (subU32 f.pend f.pbase) ∧ MapsInside f t.drive.arena.mem := by
  obtain ⟨f, t, hload, htest⟩ := @elfLoaded_of_passes sampleImage
    (fun e m ↦ decide (e.fileSize < 2 ^ 32 ∧ TableInside (e.view quietEnv.elf.header m) e ∧
      LoadsFit (e.view quietEnv.elf.header m) e ∧ SegmentsFit (e.view quietEnv.elf.header m) e))
    (by decide +kernel)
  obtain ⟨hsize, htable, hloads, hsegments⟩ := of_decide_eq_true htest
  obtain ⟨-, hreads, hranges, hmaps⟩ := (elf_reads_inside hload hsize).2 _ htable
  exact ⟨f, t, hload, hreads, (hranges hloads).2, hmaps hsegments⟩

/-- The ELF header of the sample alone: it says that one program header follows it. -/
def headerOnly : List UInt8 := sampleImage.take 52

def longImage : List UInt8 :=
  sampleImage.take 68 ++ [0, 32, 0, 0] ++ [0, 32, 0, 0] ++ [7, 0, 0, 0] ++ [0, 16, 0, 0] ++
  [1, 2, 3, 4] ++ [9, 9, 9, 9]

/-- The header of a 52-byte file passes the test, and its program header lies behind
the file. Another file holds its table, but its PT_LOAD range goes past its end, and
`process_map_elf` maps a page behind the pages of the file. -/
theorem headers_outside_file :
    (∃ (f : ElfFile) (t : Vfs (KHeap false) Fat16Files),
      gloaderLoadElf quietEnv.elf [65, 58, 47, 70] (mountedVfs (fileVolume headerOnly)) =
        .ok (((success : ℤ), some f), t) ∧
      HeaderTest (testedHeader quietEnv.elf f t) ∧ 0 < (testedHeader quietEnv.elf f t).ePhnum ∧
      f.data + f.fileSize ≤ phdrAddr (f.view quietEnv.elf.header t.drive.arena.mem) f 0) ∧
    ∃ (f : ElfFile) (t : Vfs (KHeap false) Fat16Files),
      gloaderLoadElf quietEnv.elf [65, 58, 47, 70] (mountedVfs (fileVolume longImage)) =
        .ok (((success : ℤ), some f), t) ∧
      HeaderTest (testedHeader quietEnv.elf f t) ∧
      TableInside (f.view quietEnv.elf.header t.drive.arena.mem) f ∧
      ¬ LoadsFit (f.view quietEnv.elf.header t.drive.arena.mem) f ∧
      ∃ c ∈ elfCalls (fun _ ↦ quietEnv.elf.header) t.drive.arena.mem f, c.Accepted ∧
        c.Covers 0x401000 ∧ ¬ FilePage f (c.paddr + subU32 0x401000 c.vaddr) := by
  refine ⟨?_, ?_⟩
  · obtain ⟨f, t, hload, htest⟩ := @elfLoaded_of_passes headerOnly
      (fun e m ↦ decide (HeaderTest (elfGetEhdr (e.view quietEnv.elf.header m) e) ∧
        0 < (elfGetEhdr (e.view quietEnv.elf.header m) e).ePhnum ∧
        e.data + e.fileSize ≤ phdrAddr (e.view quietEnv.elf.header m) e 0))
      (by decide +kernel)
    exact ⟨f, t, hload, of_decide_eq_true htest⟩
  · obtain ⟨f, t, hload, htest⟩ := @elfLoaded_of_passes longImage
      (fun e m ↦ decide (HeaderTest (elfGetEhdr (e.view quietEnv.elf.header m) e) ∧
        TableInside (e.view quietEnv.elf.header m) e ∧
        ¬ LoadsFit (e.view quietEnv.elf.header m) e ∧ e.data + e.fileSize ≤ 2 ^ 32 ∧
        0 < (elfGetEhdr (e.view quietEnv.elf.header m) e).ePhnum ∧
        (phdrCall e (elfGetPhdr (e.view quietEnv.elf.header m) e 0)).Accepted ∧
        (phdrCall e (elfGetPhdr (e.view quietEnv.elf.header m) e 0)).Covers 0x401000 ∧
        ¬ FilePage e ((phdrCall e (elfGetPhdr (e.view quietEnv.elf.header m) e 0)).paddr +
          subU32 0x401000 (phdrCall e (elfGetPhdr (e.view quietEnv.elf.header m) e 0)).vaddr)))
      (by decide +kernel)
    obtain ⟨hheader, htable, hfit, hend, hone, haccepted, hcovers, hout⟩ := of_decide_eq_true htest
    exact ⟨f, t, hload, hheader, htable, hfit, _, (mem_elfCalls htable hend).mpr ⟨0, hone, rfl⟩,
      haccepted, hcovers, hout⟩

end GammaOS.Kernel
