import GammaOS.Kernel.ProcessMap

namespace GammaOS.Kernel

open Foundation Memory Paging Loader

variable {S : Space} {m b : ByteMemory} {elfFile : ElfFile} {alien : ℕ → ByteMemory}
  {alien₀ : ByteMemory} {phdr : Elf32Phdr} {v n : ℕ}

/-- A byte of the file is mapped where its header says, for the user, and for
writing when the header allows it. -/
structure SegmentByte (m : ByteMemory) (S : Space) (elfFile : ElfFile) (phdr : Elf32Phdr) (i : ℕ) :
    Prop where
  translate_eq : translate m S (phdr.pVaddr + i) = u32 (elfFile.data + phdr.pOffset) + i
  present : PageHas m S (phdr.pVaddr + i) pagePresent
  user : PageHas m S (phdr.pVaddr + i) pageUserAccess
  writable : PageHas m S (phdr.pVaddr + i) pageWriteAccess ↔ phdr.pFlags &&& pfW ≠ 0

theorem phdrCall_flags : (phdrCall elfFile phdr).flags < pageSize ∧
    (phdrCall elfFile phdr).flags &&& pagePresent ≠ 0 ∧
    (phdrCall elfFile phdr).flags &&& pageUserAccess ≠ 0 ∧
    ((phdrCall elfFile phdr).flags &&& pageWriteAccess ≠ 0 ↔ phdr.pFlags &&& pfW ≠ 0) := by
  unfold phdrCall
  dsimp only
  by_cases h : phdr.pFlags &&& pfW ≠ 0
  · rw [if_pos h]
    exact ⟨by decide, by decide, by decide, iff_of_true (by decide) h⟩
  · rw [if_neg h]
    exact ⟨by decide, by decide, by decide, iff_of_false (by decide) h⟩

theorem Segment.byte (h : Segment elfFile phdr) (ha : elfFile.data % pageSize = 0) {i : ℕ}
    (hi : i < phdr.pMemsz)
    (he : ∀ v < 2 ^ 32, v % pageSize = 0 → InRange phdr v →
      entries m S v = (phdrCall elfFile phdr).valueAt v) :
    SegmentByte m S elfFile phdr i := by
  have hv := h.vaddr_end
  have hp := h.paddr_end
  have hc := h.congruent
  have hlow := alignToPageLower_eq (phdr.pVaddr + i)
  have hlow' := alignToPageLower_eq phdr.pVaddr
  have hal := alignToPageLower_aligned (phdr.pVaddr + i)
  have hin : InRange phdr (pagingAlignToPageLower (phdr.pVaddr + i)) := by
    rw [InRange, hlow, hlow']
    unfold roundUp
    unfold pageSize at *
    omega
  have hlt : pagingAlignToPageLower (phdr.pVaddr + i) < 2 ^ 32 := Nat.lt_trans hin.2 hv
  have hentry := he _ hlt hal hin
  rw [((h.call ha).2 _ hlt hal).2 hin] at hentry
  obtain ⟨hfl, h₁, h₂, h₃⟩ := @phdrCall_flags elfFile phdr
  have hmod : u32 (elfFile.data + phdr.pOffset) % pageSize = phdr.pVaddr % pageSize := by
    rw [← hc]
    unfold u32
    unfold pageSize at *
    omega
  unfold roundUp at hp
  generalize (phdrCall elfFile phdr).flags = flags at hentry hfl h₁ h₂ h₃
  generalize hphys : u32 (elfFile.data + phdr.pOffset) = phys at hentry hmod hp
  have hpa : (phys - phdr.pVaddr % pageSize +
      (pagingAlignToPageLower (phdr.pVaddr + i) - pagingAlignToPageLower phdr.pVaddr)) % pageSize =
      0 := by
    rw [hlow, hlow']
    unfold pageSize at *
    omega
  have hflag : ∀ bit < pageSize, entries m S (pagingAlignToPageLower (phdr.pVaddr + i)) &&& bit =
      flags &&& bit := by
    intro bit hb
    rw [hentry, flag_of_page hpa hb]
  refine ⟨?_, ?_, ?_, ?_⟩
  · rw [hphys, translate_of_entry hentry hpa ?_ hfl]
    · rw [hlow, hlow']
      unfold pageSize at *
      omega
    · rw [hlow, hlow']
      unfold pageSize at *
      omega
  · rwa [PageHas, hflag _ (by decide)]
  · rwa [PageHas, hflag _ (by decide)]
  · rwa [PageHas, hflag _ (by decide)]

/-- `process_map_elf` maps the bytes of disjoint segments where their headers
say, and changes no other page. -/
theorem processMapElf_segments (h : Holds m S) (hb : BufferOff S elfFile)
    (ha : elfFile.data % pageSize = 0) (hend : elfFile.data + elfFile.fileSize ≤ 2 ^ 32)
    (ht : TableInside (elfFile.view alien₀ m) elfFile)
    (hseg : ∀ n < (elfGetEhdr (elfFile.view alien₀ m) elfFile).ePhnum,
      Segment elfFile (elfGetPhdr (elfFile.view alien₀ m) elfFile n))
    (hdisj : ∀ j < (elfGetEhdr (elfFile.view alien₀ m) elfFile).ePhnum,
      ∀ k < (elfGetEhdr (elfFile.view alien₀ m) elfFile).ePhnum, j ≠ k → ∀ v,
        InRange (elfGetPhdr (elfFile.view alien₀ m) elfFile j) v →
          ¬ InRange (elfGetPhdr (elfFile.view alien₀ m) elfFile k) v) :
    (processMapElf S.vspace elfFile alien m).1 = success ∧
      (∀ n < (elfGetEhdr (elfFile.view alien₀ m) elfFile).ePhnum,
        ∀ i < (elfGetPhdr (elfFile.view alien₀ m) elfFile n).pFilesz,
          SegmentByte (processMapElf S.vspace elfFile alien m).2 S elfFile
            (elfGetPhdr (elfFile.view alien₀ m) elfFile n) i) ∧
      ∀ v < 2 ^ 32, v % pageSize = 0 →
        (∀ n < (elfGetEhdr (elfFile.view alien₀ m) elfFile).ePhnum,
          ¬ InRange (elfGetPhdr (elfFile.view alien₀ m) elfFile n) v) →
        pagingVirtToPhy (processMapElf S.vspace elfFile alien m).2 S.vspace v =
          pagingVirtToPhy m S.vspace v := by
  have hmem := fun c ↦ @mem_elfCalls m elfFile alien _ ht hend c
  have hval := @elfCalls_valid m elfFile alien
  have hok : (mapCalls S.vspace (elfCalls alien m elfFile) m).1 = true := by
    refine mapCalls_accepted.mpr (fun c hc ↦ ?_)
    obtain ⟨j, hj, rfl⟩ := (hmem c).mp hc
    exact ((hseg j hj).call ha).1
  have hh := (mapCalls_holds h hval).1
  have he := mapCalls_entries h hval hok
  rw [processMapElf_eq h hb, if_pos hok]
  refine ⟨rfl, fun n hn i hi ↦ ?_, fun v hv hva hout ↦ ?_⟩
  · have hs := hseg n hn
    refine hs.byte ha (Nat.lt_of_lt_of_le hi hs.filesz_le) (fun v hv hva hin ↦ ?_)
    rw [he v hv hva]
    refine mapAll_eq (Or.inr ⟨_, (hmem _).mpr ⟨n, hn, rfl⟩, (hs.call ha).1,
      (((hs.call ha).2 v hv hva).1).mpr hin⟩) (fun c hc _ hcov ↦ ?_)
    obtain ⟨j, hj, rfl⟩ := (hmem c).mp hc
    by_cases hjn : n = j
    · rw [hjn]
    · exact absurd ((((hseg j hj).call ha).2 v hv hva).1.mp hcov) (hdisj n hn j hj hjn v hin)
  · rw [hh.virtToPhy_eq hv hva, h.virtToPhy_eq hv hva, he v hv hva, mapAll_outside]
    intro c hc hcov
    obtain ⟨j, hj, rfl⟩ := (hmem c).mp hc
    exact hout j hj ((((hseg j hj).call ha).2 v hv hva).1.mp hcov)

/-- An ELF file of one segment: four bytes of data, a tail of four bytes that
the file does not hold, and other bytes of the file in its place. -/
def sampleImage : List UInt8 :=
  [0x7F, 0x45, 0x4C, 0x46, 1, 1, 0, 0, 0, 0, 0, 0, 0, 0, 0, 0] ++
  [2, 0, 3, 0, 1, 0, 0, 0] ++ [84, 0, 0x40, 0] ++ [52, 0, 0, 0] ++ [92, 0, 0, 0] ++
  [0, 0, 0, 0, 52, 0, 32, 0, 1, 0, 40, 0, 0, 0, 0, 0] ++
  [1, 0, 0, 0] ++ [84, 0, 0, 0] ++ [84, 0, 0x40, 0] ++ [84, 0, 0x40, 0] ++
  [4, 0, 0, 0] ++ [8, 0, 0, 0] ++ [7, 0, 0, 0] ++ [0, 16, 0, 0] ++
  [1, 2, 3, 4] ++ [9, 9, 9, 9]

def sampleFile : ElfFile := ⟨0, kernelHeapBase, 92, 0, 0, 0, 0⟩

def samplePhdr : Elf32Phdr := ⟨1, 84, 0x400054, 4, 8, 7⟩

theorem spaceBeside (image : List UInt8) (hlen : image.length ≤ pageSize) :
    ∃ (m : ByteMemory) (S : Space), Holds m S ∧
      (∀ i < image.length, m (kernelHeapBase + i) = image.getD i 0) ∧
      ∀ a, kernelHeapBase ≤ a → a < kernelHeapBase + pageSize → S.OffTables a := by
  have hroom : Arena.HasRoom (1 + 1027)
      (⟨KHeap.init (fun _ ↦ 0), fun _ ↦ 0⟩ : Arena (KHeap false)) :=
    RoomyAllocator.room_mono _ _ _ (by decide) (KHeap.init_room _)
  obtain ⟨p, s, hp, hne, hroom'⟩ := kzalloc_total (σ := KHeap false) (n := pageSize) (by decide)
    1027 _ hroom
  have hbase : p = kernelHeapBase := by
    have h := congrArg Prod.fst (Except.ok.inj hp)
    have hfirst : (Allocator.kzalloc pageSize (KHeap.init (fun _ ↦ 0) : KHeap false)).1 =
        kernelHeapBase := by decide +kernel
    exact h.symm.trans hfirst
  subst hbase
  have hrun : (⟨pageOf kernelHeapBase, 1⟩ : Run) ∈ s.live := by
    rw [(kzalloc_granted hp hne).live_eq]
    exact List.mem_cons_self
  have hpage : ∀ i, kernelHeapBase ≤ i → i < kernelHeapBase + pageSize →
      pageOf i ∈ (⟨pageOf kernelHeapBase, 1⟩ : Run) := by
    intro i h₁ h₂
    rw [Run.mem_mk, pageOf_window (by decide) h₁ h₂]
    omega
  obtain ⟨v, t, ht, -⟩ := createVirtualAddressSpace_total 5 0
    { s with mem := s.mem.writeBytes kernelHeapBase image } hroom'
  obtain ⟨S, -, hS⟩ := createVirtualAddressSpace_made (by decide) ht
  refine ⟨t.mem, S, hS.holds, fun i hi ↦ ?_, fun a h₁ h₂ ↦
    Space.offTables_of_apart (fun q hq ↦ hS.runs_fresh q hq _ hrun) (hpage a h₁ h₂)⟩
  rw [(hS.kept _ hrun).bytes _ (hpage _ (by omega) (by omega))]
  exact ByteMemory.writeBytes_inside hi

theorem processMapElf_segments_sample : ∃ (m : ByteMemory) (S : Space), Holds m S ∧
    (processMapElf S.vspace sampleFile (fun _ _ ↦ 0) m).1 = success ∧
    SegmentByte (processMapElf S.vspace sampleFile (fun _ _ ↦ 0) m).2 S sampleFile samplePhdr 3 := by
  obtain ⟨m, S, hS, hm, hoff⟩ := spaceBeside sampleImage (by decide)
  have hbytes : ∀ a, sampleFile.data ≤ a → a < sampleFile.data + sampleFile.fileSize →
      m a = ByteMemory.writeBytes (fun _ ↦ 0) kernelHeapBase sampleImage a := by
    intro a h₁ h₂
    obtain ⟨i, rfl⟩ := Nat.exists_eq_add_of_le h₁
    have hi : i < sampleImage.length := by
      change _ < sampleFile.data + 92 at h₂
      change i < 92
      omega
    exact (hm i hi).trans (ByteMemory.writeBytes_inside hi).symm
  have hview := view_eq hbytes (fun _ ↦ 0)
  have hnum : (elfGetEhdr (sampleFile.view (fun _ ↦ 0) m) sampleFile).ePhnum = 1 := by
    rw [hview]
    decide +kernel
  have hph : elfGetPhdr (sampleFile.view (fun _ ↦ 0) m) sampleFile 0 = samplePhdr := by
    rw [hview]
    decide +kernel
  obtain ⟨h₁, h₂, -⟩ := @processMapElf_segments _ _ sampleFile (fun _ _ ↦ 0)
    (fun _ ↦ 0) hS (fun a h₁ h₂ ↦ hoff a h₁ (Nat.lt_trans h₂ (by decide))) (by decide)
    (by decide) ⟨by decide, by rw [hview]; decide +kernel⟩
    (fun n hn ↦ by
      rw [hnum, Nat.lt_one_iff] at hn
      rw [hn, hph]
      exact ⟨by decide, by decide, by decide, by decide⟩)
    (fun j hj k hk hne ↦ by omega)
  refine ⟨m, S, hS, h₁, ?_⟩
  have h := h₂ 0 (by omega) 3 (by rw [hph]; decide)
  rwa [hph] at h

end GammaOS.Kernel
