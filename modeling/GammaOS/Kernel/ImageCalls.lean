import GammaOS.Kernel.ProcessMap
import GammaOS.Loader.FileVolume

namespace GammaOS.Kernel

open Foundation Memory Paging Loader

def imageEhdr (content : List UInt8) : Elf32Ehdr := .ofBytes (fun i ↦ content.getD i 0) 0

def imagePhdr (content : List UInt8) (index : ℕ) : Elf32Phdr :=
  .ofBytes (fun i ↦ content.getD i 0) ((imageEhdr content).ePhoff + phdrSize * index)

structure Image (content : List UInt8) : Prop where
  ehdr : ehdrSize ≤ content.length
  length_le : content.length ≤ 512
  table : (imageEhdr content).ePhoff + phdrSize * (imageEhdr content).ePhnum ≤ content.length
  segments : ∀ n < (imageEhdr content).ePhnum,
    (imagePhdr content n).pOffset + (imagePhdr content n).pMemsz < 2 ^ 31

instance (content : List UInt8) : Decidable (Image content) :=
  decidable_of_iff (ehdrSize ≤ content.length ∧ content.length ≤ 512 ∧
    (imageEhdr content).ePhoff + phdrSize * (imageEhdr content).ePhnum ≤ content.length ∧
    ∀ n < (imageEhdr content).ePhnum,
      (imagePhdr content n).pOffset + (imagePhdr content n).pMemsz < 2 ^ 31)
    ⟨fun ⟨h₁, h₂, h₃, h₄⟩ ↦ ⟨h₁, h₂, h₃, h₄⟩, fun ⟨h₁, h₂, h₃, h₄⟩ ↦ ⟨h₁, h₂, h₃, h₄⟩⟩

structure HoldsImage (content : List UInt8) (m : ByteMemory) (elfFile : ElfFile) : Prop where
  aligned : elfFile.data % pageSize = 0
  base_le : kernelHeapBase ≤ elfFile.data
  data_le : elfFile.data + pageSize ≤ kernelHeapBase + kernelHeapSize
  fileSize : elfFile.fileSize = content.length
  bytes : ∀ i < content.length, m (elfFile.data + i) = content.getD i 0

variable {content : List UInt8} {m : ByteMemory} {elfFile : ElfFile} {alien : ByteMemory}
  {mapped : ℕ → ByteMemory} {c : MapCall}

theorem HoldsImage.view (h : HoldsImage content m elfFile) {i : ℕ} (hi : i < content.length) :
    elfFile.view alien m (elfFile.data + i) = content.getD i 0 := by
  have hsize := h.fileSize
  rw [view_inside (Nat.le_add_right _ _) (by omega), h.bytes i hi]

theorem HoldsImage.ehdr_eq (h : HoldsImage content m elfFile) (hc : Image content) :
    elfGetEhdr (elfFile.view alien m) elfFile = imageEhdr content := by
  have hlen := hc.ehdr
  exact ofBytes_ehdr_congr (fun i hi ↦ by rw [h.view (by omega), Nat.zero_add])

theorem HoldsImage.inside (h : HoldsImage content m elfFile) (hc : Image content) :
    TableInside (elfFile.view alien m) elfFile := by
  refine ⟨h.fileSize ▸ hc.ehdr, ?_⟩
  rw [h.ehdr_eq hc, h.fileSize]
  exact hc.table

theorem HoldsImage.end_le (h : HoldsImage content m elfFile) (hc : Image content) :
    elfFile.data + elfFile.fileSize ≤ 2 ^ 32 := by
  have hle := h.data_le
  have hlen := hc.length_le
  rw [h.fileSize]
  unfold kernelHeapBase kernelHeapSize pageSize at hle
  omega

theorem HoldsImage.phdr_eq (h : HoldsImage content m elfFile) (hc : Image content) {n : ℕ}
    (hn : n < (imageEhdr content).ePhnum) :
    elfGetPhdr (elfFile.view alien m) elfFile n = imagePhdr content n := by
  have hlt : n < (elfGetEhdr (elfFile.view alien m) elfFile).ePhnum := by
    rwa [h.ehdr_eq hc]
  obtain ⟨haddr, hin⟩ := phdrAddr_inside (h.inside hc) (h.end_le hc) hlt
  rw [h.ehdr_eq hc] at haddr
  rw [haddr, h.fileSize] at hin
  rw [elfGetPhdr, haddr, imagePhdr]
  refine ofBytes_phdr_congr (fun i hi ↦ ?_)
  have hview := @HoldsImage.view _ _ _ alien h
    ((imageEhdr content).ePhoff + phdrSize * n + i) (by omega)
  rw [← hview]
  exact congrArg _ (by omega)

theorem HoldsImage.mem_calls (h : HoldsImage content m elfFile) (hc : Image content) :
    c ∈ elfCalls mapped m elfFile ↔
      ∃ n < (imageEhdr content).ePhnum, c = phdrCall elfFile (imagePhdr content n) := by
  rw [@mem_elfCalls _ _ _ (fun _ ↦ 0) (h.inside hc) (h.end_le hc), h.ehdr_eq hc]
  exact exists_congr (fun n ↦ and_congr_right (fun hn ↦ by rw [h.phdr_eq hc hn]))

theorem HoldsImage.accepted (h : HoldsImage content m elfFile) (hc : Image content) :
    ∀ c ∈ elfCalls mapped m elfFile, c.Accepted := by
  intro c hmem
  obtain ⟨n, hn, rfl⟩ := (h.mem_calls hc).mp hmem
  have hseg := hc.segments n hn
  have hle := h.data_le
  unfold kernelHeapBase kernelHeapSize at hle
  have hoff : u32 (elfFile.data + (imagePhdr content n).pOffset) =
      elfFile.data + (imagePhdr content n).pOffset := u32_of_lt (by omega)
  have hend : u32 (elfFile.data + (imagePhdr content n).pOffset + (imagePhdr content n).pMemsz) =
      elfFile.data + (imagePhdr content n).pOffset + (imagePhdr content n).pMemsz :=
    u32_of_lt (by omega)
  refine ⟨alignToPageLower_aligned _, alignToPageLower_aligned _, alignToPageUpper_aligned _, ?_⟩
  unfold phdrCall
  dsimp only
  rw [hoff, hend, alignToPageUpper_eq (by unfold pageSize; omega)]
  have hlow := alignToPageLower_le (elfFile.data + (imagePhdr content n).pOffset)
  unfold pageSize
  omega

end GammaOS.Kernel
