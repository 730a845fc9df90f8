import GammaOS.Kernel.ProcessLoad
import GammaOS.Paging.MapCalls

namespace GammaOS.Kernel

open Foundation Memory Paging Loader

def taskStackSize : ℕ := 16384
def taskDefaultStackBegin : ℕ := 0x3FF000
def taskDefaultStackEnd : ℕ := taskDefaultStackBegin - taskStackSize

def processMapBinary (vspace rawData size : ℕ) (m : ByteMemory) : ℤ × ByteMemory :=
  let r := pagingMapRange m vspace taskDefaultStart rawData
    (pagingAlignToPageUpper (u32 (rawData + size)))
    (pageWriteAccess ||| pagePresent ||| pageUserAccess)
  if r.1 < 0 then (-errProcessMappingFailed, r.2) else (success, r.2)

def phdrCall (elfFile : ElfFile) (phdr : Elf32Phdr) : MapCall where
  vaddr := pagingAlignToPageLower phdr.pVaddr
  paddr := pagingAlignToPageLower (u32 (elfFile.data + phdr.pOffset))
  endaddr := pagingAlignToPageUpper (u32 (u32 (elfFile.data + phdr.pOffset) + phdr.pMemsz))
  flags := if phdr.pFlags &&& pfW ≠ 0 then pagePresent ||| pageUserAccess ||| pageWriteAccess
    else pagePresent ||| pageUserAccess

/-- The loop of `process_map_elf` with a bound on its turns. The headers are
read from the memory as the turns before have left it. -/
def mapElfLoop (vspace : ℕ) (elfFile : ElfFile) (alien : ℕ → ByteMemory) :
    ℕ → ℕ → ByteMemory → ℤ × ByteMemory
  | 0, _, m => (success, m)
  | n + 1, nphdr, m =>
    let b := elfFile.view (alien nphdr) m
    if nphdr < (elfGetEhdr b elfFile).ePhnum then
      let c := phdrCall elfFile (elfGetPhdr b elfFile nphdr)
      let r := pagingMapRange m vspace c.vaddr c.paddr c.endaddr c.flags
      if r.1 < 0 then (-errProcessMappingFailed, r.2)
      else mapElfLoop vspace elfFile alien n (nphdr + 1) r.2
    else (success, m)

def processMapElf (vspace : ℕ) (elfFile : ElfFile) (alien : ℕ → ByteMemory) (m : ByteMemory) :
    ℤ × ByteMemory :=
  mapElfLoop vspace elfFile alien (2 ^ 16) 0 m

def processMapMemory (alien : ℕ → ByteMemory) (vspace : ℕ) (data : ProcessData) (stack : ℕ)
    (m : ByteMemory) : ℤ × ByteMemory :=
  let r := match data with
    | .bin rawData size => processMapBinary vspace rawData size m
    | .elf elfData => processMapElf vspace elfData alien m
  if r.1 < 0 then r
  else
    pagingMapRange r.2 vspace taskDefaultStackEnd stack
      (pagingAlignToPageUpper (u32 (stack + taskStackSize)))
      (pagePresent ||| pageUserAccess ||| pageWriteAccess)

/-- The calls that the loop of `process_map_elf` makes while the bytes it reads
headers from stay as they are. -/
def phdrCalls (view : ℕ → ByteMemory) (elfFile : ElfFile) : ℕ → ℕ → List MapCall
  | 0, _ => []
  | n + 1, nphdr =>
    if nphdr < (elfGetEhdr (view nphdr) elfFile).ePhnum then
      phdrCall elfFile (elfGetPhdr (view nphdr) elfFile nphdr) ::
        phdrCalls view elfFile n (nphdr + 1)
    else []

def elfCalls (alien : ℕ → ByteMemory) (m : ByteMemory) (elfFile : ElfFile) : List MapCall :=
  phdrCalls (fun k ↦ elfFile.view (alien k) m) elfFile (2 ^ 16) 0

variable {S : Space} {m m' b : ByteMemory} {elfFile : ElfFile} {alien : ℕ → ByteMemory}
  {view : ℕ → ByteMemory} {phdr : Elf32Phdr} {v n : ℕ}

def BufferOff (S : Space) (elfFile : ElfFile) : Prop :=
  ∀ a, elfFile.data ≤ a → a < elfFile.data + elfFile.fileSize → S.OffTables a

theorem success_not_neg : ¬ (success : ℤ) < 0 := by decide

theorem mappingFailed_neg : -(errProcessMappingFailed : ℤ) < 0 := by decide

theorem phdrCall_valid (hv : phdr.pVaddr < 2 ^ 32) : (phdrCall elfFile phdr).Valid where
  vaddr_lt := Nat.lt_of_le_of_lt (alignToPageLower_le _) hv
  paddr_lt := Nat.lt_of_le_of_lt (alignToPageLower_le _) (u32_lt _)
  endaddr_lt := alignToPageUpper_lt (u32_lt _)
  flags_lt := by
    unfold phdrCall
    dsimp only
    split <;> decide

theorem phdrCalls_eq : ∀ n k, ∀ c ∈ phdrCalls view elfFile n k,
    ∃ j, c = phdrCall elfFile (elfGetPhdr (view j) elfFile j) := by
  intro n
  induction n with
  | zero => intro k c hc; cases hc
  | succ n ih =>
    intro k c hc
    rw [phdrCalls] at hc
    split at hc
    · rcases List.mem_cons.mp hc with rfl | hc
      · exact ⟨k, rfl⟩
      · exact ih (k + 1) c hc
    · cases hc

theorem phdrCalls_valid (n k : ℕ) : ∀ c ∈ phdrCalls view elfFile n k, c.Valid := by
  intro c hc
  obtain ⟨j, rfl⟩ := phdrCalls_eq n k c hc
  exact phdrCall_valid (ByteMemory.load32_lt _ _)

theorem elfCalls_valid : ∀ c ∈ elfCalls alien m elfFile, c.Valid := phdrCalls_valid _ _

theorem view_eq (h : ∀ a, elfFile.data ≤ a → a < elfFile.data + elfFile.fileSize → m' a = m a)
    (alien : ByteMemory) : elfFile.view alien m' = elfFile.view alien m := by
  funext a
  unfold ElfFile.view
  split
  · exact h a (by omega) (by omega)
  · rfl

theorem mapElfLoop_eq (hb : BufferOff S elfFile) (m₀ : ByteMemory) : ∀ n k (m : ByteMemory),
    Holds m S → (∀ a, elfFile.data ≤ a → a < elfFile.data + elfFile.fileSize → m a = m₀ a) →
    mapElfLoop S.vspace elfFile alien n k m =
      (if (mapCalls S.vspace (phdrCalls (fun k ↦ elfFile.view (alien k) m₀) elfFile n k) m).1
        then (success : ℤ) else -errProcessMappingFailed,
        (mapCalls S.vspace (phdrCalls (fun k ↦ elfFile.view (alien k) m₀) elfFile n k) m).2) := by
  intro n
  induction n with
  | zero => exact fun k m _ _ ↦ rfl
  | succ n ih =>
    intro k m h hm
    rw [mapElfLoop, phdrCalls, view_eq hm]
    dsimp only
    by_cases hk : k < (elfGetEhdr (elfFile.view (alien k) m₀) elfFile).ePhnum
    · rw [if_pos hk, if_pos hk]
      have hval : (phdrCall elfFile (elfGetPhdr (elfFile.view (alien k) m₀) elfFile k)).Valid :=
        phdrCall_valid (ByteMemory.load32_lt _ _)
      generalize phdrCall elfFile (elfGetPhdr (elfFile.view (alien k) m₀) elfFile k) = c at hval
      rw [mapCalls]
      by_cases hacc : c.Accepted
      · have hrun := ih (k + 1) (c.run S.vspace m) (c.run_entries hval h).1
          (fun a h₁ h₂ ↦ (c.run_outside hval h (hb a h₁ h₂)).trans (hm a h₁ h₂))
        rw [if_pos hacc, if_neg (by rw [c.accepted hacc]; exact success_not_neg), ← hrun]
        rfl
      · rw [if_neg hacc, c.refused hacc, if_pos mappingFailed_neg]
        rfl
    · rw [if_neg hk, if_neg hk]
      rfl

theorem processMapElf_eq (h : Holds m S) (hb : BufferOff S elfFile) :
    processMapElf S.vspace elfFile alien m =
      (if (mapCalls S.vspace (elfCalls alien m elfFile) m).1
        then (success : ℤ) else -errProcessMappingFailed,
        (mapCalls S.vspace (elfCalls alien m elfFile) m).2) :=
  mapElfLoop_eq hb m _ _ m h (fun _ _ _ ↦ rfl)

theorem mem_phdrCalls {phnum : ℕ} {ph : ℕ → Elf32Phdr} {c : MapCall}
    (hnum : ∀ k, (elfGetEhdr (view k) elfFile).ePhnum = phnum)
    (hph : ∀ k < phnum, elfGetPhdr (view k) elfFile k = ph k) : ∀ n k, phnum ≤ k + n →
      (c ∈ phdrCalls view elfFile n k ↔ ∃ j, k ≤ j ∧ j < phnum ∧ c = phdrCall elfFile (ph j)) := by
  intro n
  induction n with
  | zero =>
    intro k hk
    exact iff_of_false List.not_mem_nil (fun ⟨j, h₁, h₂, _⟩ ↦ by omega)
  | succ n ih =>
    intro k hk
    rw [phdrCalls, hnum]
    by_cases hlt : k < phnum
    · rw [if_pos hlt, hph k hlt, List.mem_cons, ih (k + 1) (by omega)]
      constructor
      · rintro (rfl | ⟨j, h₁, h₂, rfl⟩)
        · exact ⟨k, Nat.le_refl k, hlt, rfl⟩
        · exact ⟨j, by omega, h₂, rfl⟩
      · rintro ⟨j, h₁, h₂, rfl⟩
        rcases Nat.eq_or_lt_of_le h₁ with rfl | h₁
        · exact Or.inl rfl
        · exact Or.inr ⟨j, h₁, h₂, rfl⟩
    · rw [if_neg hlt]
      exact iff_of_false List.not_mem_nil (fun ⟨j, h₁, h₂, _⟩ ↦ by omega)

theorem mem_elfCalls {alien₀ : ByteMemory} (ht : TableInside (elfFile.view alien₀ m) elfFile)
    (hend : elfFile.data + elfFile.fileSize ≤ 2 ^ 32) {c : MapCall} :
    c ∈ elfCalls alien m elfFile ↔ ∃ j < (elfGetEhdr (elfFile.view alien₀ m) elfFile).ePhnum,
      c = phdrCall elfFile (elfGetPhdr (elfFile.view alien₀ m) elfFile j) := by
  have hlt := @ePhnum_lt (elfFile.view alien₀ m) elfFile
  rw [elfCalls, mem_phdrCalls (fun k ↦ by rw [elfGetEhdr_congr ht.ehdr (fun _ _ _ ↦ rfl)])
    (fun k hk ↦ elfGetPhdr_congr ht hend (fun _ _ _ ↦ rfl) hk) _ _ (by omega)]
  exact exists_congr (fun j ↦ by simp)

def roundUp (a : ℕ) : ℕ := (a + (pageSize - 1)) / pageSize * pageSize

def InRange (phdr : Elf32Phdr) (v : ℕ) : Prop :=
  pagingAlignToPageLower phdr.pVaddr ≤ v ∧ v < roundUp (phdr.pVaddr + phdr.pMemsz)

/-- A program header whose segment can be mapped page by page from the file at
its buffer. -/
structure Segment (elfFile : ElfFile) (phdr : Elf32Phdr) : Prop where
  filesz_le : phdr.pFilesz ≤ phdr.pMemsz
  congruent : phdr.pOffset % pageSize = phdr.pVaddr % pageSize
  vaddr_end : roundUp (phdr.pVaddr + phdr.pMemsz) < 2 ^ 32
  paddr_end : roundUp (u32 (elfFile.data + phdr.pOffset) + phdr.pMemsz) < 2 ^ 32

theorem Segment.call (h : Segment elfFile phdr) (ha : elfFile.data % pageSize = 0) :
    (phdrCall elfFile phdr).Accepted ∧ ∀ v < 2 ^ 32, v % pageSize = 0 →
      ((phdrCall elfFile phdr).Covers v ↔ InRange phdr v) ∧
      (InRange phdr v → (phdrCall elfFile phdr).valueAt v =
        (u32 (elfFile.data + phdr.pOffset) - phdr.pVaddr % pageSize +
          (v - pagingAlignToPageLower phdr.pVaddr)) ||| (phdrCall elfFile phdr).flags) := by
  have hc := h.congruent
  have hv := h.vaddr_end
  have hp := h.paddr_end
  unfold roundUp at hv hp
  have hmod : u32 (elfFile.data + phdr.pOffset) % pageSize = phdr.pVaddr % pageSize := by
    rw [← hc]
    unfold u32
    unfold pageSize at *
    omega
  have hlt := u32_lt (elfFile.data + phdr.pOffset)
  have hend : pagingAlignToPageUpper (u32 (u32 (elfFile.data + phdr.pOffset) + phdr.pMemsz)) =
      roundUp (u32 (elfFile.data + phdr.pOffset) + phdr.pMemsz) := by
    rw [u32_of_lt (by unfold pageSize at hp; omega)]
    exact alignToPageUpper_eq hp
  generalize hphys : u32 (elfFile.data + phdr.pOffset) = phys at hmod hlt hend hp ⊢
  have hlow := alignToPageLower_eq phdr.pVaddr
  have hlow' := alignToPageLower_eq phys
  unfold MapCall.Covers MapCall.valueAt InRange phdrCall
  simp only [hphys, hend]
  refine ⟨⟨alignToPageLower_aligned _, alignToPageLower_aligned _, ?_, ?_⟩, fun v hv' hva ↦ ⟨?_, ?_⟩⟩
  · change roundUp (phys + phdr.pMemsz) % pageSize = 0
    exact Nat.mul_mod_left _ _
  · change pagingAlignToPageLower phys ≤ roundUp (phys + phdr.pMemsz)
    rw [hlow']
    unfold roundUp
    unfold pageSize at *
    omega
  · rw [hlow, hlow']
    unfold subU32 u32 roundUp
    unfold pageSize at *
    omega
  · intro hin
    rw [hlow', hmod, subU32_of_le hin.1 hv']

end GammaOS.Kernel
