import GammaOS.Fs.VfsFrame
import GammaOS.Kernel.ProcessLoad

namespace GammaOS.Kernel

open Function Foundation Foundation.Program Memory Fs Loader

def ProcessData.blocks : ProcessData → List (ℕ × ℕ)
  | .elf elfData => [(elfData.data, elfData.fileSize), (elfData.addr, elfFileSize)]
  | .bin rawData size => [(rawData, size)]

def ProcessData.runs (data : ProcessData) : List Run := data.blocks.map (fun b ↦ blockRun b.1 b.2)

variable {σ : Type} [Allocator σ] {s t : Vfs σ Fat16Files} {env : LoadEnv} {filename : List UInt8}
  {fd x : ℤ} {elfFile : ElfFile} {r : Run} {s₀ : Arena σ}

structure DataTaken (s t : Arena σ) (data : ProcessData) : Prop where
  block : ∀ b ∈ data.blocks, Block t b.1 b.2
  taken : Taken s t data.runs

structure LoadFrame (s t : Vfs σ Fat16Files) : Prop where
  grows : Grows s.drive.arena t.drive.arena
  disks : t.disks = s.disks

/-- A descriptor whose close leaves the run alone, with the run as it was. -/
structure Beside (r : Run) (fd : ℤ) (s₀ : Arena σ) (s : Vfs σ Fat16Files) : Prop where
  kept : Kept r s₀ s.drive.arena
  off : FdOff r fd s

section Lawful

variable [LawfulAllocator σ]

theorem Beside.alloc (h : Beside r fd s₀ s) {n p : ℕ}
    (hz : onDrive (onArena (kzalloc n)) s = .ok (p, t)) : Beside r fd s₀ t ∧ Off r p := by
  have hoff := h.off.onHeap hz
  obtain ⟨b, hb, rfl⟩ := onHeapDrive_eq_ok hz
  obtain ⟨hk, hp⟩ := kzalloc_kept n _ h.kept _ _ hb
  exact ⟨⟨hk, hoff⟩, hp⟩

theorem Beside.free (h : Beside r fd s₀ s) {p : ℕ} {u : Unit} (hp : Off r p)
    (hz : onDrive (onArena (kfree p)) s = .ok (u, t)) : Beside r fd s₀ t := by
  have hoff := h.off.onHeap hz
  obtain ⟨b, hb, rfl⟩ := onHeapDrive_eq_ok hz
  exact ⟨kfree_kept hp _ h.kept _ _ hb, hoff⟩

omit [Allocator σ] [LawfulAllocator σ] in
theorem onHeapDrive_disks {α : Type} {m : ArenaM σ α} {y : α}
    (h : onDrive (onArena m) s = .ok (y, t)) : t.disks = s.disks := by
  obtain ⟨b, -, rfl⟩ := onHeapDrive_eq_ok h
  rfl

theorem fopen_beside (hm : Fat16Mounted s) {alien : ByteMemory} {mode : UInt8}
    (h : vfsFopen alien filename mode s = .ok (fd, t)) (hfd : 0 ≤ fd)
    (hk : Kept r s₀ s.drive.arena) : Beside r fd s₀ t := by
  obtain ⟨hk', hoff⟩ := fopen_kept hm h hk
  exact ⟨hk', hoff hfd⟩

theorem fopen_grows (hm : Fat16Mounted s) {alien : ByteMemory} {mode : UInt8}
    (h : vfsFopen alien filename mode s = .ok (fd, t)) : Grows s.drive.arena t.drive.arena :=
  fun _ hq ↦ (fopen_kept hm h (Kept.refl hq)).1

theorem Beside.load (h : Beside r fd s₀ s) (hfd : IsInt32 fd) {size data : ℕ} {u : Vfs σ Fat16Files}
    (hsize : size < 2 ^ 32) (hz : onDrive (onArena (kzalloc size)) s = .ok (data, t))
    (hdata : data ≠ 0) (hr : vfsFread data size 1 fd t = .ok (x, u)) : Beside r fd s₀ u := by
  have hoff := h.off.onHeap hz
  obtain ⟨b, hb, rfl⟩ := onHeapDrive_eq_ok hz
  have g := kzalloc_granted hb hdata
  have hlt := g.block.lt
  have hin := g.inside
  have hle := lt_blocksOf (u32 size)
  rw [u32_of_lt hsize] at hle hin
  obtain ⟨hk, -, hclear⟩ := kzalloc_clear size _ h.kept _ _ hb
  refine ⟨read_kept (fun d hd ↦ (hoff d hd).1) hfd hlt (by omega) ?_ hr hk, hoff.read hfd hr⟩
  exact (hclear hdata).mono (by rwa [u32_of_lt hsize])

theorem fileLoaded_frame (hm : Fat16Mounted s) (henv : env.stat.size < 2 ^ 32)
    (h : FileLoaded env filename s fd elfFile t) :
    LoadFrame s t ∧ DataTaken s.drive.arena t.drive.arena (.elf elfFile) ∧
      elfFile.fileSize < 2 ^ 32 := by
  cases h with
  | @mk st read addr data stat s₁ s₂ s₃ s₄ t h₁ hfd h₂ haddr h₃ h₄ hdata h₅ hread =>
  obtain ⟨hint, hopen⟩ := fopen_opened hm h₁ hfd
  obtain ⟨a, ha, he⟩ := onHeapDrive_eq_ok h₂
  have ha₂ : s₂.drive.arena = a := by rw [he]
  rw [← ha₂] at ha
  have hgrow := kzalloc_grows ha
  obtain ⟨hs₃, hst⟩ := (hopen.onHeap h₂ (fun q hq ↦ (hgrow q hq).live)).stat hint h₃
  subst hs₃
  have hsize : (stat.getD env.stat).size < 2 ^ 32 := by
    cases stat with
    | none => exact henv
    | some f => exact hst f rfl
  generalize (stat.getD env.stat).size = size at h₄ h₅ hsize ⊢
  obtain ⟨haddrBlock, haddrTaken⟩ := kzalloc_taken ha haddr
  have hkeep : ∀ q ∈ s.drive.arena.live, Beside q fd s.drive.arena s₃ :=
    fun q hq ↦ ((fopen_beside hm h₁ hfd (Kept.refl hq)).alloc h₂).1
  have hself : Beside (blockRun addr elfFileSize) fd s₃.drive.arena s₃ := by
    refine ⟨Kept.refl haddrBlock.live, (hopen.off ?_ ?_).onHeap h₂⟩
    · exact haddrTaken.fresh _ (List.mem_singleton_self _)
    · exact LawfulAllocator.positive _ _ haddrBlock.live
  obtain ⟨b, hb, he₄⟩ := onHeapDrive_eq_ok h₄
  obtain ⟨hdataBlock, hdataTaken⟩ := kzalloc_taken hb hdata
  have hgrow₁ : Grows s.drive.arena s₃.drive.arena := fun q hq ↦ (hkeep q hq).kept
  obtain ⟨-, hheap, -, hd₅⟩ := read_state
    (fun d hd ↦ ((hself.off.onHeap h₄) d hd).1) hint h₅
  have hlive : t.drive.arena.live = b.live := by
    rw [Arena.live, hheap, he₄]
    rfl
  have hdataLive : blockRun data size ∈ t.drive.arena.live := hlive ▸ hdataBlock.live
  have hgrow₂ : Grows s.drive.arena b := by
    have hb' : s₄.drive.arena = b := by rw [he₄]
    exact fun q hq ↦ hb' ▸ ((hkeep q hq).alloc h₄).1.kept
  have hself₂ : Kept (blockRun addr elfFileSize) s₃.drive.arena b := by
    have hb' : s₄.drive.arena = b := by rw [he₄]
    exact hb' ▸ (hself.alloc h₄).1.kept
  have hstruct := (hself.load hint hsize h₄ hdata h₅).kept
  have hboth := (haddrTaken.after (fopen_grows hm h₁)).append hdataTaken
    (fun q hq ↦ (hkeep q hq).kept) (List.forall_mem_singleton.mpr hself₂)
  refine ⟨⟨fun q hq ↦ ((hkeep q hq).load hint hsize h₄ hdata h₅).kept, ?_⟩, ⟨?_, ?_⟩, hsize⟩
  · rw [hd₅, onHeapDrive_disks h₄, onHeapDrive_disks h₂, fopen_disks h₁]
  · refine List.forall_mem_cons.mpr ⟨hdataBlock.keep hdataLive, ?_⟩
    exact List.forall_mem_singleton.mpr (haddrBlock.keep hstruct.live)
  · refine hboth.mono (List.forall_mem_cons.mpr ⟨hdataLive, ?_⟩)
    exact List.forall_mem_singleton.mpr hstruct.live

omit [LawfulAllocator σ] in
theorem Beside.stat (h : Beside r fd s₀ s) (hfd : IsInt32 fd) {st : Option FileStat}
    (hr : vfsFstat fd s = .ok ((x, st), t)) : t = s := by
  have hdel := vfsFstat_delegates hfd hr
  cases hd : s.openAt fd with
  | none => exact delegates_none hdel hd
  | some d =>
    obtain ⟨y, u, hy, rfl⟩ := delegates_some hdel hd
    obtain ⟨⟨v, hv⟩, -⟩ := h.off d hd
    rw [hv] at hy
    have hstate : u = s.drive := fat16Stat_state hy
    rw [hstate]

theorem Beside.close (h : Beside r fd s₀ s) (hfd : IsInt32 fd)
    (hc : vfsFclose fd s = .ok (x, t)) : Kept r s₀ t.drive.arena :=
  fclose_kept h.off hfd hc h.kept

omit [Allocator σ] [LawfulAllocator σ] in
theorem fclose_disks (hfd : IsInt32 fd) (hc : vfsFclose fd s = .ok (x, t)) :
    t.disks = s.disks := by
  have h := vfsFclose_cases hfd hc
  cases hd : s.openAt fd with
  | none =>
    rw [hd] at h
    rw [h.2]
  | some d =>
    rw [hd] at h
    obtain ⟨y, u, -, rfl⟩ := h
    rfl

omit [LawfulAllocator σ] in
theorem stat_size (h : Opened s fd) (hfd : IsInt32 fd) (henv : env.stat.size < 2 ^ 32)
    {st : Option FileStat} (hr : vfsFstat fd s = .ok ((x, st), t)) :
    (st.getD env.stat).size < 2 ^ 32 := by
  have hst := (h.stat hfd hr).2
  cases st with
  | none => exact henv
  | some f => exact hst f rfl

theorem opened_alloc (h : Opened s fd) {n p : ℕ}
    (hz : onDrive (onArena (kzalloc n)) s = .ok (p, t)) : Opened t fd := by
  refine h.onHeap hz (fun q hq ↦ ?_)
  obtain ⟨b, hb, rfl⟩ := onHeapDrive_eq_ok hz
  exact (kzalloc_grows hb q hq).live

theorem gloaderLoadElf_opened (hm : Fat16Mounted s) (henv : env.stat.size < 2 ^ 32)
    {y : ℤ × Option ElfFile} (h : gloaderLoadElf env filename s = .ok (y, t)) :
    ∃ fd s₁, vfsFopen env.path filename modeRead s = .ok (fd, s₁) ∧ t.disks = s.disks ∧
      ∀ (r : Run) (s₀ : Arena σ), Kept r s₀ s₁.drive.arena → (0 ≤ fd → FdOff r fd s₁) →
        Kept r s₀ t.drive.arena := by
  cases gloaderLoadElf_result h with
  | unopened h₁ _ => exact ⟨_, _, h₁, fopen_disks h₁, fun r s₀ hk _ ↦ hk⟩
  | noStruct h₁ hfd h₂ hc =>
    have hint := (fopen_opened hm h₁ hfd).1
    refine ⟨_, _, h₁, ?_, fun r s₀ hk hoff ↦ ?_⟩
    · rw [fclose_disks hint hc, onHeapDrive_disks h₂, fopen_disks h₁]
    · exact ((Beside.mk hk (hoff hfd)).alloc h₂).1.close hint hc
  | noBuffer h₁ hfd h₂ haddr h₃ h₄ h₅ hc =>
    obtain ⟨hint, hopen⟩ := fopen_opened hm h₁ hfd
    cases ((opened_alloc hopen h₂).stat hint h₃).1
    refine ⟨_, _, h₁, ?_, fun r s₀ hk hoff ↦ ?_⟩
    · rw [fclose_disks hint hc, onHeapDrive_disks h₅, onHeapDrive_disks h₄, onHeapDrive_disks h₂,
        fopen_disks h₁]
    · obtain ⟨hb, hoff'⟩ := (Beside.mk hk (hoff hfd)).alloc h₂
      exact ((hb.alloc h₄).1.free hoff' h₅).close hint hc
  | unread h₁ hfd h₂ haddr h₃ h₄ hdata h₅ hread h₆ h₇ hc =>
    obtain ⟨hint, hopen⟩ := fopen_opened hm h₁ hfd
    have hsize := stat_size (opened_alloc hopen h₂) hint henv h₃
    cases ((opened_alloc hopen h₂).stat hint h₃).1
    have hopen₄ := opened_alloc (opened_alloc hopen h₂) h₄
    refine ⟨_, _, h₁, ?_, fun r s₀ hk hoff ↦ ?_⟩
    · rw [fclose_disks hint hc, onHeapDrive_disks h₇, onHeapDrive_disks h₆,
        (read_state hopen₄.fat16 hint h₅).2.2.2, onHeapDrive_disks h₄, onHeapDrive_disks h₂,
        fopen_disks h₁]
    · obtain ⟨hb, hoff₁⟩ := (Beside.mk hk (hoff hfd)).alloc h₂
      have hoff₂ := (hb.alloc h₄).2
      exact (((hb.load hint hsize h₄ hdata h₅).free hoff₁ h₆).free hoff₂ h₇).close hint hc
  | loaded hf =>
    obtain ⟨h₁, hfd, h₂, haddr, h₃, h₄, hdata, h₅, hread⟩ := hf
    obtain ⟨hint, hopen⟩ := fopen_opened hm h₁ hfd
    have hsize := stat_size (opened_alloc hopen h₂) hint henv h₃
    cases ((opened_alloc hopen h₂).stat hint h₃).1
    have hopen₄ := opened_alloc (opened_alloc hopen h₂) h₄
    refine ⟨_, _, h₁, ?_, fun r s₀ hk hoff ↦ ?_⟩
    · rw [(read_state hopen₄.fat16 hint h₅).2.2.2, onHeapDrive_disks h₄, onHeapDrive_disks h₂,
        fopen_disks h₁]
    · exact (((Beside.mk hk (hoff hfd)).alloc h₂).1.load hint hsize h₄ hdata h₅).kept

theorem gloaderLoadElf_frame (hm : Fat16Mounted s) (henv : env.stat.size < 2 ^ 32)
    {y : ℤ × Option ElfFile} (h : gloaderLoadElf env filename s = .ok (y, t)) : LoadFrame s t := by
  obtain ⟨fd, s₁, h₁, hdisks, hkeep⟩ := gloaderLoadElf_opened hm henv h
  refine ⟨fun q hq ↦ ?_, hdisks⟩
  obtain ⟨hk, hoff⟩ := fopen_kept hm h₁ (Kept.refl hq)
  exact hkeep q _ hk hoff

structure LoadResultFrame (s t : Vfs σ Fat16Files) (y : ℤ × Option ProcessData) : Prop where
  frame : LoadFrame s t
  loaded : 0 ≤ y.1 → ∃ data, y.2 = some data ∧ DataTaken s.drive.arena t.drive.arena data ∧
    ∀ b ∈ data.blocks, b.2 < 2 ^ 32

theorem processLoadBinary_frame (hm : Fat16Mounted s) (henv : env.stat.size < 2 ^ 32)
    {y : ℤ × Option ProcessData} (h : processLoadBinary env filename s = .ok (y, t)) :
    LoadResultFrame s t y := by
  obtain ⟨fd, s₁, h₁, h⟩ := bind_eq_ok.mp h
  by_cases hfd : fd < 0
  · rw [if_pos hfd] at h
    cases h
    exact ⟨⟨fopen_grows hm h₁, fopen_disks h₁⟩, fun hc ↦ absurd hc (by decide)⟩
  rw [if_neg hfd] at h
  have hfd' : 0 ≤ fd := by omega
  obtain ⟨hint, hopen⟩ := fopen_opened hm h₁ hfd'
  have hbeside : ∀ q ∈ s.drive.arena.live, Beside q fd s.drive.arena s₁ :=
    fun q hq ↦ fopen_beside hm h₁ hfd' (Kept.refl hq)
  obtain ⟨⟨status, stat⟩, s₂, h₂, h⟩ := bind_eq_ok.mp h
  have hsize := stat_size hopen hint henv h₂
  cases (hopen.stat hint h₂).1
  dsimp only at h
  generalize (stat.getD env.stat).size = size at h hsize
  by_cases hst : status = -errFdNotFound
  · rw [if_pos hst] at h
    obtain ⟨z, s₃, hc, h⟩ := bind_eq_ok.mp h
    cases h
    refine ⟨⟨fun q hq ↦ (hbeside q hq).close hint hc, ?_⟩, fun hc ↦ absurd hc (by decide)⟩
    rw [fclose_disks hint hc, fopen_disks h₁]
  rw [if_neg hst] at h
  obtain ⟨rawData, s₃, h₃, h⟩ := bind_eq_ok.mp h
  by_cases hraw : rawData = 0
  · rw [if_pos hraw] at h
    obtain ⟨z, s₄, hc, h⟩ := bind_eq_ok.mp h
    cases h
    refine ⟨⟨fun q hq ↦ ((hbeside q hq).alloc h₃).1.close hint hc, ?_⟩,
      fun hc ↦ absurd hc (by decide)⟩
    rw [fclose_disks hint hc, onHeapDrive_disks h₃, fopen_disks h₁]
  rw [if_neg hraw] at h
  obtain ⟨read, s₄, h₄, h⟩ := bind_eq_ok.mp h
  have hd₄ := (read_state (opened_alloc hopen h₃).fat16 hint h₄).2.2.2
  by_cases hread : read < 0
  · rw [if_pos hread] at h
    obtain ⟨_, s₅, h₅, h⟩ := bind_eq_ok.mp h
    obtain ⟨z, s₆, hc, h⟩ := bind_eq_ok.mp h
    cases h
    refine ⟨⟨fun q hq ↦ ?_, ?_⟩, fun hc ↦ absurd hc (by decide)⟩
    · have hoff := ((hbeside q hq).alloc h₃).2
      exact (((hbeside q hq).load hint hsize h₃ hraw h₄).free hoff h₅).close hint hc
    · rw [fclose_disks hint hc, onHeapDrive_disks h₅, hd₄, onHeapDrive_disks h₃, fopen_disks h₁]
  · rw [if_neg hread] at h
    obtain ⟨z, s₅, hc, h⟩ := bind_eq_ok.mp h
    cases h
    have hgrow : Grows s.drive.arena s₁.drive.arena := fopen_grows hm h₁
    obtain ⟨b, hb, he⟩ := onHeapDrive_eq_ok h₃
    obtain ⟨hblock, htaken⟩ := kzalloc_taken hb hraw
    have hoff : FdOff (blockRun rawData size) fd s₄ := by
      refine ((hopen.off ?_ ?_).onHeap h₃).read hint h₄
      · exact htaken.fresh _ (List.mem_singleton_self _)
      · exact LawfulAllocator.positive _ _ hblock.live
    have hlive : blockRun rawData size ∈ s₄.drive.arena.live := by
      rw [Arena.live, (read_state (opened_alloc hopen h₃).fat16 hint h₄).2.1, he]
      exact hblock.live
    have hkept := fclose_kept hoff hint hc (Kept.refl hlive)
    refine ⟨⟨fun q hq ↦ ((hbeside q hq).load hint hsize h₃ hraw h₄).close hint hc, ?_⟩, fun _ ↦
      ⟨_, rfl, ⟨?_, (htaken.after hgrow).mono ?_⟩, List.forall_mem_singleton.mpr hsize⟩⟩
    · rw [fclose_disks hint hc, hd₄, onHeapDrive_disks h₃, fopen_disks h₁]
    · exact List.forall_mem_singleton.mpr (hblock.keep hkept.live)
    · exact List.forall_mem_singleton.mpr hkept.live

/-- The words that `process_new` reads without having written them have 32 bits. -/
def ProcessEnv.Words (env : ProcessEnv) : Prop :=
  env.elf.stat.size < 2 ^ 32 ∧ env.bin.stat.size < 2 ^ 32

omit [LawfulAllocator σ] in
theorem DataTaken.after {a b c : Arena σ} {data : ProcessData} (h : DataTaken b c data)
    (hg : Grows a b) : DataTaken a c data :=
  ⟨h.block, h.taken.after hg⟩

theorem processLoadData_frame {env : ProcessEnv} (hm : Fat16Mounted s) (henv : env.Words)
    {y : ℤ × Option ProcessData} (h : processLoadData env filename s = .ok (y, t)) :
    LoadResultFrame s t y := by
  obtain ⟨⟨status, data⟩, s₁, h₁, h⟩ := bind_eq_ok.mp h
  obtain ⟨⟨status', elfFile⟩, s₂, h₂, h₁⟩ := bind_eq_ok.mp h₁
  have hf := gloaderLoadElf_frame hm henv.1 h₂
  dsimp only at h₁
  by_cases hneg : status' < 0
  · rw [if_pos hneg] at h₁
    cases h₁
    dsimp only at h
    rw [if_pos (by decide)] at h
    obtain ⟨⟨status₃, data₃⟩, s₃, h₃, h⟩ := bind_eq_ok.mp h
    have hm₁ : Fat16Mounted s₁ := fun drive fs hfs ↦ hm drive fs (hf.disks ▸ hfs)
    have hb := processLoadBinary_frame hm₁ henv.2 h₃
    dsimp only at h
    have hframe : LoadFrame s s₃ :=
      ⟨hf.grows.trans hb.frame.grows, hb.frame.disks.trans hf.disks⟩
    by_cases hneg₃ : status₃ < 0
    · rw [if_pos hneg₃] at h
      cases h
      exact ⟨hframe, fun hc ↦ absurd hc (by decide)⟩
    · rw [if_neg hneg₃] at h
      cases h
      obtain ⟨data, rfl, htaken, hsize⟩ := hb.loaded (Int.not_lt.mp hneg₃)
      exact ⟨hframe, fun _ ↦ ⟨data, rfl, htaken.after hf.grows, hsize⟩⟩
  · rw [if_neg hneg] at h₁
    cases h₁
    dsimp only at h
    rw [if_neg (by decide)] at h
    cases h
    refine ⟨hf, fun _ ↦ ?_⟩
    cases gloaderLoadElf_result h₂ with
    | unopened => exact absurd (show _ < (0 : ℤ) by decide) hneg
    | noStruct => exact absurd (show _ < (0 : ℤ) by decide) hneg
    | noBuffer => exact absurd (show _ < (0 : ℤ) by decide) hneg
    | unread => exact absurd (show _ < (0 : ℤ) by decide) hneg
    | @loaded fd f _ hload =>
      obtain ⟨-, htaken, hsize⟩ := fileLoaded_frame hm henv.1 hload
      obtain ⟨ha, hd, hs⟩ := acceptedFile_buffer env.elf f t
      have hblocks : (ProcessData.elf (acceptedFile env.elf f t)).blocks =
          (ProcessData.elf f).blocks := by
        rw [ProcessData.blocks, ProcessData.blocks, ha, hd, hs]
      refine ⟨_, rfl, ⟨hblocks ▸ htaken.block, ?_⟩, ?_⟩
      · rw [ProcessData.runs, hblocks]
        exact htaken.taken
      · rw [hblocks]
        refine List.forall_mem_cons.mpr ⟨hsize, List.forall_mem_singleton.mpr ?_⟩
        exact (by decide : elfFileSize < 2 ^ 32)

end Lawful

end GammaOS.Kernel
