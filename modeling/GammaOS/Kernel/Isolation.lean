import GammaOS.Kernel.KernelPages
import GammaOS.Memory.FirstFit

namespace GammaOS.Kernel

open Function Foundation Foundation.Program Memory Paging Fs Loader

def InBlock (b : ℕ × ℕ) (pa : ℕ) : Prop :=
  b.1 ≤ pa ∧ pa + pageSize ≤ b.1 + pageSize * blocksOf (u32 b.2)

def WritableByUser (entry : ℕ) : Prop := entry &&& pageUserAccess ≠ 0 ∧ entry &&& pageWriteAccess ≠ 0

/-- The page lies in live memory of the process: its stack, its file or one of
its allocations. -/
def OwnsPage {σ : Type} [Allocator σ] (s : KernelState σ Fat16Files) (x : Process) (pa : ℕ) : Prop :=
  ∃ b, Block s.arena b.1 b.2 ∧ InBlock b pa ∧ (b = (x.stack, processMaxProcessStackSize) ∨
    b = x.data.buffer ∨ ∃ i < processMaxProcessMemAllocations, x.recorded i = some b)

def ownPageRule : PageRule where
  Ok bs _ entry := WritableByUser entry → ∃ b ∈ bs, InBlock b (entry &&& 0xfffff000)
  mono hsub h hw := by
    obtain ⟨b, hb, hin⟩ := h hw
    exact ⟨b, hsub hb, hin⟩

variable {whole : Bool} {s s' : KernelState (KHeap whole) Fat16Files} {disk : Disk}
  {env : ProcessEnv} {entries : ℕ → UInt8} {m : ByteMemory} {filename : List UInt8}
  {c : MapCall} {v base size addr k pa : ℕ} {b : ℕ × ℕ} {bs : List (ℕ × ℕ)}
  {a a' : Arena (KHeap whole)}

theorem ownPage_of_inBlock (hpa : pa % pageSize = 0) (hk : k < pageSize) (hb : b ∈ bs)
    (hblock : Block a b.1 b.2) (hin : InBlock b pa) : ownPageRule.Ok bs v (pa ||| k) := by
  intro _
  rw [mask_entry hpa (Nat.le_trans hin.2 hblock.inside) hk]
  exact ⟨b, hb, hin⟩

theorem ownPage_of_readOnly (hpa : pa % pageSize = 0) (h : k &&& pageWriteAccess = 0) :
    ownPageRule.Ok bs v (pa ||| k) := by
  intro hw
  have hflag := hw.2
  rw [flag_of_page hpa (by decide)] at hflag
  exact absurd h hflag

theorem inBlock_of_call (hacc : c.Accepted) (hp : c.paddr = b.1)
    (hend : c.endaddr ≤ b.1 + pageSize * blocksOf (u32 b.2)) (hcov : c.Covers v)
    (hva : v % pageSize = 0) : InBlock b (c.paddr + subU32 v c.vaddr) := by
  have hal := hacc.vaddr_aligned
  unfold MapCall.Covers at hcov
  have hoffset : subU32 v c.vaddr + pageSize ≤ pageSize * blocksOf (u32 b.2) := by
    unfold subU32 u32 at *
    unfold pageSize at *
    omega
  exact ⟨hp ▸ Nat.le_add_right _ _, by omega⟩

theorem roundedEnd_le (h : Block a base size) (hs : size < 2 ^ 32) :
    pagingAlignToPageUpper (u32 (base + size)) ≤ base + pageSize * blocksOf (u32 size) := by
  have hal := h.aligned
  have hin := h.inside
  rw [u32_of_lt hs] at hin ⊢
  unfold pagingAlignToPageUpper u32
  unfold blocksOf at *
  unfold kernelHbSize pageSize at *
  split <;> omega

/-- The segments of the file that a program may write lie in the file buffer or
the stack: the page of the last of them over an address, where the stack is not
mapped over it. -/
def KeepsInside (env : ProcessEnv) (filename : List UInt8)
    (s : KernelState (KHeap whole) Fat16Files) : Prop :=
  ∀ p stack status elfData s₁,
    Prepared env filename s p stack status (some (.elf elfData)) s₁ →
    ∀ v < 2 ^ 32, v % pageSize = 0 → ¬ (taskDefaultStackEnd ≤ v ∧ v < taskDefaultStackBegin) →
      ∀ c, CoversLast (elfCalls env.mapped s₁.arena.mem elfData) c v →
      c.flags &&& pageWriteAccess ≠ 0 →
        InBlock (elfData.data, elfData.fileSize) (c.paddr + subU32 v c.vaddr) ∨
          InBlock (stack, processMaxProcessStackSize) (c.paddr + subU32 v c.vaddr)

/-- A MALLOC that finds blocks or maps nothing, a FREE that gives nothing back,
and an EXEC that is served, of a file whose segments stay inside. -/
def Command.KeepsInside (s : KernelState (KHeap whole) Fat16Files) : Command → Prop
  | .malloc size => ∀ x, s.processes s.currentProcess = some x → x.allocationOf 0 = none ∨
      size = 0 ∨ 2 ^ 32 - pageSize < size ∨ Fits s.arena.heap.heap.entryTable size
  | .free addr => ∀ x i, s.processes s.currentProcess = some x → x.allocationOf addr = some i →
      x.memAllocationsSize i = 0 ∨ (addr = 0 ∧ 2 ^ 32 - pageSize < x.memAllocationsSize i)
  | command => command.Serves Kernel.KeepsInside s

def Entry.KeepsInside (s : KernelState (KHeap whole) Fat16Files) (e : Entry) : Prop :=
  e.Meets Command.KeepsInside s

theorem kzalloc_fits (hs : size < 2 ^ 32) (h : Fits a.heap.heap.entryTable size)
    (hr : kzalloc size a = .ok (base, a')) : base ≠ 0 := by
  obtain ⟨hpos, i, hin, hfree⟩ := h
  rw [a.heap.count_eq] at hin
  have hbase : (KHeap.kzalloc size a.heap).1 = base := congrArg Prod.fst (Except.ok.inj hr)
  rw [KHeap.kzalloc_fst] at hbase
  rcases a.heap.malloc_cases size with ⟨-, h0 | hno⟩ | ⟨j, -, -, -, -, hm⟩
  · rw [u32_of_lt hs] at h0
    omega
  · rw [u32_of_lt hs] at hno
    exact absurd hfree (hno i hin)
  · rw [← hbase, hm]
    unfold kernelHeapBase
    omega

theorem inBlock_asked (h : Block a base size) (hs : size < 2 ^ 32) (hva : v % pageSize = 0)
    (h₁ : base ≤ v) (h₂ : v < base + size) : InBlock (base, size) v := by
  have hal := h.aligned
  refine ⟨h₁, ?_⟩
  rw [u32_of_lt hs]
  unfold blocksOf kernelHbSize
  unfold pageSize at *
  omega

theorem mallocAllowed_inside (hs : size < 2 ^ 32) (h : (Command.malloc size).KeepsInside s) :
    MallocAllowed ownPageRule s size := by
  intro x base b hx hslot hb bs hmem v hv hva hacc hcov
  by_cases hbase : base = 0
  · subst hbase
    have hcovers := (((mallocCall_null hs).2.2 v hv hva).2).mp hcov
    rcases h x hx with hno | h0 | hlarge | hfits
    · exact absurd hno hslot
    · omega
    · omega
    · exact absurd rfl (kzalloc_fits hs hfits hb)
  · have hblock := (kzalloc_taken hb hbase).1
    have hend := (KHeap.kzalloc_inside hb hbase).2
    have hpos := hblock.pos
    rw [u32_of_lt hs] at hend hpos
    obtain ⟨-, hcall⟩ := mallocCall_block hblock.aligned hpos
      (Nat.lt_of_le_of_lt hend (by decide))
    obtain ⟨hiff, hvalue⟩ := hcall v hv hva
    obtain ⟨h₁, h₂⟩ := hiff.mp hcov
    rw [hvalue hcov]
    exact ownPage_of_inBlock hva userFlags_keep.1 (hmem hbase) hblock
      (inBlock_asked hblock hs hva h₁ h₂)

theorem freeCall_nothing (hs : 2 ^ 32 - pageSize < size) : ¬ (freeCall 0 size).Covers v := by
  have hcount : u32 (size + pageSize - 1) / size = 0 := by
    refine Nat.div_eq_of_lt ?_
    unfold u32
    unfold pageSize at *
    omega
  have hend : (freeCall 0 size).endaddr = 0 := by
    unfold freeCall
    dsimp only
    rw [hcount]
    rfl
  rw [MapCall.Covers, hend, Nat.zero_sub]
  exact Nat.not_lt_zero _

theorem freeAllowed_inside (h : (Command.free addr).KeepsInside s) :
    FreeAllowed ownPageRule s addr := by
  intro x i hx hslot hsize
  obtain ⟨rfl, hlarge⟩ := (h x i hx hslot).resolve_left hsize
  exact ⟨fun bs v hv hva hacc hcov ↦ absurd hcov (freeCall_nothing hlarge), fun h0 ↦ absurd rfl h0⟩

theorem stackCall_inBlock {stack : ℕ} (h : Block a stack processMaxProcessStackSize)
    (hcov : (stackCall stack).Covers v) (hva : v % pageSize = 0) :
    InBlock (stack, processMaxProcessStackSize)
      ((stackCall stack).paddr + subU32 v (stackCall stack).vaddr) := by
  refine inBlock_of_call (stackCall_accepted h.aligned (stack_end h)) rfl ?_ hcov hva
  rw [stackCall_end h.aligned (stack_end h)]
  have hle : taskStackSize ≤ pageSize * blocksOf (u32 processMaxProcessStackSize) := by decide
  exact Nat.add_le_add_left hle stack

theorem KeepsInside.data {s₁ : KernelState (KHeap whole) Fat16Files} {p : ℕ} {x : Process} {t : Task}
    {S : Space} (h : KeepsInside env filename s) (hc : Created env filename s s₁ s' p x t S)
    (hv : v < 2 ^ 32) (hva : v % pageSize = 0)
    (hstack : ¬ (taskDefaultStackEnd ≤ v ∧ v < taskDefaultStackBegin))
    (hlast : CoversLast (x.data.calls env.mapped s₁.arena.mem) c v) (hacc : c.Accepted) :
    c.flags &&& pageWriteAccess = 0 ∨
      ∃ b ∈ x.userBlocks [], InBlock b (c.paddr + subU32 v c.vaddr) := by
  cases hdata : x.data with
  | bin rawData size =>
    rw [hdata] at hlast
    cases List.mem_singleton.mp hlast.mem
    obtain ⟨-, -, -, hcov, -⟩ := hlast
    have hmem : (rawData, size) ∈ x.data.blocks := by
      rw [hdata]
      exact List.mem_cons_self
    have hblock := hc.block (rawData, size) (List.mem_cons_of_mem _ (List.mem_cons_of_mem _
      (List.mem_cons_of_mem _ hmem)))
    refine Or.inr ⟨(rawData, size), ?_, inBlock_of_call hacc rfl
      (roundedEnd_le hblock (hc.sizes _ hmem)) hcov hva⟩
    rw [Process.userBlocks, hdata]
    exact List.mem_cons_of_mem _ List.mem_cons_self
  | elf elfData =>
    rw [hdata] at hlast
    by_cases hw : c.flags &&& pageWriteAccess = 0
    · exact Or.inl hw
    · obtain ⟨status, -, hprep⟩ := hc.prepared
      rw [hdata] at hprep
      rcases h p x.stack status elfData s₁ hprep v hv hva hstack c hlast hw with hin | hin
      · refine Or.inr ⟨(elfData.data, elfData.fileSize), ?_, hin⟩
        rw [Process.userBlocks, hdata]
        exact List.mem_cons_of_mem _ List.mem_cons_self
      · exact Or.inr ⟨_, List.mem_cons_self, hin⟩

theorem Created.userBlock {s₁ : KernelState (KHeap whole) Fat16Files} {p : ℕ} {x : Process} {t : Task}
    {S : Space} (hc : Created env filename s s₁ s' p x t S) (hb : b ∈ x.userBlocks []) :
    Block s'.arena b.1 b.2 := by
  refine hc.block b (List.mem_cons_of_mem _ ?_)
  rcases List.mem_cons.mp hb with rfl | hb
  · exact List.mem_cons_self
  · cases List.mem_singleton.mp hb
    exact List.mem_cons_of_mem _ (List.mem_cons_of_mem _ x.data.buffer_mem)

/-- What is mapped for a file that stays inside follows the rule: a raw binary
and the stack lie in their blocks in any case. -/
theorem KeepsInside.allowed (h : KeepsInside env filename s) :
    NewAllowed ownPageRule env filename s := by
  intro s₁ s' p x t S hc v hv hva
  have hacc := hc.accepted
  have hblock := hc.userBlock (b := (x.stack, processMaxProcessStackSize)) List.mem_cons_self
  have hcalls := stackCall_covers hblock.aligned (stack_end hblock) hv
  have hstack := stackCall_accepted hblock.aligned (stack_end hblock)
  rw [memoryCalls] at hacc ⊢
  rw [mapAll_append]
  show ownPageRule.Ok _ v (PageMap.mapRange _ (stackCall x.stack) v)
  rw [PageMap.mapRange]
  by_cases hcov : (stackCall x.stack).Covers v
  · rw [if_pos ⟨hstack, hcov⟩]
    exact ownPage_of_inBlock (hstack.page hva) userFlags_keep.1 List.mem_cons_self hblock
      (stackCall_inBlock hblock hcov hva)
  · rw [if_neg (fun hc' ↦ hcov hc'.2)]
    refine mapAll_last (ownPage_of_readOnly hva (by decide))
      (fun c hmem ↦ hacc c (List.mem_append_left _ hmem)) (fun c hlast ↦ ?_)
    have hcacc := hacc c (List.mem_append_left _ hlast.mem)
    rcases h.data hc hv hva (mt hcalls.mpr hcov) hlast hcacc with hread | ⟨b, hb, hin⟩
    · exact ownPage_of_readOnly (hcacc.page hva) hread
    · exact ownPage_of_inBlock (hcacc.page hva) (x.data.calls_flags c hlast.mem).1 hb
        (hc.userBlock hb) hin

theorem Entry.KeepsInside.allowed {e : Entry} (hw : e.Words) (h : e.KeepsInside s) :
    e.Allowed ownPageRule s := by
  cases e with
  | keyboard _ _ => trivial
  | syscall command iframe =>
    intro s₁ h₁
    have hs := h s₁ h₁
    cases command with
    | malloc size => exact mallocAllowed_inside hw hs
    | free base => exact freeAllowed_inside hs
    | exec env data rest => exact fun filename s₂ h₂ ↦ (hs.2 filename s₂ h₂).2.allowed
    | _ => trivial

theorem LiveProcess.block_ownsPage {p : ℕ} {x : Process} {t : Task} {g : Holding}
    (h : LiveProcess s p x t g) (hb : b ∈ x.userBlocks g.own) (hin : InBlock b pa) :
    OwnsPage s x pa := by
  rcases List.mem_cons.mp hb with rfl | hb
  · exact ⟨_, h.block _ (List.mem_cons_of_mem _ List.mem_cons_self), hin, Or.inl rfl⟩
  · rcases List.mem_cons.mp hb with rfl | hb
    · exact ⟨_, h.block _ (List.mem_cons_of_mem _ (List.mem_cons_of_mem _
        (List.mem_cons_of_mem _ x.data.buffer_mem))), hin, Or.inr (Or.inl rfl)⟩
    · exact ⟨b, h.held.block b hb, hin, Or.inr (Or.inr (h.slots.placed b hb))⟩

theorem LiveProcess.ownsPage {p entry : ℕ} {x : Process} {t : Task} {g : Holding}
    (h : LiveProcess s p x t g) (hok : ownPageRule.Ok (x.userBlocks g.own) v entry)
    (hw : WritableByUser entry) : OwnsPage s x (entry &&& 0xfffff000) := by
  obtain ⟨b, hb, hin⟩ := hok hw
  exact h.block_ownsPage hb hin

theorem sample_inBlock {f : ElfFile} (h : HoldsImage sampleImage m f)
    (hcov : (phdrCall f samplePhdr).Covers v) (hacc : (phdrCall f samplePhdr).Accepted)
    (hva : v % pageSize = 0) :
    InBlock (f.data, f.fileSize) ((phdrCall f samplePhdr).paddr +
      subU32 v (phdrCall f samplePhdr).vaddr) := by
  have hal := h.aligned
  have hle := h.data_le
  have hblocks : blocksOf (u32 f.fileSize) = 1 := by
    rw [h.fileSize]
    decide
  have hoff : samplePhdr.pOffset = 84 := rfl
  have hmemsz : samplePhdr.pMemsz = 8 := rfl
  unfold kernelHeapBase kernelHeapSize pageSize at hle
  have haddr : u32 (f.data + 84) = f.data + 84 := u32_of_lt (by omega)
  have hend : u32 (f.data + 84 + 8) = f.data + 84 + 8 := u32_of_lt (by omega)
  refine inBlock_of_call hacc ?_ ?_ hcov hva
  · show pagingAlignToPageLower (u32 (f.data + samplePhdr.pOffset)) = f.data
    rw [hoff, haddr, alignToPageLower_eq]
    unfold pageSize at *
    omega
  · show pagingAlignToPageUpper (u32 (u32 (f.data + samplePhdr.pOffset) + samplePhdr.pMemsz)) ≤
      f.data + pageSize * blocksOf (u32 f.fileSize)
    rw [hblocks, hoff, hmemsz, haddr, hend]
    unfold pagingAlignToPageUpper u32
    unfold pageSize at *
    split <;> omega

theorem sample_inside {volume : Fat16Volume} {us : List (List UInt8)} {f₀ : Fat16File} {cluster n : ℕ}
    (hv : Stores volume us sampleImage f₀ cluster) (h : Ready volume n (6 * us.length + 1053) s)
    (hn : n < fsTotalFileDescriptors) (henv : env.Words) : KeepsInside env (drivePath us) s := by
  intro p stack status elfData s₁ hprep v _ hva _ c hlast _
  obtain ⟨f, hf, himage, -⟩ := prepared_image hv sampleImage_image h hn henv hprep
  cases hf
  have hacc := himage.accepted sampleImage_image _ hlast.mem
  obtain ⟨j, hj, rfl⟩ := (himage.mem_calls sampleImage_image).mp hlast.mem
  rw [sample_ehdr, Nat.lt_one_iff] at hj
  rw [hj, sample_phdr] at hlast hacc ⊢
  obtain ⟨_, _, -, hcov, -⟩ := hlast
  exact Or.inl (sample_inBlock himage hcov hacc hva)

end GammaOS.Kernel
