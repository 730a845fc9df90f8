import GammaOS.Kernel.AllocationTable

namespace GammaOS.Kernel

open Function Foundation Foundation.Program Memory Paging Fs Loader

def userWriteAccess : ℕ := pagePresent ||| pageWriteAccess ||| pageUserAccess

def UserWritable (entry : ℕ) : Prop := entry &&& userWriteAccess = userWriteAccess

theorem or_userWritable (v : ℕ) :
    UserWritable (v ||| (pagePresent ||| pageUserAccess ||| pageWriteAccess)) := by
  have hflags : pagePresent ||| pageUserAccess ||| pageWriteAccess = userWriteAccess := by decide
  rw [hflags, UserWritable, Nat.and_or_distrib_right, Nat.and_self]
  refine Nat.eq_of_testBit_eq (fun i ↦ ?_)
  rw [Nat.testBit_or, Nat.testBit_and]
  cases (userWriteAccess.testBit i) <;> simp

variable {δ : Type} {whole : Bool} {s s' : KernelState (KHeap whole) δ} {p : Process} {t : Task}
  {S : Space} {rs : List Run} {own kernel : List (ℕ × ℕ)} {addr size n : ℕ}

/-- Of the entries of an address space those of the pages of an allocation have
changed, and no others, and the user writes to these pages no more. -/
structure TakesPages (s s' : KernelState (KHeap whole) δ) (vspace base size : ℕ) : Prop where
  changed : ∀ v < 2 ^ 32, v % pageSize = 0 →
    (pagingVirtToPhy s'.arena.mem vspace v ≠ pagingVirtToPhy s.arena.mem vspace v ↔
      base ≤ v ∧ v < base + pageSize * blocksOf size)
  revoked : ∀ v < 2 ^ 32, v % pageSize = 0 → base ≤ v → v < base + pageSize * blocksOf size →
    ∀ entry, pagingVirtToPhy s'.arena.mem vspace v = some entry → ¬ UserWritable entry

/-- `process_free` takes the pages of an allocation from the user, and refuses
every other address without a change. -/
def FreeExact (s : KernelState (KHeap whole) δ) (vspace : ℕ) (own : List (ℕ × ℕ)) (addr : ℕ) :
    Prop :=
  (∃ size s', (addr, size) ∈ own ∧ processFree addr s = .ok (addr, s') ∧
    TakesPages s s' vspace addr size) ∨
  (addr ∉ own.map Prod.fst ∧ processFree addr s = .ok (0, s))

/-- The first page of a freed block is mapped as it was, for the user to write. -/
theorem freeCall_first (ha : addr % pageSize = 0) (hpos : 0 < size)
    (hin : addr + pageSize * blocksOf size ≤ kernelHeapBase + kernelHeapSize) :
    (freeCall addr size).Accepted ∧ (freeCall addr size).Covers addr ∧
      UserWritable ((freeCall addr size).valueAt addr) := by
  have hle := lt_blocksOf size
  have hlow : pagingAlignToPageLower addr = addr := alignToPageLower_of_aligned ha
  have hlimit : kernelHeapBase + kernelHeapSize = 0x7400000 := by decide
  have hsum : u32 (size + pageSize - 1) = size + pageSize - 1 := by
    refine u32_of_lt ?_
    unfold pageSize at *
    omega
  -- between one page and as many as a page has bytes, whatever the size
  have hpages : 1 ≤ (size + pageSize - 1) / size ∧ (size + pageSize - 1) / size ≤ 4096 := by
    refine ⟨Nat.div_pos (by unfold pageSize; omega) hpos, Nat.div_le_of_le_mul ?_⟩
    unfold pageSize
    omega
  have hend : (freeCall addr size).endaddr = addr + (size + pageSize - 1) / size * pageSize := by
    show u32 (addr + u32 (size + pageSize - 1) / size * pageSize) = _
    rw [hsum]
    refine u32_of_lt ?_
    generalize (size + pageSize - 1) / size = pages at hpages ⊢
    unfold pageSize at *
    omega
  have hsub : subU32 addr addr = 0 := by
    rw [subU32_of_le le_rfl (by unfold pageSize at *; omega), Nat.sub_self]
  generalize (size + pageSize - 1) / size = pages at hpages hend
  refine ⟨⟨alignToPageLower_aligned addr, alignToPageLower_aligned addr, ?_, ?_⟩, ?_, ?_⟩
  · rw [hend, Nat.add_mul_mod_self_right, ha]
  · rw [hend]
    show pagingAlignToPageLower addr ≤ _
    rw [hlow]
    exact Nat.le_add_right _ _
  · show subU32 addr (pagingAlignToPageLower addr) < _ - pagingAlignToPageLower addr
    rw [hend, hlow, hsub]
    unfold pageSize
    omega
  · exact or_userWritable _

theorem Owns.freed_writable (h : Owns s p t S rs own kernel) (hb : (addr, n) ∈ own) {i : ℕ}
    (hslot : p.allocationOf addr = some i) : ∃ entry,
      pagingVirtToPhy (s.afterFree p t i addr).arena.mem t.taskSpace addr = some entry ∧
        UserWritable entry := by
  have hblock := h.own_block hb
  obtain ⟨j, -, hj, hrec⟩ := h.found hb
  cases hslot.symm.trans hj
  have hsize : p.memAllocationsSize i = n := (recorded_some.mp hrec).2.2
  have hpos := hblock.pos
  have hin := hblock.inside_heap.2
  rw [u32_of_lt (h.sizes _ hb)] at hpos hin
  obtain ⟨hacc, hcov, hval⟩ := freeCall_first hblock.aligned hpos hin
  obtain ⟨hh, he⟩ := (freeCall addr n).run_entries (freeCall_valid hblock.lt) h.running.holds
  refine ⟨_, ?_, hval⟩
  show pagingVirtToPhy ((freeCall addr (p.memAllocationsSize i)).run t.taskSpace s.arena.mem)
    t.taskSpace addr = _
  rw [hsize, ← h.running.space, hh.virtToPhy_eq hblock.lt hblock.aligned,
    he addr hblock.lt hblock.aligned, PageMap.mapRange, if_pos ⟨hacc, hcov⟩]

theorem Owns.freeExact_iff (h : Owns s p t S rs own kernel) (addr : ℕ) :
    FreeExact s t.taskSpace own addr ↔
      ∀ i < processMaxProcessMemAllocations, p.memAllocations i ≠ addr := by
  constructor
  · intro hf
    rw [← allocationOf_none]
    cases hslot : p.allocationOf addr with
    | none => rfl
    | some i =>
      rcases hf with ⟨size, s', hb, hr, htakes⟩ | ⟨-, hr⟩
      · obtain ⟨p', -, hp', hr⟩ := processFree_eq_ok.mp hr
        cases h.running.at_process.symm.trans hp'
        rcases hr with ⟨hno, -, -⟩ | ⟨j, t', hj, -, -, ht', -, rfl⟩
        · cases hslot.symm.trans hno
        cases h.running.at_task.symm.trans ht'
        have hblock := h.own_block hb
        have hpos := blocksOf_pos hblock.pos
        rw [u32_of_lt (h.sizes _ hb)] at hpos
        obtain ⟨entry, hentry, hw⟩ := h.freed_writable hb hj
        refine absurd hw (htakes.revoked addr hblock.lt hblock.aligned le_rfl ?_ entry hentry)
        exact Nat.lt_add_of_pos_right (Nat.mul_pos (by decide) hpos)
      · obtain ⟨p', -, hp', hr⟩ := processFree_eq_ok.mp hr
        cases h.running.at_process.symm.trans hp'
        rcases hr with ⟨hno, -, -⟩ | ⟨j, t', -, hsize, -, -, -, hs⟩
        · cases hslot.symm.trans hno
        -- the size that was left in the slot is gone behind the call
        have hcleared : s.processes s.currentProcess = some (p.record j 0 0) :=
          (congrFun (congrArg KernelState.processes hs) s.currentProcess).trans (update_self _ _ _)
        have hp : p = p.record j 0 0 :=
          Option.some.inj (h.running.at_process.symm.trans hcleared)
        refine absurd ?_ hsize
        rw [hp]
        exact update_self _ _ _
  · intro hno
    refine Or.inr ⟨fun hmem ↦ ?_, processFree_eq_ok.mpr ⟨p, h.running.current_ne,
      h.running.at_process, Or.inl ⟨allocationOf_none.mpr hno, rfl, rfl⟩⟩⟩
    obtain ⟨b, hb, rfl⟩ := List.mem_map.mp hmem
    obtain ⟨i, hi, -, hib⟩ := h.found hb
    exact hno i hi (recorded_some.mp hib).2.1

/-- In every state that the calls of a process reach, `process_free` is exact
with the addresses in no slot of its table, and with no others. -/
theorem free_exact_iff {env : ProcessEnv} {filename : List UInt8}
    {s s₀ s₁ s' : KernelState (KHeap whole) Fat16Files} (hm : Fat16Mounted s.vfs)
    (henv : env.Words) (hnew : processNew env filename s = .ok (addr, s₁)) (ha : addr ≠ 0)
    (hsw : processSwitch addr s₁ = .ok ((), s₀)) (h : HeapLife s₀ s' own kernel) :
    ∃ p t, s'.processes s'.currentProcess = some p ∧ s'.taskList.tasks p.task = some t ∧
      ∀ base < 2 ^ 32, FreeExact s' t.taskSpace own base ↔
        ∀ i < processMaxProcessMemAllocations, p.memAllocations i ≠ base := by
  obtain ⟨x, t, S, h₀⟩ := processNew_owns hm henv hnew ha hsw
  obtain ⟨table, hp⟩ := h.owns h₀
  exact ⟨x.withTable table, t, hp.running.at_process, hp.running.at_task,
    fun base _ ↦ hp.freeExact_iff base⟩

theorem free_exact_iff_sample : ∃ (s₀ s' : KernelState (KHeap false) Fat16Files) (base : ℕ),
    base ≠ 0 ∧ HeapLife s₀ s' [(base, 5000)] [] ∧
      ∃ p t, s'.processes s'.currentProcess = some p ∧ s'.taskList.tasks p.task = some t ∧
        ∀ addr < 2 ^ 32, FreeExact s' t.taskSpace [(base, 5000)] addr ↔
          ∀ i < processMaxProcessMemAllocations, p.memAllocations i ≠ addr := by
  obtain ⟨s, s₁, s₀, s', addr, base, hm, hnew, ha, hsw, hne, hlife⟩ := sample_allocated
  exact ⟨s₀, s', base, hne, hlife, free_exact_iff hm quietEnv_words hnew ha hsw hlife⟩

/-- A new process frees a null pointer, which stands in its empty slots with the size 0. -/
theorem null_free_divides : ∃ (s s₁ s₀ : KernelState (KHeap false) Fat16Files) (addr : ℕ)
    (p : Process) (t : Task), Fat16Mounted s.vfs ∧
      processNew quietEnv filePath s = .ok (addr, s₁) ∧ addr ≠ 0 ∧
      processSwitch addr s₁ = .ok ((), s₀) ∧ HeapLife s₀ s₀ [] [] ∧
      s₀.processes s₀.currentProcess = some p ∧ s₀.taskList.tasks p.task = some t ∧
      processFree 0 s₀ = .error Fault.divideError ∧ ¬ FreeExact s₀ t.taskSpace [] 0 := by
  obtain ⟨s, s₁, s₀, addr, hm, hnew, ha, hsw, -⟩ := @sample_switched 0 (by decide)
  obtain ⟨_, x, t, S, hc⟩ := processNew_made hm quietEnv_words hnew ha
  cases hsw
  have h₀ := hc.owns
  have hempty : ∀ i, x.memAllocations i = 0 ∧ x.memAllocationsSize i = 0 := by
    intro i
    rw [hc.fresh]
    exact ⟨rfl, rfl⟩
  have hfirst : 0 < processMaxProcessMemAllocations := by decide
  have hex : ¬ FreeExact { s₁ with currentProcess := addr } t.taskSpace [] 0 :=
    fun hf ↦ (h₀.freeExact_iff 0).mp hf 0 hfirst (hempty 0).1
  cases hslot : x.allocationOf 0 with
  | none => exact absurd (hempty 0).1 (allocationOf_none.mp hslot 0 hfirst)
  | some i =>
    exact ⟨s, s₁, _, addr, x, t, hm, hnew, ha, rfl, .start, h₀.running.at_process,
      h₀.running.at_task, processFree_divide h₀.running.current_ne h₀.running.at_process hslot
        (hempty i).2, hex⟩

end GammaOS.Kernel
