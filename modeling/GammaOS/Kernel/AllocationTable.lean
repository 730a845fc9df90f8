import GammaOS.Foundation.SlotTable
import GammaOS.Kernel.FileProcess
import GammaOS.Kernel.UserFree

namespace GammaOS.Kernel

open Function Foundation Foundation.Program Memory Paging Fs Loader

/-- The runs of calls of `process_malloc` and `process_free`, with any arguments
of 32 bits, between which the kernel takes and gives back blocks of its own.
`own` lists what `process_malloc` returned and was not freed since, with the
sizes asked for, and `kernel` what the kernel holds. -/
inductive HeapLife {σ δ : Type} [Allocator σ] (s₀ : KernelState σ δ) :
    KernelState σ δ → List (ℕ × ℕ) → List (ℕ × ℕ) → Prop
  | start : HeapLife s₀ s₀ [] []
  | refused {s s' : KernelState σ δ} {own kernel : List (ℕ × ℕ)} {size : ℕ}
      (h : HeapLife s₀ s own kernel) (hs : size < 2 ^ 32)
      (hr : processMalloc size s = .ok (0, s')) : HeapLife s₀ s' own kernel
  | malloc {s s' : KernelState σ δ} {own kernel : List (ℕ × ℕ)} {size base : ℕ}
      (h : HeapLife s₀ s own kernel) (hs : size < 2 ^ 32)
      (hr : processMalloc size s = .ok (base, s')) (hne : base ≠ 0) :
      HeapLife s₀ s' ((base, size) :: own) kernel
  | free {s s' : KernelState σ δ} {own kernel : List (ℕ × ℕ)} {addr r : ℕ}
      (h : HeapLife s₀ s own kernel) (ha : addr < 2 ^ 32)
      (hr : processFree addr s = .ok (r, s')) :
      HeapLife s₀ s' (own.filter (fun b ↦ decide (b.1 ≠ addr))) kernel
  | kzallocNull {s s' : KernelState σ δ} {own kernel : List (ℕ × ℕ)} {n : ℕ}
      (h : HeapLife s₀ s own kernel) (hr : onHeap (kzalloc n) s = .ok (0, s')) :
      HeapLife s₀ s' own kernel
  | kzalloc {s s' : KernelState σ δ} {own kernel : List (ℕ × ℕ)} {n q : ℕ}
      (h : HeapLife s₀ s own kernel) (hr : onHeap (kzalloc n) s = .ok (q, s')) (hne : q ≠ 0) :
      HeapLife s₀ s' own ((q, n) :: kernel)
  | kfree {s s' : KernelState σ δ} {own kernel : List (ℕ × ℕ)} {q n : ℕ}
      (h : HeapLife s₀ s own kernel) (hq : (q, n) ∈ kernel)
      (hr : onHeap (kfree q) s = .ok ((), s')) :
      HeapLife s₀ s' own (kernel.filter (fun b ↦ decide (b.1 ≠ q)))

def Process.withTable (p : Process) (table : (ℕ → ℕ) × (ℕ → ℕ)) : Process :=
  { p with memAllocations := table.1, memAllocationsSize := table.2 }

structure TableStep {σ δ : Type} (s s' : KernelState σ δ) (p : Process) (table : (ℕ → ℕ) × (ℕ → ℕ)) :
    Prop where
  processes : s'.processes = update s.processes s.currentProcess (some (p.withTable table))
  state : ∃ b, s' = { s.setArena b with processes := s'.processes }

/-- The invariant of the runs: the table of the current process lists its
allocations, and their blocks, the kernel's blocks and the runs of `rs`, with
those of the address space, are allocated and share nothing. -/
structure Owns {σ δ : Type} [Allocator σ] (s : KernelState σ δ) (p : Process) (t : Task) (S : Space)
    (rs : List Run) (own kernel : List (ℕ × ℕ)) : Prop where
  running : Running s p t S
  covers : S.runs ⊆ rs
  slots : SlotTable processMaxProcessMemAllocations p.recorded own
  sizes : ∀ b ∈ own, b.2 < 2 ^ 32
  held : HeldBlocks s.arena rs (own ++ kernel)

variable {σ δ : Type} [Allocator σ] [LawfulAllocator σ] {s s' s₀ : KernelState σ δ} {p : Process}
  {t : Task} {S : Space} {rs : List Run} {own kernel : List (ℕ × ℕ)} {b c : ℕ × ℕ}
  {size base addr q n r : ℕ}

namespace Owns

omit [LawfulAllocator σ] in
theorem own_block (h : Owns s p t S rs own kernel) (hb : b ∈ own) : Block s.arena b.1 b.2 :=
  h.held.block b (List.mem_append_left _ hb)

omit [LawfulAllocator σ] in
theorem kernel_ne (h : Owns s p t S rs own kernel) (hb : b ∈ own) (hc : c ∈ kernel) : c.1 ≠ b.1 := by
  have hnodup := h.held.bases
  rw [List.map_append, List.nodup_append] at hnodup
  exact (hnodup.2.2 _ (List.mem_map_of_mem hb) _ (List.mem_map_of_mem hc)).symm

omit [LawfulAllocator σ] in
theorem listed (h : Owns s p t S rs own kernel) {i : ℕ} (hi : i < processMaxProcessMemAllocations)
    (hne : p.memAllocations i ≠ 0) : (p.memAllocations i, p.memAllocationsSize i) ∈ own :=
  h.slots.listed i hi _ (recorded_some.mpr ⟨hne, rfl, rfl⟩)

omit [LawfulAllocator σ] in
theorem found (h : Owns s p t S rs own kernel) (hb : b ∈ own) :
    ∃ i < processMaxProcessMemAllocations, p.allocationOf b.1 = some i ∧ p.recorded i = some b := by
  cases hslot : p.allocationOf b.1 with
  | none =>
    obtain ⟨i, hi, hib⟩ := h.slots.placed b hb
    exact absurd (recorded_some.mp hib).2.1 (allocationOf_none.mp hslot i hi)
  | some i =>
    obtain ⟨hi, haddr⟩ := allocationOf_some hslot
    obtain ⟨j, hj, hjb⟩ := h.slots.placed b hb
    obtain ⟨hne, hbase, -⟩ := recorded_some.mp hjb
    have hib : p.recorded i = some (p.memAllocations i, p.memAllocationsSize i) :=
      recorded_some.mpr ⟨by rwa [haddr, ← hbase], rfl, rfl⟩
    cases h.slots.keyed i hi j hj _ _ hib hjb haddr
    exact ⟨i, hi, rfl, hjb⟩

omit [LawfulAllocator σ] in
theorem filter_absent (h : Owns s p t S rs own kernel) (hslot : p.allocationOf addr = none) :
    own.filter (fun b ↦ decide (b.1 ≠ addr)) = own := by
  refine List.filter_eq_self.mpr (fun b hb ↦ decide_eq_true ?_)
  rintro rfl
  obtain ⟨i, -, hi, -⟩ := h.found hb
  cases hslot.symm.trans hi

theorem filter_null (h : Owns s p t S rs own kernel) :
    own.filter (fun b ↦ decide (b.1 ≠ 0)) = own :=
  List.filter_eq_self.mpr (fun _ hb ↦ decide_eq_true (h.own_block hb).ne_zero)

omit [LawfulAllocator σ] in
theorem unchanged (h : Owns s p t S rs own kernel) :
    TableStep s s p (p.memAllocations, p.memAllocationsSize) :=
  ⟨(update_eq_self_iff.mpr h.running.at_process.symm).symm, s.arena, rfl⟩

theorem mapped (h : Owns s p t S rs own kernel) {b : Arena σ}
    (hb : kzalloc size s.arena = .ok (base, b))
    (hlt : base < 2 ^ 32) : Holds ((mallocCall base size).run S.vspace b.mem) S :=
  ((mallocCall base size).run_entries (mallocCall_valid hlt)
    (Holds.grows h.running.holds h.running.live (kzalloc_grows hb)).1).1

theorem refused (h : Owns s p t S rs own kernel) (hr : processMalloc size s = .ok (0, s')) :
    ∃ table, TableStep s s' p table ∧ Owns s' (p.withTable table) t S rs own kernel := by
  obtain ⟨p', -, hp', hr⟩ := processMalloc_eq_ok.mp hr
  cases h.running.at_process.symm.trans hp'
  rcases hr with ⟨-, -, rfl⟩ | ⟨i, t', b, hslot, -, ht', hb, rfl⟩
  · exact ⟨_, h.unchanged, h⟩
  cases h.running.at_task.symm.trans ht'
  have hheld : HeldBlocks (s.afterMalloc p t i 0 size b).arena rs (own ++ kernel) :=
    (h.held.refuse hb).congr rfl
  refine ⟨(update p.memAllocations i 0, update p.memAllocationsSize i size), ⟨rfl, _, rfl⟩,
    h.running.keep rfl (update_self _ _ _) rfl rfl ?_ (fun r hr ↦ hheld.live r (h.covers hr)),
    h.covers, ?_, h.sizes, hheld⟩
  · rw [afterMalloc_mem, ← h.running.space]
    exact h.mapped hb (Nat.two_pow_pos 32)
  · show SlotTable _ (p.record i 0 size).recorded own
    rw [recorded_null (allocationOf_some hslot).2]
    exact h.slots

theorem malloc (h : Owns s p t S rs own kernel) (hs : size < 2 ^ 32)
    (hr : processMalloc size s = .ok (base, s')) (hne : base ≠ 0) :
    ∃ table, TableStep s s' p table ∧
      Owns s' (p.withTable table) t S rs ((base, size) :: own) kernel := by
  obtain ⟨p', -, hp', hr⟩ := processMalloc_eq_ok.mp hr
  cases h.running.at_process.symm.trans hp'
  rcases hr with ⟨-, h0, -⟩ | ⟨i, t', b, hslot, -, ht', hb, rfl⟩
  · exact absurd h0 hne
  cases h.running.at_task.symm.trans ht'
  have hheld : HeldBlocks (s.afterMalloc p t i base size b).arena rs
      ((base, size) :: own ++ kernel) := (h.held.take hb hne).congr rfl
  obtain ⟨hi, hfree⟩ := allocationOf_some hslot
  refine ⟨(update p.memAllocations i base, update p.memAllocationsSize i size), ⟨rfl, _, rfl⟩,
    h.running.keep rfl (update_self _ _ _) rfl rfl ?_ (fun r hr ↦ hheld.live r (h.covers hr)),
    h.covers, ?_, List.forall_mem_cons.mpr ⟨hs, h.sizes⟩, hheld⟩
  · rw [afterMalloc_mem, ← h.running.space]
    exact h.mapped hb (kzalloc_taken hb hne).1.lt
  · show SlotTable _ (p.record i base size).recorded _
    rw [recorded_record, if_neg hne]
    refine h.slots.insert hi (if_pos hfree) (fun y hy heq ↦ ?_)
    have hnodup := hheld.bases
    rw [List.cons_append, List.map_cons, List.nodup_cons] at hnodup
    exact hnodup.1 (List.mem_map.mpr ⟨y, List.mem_append_left _ hy, heq⟩)

theorem freeOwn (h : Owns s p t S rs own kernel) {i : ℕ} (hslot : p.allocationOf addr = some i)
    (ha : addr ≠ 0) : Owns (s.afterFree p t i addr) (p.record i 0 0) t S rs
      (own.filter (fun b ↦ decide (b.1 ≠ addr))) kernel := by
  obtain ⟨hi, haddr⟩ := allocationOf_some hslot
  have hmem := h.listed hi (haddr ▸ ha)
  rw [haddr] at hmem
  have hblock := h.own_block hmem
  have hkernel : kernel.filter (fun b ↦ decide (b.1 ≠ addr)) = kernel :=
    List.filter_eq_self.mpr (fun c hc ↦ decide_eq_true (h.kernel_ne hmem hc))
  have hheld := (h.held.congr (t := { s.arena with
    mem := (freeCall addr (p.memAllocationsSize i)).run t.taskSpace s.arena.mem }) rfl).give
      (List.mem_append_left _ hmem) (kfree_eq_ok.mpr rfl)
  rw [List.filter_append, hkernel] at hheld
  refine ⟨h.running.keep rfl (update_self _ _ _) rfl rfl ?_
    (fun r hr ↦ hheld.live r (h.covers hr)), h.covers, ?_,
    fun b hb ↦ h.sizes b (List.mem_of_mem_filter hb), hheld⟩
  · show Holds ((freeCall addr (p.memAllocationsSize i)).run t.taskSpace s.arena.mem) S
    rw [← h.running.space]
    exact (MapCall.run_entries (freeCall_valid hblock.lt) h.running.holds).1
  · rw [recorded_record, if_pos rfl]
    exact @SlotTable.erase _ _ _ _ _ _ (addr, p.memAllocationsSize i) _ h.slots hi
      (recorded_some.mpr ⟨haddr ▸ ha, haddr, rfl⟩)

/-- A null pointer with a size left in its slot is freed, and nothing is held there. -/
theorem freeNull (h : Owns s p t S rs own kernel) {i : ℕ} (hslot : p.allocationOf 0 = some i) :
    Owns (s.afterFree p t i 0) (p.record i 0 0) t S rs own kernel := by
  have hheld := (h.held.congr (t := { s.arena with
    mem := (freeCall 0 (p.memAllocationsSize i)).run t.taskSpace s.arena.mem }) rfl).free_null
      (kfree_eq_ok.mpr rfl)
  refine ⟨h.running.keep rfl (update_self _ _ _) rfl rfl ?_
    (fun r hr ↦ hheld.live r (h.covers hr)), h.covers, ?_, h.sizes, hheld⟩
  · show Holds ((freeCall 0 (p.memAllocationsSize i)).run t.taskSpace s.arena.mem) S
    rw [← h.running.space]
    exact (MapCall.run_entries (freeCall_valid (Nat.two_pow_pos 32)) h.running.holds).1
  · rw [recorded_null (allocationOf_some hslot).2]
    exact h.slots

theorem free (h : Owns s p t S rs own kernel) (hr : processFree addr s = .ok (r, s')) :
    ∃ table, TableStep s s' p table ∧
      Owns s' (p.withTable table) t S rs (own.filter (fun b ↦ decide (b.1 ≠ addr))) kernel := by
  obtain ⟨p', -, hp', hr⟩ := processFree_eq_ok.mp hr
  cases h.running.at_process.symm.trans hp'
  rcases hr with ⟨hslot, -, rfl⟩ | ⟨i, t', hslot, -, -, ht', -, rfl⟩
  · exact ⟨_, h.unchanged, (h.filter_absent hslot).symm ▸ h⟩
  cases h.running.at_task.symm.trans ht'
  by_cases ha : addr = 0
  · subst ha
    exact ⟨(update p.memAllocations i 0, update p.memAllocationsSize i 0), ⟨rfl, _, rfl⟩,
      h.filter_null.symm ▸ h.freeNull hslot⟩
  · exact ⟨(update p.memAllocations i 0, update p.memAllocationsSize i 0), ⟨rfl, _, rfl⟩,
      h.freeOwn hslot ha⟩

omit [LawfulAllocator σ] in
theorem kernelStep (h : Owns s p t S rs own kernel) {b : Arena σ} {kernel' : List (ℕ × ℕ)}
    (hh : Holds b.mem S) (hheld : HeldBlocks b rs (own ++ kernel')) :
    Owns (s.setArena b) p t S rs own kernel' :=
  ⟨h.running.keep rfl h.running.at_process rfl rfl hh (fun r hr ↦ hheld.live r (h.covers hr)),
    h.covers, h.slots, h.sizes, hheld⟩

theorem kzallocNull (h : Owns s p t S rs own kernel)
    (hr : onHeap (Memory.kzalloc n) s = .ok (0, s')) :
    Owns s' p t S rs own kernel := by
  obtain ⟨b, hb, rfl⟩ := onHeap_eq_ok.mp hr
  exact h.kernelStep (Holds.grows h.running.holds h.running.live (kzalloc_grows hb)).1
    (h.held.refuse hb)

theorem kzalloc (h : Owns s p t S rs own kernel) (hr : onHeap (Memory.kzalloc n) s = .ok (q, s'))
    (hne : q ≠ 0) : Owns s' p t S rs own ((q, n) :: kernel) := by
  obtain ⟨b, hb, rfl⟩ := onHeap_eq_ok.mp hr
  exact h.kernelStep (Holds.grows h.running.holds h.running.live (kzalloc_grows hb)).1
    ((h.held.take hb hne).perm List.perm_middle.symm)

theorem kfree (h : Owns s p t S rs own kernel) (hq : (q, n) ∈ kernel)
    (hr : onHeap (Memory.kfree q) s = .ok ((), s')) :
    Owns s' p t S rs own (kernel.filter (fun b ↦ decide (b.1 ≠ q))) := by
  obtain rfl := onHeap_kfree_eq_ok.mp hr
  have hown : own.filter (fun b ↦ decide (b.1 ≠ q)) = own :=
    List.filter_eq_self.mpr (fun b hb ↦ decide_eq_true (h.kernel_ne hb hq).symm)
  have hheld := h.held.give (List.mem_append_right _ hq) (kfree_eq_ok.mpr rfl)
  rw [List.filter_append, hown] at hheld
  exact h.kernelStep h.running.holds hheld

end Owns

theorem HeapLife.owns (h : HeapLife s₀ s own kernel) (h₀ : Owns s₀ p t S rs [] []) :
    ∃ table, Owns s (p.withTable table) t S rs own kernel := by
  induction h with
  | start => exact ⟨(p.memAllocations, p.memAllocationsSize), h₀⟩
  | refused _ _ hr ih =>
    obtain ⟨_, h'⟩ := ih
    obtain ⟨table, -, h'⟩ := h'.refused hr
    exact ⟨table, h'⟩
  | malloc _ hs hr hne ih =>
    obtain ⟨_, h'⟩ := ih
    obtain ⟨table, -, h'⟩ := h'.malloc hs hr hne
    exact ⟨table, h'⟩
  | free _ _ hr ih =>
    obtain ⟨_, h'⟩ := ih
    obtain ⟨table, -, h'⟩ := h'.free hr
    exact ⟨table, h'⟩
  | kzallocNull _ hr ih =>
    obtain ⟨table, h'⟩ := ih
    exact ⟨table, h'.kzallocNull hr⟩
  | kzalloc _ hr hne ih =>
    obtain ⟨table, h'⟩ := ih
    exact ⟨table, h'.kzalloc hr hne⟩
  | kfree _ hq hr ih =>
    obtain ⟨table, h'⟩ := ih
    exact ⟨table, h'.kfree hq hr⟩

omit [LawfulAllocator σ] in
theorem Running.malloc_returns (h : Running s p t S) (size : ℕ) :
    ∃ base s', processMalloc size s = .ok (base, s') := by
  cases hslot : p.allocationOf 0 with
  | none =>
    exact ⟨0, s, processMalloc_eq_ok.mpr ⟨p, h.current_ne, h.at_process, Or.inl ⟨hslot, rfl, rfl⟩⟩⟩
  | some i =>
    exact ⟨_, _, processMalloc_eq_ok.mpr ⟨p, h.current_ne, h.at_process,
      Or.inr ⟨i, t, _, hslot, h.task_ne, h.at_task, rfl, rfl⟩⟩⟩

theorem Created.owns {env : ProcessEnv} {filename : List UInt8}
    {s s₁ s' : KernelState σ Fat16Files} {x : Process} (h : Created env filename s s₁ s' addr x t S) :
    Owns { s' with currentProcess := addr } x t S S.runs [] [] where
  running :=
    { current_ne := (h.block _ List.mem_cons_self).ne_zero
      at_process := by
        show s'.processes addr = some x
        rw [h.processes, update_self]
      task_ne := (h.block (x.task, taskSize) (by simp [Process.blocks])).ne_zero
      at_task := h.at_task
      space := h.space
      holds := h.holds
      live := fun r hr ↦ h.taken.live r (List.mem_append_right _ hr) }
  covers := List.Subset.refl _
  slots := by
    refine .empty (fun i _ ↦ ?_)
    rw [h.fresh]
    rfl
  sizes _ hb := nomatch hb
  held := .nil (fun r hr ↦ h.taken.live r (List.mem_append_right _ hr))

section Heap

variable {whole : Bool}

/-- The table of the process is exact: its entries are the allocations, each
once, with their sizes and with blocks marked taken, and `process_free` takes
these and refuses every other address. -/
structure TableExact (s : KernelState (KHeap whole) δ) (p : Process) (own : List (ℕ × ℕ)) :
    Prop where
  listed : ∀ i < processMaxProcessMemAllocations, p.memAllocations i ≠ 0 →
    (p.memAllocations i, p.memAllocationsSize i) ∈ own
  once : ∀ b ∈ own, ∃ i < processMaxProcessMemAllocations, p.memAllocations i = b.1 ∧
    p.memAllocationsSize i = b.2 ∧
    ∀ j < processMaxProcessMemAllocations, p.memAllocations j = b.1 → j = i
  distinct : (own.map Prod.fst).Nodup
  nonnull : ∀ b ∈ own, b.1 ≠ 0
  taken : ∀ b ∈ own, ∀ k < blocksOf b.2, s.arena.heap.heap.entryTable.entries
    (s.arena.heap.heap.blockOf b.1 + k) &&& heapBlockEntryTaken ≠ 0
  free_own : ∀ b ∈ own, ∃ s', processFree b.1 s = .ok (b.1, s')
  free_other : ∀ addr, addr ≠ 0 → addr ∉ own.map Prod.fst → processFree addr s = .ok (0, s)
  malloc_returns : ∀ size, ∃ base s', processMalloc size s = .ok (base, s')

theorem Owns.tableExact {s : KernelState (KHeap whole) δ} (h : Owns s p t S rs own kernel) :
    TableExact s p own where
  listed _ hi hne := h.listed hi hne
  once b hb := by
    obtain ⟨i, hi, hslot, hib⟩ := h.found hb
    obtain ⟨hne, hbase, hsize⟩ := recorded_some.mp hib
    refine ⟨i, hi, hbase, hsize, fun j hj hjb ↦ ?_⟩
    have hjs : p.recorded j = some (p.memAllocations j, p.memAllocationsSize j) :=
      recorded_some.mpr ⟨by rwa [hjb, ← hbase], rfl, rfl⟩
    exact h.slots.keyed j hj i hi _ _ hjs hib hjb
  distinct := (List.nodup_append.mp (List.map_append ▸ h.held.bases)).1
  nonnull b hb := (h.own_block hb).ne_zero
  taken b hb k hk := by
    rw [← u32_of_lt (h.sizes b hb)] at hk
    exact (h.own_block hb).marked hk
  free_own b hb := by
    obtain ⟨i, hi, hslot, hib⟩ := h.found hb
    have hpos := (h.own_block hb).pos
    rw [u32_of_lt (h.sizes b hb), ← (recorded_some.mp hib).2.2] at hpos
    exact ⟨_, processFree_eq_ok.mpr ⟨p, h.running.current_ne, h.running.at_process,
      Or.inr ⟨i, t, hslot, hpos.ne', h.running.task_ne, h.running.at_task, rfl, rfl⟩⟩⟩
  free_other addr ha hno := by
    have hslot : p.allocationOf addr = none := allocationOf_none.mpr (fun i hi heq ↦
      hno (List.mem_map.mpr ⟨_, h.listed hi (heq ▸ ha), heq⟩))
    exact processFree_eq_ok.mpr ⟨p, h.running.current_ne, h.running.at_process,
      Or.inl ⟨hslot, rfl, rfl⟩⟩
  malloc_returns := h.running.malloc_returns

variable {env : ProcessEnv} {filename : List UInt8}
  {s s₀ s₁ s' : KernelState (KHeap whole) Fat16Files}

theorem processNew_owns (hm : Fat16Mounted s.vfs) (henv : env.Words)
    (hnew : processNew env filename s = .ok (addr, s₁)) (ha : addr ≠ 0)
    (hsw : processSwitch addr s₁ = .ok ((), s₀)) : ∃ x t S, Owns s₀ x t S S.runs [] [] := by
  obtain ⟨_, x, t, S, hc⟩ := processNew_made hm henv hnew ha
  cases hsw
  exact ⟨x, t, S, hc.owns⟩

theorem allocation_table_exact (hm : Fat16Mounted s.vfs) (henv : env.Words)
    (hnew : processNew env filename s = .ok (addr, s₁)) (ha : addr ≠ 0)
    (hsw : processSwitch addr s₁ = .ok ((), s₀)) (h : HeapLife s₀ s' own kernel) :
    ∃ p, s'.processes s'.currentProcess = some p ∧ TableExact s' p own := by
  obtain ⟨x, t, S, h₀⟩ := processNew_owns hm henv hnew ha hsw
  obtain ⟨table, hp⟩ := h.owns h₀
  exact ⟨x.withTable table, hp.running.at_process, hp.tableExact⟩

theorem sample_switched {k : ℕ} (hk : k + 1059 ≤ kheapEntryCount) :
    ∃ (s s₁ s₀ : KernelState (KHeap false) Fat16Files) (addr : ℕ),
      Fat16Mounted s.vfs ∧ processNew quietEnv filePath s = .ok (addr, s₁) ∧ addr ≠ 0 ∧
      processSwitch addr s₁ = .ok ((), s₀) ∧ s₀.arena.HasRoom k := by
  have hready := (freshKernel_ready false sampleImage).mono hk
  obtain ⟨addr, s₁, _, _, _, _, _, h, hc, -, -, -, -, hr⟩ := processNew_image sampleImage_image
    hready (by decide) quietEnv_words (freshKernel_pid _ _)
  exact ⟨_, s₁, _, addr, hready.mounted, h, (hc.block _ List.mem_cons_self).ne_zero, rfl, hr.room⟩

theorem sample_allocated : ∃ (s s₁ s₀ s' : KernelState (KHeap false) Fat16Files) (addr base : ℕ),
    Fat16Mounted s.vfs ∧ processNew quietEnv filePath s = .ok (addr, s₁) ∧ addr ≠ 0 ∧
      processSwitch addr s₁ = .ok ((), s₀) ∧ base ≠ 0 ∧ HeapLife s₀ s' [(base, 5000)] [] := by
  obtain ⟨s, s₁, s₀, addr, hm, hnew, ha, hsw, hroom⟩ := @sample_switched 2 (by decide)
  obtain ⟨x, t, S, h₀⟩ := processNew_owns hm quietEnv_words hnew ha hsw
  obtain ⟨base, b, hb, hne, -⟩ := @kzalloc_total _ _ _ 5000 (by decide) 0 s₀.arena hroom
  cases hslot : x.allocationOf 0 with
  | none =>
    have hfirst : 0 < processMaxProcessMemAllocations := by decide
    exact absurd (h₀.listed hfirst (allocationOf_none.mp hslot 0 hfirst)) List.not_mem_nil
  | some i =>
    have hr := processMalloc_eq_ok.mpr ⟨x, h₀.running.current_ne, h₀.running.at_process,
      Or.inr ⟨i, t, b, hslot, h₀.running.task_ne, h₀.running.at_task, hb, rfl⟩⟩
    exact ⟨s, s₁, s₀, _, addr, base, hm, hnew, ha, hsw, hne, .malloc .start (by decide) hr hne⟩

theorem allocation_table_exact_sample :
    ∃ (s' : KernelState (KHeap false) Fat16Files) (p : Process) (base : ℕ),
      base ≠ 0 ∧ TableExact s' p [(base, 5000)] := by
  obtain ⟨s, s₁, s₀, s', addr, base, hm, hnew, ha, hsw, hne, hlife⟩ := sample_allocated
  obtain ⟨p, -, hp⟩ := allocation_table_exact hm quietEnv_words hnew ha hsw hlife
  exact ⟨s', p, base, hne, hp⟩

end Heap

end GammaOS.Kernel
