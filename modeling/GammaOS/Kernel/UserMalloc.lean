import GammaOS.Fs.ReadSeek
import GammaOS.Kernel.Process

namespace GammaOS.Kernel

open Function Foundation Foundation.Program Memory Paging Fs Loader

variable {σ δ : Type} [Allocator σ] {s s' : KernelState σ δ} {r size : ℕ} {p : Process}

/-- The state behind a `process_malloc` of the process `p` that took the slot
`allocation` and was given `base`. -/
def KernelState.afterMalloc (s : KernelState σ δ) (p : Process) (t : Task) (allocation base size : ℕ)
    (b : Arena σ) : KernelState σ δ :=
  { s.setArena { b with mem := (mallocCall base size).run t.taskSpace b.mem } with
    processes := update s.processes s.currentProcess (some (p.record allocation base size)) }

omit [Allocator σ] in
@[simp] theorem afterMalloc_mem (s : KernelState σ δ) (p : Process) (t : Task)
    (allocation base size : ℕ) (b : Arena σ) : (s.afterMalloc p t allocation base size b).arena.mem =
      (mallocCall base size).run t.taskSpace b.mem := rfl

theorem processMalloc_eq_ok : processMalloc size s = .ok (r, s') ↔
    ∃ p, s.currentProcess ≠ 0 ∧ s.processes s.currentProcess = some p ∧
      ((p.allocationOf 0 = none ∧ r = 0 ∧ s' = s) ∨
        ∃ allocation t b, p.allocationOf 0 = some allocation ∧ p.task ≠ 0 ∧
          s.taskList.tasks p.task = some t ∧ kzalloc size s.arena = .ok (r, b) ∧
          s' = s.afterMalloc p t allocation r size b) := by
  constructor
  · intro h
    obtain ⟨_, s₁, h₁, h⟩ := bind_eq_ok.mp h
    cases h₁
    obtain ⟨p, s₂, h₂, h⟩ := bind_eq_ok.mp h
    obtain ⟨hc, hp, rfl⟩ := processAt_eq_ok.mp h₂
    refine ⟨p, hc, hp, ?_⟩
    cases hslot : p.allocationOf 0 with
    | none =>
      rw [hslot] at h
      cases h
      exact Or.inl ⟨rfl, rfl, rfl⟩
    | some allocation =>
      rw [hslot] at h
      obtain ⟨base, s₃, h₃, h⟩ := bind_eq_ok.mp h
      obtain ⟨b, hb, rfl⟩ := onHeap_eq_ok.mp h₃
      obtain ⟨_, s₄, h₄, h⟩ := bind_eq_ok.mp h
      cases h₄
      obtain ⟨t, s₅, h₅, h⟩ := bind_eq_ok.mp h
      obtain ⟨ht0, ht, rfl⟩ := onTasks_taskAt_eq_ok.mp h₅
      obtain ⟨_, s₆, h₆, h⟩ := bind_eq_ok.mp h
      obtain ⟨c, hc', rfl⟩ := onHeap_eq_ok.mp h₆
      cases onMem_eq_ok.mp hc'
      cases h
      exact Or.inr ⟨allocation, t, b, rfl, ht0, ht, hb, rfl⟩
  · rintro ⟨p, hc, hp, h⟩
    have hget : processAt s.currentProcess s = .ok (p, s) := processAt_eq_ok.mpr ⟨hc, hp, rfl⟩
    rw [processMalloc, bind_run_ok (gets_run _ _), bind_run_ok hget]
    rcases h with ⟨hslot, rfl, rfl⟩ | ⟨allocation, t, b, hslot, ht0, ht, hb, rfl⟩
    · rw [hslot]
      rfl
    · have htask : ∀ u : KernelState σ δ, u.taskList = s.taskList →
          onTasks (taskAt p.task) u = .ok (t, u) :=
        fun u hu ↦ onTasks_taskAt_eq_ok.mpr ⟨ht0, hu ▸ ht, rfl⟩
      rw [hslot]
      refine (bind_run_ok (onHeap_eq_ok.mpr ⟨b, hb, rfl⟩)).trans ?_
      refine (bind_run_ok (modifyState_run _ _)).trans ?_
      refine (bind_run_ok (htask _ (by rfl))).trans ?_
      exact bind_run_ok (a := ()) (onHeap_eq_ok.mpr ⟨_, onMem_eq_ok.mpr (by rfl), by rfl⟩)

theorem allocationLoop_some {memAllocations : ℕ → ℕ} {addr : ℕ} : ∀ n k {allocation : ℕ},
    allocationLoop memAllocations addr n k = some allocation →
      k ≤ allocation ∧ allocation < k + n ∧ memAllocations allocation = addr := by
  intro n
  induction n with
  | zero => intro k allocation h; cases h
  | succ n ih =>
    intro k allocation h
    rw [allocationLoop] at h
    split at h
    · cases h
      exact ⟨Nat.le_refl k, by omega, ‹_›⟩
    · obtain ⟨h₁, h₂, h₃⟩ := ih (k + 1) h
      exact ⟨by omega, by omega, h₃⟩

theorem allocationOf_some {addr allocation : ℕ} (h : p.allocationOf addr = some allocation) :
    allocation < processMaxProcessMemAllocations ∧ p.memAllocations allocation = addr := by
  obtain ⟨-, h₁, h₂⟩ := allocationLoop_some _ _ h
  exact ⟨by omega, h₂⟩

/-- The allocation in a slot, with its size: none where the slot is free. -/
def Process.recorded (p : Process) (allocation : ℕ) : Option (ℕ × ℕ) :=
  if p.memAllocations allocation = 0 then none
  else some (p.memAllocations allocation, p.memAllocationsSize allocation)

theorem recorded_null {allocation : ℕ} (h : p.memAllocations allocation = 0) (size : ℕ) :
    (p.record allocation 0 size).recorded = p.recorded := by
  funext i
  unfold Process.recorded Process.record
  by_cases hi : i = allocation
  · rw [hi]
    simp only [update_self, if_true, h]
  · simp only [update_of_ne hi]

/-- The call left the allocations of the process, the heap and the address
space of its task as they were. -/
structure MallocUnchanged (s s' : KernelState σ δ) (p : Process) (t : Task) : Prop where
  heap : s'.arena.heap = s.arena.heap
  recorded : ∃ p', s'.processes s.currentProcess = some p' ∧ p'.recorded = p.recorded
  entry : ∀ v < 2 ^ 32, v % pageSize = 0 →
    pagingVirtToPhy s'.arena.mem t.taskSpace v = pagingVirtToPhy s.arena.mem t.taskSpace v

/-- No slot is free, or no page is mapped, or the pages from 0 on that are
mapped for the size are mapped so already. -/
def MallocHarmless (p : Process) (m : ByteMemory) (S : Space) (size : ℕ) : Prop :=
  p.allocationOf 0 = none ∨ size = 0 ∨ 2 ^ 32 - pageSize < size ∨
    ∀ v, v < size → v % pageSize = 0 →
      entries m S v = v ||| (pagePresent ||| pageWriteAccess ||| pageUserAccess)

theorem mallocCall_null (hsize : size < 2 ^ 32) :
    (mallocCall 0 size).Valid ∧ (mallocCall 0 size).Accepted ∧ ∀ v < 2 ^ 32, v % pageSize = 0 →
      (mallocCall 0 size).valueAt v = v ||| (pagePresent ||| pageWriteAccess ||| pageUserAccess) ∧
      ((mallocCall 0 size).Covers v ↔ v < size ∧ size ≤ 2 ^ 32 - pageSize) := by
  have hend : pagingAlignToPageUpper (u32 (0 + u32 (size + pageSize - 1) / pageSize * pageSize)) =
      u32 (size + pageSize - 1) / pageSize * pageSize := by
    have hlt : u32 (size + pageSize - 1) / pageSize * pageSize < 2 ^ 32 :=
      Nat.lt_of_le_of_lt (Nat.div_mul_le_self _ _) (u32_lt _)
    rw [Nat.zero_add, u32_of_lt hlt, pagingAlignToPageUpper, if_neg]
    rw [Nat.mul_mod_left]
    exact not_not.mpr rfl
  have hlow : pagingAlignToPageLower 0 = 0 := rfl
  have hsub : ∀ v < 2 ^ 32, subU32 v 0 = v := fun v hv ↦ by
    rw [subU32_of_le (Nat.zero_le v) hv, Nat.sub_zero]
  have hflags : pagePresent ||| pageWriteAccess ||| pageUserAccess < pageSize := by decide
  refine ⟨⟨Nat.two_pow_pos 32, Nat.two_pow_pos 32, alignToPageUpper_lt (u32_lt _), hflags⟩,
    ⟨rfl, rfl, alignToPageUpper_aligned _, Nat.zero_le _⟩, fun v hv hva ↦ ⟨?_, ?_⟩⟩
  · change (pagingAlignToPageLower 0 + subU32 v 0) ||| _ = _
    rw [hlow, hsub v hv, Nat.zero_add]
    rfl
  · change subU32 v 0 < pagingAlignToPageUpper _ - pagingAlignToPageLower 0 ↔ _
    rw [hend, hlow, hsub v hv]
    unfold u32
    unfold pageSize at *
    omega

theorem nullMalloc_entries {m : ByteMemory} {S : Space} (hS : Holds m S) (hsize : size < 2 ^ 32) :
    Holds ((mallocCall 0 size).run S.vspace m) S ∧ ∀ v < 2 ^ 32, v % pageSize = 0 →
      entries ((mallocCall 0 size).run S.vspace m) S v =
        if v < size ∧ size ≤ 2 ^ 32 - pageSize
        then v ||| (pagePresent ||| pageWriteAccess ||| pageUserAccess) else entries m S v := by
  obtain ⟨hval, hacc, hcall⟩ := mallocCall_null hsize
  obtain ⟨hh, he⟩ := (mallocCall 0 size).run_entries hval hS
  refine ⟨hh, fun v hv hva ↦ ?_⟩
  obtain ⟨hvalue, hcov⟩ := hcall v hv hva
  rw [he v hv hva, PageMap.mapRange, hvalue]
  exact if_congr ⟨fun h ↦ hcov.mp h.2, fun h ↦ ⟨hacc, hcov.mpr h⟩⟩ rfl rfl

/-- A `process_malloc` that returns 0 leaves everything as it was exactly when
it is harmless. -/
theorem failed_malloc_unchanged_iff {δ : Type} {s s' : KernelState (KHeap false) δ} {p : Process}
    {t : Task} {S : Space} {size : ℕ} (hp : s.processes s.currentProcess = some p)
    (ht : s.taskList.tasks p.task = some t) (hS : Holds s.arena.mem S)
    (hspace : S.vspace = t.taskSpace) (hsize : size < 2 ^ 32)
    (h : processMalloc size s = .ok (0, s')) :
    MallocUnchanged s s' p t ↔ MallocHarmless p s.arena.mem S size := by
  obtain ⟨p', -, hp', h⟩ := processMalloc_eq_ok.mp h
  cases hp.symm.trans hp'
  rcases h with ⟨hslot, -, rfl⟩ | ⟨allocation, t', b, hslot, -, ht', hb, rfl⟩
  · exact iff_of_true ⟨rfl, ⟨p, hp, rfl⟩, fun _ _ _ ↦ rfl⟩ (Or.inl hslot)
  cases ht.symm.trans ht'
  have hheap : b = s.arena := KHeap.arena_null hb
  subst hheap
  obtain ⟨hh, he⟩ := nullMalloc_entries hS hsize
  have hmem : (s.afterMalloc p t allocation 0 size s.arena).arena.mem =
      (mallocCall 0 size).run S.vspace s.arena.mem := by
    rw [hspace, afterMalloc_mem]
  constructor
  · intro hu
    by_cases h₁ : size = 0 ∨ 2 ^ 32 - pageSize < size
    · exact Or.inr (h₁.imp_right Or.inl)
    · refine Or.inr (Or.inr (Or.inr (fun v hv hva ↦ ?_)))
      have hentry := hu.entry v (by omega) hva
      rw [hmem, ← hspace, hh.virtToPhy_eq (by omega) hva, hS.virtToPhy_eq (by omega) hva,
        he v (by omega) hva, if_pos ⟨hv, by omega⟩, Option.some.injEq] at hentry
      exact hentry.symm
  · intro hm
    refine ⟨rfl, ⟨p.record allocation 0 size, update_self _ _ _,
      recorded_null (allocationOf_some hslot).2 size⟩, fun v hv hva ↦ ?_⟩
    rw [hmem, ← hspace, hh.virtToPhy_eq hv hva, hS.virtToPhy_eq hv hva, he v hv hva]
    congr 1
    rcases hm with hm | hm | hm | hm
    · rw [hslot] at hm
      cases hm
    · rw [if_neg (by omega)]
    · rw [if_neg (by omega)]
    · by_cases hcov : v < size ∧ size ≤ 2 ^ 32 - pageSize
      · rw [if_pos hcov, hm v hcov.1 hva]
      · rw [if_neg hcov]

def idleProcess : Process := newProcess 0 [] 2 (.bin 0 0) 0

def idleKernel (b : Arena (KHeap false)) (vspace : ℕ) : KernelState (KHeap false) Unit where
  vfs := ⟨⟨b, ()⟩, fun _ ↦ none, fun _ ↦ none⟩
  taskList := TaskList.empty.setTask 2
    (some ⟨vspace, initRegisters (fun _ ↦ 0) (fun _ ↦ 0) (.bin 0 0), 1, 0, 0⟩)
  processes p := if p = 1 then some idleProcess else none
  processList _ := 0
  currentProcess := 1
  kernelSpace := 0
  currentPageDirectory := 0

theorem exhausted_malloc : ∃ (s s' : KernelState (KHeap false) Unit) (p : Process) (t : Task)
    (S : Space), s.processes s.currentProcess = some p ∧ s.taskList.tasks p.task = some t ∧
      Holds s.arena.mem S ∧ S.vspace = t.taskSpace ∧
      processMalloc 0x10000000 s = .ok (0, s') ∧
      entries s.arena.mem S 0 = pagePresent ||| pageUserAccess ∧
      s'.arena.mem = (mallocCall 0 0x10000000).run S.vspace s.arena.mem := by
  obtain ⟨v, b, hb, -⟩ := createVirtualAddressSpace_total (pagePresent ||| pageUserAccess) 0
    (⟨KHeap.init (fun _ ↦ 0), fun _ ↦ 0⟩ : Arena (KHeap false))
    (RoomyAllocator.room_mono _ _ _ (by decide) (KHeap.init_room _))
  obtain ⟨S, rfl, hS⟩ := createVirtualAddressSpace_made (by decide) hb
  have hslot : idleProcess.allocationOf 0 = some 0 := by decide +kernel
  have hlarge : kheapEntryCount < blocksOf (u32 0x10000000) := by decide +kernel
  have hb' : kzalloc 0x10000000 (idleKernel b S.vspace).arena = .ok (0, b) :=
    KHeap.kzalloc_large hlarge
  have hrun := processMalloc_eq_ok.mpr ⟨idleProcess, Nat.one_ne_zero, rfl, Or.inr ⟨0, _, b, hslot,
    Nat.two_pos.ne', rfl, hb', rfl⟩⟩
  refine ⟨idleKernel b S.vspace, _, idleProcess, _, S, rfl, rfl, hS.holds, rfl, hrun, ?_,
    afterMalloc_mem _ _ _ _ _ _ _⟩
  exact (hS.identity 0 (by decide) (by decide)).trans (Nat.zero_or _)

theorem failed_malloc_unchanged_iff_exhausted :
    ∃ (s s' : KernelState (KHeap false) Unit) (p : Process) (t : Task) (S : Space),
      processMalloc 0x10000000 s = .ok (0, s') ∧
      (MallocUnchanged s s' p t ↔ MallocHarmless p s.arena.mem S 0x10000000) := by
  obtain ⟨s, s', p, t, S, hp, ht, hS, hspace, h, -⟩ := exhausted_malloc
  exact ⟨s, s', p, t, S, h, failed_malloc_unchanged_iff hp ht hS hspace (by decide) h⟩

/-- The request is refused, and makes page 0 writable by the user. -/
theorem failed_malloc_maps_zero : ∃ (s s' : KernelState (KHeap false) Unit) (p : Process)
    (t : Task), s.processes s.currentProcess = some p ∧ s.taskList.tasks p.task = some t ∧
      processMalloc 0x10000000 s = .ok (0, s') ∧
      pagingVirtToPhy s.arena.mem t.taskSpace 0 = some (pagePresent ||| pageUserAccess) ∧
      pagingVirtToPhy s'.arena.mem t.taskSpace 0 =
        some (pagePresent ||| pageWriteAccess ||| pageUserAccess) ∧
      ¬ MallocUnchanged s s' p t := by
  obtain ⟨s, s', p, t, S, hp, ht, hS, hspace, h, h₀, hm⟩ := exhausted_malloc
  obtain ⟨hh, he⟩ := @nullMalloc_entries 0x10000000 _ _ hS (by decide)
  have hbefore : pagingVirtToPhy s.arena.mem t.taskSpace 0 =
      some (pagePresent ||| pageUserAccess) := by
    rw [← hspace, hS.virtToPhy_eq (by decide) (by decide), h₀]
  have hafter : pagingVirtToPhy s'.arena.mem t.taskSpace 0 =
      some (pagePresent ||| pageWriteAccess ||| pageUserAccess) := by
    rw [← hspace, hm, hh.virtToPhy_eq (by decide) (by decide), he 0 (by decide) (by decide)]
    rfl
  refine ⟨s, s', p, t, hp, ht, h, hbefore, hafter, fun hu ↦ ?_⟩
  have hentry := hu.entry 0 (by decide) (by decide)
  rw [hbefore, hafter] at hentry
  exact absurd hentry (by decide)

end GammaOS.Kernel
