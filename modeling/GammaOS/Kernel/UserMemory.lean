import GammaOS.Kernel.CreatedProcess
import GammaOS.Kernel.UserMalloc

namespace GammaOS.Kernel

open Function Foundation Foundation.Program Memory Paging Fs Loader

variable {σ δ : Type} [Allocator σ] {s s' : KernelState σ δ} {p : Process} {t : Task}
  {S T : Space} {a b : Arena σ} {c : MapCall} {base size v : ℕ} {r : Run}

structure Running (s : KernelState σ δ) (p : Process) (t : Task) (S : Space) : Prop where
  current_ne : s.currentProcess ≠ 0
  at_process : s.processes s.currentProcess = some p
  task_ne : p.task ≠ 0
  at_task : s.taskList.tasks p.task = some t
  space : S.vspace = t.taskSpace
  holds : Holds s.arena.mem S
  live : ∀ r ∈ S.runs, r ∈ s.arena.live

theorem Holds.grows (h : Holds a.mem S) (hl : ∀ r ∈ S.runs, r ∈ a.live) (hg : Grows a b) :
    Holds b.mem S ∧ ∀ v < 2 ^ 32, entries b.mem S v = entries a.mem S v :=
  h.frame (fun r hr ↦ (hg r (hl r hr)).bytes)

theorem run_kept (hc : c.Valid) (h : Holds b.mem S) (hr : r ∈ b.live)
    (hap : ∀ q ∈ S.runs, q.Apart r) : Kept r b { b with mem := c.run S.vspace b.mem } :=
  ⟨hr, fun _ hi ↦ c.run_outside hc h (Space.offTables_of_apart hap hi)⟩

theorem mallocCall_valid (hb : base < 2 ^ 32) : (mallocCall base size).Valid where
  vaddr_lt := hb
  paddr_lt := Nat.lt_of_le_of_lt (alignToPageLower_le base) hb
  endaddr_lt := alignToPageUpper_lt (u32_lt _)
  flags_lt := by
    show pagePresent ||| pageWriteAccess ||| pageUserAccess < pageSize
    decide

theorem mallocCall_block (ha : base % pageSize = 0) (hsize : 0 < size)
    (hend : base + pageSize * blocksOf size < 2 ^ 32) :
    (mallocCall base size).Accepted ∧
      ∀ v < 2 ^ 32, v % pageSize = 0 →
        ((mallocCall base size).Covers v ↔ base ≤ v ∧ v < base + size) ∧
        ((mallocCall base size).Covers v →
          (mallocCall base size).valueAt v =
            v ||| (pagePresent ||| pageWriteAccess ||| pageUserAccess)) := by
  have hlow := alignToPageLower_of_aligned ha
  have hle := lt_blocksOf size
  have hpages : u32 (size + pageSize - 1) / pageSize * pageSize = pageSize * blocksOf size := by
    unfold blocksOf kernelHbSize u32
    unfold pageSize at *
    omega
  have hup : pagingAlignToPageUpper
      (u32 (base + u32 (size + pageSize - 1) / pageSize * pageSize)) =
        base + pageSize * blocksOf size := by
    rw [hpages, u32_of_lt hend, alignToPageUpper_of_aligned]
    rw [Nat.add_mul_mod_self_left, ha]
  have hcov : ∀ v < 2 ^ 32, v % pageSize = 0 →
      ((mallocCall base size).Covers v ↔ base ≤ v ∧ v < base + size) := by
    intro v hv hva
    change subU32 v base < pagingAlignToPageUpper _ - pagingAlignToPageLower base ↔ _
    rw [hup, hlow]
    unfold subU32 u32 blocksOf kernelHbSize
    unfold blocksOf kernelHbSize at hend
    unfold pageSize at *
    omega
  refine ⟨⟨ha, alignToPageLower_aligned base, alignToPageUpper_aligned _, ?_⟩, fun v hv hva ↦
    ⟨hcov v hv hva, fun hc ↦ ?_⟩⟩
  · show pagingAlignToPageLower base ≤ pagingAlignToPageUpper _
    rw [hup, hlow]
    exact Nat.le_add_right _ _
  · have hge := ((hcov v hv hva).mp hc).1
    change (pagingAlignToPageLower base + subU32 v base) ||| _ = _
    rw [hlow, subU32_of_le hge hv, Nat.add_sub_cancel' hge]
    rfl

/-- Behind the call the pages that overlap the `size` bytes at `base`, and no
others of any address space, are the user's, and the bytes are zero. -/
structure MapsItsPages (s s' : KernelState σ δ) (S : Space) (base size : ℕ) : Prop where
  own : ∀ v < 2 ^ 32, v % pageSize = 0 → v < base + size → base < v + pageSize →
    pagingVirtToPhy s'.arena.mem S.vspace v =
      some (v ||| (pagePresent ||| pageWriteAccess ||| pageUserAccess))
  other : ∀ v < 2 ^ 32, v % pageSize = 0 → ¬ (v < base + size ∧ base < v + pageSize) →
    pagingVirtToPhy s'.arena.mem S.vspace v = pagingVirtToPhy s.arena.mem S.vspace v
  spaces : ∀ T, Holds s.arena.mem T → (∀ r ∈ T.runs, r ∈ s.arena.live) → S.Apart T →
    ∀ v < 2 ^ 32, v % pageSize = 0 →
      pagingVirtToPhy s'.arena.mem T.vspace v = pagingVirtToPhy s.arena.mem T.vspace v
  zeroed : ∀ i, base ≤ i → i < base + size → s'.arena.mem i = 0

/-- A `process_malloc` that is given memory maps exactly its pages. -/
theorem malloc_maps_its_pages {whole : Bool} {s s' : KernelState (KHeap whole) δ}
    (h : Running s p t S) (hsize : size < 2 ^ 32) (hr : processMalloc size s = .ok (base, s'))
    (hne : base ≠ 0) : MapsItsPages s s' S base size := by
  obtain ⟨p', -, hp', hr⟩ := processMalloc_eq_ok.mp hr
  cases h.at_process.symm.trans hp'
  rcases hr with ⟨-, h0, -⟩ | ⟨allocation, t', b, -, -, ht', hb, rfl⟩
  · exact absurd h0 hne
  cases h.at_task.symm.trans ht'
  obtain ⟨hblock, htaken⟩ := kzalloc_taken hb hne
  have hgrows := kzalloc_grows hb
  have hgranted := kzalloc_granted hb hne
  have hin := (KHeap.kzalloc_inside hb hne).2
  have hpos := hblock.pos
  rw [u32_of_lt hsize] at hin hpos
  have hend : base + pageSize * blocksOf size < 2 ^ 32 := by
    unfold kernelHeapBase kernelHeapSize at hin
    omega
  have hval : (mallocCall base size).Valid := mallocCall_valid hblock.lt
  obtain ⟨hacc, hcall⟩ := mallocCall_block hblock.aligned hpos hend
  obtain ⟨hh, hentries⟩ := Holds.grows h.holds h.live hgrows
  obtain ⟨hh', hentries'⟩ := (mallocCall base size).run_entries hval hh
  have hap : ∀ q ∈ S.runs, q.Apart (blockRun base size) :=
    fun q hq ↦ (htaken.fresh _ (List.mem_singleton_self _) q (h.live q hq)).symm
  have hkept := run_kept hval hh hblock.live hap
  have hmem : (s.afterMalloc p t allocation base size b).arena.mem =
      (mallocCall base size).run S.vspace b.mem := by
    rw [h.space]
    rfl
  refine ⟨fun v hv hva h₁ h₂ ↦ ?_, fun v hv hva hno ↦ ?_, fun T hT hlive hapart v hv hva ↦ ?_,
    fun i h₁ h₂ ↦ ?_⟩
  · obtain ⟨hcov, hvalue⟩ := hcall v hv hva
    have hc := hcov.mpr ⟨by have := hblock.aligned; unfold pageSize at *; omega, h₁⟩
    rw [hmem, hh'.virtToPhy_eq hv hva, hentries' v hv hva, PageMap.mapRange, if_pos ⟨hacc, hc⟩,
      hvalue hc]
  · obtain ⟨hcov, -⟩ := hcall v hv hva
    have hc : ¬ (mallocCall base size).Covers v := by
      intro hc
      obtain ⟨h₁, h₂⟩ := hcov.mp hc
      exact hno ⟨h₂, by unfold pageSize; omega⟩
    rw [hmem, hh'.virtToPhy_eq hv hva, h.holds.virtToPhy_eq hv hva, hentries' v hv hva,
      PageMap.mapRange, if_neg (fun hh ↦ hc hh.2), hentries v hv]
  · obtain ⟨hT₁, he₁⟩ := Holds.grows hT hlive hgrows
    obtain ⟨hT₂, he₂⟩ := hT₁.frame (fun q hq ↦ (run_kept hval hh (hgrows q (hlive q hq)).live
      (fun r hr ↦ hapart r hr q hq)).bytes)
    rw [hmem, hT₂.virtToPhy_eq hv hva, hT.virtToPhy_eq hv hva, he₂ v hv, he₁ v hv]
  · rw [hmem]
    exact (hkept.bytes i (hblock.asked_mem hsize h₁ h₂)).trans
      (hgranted.zeroed i h₁ (by rwa [u32_of_lt hsize]))

theorem idleKernel_running {k : ℕ} (hk : k + 1027 ≤ kheapEntryCount) :
    ∃ (s : KernelState (KHeap false) Unit) (t : Task) (S : Space),
      Running s idleProcess t S ∧ s.arena.HasRoom k := by
  obtain ⟨v, b, hb, -, hroom⟩ := createVirtualAddressSpace_total (pagePresent ||| pageUserAccess) k
    (⟨KHeap.init (fun _ ↦ 0), fun _ ↦ 0⟩ : Arena (KHeap false))
    (RoomyAllocator.room_mono _ _ _ hk (KHeap.init_room _))
  obtain ⟨S, rfl, hS⟩ := createVirtualAddressSpace_made (by decide) hb
  exact ⟨idleKernel b S.vspace, _, S,
    ⟨Nat.one_ne_zero, rfl, Nat.two_pos.ne', rfl, rfl, hS.holds, hS.runs_live⟩, hroom⟩

theorem malloc_maps_its_pages_idle : ∃ (s s' : KernelState (KHeap false) Unit) (t : Task)
    (S : Space) (base : ℕ), Running s idleProcess t S ∧ processMalloc 5000 s = .ok (base, s') ∧
      base ≠ 0 ∧ MapsItsPages s s' S base 5000 := by
  obtain ⟨s, t, S, h, hroom⟩ := @idleKernel_running 2 (by decide)
  obtain ⟨base, b, hb, hne, -⟩ := @kzalloc_total _ _ _ 5000 (by decide) 0 s.arena hroom
  have hslot : idleProcess.allocationOf 0 = some 0 := by decide +kernel
  have hrun := processMalloc_eq_ok.mpr ⟨idleProcess, h.current_ne, h.at_process,
    Or.inr ⟨0, t, b, hslot, h.task_ne, h.at_task, hb, rfl⟩⟩
  exact ⟨s, _, t, S, base, h, hrun, hne, malloc_maps_its_pages h (by decide) hrun hne⟩

end GammaOS.Kernel
