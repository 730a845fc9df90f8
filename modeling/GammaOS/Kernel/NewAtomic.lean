import GammaOS.Kernel.FileProcess

namespace GammaOS.Kernel

open Function Foundation Foundation.Program Memory Paging Fs Loader

section Leak

variable {σ : Type} [Allocator σ] [LawfulAllocator σ] {s t : Vfs σ Fat16Files} {env : LoadEnv}
  {filename : List UInt8}

/-- The struct that the first `parse_path` allocates in `s` is still allocated in `t`. -/
def LeavesPath (s t : Arena σ) : Prop :=
  ∃ p a, kzalloc 8 s = .ok (p, a) ∧ p ≠ 0 ∧ Kept (blockRun p 8) a t

omit [LawfulAllocator σ] in
theorem LeavesPath.kept {a b c : Arena σ} (h : LeavesPath a b)
    (hk : ∀ r ∈ b.live, Kept r b c) : LeavesPath a c := by
  obtain ⟨p, a', ha, hp, hl⟩ := h
  exact ⟨p, a', ha, hp, hl.trans (hk _ hl.live)⟩

theorem gloaderLoadElf_leavesPath (hm : Fat16Mounted s) (henv : env.stat.size < 2 ^ 32)
    {y : ℤ × Option ElfFile} (h : gloaderLoadElf env filename s = .ok (y, t)) :
    LeavesPath s.drive.arena t.drive.arena := by
  obtain ⟨fd, s₁, h₁, -, hload⟩ := gloaderLoadElf_opened hm henv h
  obtain ⟨path, a, ha, hopen⟩ := fopen_parsed hm h₁ (by decide)
  obtain ⟨p, b, hb, hp, hparse⟩ := parsePath_result ha
  have hp0 : p ≠ 0 := hp (by simp)
  have hlive := (kzalloc_granted hb hp0).block.live
  obtain ⟨hk, hoff⟩ := hopen _ b (hparse _ b (Kept.refl hlive))
  exact ⟨p, b, hb, hp0, hload _ b hk hoff⟩

theorem processLoadData_leavesPath {env : ProcessEnv} (hm : Fat16Mounted s) (henv : env.Words)
    {y : ℤ × Option ProcessData} (h : processLoadData env filename s = .ok (y, t)) :
    LeavesPath s.drive.arena t.drive.arena := by
  obtain ⟨⟨status, data⟩, s₁, h₁, h⟩ := bind_eq_ok.mp h
  obtain ⟨⟨status', elfFile⟩, s₂, h₂, h₁⟩ := bind_eq_ok.mp h₁
  have hleaves := gloaderLoadElf_leavesPath hm henv.1 h₂
  have hf := gloaderLoadElf_frame hm henv.1 h₂
  dsimp only at h₁
  by_cases hneg : status' < 0
  · rw [if_pos hneg] at h₁
    cases h₁
    dsimp only at h
    rw [if_pos (by decide)] at h
    obtain ⟨⟨status₃, data₃⟩, s₃, h₃, h⟩ := bind_eq_ok.mp h
    have hm₁ : Fat16Mounted s₁ := fun drive fs hfs ↦ hm drive fs (hf.disks ▸ hfs)
    have hb := processLoadBinary_frame hm₁ henv.2 h₃
    have hs₃ : s₃ = t := by
      dsimp only at h
      split at h <;> cases h <;> rfl
    exact hs₃ ▸ hleaves.kept hb.frame.grows
  · rw [if_neg hneg] at h₁
    cases h₁
    dsimp only at h
    rw [if_neg (by decide)] at h
    cases h
    exact hleaves

end Leak

variable {s s' : KernelState (KHeap true) Fat16Files} {env : ProcessEnv} {filename : List UInt8}
  {whole : Bool} {p n : ℕ}

/-- Nothing that the kernel keeps of its processes has changed. -/
structure Unchanged (s s' : KernelState (KHeap whole) Fat16Files) : Prop where
  entries : ∀ i < kheapEntryCount, s'.arena.heap.heap.entryTable.entries i =
    s.arena.heap.heap.entryTable.entries i
  fdList : s'.vfs.fdList = s.vfs.fdList
  processes : s'.processes = s.processes
  processList : s'.processList = s.processList
  taskList : s'.taskList = s.taskList
  currentProcess : s'.currentProcess = s.currentProcess

def Refused (env : ProcessEnv) (filename : List UInt8) (s : KernelState (KHeap whole) Fat16Files) :
    Prop :=
  ∃ s', processNew env filename s = .ok (0, s') ∧ Unchanged s s'

theorem Prepared.changes {process stack : ℕ} {status : ℤ} {data : Option ProcessData}
    {s₁ : KernelState (KHeap true) Fat16Files} (hm : Fat16Mounted s.vfs) (henv : env.Words)
    (h : Prepared env filename s process stack status data s₁)
    (hkeep : ∀ r ∈ s₁.arena.live, Off r process → Off r stack → Kept r s₁.arena s'.arena) :
    ¬ Unchanged s s' := by
  obtain ⟨ha, hp, -, hb, hst, hv⟩ := h
  rename_i a b v
  obtain ⟨p, c, hc, hp0, hk⟩ := processLoadData_leavesPath (s := (s.setArena b).vfs) hm henv hv
  have g := kzalloc_granted hc hp0
  have hpBlock := (kzalloc_granted ha hp).block
  have hpLive := (kzalloc_grows hb _ hpBlock.live).live
  have hsBlock := (kzalloc_granted hb hst).block
  have hoff : ∀ {q n : ℕ}, Block b q n → Off (blockRun p 8) q := fun hq ↦
    hq.off (fun i hi hj ↦ g.apart _ hq.live i hj hi)
  have hlive := (hkeep _ hk.live (hoff (hpBlock.keep hpLive)) (hoff hsBlock)).live
  obtain ⟨i, hi, hfree, htaken⟩ := KHeap.kept_marked hc hp0 hlive
  intro hu
  exact htaken ((hu.entries i hi).trans (KHeap.kzalloc_free ha (KHeap.kzalloc_free hb hfree)))

theorem processNew_noStruct {a : Arena (KHeap true)} (ha : kzalloc processSize s.arena = .ok (0, a)) :
    processNew env filename s = .ok (0, s.setArena a) := by
  rw [processNew, bind_run_ok (onHeap_eq_ok.mpr ⟨a, ha, rfl⟩)]
  rfl

theorem processNew_noStack {process : ℕ} {a b : Arena (KHeap true)}
    (ha : kzalloc processSize s.arena = .ok (process, a)) (hp : process ≠ 0)
    (hname : filename.length < processNameRoom)
    (hb : kzalloc processMaxProcessStackSize a = .ok (0, b)) :
    processNew env filename s = .ok (0, s.setArena (freed process b)) := by
  have hb' : onHeap (kzalloc processMaxProcessStackSize) (s.setArena a) =
      .ok (0, s.setArena b) := onHeap_eq_ok.mpr ⟨b, hb, rfl⟩
  rw [processNew, bind_run_ok (onHeap_eq_ok.mpr ⟨a, ha, rfl⟩), if_neg hp,
    bind_run_ok (gets_run _ _), if_neg (pid_ne_error _), bind_run_ok (require_run hname),
    bind_run_ok hb', if_pos rfl]
  exact bind_run_ok (a := ()) (onHeap_kfree _)

/-- `process_new` returns null and has changed nothing exactly when the heap
has no blocks for its struct, or then none for its stack: from its load on it
leaves the struct of a path behind, or it does not return. -/
theorem processNew_refused_iff (hm : Fat16Mounted s.vfs) (henv : env.Words) :
    Refused env filename s ↔ OutOfMemory filename s := by
  constructor
  · rintro ⟨s', h, hu⟩
    rcases (processNew_result h).keeps hm henv with ⟨hout, -⟩ |
      ⟨process, stack, status, data, s₁, hprep,
      hkeep⟩
    · exact hout
    · exact absurd hu (hprep.changes hm henv hkeep)
  · rintro (⟨a, ha⟩ | ⟨process, a, b, ha, hp, hname, hb⟩)
    · refine ⟨_, processNew_noStruct ha, ?_⟩
      rw [KHeap.arena_null ha]
      exact ⟨fun _ _ ↦ rfl, rfl, rfl, rfl, rfl, rfl⟩
    · refine ⟨_, processNew_noStack ha hp hname hb, ?_⟩
      rw [KHeap.arena_null hb]
      exact ⟨fun i _ ↦ KHeap.kfree_kzalloc ha hp i, rfl, rfl, rfl, rfl, rfl⟩

def missingPath : List UInt8 := [65, 58, 47, 71]

/-- `process_new` returns null for a file that is not there, and has changed the heap. -/
theorem missing_file_leaks : ∃ s', processNew quietEnv missingPath (freshKernel true sampleImage) =
    .ok (0, s') ∧ (freshKernel true sampleImage).arena.heap.heap.entryTable.entries 19 =
      heapBlockEntryFree ∧ s'.arena.heap.heap.entryTable.entries 19 ≠ heapBlockEntryFree ∧
      ¬ Refused quietEnv missingPath (freshKernel true sampleImage) := by
  obtain ⟨p, s', hrun, htest⟩ := @of_passes _ _ _ (processNew quietEnv missingPath)
    (freshKernel true sampleImage) (fun p s ↦ decide (p = 0 ∧
      s.arena.heap.heap.entryTable.entries 19 ≠ heapBlockEntryFree)) (by decide +kernel)
  obtain ⟨rfl, htaken⟩ := of_decide_eq_true htest
  have hfree : (freshKernel true sampleImage).arena.heap.heap.entryTable.entries 19 =
      heapBlockEntryFree := by decide +kernel
  refine ⟨s', hrun, hfree, htaken, ?_⟩
  rintro ⟨s₁, hs₁, hu⟩
  cases hrun.symm.trans hs₁
  exact htaken ((hu.entries 19 (by decide)).trans hfree)

theorem processNew_refused_iff_missing :
    Refused quietEnv missingPath (freshKernel true sampleImage) ↔
      OutOfMemory missingPath (freshKernel true sampleImage) :=
  processNew_refused_iff (freshKernel_ready true sampleImage).mounted quietEnv_words

end GammaOS.Kernel
