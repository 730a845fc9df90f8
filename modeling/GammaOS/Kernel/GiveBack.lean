import GammaOS.Kernel.FileProcess
import GammaOS.Kernel.KilledProcess
import GammaOS.Kernel.UserFree

namespace GammaOS.Kernel

open Function Foundation Foundation.Program Memory Paging Fs Loader

inductive UserOp
  | malloc (size : ℕ)
  | free (base : ℕ)

def UserOp.Valid : UserOp → Prop
  | malloc size => size < 2 ^ 32
  | free base => base ≠ 0 ∧ base < 2 ^ 32

variable {σ δ : Type}

def UserOp.run [Allocator σ] : UserOp → KernelM σ δ ℕ
  | malloc size => processMalloc size
  | free base => processFree base

def runUserOps [Allocator σ] : List UserOp → KernelM σ δ Unit
  | [] => pure ()
  | op :: ops => do
    let _ ← op.run
    runUserOps ops

def KernelState.restartLog (s : KernelState (KHeap true) δ) : KernelState (KHeap true) δ :=
  s.setArena { s.arena with heap := { s.arena.heap with log := [] } }

def ProcessLife (env : ProcessEnv) (filename : List UInt8) (ops : List UserOp)
    (s s' : KernelState (KHeap true) Fat16Files) : Prop :=
  ∃ p s₁ s₂ r, processNew env filename s.restartLog = .ok (p, s₁) ∧ p ≠ 0 ∧
    (∀ op ∈ ops, op.Valid) ∧
    (do
      processSwitch p
      runUserOps ops) s₁ = .ok ((), s₂) ∧ processKill p s₂ = .ok (r, s')

/-- Every run of blocks that was taken since the log was empty is given back
once, nothing else is, and the table is as it was. -/
structure GivesBack (h h' : KHeap true) : Prop where
  freed_once : ∀ r, h'.log.count (.gave (some r)) = h'.log.count (.took r)
  no_stray : HeapEvent.gave none ∉ h'.log
  table : ∀ i < kheapEntryCount, h'.heap.entryTable.entries i = h.heap.entryTable.entries i

variable {s s' : KernelState (KHeap true) Fat16Files} {p : ℕ}

theorem freed_twice_log (q : ℕ) (b : Arena (KHeap true)) :
    HeapEvent.gave none ∈ (freed q (freed q b)).heap.log := by
  have hnone : (freed q b).heap.blocks.find?
      (fun r ↦ decide ((freed q b).heap.heap.blockOf (u32 q) ∈ r)) = none := by
    refine List.find?_eq_none.mpr (fun r hr ↦ ?_)
    have hbase : (freed q b).heap.heap.blockOf (u32 q) = b.heap.heap.blockOf (u32 q) := by
      rw [Heap.blockOf, Heap.blockOf, (freed q b).heap.base_eq, b.heap.base_eq]
    have hmem : r ∈ release (b.heap.heap.blockOf (u32 q)) b.heap.blocks := hr
    rw [hbase, decide_eq_true_eq]
    exact (mem_release.mp hmem).2
  exact hnone ▸ List.mem_cons_self

theorem Killed.stray {x : Process} {t : Task} {b : Arena (KHeap true)} {l : TaskList}
    (h : Killed s s' p x t b l) : HeapEvent.gave none ∈ s'.arena.heap.log := by
  rw [h.state]
  exact List.mem_cons_of_mem _ (freed_twice_log x.task b)

/-- No process gives back what it took: its task is freed a second time. -/
theorem process_not_given_back {env : ProcessEnv} {filename : List UInt8} {ops : List UserOp}
    (h : ProcessLife env filename ops s s') : ¬ GivesBack s.arena.heap s'.arena.heap := by
  obtain ⟨p, s₁, s₂, r, -, hp, -, -, hkill⟩ := h
  obtain ⟨x, t, b, l, hk⟩ := processKill_result hkill hp
  exact fun hg ↦ hg.no_stray hk.stray

theorem sample_life : ∃ s s' : KernelState (KHeap true) Fat16Files,
    ProcessLife quietEnv filePath [.malloc 4096] s s' := by
  let s := freshKernel true sampleImage
  have hready : Ready (fileVolume sampleImage) 0 (1 + 1059) s.restartLog :=
    (freshKernel_ready true sampleImage).mono (by decide)
  obtain ⟨p, s₁, _, x, t, S, f, h, hc, -, -, -, -, hr⟩ := processNew_image sampleImage_image hready
    (by decide) quietEnv_words (freshKernel_pid _ _)
  have hp := (hc.block _ List.mem_cons_self).ne_zero
  have ht := (hc.block (x.task, taskSize) (by simp [Process.blocks])).ne_zero
  obtain ⟨y, hy⟩ := hc.added
  have hhead : s₁.taskList.taskListHead = x.task := by
    have hlist := Except.ok.inj ((taskListAdd_first rfl).symm.trans hy)
    exact (congrArg (fun r ↦ r.2.taskListHead) hlist).symm
  have hdelete := taskListDelete_run ht (taskListUnlink_head ht hhead hc.at_task) hc.at_task
  have hx : s₁.processes p = some x := by rw [hc.processes, update_self]
  let s₂ : KernelState (KHeap true) Fat16Files := { s₁ with currentProcess := p }
  obtain ⟨base, b, hb, -, -⟩ := @kzallocOne_total _ _ _ 4096 (by decide) 0 s₁.arena hr.room
  cases hslot : x.allocationOf 0 with
  | none =>
    have hfresh : x.memAllocations 0 = 0 := by
      rw [hc.fresh]
      rfl
    exact absurd hfresh (allocationOf_none.mp hslot 0 (by decide))
  | some i =>
    have hmalloc := processMalloc_eq_ok (s := s₂).mpr ⟨x, hp, hx,
      Or.inr ⟨i, t, b, hslot, ht, hc.at_task, hb, rfl⟩⟩
    obtain ⟨b', hkill⟩ := processKill_runs (x := x.record i base 4096)
      (s := s₂.afterMalloc x t i base 4096 b) hp (update_self _ _ _) ht hc.at_task hdelete
    refine ⟨s, _, p, s₁, _, _, h, hp, ?_, bind_run_ok hmalloc, hkill⟩
    simp [UserOp.Valid]

theorem process_not_given_back_sample : ∃ s s' : KernelState (KHeap true) Fat16Files,
    ProcessLife quietEnv filePath [.malloc 4096] s s' ∧
      ¬ GivesBack s.arena.heap s'.arena.heap := by
  obtain ⟨s, s', h⟩ := sample_life
  exact ⟨s, s', h, process_not_given_back h⟩

theorem sample_task_freed_twice : ∃ s s' : KernelState (KHeap true) Fat16Files,
    ProcessLife quietEnv filePath [.malloc 4096] s s' ∧ HeapEvent.gave none ∈ s'.arena.heap.log ∧
      ¬ GivesBack s.arena.heap s'.arena.heap := by
  obtain ⟨s, s', h⟩ := sample_life
  obtain ⟨p, s₁, s₂, r, -, hp, -, -, hkill⟩ := id h
  obtain ⟨x, t, b, l, hk⟩ := processKill_result hkill hp
  exact ⟨s, s', h, hk.stray, fun hg ↦ hg.no_stray hk.stray⟩

end GammaOS.Kernel
