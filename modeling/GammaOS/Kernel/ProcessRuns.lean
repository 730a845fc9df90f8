import GammaOS.Kernel.NewAtomic
import GammaOS.Kernel.ProcessTable
import Mathlib.Data.Finset.Card

namespace GammaOS.Kernel

open Function Foundation Foundation.Program Memory Paging Fs Loader

variable {whole : Bool} {s s' s₀ : KernelState (KHeap whole) Fat16Files} {content : List UInt8}
  {env : ProcessEnv} {filename : List UInt8} {p n k : ℕ} {x : Process}

inductive ProcessCall
  | new (env : ProcessEnv) (filename : List UInt8)
  | kill (process : ℕ)

def ProcessCall.Valid (s : KernelState (KHeap whole) Fat16Files) : ProcessCall → Prop
  | new env _ => env.Words
  | kill process => ∃ x, s.processes process = some x

def ProcessCall.run : ProcessCall → KernelM (KHeap whole) Fat16Files Unit
  | new env filename => do
    let _ ← processNew env filename
    pure ()
  | kill process => do
    let _ ← processKill process
    pure ()

def ProcessCall.Fits (s : KernelState (KHeap whole) Fat16Files) : ProcessCall → Prop
  | new _ _ => HasFreeEntry s
  | kill _ => True

/-- A call writes inside the process list, and is refused when it is full. -/
def ProcessCall.Sound (s : KernelState (KHeap whole) Fat16Files) : ProcessCall → Prop
  | new env filename =>
    (HasFreeEntry s → processGetFreeProcessId s < processMaxProcesses) ∧
      (¬ HasFreeEntry s → Refused env filename s)
  | kill process => ∀ x, s.processes process = some x → x.pid < processMaxProcesses

inductive ProcessRun (cond : KernelState (KHeap whole) Fat16Files → ProcessCall → Prop)
    (s₀ : KernelState (KHeap whole) Fat16Files) : KernelState (KHeap whole) Fat16Files → Prop
  | start : ProcessRun cond s₀ s₀
  | call {s s' : KernelState (KHeap whole) Fat16Files} {c : ProcessCall}
      (h : ProcessRun cond s₀ s) (hv : c.Valid s) (hc : cond s c) (hr : c.run s = .ok ((), s')) :
      ProcessRun cond s₀ s'

structure TableSound (s : KernelState (KHeap whole) Fat16Files) : Prop where
  slots : ∀ i < processMaxProcesses, s.processList i = 0 ∨
    ∃ x, s.processes (s.processList i) = some x ∧ x.pid = i
  distinct : ∀ p q x y, s.processes p = some x → s.processes q = some y → x.pid = y.pid → p = q

structure NoProcesses (s : KernelState (KHeap whole) Fat16Files) : Prop where
  mounted : Fat16Mounted s.vfs
  processes : ∀ p, s.processes p = none
  processList : ∀ i < processMaxProcesses, s.processList i = 0

theorem NoProcesses.inv (h : NoProcesses s) (hold : ℕ → Holding) : KernelInv s hold where
  mounted := h.mounted
  live p x hx := by
    rw [h.processes p] at hx
    cases hx
  ledger := by
    have hnil : ∀ p, ownedAt s hold p = [] := fun p ↦ by
      rw [ownedAt, h.processes p]
      rfl
    refine ⟨fun p r hr ↦ ?_, fun p q _ r hr ↦ ?_⟩ <;>
    · rw [hnil p] at hr
      exact absurd hr List.not_mem_nil
  listed p x hx := by
    rw [h.processes p] at hx
    cases hx
  slots i hi hne := absurd (h.processList i hi) hne

theorem KernelInv.tableSound {hold : ℕ → Holding} (h : KernelInv s hold) : TableSound s where
  slots i hi := or_iff_not_imp_left.mpr (h.slots i hi)
  distinct _ _ _ _ hx hy hpid := h.of_pid hx hy hpid

theorem ProcessRun.mono {cond cond' : KernelState (KHeap whole) Fat16Files → ProcessCall → Prop}
    (h : ProcessRun cond s₀ s) (hcond : ∀ s c, cond s c → cond' s c) : ProcessRun cond' s₀ s := by
  induction h with
  | start => exact .start
  | call _ hv hc hr ih => exact .call ih hv (hcond _ _ hc) hr

theorem ProcessCall.run_new (h : processNew env filename s = .ok (p, s')) :
    (ProcessCall.new env filename).run s = .ok ((), s') :=
  (bind_run_ok h).trans rfl

theorem KernelInv.call {hold : ℕ → Holding} {c : ProcessCall} (h : KernelInv s hold)
    (hv : c.Valid s) (hr : c.run s = .ok ((), s')) : ∃ hold', KernelInv s' hold' := by
  cases c with
  | new env filename =>
    obtain ⟨p, s₁, hnew, hs₁⟩ := bind_eq_ok.mp hr
    cases hs₁
    by_cases hp : p = 0
    · subst hp
      exact ⟨_, h.step (h.newFailed (processNew_failed h.mounted hv hnew))⟩
    · obtain ⟨_, x, t, S, hc⟩ := processNew_made h.mounted hv hnew hp
      exact ⟨_, h.step (h.created hc)⟩
  | kill process =>
    obtain ⟨x, hx⟩ := hv
    obtain ⟨_, hu⟩ := h.live process x hx
    obtain ⟨r, s₁, hkill, hs₁⟩ := bind_eq_ok.mp hr
    cases hs₁
    obtain ⟨_, _, _, _, hk⟩ := processKill_result hkill hu.ne_zero
    exact ⟨_, h.step (h.killed hk)⟩

theorem ProcessRun.inv {cond : KernelState (KHeap whole) Fat16Files → ProcessCall → Prop}
    (h : ProcessRun cond s₀ s) (h₀ : NoProcesses s₀) : ∃ hold, KernelInv s hold := by
  induction h with
  | start => exact ⟨fun _ ↦ ⟨⟨0, 0, 0, fun _ ↦ 0⟩, []⟩, h₀.inv _⟩
  | call _ hv _ hr ih =>
    obtain ⟨hold, hi⟩ := ih
    exact hi.call hv hr

/-- When processes are only created while an entry is free, the list and the
processes agree at every time, and every call writes inside the list. -/
theorem processTable_sound (h : ProcessRun ProcessCall.Fits s₀ s) (h₀ : NoProcesses s₀) :
    TableSound s ∧ ∀ c : ProcessCall, c.Valid s → c.Fits s → c.Sound s := by
  obtain ⟨hold, hi⟩ := h.inv h₀
  refine ⟨hi.tableSound, fun c hv hf ↦ ?_⟩
  cases c with
  | new env filename => exact ⟨fun h ↦ (processGetFreeProcessId_free h).1, fun h ↦ absurd hf h⟩
  | kill process => exact fun x hx ↦ (hi.listed process x hx).1

theorem freshKernel_noProcesses (whole : Bool) (content : List UInt8) :
    NoProcesses (freshKernel whole content) where
  mounted := (freshKernel_ready whole content).mounted
  processes _ := rfl
  processList _ _ := rfl

def takenEntries (s : KernelState (KHeap whole) Fat16Files) : ℕ :=
  ((Finset.range processMaxProcesses).filter (fun i ↦ s.processList i ≠ 0)).card

theorem hasFreeEntry_iff_taken : HasFreeEntry s ↔ takenEntries s < processMaxProcesses := by
  have hle : takenEntries s ≤ processMaxProcesses :=
    (Finset.card_filter_le _ _).trans (Finset.card_range _).le
  have hfull : takenEntries s = processMaxProcesses ↔ ¬ HasFreeEntry s := by
    have hcard := @Finset.card_filter_eq_iff ℕ (Finset.range processMaxProcesses)
      (fun i ↦ s.processList i ≠ 0) _
    rw [Finset.card_range] at hcard
    refine hcard.trans ?_
    simp only [Finset.mem_range, HasFreeEntry, not_exists, not_and, ne_eq]
  rw [← not_iff_not, ← hfull]
  omega

theorem Created.taken_succ {s₁ : KernelState (KHeap whole) Fat16Files} {t : Task} {S : Space}
    (h : Created env filename s s₁ s' p x t S) : takenEntries s' = takenEntries s + 1 := by
  have hpid : x.pid = processGetFreeProcessId s := by
    rw [h.fresh]
    rfl
  have hp := (h.block _ (x.self_mem p)).ne_zero
  have hentry := (processGetFreeProcessId_free (hasFreeEntry_iff.mpr h.pid_lt)).2
  rw [← hpid] at hentry
  have hset : (Finset.range processMaxProcesses).filter (fun i ↦ s'.processList i ≠ 0) =
      insert x.pid ((Finset.range processMaxProcesses).filter (fun i ↦ s.processList i ≠ 0)) := by
    ext i
    rw [h.processList, Finset.mem_insert, Finset.mem_filter, Finset.mem_filter, Finset.mem_range]
    by_cases hi : i = x.pid
    · rw [hi, update_self]
      exact iff_of_true ⟨hpid ▸ h.pid_lt, hp⟩ (Or.inl rfl)
    · rw [update_of_ne hi, or_iff_right hi]
  rw [takenEntries, hset, Finset.card_insert_of_notMem, takenEntries]
  rw [Finset.mem_filter]
  exact fun hm ↦ hm.2 hentry

theorem filled (hc : Image content) : ∀ n ≤ processMaxProcesses,
    ∃ s : KernelState (KHeap whole) Fat16Files,
      ProcessRun ProcessCall.Fits (freshKernel whole content) s ∧
        Ready (fileVolume content) n ((17 - n) * 1059) s ∧ takenEntries s = n := by
  intro n
  induction n with
  | zero =>
    intro _
    exact ⟨_, .start, (freshKernel_ready whole content).mono (by decide), rfl⟩
  | succ n ih =>
    intro hn
    obtain ⟨s, hrun, hready, htaken⟩ := ih (Nat.le_of_succ_le hn)
    have hfree : HasFreeEntry s := hasFreeEntry_iff_taken.mpr (by omega)
    have hroom : (17 - n) * 1059 = (17 - (n + 1)) * 1059 + 1059 := by
      unfold processMaxProcesses at hn
      omega
    rw [hroom] at hready
    have hfd : n < fsTotalFileDescriptors := by
      unfold processMaxProcesses at hn
      unfold fsTotalFileDescriptors
      omega
    obtain ⟨p, s', _, _, _, _, _, h, hcr, -, -, -, -, hready'⟩ := processNew_image hc hready hfd
      quietEnv_words (hasFreeEntry_iff.mp hfree)
    exact ⟨s', .call (c := .new quietEnv filePath) hrun quietEnv_words hfree
      (ProcessCall.run_new h), hready',
      hcr.taken_succ.trans (by rw [htaken])⟩

/-- The seventeenth process: `process_new` writes behind the process list. -/
theorem processTable_overrun : ∃ s : KernelState (KHeap false) Fat16Files,
    ProcessRun (fun _ _ ↦ True) (freshKernel false sampleImage) s ∧ ¬ HasFreeEntry s ∧
      processGetFreeProcessId s = 65524 ∧
      processNew quietEnv filePath s = .error Fault.outOfBounds ∧
      ¬ (ProcessCall.new quietEnv filePath).Sound s := by
  obtain ⟨s, hrun, hready, htaken⟩ := @filled false _ sampleImage_image processMaxProcesses le_rfl
  have hfull : ¬ HasFreeEntry s := fun h ↦ (hasFreeEntry_iff_taken.mp h).ne htaken
  have hnew := processNew_image_full sampleImage_image (k := 0) (hready.mono (by decide))
    (by decide) quietEnv_words (mt hasFreeEntry_iff.mpr hfull)
  refine ⟨s, hrun.mono (fun _ _ _ ↦ trivial), hfull, processGetFreeProcessId_full hfull, hnew,
    fun h ↦ ?_⟩
  obtain ⟨s', hs', -⟩ := h.2 hfull
  cases hnew.symm.trans hs'

theorem processTable_sound_one : ∃ s : KernelState (KHeap false) Fat16Files,
    ProcessRun ProcessCall.Fits (freshKernel false sampleImage) s ∧
      s ≠ freshKernel false sampleImage ∧ TableSound s ∧
      ∀ c : ProcessCall, c.Valid s → c.Fits s → c.Sound s := by
  obtain ⟨p, s', _, _, _, _, _, h, hc, -, -, -, hne, -⟩ := processNew_image sampleImage_image
    (freshKernel_ready false sampleImage).room_zero (by decide) quietEnv_words (freshKernel_pid _ _)
  have hrun : ProcessRun ProcessCall.Fits (freshKernel false sampleImage) s' :=
    .call (c := .new quietEnv filePath) .start quietEnv_words
      (hasFreeEntry_iff.mpr (freshKernel_pid _ _)) (ProcessCall.run_new h)
  exact ⟨s', hrun, fun he ↦ hne (congrArg (fun s ↦ s.vfs.fdList) he),
    processTable_sound hrun (freshKernel_noProcesses _ _)⟩

end GammaOS.Kernel
