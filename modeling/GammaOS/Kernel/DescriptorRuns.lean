import GammaOS.Foundation.SlotTable
import GammaOS.Kernel.InnerSteps

namespace GammaOS.Kernel

open Function Foundation Foundation.Program Memory Paging Fs Loader

section Load

variable {σ δ : Type} [Allocator σ] {s t : Vfs σ δ} {filename : List UInt8} {status : ℤ}
  {data : Option ProcessData} {fd : ℤ}

def openDescriptors (s : Vfs σ δ) : ℕ := slotsFilled fsTotalFileDescriptors s.fdList

omit [Allocator σ] in
theorem SlotTaken.opened (h : SlotTaken s fd t) : openDescriptors t = openDescriptors s + 1 := by
  obtain ⟨i, d, -, hi, hfree, -, hlist⟩ := h
  rw [openDescriptors, hlist, slotsFilled_update hi hfree, openDescriptors]

theorem processLoadBinary_raw {env : LoadEnv}
    (h : processLoadBinary env filename s = .ok ((status, data), t)) (f : ElfFile) :
    data ≠ some (.elf f) := by
  obtain ⟨fd, s₁, -, h⟩ := bind_eq_ok.mp h
  split at h
  · cases h
    exact nofun
  obtain ⟨⟨x, stat⟩, s₂, -, h⟩ := bind_eq_ok.mp h
  dsimp only at h
  split at h
  · obtain ⟨_, s₃, -, h⟩ := bind_eq_ok.mp h
    cases h
    exact nofun
  obtain ⟨rawData, s₃, -, h⟩ := bind_eq_ok.mp h
  split at h
  · obtain ⟨_, s₄, -, h⟩ := bind_eq_ok.mp h
    cases h
    exact nofun
  obtain ⟨read, s₄, -, h⟩ := bind_eq_ok.mp h
  split at h
  · obtain ⟨_, s₅, -, h⟩ := bind_eq_ok.mp h
    obtain ⟨_, s₆, -, h⟩ := bind_eq_ok.mp h
    cases h
    exact nofun
  · obtain ⟨_, s₅, -, h⟩ := bind_eq_ok.mp h
    cases h
    exact nofun

theorem processLoadData_taken {env : ProcessEnv}
    (h : processLoadData env filename s = .ok ((status, data), t)) :
    (t.fdList = s.fdList ∧ ∀ f, data ≠ some (.elf f)) ∨ ∃ fd, SlotTaken s fd t := by
  obtain ⟨⟨x, loaded⟩, s₁, h₁, h⟩ := bind_eq_ok.mp h
  obtain ⟨⟨y, elfFile⟩, s₂, h₂, h₁⟩ := bind_eq_ok.mp h₁
  rcases gloaderLoadElf_slot h₂ with ⟨hneg, he⟩ | ⟨hpos, fd, f, hf⟩
  · dsimp only at h₁ hneg
    rw [if_pos hneg] at h₁
    cases h₁
    dsimp only at h
    rw [if_pos (by decide)] at h
    obtain ⟨⟨z, raw⟩, s₃, h₃, h⟩ := bind_eq_ok.mp h
    have hlist := (processLoadBinary_fdList h₃).trans he
    refine Or.inl ?_
    dsimp only at h
    split at h <;> cases h
    · exact ⟨hlist, nofun⟩
    · exact ⟨hlist, processLoadBinary_raw h₃⟩
  · dsimp only at h₁ hpos
    rw [if_neg (Int.not_lt.mpr hpos)] at h₁
    cases h₁
    dsimp only at h
    rw [if_neg (by decide)] at h
    cases h
    exact Or.inr ⟨fd, fileLoaded_slot hf⟩

end Load

variable {σ : Type} [Allocator σ] {s s' s'' : KernelState σ Fat16Files} {p : ℕ} {env : ProcessEnv}
  {filename data rest : List UInt8}

/-- The step opens one descriptor, or none. It opens one where `elf` holds. -/
structure Descriptors (elf : Prop) (s s' : KernelState σ Fat16Files) : Prop where
  cases : s'.vfs.fdList = s.vfs.fdList ∨ ∃ fd, SlotTaken s.vfs fd s'.vfs
  taken : elf → ∃ fd, SlotTaken s.vfs fd s'.vfs

namespace Descriptors

variable {elf : Prop}

omit [Allocator σ] in
theorem kept (h : s'.vfs.fdList = s.vfs.fdList) (he : ¬ elf) : Descriptors elf s s' :=
  ⟨Or.inl h, fun hc ↦ absurd hc he⟩

omit [Allocator σ] in
theorem frame (h : Descriptors elf s s') (h' : s''.vfs.fdList = s'.vfs.fdList) :
    Descriptors elf s s'' where
  cases := h.cases.imp (fun he ↦ h'.trans he) (fun ⟨fd, hs⟩ ↦ ⟨fd, hs.of_fdList h'⟩)
  taken he := by
    obtain ⟨fd, hs⟩ := h.taken he
    exact ⟨fd, hs.of_fdList h'⟩

omit [Allocator σ] in
theorem before (h : Descriptors elf s' s'') (h' : s'.vfs.fdList = s.vfs.fdList) :
    Descriptors elf s s'' := by
  have hs : ∀ fd, SlotTaken s'.vfs fd s''.vfs → SlotTaken s.vfs fd s''.vfs := by
    rintro fd ⟨i, d, h₁, h₂, h₃, h₄, h₅⟩
    exact ⟨i, d, h₁, h₂, h' ▸ h₃, h₄, h' ▸ h₅⟩
  exact ⟨h.cases.imp (fun he ↦ he.trans h') (fun ⟨fd, ht⟩ ↦ ⟨fd, hs fd ht⟩),
    fun he ↦ (h.taken he).imp hs⟩

omit [Allocator σ] in
theorem weaken {elf' : Prop} (h : Descriptors elf s s') (he : elf' → elf) :
    Descriptors elf' s s' := ⟨h.cases, fun hc ↦ h.taken (he hc)⟩

theorem prepared {process stack : ℕ} {status : ℤ} {d : Option ProcessData}
    (h : Prepared env filename s process stack status d s') :
    Descriptors (∃ f, d = some (.elf f)) s s' := by
  obtain ⟨-, -, -, -, -, hv⟩ := h
  rcases processLoadData_taken hv with ⟨hlist, hraw⟩ | hs
  · exact kept hlist (fun ⟨f, hf⟩ ↦ hraw f hf)
  · exact ⟨Or.inr hs, fun _ ↦ hs⟩

theorem processNew (h : processNew env filename s = .ok (p, s')) :
    Descriptors (p ≠ 0 ∧ ∃ x f, s'.processes p = some x ∧ x.data = .elf f) s s' := by
  cases processNew_result h with
  | noStruct => exact kept rfl (fun hc ↦ hc.1 rfl)
  | noStack => exact kept rfl (fun hc ↦ hc.1 rfl)
  | notLoaded hprep => exact ((prepared hprep).weaken (fun hc ↦ absurd rfl hc.1)).frame rfl
  | noTask hprep _ hnew =>
    exact ((prepared hprep).weaken (fun hc ↦ absurd rfl hc.1)).frame hnew.fdList
  | unmapped hprep _ hnew _ _ _ hclose =>
    exact ((prepared hprep).weaken (fun hc ↦ absurd rfl hc.1)).frame
      ((closeTask_fdList hclose).trans hnew.fdList)
  | @created process stack task status d t s₁ s₂ hprep _ hnew =>
    refine ((prepared hprep).weaken (fun hc ↦ ?_)).frame hnew.fdList
    obtain ⟨-, x, f, hx, hdata⟩ := hc
    have hself : update s₂.processes p
      (some (newProcess (processGetFreeProcessId s) filename task d stack)) p = some x := hx
    rw [update_self] at hself
    cases hself
    exact ⟨f, congrArg some hdata⟩

end Descriptors

omit [Allocator σ] in
theorem Prepared.processes [Allocator σ] {process stack : ℕ} {status : ℤ} {d : Option ProcessData}
    (h : Prepared env filename s process stack status d s') :
    process ≠ 0 ∧ s'.processes = s.processes := by
  obtain ⟨-, hp, -, -, -, -⟩ := h
  exact ⟨hp, rfl⟩

theorem TaskResult.processes {alien : ByteMemory} {process task : ℕ} {d : ProcessData}
    (h : TaskResult alien process d s task s') : s'.processes = s.processes := by
  cases h <;> rfl

/-- Control has come to a process that there was not, with an ELF file for its program. -/
def Starts (s s' : KernelState σ Fat16Files) : Prop :=
  s.processes s'.currentProcess = none ∧
    ∃ x f, s'.processes s'.currentProcess = some x ∧ x.data = .elf f

section Runs

variable {whole : Bool} {disk : Disk} {entries : ℕ → UInt8} {m : ByteMemory} {n : ℕ}
  {s s' s₀ : KernelState (KHeap whole) Fat16Files}
  {cond : KernelState (KHeap whole) Fat16Files → Entry → Prop}

/-- A run in which `n` ELF programs have been started, the shell among them. Its
programs write to memory of their own only. -/
inductive StartRun (disk : Disk) (env : ProcessEnv) (s₀ : KernelState (KHeap whole) Fat16Files) :
    ℕ → KernelState (KHeap whole) Fat16Files → Prop
  | boot {s : KernelState (KHeap whole) Fat16Files} (hb : Boots KeepsInside disk env s₀)
      (hw : env.Words) (hr : kernelStart disk env s₀ = .ok ((), s)) (hn : Starts s₀ s) :
      StartRun disk env s₀ 1 s
  | start {n : ℕ} {s s' : KernelState (KHeap whole) Fat16Files} (h : StartRun disk env s₀ n s)
      (hs : MachineStep Entry.KeepsInside s s') (hn : Starts s s') : StartRun disk env s₀ (n + 1) s'
  | other {n : ℕ} {s s' : KernelState (KHeap whole) Fat16Files} (h : StartRun disk env s₀ n s)
      (hs : MachineStep Entry.KeepsInside s s') (hn : ¬ Starts s s') : StartRun disk env s₀ n s'

theorem StartRun.machine (h : StartRun disk env s₀ n s) :
    Boots KeepsInside disk env s₀ ∧ MachineRun Entry.KeepsInside disk env s₀ s := by
  induction h with
  | boot hb hw hr _ => exact ⟨hb, .boot hw hr⟩
  | start _ hs _ ih => exact ⟨ih.1, ih.2.step hs⟩
  | other _ hs _ ih => exact ⟨ih.1, ih.2.step hs⟩

end Runs

end GammaOS.Kernel
