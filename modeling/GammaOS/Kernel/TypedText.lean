import GammaOS.Kernel.DescriptorRuns
import GammaOS.Kernel.KeyboardQueue
import GammaOS.Kernel.ProgramRuns
import GammaOS.Kernel.Ps2

namespace GammaOS.Kernel

open Function Foundation Foundation.Program Memory Paging Fs Loader

section Source

variable {σ : Type} [Allocator σ]

/-- `isr_0x80_handler` with what it returns, none when control does not come back. -/
def isr0x80Result (command : Command) (iframe : Reg) : KernelM σ Fat16Files (Option ℕ) := do
  changeToKernelPageDirectory
  currentTaskSaveState iframe
  match ← commandHandler command with
  | none => pure none
  | some ret => do
    changeToCurrentTaskPageDirectory
    pure (some ret)

theorem isr0x80Handler_eq (command : Command) (iframe : Reg) :
    (isr0x80Handler command iframe : KernelM σ Fat16Files Unit) =
      isr0x80Result command iframe >>= fun _ ↦ pure () := by
  unfold isr0x80Handler isr0x80Result
  simp only [bind_assoc]
  refine congrArg _ (funext fun _ ↦ congrArg _ (funext fun _ ↦ congrArg _ (funext fun ret ↦ ?_)))
  cases ret with
  | none => rfl
  | some ret =>
    refine Eq.trans ?_ (bind_assoc changeToCurrentTaskPageDirectory _ _).symm
    exact (bind_pure (changeToCurrentTaskPageDirectory : KernelM σ Fat16Files Unit)).symm

end Source

/-- What GETCH returns for a character: a `char` in a register. -/
def charResult (ch : UInt8) : ℕ := ofInt32 ch.toInt8.toInt

section Steps

variable {σ : Type} {s s' t : KernelState σ Fat16Files} {n : ℕ} {q : List UInt8}
  {ch : Option UInt8} {iframe : Reg}

theorem Typing.kept (h : Typing s n q) (hs : InnerBy Eq s s') : Typing s' n q := by
  obtain ⟨x, hx, hq⟩ := h.queue
  obtain ⟨k, table, hk, hkeys⟩ := hs.own
  refine ⟨hs.currentProcess ▸ h.current_ne, (x.withKeys k).withTable table, ?_, ?_⟩
  · rw [hs.currentProcess, hk, hx]
    rfl
  · have hbuf : ((x.withKeys k).withTable table).keyboardBuf = x.keyboardBuf := (hkeys x hx).symm
    rwa [hbuf]

def KeyRoom (ch : Option UInt8) (s : KernelState σ Fat16Files) : Prop :=
  ∀ c ∈ ch, ∀ x, s.processes s.currentProcess = some x → (KeyOp.put c).Fits x.keyboardBuf

theorem Typing.room (h : Typing s n q) (hroom : KeyRoom ch s) : ∀ c ∈ ch, c ≠ 0 →
    n + q.length ≤ 2 ^ 31 ∧ q.length < processMaxKeyboardBufferSize := by
  obtain ⟨x, hx, hq⟩ := h.queue
  exact fun c hc ↦ hq.fits_put.mp (hroom c hc x hx)

theorem Typing.ps2 (h : Typing s n q) (hroom : ∀ c ∈ ch, c ≠ 0 →
      n + q.length ≤ 2 ^ 31 ∧ q.length < processMaxKeyboardBufferSize)
    (hr : ps2InterruptHandler ch s = .ok ((), s')) : Typing s' n (q ++ nonzero ch.toList) := by
  obtain ⟨_, s₁, h₁, hr⟩ := bind_eq_ok.mp hr
  have hk := h.kept (changeToKernelPageDirectory_inner _ _ _ h₁)
  cases ch with
  | none =>
    cases hr
    rwa [show q ++ nonzero (none : Option UInt8).toList = q from List.append_nil q]
  | some c =>
    obtain ⟨_, s₂, h₂, hr⟩ := bind_eq_ok.mp hr
    obtain ⟨s₃, hput, hnext⟩ := hk.put c (fun hc ↦ (hroom c rfl hc).1)
    cases hput.symm.trans h₂
    refine (hnext (fun hc ↦ (hroom c rfl hc).2)).kept ?_
    exact (Follows.gets _).bind (fun _ ↦ .ite (fun _ ↦ .pure _)
      (fun _ ↦ changeToCurrentTaskPageDirectory_inner)) _ _ _ hr

theorem Typing.key (h : Typing s n q) (hroom : KeyRoom ch s)
    (hr : generalInterruptHandler ch iframe s = .ok ((), s')) :
    Typing s' n (q ++ nonzero ch.toList) := by
  rw [generalInterruptHandler_eq] at hr
  obtain ⟨_, s₁, h₁, hr⟩ := bind_eq_ok.mp hr
  obtain ⟨_, s₂, h₂, hr⟩ := bind_eq_ok.mp hr
  obtain ⟨task, s₃, h₃, h₂⟩ := bind_eq_ok.mp h₂
  cases h₃
  have hin := h.kept (changeToKernelPageDirectory_inner _ _ _ h₁)
  have hhandled : Typing s₂ n (q ++ nonzero ch.toList) := by
    by_cases ht : s₁.taskList.curTask = 0
    · rw [if_pos ht] at h₂
      exact hin.ps2 (h.room hroom) h₂
    · rw [if_neg ht] at h₂
      obtain ⟨_, s₄, h₄, h₂⟩ := bind_eq_ok.mp h₂
      exact (hin.kept (currentTaskSaveState_inner _ _ _ h₄)).ps2 (h.room hroom) h₂
  refine hhandled.kept ?_
  exact (Follows.gets _).bind (fun _ ↦ .ite (fun _ ↦ .pure _)
    (fun _ ↦ changeToCurrentTaskPageDirectory_inner)) _ _ _ hr

variable [Allocator σ] {ret : Option ℕ}

/-- A GETCH returns the character that has waited longest, and zero when none waits. -/
theorem Typing.getch (h : Typing s n q) (hn : n ≤ 2 ^ 31)
    (hr : isr0x80Result .getch iframe s = .ok (ret, s')) :
    ret = some (charResult (q.headD 0)) ∧ Typing s' (n + min 1 q.length) q.tail := by
  obtain ⟨_, s₁, h₁, hr⟩ := bind_eq_ok.mp hr
  obtain ⟨_, s₂, h₂, hr⟩ := bind_eq_ok.mp hr
  have hin := (h.kept (changeToKernelPageDirectory_inner _ _ _ h₁)).kept
    (currentTaskSaveState_inner _ _ _ h₂)
  obtain ⟨r, s₃, h₃, hr⟩ := bind_eq_ok.mp hr
  obtain ⟨c, s₄, h₄, h₃⟩ := bind_eq_ok.mp h₃
  cases h₃
  obtain ⟨s₅, hget, hnext⟩ := hin.get hn
  cases hget.symm.trans h₄
  obtain ⟨_, s₆, h₆, hr⟩ := bind_eq_ok.mp hr
  cases hr
  exact ⟨rfl, hnext.kept (changeToCurrentTaskPageDirectory_inner _ _ _ h₆)⟩

end Steps

section Runs

variable {whole : Bool} {disk : Disk} {env : ProcessEnv} {entries : ℕ → UInt8} {m : ByteMemory}
  {s s' s₀ boot : KernelState (KHeap whole) Fat16Files} {c c₀ : UInt8}
  {keys q : List UInt8} {got : List ℕ} {n : ℕ} {rule : PageRule} {hold : ℕ → Holding}

def Entry.Silent : Entry → Prop
  | .syscall command _ => command.Inner ∧ command ≠ .getch
  | .keyboard _ _ => False

/-- What a program does from a state that the machine comes to, with the keys that
are pressed and released meanwhile and what its calls of GETCH return. Each key
finds room, and the program writes to memory of its own only. -/
inductive TypedRun (disk : Disk) (env : ProcessEnv) (boot : KernelState (KHeap whole) Fat16Files)
    (c₀ : UInt8) (s₀ : KernelState (KHeap whole) Fat16Files) :
    List UInt8 → List ℕ → UInt8 → KernelState (KHeap whole) Fat16Files → Prop
  | start (hb : Boots KeepsInside disk env boot)
      (h : MachineRun Entry.KeepsInside disk env boot s₀) : TypedRun disk env boot c₀ s₀ [] [] c₀ s₀
  | key {keys : List UInt8} {got : List ℕ} {c c' scancode : UInt8} {iframe : Reg}
      {s s' : KernelState (KHeap whole) Fat16Files}
      (h : TypedRun disk env boot c₀ s₀ keys got c s) (hroom : KeyRoom (ps2Key c scancode) s)
      (hr : keyInterrupt scancode iframe (c, s) = .ok ((), (c', s'))) :
      TypedRun disk env boot c₀ s₀ (keys ++ [scancode]) got c' s'
  | getch {keys : List UInt8} {got : List ℕ} {c : UInt8} {iframe : Reg} {ret : ℕ}
      {s s' : KernelState (KHeap whole) Fat16Files}
      (h : TypedRun disk env boot c₀ s₀ keys got c s)
      (hfit : ∀ x, s.processes s.currentProcess = some x → KeyOp.get.Fits x.keyboardBuf)
      (hr : isr0x80Result .getch iframe s = .ok (some ret, s')) :
      TypedRun disk env boot c₀ s₀ keys (got ++ [ret]) c s'
  | other {keys : List UInt8} {got : List ℕ} {c : UInt8}
      {s s' : KernelState (KHeap whole) Fat16Files}
      (h : TypedRun disk env boot c₀ s₀ keys got c s)
      (hs : MachineStep (fun s e ↦ e.KeepsInside s ∧ e.Silent) s s') :
      TypedRun disk env boot c₀ s₀ keys got c s'

theorem getch_inside (iframe : Reg) : (Entry.syscall .getch iframe).KeepsInside s :=
  fun _ _ ↦ ⟨trivial, trivial⟩

theorem getch_run {iframe : Reg} {ret : Option ℕ} (h : isr0x80Result .getch iframe s = .ok (ret, s')) :
    (Entry.syscall .getch iframe).run s = .ok ((), s') := by
  rw [Entry.run, isr0x80Handler_eq, bind_run_ok h]
  rfl

theorem TypedRun.machine (h : TypedRun disk env boot c₀ s₀ keys got c s) :
    Boots KeepsInside disk env boot ∧ MachineRun Entry.KeepsInside disk env boot s := by
  induction h with
  | start hb h => exact ⟨hb, h⟩
  | @key keys got c c' scancode iframe s s' _ _ hr ih =>
    rw [keyInterrupt_eq, onKernel_eq_ok] at hr
    exact ⟨ih.1, ih.2.step (.entry (e := .keyboard (ps2Key c scancode) iframe) trivial trivial hr.1)⟩
  | @getch keys got c iframe ret s s' _ _ hr ih =>
    exact ⟨ih.1, ih.2.step (.entry (e := .syscall .getch iframe) trivial (getch_inside iframe)
      (getch_run hr))⟩
  | other _ hs ih => exact ⟨ih.1, ih.2.step (hs.mono (fun _ _ hc ↦ hc.1))⟩

end Runs

end GammaOS.Kernel
