import GammaOS.Kernel.Syscall

namespace GammaOS.Kernel

open Foundation Foundation.Program Memory Fs

def ps2KeyReleased : UInt8 := 0x80

def ps2Return : UInt8 := 0x1C

def ps2Backspace : UInt8 := 0x0E

def ps2Space : UInt8 := 0x39

def ps2Caps : UInt8 := 0x3A

def ps2ScancodeSet1 : List UInt8 :=
  [0x00, 0x1B, 0x31, 0x32, 0x33, 0x34, 0x35, -- 1 2 3 4 5
   0x36, 0x37, 0x38, 0x39, 0x30, 0x2D, 0x3D, -- 6 7 8 9 0 - =
   0x08, 0x09, 0x51, 0x57, 0x45, 0x52, 0x54, -- Q W E R T
   0x59, 0x55, 0x49, 0x4F, 0x50, 0x5B, 0x5D, -- Y U I O P [ ]
   0x0D, 0x00, 0x41, 0x53, 0x44, 0x46, 0x47, -- A S D F G
   0x48, 0x4A, 0x4B, 0x4C, 0x3B, 0x27, 0x60, -- H J K L ; and the quotes
   0x00, 0x5C, 0x5A, 0x58, 0x43, 0x56, 0x42, -- the backslash, Z X C V B
   0x4E, 0x4D, 0x2C, 0x2E, 0x2F, 0x00, 0x2A, -- N M , . / *
   0x00, 0x20, 0x00, 0x00, 0x00, 0x00,
   0x00, 0x00, 0x00, 0x00, 0x00, 0x00,
   0x00, 0x37, 0x38, 0x39, 0x2D, 0x34, 0x35, -- 7 8 9 - 4 5
   0x36, 0x2B, 0x31, 0x32, 0x33, 0x30, 0x2E] -- 6 + 1 2 3 0 .

/-- The error of a code behind the table comes back as a `char`. -/
def ps2ScancodeToChar (scancode : UInt8) : UInt8 :=
  if scancode.toNat ≥ ps2ScancodeSet1.length then UInt8.ofNat (negU32 errInvarg)
  else ps2ScancodeSet1.getD scancode.toNat 0

/-- The character that is put for a key, with the flag of the caps lock behind its code. -/
def ps2InputChar (capsLock scancode : UInt8) : UInt8 :=
  if scancode = ps2Return then 0x0A
  else
    let inputChar := ps2ScancodeToChar scancode
    if capsLock = 0 ∧ scancode ≠ ps2Backspace ∧ scancode ≠ ps2Space ∧ 0x41 ≤ inputChar.toInt8 ∧
      inputChar.toInt8 ≤ 0x5A then inputChar + 32 else inputChar

/-- The kernel beside the flag of its keyboard, `ps2.caps_lock`. -/
abbrev Ps2M (σ : Type) := Program Fault (UInt8 × KernelState σ Fat16Files)

variable {σ α : Type}

def onKernel (m : KernelM σ Fat16Files α) : Ps2M σ α := onPart Prod.snd (fun s t ↦ (t.1, s)) m

/-- `ps2_interrupt_handler` with the code that it reads from the port. -/
def ps2InterruptHandlerOf (scancode : UInt8) : Ps2M σ Unit := do
  onKernel changeToKernelPageDirectory
  if scancode &&& ps2KeyReleased ≠ 0 then pure ()
  else do
    if scancode = ps2Caps then modifyState (fun s ↦ (s.1 ^^^ 1, s.2)) else pure ()
    let capsLock ← gets Prod.fst
    onKernel (keyboardPut (ps2InputChar capsLock scancode))
    let task ← onKernel currentTask
    if task = 0 then pure () else onKernel changeToCurrentTaskPageDirectory

/-- `general_interrupt_handler` for an interrupt of the keyboard. -/
def keyInterrupt (scancode : UInt8) (iframe : Reg) : Ps2M σ Unit := do
  onKernel changeToKernelPageDirectory
  let task ← onKernel currentTask
  if task = 0 then pure () else onKernel (currentTaskSaveState iframe)
  ps2InterruptHandlerOf scancode
  let task ← onKernel currentTask
  if task = 0 then pure () else onKernel changeToCurrentTaskPageDirectory

def capsAfter (capsLock scancode : UInt8) : UInt8 :=
  if scancode &&& ps2KeyReleased = 0 ∧ scancode = ps2Caps then capsLock ^^^ 1 else capsLock

def ps2Key (capsLock scancode : UInt8) : Option UInt8 :=
  if scancode &&& ps2KeyReleased ≠ 0 then none
  else some (ps2InputChar (capsAfter capsLock scancode) scancode)

variable {β : Type} {s s' : KernelState σ Fat16Files} {c c' : UInt8}
  {m : KernelM σ Fat16Files α} {a : α}

theorem onKernel_eq_ok : onKernel m (c, s) = .ok (a, (c', s')) ↔ m s = .ok (a, s') ∧ c' = c := by
  rw [onKernel, onPart_eq_ok]
  constructor
  · rintro ⟨t, ht, he⟩
    cases he
    exact ⟨ht, rfl⟩
  · rintro ⟨ht, rfl⟩
    exact ⟨s', ht, rfl⟩

theorem onKernel_bind (f : α → KernelM σ Fat16Files β) :
    onKernel (m >>= f) = onKernel m >>= fun a ↦ onKernel (f a) := by
  funext ⟨c, s⟩
  cases hm : m s with
  | error e =>
    rw [bind_run_error (show onKernel m (c, s) = .error e by rw [onKernel, onPart, hm])]
    rw [onKernel, onPart, bind_run_error hm]
  | ok p =>
    obtain ⟨a, t⟩ := p
    rw [bind_run_ok (onKernel_eq_ok.mpr ⟨hm, rfl⟩)]
    rw [onKernel, onPart, bind_run_ok hm]
    rfl

theorem onKernel_ite (task : ℕ) (m : KernelM σ Fat16Files Unit) :
    onKernel (if task = 0 then pure () else m) = if task = 0 then pure () else onKernel m := by
  by_cases ht : task = 0
  · rw [if_pos ht, if_pos ht]
    rfl
  · rw [if_neg ht, if_neg ht]

/-- What comes behind a part of the kernel may look at the flag earlier. -/
theorem onKernel_swap {f g : α → Ps2M σ β} (h : ∀ a t, f a (c, t) = g a (c', t)) :
    (onKernel m >>= f) (c, s) = (onKernel m >>= g) (c', s) := by
  cases hm : m s with
  | error e =>
    rw [bind_run_error (show onKernel m (c, s) = .error e by rw [onKernel, onPart, hm]),
      bind_run_error (show onKernel m (c', s) = .error e by rw [onKernel, onPart, hm])]
  | ok p =>
    obtain ⟨a, t⟩ := p
    rw [bind_run_ok (onKernel_eq_ok.mpr ⟨hm, rfl⟩), bind_run_ok (onKernel_eq_ok.mpr ⟨hm, rfl⟩), h]

theorem ps2InterruptHandlerOf_eq (scancode : UInt8) : ps2InterruptHandlerOf scancode (c, s) =
    onKernel (ps2InterruptHandler (ps2Key c scancode)) (capsAfter c scancode, s) := by
  unfold ps2InterruptHandlerOf ps2InterruptHandler
  rw [onKernel_bind]
  refine onKernel_swap (fun _ t ↦ ?_)
  by_cases hr : scancode &&& ps2KeyReleased = 0
  · rw [if_neg (not_not.mpr hr), ps2Key, if_neg (not_not.mpr hr)]
    by_cases hc : scancode = ps2Caps
    · rw [if_pos hc, capsAfter, if_pos ⟨hr, hc⟩]
      refine (bind_run_ok (modifyState_run _ _)).trans ((bind_run_ok (gets_run _ _)).trans ?_)
      simp only [onKernel_bind, onKernel_ite]
    · rw [if_neg hc, capsAfter, if_neg (fun h ↦ hc h.2)]
      refine (bind_run_ok (gets_run _ _)).trans ?_
      simp only [onKernel_bind, onKernel_ite]
  · rw [if_pos hr, ps2Key, if_pos hr, capsAfter, if_neg (fun h ↦ hr h.1)]
    rfl

theorem onKernel_then {f : Ps2M σ Unit} {g : KernelM σ Fat16Files Unit}
    (h : f (c, s) = onKernel g (c', s)) (k : KernelM σ Fat16Files α) :
    (f >>= fun _ ↦ onKernel k) (c, s) = onKernel (g >>= fun _ ↦ k) (c', s) := by
  rw [onKernel_bind]
  cases hg : onKernel g (c', s) with
  | error e => rw [bind_run_error (h.trans hg), bind_run_error hg]
  | ok p => rw [bind_run_ok (h.trans hg), bind_run_ok hg]

theorem keyInterrupt_eq (scancode : UInt8) (iframe : Reg) : keyInterrupt scancode iframe (c, s) =
    onKernel (generalInterruptHandler (ps2Key c scancode) iframe) (capsAfter c scancode, s) := by
  unfold keyInterrupt generalInterruptHandler
  rw [onKernel_bind]
  refine onKernel_swap (fun _ t ↦ ?_)
  rw [onKernel_bind]
  refine onKernel_swap (fun task u ↦ ?_)
  have hend : ∀ w : KernelState σ Fat16Files, (ps2InterruptHandlerOf scancode >>= fun _ ↦ onKernel (currentTask >>= fun task ↦
      if task = 0 then pure () else changeToCurrentTaskPageDirectory)) (c, w) =
      onKernel (ps2InterruptHandler (ps2Key c scancode) >>= fun _ ↦ currentTask >>= fun task ↦
        if task = 0 then pure () else changeToCurrentTaskPageDirectory) (capsAfter c scancode, w) :=
    fun w ↦ onKernel_then (ps2InterruptHandlerOf_eq scancode) _
  simp only [onKernel_bind, onKernel_ite] at hend
  by_cases ht : task = 0
  · rw [if_pos ht, if_pos ht]
    simp only [onKernel_bind, onKernel_ite]
    exact hend u
  · rw [if_neg ht, if_neg ht]
    simp only [onKernel_bind, onKernel_ite]
    exact onKernel_swap (fun _ w ↦ hend w)

end GammaOS.Kernel
