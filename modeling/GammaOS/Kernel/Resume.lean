import GammaOS.Kernel.EnterTask

namespace GammaOS.Kernel

open Function Foundation ByteMemory X86

variable {arith : ℕ → ℕ → ℕ} {m m' : ByteMemory} {low r iframe : ℕ} {u s t : Machine} {g : Gate}

section Save

variable {fields : List Field}

theorem Field.inReg_le (f : Field) : f.inReg + 4 ≤ regSize := by
  cases f <;> decide

theorem Field.inFrame_le (f : Field) : f.inFrame + 4 ≤ frameSize := by
  cases f <;> decide

theorem Field.inReg_apart {f g : Field} (h : f ≠ g) :
    f.inReg + 4 ≤ g.inReg ∨ g.inReg + 4 ≤ f.inReg := by
  revert h
  cases f <;> cases g <;> decide

theorem saveFields_outside {i : ℕ} (hi : i < r ∨ r + regSize ≤ i) :
    saveFields r iframe fields m i = m i := by
  induction fields generalizing m with
  | nil => rfl
  | cons f fields ih =>
    have hle := f.inReg_le
    exact ih.trans (store32_outside (by omega))

theorem saveFields_other {f : Field} (hf : f ∉ fields) :
    (saveFields r iframe fields m).load32 (r + f.inReg) = m.load32 (r + f.inReg) := by
  induction fields generalizing m with
  | nil => rfl
  | cons f' fields ih =>
    obtain ⟨hne, hf⟩ := not_or.mp (mt List.mem_cons.mpr hf)
    have hap := Field.inReg_apart hne
    exact (ih hf).trans (load32_store32_other (by omega))

theorem saveFields_load {f : Field} (hf : f ∈ fields)
    (hap : r + regSize ≤ iframe ∨ iframe + frameSize ≤ r) :
    (saveFields r iframe fields m).load32 (r + f.inReg) = m.load32 (iframe + f.inFrame) := by
  induction fields generalizing m with
  | nil => exact absurd hf List.not_mem_nil
  | cons f' fields ih =>
    have hreg := f'.inReg_le
    by_cases htail : f ∈ fields
    · have hframe := f.inFrame_le
      exact (ih htail).trans (load32_store32_other (by omega))
    · obtain rfl : f = f' := (List.mem_cons.mp hf).resolve_right htail
      exact (saveFields_other htail).trans (load32_store32_self (load32_lt _ _))

theorem currentTaskSaveState_saved (hap : r + regSize ≤ iframe ∨ iframe + frameSize ≤ r) (f : Field) :
    (InMemory.currentTaskSaveState r iframe m).load32 (r + f.inReg) = m.load32 (iframe + f.inFrame) :=
  saveFields_load (by cases f <;> decide) hap

end Save

section Interrupted

/-- The gate leads to the interrupt service routine, on a stack with room from `low` on
which the registers at `r` are not on. -/
structure KernelGate (g : Gate) (low r : ℕ) : Prop where
  handler : g.handler = 0
  room : low + frameSize + 4 ≤ g.stack
  stack_lt : g.stack < 2 ^ 32
  apart : r + regSize ≤ low ∨ g.stack ≤ r

def frameWords (g : Gate) (u : Machine) : List ℕ :=
  (pushadOrder.map (u.interrupt g).gpr).reverse ++
    [u.eip, u.segment .cs, u.flags, u.gpr .esp, u.segment .ss]

theorem frameWords_fields {m : ByteMemory} {a : ℕ} {g : Gate} (h : Words m a (frameWords g u))
    (f : Field) : m.load32 (a + f.inFrame) = fieldOf u f := by
  have hget := fun i (hi : i < 13) ↦ h.get (i := i) hi
  have hregs : ∀ q, q ≠ .esp → (u.interrupt g).gpr q = u.gpr q := fun q hq ↦ interrupt_gpr hq
  cases f with
  | edi => exact (hget 0 (by decide)).trans (hregs .edi (by decide))
  | esi => exact (hget 1 (by decide)).trans (hregs .esi (by decide))
  | ebp => exact (hget 2 (by decide)).trans (hregs .ebp (by decide))
  | ebx => exact (hget 4 (by decide)).trans (hregs .ebx (by decide))
  | edx => exact (hget 5 (by decide)).trans (hregs .edx (by decide))
  | ecx => exact (hget 6 (by decide)).trans (hregs .ecx (by decide))
  | eax => exact (hget 7 (by decide)).trans (hregs .eax (by decide))
  | ip => exact hget 8 (by decide)
  | cs => exact hget 9 (by decide)
  | flags => exact hget 10 (by decide)
  | esp => exact hget 11 (by decide)
  | ss => exact hget 12 (by decide)

variable (arith) in
theorem isr_run (hu : u.Bounded) (hg : KernelGate g low r) :
    Reaches arith isrCode 2 (u.interrupt g) (fun t ↦ t.top 0 + frameSize = g.stack ∧
      ∀ f, t.mem.load32 (t.top 0 + f.inFrame) = fieldOf u f) := by
  have hroom := hg.room
  unfold frameSize at hroom
  have h₁ := pushad_pushed arith hu (show low + 52 ≤ g.stack by omega) hg.stack_lt
  have heip : (Instr.run arith (u.interrupt g) .pushad).eip = 1 := congrArg (· + 1) hg.handler
  refine .step (i := .pushad) (by rw [Machine.interrupt, hg.handler]; rfl) ?_
  generalize Instr.run arith (u.interrupt g) .pushad = s at h₁ heip
  have hesp : s.gpr .esp + 52 = g.stack := h₁.esp
  have h₂ := h₁.push (v := s.gpr .esp) (by omega) (by have := hg.stack_lt; omega)
  refine .step (i := .push (.reg .esp)) (heip.symm ▸ rfl) (.done ?_)
  have h₂ : Pushed u.mem low g.stack _ (Instr.run arith s (.push (.reg .esp))) := h₂.congr rfl rfl
  generalize Instr.run arith s (.push (.reg .esp)) = t at h₂
  have htop : t.top 0 = s.gpr .esp := h₂.top (Nat.zero_lt_succ _)
  have hesp' : t.gpr .esp + 4 = s.gpr .esp := by
    have hend : t.gpr .esp + 56 = g.stack := h₂.esp
    omega
  have hwords := h₂.words.2
  rw [hesp'] at hwords
  rw [htop]
  exact ⟨hesp, frameWords_fields hwords⟩

end Interrupted

section Resume

/-- What happens to the memory while other tasks run. Their registers are saved, they are
entered, and what they and the kernel do besides leaves the registers at `r` alone. -/
inductive OthersRan (arith : ℕ → ℕ → ℕ) (r : ℕ) : ByteMemory → ByteMemory → Prop
  | done {m : ByteMemory} : OthersRan arith r m m
  | saved {m m' : ByteMemory} {other iframe : ℕ}
    (hap : other + regSize ≤ r ∨ r + regSize ≤ other)
    (h : OthersRan arith r (InMemory.currentTaskSaveState other iframe m) m') :
    OthersRan arith r m m'
  | entered {s t : Machine} {m' : ByteMemory} {low other : ℕ} (hs : s.eip = 0)
    (hregs : RegsAt s.mem low (s.gpr .esp) other) (hap : r + regSize ≤ low ∨ s.gpr .esp ≤ r)
    (hrun : run arith taskCode 30 s = some t) (h : OthersRan arith r t.mem m') :
    OthersRan arith r s.mem m'
  | ran {m m₁ m' : ByteMemory} (hkept : ∀ i, r ≤ i → i < r + regSize → m₁ i = m i)
    (h : OthersRan arith r m₁ m') : OthersRan arith r m m'

theorem OthersRan.kept (h : OthersRan arith r m m') {i : ℕ} (h₁ : r ≤ i) (h₂ : i < r + regSize) :
    m' i = m i := by
  induction h with
  | done => rfl
  | saved hap _ ih => exact ih.trans (saveFields_outside (by omega))
  | entered hs hregs hap hrun _ ih =>
    obtain ⟨t', ht, hpushed, -⟩ := enterTask_run arith hregs rfl hs
    obtain rfl := Option.some.inj (hrun.symm.trans ht)
    exact ih.trans (hpushed.off i (by omega))
  | ran hkept _ ih => exact ih.trans (hkept i h₁ h₂)

variable (arith) in
/-- A task that is interrupted and entered later has all its fields again, the flags
apart. These are what the kernel ran with when it entered the task. -/
theorem resumes_run (hu : u.Bounded) (hg : KernelGate g low r) :
    ∃ t, run arith isrCode 2 (u.interrupt g) = some t ∧
      ∀ (k : Machine) (floor : ℕ),
        OthersRan arith r (InMemory.currentTaskSaveState r (t.top 0) t.mem) k.mem →
        k.eip = 0 → RegsAt k.mem floor (k.gpr .esp) r →
        ∃ k', run arith taskCode 31 k = some k' ∧
          (∀ f, f ≠ .flags → fieldOf k' f = fieldOf u f) ∧ fieldOf k' .flags = enteredFlags k.flags := by
  obtain ⟨t, ht, htop, hframe⟩ := isr_run arith hu hg
  refine ⟨t, ht, fun k floor hothers h0 hregs ↦ ?_⟩
  have hap := hg.apart
  have hroom := hg.room
  have hsaved : ∀ f : Field, k.mem.load32 (r + f.inReg) = fieldOf u f := by
    intro f
    have hle := f.inReg_le
    rw [← hframe f, ← currentTaskSaveState_saved (m := t.mem) (r := r) (by omega) f]
    exact load32_congr (fun i h₁ h₂ ↦ hothers.kept (by omega) (by omega))
  obtain ⟨k', hrun, -, hfields, hflags⟩ := enterTask_iret arith hregs rfl h0
    ((hsaved .cs).trans_lt (hu.segment .cs)) ((hsaved .ss).trans_lt (hu.segment .ss))
  exact ⟨k', hrun, fun f hf ↦ (hfields f hf).trans (hsaved f), hflags⟩

structure Resumes (u k : Machine) : Prop where
  fields : ∀ f, f ≠ .flags → fieldOf k f = fieldOf u f
  flags : k.flags = u.flags ||| 0x200

variable (arith) in
theorem resumes_iff (hu : u.Bounded) (hg : KernelGate g low r) :
    ∃ t, run arith isrCode 2 (u.interrupt g) = some t ∧
      ∀ (k : Machine) (floor : ℕ),
        OthersRan arith r (InMemory.currentTaskSaveState r (t.top 0) t.mem) k.mem →
        k.eip = 0 → RegsAt k.mem floor (k.gpr .esp) r →
        ∃ k', run arith taskCode 31 k = some k' ∧
          (∀ f, f ≠ .flags → fieldOf k' f = fieldOf u f) ∧
          (Resumes u k' ↔ enteredFlags k.flags = u.flags ||| 0x200) := by
  obtain ⟨t, ht, hall⟩ := resumes_run arith hu hg
  refine ⟨t, ht, fun k floor hothers h0 hregs ↦ ?_⟩
  obtain ⟨k', hrun, hfields, hflags⟩ := hall k floor hothers h0 hregs
  exact ⟨k', hrun, hfields, fun h ↦ hflags.symm.trans h.flags, fun h ↦ ⟨hfields, hflags.trans h⟩⟩

def interruptedTask (flags : ℕ) : Machine :=
  { gpr := fun _ ↦ 7, segment := fun _ ↦ 0x23, flags := flags, eip := 0x400000, mem := fun _ ↦ 0 }

def tssGate : Gate := { stack := 0x600000, ss := 0x10, cs := 0x08, handler := 0 }

def enteringKernel (m : ByteMemory) : Machine :=
  { gpr := fun _ ↦ 0x5ff000, segment := fun _ ↦ 0x10, flags := 0x202, eip := 0
    mem := m.store32 0x5ff004 0x1000000 }

theorem interruptedTask_bounded {flags : ℕ} (h : flags < 2 ^ 32) : (interruptedTask flags).Bounded :=
  ⟨fun _ ↦ (by decide : 7 < 2 ^ 32), fun _ ↦ (by decide : 0x23 < 2 ^ 16), h,
    (by decide : 0x400000 < 2 ^ 32)⟩

theorem tssGate_kernel : KernelGate tssGate 0x5ff100 0x1000000 :=
  ⟨rfl, by decide, by decide, by decide⟩

theorem enteringKernel_others : OthersRan arith 0x1000000 m (enteringKernel m).mem :=
  .ran (fun _ _ _ ↦ store32_outside (by omega)) .done

theorem enteringKernel_regs : RegsAt (enteringKernel m).mem 0x5fe000 0x5ff000 0x1000000 :=
  ⟨by decide, by decide, load32_store32_self (by decide), by decide, by decide⟩

theorem resumes_iff_quiet : ∃ t k', run (fun fl _ ↦ fl) isrCode 2
      ((interruptedTask 0x202).interrupt tssGate) = some t ∧
    run (fun fl _ ↦ fl) taskCode 31 (enteringKernel
      (InMemory.currentTaskSaveState 0x1000000 (t.top 0) t.mem)) = some k' ∧
    Resumes (interruptedTask 0x202) k' := by
  obtain ⟨t, ht, hall⟩ := resumes_iff (g := tssGate) (fun fl _ ↦ fl)
    (interruptedTask_bounded (by decide : 0x202 < 2 ^ 32)) tssGate_kernel
  obtain ⟨k', hrun, -, hiff⟩ := hall (enteringKernel _) _ enteringKernel_others rfl enteringKernel_regs
  have hflags : enteredFlags 0x202 = 0x202 ||| 0x200 := by decide
  exact ⟨t, k', ht, hrun, hiff.mpr hflags⟩

/-- A task is interrupted with the carry flag set, and goes on without it. -/
theorem carry_not_resumed : ∃ t k', run (fun fl _ ↦ fl) isrCode 2
      ((interruptedTask 0x203).interrupt tssGate) = some t ∧
    run (fun fl _ ↦ fl) taskCode 31 (enteringKernel
      (InMemory.currentTaskSaveState 0x1000000 (t.top 0) t.mem)) = some k' ∧
    fieldOf k' .flags = 0x202 ∧ ¬ Resumes (interruptedTask 0x203) k' := by
  obtain ⟨t, ht, hall⟩ := resumes_run (g := tssGate) (fun fl _ ↦ fl)
    (interruptedTask_bounded (by decide : 0x203 < 2 ^ 32)) tssGate_kernel
  obtain ⟨k', hrun, -, hflags⟩ := hall (enteringKernel _) _ enteringKernel_others rfl enteringKernel_regs
  have hentered : enteredFlags 0x202 = 0x202 := by decide
  have hvalue : fieldOf k' .flags = 0x202 := hflags.trans hentered
  have hne : 0x202 ≠ 0x203 ||| 0x200 := by decide
  exact ⟨t, k', ht, hrun, hvalue, fun h ↦ hne (hvalue.symm.trans h.flags)⟩

end Resume

end GammaOS.Kernel
