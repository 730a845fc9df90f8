import GammaOS.Kernel.TaskState

namespace GammaOS.Kernel

open Function Foundation ByteMemory X86

variable {arith : ℕ → ℕ → ℕ} {m : ByteMemory} {low sp r fl : ℕ} {s : Machine} {n : ℕ}
  {Q : Machine → Prop}

section Enter

theorem Entering.start (hr : RegsAt s.mem low sp r) (hsp : s.gpr .esp = sp) (h0 : s.eip = 0)
    (k : ∀ t, Entering s.mem low sp r s.flags 2 [] t → Reaches arith taskCode n t Q) :
    Reaches arith taskCode (n + 2) s Q := by
  have hroom := hr.room
  have hle := hr.sp_le
  have h₀ := Pushed.start low hsp (by omega) (by omega)
  refine .step (i := .mov .ebp (.reg .esp)) (h0.symm ▸ rfl) ?_
  have h₁ := h₀.mov (r := .ebp) arith (.reg .esp) (by decide)
  have hebp : (Instr.run arith s (.mov .ebp (.reg .esp))).gpr .ebp = sp := by
    rw [Instr.mov_self, Source.value, hsp]
  have heip : (Instr.run arith s (.mov .ebp (.reg .esp))).eip = 1 := by rw [Instr.mov_eip, h0]
  have hfl : (Instr.run arith s (.mov .ebp (.reg .esp))).flags = s.flags := rfl
  generalize Instr.run arith s (.mov .ebp (.reg .esp)) = t at h₁ hebp heip hfl
  refine .step (i := .mov .ebx (.mem .ebp 4)) (heip.symm ▸ rfl) (k _ ⟨h₁.mov _ _ (by decide), ?_, ?_, ?_, ?_⟩)
  · rw [Instr.mov_self, Source.value, hebp, wrap_of_lt (by omega), h₁.load (by omega), hr.arg]
  · rw [Instr.mov_of_ne (by decide), hebp]
  · rw [← hfl]
    rfl
  · rw [Instr.mov_eip, heip]

variable (arith) in
/-- `enter_task` in front of its `iret`: the frame comes from the registers, but for the
flags, which come from the kernel. -/
theorem enterTask_run (hr : RegsAt s.mem low sp r) (hsp : s.gpr .esp = sp) (h0 : s.eip = 0) :
    Reaches arith taskCode 30 s (fun t ↦
      Pushed s.mem low sp [s.mem.load32 (r + 32), s.mem.load32 (r + 36), enteredFlags s.flags,
        s.mem.load32 (r + 24), s.mem.load32 (r + 40)] t ∧
      (∀ q, q ≠ .esp → t.gpr q = s.mem.load32 (r + inReg q)) ∧ t.eip = 18) := by
  have hroom := hr.room
  have hle := hr.sp_le
  refine Entering.start hr hsp h0 (fun t h ↦ ?_)
  refine h.pushReg hr (d := 40) rfl (by decide) (by simp only [List.length_nil]; omega) (fun t h ↦ ?_)
  refine h.pushReg hr (d := 24) rfl (by decide) (by simp only [List.length_cons, List.length_nil]; omega) (fun t h ↦ ?_)
  refine h.pushFlags (by simp only [List.length_cons, List.length_nil]; omega) (fun t fl' h ↦ ?_)
  refine h.pushReg hr (d := 36) rfl (by decide) (by simp only [List.length_cons, List.length_nil]; omega) (fun t h ↦ ?_)
  refine h.pushReg hr (d := 32) rfl (by decide) (by simp only [List.length_cons, List.length_nil]; omega) (fun t h ↦ ?_)
  refine h.skip (i := .mov16 .eax (.mem .ebx 40)) rfl (fun q hq ↦ ?_) rfl rfl (fun h ↦ ?_)
  · rw [Instr.run, Machine.next_gpr, Machine.set_gpr_of_ne _ hq]
  generalize Instr.run arith t (.mov16 .eax (.mem .ebx 40)) = t at h
  refine h.segment rfl (fun t h ↦ ?_)
  refine h.segment rfl (fun t h ↦ ?_)
  refine h.segment rfl (fun t h ↦ ?_)
  refine h.segment rfl (fun t h ↦ ?_)
  refine h.push (.mem .ebp 4) (v := r) rfl ?_ ?_ ?_ (fun t h ↦ ?_)
  · rw [Source.value, h.ebp, wrap_of_lt (by omega), h.pushed.load (by omega), hr.arg]
  · rw [← hr.arg]
    exact load32_lt _ _
  · simp only [List.length_cons, List.length_nil]
    omega
  refine h.call hr (by simp only [List.length_cons, List.length_nil]; omega) (fun t h ↦ ?_)
  refine h.load hr (q := .ebx) rfl (by decide) (by decide) (fun t h ↦ ?_)
  refine h.load hr (q := .ecx) rfl (by decide) (by decide) (fun t h ↦ ?_)
  refine h.load hr (q := .edx) rfl (by decide) (by decide) (fun t h ↦ ?_)
  refine h.load hr (q := .esi) rfl (by decide) (by decide) (fun t h ↦ ?_)
  refine h.load hr (q := .edi) rfl (by decide) (by decide) (fun t h ↦ ?_)
  refine h.load hr (q := .ebp) rfl (by decide) (by decide) (fun t h ↦ ?_)
  refine h.leave hr (by decide) (by decide) (fun t h hgpr heip ↦ .done ⟨h, fun q hq ↦ hgpr q ?_, heip⟩)
  revert hq
  cases q <;> decide

end Enter

def fieldOf (s : Machine) : Field → ℕ
  | .eax => s.gpr .eax
  | .ebx => s.gpr .ebx
  | .ecx => s.gpr .ecx
  | .edx => s.gpr .edx
  | .esi => s.gpr .esi
  | .edi => s.gpr .edi
  | .esp => s.gpr .esp
  | .ebp => s.gpr .ebp
  | .ip => s.eip
  | .cs => s.segment .cs
  | .ss => s.segment .ss
  | .flags => s.flags

theorem fieldOf_ofGpr (s : Machine) (q : Gpr) : fieldOf s (Field.ofGpr q) = s.gpr q := by
  cases q <;> rfl

variable (arith) in
theorem enterTask_iret (hr : RegsAt s.mem low sp r) (hsp : s.gpr .esp = sp) (h0 : s.eip = 0)
    (hcs : s.mem.load32 (r + 36) < 2 ^ 16) (hss : s.mem.load32 (r + 40) < 2 ^ 16) :
    Reaches arith taskCode 31 s (fun t ↦
      (∀ i, i < low ∨ sp ≤ i → t.mem i = s.mem i) ∧
      (∀ f, f ≠ .flags → fieldOf t f = s.mem.load32 (r + f.inReg)) ∧
      fieldOf t .flags = enteredFlags s.flags) := by
  refine (enterTask_run arith hr hsp h0).trans (k := 1) (fun t ⟨h, hgpr, heip⟩ ↦ ?_)
  have htop := fun i (hi : i < 5) ↦ h.top (i := i) hi
  have hregs : ∀ q, q ≠ .esp →
      fieldOf (Instr.run arith t .iret) (.ofGpr q) = s.mem.load32 (r + inReg q) := by
    intro q hq
    rw [fieldOf_ofGpr, ← hgpr q hq]
    exact update_of_ne hq _ _
  refine .step (i := .iret) (heip.symm ▸ rfl) (.done ⟨h.off, fun f hf ↦ ?_, htop 2 (by decide)⟩)
  cases f with
  | eax => exact hregs .eax (by decide)
  | ebx => exact hregs .ebx (by decide)
  | ecx => exact hregs .ecx (by decide)
  | edx => exact hregs .edx (by decide)
  | esi => exact hregs .esi (by decide)
  | edi => exact hregs .edi (by decide)
  | ebp => exact hregs .ebp (by decide)
  | esp => exact (update_self Gpr.esp (t.top 3) t.gpr).trans (htop 3 (by decide))
  | ip => exact htop 0 (by decide)
  | cs => exact (congrArg (· % 2 ^ 16) (htop 1 (by decide))).trans (Nat.mod_eq_of_lt hcs)
  | ss => exact (congrArg (· % 2 ^ 16) (htop 4 (by decide))).trans (Nat.mod_eq_of_lt hss)
  | flags => exact absurd rfl hf

end GammaOS.Kernel
