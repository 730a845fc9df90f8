import GammaOS.Foundation.X86
import GammaOS.Kernel.Syscall

namespace GammaOS.Kernel

open Function Foundation ByteMemory X86

/-- The fields of `struct reg`, and of `struct interrupt_frame` less its useless one. -/
inductive Field
  | eax | ebx | ecx | edx | esi | edi | esp | ebp | ip | cs | ss | flags
deriving DecidableEq

def Field.inReg : Field → ℕ
  | eax => 0
  | ebx => 4
  | ecx => 8
  | edx => 12
  | esi => 16
  | edi => 20
  | esp => 24
  | ebp => 28
  | ip => 32
  | cs => 36
  | ss => 40
  | flags => 44

def regSize : ℕ := 48

/-- Where `struct interrupt_frame` has a field: the `esp` of `pushad` is at 12. -/
def Field.inFrame : Field → ℕ
  | edi => 0
  | esi => 4
  | ebp => 8
  | ebx => 16
  | edx => 20
  | ecx => 24
  | eax => 28
  | ip => 32
  | cs => 36
  | flags => 40
  | esp => 44
  | ss => 48

def frameSize : ℕ := 52

/-- The fields in the order in which `current_task_save_state` copies them. -/
def savedOrder : List Field :=
  [.cs, .ss, .eax, .ebx, .ecx, .edx, .esi, .edi, .esp, .ip, .flags, .ebp]

/-- The stores of `current_task_save_state`, with the addresses of the registers of
the current task and of the frame. -/
def saveFields (registers iframe : ℕ) (fields : List Field) (m : ByteMemory) : ByteMemory :=
  fields.foldl (fun m f ↦ m.store32 (registers + f.inReg) (m.load32 (iframe + f.inFrame))) m

def InMemory.currentTaskSaveState (registers iframe : ℕ) (m : ByteMemory) : ByteMemory :=
  saveFields registers iframe savedOrder m

/-- How an interrupt service routine begins: the pointer to the frame is pushed
behind the registers. -/
def isrCode : List Instr := [.pushad, .push (.reg .esp)]

def restoreGprsAt : ℕ := 19

def enterTaskCode : List Instr :=
  [.mov .ebp (.reg .esp),
   .mov .ebx (.mem .ebp 4),
   .push (.mem .ebx 40),
   .push (.mem .ebx 24),
   .pushf,
   .pop .eax,
   .or .eax 0x200,
   .push (.reg .eax),
   .push (.mem .ebx 36),
   .push (.mem .ebx 32),
   .mov16 .eax (.mem .ebx 40),
   .movSegment .ds .eax,
   .movSegment .es .eax,
   .movSegment .fs .eax,
   .movSegment .gs .eax,
   .push (.mem .ebp 4),
   .call restoreGprsAt,
   .add .esp 4,
   .iret]

def restoreGprsCode : List Instr :=
  [.push (.reg .ebp),
   .mov .ebp (.reg .esp),
   .mov .eax (.mem .ebp 8),
   .mov .ebx (.mem .eax 4),
   .mov .ecx (.mem .eax 8),
   .mov .edx (.mem .eax 12),
   .mov .esi (.mem .eax 16),
   .mov .edi (.mem .eax 20),
   .mov .ebp (.mem .eax 28),
   .mov .eax (.mem .eax 0),
   .add .esp 4,
   .ret]

def taskCode : List Instr := enterTaskCode ++ restoreGprsCode

variable {arith : ℕ → ℕ → ℕ} {m : ByteMemory} {low sp r fl e d : ℕ} {ws : List ℕ} {s : Machine}
  {n : ℕ} {Q : Machine → Prop}

section Enter

/-- The registers of the task are at `r`, off the stack, which is free from `low` on.
The argument of `enter_task` leads there. -/
structure RegsAt (m : ByteMemory) (low sp r : ℕ) : Prop where
  inside : r + regSize ≤ 2 ^ 32
  apart : r + regSize ≤ low ∨ sp ≤ r
  arg : m.load32 (sp + 4) = r
  room : low + 32 ≤ sp
  sp_le : sp + 8 ≤ 2 ^ 32

structure Entering (m : ByteMemory) (low sp r fl e : ℕ) (ws : List ℕ) (s : Machine) : Prop where
  pushed : Pushed m low sp ws s
  ebx : s.gpr .ebx = r
  ebp : s.gpr .ebp = sp
  flags : s.flags = fl
  eip : s.eip = e

theorem reg_value (h : Pushed m low sp ws s) (hr : RegsAt m low sp r) {base : Gpr}
    (hb : s.gpr base = r) (hd : d + 4 ≤ regSize) :
    Source.value s (.mem base d) = m.load32 (r + d) := by
  have hin := hr.inside
  have hap := hr.apart
  rw [Source.value, hb, wrap_of_lt (by omega), h.load (by omega)]

theorem Entering.push (h : Entering m low sp r fl e ws s) (src : Source) {v : ℕ}
    (hcode : taskCode[e]? = some (.push src)) (hv : src.value s = v) (hlt : v < 2 ^ 32)
    (hroom : low + 4 * ws.length + 4 ≤ sp)
    (k : ∀ s, Entering m low sp r fl (e + 1) (v :: ws) s → Reaches arith taskCode n s Q) :
    Reaches arith taskCode (n + 1) s Q := by
  have hesp := h.pushed.esp
  refine .step (h.eip.symm ▸ hcode) (k _ ?_)
  rw [Instr.run, hv]
  refine ⟨(h.pushed.push (by omega) hlt).congr rfl rfl, ?_, ?_, h.flags, congrArg (· + 1) h.eip⟩
  · rw [Machine.next_gpr, Machine.push_gpr_of_ne _ (by decide), h.ebx]
  · rw [Machine.next_gpr, Machine.push_gpr_of_ne _ (by decide), h.ebp]

theorem Entering.pushReg (h : Entering m low sp r fl e ws s) (hr : RegsAt m low sp r)
    (hcode : taskCode[e]? = some (.push (.mem .ebx d))) (hd : d + 4 ≤ regSize)
    (hroom : low + 4 * ws.length + 4 ≤ sp)
    (k : ∀ s, Entering m low sp r fl (e + 1) (m.load32 (r + d) :: ws) s → Reaches arith taskCode n s Q) :
    Reaches arith taskCode (n + 1) s Q :=
  h.push _ hcode (reg_value h.pushed hr h.ebx hd) (load32_lt _ _) hroom k

theorem Entering.skip (h : Entering m low sp r fl e ws s) {i : Instr} (hcode : taskCode[e]? = some i)
    (hgpr : ∀ q, q ≠ .eax → (i.run arith s).gpr q = s.gpr q) (hmem : (i.run arith s).mem = s.mem)
    (heip : (i.run arith s).eip = s.eip + 1)
    (k : Entering m low sp r (i.run arith s).flags (e + 1) ws (i.run arith s) →
      Reaches arith taskCode n (i.run arith s) Q) : Reaches arith taskCode (n + 1) s Q := by
  refine .step (h.eip.symm ▸ hcode) (k ⟨h.pushed.congr (hgpr _ (by decide)) hmem, ?_, ?_, rfl, ?_⟩)
  · rw [hgpr _ (by decide), h.ebx]
  · rw [hgpr _ (by decide), h.ebp]
  · rw [heip, h.eip]

theorem Entering.segment (h : Entering m low sp r fl e ws s) {g : X86.Segment}
    (hcode : taskCode[e]? = some (.movSegment g .eax))
    (k : ∀ s, Entering m low sp r fl (e + 1) ws s → Reaches arith taskCode n s Q) :
    Reaches arith taskCode (n + 1) s Q :=
  h.skip hcode (fun _ _ ↦ rfl) rfl rfl (fun h' ↦ k _ (h.flags ▸ h'))

def enteredFlags (fl : ℕ) : ℕ := fl &&& 0xfcffff ||| 0x200

theorem enteredFlags_lt (fl : ℕ) : enteredFlags fl < 2 ^ 32 :=
  Nat.or_lt_two_pow (Nat.lt_of_le_of_lt Nat.and_le_right (by decide)) (by decide)

variable (arith) in
theorem Entering.pushf (h : Entering m low sp r fl 4 ws s) (hroom : low + 4 * ws.length + 4 ≤ sp)
    {x : ℕ} (hx : fl &&& 0xfcffff = x) (hlt : x < 2 ^ 32) :
    Entering m low sp r fl 5 (x :: ws) (Instr.run arith s .pushf) := by
  have hesp := h.pushed.esp
  rw [Instr.run, h.flags, hx]
  refine ⟨(h.pushed.push (by omega) hlt).congr rfl rfl, ?_, ?_, h.flags, congrArg (· + 1) h.eip⟩
  · rw [Machine.next_gpr, Machine.push_gpr_of_ne _ (by decide), h.ebx]
  · rw [Machine.next_gpr, Machine.push_gpr_of_ne _ (by decide), h.ebp]

variable (arith) in
theorem Entering.pop {x : ℕ} (h : Entering m low sp r fl 5 (x :: ws) s) :
    Entering m low sp r fl 6 ws (Instr.run arith s (.pop .eax)) ∧
      (Instr.run arith s (.pop .eax)).gpr .eax = x := by
  rw [Instr.run, h.pushed.top (Nat.zero_lt_succ _), List.getElem_cons_zero]
  refine ⟨⟨h.pushed.drop.congr ?_ rfl, ?_, ?_, h.flags, congrArg (· + 1) h.eip⟩, ?_⟩
  · rw [Machine.next_gpr, Machine.set_gpr_of_ne _ (by decide)]
  · rw [Machine.next_gpr, Machine.set_gpr_of_ne _ (by decide), Machine.drop_gpr_of_ne _ (by decide),
      h.ebx]
  · rw [Machine.next_gpr, Machine.set_gpr_of_ne _ (by decide), Machine.drop_gpr_of_ne _ (by decide),
      h.ebp]
  · rw [Machine.next_gpr, Machine.set_gpr_self]

variable (arith) in
theorem Entering.or (h : Entering m low sp r fl e ws s) (imm : ℕ) :
    Entering m low sp r (arith fl (s.gpr .eax ||| imm)) (e + 1) ws (Instr.run arith s (.or .eax imm)) ∧
      (Instr.run arith s (.or .eax imm)).gpr .eax = s.gpr .eax ||| imm := by
  rw [Instr.run, ← h.flags]
  generalize s.gpr .eax ||| imm = y
  refine ⟨⟨h.pushed.congr ?_ rfl, ?_, ?_, rfl, congrArg (· + 1) h.eip⟩, ?_⟩
  · rw [Machine.next_gpr, Machine.setFlags_gpr, Machine.set_gpr_of_ne _ (by decide)]
  · rw [Machine.next_gpr, Machine.setFlags_gpr, Machine.set_gpr_of_ne _ (by decide), h.ebx]
  · rw [Machine.next_gpr, Machine.setFlags_gpr, Machine.set_gpr_of_ne _ (by decide), h.ebp]
  · rw [Machine.next_gpr, Machine.setFlags_gpr, Machine.set_gpr_self]

theorem Entering.pushFlags (h : Entering m low sp r fl 4 ws s) (hroom : low + 4 * ws.length + 4 ≤ sp)
    (k : ∀ s fl', Entering m low sp r fl' 8 (enteredFlags fl :: ws) s → Reaches arith taskCode n s Q) :
    Reaches arith taskCode (n + 4) s Q := by
  have hent : ∀ x, fl &&& 0xfcffff = x → x ||| 0x200 = enteredFlags fl := by
    rintro x rfl
    rfl
  have hlt : fl &&& 0xfcffff < 2 ^ 32 := Nat.lt_of_le_of_lt Nat.and_le_right (by decide)
  generalize hx : fl &&& 0xfcffff = x at hlt
  have h₅ := h.pushf arith hroom hx hlt
  refine .step (i := .pushf) (h.eip.symm ▸ rfl) ?_
  generalize Instr.run arith s .pushf = s at h₅
  obtain ⟨h₆, heax⟩ := h₅.pop arith
  refine .step (i := .pop .eax) (h₅.eip.symm ▸ rfl) ?_
  generalize Instr.run arith s (.pop .eax) = s at h₆ heax
  obtain ⟨h₇, heax'⟩ := h₆.or arith 0x200
  refine .step (i := .or .eax 0x200) (h₆.eip.symm ▸ rfl) ?_
  rw [heax, hent x hx] at heax'
  generalize Instr.run arith s (.or .eax 0x200) = s at h₇ heax'
  exact h₇.push (.reg .eax) rfl heax' (enteredFlags_lt fl) hroom (fun s ↦ k s _)

def Field.ofGpr : Gpr → Field
  | .eax => eax
  | .ebx => ebx
  | .ecx => ecx
  | .edx => edx
  | .esi => esi
  | .edi => edi
  | .esp => esp
  | .ebp => ebp

def inReg (q : Gpr) : ℕ := (Field.ofGpr q).inReg

theorem inReg_le (q : Gpr) : inReg q + 4 ≤ regSize := by
  cases q <;> decide

/-- `restore_gprs` before instruction `e`, with the words `ws` pushed since the call of
`enter_task`: `eax` leads to the registers, of which those in `done` are loaded. -/
structure Restoring (m : ByteMemory) (low sp r e : ℕ) (ws : List ℕ) (done : List Gpr)
    (s : Machine) : Prop where
  pushed : Pushed m low sp ws s
  eax : s.gpr .eax = r
  loaded : ∀ q ∈ done, s.gpr q = m.load32 (r + inReg q)
  eip : s.eip = e

theorem Restoring.load {done : List Gpr} (h : Restoring m low sp r e ws done s) (hr : RegsAt m low sp r)
    {q : Gpr} (hcode : taskCode[e]? = some (.mov q (.mem .eax (inReg q)))) (hq : q ≠ .esp)
    (ha : q ≠ .eax) (k : ∀ s, Restoring m low sp r (e + 1) ws (q :: done) s → Reaches arith taskCode n s Q) :
    Reaches arith taskCode (n + 1) s Q := by
  refine .step (h.eip.symm ▸ hcode) (k _ ?_)
  rw [Instr.run, reg_value h.pushed hr h.eax (inReg_le q)]
  refine ⟨h.pushed.congr ?_ rfl, ?_, fun p hp ↦ ?_, congrArg (· + 1) h.eip⟩
  · rw [Machine.next_gpr, Machine.set_gpr_of_ne _ hq.symm]
  · rw [Machine.next_gpr, Machine.set_gpr_of_ne _ ha.symm, h.eax]
  · by_cases he : p = q
    · rw [he, Machine.next_gpr, Machine.set_gpr_self]
    · rw [Machine.next_gpr, Machine.set_gpr_of_ne _ he]
      exact h.loaded p (List.mem_of_ne_of_mem he hp)

variable (arith) in
theorem call_restore (h : Entering m low sp r fl 16 ws s) (hroom : low + 4 * ws.length + 4 ≤ sp) :
    Pushed m low sp (17 :: ws) (Instr.run arith s (.call restoreGprsAt)) ∧
      (Instr.run arith s (.call restoreGprsAt)).gpr .ebp = sp ∧
      (Instr.run arith s (.call restoreGprsAt)).eip = 19 := by
  have hesp := h.pushed.esp
  rw [Instr.run, h.eip]
  refine ⟨(h.pushed.push (by omega) (by decide)).congr rfl rfl, ?_, rfl⟩
  rw [Machine.jump_gpr, Machine.push_gpr_of_ne _ (by decide), h.ebp]

variable (arith) in
theorem push_ebp (h : Pushed m low sp ws s) (hebp : s.gpr .ebp = d) (hd : d < 2 ^ 32)
    (hroom : low + 4 * ws.length + 4 ≤ sp) :
    Pushed m low sp (d :: ws) (Instr.run arith s (.push (.reg .ebp))) := by
  have hesp := h.esp
  rw [Instr.run, Source.value, hebp]
  exact (h.push (by omega) hd).congr rfl rfl

theorem restore_arg {x y : ℕ} (h : Pushed m low sp (x :: y :: r :: ws) s)
    (hebp : s.gpr .ebp = s.gpr .esp) : Source.value s (.mem .ebp 8) = r := by
  have htop := h.top (i := 2) (by simp)
  rw [Machine.top, ← hebp] at htop
  simpa only [Source.value, Nat.reduceMul, List.getElem_cons_succ, List.getElem_cons_zero] using htop

theorem Entering.call (h : Entering m low sp r fl 16 (r :: ws) s) (hr : RegsAt m low sp r)
    (hroom : low + 4 * ws.length + 12 ≤ sp)
    (k : ∀ s, Restoring m low sp r 22 (sp :: 17 :: r :: ws) [] s → Reaches arith taskCode n s Q) :
    Reaches arith taskCode (n + 4) s Q := by
  have hsp := hr.sp_le
  have hlen : ∀ x : ℕ, (x :: ws).length = ws.length + 1 := fun _ ↦ List.length_cons
  obtain ⟨h₁₉, hebp, heip⟩ := call_restore arith h (by rw [hlen]; omega)
  refine .step (i := .call restoreGprsAt) (h.eip.symm ▸ rfl) ?_
  generalize Instr.run arith s (.call restoreGprsAt) = s at h₁₉ hebp heip
  have h₂₀ := push_ebp arith h₁₉ hebp (by omega) (by rw [List.length_cons, hlen]; omega)
  refine .step (i := .push (.reg .ebp)) (heip.symm ▸ rfl) ?_
  have heip : (Instr.run arith s (.push (.reg .ebp))).eip = 20 := congrArg (· + 1) heip
  generalize Instr.run arith s (.push (.reg .ebp)) = s at h₂₀ heip
  have h₂₁ := h₂₀.mov (r := .ebp) arith (.reg .esp) (by decide)
  refine .step (i := .mov .ebp (.reg .esp)) (heip.symm ▸ rfl) ?_
  have hebp : (Instr.run arith s (.mov .ebp (.reg .esp))).gpr .ebp =
      (Instr.run arith s (.mov .ebp (.reg .esp))).gpr .esp := by
    rw [Instr.mov_self, Instr.mov_of_ne (by decide), Source.value]
  have heip : (Instr.run arith s (.mov .ebp (.reg .esp))).eip = 21 := by rw [Instr.mov_eip, heip]
  generalize Instr.run arith s (.mov .ebp (.reg .esp)) = s at h₂₁ hebp heip
  refine .step (i := .mov .eax (.mem .ebp 8)) (heip.symm ▸ rfl) (k _ ⟨h₂₁.mov _ _ (by decide), ?_, ?_, ?_⟩)
  · rw [Instr.mov_self, restore_arg h₂₁ hebp]
  · exact fun q hq ↦ absurd hq List.not_mem_nil
  · rw [Instr.mov_eip, heip]

variable (arith) in
theorem Pushed.addEsp {x : ℕ} (h : Pushed m low sp (x :: ws) s) :
    Pushed m low sp ws (Instr.run arith s (.add .esp 4)) := by
  rw [Instr.run]
  exact h.drop.congr rfl rfl

theorem addEsp_gpr {q : Gpr} (hq : q ≠ .esp) : (Instr.run arith s (.add .esp 4)).gpr q = s.gpr q := by
  rw [Instr.run, Machine.next_gpr, Machine.setFlags_gpr, Machine.set_gpr_of_ne _ hq]

theorem Restoring.leave {done : List Gpr} {x : ℕ}
    (h : Restoring m low sp r 28 (x :: 17 :: r :: ws) done s) (hr : RegsAt m low sp r)
    (hdone : Gpr.eax ∉ done) (hesp : Gpr.esp ∉ done)
    (k : ∀ s, Pushed m low sp ws s → (∀ q ∈ Gpr.eax :: done, s.gpr q = m.load32 (r + inReg q)) →
      s.eip = 18 → Reaches arith taskCode n s Q) :
    Reaches arith taskCode (n + 4) s Q := by
  refine .step (i := .mov .eax (.mem .eax 0)) (h.eip.symm ▸ rfl) ?_
  have hvalue := reg_value h.pushed hr h.eax (inReg_le .eax)
  have h₂₉ : Pushed m low sp (x :: 17 :: r :: ws) (Instr.run arith s (.mov .eax (.mem .eax 0))) := by
    rw [Instr.run]
    refine h.pushed.congr ?_ rfl
    rw [Machine.next_gpr, Machine.set_gpr_of_ne _ (by decide)]
  have hgpr : ∀ q ∈ Gpr.eax :: done,
      (Instr.run arith s (.mov .eax (.mem .eax 0))).gpr q = m.load32 (r + inReg q) := by
    intro q hq
    rw [Instr.run, Machine.next_gpr]
    rcases List.mem_cons.mp hq with rfl | hq
    · rw [Machine.set_gpr_self]
      exact hvalue
    · rw [Machine.set_gpr_of_ne _ (ne_of_mem_of_not_mem hq hdone), h.loaded q hq]
  have heip : (Instr.run arith s (.mov .eax (.mem .eax 0))).eip = 29 := congrArg (· + 1) h.eip
  generalize Instr.run arith s (.mov .eax (.mem .eax 0)) = s at h₂₉ hgpr heip
  have hne : ∀ q ∈ Gpr.eax :: done, q ≠ .esp := by
    rintro q hq rfl
    exact (List.mem_cons.mp hq).elim (by decide) hesp
  refine .step (i := .add .esp 4) (heip.symm ▸ rfl) ?_
  have h₃₀ := Pushed.addEsp arith h₂₉
  have hgpr : ∀ q ∈ Gpr.eax :: done, (Instr.run arith s (.add .esp 4)).gpr q = m.load32 (r + inReg q) :=
    fun q hq ↦ (addEsp_gpr (hne q hq)).trans (hgpr q hq)
  have heip : (Instr.run arith s (.add .esp 4)).eip = 30 := congrArg (· + 1) heip
  generalize Instr.run arith s (.add .esp 4) = s at h₃₀ hgpr heip
  refine .step (i := .ret) (heip.symm ▸ rfl) ?_
  have h₁₇ : Pushed m low sp (r :: ws) (Instr.run arith s .ret) := by
    rw [Instr.run]
    exact h₃₀.drop.congr rfl rfl
  have hgpr : ∀ q ∈ Gpr.eax :: done, (Instr.run arith s .ret).gpr q = m.load32 (r + inReg q) := by
    intro q hq
    rw [Instr.run, Machine.jump_gpr, Machine.drop_gpr_of_ne _ (hne q hq), hgpr q hq]
  have heip : (Instr.run arith s .ret).eip = 17 := by
    have htop := h₃₀.top (i := 0) (Nat.zero_lt_succ _)
    rwa [List.getElem_cons_zero] at htop
  generalize Instr.run arith s .ret = s at h₁₇ hgpr heip
  refine .step (i := .add .esp 4) (heip.symm ▸ rfl) ?_
  exact k _ (Pushed.addEsp arith h₁₇) (fun q hq ↦ (addEsp_gpr (hne q hq)).trans (hgpr q hq))
    (congrArg (· + 1) heip)

end Enter

end GammaOS.Kernel
