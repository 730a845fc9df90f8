import GammaOS.Foundation.X86Calls
import GammaOS.Kernel.Resume

namespace GammaOS.Kernel

open Function Foundation ByteMemory X86

/-- `isr_0x80`, with the address of `temp_ret_val`. -/
def isr0x80Code (temp : ℕ) : List Op :=
  [.base .pushad,
   .base (.push (.reg .esp)),
   .base (.push (.reg .eax)),
   .outer,
   .storeAt temp .eax,
   .base (.add .esp 8),
   .popad,
   .movAt .eax temp,
   .base .iret]

def interruptCode (n : ℕ) : List Op :=
  [.base .pushad,
   .base (.push (.reg .esp)),
   .pushImm n,
   .outer,
   .base (.add .esp 8),
   .popad,
   .base .iret]

/-- How a handler in C comes back to its caller: it may use its arguments as its own, and
leaves the frame behind them and the kept part of the task's memory. -/
structure CReturns (top : ℕ) (kept : Set ℕ) (s t : Machine) : Prop where
  eip : t.eip = s.eip + 1
  esp : t.gpr .esp = s.gpr .esp
  frame : ∀ i, s.gpr .esp + 8 ≤ i → i < top → t.mem i = s.mem i
  task : ∀ i ∈ kept, t.mem i = s.mem i
  segment : ∀ q, q ≠ .cs → q ≠ .ss → t.segment q = userDataSelector

structure KernelStack (w : World) (g : Gate) (low : ℕ) (kept : Set ℕ) : Prop where
  fits : g.Fits
  room : low + 60 ≤ g.stack
  kept_stack : ∀ i ∈ kept, i < low ∨ g.stack ≤ i
  returns : ∀ k s, w.code[s.eip]? = some .outer → CReturns g.stack kept s (w.outer k s)

structure Serves (w : World) (temp low : ℕ) (kept : Set ℕ) : Prop
    extends KernelStack w w.gate low kept where
  placed : Placed w.code w.gate.handler (isr0x80Code temp)
  temp_apart : temp + 4 ≤ low ∨ w.gate.stack ≤ temp
  kept_temp : ∀ i ∈ kept, i < temp ∨ temp + 4 ≤ i

structure CalledFor (kept : Set ℕ) (number : ℕ) (u s : Machine) : Prop where
  number : s.top 0 = number
  frame : ∀ f, s.mem.load32 (s.top 1 + f.inFrame) = fieldOf u f
  task : ∀ i ∈ kept, s.mem i = u.mem i

structure Answered (kept : Set ℕ) (ret : ℕ) (u t : Machine) : Prop where
  eax : t.gpr .eax = ret
  gpr : ∀ q, q ≠ .eax → t.gpr q = u.gpr q
  eip : t.eip = u.eip
  flags : t.flags = u.flags
  cs : t.segment .cs = u.segment .cs
  ss : t.segment .ss = u.segment .ss
  data : ∀ q, q ≠ .cs → q ≠ .ss → t.segment q = userDataSelector
  task : ∀ i ∈ kept, t.mem i = u.mem i

variable {w : World} {g : Gate} {temp low high k n ret v : ℕ} {kept : Set ℕ} {u s t : Machine}
  {m : ByteMemory} {Q : ℕ × Machine → Prop}

section Frame

theorem pushad_gpr {q : Gpr} (hq : q ≠ .esp) (arith : ℕ → ℕ → ℕ) :
    (Instr.run arith s .pushad).gpr q = s.gpr q := by
  have hpush := fun v (t : Machine) ↦ t.push_gpr_of_ne (v := v) hq
  simp only [Instr.run, Machine.next_gpr, pushadOrder, List.foldl_cons, List.foldl_nil, hpush]

theorem frame_leads (hs : KernelStack w g low kept) (hu : u.Bounded)
    (hpushad : w.code[g.handler]? = some (.base .pushad))
    (hpush : w.code[g.handler + 1]? = some (.base (.push (.reg .esp))))
    (hnext : ∀ t a, t.Bounded → t.eip = g.handler + 2 → t.gpr .eax = u.gpr .eax →
      t.gpr .esp + 4 = a → Pushed u.mem low g.stack (a :: frameWords g u) t → Leads w (k, t) Q) :
    Leads w (k, u.interrupt g) Q := by
  have hroom := hs.room
  have hlt := hs.fits.stack
  have hb := hu.interrupt hs.fits
  have h₁ : Pushed u.mem low g.stack (frameWords g u) _ :=
    pushad_pushed w.arith hu (show low + 52 ≤ g.stack by omega) hlt
  have heax := (pushad_gpr (q := .eax) (by decide) w.arith).trans
    (interrupt_gpr (u := u) (g := g) (by decide))
  have hb₁ := World.Step.keeps_bounded (k := k) (s := u.interrupt g) hpushad hb
  refine .step (c := (k, u.interrupt g)) hpushad ?_
  have heip : (Instr.run w.arith (u.interrupt g) .pushad).eip = g.handler + 1 := rfl
  rw [Op.run] at hb₁ ⊢
  generalize Instr.run w.arith (u.interrupt g) .pushad = s at h₁ heip heax hb₁
  have hesp : s.gpr .esp + 52 = g.stack := h₁.esp
  refine .push (v := s.gpr .esp) (by rw [heip, hpush]) h₁ (by omega) rfl (by omega)
    (fun t ht h₂ ↦ ?_)
  have hesp₂ : t.gpr .esp + 56 = g.stack := h₂.esp
  exact hnext t _ (ht.bounded hb₁) (by rw [ht.eip, heip]) ((ht.gpr .eax (by decide)).trans heax)
    (by omega) h₂

theorem arguments_calledFor {a : ℕ} (hs : KernelStack w g low kept)
    (hesp : s.gpr .esp + 8 = a) (h : Pushed u.mem low g.stack (v :: a :: frameWords g u) s) :
    CalledFor kept v u s := by
  have hwords := h.words.2.2
  have htop : s.top 1 = a := h.top (Nat.succ_lt_succ (Nat.zero_lt_succ _))
  refine ⟨h.top (Nat.zero_lt_succ _), ?_, fun i hi ↦ h.off i (hs.kept_stack i hi)⟩
  rw [htop, ← hesp]
  exact frameWords_fields hwords

theorem popad_pushed (h : Pushed m low high (frameWords g u) s) :
    (∀ q, q ≠ .esp → s.popad.gpr q = (u.interrupt g).gpr q) ∧
      Pushed m low high [u.eip, u.segment .cs, u.flags, u.gpr .esp, u.segment .ss]
        s.popad.next := by
  have htop := fun i (hi : i < 13) ↦ h.top (i := i) hi
  have hend : s.gpr .esp + 52 = high := h.esp
  have hlt := h.high_lt
  refine ⟨fun q hq ↦ ?_, h.above (wrap_of_lt (by omega)) rfl⟩
  cases q with
  | edi => exact htop 0 (by decide)
  | esi => exact htop 1 (by decide)
  | ebp => exact htop 2 (by decide)
  | esp => exact absurd rfl hq
  | ebx => exact htop 4 (by decide)
  | edx => exact htop 5 (by decide)
  | ecx => exact htop 6 (by decide)
  | eax => exact htop 7 (by decide)

theorem iret_leads (hu : u.Bounded) (hop : w.code[s.eip]? = some (.base .iret))
    (h : Pushed m low high [u.eip, u.segment .cs, u.flags, u.gpr .esp, u.segment .ss] s)
    (heax : s.gpr .eax = ret) (hgpr : ∀ q, q ≠ .eax → q ≠ .esp → s.gpr q = u.gpr q)
    (hdata : ∀ q, q ≠ .cs → q ≠ .ss → s.segment q = userDataSelector)
    (htask : ∀ i ∈ kept, s.mem i = u.mem i) :
    Leads w (k, s) (fun d ↦ d.1 = k ∧ Answered kept ret u d.2) := by
  have htop := fun i (hi : i < 5) ↦ h.top (i := i) hi
  refine .step hop (.done ⟨rfl, ?_⟩)
  rw [Op.run]
  have hgpr' : ∀ q, q ≠ .esp → (Instr.run w.arith s .iret).gpr q = s.gpr q :=
    fun q hq ↦ update_of_ne hq _ _
  refine ⟨(hgpr' _ (by decide)).trans heax, fun q hq ↦ ?_, htop 0 (by decide), htop 2 (by decide),
    ?_, ?_, fun q hcs hss ↦ ?_, htask⟩
  · by_cases hesp : q = .esp
    · rw [hesp]
      exact (update_self Gpr.esp (s.top 3) s.gpr).trans (htop 3 (by decide))
    · rw [hgpr' q hesp, hgpr q hq hesp]
  · exact (congrArg (· % 2 ^ 16) (htop 1 (by decide))).trans (Nat.mod_eq_of_lt (hu.segment .cs))
  · exact (congrArg (· % 2 ^ 16) (htop 4 (by decide))).trans (Nat.mod_eq_of_lt (hu.segment .ss))
  · exact (update_of_ne hss _ _).trans ((update_of_ne hcs _ _).trans (hdata q hcs hss))

end Frame

section SystemCall

theorem isr0x80_answers (vs : List ℕ) (hs : Serves w temp low kept) (hu : u.Bounded)
    (hb : s.Bounded) (heip : s.eip = w.gate.handler + 3) (hcalled : CalledFor kept v u s)
    (hvs : vs.length = 2) (h : Pushed m low w.gate.stack (vs ++ frameWords w.gate u) s) :
    Leads w (k, s) (fun d ↦ d.1 = k + 1 ∧ Answered kept ((w.outer k s).gpr .eax) u d.2) := by
  have hop := hs.placed.get (i := 3) heip rfl
  have hret := hs.returns k s hop
  have hbr := w.outer_bounded k s hb
  refine .step hop ?_
  rw [Op.run]
  generalize w.outer k s = r at hret hbr
  obtain ⟨vs', hvs', h₀⟩ := h.rebase vs hret.esp (fun i h₁ h₂ ↦ hret.frame i (by omega) h₂)
  have heip₀ : r.eip = w.gate.handler + 4 := by rw [hret.eip, heip]
  refine .storeAt (hs.placed.get (i := 4) heip₀ rfl) h₀ hs.temp_apart (fun r₁ hr₁ hmem₁ h₁ ↦ ?_)
  have heip₁ : r₁.eip = w.gate.handler + 5 := by rw [hr₁.eip, heip₀]
  refine .discard vs' (hs.placed.get (i := 5) heip₁ rfl) h₁ (by rw [hvs', hvs])
    (fun r₂ hr₂ hmem₂ h₂ ↦ ?_)
  have heip₂ : r₂.eip = w.gate.handler + 6 := by rw [hr₂.eip, heip₁]
  obtain ⟨hgpr, h₃⟩ := popad_pushed h₂
  refine .step (hs.placed.get (i := 6) heip₂ rfl) ?_
  have heip₃ : r₂.popad.next.eip = w.gate.handler + 7 := congrArg (· + 1) heip₂
  refine .movAt (hs.placed.get (i := 7) heip₃ rfl) h₃ (by decide) (fun r₄ hr₄ heax₄ hmem₄ h₄ ↦ ?_)
  have heip₄ : r₄.eip = w.gate.handler + 8 := by rw [hr₄.eip, heip₃]
  have hmem : r₂.mem = r.mem.store32 temp (r.gpr .eax) := hmem₂.trans hmem₁
  refine iret_leads hu (hs.placed.get (i := 8) heip₄ rfl) h₄ ?_ (fun q hq hesp ↦ ?_)
    (fun q hcs hss ↦ ?_) (fun i hi ↦ ?_)
  · rw [heax₄]
    show r₂.mem.load32 temp = _
    rw [hmem, load32_store32_self (hbr.gpr .eax)]
  · rw [hr₄.gpr q (by simpa using hq)]
    exact (hgpr q hesp).trans (interrupt_gpr hesp)
  · rw [hr₄.segment]
    exact (congrFun (hr₂.segment.trans hr₁.segment) q).trans (hret.segment q hcs hss)
  · rw [hmem₄]
    show r₂.mem i = _
    rw [hmem, store32_outside (hs.kept_temp i hi), hret.task i hi, hcalled.task i hi]

/-- An `int 0x80` of a task: the routine outside is called once for it, and it goes on
behind the instruction with the answer. -/
theorem int_answered (hs : Serves w temp low kept) (hu : u.Bounded)
    (hop : w.code[u.eip]? = some .int) :
    Leads w (k, u) (fun d ↦ d.1 = k + 1 ∧ ∃ s, CalledFor kept (u.gpr .eax) u.next s ∧
      Answered kept ((w.outer k s).gpr .eax) u.next d.2) := by
  have hin := (List.getElem?_eq_some_iff.mp hop).1
  have hnext : u.next.Bounded := hu.next (Nat.lt_of_le_of_lt hin w.code_lt)
  have hroom := hs.room
  refine .step hop (frame_leads hs.toKernelStack hnext (hs.placed.get (i := 0) rfl rfl)
    (hs.placed.get (i := 1) rfl rfl) (fun t a hb heip heax hesp h ↦ ?_))
  have hend : t.gpr .esp + 56 = w.gate.stack := h.esp
  refine .push (v := u.gpr .eax) (hs.placed.get (i := 2) heip rfl) h (by omega) heax (hu.gpr .eax)
    (fun s hs' h' ↦ ?_)
  have hend' : s.gpr .esp + 60 = w.gate.stack := h'.esp
  have hcalled := arguments_calledFor hs.toKernelStack (by omega) h'
  exact (isr0x80_answers [_, _] hs hnext (hs'.bounded hb) (by rw [hs'.eip, heip]) hcalled
    rfl h').mono (fun d hd ↦ ⟨hd.1, s, hcalled, hd.2⟩)

end SystemCall

section Interrupt

structure ServesInterrupt (w : World) (g : Gate) (n low : ℕ) (kept : Set ℕ) : Prop
    extends KernelStack w g low kept where
  placed : Placed w.code g.handler (interruptCode n)

theorem interrupt_returns (vs : List ℕ) (hs : ServesInterrupt w g n low kept) (hu : u.Bounded)
    (heip : s.eip = g.handler + 3) (hcalled : CalledFor kept n u s) (hvs : vs.length = 2)
    (h : Pushed m low g.stack (vs ++ frameWords g u) s) :
    Leads w (k + 1, w.outer k s) (fun d ↦ d.1 = k + 1 ∧ Answered kept (u.gpr .eax) u d.2) := by
  have hret := hs.returns k s (hs.placed.get (i := 3) heip rfl)
  generalize w.outer k s = r at hret
  obtain ⟨vs', hvs', h₀⟩ := h.rebase vs hret.esp (fun i h₁ h₂ ↦ hret.frame i (by omega) h₂)
  have heip₀ : r.eip = g.handler + 4 := by rw [hret.eip, heip]
  refine .discard vs' (hs.placed.get (i := 4) heip₀ rfl) h₀ (by rw [hvs', hvs])
    (fun r₁ hr₁ hmem₁ h₁ ↦ ?_)
  have heip₁ : r₁.eip = g.handler + 5 := by rw [hr₁.eip, heip₀]
  obtain ⟨hgpr, h₂⟩ := popad_pushed h₁
  refine .step (hs.placed.get (i := 5) heip₁ rfl) ?_
  have heip₂ : r₁.popad.next.eip = g.handler + 6 := congrArg (· + 1) heip₁
  refine iret_leads hu (hs.placed.get (i := 6) heip₂ rfl) h₂
    ((hgpr .eax (by decide)).trans (interrupt_gpr (by decide)))
    (fun q _ hesp ↦ (hgpr q hesp).trans (interrupt_gpr hesp))
    (fun q hcs hss ↦ (congrFun hr₁.segment q).trans (hret.segment q hcs hss)) (fun i hi ↦ ?_)
  show r₁.mem i = _
  rw [hmem₁, hret.task i hi, hcalled.task i hi]

/-- The routine of an interrupt calls the handler with the number of the interrupt and the
frame of the program, and behind the call the program has its registers and its flags again. -/
theorem interruptCode_leads (hs : ServesInterrupt w g n low kept) (hu : u.Bounded) :
    Leads w (k, u.interrupt g) (fun c ↦ c.1 = k ∧ w.code[c.2.eip]? = some .outer ∧
      CalledFor kept n u c.2 ∧ Leads w (k + 1, w.outer k c.2) (fun d ↦ d.1 = k + 1 ∧
        Answered kept (u.gpr .eax) u d.2)) := by
  have hroom := hs.room
  refine frame_leads hs.toKernelStack hu (hs.placed.get (i := 0) rfl rfl)
    (hs.placed.get (i := 1) rfl rfl) (fun t a hb heip heax hesp h ↦ ?_)
  have hend : t.gpr .esp + 56 = g.stack := h.esp
  refine .pushImm (hs.placed.get (i := 2) heip rfl) h (by omega) (fun s hs' h' ↦ .done ?_)
  have hend' : s.gpr .esp + 60 = g.stack := h'.esp
  have heip' : s.eip = g.handler + 3 := by rw [hs'.eip, heip]
  have hcalled := arguments_calledFor hs.toKernelStack (by omega) h'
  exact ⟨rfl, hs.placed.get (i := 3) heip' rfl, hcalled,
    interrupt_returns [n, a] hs hu heip' hcalled rfl h'⟩

end Interrupt

section Sample

def answering (answer : ℕ → Machine → ℕ) (k : ℕ) (s : Machine) : Machine :=
  { s with
    gpr := update s.gpr .eax (wrap (answer k s))
    segment := fun q ↦ if q = .cs ∨ q = .ss then s.segment q else userDataSelector
    eip := wrap (s.eip + 1) }

theorem answering_bounded (answer : ℕ → Machine → ℕ) (hs : s.Bounded) :
    (answering answer k s).Bounded := by
  refine ⟨(hs.set (r := .eax) (wrap_lt _)).gpr, fun q ↦ ?_, hs.flags, wrap_lt _⟩
  unfold answering
  dsimp only
  split
  · exact hs.segment q
  · decide

theorem answering_returns {top : ℕ} (answer : ℕ → Machine → ℕ) (hs : s.eip + 1 < 2 ^ 32) :
    CReturns top kept s (answering answer k s) :=
  ⟨wrap_of_lt hs, update_of_ne (show Gpr.esp ≠ .eax by decide) (wrap (answer k s)) _,
    fun _ _ _ ↦ rfl, fun _ _ ↦ rfl,
    fun _ hcs hss ↦ if_neg (not_or.mpr ⟨hcs, hss⟩)⟩

theorem isr0x80Code_fits : ∀ op ∈ isr0x80Code temp, op.Fits := by
  simp [isr0x80Code, Op.Fits, Instr.Fits]

theorem tssGate_fits : tssGate.Fits := ⟨by decide, by decide, by decide, by decide⟩

def servingWorld (rest : List Op) (hfits : ∀ op ∈ rest, op.Fits)
    (hlen : rest.length < 2 ^ 16) (answer : ℕ → Machine → ℕ) : World where
  code := isr0x80Code 0x500000 ++ rest
  gate := tssGate
  arith := fun _ v ↦ if v = 0 then 2 ^ zeroFlag else 0
  outer := answering answer
  code_fits := by
    intro op hop
    rcases List.mem_append.mp hop with hop | hop
    · exact isr0x80Code_fits op hop
    · exact hfits op hop
  code_lt := by
    rw [List.length_append]
    exact Nat.lt_trans (Nat.add_lt_add_left hlen _) (by decide)
  gate_fits := tssGate_fits
  arith_lt := fun _ v ↦ by
    split <;> decide
  arith_zero := fun _ v ↦ by
    by_cases h : v = 0 <;> simp [h]
  outer_bounded := fun _ _ hs ↦ answering_bounded answer hs

variable {rest : List Op} (hfits : ∀ op ∈ rest, op.Fits) (hlen : rest.length < 2 ^ 16)
  (answer : ℕ → Machine → ℕ)

theorem servingWorld_kernelStack (hg : g.Fits) (hstack : g.stack = tssGate.stack) :
    KernelStack (servingWorld rest hfits hlen answer) g 0x5ff000 (Set.Ici 0x1000000) := by
  refine ⟨hg, by rw [hstack]; decide, fun i hi ↦ .inr ?_, fun k s hop ↦ ?_⟩
  · rw [hstack]
    exact Nat.le_trans (by decide) (Set.mem_Ici.mp hi)
  · have hin := (List.getElem?_eq_some_iff.mp hop).1
    have hlt := (servingWorld rest hfits hlen answer).code_lt
    exact answering_returns answer (Nat.lt_of_le_of_lt hin hlt)

theorem servingWorld_serves :
    Serves (servingWorld rest hfits hlen answer) 0x500000 0x5ff000 (Set.Ici 0x1000000) where
  toKernelStack := servingWorld_kernelStack hfits hlen answer tssGate_fits rfl
  placed := .of_append [] rest rfl
  temp_apart := .inl (by decide)
  kept_temp := fun _ hi ↦ .inr (Nat.le_trans (by decide) (Set.mem_Ici.mp hi))

theorem interruptCode_fits : ∀ op ∈ interruptCode 0x21, op.Fits := by
  simp [interruptCode, Op.Fits, Instr.Fits]

end Sample

end GammaOS.Kernel
