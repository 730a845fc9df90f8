import GammaOS.Kernel.Isr
import GammaOS.Machine
import GammaOS.Segments.Gdt

namespace GammaOS.Kernel

open Function Foundation ByteMemory Segments X86 Relation

def totalInterrupts : ℕ := 512

def kernelCodeSelector : ℕ := 0x08

def idtPresent : ℕ := 1

def idtRing : ℕ := 3

/-- `_32BIT_INTERRUPT_GATE`. -/
def idtGate : ℕ := 0xE

def store16 (m : ByteMemory) (a v : ℕ) : ByteMemory := setByte (setByte m a v) (a + 1) (v >>> 8)

def idtSet (idt interruptNo intAddress : ℕ) (m : ByteMemory) : ByteMemory :=
  let desc := idt + 8 * interruptNo
  let m := store16 m desc (intAddress &&& 0x0000FFFF)
  let m := store16 m (desc + 2) kernelCodeSelector
  let m := setByte m (desc + 5) ((idtPresent * 0x8 + idtRing * 0x2) * 0x10 ||| idtGate)
  store16 m (desc + 6) (intAddress >>> 16)

abbrev IsrHandlers (α : Type) := ℕ → Option α

variable {α : Type}

def idtAddIsrHandler (interruptNo : ℤ) (handler : Option α) (handlers : IsrHandlers α) :
    ℤ × IsrHandlers α :=
  if interruptNo < 0 ∨ interruptNo ≥ totalInterrupts then (-errInvarg, handlers)
  else (success, update handlers interruptNo.toNat handler)

structure IdtrDesc where
  limit : ℕ
  base : ℕ

structure Idt (α : Type) where
  mem : ByteMemory
  idtr : IdtrDesc
  handlers : IsrHandlers α

/-- The first loop of `idt_init`, with `n` entries left. -/
def setLoop (idt : ℕ) (entries : ℕ → ℕ) : ℕ → ℕ → ByteMemory → ByteMemory
  | 0, _, m => m
  | n + 1, intr, m => setLoop idt entries n (intr + 1) (idtSet idt intr (entries intr) m)

def addLoop (handler : α) : ℕ → ℕ → IsrHandlers α → IsrHandlers α
  | 0, _, handlers => handlers
  | n + 1, intr, handlers =>
    addLoop handler n (intr + 1) (idtAddIsrHandler intr (some handler) handlers).2

def idtInit (idt : ℕ) (entries : ℕ → ℕ) (isr0x80 : ℕ) (noIntHandler : α) (m : ByteMemory) : Idt α :=
  let m := m.fill idt (8 * totalInterrupts) 0
  let m := setLoop idt entries totalInterrupts 0 m
  { mem := idtSet idt 0x80 isr0x80 m
    idtr := ⟨8 * totalInterrupts - 1, idt⟩
    handlers := addLoop noIntHandler 0x20 0 (fun _ ↦ none) }

structure GateDescriptor where
  offset : ℕ
  selector : ℕ
  present : Bool
  ring : ℕ
  type : ℕ

def GateDescriptor.decode (m : ByteMemory) (a : ℕ) : GateDescriptor where
  offset := load16 m a + 2 ^ 16 * load16 m (a + 6)
  selector := load16 m (a + 2)
  present := (m (a + 5)).toNat / 2 ^ 7 == 1
  ring := (m (a + 5)).toNat / 2 ^ 5 % 2 ^ 2
  type := (m (a + 5)).toNat % 2 ^ 5

/-- The gate that the processor takes for an interrupt that a program in `ring` may have
raised itself, with the stack of the task state segment. -/
def gateAt (idtr : IdtrDesc) (m : ByteMemory) (stack ss ring n : ℕ) : Option Gate :=
  let d := GateDescriptor.decode m (idtr.base + 8 * n)
  if 8 * n + 7 ≤ idtr.limit ∧ d.present ∧ d.type = 0xE ∧ ring ≤ d.ring then
    some { stack := stack, ss := ss, cs := d.selector, handler := d.offset }
  else none

variable {m m' : ByteMemory} {idt n intr k address a v stack ss low isr0x80 : ℕ} {entries : ℕ → ℕ}
  {handlers : IsrHandlers α} {handler noIntHandler : α}

section Tables

/-- The eight bytes of an entry, of which the fifth is not stored. -/
def idtByte (address : ℕ) : ℕ → UInt8
  | 0 => UInt8.ofNat (address &&& 0xFFFF)
  | 1 => UInt8.ofNat ((address &&& 0xFFFF) >>> 8)
  | 2 => UInt8.ofNat kernelCodeSelector
  | 3 => UInt8.ofNat (kernelCodeSelector >>> 8)
  | 5 => 0xEE
  | 6 => UInt8.ofNat (address >>> 16)
  | _ => UInt8.ofNat ((address >>> 16) >>> 8)

theorem idtSet_inside (hk : k < 8) (h4 : k ≠ 4) :
    idtSet idt n address m (idt + 8 * n + k) = idtByte address k := by
  have hattr : UInt8.ofNat ((idtPresent * 0x8 + idtRing * 0x2) * 0x10 ||| idtGate) = 0xEE := by
    decide
  by_cases h0 : k = 0
  · rw [h0, Nat.add_zero]
    unfold idtSet store16
    iterate 6 rw [setByte_outside (by omega)]
    exact update_self _ _ _
  · interval_cases k <;> simp [idtSet, idtByte, store16, setByte, hattr] at h0 h4 ⊢

theorem idtSet_outside {i : ℕ} (hi : i < idt + 8 * n ∨ idt + 8 * n + 8 ≤ i) :
    idtSet idt n address m i = m i := by
  unfold idtSet store16
  iterate 7 rw [setByte_outside (by omega)]

def gateDescriptor (address : ℕ) : GateDescriptor where
  offset := address
  selector := kernelCodeSelector
  present := true
  ring := idtRing
  type := idtGate

theorem decode_of_bytes (haddress : address < 2 ^ 32)
    (h : ∀ k < 8, k ≠ 4 → m (a + k) = idtByte address k) :
    GateDescriptor.decode m a = gateDescriptor address := by
  have h₀ := h 0 (by decide) (by decide)
  rw [Nat.add_zero] at h₀
  have hlow : address &&& 0xFFFF = address % 2 ^ 16 := Nat.and_two_pow_sub_one_eq_mod address 16
  unfold GateDescriptor.decode load16
  simp only [Nat.add_assoc, Nat.reduceAdd, h₀, h 1 (by decide) (by decide),
    h 2 (by decide) (by decide), h 3 (by decide) (by decide), h 5 (by decide) (by decide),
    h 6 (by decide) (by decide), h 7 (by decide) (by decide), idtByte, hlow, UInt8.toNat_ofNat',
    Nat.shiftRight_eq_div_pow, gateDescriptor, GateDescriptor.mk.injEq]
  exact ⟨by omega, by decide, by decide, by decide, by decide⟩

theorem decode_idtSet (haddress : address < 2 ^ 32) :
    GateDescriptor.decode (idtSet idt n address m) (idt + 8 * n) = gateDescriptor address :=
  decode_of_bytes haddress (fun _ hk h4 ↦ idtSet_inside hk h4)

theorem GateDescriptor.decode_congr (h : ∀ k < 8, m' (a + k) = m (a + k)) :
    GateDescriptor.decode m' a = GateDescriptor.decode m a := by
  have h₀ := h 0 (by decide)
  rw [Nat.add_zero] at h₀
  unfold GateDescriptor.decode load16
  simp only [Nat.add_assoc, Nat.reduceAdd, h₀, h 1 (by decide), h 2 (by decide), h 3 (by decide),
    h 5 (by decide), h 6 (by decide), h 7 (by decide)]

theorem setLoop_outside {i : ℕ} (hi : i < idt + 8 * intr) :
    setLoop idt entries n intr m i = m i := by
  induction n generalizing intr m with
  | zero => rfl
  | succ n ih =>
    rw [setLoop, ih (by omega)]
    exact idtSet_outside (.inl hi)

theorem setLoop_decode (hentry : entries k < 2 ^ 32) (hk : intr ≤ k) (hlt : k < intr + n) :
    GateDescriptor.decode (setLoop idt entries n intr m) (idt + 8 * k) =
      gateDescriptor (entries k) := by
  induction n generalizing intr m with
  | zero => omega
  | succ n ih =>
    rw [setLoop]
    rcases Nat.eq_or_lt_of_le hk with rfl | hlt'
    · -- the turns behind write to higher addresses
      rw [GateDescriptor.decode_congr (fun j hj ↦ setLoop_outside (by omega))]
      exact decode_idtSet hentry
    · exact ih hlt' (by omega)

theorem addLoop_handlers (hlt : intr + n ≤ totalInterrupts) :
    addLoop handler n intr handlers k =
      if intr ≤ k ∧ k < intr + n then some handler else handlers k := by
  induction n generalizing intr handlers with
  | zero => rw [addLoop, if_neg (by omega)]
  | succ n ih =>
    have hin : ¬ ((intr : ℤ) < 0 ∨ (intr : ℤ) ≥ totalInterrupts) := by omega
    have hadd : (idtAddIsrHandler intr (some handler) handlers).2 =
        update handlers intr (some handler) := congrArg Prod.snd (if_neg hin)
    rw [addLoop, ih (by omega), hadd]
    by_cases hk : k = intr
    · rw [hk, if_neg (by omega), if_pos (by omega), update_self]
    · rw [update_of_ne hk]
      exact if_congr (by omega) rfl rfl

end Tables

section Init

def routineAt (entries : ℕ → ℕ) (isr0x80 n : ℕ) : ℕ := if n = 0x80 then isr0x80 else entries n

theorem idtInit_decode (h : routineAt entries isr0x80 n < 2 ^ 32) (hn : n < totalInterrupts) :
    GateDescriptor.decode (idtInit idt entries isr0x80 noIntHandler m).mem (idt + 8 * n) =
      gateDescriptor (routineAt entries isr0x80 n) := by
  unfold idtInit routineAt at *
  dsimp only
  by_cases h0x80 : n = 0x80
  · rw [if_pos h0x80] at h ⊢
    rw [h0x80]
    exact decode_idtSet h
  · rw [if_neg h0x80] at h ⊢
    rw [GateDescriptor.decode_congr (fun k hk ↦ idtSet_outside (by omega))]
    exact setLoop_decode h (Nat.zero_le n) (by omega)

def HasTable (idt : ℕ) (t : Idt α) (m : ByteMemory) : Prop :=
  ∀ i, idt ≤ i → i < idt + 8 * totalInterrupts → m i = t.mem i

theorem HasTable.gateAt (h : HasTable idt (idtInit idt entries isr0x80 noIntHandler m) m')
    (hroutine : routineAt entries isr0x80 n < 2 ^ 32) (hn : n < totalInterrupts) :
    gateAt (idtInit idt entries isr0x80 noIntHandler m).idtr m' stack ss 3 n =
      some ⟨stack, ss, kernelCodeSelector, routineAt entries isr0x80 n⟩ := by
  have hin : 8 * n + 7 ≤ 8 * totalInterrupts - 1 := by omega
  have hdec : GateDescriptor.decode (idtInit idt entries isr0x80 noIntHandler m).mem (idt + 8 * n) =
      gateDescriptor (routineAt entries isr0x80 n) := idtInit_decode hroutine hn
  rw [← GateDescriptor.decode_congr (fun k hk ↦ h _ (by omega) (by omega))] at hdec
  unfold Kernel.gateAt
  rw [show (idtInit idt entries isr0x80 noIntHandler m).idtr.base = idt from rfl, hdec]
  exact if_pos ⟨hin, rfl, rfl, Nat.le_refl _⟩

/-- Whatever was in the memory, `idt_init` gives each interrupt a gate that a user program
may use, to its own routine, and `int 0x80` the one to `isr_0x80`. The interrupts below
`0x20` have `no_int_handler`, and the others none. -/
theorem idtInit_gates (m : ByteMemory) (idt stack ss : ℕ) (noIntHandler : α)
    (hroutine : ∀ n < totalInterrupts, routineAt entries isr0x80 n < 2 ^ 32) :
    ∀ n < totalInterrupts, gateAt (idtInit idt entries isr0x80 noIntHandler m).idtr
        (idtInit idt entries isr0x80 noIntHandler m).mem stack ss 3 n =
          some ⟨stack, ss, kernelCodeSelector, routineAt entries isr0x80 n⟩ ∧
      (idtInit idt entries isr0x80 noIntHandler m).handlers n =
        if n < 0x20 then some noIntHandler else none := by
  intro n hn
  have htable : HasTable idt (idtInit idt entries isr0x80 noIntHandler m) _ := fun _ _ _ ↦ rfl
  refine ⟨htable.gateAt (hroutine n hn) hn, ?_⟩
  refine (addLoop_handlers (by decide)).trans (if_congr ?_ rfl rfl)
  omega

def keyboardIdt : Idt Unit := idtInit 0x10f000 (fun _ ↦ 9) 0 () (fun _ ↦ 7)

theorem idtInit_gates_keyboard : gateAt keyboardIdt.idtr keyboardIdt.mem 0x600000 0x10 3 0x21 =
    some ⟨0x600000, 0x10, kernelCodeSelector, 9⟩ := by
  have hlt : 9 < 2 ^ 32 := by decide
  refine (idtInit_gates (fun _ ↦ 7) 0x10f000 0x600000 0x10 () (fun n _ ↦ ?_) 0x21 (by decide)).1
  unfold routineAt
  split
  · exact Nat.two_pow_pos 32
  · exact hlt

/-- A program that is interrupted between two instructions, without an error code and
through the table that `idt_init` has filled, does not see it: the handler is called with
the number of the interrupt and the frame of the program, and behind the call the program
has its registers and its flags again. -/
theorem interrupt_unseen {w : World} {kept : Set ℕ} {u : Machine} (idt isr0x80 stack ss n : ℕ)
    (entries : ℕ → ℕ) (noIntHandler : α) (m : ByteMemory)
    (htable : HasTable idt (idtInit idt entries isr0x80 noIntHandler m) u.mem)
    (hn : n < totalInterrupts) (h0x80 : n ≠ 0x80) (hentry : entries n < 2 ^ 32)
    (hplaced : Placed w.code (entries n) (interruptCode n))
    (hstack : KernelStack w ⟨stack, ss, kernelCodeSelector, entries n⟩ low kept)
    (hu : u.Bounded) :
    ∃ g, gateAt (idtInit idt entries isr0x80 noIntHandler m).idtr u.mem stack ss 3 n = some g ∧
      Leads w (k, u.interrupt g) (fun c ↦ c.1 = k ∧ w.code[c.2.eip]? = some .outer ∧
        CalledFor kept n u c.2 ∧ Leads w (k + 1, w.outer k c.2) (fun d ↦ d.1 = k + 1 ∧
          Answered kept (u.gpr .eax) u d.2)) := by
  have hroutine : routineAt entries isr0x80 n = entries n := if_neg h0x80
  refine ⟨_, htable.gateAt (hroutine.symm ▸ hentry) hn, ?_⟩
  rw [hroutine]
  exact interruptCode_leads ⟨hstack, hplaced⟩ hu

def keyboardWorld : World :=
  servingWorld (interruptCode 0x21) interruptCode_fits (by decide) (fun _ _ ↦ 0)

def interruptedProgram : Machine := { interruptedTask 0x202 with mem := keyboardIdt.mem }

theorem interrupt_unseen_keyboard : ∃ g c d,
    gateAt keyboardIdt.idtr interruptedProgram.mem 0x600000 0x10 3 0x21 = some g ∧
    ReflTransGen keyboardWorld.Step (0, interruptedProgram.interrupt g) c ∧ c.2.top 0 = 0x21 ∧
    ReflTransGen keyboardWorld.Step c d ∧
    d.2.eip = 0x400000 ∧ d.2.gpr .eax = 7 ∧ d.2.flags = 0x202 := by
  have hb : (interruptedTask 0x202).Bounded := interruptedTask_bounded (by decide)
  have hgate : Gate.Fits ⟨0x600000, 0x10, kernelCodeSelector, 9⟩ :=
    ⟨by decide, by decide, by decide, by decide⟩
  have hu : interruptedProgram.Bounded := ⟨hb.gpr, hb.segment, hb.flags, hb.eip⟩
  obtain ⟨g, hg, c, hc, hk, hop, hcalled, d, hd, -, hans⟩ := interrupt_unseen (w := keyboardWorld)
    (k := 0) 0x10f000 0 0x600000 0x10 0x21 (fun _ ↦ 9) () (fun _ ↦ 7) (fun _ _ _ ↦ rfl) (by decide)
    (by decide) (by decide) (.of_append (isr0x80Code 0x500000) [] rfl)
    (servingWorld_kernelStack interruptCode_fits (by decide) (fun _ _ ↦ 0) hgate rfl) hu
  refine ⟨g, c, d, hg, hc, hcalled.number, .head ⟨_, hop, ?_⟩ hd, hans.eip, hans.eax, hans.flags⟩
  rw [Op.run, hk]

end Init

end GammaOS.Kernel
