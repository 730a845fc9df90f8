import GammaOS.Kernel.Isr

namespace GammaOS.User

open Function Foundation ByteMemory X86 Kernel Relation

/-- A routine of the library that passes its argument to the kernel, found through `base`. -/
def callStub (base : Gpr) (number : ℕ) : List Op :=
  [.base (.push (.reg .ebp)),
   .base (.mov .ebp (.reg .esp)),
   .base (.push (.mem base 8)),
   .movImm .eax number,
   .int,
   .base (.add .esp 4),
   .base (.pop .ebp),
   .base .ret]

def putsCode : List Op := callStub .ebp 0

def putchCode : List Op := callStub .ebp 2

def mallocCode : List Op := callStub .esp 3

def freeCode : List Op := callStub .esp 4

def execCode : List Op := callStub .ebp 5

inductive Routine
  | puts | putch | malloc | free | exec

def Routine.code : Routine → List Op
  | puts => putsCode
  | putch => putchCode
  | malloc => mallocCode
  | free => freeCode
  | exec => execCode

def Routine.number : Routine → ℕ
  | puts => 0
  | putch => 2
  | malloc => 3
  | free => 4
  | exec => 5

theorem Routine.code_eq (r : Routine) :
    ∃ base, (base = .ebp ∨ base = .esp) ∧ r.code = callStub base r.number := by
  cases r with
  | puts => exact ⟨.ebp, .inl rfl, rfl⟩
  | putch => exact ⟨.ebp, .inl rfl, rfl⟩
  | malloc => exact ⟨.esp, .inr rfl, rfl⟩
  | free => exact ⟨.esp, .inr rfl, rfl⟩
  | exec => exact ⟨.ebp, .inl rfl, rfl⟩

/-- A routine is called: its return address is on the stack, with `below` bytes of room
under it, and the kernel keeps this part of the stack. -/
structure Entered (kept : Set ℕ) (below ret : ℕ) (u : Machine) : Prop where
  bounded : u.Bounded
  room : below ≤ u.gpr .esp
  esp_lt : u.gpr .esp + 8 < 2 ^ 32
  ret : u.mem.load32 (u.gpr .esp) = ret
  stack : ∀ i, u.gpr .esp ≤ i + below → i < u.gpr .esp + 8 → i ∈ kept

/-- The routine has come back to its caller with `result`, and has left the memory as `mem`. -/
structure Back (kept : Set ℕ) (below ret result : ℕ) (mem : ByteMemory) (u t : Machine) : Prop where
  bounded : t.Bounded
  eip : t.eip = ret
  esp : t.gpr .esp = u.gpr .esp + 4
  eax : t.gpr .eax = result
  mem : ∀ i ∈ kept, (i + below < u.gpr .esp ∨ u.gpr .esp ≤ i) → t.mem i = mem i

structure Passed (number arg : ℕ) (s : Machine) : Prop where
  command : s.top 0 = number
  argument : s.mem.load32 (s.mem.load32 (s.top 1 + Field.esp.inFrame)) = arg

variable {w : World} {temp low k pos ret arg number below v : ℕ} {kept : Set ℕ} {base : Gpr}
  {u s t : Machine}
  {m : ByteMemory} {ws : List ℕ} {high : ℕ} {Q : ℕ × Machine → Prop}

section Stubs

theorem systemCall_leads (hs : Serves w temp low kept) (hb : u.Bounded)
    (hop : w.code[u.eip]? = some .int) (h : Pushed m below high ws u)
    (hstack : ∀ i, below ≤ i → i < high → i ∈ kept)
    (hnext : ∀ s t, CalledFor kept (u.gpr .eax) u.next s → (∀ q, q ≠ .eax → t.gpr q = u.gpr q) →
      t.eip = u.eip + 1 → t.gpr .eax = (w.outer k s).gpr .eax → (∀ i ∈ kept, t.mem i = u.mem i) →
      Pushed t.mem below high ws t → t.Bounded → Leads w (k + 1, t) Q) :
    Leads w (k, u) Q := by
  refine ((int_answered hs hb hop).bounded hb).trans ?_
  rintro ⟨k', t⟩ ⟨hbt, rfl, s, hcalled, hans⟩
  have hlow := h.low_le
  obtain ⟨vs, hvs, hpushed⟩ := Pushed.rebase (t := t) [] h (hans.gpr .esp (by decide))
    (fun i h₁ h₂ ↦ hans.task i (hstack i (by omega) h₂))
  obtain rfl := List.eq_nil_of_length_eq_zero hvs
  exact hnext s t hcalled hans.gpr hans.eip hans.eax hans.task hpushed hbt

theorem callStub_calls (hat : Placed w.code pos (callStub base number))
    (hbase : base = .ebp ∨ base = .esp) (heip : u.eip = pos) (hu : Entered kept 8 ret u)
    (harg : u.mem.load32 (u.gpr .esp + 4) = arg) :
    Leads w (k, u) (fun d ↦ d.1 = k ∧ d.2.eip = pos + 4 ∧ d.2.gpr .eax = number ∧
      (∀ q, q ≠ .eax → q ≠ .ebp → q ≠ .esp → d.2.gpr q = u.gpr q) ∧
      Pushed u.mem (u.gpr .esp - 8) (u.gpr .esp) [arg, u.gpr .ebp] d.2) := by
  have hroom := hu.room
  have hlt := hu.esp_lt
  have h₀ := Pushed.start (s := u) (u.gpr .esp - 8) rfl (by omega) (by omega)
  refine .push (v := u.gpr .ebp) (hat.get (i := 0) heip rfl) h₀ (by omega) rfl (hu.bounded.gpr .ebp)
    (fun t₁ ht₁ h₁ ↦ ?_)
  have hesp₁ : t₁.gpr .esp + 4 = u.gpr .esp := h₁.esp
  have heip₁ : t₁.eip = pos + 1 := by rw [ht₁.eip, heip]
  refine .mov (v := t₁.gpr .esp) (hat.get (i := 1) heip₁ rfl) h₁ (by decide) rfl
    (fun t₂ ht₂ hebp hmem₂ h₂ ↦ ?_)
  have hesp₂ : t₂.gpr .esp = t₁.gpr .esp := ht₂.gpr .esp (by decide)
  have heip₂ : t₂.eip = pos + 2 := by rw [ht₂.eip, heip₁]
  have hval : Source.value t₂ (.mem base 8) = arg := by
    have hb : t₂.gpr base + 8 = u.gpr .esp + 4 := by
      rcases hbase with rfl | rfl <;> omega
    rw [Source.value, hb, wrap_of_lt (by omega), h₂.load (by omega), harg]
  refine .push (hat.get (i := 2) heip₂ rfl) h₂ (by omega) hval (harg ▸ load32_lt _ _)
    (fun t₃ ht₃ h₃ ↦ ?_)
  have heip₃ : t₃.eip = pos + 3 := by rw [ht₃.eip, heip₂]
  refine .movImm (hat.get (i := 3) heip₃ rfl) h₃ (by decide) (fun t₄ ht₄ heax hmem₄ h₄ ↦ .done ?_)
  refine ⟨rfl, by rw [ht₄.eip, heip₃], heax, fun q h1 h2 h3 ↦ ?_, h₄⟩
  rw [ht₄.gpr q (by simpa using h1), ht₃.gpr q (by simpa using h3), ht₂.gpr q (by simpa using h2),
    ht₁.gpr q (by simpa using h3)]

theorem callStub_returns (hat : Placed w.code pos (callStub base number)) (heip : t.eip = pos + 5)
    (hlt : high + 8 < 2 ^ 32) (h : Pushed m low high [arg, v] t) (hret : t.mem.load32 high = ret) :
    Leads w (k, t) (fun d ↦ d.1 = k ∧ d.2.eip = ret ∧ d.2.gpr .esp = high + 4 ∧ d.2.gpr .ebp = v ∧
      (∀ q, q ≠ .ebp → q ≠ .esp → d.2.gpr q = t.gpr q) ∧ d.2.mem = t.mem) := by
  refine .discard [arg] (hat.get (i := 5) heip rfl) h rfl (fun t₁ ht₁ hmem₁ h₁ ↦ ?_)
  have heip₁ : t₁.eip = pos + 6 := by rw [ht₁.eip, heip]
  refine .pop (hat.get (i := 6) heip₁ rfl) h₁ (by decide) (fun t₂ ht₂ hebp hmem₂ h₂ ↦ ?_)
  have heip₂ : t₂.eip = pos + 7 := by rw [ht₂.eip, heip₁]
  have hmem : t₂.mem = t.mem := hmem₂.trans hmem₁
  have hesp : t₂.gpr .esp = high := h₂.esp
  refine .ret (v := ret) (hat.get (i := 7) heip₂ rfl) ?_ (by omega)
    (fun t₃ ht₃ hesp₃ hmem₃ ↦ .done ?_)
  · rw [hesp, hmem, hret]
  · refine ⟨rfl, ht₃.eip, by rw [hesp₃, hesp], (ht₃.gpr .ebp (by decide)).trans hebp,
      fun q h1 h2 ↦ ?_, hmem₃.trans hmem⟩
    rw [ht₃.gpr q (by simpa using h2), ht₂.gpr q (by simp [h1, h2]), ht₁.gpr q (by simpa using h2)]

/-- A routine of the library comes back from its system call: the kernel is called once,
with the number of the routine and a frame that leads to its argument, and its answer is
in `eax`. All other registers, and what the kernel keeps, are as at the call. -/
theorem routine_roundTrip (r : Routine) (hs : Serves w temp low kept)
    (hat : Placed w.code pos r.code) (heip : u.eip = pos) (hu : Entered kept 8 ret u)
    (harg : u.mem.load32 (u.gpr .esp + 4) = arg) :
    Leads w (k, u) (fun d ↦ d.1 = k + 1 ∧ ∃ s, Passed r.number arg s ∧
      Back kept 8 ret ((w.outer k s).gpr .eax) u.mem u d.2 ∧
      ∀ q, q ≠ .eax → q ≠ .esp → d.2.gpr q = u.gpr q) := by
  obtain ⟨base, hbase, hcode⟩ := r.code_eq
  rw [hcode] at hat
  have hroom := hu.room
  have hlt := hu.esp_lt
  refine ((callStub_calls hat hbase heip hu harg).bounded hu.bounded).trans ?_
  rintro ⟨k', x⟩ ⟨hbx, rfl, heipx, heax, hgpr, hx⟩
  have hespx : x.gpr .esp + 8 = u.gpr .esp := hx.esp
  have hargx : x.mem.load32 (x.gpr .esp) = arg := hx.words.1
  refine systemCall_leads hs hbx (hat.get (i := 4) heipx rfl) hx
    (fun i h₁ h₂ ↦ hu.stack i (by omega) (by omega)) (fun s t hs' hgt heipt heaxt hmemt ht hbt ↦ ?_)
  have hret : t.mem.load32 (u.gpr .esp) = ret := by
    rw [← hu.ret]
    refine load32_congr (fun i h₁ h₂ ↦ ?_)
    rw [hmemt i (hu.stack i (by omega) (by omega)), hx.off i (by omega)]
  have hpassed : Passed r.number arg s := by
    refine ⟨hs'.number.trans heax, ?_⟩
    rw [hs'.frame .esp, ← hargx]
    exact load32_congr (fun i h₁ h₂ ↦ hs'.task i (hu.stack i
      (by simp only [fieldOf, Machine.next_gpr] at h₁; omega)
      (by simp only [fieldOf, Machine.next_gpr] at h₂; omega)))
  refine ((callStub_returns hat (by rw [heipt, heipx]) (by omega) ht hret).bounded hbt).mono ?_
  rintro ⟨k', t'⟩ ⟨hb', rfl, heip', hesp', hebp', hgpr', hmem'⟩
  refine ⟨rfl, s, hpassed, ⟨hb', heip', hesp', ?_, fun i hi hout ↦ ?_⟩, fun q h1 h2 ↦ ?_⟩
  · exact (hgpr' .eax (by decide) (by decide)).trans heaxt
  · rw [hmem', hmemt i hi, hx.off i (by omega)]
  · by_cases h3 : q = .ebp
    · rw [h3, hebp']
    · rw [hgpr' q h3 h2, hgt q h1, hgpr q h1 h3 h2]

end Stubs

section Sample

def mallocAnswer (_ : ℕ) (s : Machine) : ℕ := if s.top 0 = 3 then 0x1400000 else success

def calling (e arg : ℕ) : Machine :=
  { gpr := fun _ ↦ 0x13ffff0, segment := fun _ ↦ userDataSelector, flags := 0x202, eip := e
    mem := (ByteMemory.store32 (fun _ ↦ 0) 0x13ffff0 0x400010).store32 0x13ffff4 arg }

theorem calling_arg (e arg : ℕ) (harg : arg < 2 ^ 32) :
    (calling e arg).mem.load32 ((calling e arg).gpr .esp + 4) = arg :=
  load32_store32_self harg

theorem calling_entered {e : ℕ} (he : e < 2 ^ 32) (hbelow : below ≤ 16) :
    Entered (Set.Ici 0x1000000) below 0x400010 (calling e arg) := by
  have hesp : (calling e arg).gpr .esp = 0x13ffff0 := rfl
  refine ⟨⟨fun _ ↦ (by decide : 0x13ffff0 < 2 ^ 32), fun _ ↦ (by decide : 0x23 < 2 ^ 16),
    (by decide : 0x202 < 2 ^ 32), he⟩, by omega, by omega, ?_, fun i h _ ↦ ?_⟩
  · exact (load32_store32_other (by rw [hesp]; decide)).trans (load32_store32_self (by decide))
  · exact Set.mem_Ici.mpr (by omega)

theorem mallocCode_fits : ∀ op ∈ mallocCode, op.Fits := by
  simp [mallocCode, callStub, Op.Fits, Instr.Fits]

theorem routine_roundTrip_malloc : ∃ d, ReflTransGen
      (servingWorld mallocCode mallocCode_fits (by decide) mallocAnswer).Step (0, calling 9 100) d ∧
    d.2.eip = 0x400010 ∧ d.2.gpr .eax = 0x1400000 ∧ d.2.gpr .esp = 0x13ffff4 := by
  have harg := calling_arg 9 100 (by decide)
  obtain ⟨d, hd, -, s, hpassed, hback, -⟩ := routine_roundTrip (k := 0) .malloc
    (servingWorld_serves mallocCode_fits (by decide) mallocAnswer)
    (.of_append (isr0x80Code 0x500000) [] rfl) rfl (calling_entered (by decide) (by decide)) harg
  refine ⟨d, hd, hback.eip, ?_, hback.esp⟩
  have hans : mallocAnswer 0 s = 0x1400000 := if_pos hpassed.command
  rw [hback.eax]
  show update s.gpr .eax (wrap (mallocAnswer 0 s)) .eax = _
  rw [update_self, hans, wrap_of_lt (by decide)]

end Sample

end GammaOS.User
