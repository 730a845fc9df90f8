import GammaOS.Foundation.ByteMemory
import Mathlib.Logic.Function.Basic

namespace GammaOS.Foundation.X86

open Function ByteMemory

inductive Gpr
  | eax | ecx | edx | ebx | esp | ebp | esi | edi
deriving DecidableEq

inductive Segment
  | cs | ss | ds | es | fs | gs
deriving DecidableEq

/-- A 32-bit processor with its memory, through which the segments see all addresses
from 0 on. Instructions are numbered, and `eip` is the number of the next one. -/
structure Machine where
  gpr : Gpr → ℕ
  segment : Segment → ℕ
  flags : ℕ
  eip : ℕ
  mem : ByteMemory

inductive Source
  | reg (r : Gpr)
  | mem (base : Gpr) (disp : ℕ)

inductive Instr
  | mov (tgt : Gpr) (src : Source)
  | mov16 (tgt : Gpr) (src : Source)
  | movSegment (tgt : Segment) (src : Gpr)
  | push (src : Source)
  | pop (tgt : Gpr)
  | pushf
  | or (tgt : Gpr) (imm : ℕ)
  | add (tgt : Gpr) (imm : ℕ)
  | pushad
  | call (target : ℕ)
  | ret
  | iret

@[irreducible] def wrap (n : ℕ) : ℕ := n % 2 ^ 32

@[irreducible] def wordBelow (n : ℕ) : ℕ := (n + 2 ^ 32 - 4) % 2 ^ 32

theorem wrap_of_lt {n : ℕ} (h : n < 2 ^ 32) : wrap n = n := by
  unfold wrap
  exact Nat.mod_eq_of_lt h

theorem wrap_lt (n : ℕ) : wrap n < 2 ^ 32 := by
  unfold wrap
  exact Nat.mod_lt _ (by decide)

theorem wordBelow_of_le {n : ℕ} (h : 4 ≤ n) (hn : n < 2 ^ 32) : wordBelow n = n - 4 := by
  unfold wordBelow
  omega

namespace Machine

def set (s : Machine) (r : Gpr) (v : ℕ) : Machine := { s with gpr := update s.gpr r v }

def next (s : Machine) : Machine := { s with eip := s.eip + 1 }

def jump (s : Machine) (target : ℕ) : Machine := { s with eip := target }

def setFlags (s : Machine) (flags : ℕ) : Machine := { s with flags := flags }

def push (s : Machine) (v : ℕ) : Machine :=
  { s with
    gpr := update s.gpr .esp (wordBelow (s.gpr .esp))
    mem := s.mem.store32 (wordBelow (s.gpr .esp)) v }

def top (s : Machine) (i : ℕ) : ℕ := s.mem.load32 (wrap (s.gpr .esp + 4 * i))

def drop (s : Machine) : Machine := s.set .esp (wrap (s.gpr .esp + 4))

variable (s : Machine) {q r : Gpr} {v : ℕ}

@[simp] theorem set_gpr_self : (s.set r v).gpr r = v := update_self _ _ _

theorem set_gpr_of_ne (h : q ≠ r) : (s.set r v).gpr q = s.gpr q := update_of_ne h _ _

@[simp] theorem set_mem : (s.set r v).mem = s.mem := rfl

@[simp] theorem set_eip : (s.set r v).eip = s.eip := rfl

@[simp] theorem setFlags_gpr {fl : ℕ} : (s.setFlags fl).gpr = s.gpr := rfl

@[simp] theorem jump_gpr {target : ℕ} : (s.jump target).gpr = s.gpr := rfl

@[simp] theorem next_gpr : s.next.gpr = s.gpr := rfl

@[simp] theorem next_mem : s.next.mem = s.mem := rfl

@[simp] theorem next_eip : s.next.eip = s.eip + 1 := rfl

theorem drop_gpr_of_ne (h : q ≠ .esp) : s.drop.gpr q = s.gpr q := update_of_ne h _ _

theorem push_gpr_of_ne (h : q ≠ .esp) : (s.push v).gpr q = s.gpr q := update_of_ne h _ _

@[simp] theorem push_esp :
    (s.push v).gpr .esp = wordBelow (s.gpr .esp) := by
  simp only [push, update_self]

@[simp] theorem push_mem :
    (s.push v).mem = s.mem.store32 (wordBelow (s.gpr .esp)) v := rfl

@[simp] theorem drop_esp : s.drop.gpr .esp = wrap (s.gpr .esp + 4) := by
  simp only [drop, set, update_self]

end Machine

def Source.value (s : Machine) : Source → ℕ
  | reg r => s.gpr r
  | mem base disp => s.mem.load32 (wrap (s.gpr base + disp))

def pushadOrder : List Gpr := [.eax, .ecx, .edx, .ebx, .esp, .ebp, .esi, .edi]

variable (arith : ℕ → ℕ → ℕ)

/-- The effect of an instruction: `arith` gives the flags behind an arithmetic one,
from those before it and its result. `pushf` hides the flags VM and RF, and `iret`
returns to a less privileged level. -/
def Instr.run (s : Machine) : Instr → Machine
  | mov tgt src => (s.set tgt (src.value s)).next
  | mov16 tgt src => (s.set tgt (s.gpr tgt / 2 ^ 16 * 2 ^ 16 + src.value s % 2 ^ 16)).next
  | movSegment tgt src => { s with segment := update s.segment tgt (s.gpr src % 2 ^ 16) }.next
  | push src => (s.push (src.value s)).next
  | pop tgt => (s.drop.set tgt (s.top 0)).next
  | pushf => (s.push (s.flags &&& 0xfcffff)).next
  | or tgt imm => ((s.set tgt (s.gpr tgt ||| imm)).setFlags (arith s.flags (s.gpr tgt ||| imm))).next
  | add tgt imm => ((s.set tgt (wrap (s.gpr tgt + imm))).setFlags
      (arith s.flags (wrap (s.gpr tgt + imm)))).next
  | pushad => (pushadOrder.foldl (fun t r ↦ t.push (s.gpr r)) s).next
  | call target => (s.push (s.eip + 1)).jump target
  | ret => s.drop.jump (s.top 0)
  | iret =>
    { s with
      gpr := update s.gpr .esp (s.top 3)
      segment := update (update s.segment .cs (s.top 1 % 2 ^ 16)) .ss (s.top 4 % 2 ^ 16)
      flags := s.top 2
      eip := s.top 0 }

section Mov

variable {arith} {s : Machine} {q r : Gpr} {src : Source}

theorem Instr.mov_self : (run arith s (mov q src)).gpr q = src.value s := by
  rw [run, Machine.next_gpr, Machine.set_gpr_self]

theorem Instr.mov_of_ne (h : r ≠ q) : (run arith s (mov q src)).gpr r = s.gpr r := by
  rw [run, Machine.next_gpr, Machine.set_gpr_of_ne _ h]

theorem Instr.mov_mem : (run arith s (mov q src)).mem = s.mem := by
  rw [run, Machine.next_mem, Machine.set_mem]

theorem Instr.mov_eip : (run arith s (mov q src)).eip = s.eip + 1 := by
  rw [run, Machine.next_eip, Machine.set_eip]

end Mov

def run (code : List Instr) : ℕ → Machine → Option Machine
  | 0, s => some s
  | n + 1, s => code[s.eip]?.bind (fun i ↦ run code n (i.run arith s))

def Reaches (code : List Instr) (n : ℕ) (s : Machine) (Q : Machine → Prop) : Prop :=
  ∃ t, run arith code n s = some t ∧ Q t

variable {arith} in
theorem Reaches.done {code : List Instr} {s : Machine} {Q : Machine → Prop} (h : Q s) :
    Reaches arith code 0 s Q := ⟨s, rfl, h⟩

variable {arith} in
theorem Reaches.step {code : List Instr} {n : ℕ} {s : Machine} {Q : Machine → Prop} {i : Instr}
    (hi : code[s.eip]? = some i) (h : Reaches arith code n (i.run arith s) Q) :
    Reaches arith code (n + 1) s Q := by
  obtain ⟨t, ht, hq⟩ := h
  refine ⟨t, ?_, hq⟩
  rw [run, hi, Option.bind_some, ht]

variable {arith} in
theorem Reaches.trans {code : List Instr} {n k : ℕ} {s : Machine} {P Q : Machine → Prop}
    (h : Reaches arith code n s P) (hk : ∀ t, P t → Reaches arith code k t Q) :
    Reaches arith code (n + k) s Q := by
  induction n generalizing s with
  | zero =>
    obtain ⟨t, ht, hp⟩ := h
    obtain rfl := Option.some.inj ht
    rw [Nat.zero_add]
    exact hk _ hp
  | succ n ih =>
    obtain ⟨t, ht, hp⟩ := h
    obtain ⟨i, hi, ht⟩ := Option.bind_eq_some_iff.mp ht
    rw [Nat.add_right_comm]
    exact .step hi (ih ⟨t, ht, hp⟩)

structure Gate where
  stack : ℕ
  ss : ℕ
  cs : ℕ
  handler : ℕ

structure Machine.Bounded (s : Machine) : Prop where
  gpr : ∀ r, s.gpr r < 2 ^ 32
  segment : ∀ r, s.segment r < 2 ^ 16
  flags : s.flags < 2 ^ 32
  eip : s.eip < 2 ^ 32

/-- An interrupt from user mode: the processor changes to the stack of the gate, on
which it leaves where it came from, and clears the interrupt flag. -/
def Machine.interrupt (s : Machine) (g : Gate) : Machine :=
  let t := (((((s.set .esp g.stack).push (s.segment .ss)).push (s.gpr .esp)).push s.flags).push
    (s.segment .cs)).push s.eip
  { t with
    segment := update (update s.segment .cs g.cs) .ss g.ss
    flags := s.flags &&& 0xfffffdff
    eip := g.handler }

section Words

variable {m m' : ByteMemory} {a v low high : ℕ} {ws : List ℕ} {s : Machine} {r : Gpr}

def Words (m : ByteMemory) : ℕ → List ℕ → Prop
  | _, [] => True
  | a, w :: ws => m.load32 a = w ∧ Words m (a + 4) ws

theorem Words.congr (h : Words m a ws) (hb : ∀ i, a ≤ i → i < a + 4 * ws.length → m' i = m i) :
    Words m' a ws := by
  induction ws generalizing a with
  | nil => trivial
  | cons w ws ih =>
    rw [List.length_cons] at hb
    refine ⟨?_, ih h.2 (fun i h₁ h₂ ↦ hb i (by omega) (by omega))⟩
    rw [← h.1]
    exact load32_congr (fun i h₁ h₂ ↦ hb i h₁ (by omega))

theorem Words.get (h : Words m a ws) {i : ℕ} (hi : i < ws.length) : m.load32 (a + 4 * i) = ws[i] := by
  induction ws generalizing a i with
  | nil => exact absurd hi (Nat.not_lt_zero i)
  | cons w ws ih =>
    cases i with
    | zero => exact h.1
    | succ i =>
      rw [List.getElem_cons_succ, ← ih h.2 (Nat.lt_of_succ_lt_succ hi)]
      congr 1
      omega

/-- The stack of `s` holds the words `ws` up to `high`. The memory is `m` but for the
bytes from `low` to `high`. -/
structure Pushed (m : ByteMemory) (low high : ℕ) (ws : List ℕ) (s : Machine) : Prop where
  esp : s.gpr .esp + 4 * ws.length = high
  low_le : low ≤ s.gpr .esp
  high_lt : high < 2 ^ 32
  words : Words s.mem (s.gpr .esp) ws
  off : ∀ i, i < low ∨ high ≤ i → s.mem i = m i

theorem Pushed.start (low : ℕ) (hs : s.gpr .esp = high) (hlow : low ≤ high) (hhigh : high < 2 ^ 32) :
    Pushed s.mem low high [] s :=
  ⟨by rw [hs]; rfl, hs ▸ hlow, hhigh, trivial, fun _ _ ↦ rfl⟩

theorem Pushed.push (h : Pushed m low high ws s) (hroom : low + 4 ≤ s.gpr .esp) (hv : v < 2 ^ 32) :
    Pushed m low high (v :: ws) (s.push v) := by
  have hesp := h.esp
  have hhigh := h.high_lt
  have hsub := wordBelow_of_le (n := s.gpr .esp) (by omega) (by omega)
  have hgpr : (s.push v).gpr .esp = s.gpr .esp - 4 := by rw [s.push_esp, hsub]
  have hmem : (s.push v).mem = s.mem.store32 (s.gpr .esp - 4) v := by rw [s.push_mem, hsub]
  refine ⟨?_, by omega, hhigh, ?_, fun i hi ↦ ?_⟩
  · rw [hgpr, List.length_cons]
    omega
  · rw [hgpr, hmem]
    refine ⟨load32_store32_self hv, ?_⟩
    rw [Nat.sub_add_cancel (by omega)]
    exact h.words.congr (fun i h₁ h₂ ↦ store32_outside (by omega))
  · rw [hmem, store32_outside (by omega), h.off i hi]

theorem Pushed.pushAll (vs : List ℕ) (h : Pushed m low high ws s)
    (hroom : low + 4 * vs.length ≤ s.gpr .esp) (hv : ∀ v ∈ vs, v < 2 ^ 32) :
    Pushed m low high (vs.reverse ++ ws) (vs.foldl Machine.push s) := by
  induction vs generalizing ws s with
  | nil => exact h
  | cons v vs ih =>
    rw [List.length_cons] at hroom
    have hnext := h.push (by omega) (hv v List.mem_cons_self)
    have hesp := h.esp
    have hesp' := hnext.esp
    rw [List.length_cons] at hesp'
    rw [List.reverse_cons, List.append_assoc, List.foldl_cons]
    exact ih hnext (by omega) (fun w hw ↦ hv w (List.mem_cons_of_mem _ hw))

theorem Pushed.drop (h : Pushed m low high (v :: ws) s) : Pushed m low high ws s.drop := by
  have hesp := h.esp
  have hhigh := h.high_lt
  have hlow := h.low_le
  rw [List.length_cons] at hesp
  have hgpr : s.drop.gpr .esp = s.gpr .esp + 4 := by
    rw [s.drop_esp, wrap_of_lt (by omega)]
  refine ⟨by omega, by omega, hhigh, ?_, h.off⟩
  rw [hgpr]
  exact h.words.2

theorem Pushed.top (h : Pushed m low high ws s) {i : ℕ} (hi : i < ws.length) : s.top i = ws[i] := by
  have hesp := h.esp
  have hhigh := h.high_lt
  rw [Machine.top, wrap_of_lt (by omega), h.words.get hi]

theorem Pushed.congr {t : Machine} (h : Pushed m low high ws s) (he : t.gpr .esp = s.gpr .esp)
    (hm : t.mem = s.mem) : Pushed m low high ws t :=
  ⟨he ▸ h.esp, he ▸ h.low_le, h.high_lt, by rw [he, hm]; exact h.words, by rw [hm]; exact h.off⟩

theorem Pushed.mov (arith : ℕ → ℕ → ℕ) (src : Source) (h : Pushed m low high ws s) (hr : r ≠ .esp) :
    Pushed m low high ws (Instr.run arith s (.mov r src)) :=
  h.congr (Instr.mov_of_ne hr.symm) Instr.mov_mem

theorem Pushed.load (h : Pushed m low high ws s) (hout : a + 4 ≤ low ∨ high ≤ a) :
    s.mem.load32 a = m.load32 a :=
  load32_congr (fun i _ _ ↦ h.off i (by omega))

end Words

section Interrupt

variable {u : Machine} {g : Gate} {low : ℕ}

theorem interrupt_pushed (hu : u.Bounded) (hroom : low + 20 ≤ g.stack) (hlt : g.stack < 2 ^ 32) :
    Pushed u.mem low g.stack [u.eip, u.segment .cs, u.flags, u.gpr .esp, u.segment .ss]
      (u.interrupt g) := by
  have h₀ := Pushed.start low (u.set_gpr_self (r := .esp) (v := g.stack)) (by omega) hlt
  have h := h₀.pushAll [u.segment .ss, u.gpr .esp, u.flags, u.segment .cs, u.eip]
    (by rw [Machine.set_gpr_self]; simp only [List.length_cons, List.length_nil]; omega) ?_
  · exact h.congr rfl rfl
  · have hss := hu.segment .ss
    have hcs := hu.segment .cs
    simp only [List.forall_mem_cons, List.not_mem_nil, false_implies, implies_true, and_true]
    exact ⟨by omega, hu.gpr .esp, hu.flags, by omega, hu.eip⟩

theorem interrupt_gpr {q : Gpr} (hq : q ≠ .esp) : (u.interrupt g).gpr q = u.gpr q := by
  have h := fun v (s : Machine) ↦ s.push_gpr_of_ne (v := v) hq
  unfold Machine.interrupt
  simp only [h, Machine.set_gpr_of_ne _ hq]

theorem interrupt_gpr_lt (hu : u.Bounded) (hroom : low + 20 ≤ g.stack) (hlt : g.stack < 2 ^ 32)
    (q : Gpr) : (u.interrupt g).gpr q < 2 ^ 32 := by
  by_cases hq : q = .esp
  · have hesp := (interrupt_pushed hu hroom hlt).esp
    rw [hq]
    omega
  · rw [interrupt_gpr hq]
    exact hu.gpr q

theorem pushad_pushed (hu : u.Bounded) (hroom : low + 52 ≤ g.stack) (hlt : g.stack < 2 ^ 32) :
    Pushed u.mem low g.stack ((pushadOrder.map (u.interrupt g).gpr).reverse ++
        [u.eip, u.segment .cs, u.flags, u.gpr .esp, u.segment .ss])
      (Instr.run arith (u.interrupt g) .pushad) := by
  have h := interrupt_pushed hu (show low + 20 ≤ g.stack by omega) hlt
  have hesp := h.esp
  have hlen : (pushadOrder.map (u.interrupt g).gpr).length = 8 := by rw [List.length_map]; rfl
  simp only [List.length_cons, List.length_nil] at hesp
  have hpush := h.pushAll (pushadOrder.map (u.interrupt g).gpr) (by rw [hlen]; omega) ?_
  · rw [List.foldl_map] at hpush
    exact hpush.congr rfl rfl
  · rw [List.forall_mem_map]
    exact fun q _ ↦ interrupt_gpr_lt hu (show low + 20 ≤ g.stack by omega) hlt q

end Interrupt

end GammaOS.Foundation.X86
