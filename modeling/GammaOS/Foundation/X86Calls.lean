import GammaOS.Foundation.X86
import Mathlib.Logic.Relation

namespace GammaOS.Foundation.X86

open Function ByteMemory Relation

/-- The instructions of programs that loop and call a system, and of the routine that
serves them. -/
inductive Op
  | base (i : Instr)
  | pushImm (imm : ℕ)
  | movImm (tgt : Gpr) (imm : ℕ)
  | movAt (tgt : Gpr) (a : ℕ)
  | store (tgt src : Gpr)
  | storeAt (a : ℕ) (src : Gpr)
  | cmp (r : Gpr) (imm : ℕ)
  | je (target : ℕ)
  | jne (target : ℕ)
  | popad
  | int
  /-- A call of a routine outside of the code. -/
  | outer

def Instr.Fits : Instr → Prop
  | or _ imm => imm < 2 ^ 32
  | call target => target < 2 ^ 32
  | _ => True

def Op.Fits : Op → Prop
  | base i => i.Fits
  | pushImm imm => imm < 2 ^ 32
  | movImm _ imm => imm < 2 ^ 32
  | je target => target < 2 ^ 32
  | jne target => target < 2 ^ 32
  | _ => True

structure Gate.Fits (g : Gate) : Prop where
  stack : g.stack < 2 ^ 32
  ss : g.ss < 2 ^ 16
  cs : g.cs < 2 ^ 16
  handler : g.handler < 2 ^ 32

@[irreducible] def difference (a b : ℕ) : ℕ := (a + 2 ^ 32 - b) % 2 ^ 32

theorem difference_eq_zero {a b : ℕ} (ha : a < 2 ^ 32) (hb : b < 2 ^ 32) :
    difference a b = 0 ↔ a = b := by
  unfold difference
  omega

def zeroFlag : ℕ := 6

/-- The code with what it runs in: the gate of the interrupt, the flags behind an
arithmetic instruction, and what the routines outside do, call by call. -/
structure World where
  code : List Op
  gate : Gate
  arith : ℕ → ℕ → ℕ
  outer : ℕ → Machine → Machine
  code_fits : ∀ op ∈ code, op.Fits
  code_lt : code.length < 2 ^ 32
  gate_fits : gate.Fits
  arith_lt : ∀ fl v, arith fl v < 2 ^ 32
  arith_zero : ∀ fl v, (arith fl v).testBit zeroFlag = decide (v = 0)
  outer_bounded : ∀ k s, s.Bounded → (outer k s).Bounded

/-- The registers behind `popad`, which leaves `esp` out. -/
def Machine.popad (s : Machine) : Machine :=
  { s with
    gpr := fun
      | .edi => s.top 0
      | .esi => s.top 1
      | .ebp => s.top 2
      | .esp => wrap (s.gpr .esp + 32)
      | .ebx => s.top 4
      | .edx => s.top 5
      | .ecx => s.top 6
      | .eax => s.top 7 }

variable (w : World)

/-- An instruction, behind as many calls of routines outside as the count says. -/
def Op.run : Op → ℕ × Machine → ℕ × Machine
  | base i, (k, s) => (k, i.run w.arith s)
  | pushImm imm, (k, s) => (k, (s.push imm).next)
  | movImm tgt imm, (k, s) => (k, (s.set tgt imm).next)
  | movAt tgt a, (k, s) => (k, (s.set tgt (s.mem.load32 a)).next)
  | store tgt src, (k, s) => (k, { s with mem := s.mem.store32 (s.gpr tgt) (s.gpr src) }.next)
  | storeAt a src, (k, s) => (k, { s with mem := s.mem.store32 a (s.gpr src) }.next)
  | cmp r imm, (k, s) => (k, (s.setFlags (w.arith s.flags (difference (s.gpr r) imm))).next)
  | je target, (k, s) => (k, if s.flags.testBit zeroFlag then s.jump target else s.next)
  | jne target, (k, s) => (k, if s.flags.testBit zeroFlag then s.next else s.jump target)
  | popad, (k, s) => (k, s.popad.next)
  | int, (k, s) => (k, s.next.interrupt w.gate)
  | outer, (k, s) => (k + 1, w.outer k s)

def World.Step (c d : ℕ × Machine) : Prop := ∃ op, w.code[c.2.eip]? = some op ∧ d = op.run w c

def Leads (c : ℕ × Machine) (Q : ℕ × Machine → Prop) : Prop := ∃ d, ReflTransGen w.Step c d ∧ Q d

section Bounded

variable {w} {c d : ℕ × Machine} {op : Op} {i : Instr} {s : Machine} {r : Gpr} {v e : ℕ}
  {arith : ℕ → ℕ → ℕ}

namespace Machine.Bounded

theorem set (h : s.Bounded) (hv : v < 2 ^ 32) : (s.set r v).Bounded := by
  refine ⟨fun q ↦ ?_, h.segment, h.flags, h.eip⟩
  by_cases hq : q = r
  · rw [hq, s.set_gpr_self]
    exact hv
  · rw [s.set_gpr_of_ne hq]
    exact h.gpr q

theorem next (h : s.Bounded) (he : s.eip + 1 < 2 ^ 32) : s.next.Bounded :=
  ⟨h.gpr, h.segment, h.flags, he⟩

theorem jump (h : s.Bounded) (he : e < 2 ^ 32) : (s.jump e).Bounded :=
  ⟨h.gpr, h.segment, h.flags, he⟩

theorem setFlags (h : s.Bounded) (hv : v < 2 ^ 32) : (s.setFlags v).Bounded :=
  ⟨h.gpr, h.segment, hv, h.eip⟩

theorem withMem (h : s.Bounded) (m : ByteMemory) : ({ s with mem := m } : Machine).Bounded :=
  ⟨h.gpr, h.segment, h.flags, h.eip⟩

theorem push (h : s.Bounded) : (s.push v).Bounded := by
  have hlt : wordBelow (s.gpr .esp) < 2 ^ 32 := by
    unfold wordBelow
    exact Nat.mod_lt _ (by decide)
  exact (h.set hlt).withMem _

theorem drop (h : s.Bounded) : s.drop.Bounded := h.set (wrap_lt _)

theorem pushAll (h : s.Bounded) (vs : List ℕ) : (vs.foldl Machine.push s).Bounded := by
  induction vs generalizing s with
  | nil => exact h
  | cons v vs ih => exact ih h.push

theorem withSegments (h : s.Bounded) {f : Segment → ℕ} (hf : ∀ q, f q < 2 ^ 16) :
    ({ s with segment := f } : Machine).Bounded := ⟨h.gpr, hf, h.flags, h.eip⟩

end Machine.Bounded

theorem update_segment_lt {f : Segment → ℕ} {q : Segment} (hf : ∀ q, f q < 2 ^ 16) (hv : v < 2 ^ 16)
    (x : Segment) : update f q v x < 2 ^ 16 := by
  by_cases hx : x = q
  · rw [hx, update_self]
    exact hv
  · rw [update_of_ne hx]
    exact hf x

theorem Machine.top_lt (s : Machine) (n : ℕ) : s.top n < 2 ^ 32 := load32_lt _ _

theorem Source.value_lt (h : s.Bounded) (src : Source) : src.value s < 2 ^ 32 := by
  cases src with
  | reg r => exact h.gpr r
  | mem base disp => exact load32_lt _ _

theorem Instr.run_bounded (h : s.Bounded) (hi : i.Fits) (he : s.eip + 1 < 2 ^ 32)
    (harith : ∀ fl v, arith fl v < 2 ^ 32) : (i.run arith s).Bounded := by
  cases i with
  | mov tgt src => exact (h.set (src.value_lt h)).next he
  | mov16 tgt src =>
    have hlt := h.gpr tgt
    exact (h.set (by omega)).next he
  | movSegment tgt src =>
    have hlt : s.gpr src % 2 ^ 16 < 2 ^ 16 := Nat.mod_lt _ (by decide)
    exact (h.withSegments (update_segment_lt h.segment hlt)).next he
  | push src => exact h.push.next he
  | pop tgt => exact (h.drop.set (s.top_lt 0)).next he
  | pushf => exact h.push.next he
  | or tgt imm => exact ((h.set (Nat.or_lt_two_pow (h.gpr tgt) hi)).setFlags (harith _ _)).next he
  | add tgt imm => exact ((h.set (wrap_lt _)).setFlags (harith _ _)).next he
  | pushad =>
    have hpush := h.pushAll (pushadOrder.map s.gpr)
    rw [List.foldl_map] at hpush
    have heip : (pushadOrder.foldl (fun t r ↦ t.push (s.gpr r)) s).eip = s.eip := rfl
    exact hpush.next (heip ▸ he)
  | call target => exact h.push.jump hi
  | ret => exact h.drop.jump (s.top_lt 0)
  | iret =>
    have hmod (n : ℕ) : n % 2 ^ 16 < 2 ^ 16 := Nat.mod_lt _ (by decide)
    have hesp : (s.set .esp (s.top 3)).Bounded := h.set (s.top_lt 3)
    exact ⟨hesp.gpr, update_segment_lt (update_segment_lt h.segment (hmod _)) (hmod _), s.top_lt 2,
      s.top_lt 0⟩

theorem Machine.Bounded.popad (h : s.Bounded) : s.popad.Bounded := by
  refine ⟨fun q ↦ ?_, h.segment, h.flags, h.eip⟩
  cases q
  case esp => exact wrap_lt _
  all_goals exact s.top_lt _

theorem Machine.Bounded.interrupt {g : Gate} (h : s.Bounded) (hg : g.Fits) :
    (s.interrupt g).Bounded := by
  have hpush := (h.set (r := .esp) hg.stack).pushAll
    [s.segment .ss, s.gpr .esp, s.flags, s.segment .cs, s.eip]
  exact ⟨hpush.gpr, update_segment_lt (update_segment_lt h.segment hg.cs) hg.ss,
    Nat.and_lt_two_pow _ (by decide), hg.handler⟩

theorem World.Step.bounded (hstep : w.Step c d) (h : c.2.Bounded) : d.2.Bounded := by
  obtain ⟨op, hop, rfl⟩ := hstep
  obtain ⟨k, s⟩ := c
  obtain ⟨hin, -⟩ := List.getElem?_eq_some_iff.mp hop
  have he : s.eip + 1 < 2 ^ 32 := Nat.lt_of_le_of_lt hin w.code_lt
  have hfits := w.code_fits op (List.mem_of_getElem? hop)
  cases op with
  | base i => exact Instr.run_bounded h hfits he w.arith_lt
  | pushImm imm => exact h.push.next he
  | movImm tgt imm => exact (h.set hfits).next he
  | movAt tgt a => exact (h.set (load32_lt _ _)).next he
  | store tgt src => exact (h.withMem _).next he
  | storeAt a src => exact (h.withMem _).next he
  | cmp r imm => exact (h.setFlags (w.arith_lt _ _)).next he
  | je target =>
    rw [Op.run]
    split
    · exact h.jump hfits
    · exact h.next he
  | jne target =>
    rw [Op.run]
    split
    · exact h.next he
    · exact h.jump hfits
  | popad => exact h.popad.next he
  | int => exact (h.next he).interrupt w.gate_fits
  | outer => exact w.outer_bounded _ _ h

theorem Leads.bounded {Q : ℕ × Machine → Prop} (h : c.2.Bounded) (hq : Leads w c Q) :
    Leads w c (fun d ↦ d.2.Bounded ∧ Q d) := by
  obtain ⟨d, hd, hq⟩ := hq
  refine ⟨d, hd, ?_, hq⟩
  clear hq
  induction hd with
  | refl => exact h
  | tail _ hstep ih => exact hstep.bounded ih

end Bounded

section Rules

variable {w} {c d : ℕ × Machine} {P Q : ℕ × Machine → Prop} {op : Op}

theorem Leads.done (h : Q c) : Leads w c Q := ⟨c, .refl, h⟩

theorem Leads.step (hop : w.code[c.2.eip]? = some op) (h : Leads w (op.run w c) Q) :
    Leads w c Q := by
  obtain ⟨d, hd, hq⟩ := h
  exact ⟨d, .head ⟨op, hop, rfl⟩ hd, hq⟩

theorem Leads.trans (h : Leads w c P) (hnext : ∀ d, P d → Leads w d Q) : Leads w c Q := by
  obtain ⟨d, hd, hp⟩ := h
  obtain ⟨e, he, hq⟩ := hnext d hp
  exact ⟨e, hd.trans he, hq⟩

theorem Leads.mono (h : Leads w c P) (himp : ∀ d, P d → Q d) : Leads w c Q :=
  h.trans (fun d hd ↦ .done (himp d hd))

end Rules

def Placed (code : List Op) (pos : ℕ) (ops : List Op) : Prop :=
  ∀ i (h : i < ops.length), code[pos + i]? = some ops[i]

theorem Placed.get {code ops : List Op} {pos i e : ℕ} {op : Op} (h : Placed code pos ops)
    (he : e = pos + i) (hop : ops[i]? = some op) : code[e]? = some op := by
  obtain ⟨hi, rfl⟩ := List.getElem?_eq_some_iff.mp hop
  rw [he]
  exact h i hi

theorem Placed.of_append (front back : List Op) {code ops : List Op}
    (h : code = front ++ (ops ++ back)) :
    Placed code front.length ops := by
  intro i hi
  rw [h, List.getElem?_append_right (Nat.le_add_right _ _), Nat.add_sub_cancel_left,
    List.getElem?_append_left hi, List.getElem?_eq_getElem hi]

section Pushed

variable {w} {m : ByteMemory} {low high v n : ℕ} {ws vs : List ℕ} {s t : Machine} {q r : Gpr}

theorem Words.drop {a : ℕ} (h : Words m a (vs ++ ws)) : Words m (a + 4 * vs.length) ws := by
  induction vs generalizing a with
  | nil => exact h
  | cons v vs ih =>
    have htail := ih h.2
    rwa [Nat.add_assoc, ← Nat.mul_succ 4 vs.length |>.trans (Nat.add_comm _ _)] at htail

theorem Words.exists_front {a : ℕ} (n : ℕ) (h : Words m (a + 4 * n) ws) :
    ∃ vs, vs.length = n ∧ Words m a (vs ++ ws) := by
  induction n generalizing a with
  | zero => exact ⟨[], rfl, h⟩
  | succ n ih =>
    obtain ⟨vs, hvs, hwords⟩ := ih (a := a + 4)
      (by rwa [Nat.add_assoc, Nat.add_comm 4, ← Nat.mul_succ])
    exact ⟨m.load32 a :: vs, congrArg (· + 1) hvs, rfl, hwords⟩

theorem Pushed.rebase (vs : List ℕ) (h : Pushed m low high (vs ++ ws) s)
    (hesp : t.gpr .esp = s.gpr .esp)
    (hmem : ∀ i, s.gpr .esp + 4 * vs.length ≤ i → i < high → t.mem i = s.mem i) :
    ∃ vs', vs'.length = vs.length ∧ Pushed t.mem low high (vs' ++ ws) t := by
  have hend := h.esp
  rw [List.length_append] at hend
  have hwords : Words t.mem (s.gpr .esp + 4 * vs.length) ws :=
    h.words.drop.congr (fun i h₁ h₂ ↦ hmem i h₁ (by omega))
  obtain ⟨vs', hlen, hwords⟩ := hwords.exists_front
  refine ⟨vs', hlen, ?_, hesp ▸ h.low_le, h.high_lt, hesp ▸ hwords, fun _ _ ↦ rfl⟩
  rw [List.length_append, hesp, hlen]
  exact hend

theorem Pushed.above (h : Pushed m low high (vs ++ ws) s)
    (hesp : t.gpr .esp = s.gpr .esp + 4 * vs.length) (hmem : t.mem = s.mem) :
    Pushed m low high ws t := by
  have hend := h.esp
  have hlow := h.low_le
  rw [List.length_append] at hend
  refine ⟨by omega, by omega, h.high_lt, ?_, fun i hi ↦ hmem ▸ h.off i hi⟩
  rw [hesp, hmem]
  exact h.words.drop

end Pushed

section Instructions

/-- `t` is `s` behind an instruction that changes no other registers and goes on at `e`.
The flags are left out. -/
structure After (changed : List Gpr) (e : ℕ) (s t : Machine) : Prop where
  gpr : ∀ q, q ∉ changed → t.gpr q = s.gpr q
  segment : t.segment = s.segment
  eip : t.eip = e
  bounded : s.Bounded → t.Bounded

variable {w} {m : ByteMemory} {low high v k a imm target : ℕ} {ws : List ℕ} {s t : Machine}
  {q r : Gpr} {src : Source} {op : Op} {Q : ℕ × Machine → Prop}

theorem World.Step.keeps_bounded (hop : w.code[s.eip]? = some op) (hb : s.Bounded) :
    (op.run w (k, s)).2.Bounded :=
  World.Step.bounded (c := (k, s)) ⟨op, hop, rfl⟩ hb

theorem After.set (v : ℕ) (hb : s.Bounded → (s.set r v).next.Bounded) :
    After [r] (s.eip + 1) s (s.set r v).next :=
  ⟨fun _ hq ↦ s.set_gpr_of_ne (List.ne_of_not_mem_cons hq), rfl, rfl, hb⟩

theorem Leads.push (hop : w.code[s.eip]? = some (.base (.push src)))
    (h : Pushed m low high ws s) (hroom : low + 4 ≤ s.gpr .esp) (hv : src.value s = v)
    (hlt : v < 2 ^ 32)
    (hnext : ∀ t, After [.esp] (s.eip + 1) s t → Pushed m low high (v :: ws) t → Leads w (k, t) Q) :
    Leads w (k, s) Q := by
  refine .step hop (hnext _ ?_ ?_)
  · exact ⟨fun q hq ↦ s.push_gpr_of_ne (v := src.value s) (List.ne_of_not_mem_cons hq), rfl, rfl,
      World.Step.keeps_bounded (k := k) hop⟩
  · rw [Instr.run, hv]
    exact (h.push hroom hlt).congr rfl rfl

theorem Leads.pushImm (hop : w.code[s.eip]? = some (.pushImm v))
    (h : Pushed m low high ws s) (hroom : low + 4 ≤ s.gpr .esp)
    (hnext : ∀ t, After [.esp] (s.eip + 1) s t → Pushed m low high (v :: ws) t → Leads w (k, t) Q) :
    Leads w (k, s) Q :=
  .step hop (hnext _ ⟨fun _ hq ↦ s.push_gpr_of_ne (v := v) (List.ne_of_not_mem_cons hq), rfl, rfl,
    World.Step.keeps_bounded (k := k) hop⟩
    ((h.push hroom (w.code_fits _ (List.mem_of_getElem? hop))).congr rfl rfl))

theorem Leads.mov (hop : w.code[s.eip]? = some (.base (.mov r src)))
    (h : Pushed m low high ws s) (hr : r ≠ .esp) (hv : src.value s = v)
    (hnext : ∀ t, After [r] (s.eip + 1) s t → t.gpr r = v → t.mem = s.mem → Pushed m low high ws t →
      Leads w (k, t) Q) : Leads w (k, s) Q := by
  refine .step hop (hnext _ (.set _ (World.Step.keeps_bounded (k := k) hop)) ?_ rfl
    (h.mov w.arith src hr))
  rw [Instr.mov_self, hv]

theorem Leads.movImm (hop : w.code[s.eip]? = some (.movImm r imm))
    (h : Pushed m low high ws s) (hr : r ≠ .esp)
    (hnext : ∀ t, After [r] (s.eip + 1) s t → t.gpr r = imm → t.mem = s.mem →
      Pushed m low high ws t → Leads w (k, t) Q) : Leads w (k, s) Q :=
  .step hop (hnext _ (.set imm (World.Step.keeps_bounded (k := k) hop)) s.set_gpr_self rfl
    (h.congr (s.set_gpr_of_ne hr.symm) rfl))

theorem Leads.movAt (hop : w.code[s.eip]? = some (.movAt r a)) (h : Pushed m low high ws s)
    (hr : r ≠ .esp)
    (hnext : ∀ t, After [r] (s.eip + 1) s t → t.gpr r = s.mem.load32 a → t.mem = s.mem →
      Pushed m low high ws t → Leads w (k, t) Q) : Leads w (k, s) Q :=
  .step hop (hnext _ (.set _ (World.Step.keeps_bounded (k := k) hop)) s.set_gpr_self rfl
    (h.congr (s.set_gpr_of_ne hr.symm) rfl))

theorem Leads.add (hop : w.code[s.eip]? = some (.base (.add r imm)))
    (h : Pushed m low high ws s) (hr : r ≠ .esp)
    (hnext : ∀ t, After [r] (s.eip + 1) s t → t.gpr r = wrap (s.gpr r + imm) → t.mem = s.mem →
      Pushed m low high ws t → Leads w (k, t) Q) : Leads w (k, s) Q :=
  .step hop (hnext _ ⟨fun _ hq ↦ s.set_gpr_of_ne (List.ne_of_not_mem_cons hq), rfl, rfl,
    World.Step.keeps_bounded (k := k) hop⟩ s.set_gpr_self rfl
    (h.congr (s.set_gpr_of_ne hr.symm) rfl))

theorem Leads.pop (hop : w.code[s.eip]? = some (.base (.pop r)))
    (h : Pushed m low high (v :: ws) s) (hr : r ≠ .esp)
    (hnext : ∀ t, After [r, .esp] (s.eip + 1) s t → t.gpr r = v → t.mem = s.mem →
      Pushed m low high ws t → Leads w (k, t) Q) : Leads w (k, s) Q := by
  have htop : s.top 0 = v := h.top (Nat.zero_lt_succ _)
  refine .step hop (hnext _ ?_ ?_ rfl ?_)
  · refine ⟨fun q hq ↦ ?_, rfl, rfl, World.Step.keeps_bounded (k := k) hop⟩
    obtain ⟨hr', hesp⟩ := not_or.mp (mt List.mem_cons.mpr hq)
    exact (s.drop.set_gpr_of_ne hr').trans (s.drop_gpr_of_ne (List.ne_of_not_mem_cons hesp))
  · exact s.drop.set_gpr_self.trans htop
  · exact h.drop.congr (s.drop.set_gpr_of_ne hr.symm) rfl

theorem Leads.discard (vs : List ℕ) (hop : w.code[s.eip]? = some (.base (.add .esp imm)))
    (h : Pushed m low high (vs ++ ws) s) (himm : imm = 4 * vs.length)
    (hnext : ∀ t, After [.esp] (s.eip + 1) s t → t.mem = s.mem → Pushed m low high ws t →
      Leads w (k, t) Q) : Leads w (k, s) Q := by
  have hend := h.esp
  have hlt := h.high_lt
  rw [List.length_append] at hend
  refine .step hop (hnext _ ⟨fun _ hq ↦ s.set_gpr_of_ne (List.ne_of_not_mem_cons hq), rfl, rfl,
    World.Step.keeps_bounded (k := k) hop⟩ rfl (h.above ?_ rfl))
  have hin : s.gpr .esp + 4 * vs.length < 2 ^ 32 := by omega
  rw [himm]
  show (s.set .esp (wrap (s.gpr .esp + 4 * vs.length))).gpr .esp = _
  rw [s.set_gpr_self, wrap_of_lt hin]

theorem Pushed.store32 (h : Pushed m low high ws s) (hout : a + 4 ≤ low ∨ high ≤ a)
    (hesp : t.gpr .esp = s.gpr .esp) (hmem : t.mem = s.mem.store32 a v) :
    Pushed t.mem low high ws t := by
  have hend := h.esp
  have hlow := h.low_le
  refine ⟨hesp ▸ hend, hesp ▸ hlow, h.high_lt, ?_, fun _ _ ↦ rfl⟩
  rw [hesp, hmem]
  exact h.words.congr (fun i h₁ h₂ ↦ store32_outside (by omega))

theorem Leads.storeAt (hop : w.code[s.eip]? = some (.storeAt a r)) (h : Pushed m low high ws s)
    (hout : a + 4 ≤ low ∨ high ≤ a)
    (hnext : ∀ t, After [] (s.eip + 1) s t → t.mem = s.mem.store32 a (s.gpr r) →
      Pushed t.mem low high ws t → Leads w (k, t) Q) : Leads w (k, s) Q :=
  .step hop (hnext _ ⟨fun _ _ ↦ rfl, rfl, rfl, World.Step.keeps_bounded (k := k) hop⟩ rfl
    (h.store32 hout rfl rfl))

theorem Leads.store (hop : w.code[s.eip]? = some (.store q r)) (h : Pushed m low high ws s)
    (hout : s.gpr q + 4 ≤ low ∨ high ≤ s.gpr q)
    (hnext : ∀ t, After [] (s.eip + 1) s t → t.mem = s.mem.store32 (s.gpr q) (s.gpr r) →
      Pushed t.mem low high ws t → Leads w (k, t) Q) : Leads w (k, s) Q :=
  .step hop (hnext _ ⟨fun _ _ ↦ rfl, rfl, rfl, World.Step.keeps_bounded (k := k) hop⟩ rfl
    (h.store32 hout rfl rfl))

theorem Leads.call (hop : w.code[s.eip]? = some (.base (.call target)))
    (h : Pushed m low high ws s) (hroom : low + 4 ≤ s.gpr .esp)
    (hnext : ∀ t, After [.esp] target s t → Pushed m low high ((s.eip + 1) :: ws) t →
      Leads w (k, t) Q) : Leads w (k, s) Q := by
  have hin := (List.getElem?_eq_some_iff.mp hop).1
  have hlt := w.code_lt
  exact .step hop (hnext _
    ⟨fun q hq ↦ s.push_gpr_of_ne (v := s.eip + 1) (List.ne_of_not_mem_cons hq), rfl, rfl,
      World.Step.keeps_bounded (k := k) hop⟩ ((h.push hroom (by omega)).congr rfl rfl))

theorem Leads.ret (hop : w.code[s.eip]? = some (.base .ret))
    (hv : s.mem.load32 (s.gpr .esp) = v) (hlt : s.gpr .esp + 4 < 2 ^ 32)
    (hnext : ∀ t, After [.esp] v s t → t.gpr .esp = s.gpr .esp + 4 → t.mem = s.mem →
      Leads w (k, t) Q) : Leads w (k, s) Q := by
  have htop : s.top 0 = v := by
    rw [Machine.top, Nat.mul_zero, Nat.add_zero, wrap_of_lt (by omega), hv]
  exact .step hop (hnext _ ⟨fun _ hq ↦ s.drop_gpr_of_ne (List.ne_of_not_mem_cons hq), rfl, htop,
    World.Step.keeps_bounded (k := k) hop⟩ (s.drop_esp.trans (wrap_of_lt hlt)) rfl)

theorem Leads.back (hop : w.code[s.eip]? = some (.base .ret)) (h : Pushed m low high (v :: ws) s)
    (hnext : ∀ t, After [.esp] v s t → t.mem = s.mem → Pushed m low high ws t → Leads w (k, t) Q) :
    Leads w (k, s) Q := by
  have hend := h.esp
  have hlt := h.high_lt
  rw [List.length_cons] at hend
  refine .ret hop h.words.1 (by omega) (fun t ht hesp hmem ↦ hnext t ht hmem ?_)
  exact h.drop.congr (hesp.trans (s.drop_esp.trans (wrap_of_lt (by omega))).symm) hmem

theorem Leads.cmp (hop : w.code[s.eip]? = some (.cmp r imm)) (hb : s.Bounded) (himm : imm < 2 ^ 32)
    (hnext : ∀ t, After [] (s.eip + 1) s t → t.mem = s.mem →
      t.flags.testBit zeroFlag = decide (s.gpr r = imm) → Leads w (k, t) Q) : Leads w (k, s) Q := by
  refine .step hop (hnext _ ⟨fun _ _ ↦ rfl, rfl, rfl, World.Step.keeps_bounded (k := k) hop⟩ rfl ?_)
  refine (w.arith_zero s.flags (difference (s.gpr r) imm)).trans ?_
  exact decide_eq_decide.mpr (difference_eq_zero (hb.gpr r) himm)

theorem Leads.je (hop : w.code[s.eip]? = some (.je target))
    (hnext : ∀ t, After [] (if s.flags.testBit zeroFlag then target else s.eip + 1) s t →
      t.mem = s.mem → Leads w (k, t) Q) : Leads w (k, s) Q := by
  have hb := World.Step.keeps_bounded (k := k) hop
  refine .step hop ?_
  rw [Op.run] at hb ⊢
  by_cases h : s.flags.testBit zeroFlag
  · rw [if_pos h] at hb hnext ⊢
    exact hnext _ ⟨fun _ _ ↦ rfl, rfl, rfl, hb⟩ rfl
  · rw [if_neg h] at hb hnext ⊢
    exact hnext _ ⟨fun _ _ ↦ rfl, rfl, rfl, hb⟩ rfl

theorem Leads.jne (hop : w.code[s.eip]? = some (.jne target))
    (hnext : ∀ t, After [] (if s.flags.testBit zeroFlag then s.eip + 1 else target) s t →
      t.mem = s.mem → Leads w (k, t) Q) : Leads w (k, s) Q := by
  have hb := World.Step.keeps_bounded (k := k) hop
  refine .step hop ?_
  rw [Op.run] at hb ⊢
  by_cases h : s.flags.testBit zeroFlag
  · rw [if_pos h] at hb hnext ⊢
    exact hnext _ ⟨fun _ _ ↦ rfl, rfl, rfl, hb⟩ rfl
  · rw [if_neg h] at hb hnext ⊢
    exact hnext _ ⟨fun _ _ ↦ rfl, rfl, rfl, hb⟩ rfl

end Instructions

end GammaOS.Foundation.X86
