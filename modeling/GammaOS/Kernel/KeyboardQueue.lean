import GammaOS.Foundation.Ring
import GammaOS.Kernel.Keyboard
import GammaOS.Kernel.UserMalloc

namespace GammaOS.Kernel

open Function Foundation Foundation.Program Memory

structure KeyboardBuffer.Empty (k : KeyboardBuffer) : Prop where
  buffer : ∀ i < processMaxKeyboardBufferSize, k.buffer i = 0
  head : k.head = 0
  tail : k.tail = 0

inductive KeyOp
  | put (ch : UInt8)
  | get

variable {σ δ : Type}

def KeyOp.run : KeyOp → KernelM σ δ (List UInt8)
  | put ch => do
    keyboardPut ch
    pure []
  | get => do
    let ch ← keyboardGet
    pure [ch]

def keyRun : List KeyOp → KernelM σ δ (List UInt8)
  | [] => pure []
  | op :: ops => do
    let out ← op.run
    let rest ← keyRun ops
    pure (out ++ rest)

def nonzero (chs : List UInt8) : List UInt8 := chs.filter (fun c ↦ decide (c ≠ 0))

def puts : List KeyOp → List UInt8
  | [] => []
  | .put ch :: ops => ch :: puts ops
  | .get :: ops => puts ops

/-- The counter is no negative one, or the one that the wrap leads to. -/
def Unwrapped (counter : ℤ) : Prop := 0 ≤ counter ∨ counter = -2 ^ 31

/-- What the operation needs: room for the character, and counters that have
not wrapped around. -/
def KeyOp.Fits : KeyOp → KeyboardBuffer → Prop
  | put ch, k => ch ≠ 0 → Unwrapped k.tail ∧ k.buffer (keyboardIndex k.tail) = 0
  | get, k => Unwrapped k.head

/-- After `n` characters were taken out, those of `q` are in the buffer. -/
structure KeyQueue (k : KeyboardBuffer) (n : ℕ) (q : List UInt8) : Prop where
  ring : RingHolds 0 processMaxKeyboardBufferSize k.buffer n q
  head : k.head = toInt32 n
  tail : k.tail = toInt32 (n + q.length)
  bound : n + q.length ≤ 2 ^ 31 + 1

structure Typing (s : KernelState σ δ) (n : ℕ) (q : List UInt8) : Prop where
  current_ne : s.currentProcess ≠ 0
  queue : ∃ x, s.processes s.currentProcess = some x ∧ KeyQueue x.keyboardBuf n q

section Counters

variable {n : ℕ}

theorem toInt32_small (h : n < 2 ^ 31) : toInt32 n = n := by
  unfold toInt32
  rw [u32_of_lt (Nat.lt_trans h (by decide)), if_pos h]

theorem nextCounter_eq (h : n ≤ 2 ^ 31) : nextCounter (toInt32 n) = toInt32 (n + 1) := by
  unfold nextCounter
  congr 1
  unfold ofInt32 toInt32 u32
  split <;> omega

theorem keyboardIndex_eq (h : n ≤ 2 ^ 31) :
    keyboardIndex (toInt32 n) = n % processMaxKeyboardBufferSize := by
  unfold keyboardIndex processMaxKeyboardBufferSize
  rcases Nat.eq_or_lt_of_le h with rfl | hlt
  · decide
  · rw [toInt32_small hlt, Int.tmod_eq_emod_of_nonneg (by omega)]
    unfold ofInt32
    omega

theorem unwrapped_iff (h : n ≤ 2 ^ 31 + 1) : Unwrapped (toInt32 n) ↔ n ≤ 2 ^ 31 := by
  unfold Unwrapped toInt32 u32
  split <;> omega

end Counters

variable {s : KernelState σ δ} {n : ℕ} {q : List UInt8} {ch : UInt8} {k : KeyboardBuffer}

theorem KeyQueue.of_empty (h : k.Empty) : KeyQueue k 0 [] where
  ring := RingHolds.empty h.buffer 0
  head := h.head
  tail := h.tail
  bound := Nat.zero_le _

theorem KeyQueue.fits_put (h : KeyQueue k n q) :
    (KeyOp.put ch).Fits k ↔
      (ch ≠ 0 → n + q.length ≤ 2 ^ 31 ∧ q.length < processMaxKeyboardBufferSize) := by
  refine imp_congr_right (fun _ ↦ ?_)
  rw [h.tail, unwrapped_iff h.bound]
  refine and_congr_right (fun hn ↦ ?_)
  rw [keyboardIndex_eq hn]
  exact h.ring.tail_eq_empty (by decide)

theorem KeyQueue.fits_get (h : KeyQueue k n q) : KeyOp.get.Fits k ↔ n ≤ 2 ^ 31 := by
  have hle := h.bound
  show Unwrapped k.head ↔ _
  rw [h.head, unwrapped_iff (by omega)]

theorem push_run {x : Process} (h : KeyQueue x.keyboardBuf n q) (hch : ch ≠ 0)
    (hn : n + q.length ≤ 2 ^ 31) :
    ∃ x', keyboardPushToBuffer x ch = .ok x' ∧
      (q.length < processMaxKeyboardBufferSize → KeyQueue x'.keyboardBuf n (q ++ [ch])) := by
  have hplace : keyboardIndex x.keyboardBuf.tail = (n + q.length) % processMaxKeyboardBufferSize := by
    rw [h.tail, keyboardIndex_eq hn]
  have hlt : keyboardIndex x.keyboardBuf.tail < processMaxKeyboardBufferSize := by
    rw [hplace]
    exact Nat.mod_lt _ (by decide)
  rw [keyboardPushToBuffer, if_neg hch]
  dsimp only
  rw [if_pos hlt]
  refine ⟨_, rfl, fun hroom ↦ ⟨?_, h.head, ?_, ?_⟩⟩
  · have hring := h.ring.push hroom hch
    rwa [← hplace] at hring
  · show nextCounter x.keyboardBuf.tail = _
    rw [h.tail, nextCounter_eq hn, List.length_append, List.length_singleton, Nat.add_assoc]
  · rw [List.length_append, List.length_singleton]
    omega

theorem pop_run {x : Process} (h : KeyQueue x.keyboardBuf n q) (hn : n ≤ 2 ^ 31) :
    ∃ x', keyboardPopFromBuffer x = .ok (q.headD 0, x') ∧
      KeyQueue x'.keyboardBuf (n + min 1 q.length) q.tail := by
  have hplace : keyboardIndex x.keyboardBuf.head = n % processMaxKeyboardBufferSize := by
    rw [h.head, keyboardIndex_eq hn]
  have hlt : keyboardIndex x.keyboardBuf.head < processMaxKeyboardBufferSize := by
    rw [hplace]
    exact Nat.mod_lt _ (by decide)
  have hcell := h.ring.head_cell (by decide)
  have hempty := h.ring.head_eq_empty (by decide)
  rw [← hplace] at hcell hempty
  rw [keyboardPopFromBuffer]
  dsimp only
  rw [if_pos hlt]
  cases q with
  | nil =>
    rw [if_pos (hempty.mpr rfl)]
    exact ⟨x, rfl, h⟩
  | cons c q =>
    rw [if_neg (fun hz ↦ List.cons_ne_nil c q (hempty.mp hz)), hcell]
    refine ⟨_, rfl, ?_, ?_, ?_, ?_⟩
    · have hring := h.ring.pop
      rw [← hplace] at hring
      rwa [List.length_cons, Nat.min_eq_left (Nat.le_add_left 1 _)]
    · show nextCounter x.keyboardBuf.head = _
      rw [h.head, nextCounter_eq hn, List.length_cons, Nat.min_eq_left (Nat.le_add_left 1 _)]
    · have htail := h.tail
      rw [List.length_cons] at htail ⊢
      rw [Nat.min_eq_left (Nat.le_add_left 1 _), Nat.add_assoc, Nat.add_comm 1]
      exact htail
    · have hle := h.bound
      rw [List.length_cons] at hle ⊢
      rw [Nat.min_eq_left (Nat.le_add_left 1 _)]
      exact (by omega : n + 1 + q.length ≤ 2 ^ 31 + 1)

theorem Typing.put (ch : UInt8) (h : Typing s n q) (hn : ch ≠ 0 → n + q.length ≤ 2 ^ 31) :
    ∃ s', keyboardPut ch s = .ok ((), s') ∧
      ((ch ≠ 0 → q.length < processMaxKeyboardBufferSize) → Typing s' n (q ++ nonzero [ch])) := by
  obtain ⟨x, hx, hq⟩ := h.queue
  have hrun : ∃ x', keyboardPushToBuffer x ch = .ok x' ∧
      ((ch ≠ 0 → q.length < processMaxKeyboardBufferSize) →
        KeyQueue x'.keyboardBuf n (q ++ nonzero [ch])) := by
    by_cases hch : ch = 0
    · refine ⟨x, by rw [keyboardPushToBuffer, if_pos hch], fun _ ↦ ?_⟩
      rw [nonzero, List.filter_cons_of_neg (by simp [hch]), List.filter_nil, List.append_nil]
      exact hq
    · obtain ⟨x', hpush, hq'⟩ := push_run hq hch (hn hch)
      refine ⟨x', hpush, fun hroom ↦ ?_⟩
      rw [nonzero, List.filter_cons_of_pos (by simp [hch]), List.filter_nil]
      exact hq' (hroom hch)
  obtain ⟨x', hpush, hq'⟩ := hrun
  refine ⟨{ s with processes := update s.processes s.currentProcess (some x') }, ?_, fun hroom ↦ ?_⟩
  · rw [keyboardPut, bind_run_ok (gets_run _ _), if_neg h.current_ne,
      bind_run_ok (processAt_eq_ok.mpr ⟨h.current_ne, hx, rfl⟩),
      bind_run_ok (ofExcept_eq_ok.mpr ⟨hpush, rfl⟩)]
    rfl
  · exact ⟨h.current_ne, x', update_self _ _ _, hq' hroom⟩

theorem Typing.get (h : Typing s n q) (hn : n ≤ 2 ^ 31) :
    ∃ s', keyboardGet s = .ok (q.headD 0, s') ∧ Typing s' (n + min 1 q.length) q.tail := by
  obtain ⟨x, hx, hq⟩ := h.queue
  obtain ⟨x', hpop, hq'⟩ := pop_run hq hn
  refine ⟨{ s with processes := update s.processes s.currentProcess (some x') }, ?_, ?_⟩
  · rw [keyboardGet, bind_run_ok (gets_run _ _), if_neg h.current_ne,
      bind_run_ok (processAt_eq_ok.mpr ⟨h.current_ne, hx, rfl⟩),
      bind_run_ok (ofExcept_eq_ok.mpr ⟨hpop, rfl⟩)]
    rfl
  · exact ⟨h.current_ne, x', update_self _ _ _, hq'⟩

def RunFits : List KeyOp → KernelState σ δ → Prop
  | [], _ => True
  | op :: ops, s => (∀ x, s.processes s.currentProcess = some x → op.Fits x.keyboardBuf) ∧
      ∀ out t, op.run s = .ok (out, t) → RunFits ops t

theorem nonzero_append (chs chs' : List UInt8) :
    nonzero (chs ++ chs') = nonzero chs ++ nonzero chs' := List.filter_append chs chs'

theorem puts_cons (op : KeyOp) (ops : List KeyOp) :
    nonzero (puts (op :: ops)) = nonzero (puts [op]) ++ nonzero (puts ops) := by
  cases op with
  | put ch => exact nonzero_append [ch] (puts ops)
  | get => rfl

theorem puts_length_le (ops : List KeyOp) : (puts ops).length ≤ ops.length := by
  induction ops with
  | nil => exact Nat.le_refl 0
  | cons op ops ih =>
    cases op with
    | put ch => exact Nat.succ_le_succ ih
    | get => exact Nat.le_succ_of_le ih

theorem keyRun_cons {op : KeyOp} {ops : List KeyOp} {o out : List UInt8} {t u : KernelState σ δ}
    (h₁ : op.run s = .ok (o, t)) (h₂ : keyRun ops t = .ok (out, u)) :
    keyRun (op :: ops) s = .ok (o ++ out, u) := by
  rw [keyRun, bind_run_ok h₁, bind_run_ok h₂]
  rfl

theorem Typing.step (h : Typing s n q) {op : KeyOp}
    (hfit : ∀ x, s.processes s.currentProcess = some x → op.Fits x.keyboardBuf) :
    ∃ out s' n' q', op.run s = .ok (out, s') ∧ Typing s' n' q' ∧
      q ++ nonzero (puts [op]) = nonzero out ++ q' ∧
      n' + q'.length = n + q.length + (nonzero (puts [op])).length := by
  obtain ⟨x, hx, hq⟩ := h.queue
  cases op with
  | put ch =>
    have hroom := hq.fits_put.mp (hfit x hx)
    obtain ⟨s', hrun, hnext⟩ := h.put ch (fun hch ↦ (hroom hch).1)
    refine ⟨[], s', n, q ++ nonzero [ch], ?_, hnext (fun hch ↦ (hroom hch).2), rfl, ?_⟩
    · rw [KeyOp.run, bind_run_ok hrun]
      rfl
    · rw [List.length_append, Nat.add_assoc]
      rfl
  | get =>
    obtain ⟨s', hrun, hnext⟩ := h.get (hq.fits_get.mp (hfit x hx))
    refine ⟨[q.headD 0], s', _, q.tail, ?_, hnext, ?_, ?_⟩
    · rw [KeyOp.run, bind_run_ok hrun]
      rfl
    · cases q with
      | nil => rfl
      | cons c q =>
        have hc : c ≠ 0 := fun hc ↦ hq.ring.not_empty (hc ▸ List.mem_cons_self)
        show c :: q ++ [] = nonzero [c] ++ q
        rw [nonzero, List.filter_cons_of_pos (by simp [hc]), List.append_nil]
        rfl
    · show n + min 1 q.length + q.tail.length = n + q.length + 0
      rw [List.length_tail]
      omega

theorem Typing.run {ops : List KeyOp} (h : Typing s n q) (hfit : RunFits ops s) :
    ∃ out t n' q', keyRun ops s = .ok (out, t) ∧ Typing t n' q' ∧
      q ++ nonzero (puts ops) = nonzero out ++ q' ∧
      n' + q'.length = n + q.length + (nonzero (puts ops)).length := by
  induction ops generalizing s n q with
  | nil => exact ⟨[], s, n, q, rfl, h, List.append_nil q, rfl⟩
  | cons op ops ih =>
    obtain ⟨o, s₁, n₁, q₁, hrun₁, h₁, hout₁, hlen₁⟩ := h.step hfit.1
    obtain ⟨out, t, n', q', hrun, ht, hout, hlen⟩ := ih h₁ (hfit.2 o s₁ hrun₁)
    refine ⟨o ++ out, t, n', q', keyRun_cons hrun₁ hrun, ht, ?_, ?_⟩
    · rw [puts_cons, ← List.append_assoc, hout₁, List.append_assoc, hout, nonzero_append,
        List.append_assoc]
    · rw [puts_cons, List.length_append]
      omega

/-- With fewer than `2 ^ 31` puts, and never more than the buffer holds of
characters that were put and not taken out, every operation finds what it needs. -/
theorem Typing.fits (ops : List KeyOp) (h : Typing s n q)
    (hputs : n + q.length + (puts ops).length < 2 ^ 31)
    (hroom : ∀ pre, pre <+: ops → ∀ out t, keyRun pre s = .ok (out, t) →
      q.length + (nonzero (puts pre)).length ≤ (nonzero out).length + processMaxKeyboardBufferSize) :
    RunFits ops s := by
  induction ops generalizing s n q with
  | nil => trivial
  | cons op ops ih =>
    have hfit : ∀ x, s.processes s.currentProcess = some x → op.Fits x.keyboardBuf := by
      intro x hx
      obtain ⟨y, hy, hq⟩ := h.queue
      cases hx.symm.trans hy
      cases op with
      | put ch =>
        refine hq.fits_put.mpr (fun hch ↦ ⟨by omega, ?_⟩)
        obtain ⟨s', hrun, -⟩ := h.put ch (fun _ ↦ by omega)
        have hput : keyRun [.put ch] s = .ok ([], s') := by
          have hop : (KeyOp.put ch).run s = .ok ([], s') := by
            rw [KeyOp.run, bind_run_ok hrun]
            rfl
          exact keyRun_cons hop rfl
        have hle := hroom [.put ch] (List.prefix_append [.put ch] ops) _ _ hput
        have hone : (nonzero (puts [.put ch])).length = 1 := by
          show (nonzero [ch]).length = 1
          rw [nonzero, List.filter_cons_of_pos (by simp [hch])]
          rfl
        have hnone : (nonzero []).length = 0 := rfl
        omega
      | get => exact hq.fits_get.mpr (by omega)
    refine ⟨hfit, fun o t hrun ↦ ?_⟩
    obtain ⟨o', s₁, n₁, q₁, hrun₁, h₁, hout₁, hlen₁⟩ := h.step hfit
    cases hrun.symm.trans hrun₁
    have hcount : (nonzero (puts [op])).length + (puts ops).length ≤ (puts (op :: ops)).length := by
      cases op with
      | put ch =>
        have hle : (nonzero (puts [.put ch])).length ≤ 1 := List.length_filter_le _ [ch]
        have hcons : (puts (.put ch :: ops)).length = (puts ops).length + 1 := rfl
        omega
      | get =>
        have hzero : (nonzero (puts [.get])).length = 0 := rfl
        have hcons : (puts (.get :: ops)).length = (puts ops).length := rfl
        omega
    refine ih h₁ (by omega) (fun pre hpre out u hpre_run ↦ ?_)
    have hle := hroom (op :: pre) (List.cons_prefix_cons.mpr ⟨rfl, hpre⟩) _ _
      (keyRun_cons hrun₁ hpre_run)
    have hlen := congrArg List.length hout₁
    rw [puts_cons, nonzero_append] at hle
    simp only [List.length_append] at hle hlen
    omega

/-- The keyboard buffer is a queue. What the characters that come out are, and
that the next `keyboard_get` finds none exactly when they are all out, is said
behind any run, and so at each point of one. -/
theorem keyboard_fifo {x : Process} (hcurrent : s.currentProcess ≠ 0)
    (hx : s.processes s.currentProcess = some x) (hempty : x.keyboardBuf.Empty) {ops : List KeyOp}
    (hputs : (puts ops).length < 2 ^ 31)
    (hroom : ∀ pre, pre <+: ops → ∀ out t, keyRun pre s = .ok (out, t) →
      (nonzero (puts pre)).length ≤ (nonzero out).length + processMaxKeyboardBufferSize) :
    ∃ out t, keyRun ops s = .ok (out, t) ∧ nonzero out <+: nonzero (puts ops) ∧
      ∃ ch u, keyboardGet t = .ok (ch, u) ∧ (ch = 0 ↔ nonzero out = nonzero (puts ops)) := by
  have hstart : Typing s 0 [] := ⟨hcurrent, x, hx, .of_empty hempty⟩
  have hfit := hstart.fits ops (by rw [List.length_nil]; omega)
    (fun pre hpre out t hrun ↦ by rw [List.length_nil, Nat.zero_add]; exact hroom pre hpre out t hrun)
  obtain ⟨out, t, n, q, hrun, ht, hout, hlen⟩ := hstart.run hfit
  rw [List.nil_append] at hout
  have hle := List.length_filter_le (fun c ↦ decide (c ≠ 0)) (puts ops)
  obtain ⟨u, hget, -⟩ := ht.get (by unfold nonzero at hlen; simp only [List.length_nil] at hlen; omega)
  refine ⟨out, t, hrun, ⟨q, hout.symm⟩, q.headD 0, u, hget, ?_⟩
  obtain ⟨y, -, hq⟩ := ht.queue
  rw [hout]
  cases q with
  | nil => exact iff_of_true rfl (List.append_nil _).symm
  | cons c q =>
    refine iff_of_false (fun hc ↦ hq.ring.not_empty ?_) (fun he ↦ ?_)
    · exact (show c = 0 from hc) ▸ List.mem_cons_self
    · exact List.cons_ne_nil c q (List.append_right_eq_self.mp he.symm)

theorem typing_idle (b : Arena (KHeap false)) (vspace : ℕ) :
    (idleKernel b vspace).currentProcess ≠ 0 ∧
      (idleKernel b vspace).processes (idleKernel b vspace).currentProcess = some idleProcess ∧
      idleProcess.keyboardBuf.Empty :=
  ⟨Nat.one_ne_zero, rfl, fun _ _ ↦ rfl, rfl, rfl⟩

theorem keyboard_fifo_idle :
    ∃ out t, keyRun [.put 72, .get, .put 105] (idleKernel (freshArena false) 0) = .ok (out, t) ∧
      nonzero out <+: nonzero (puts [.put 72, .get, .put 105]) ∧
      ∃ ch u, keyboardGet t = .ok (ch, u) ∧
        (ch = 0 ↔ nonzero out = nonzero (puts [.put 72, .get, .put 105])) := by
  obtain ⟨hcurrent, hx, hempty⟩ := typing_idle (freshArena false) 0
  refine keyboard_fifo hcurrent hx hempty (by decide) (fun pre hpre out t _ ↦ ?_)
  have hshort := List.length_filter_le (fun c ↦ decide (c ≠ 0)) (puts pre)
  have hputs := puts_length_le pre
  have hle := hpre.length_le
  simp only [List.length_cons, List.length_nil] at hle
  unfold nonzero processMaxKeyboardBufferSize
  omega

/-- While each put finds room, and the counters have not wrapped around, no
access leaves the buffer, and the characters come out in the order they went in. -/
theorem keyboard_ordered {x : Process} (hcurrent : s.currentProcess ≠ 0)
    (hx : s.processes s.currentProcess = some x) (hempty : x.keyboardBuf.Empty) {ops : List KeyOp}
    (hfit : RunFits ops s) :
    ∃ out t, keyRun ops s = .ok (out, t) ∧ (nonzero out).Sublist (puts ops) := by
  have hstart : Typing s 0 [] := ⟨hcurrent, x, hx, .of_empty hempty⟩
  obtain ⟨out, t, n, q, hrun, -, hout, -⟩ := hstart.run hfit
  refine ⟨out, t, hrun, ?_⟩
  have hprefix : nonzero out <+: nonzero (puts ops) := ⟨q, hout.symm⟩
  exact hprefix.sublist.trans List.filter_sublist

theorem keyboard_ordered_idle : ∃ out t,
    keyRun [.put 72, .get] (idleKernel (freshArena false) 0) = .ok (out, t) ∧
      (nonzero out).Sublist (puts [.put 72, .get]) := by
  obtain ⟨hcurrent, hx, hempty⟩ := typing_idle (freshArena false) 0
  have hstart : Typing (idleKernel (freshArena false) 0) 0 [] :=
    ⟨hcurrent, idleProcess, hx, .of_empty hempty⟩
  refine keyboard_ordered hcurrent hx hempty (hstart.fits _ (by decide) (fun pre hpre out t _ ↦ ?_))
  have hshort := List.length_filter_le (fun c ↦ decide (c ≠ 0)) (puts pre)
  have hputs := puts_length_le pre
  have hle := hpre.length_le
  simp only [List.length_cons, List.length_nil] at hle ⊢
  unfold nonzero processMaxKeyboardBufferSize
  omega

/-- The counter behind the wrap names no place of the buffer. -/
theorem wrapped_push {x : Process} (htail : x.keyboardBuf.tail = -2 ^ 31 + 1) (hch : ch ≠ 0) :
    keyboardPushToBuffer x ch = .error .outOfBounds := by
  rw [keyboardPushToBuffer, if_neg hch, htail]
  exact if_neg (by decide)

/-- With one character more than the buffer holds, the last one comes out first. -/
theorem overflow_reorders : ∃ t,
    keyRun (List.replicate processMaxKeyboardBufferSize (.put 1) ++ [.put 2, .get, .get])
      (idleKernel (freshArena false) 0) = .ok ([2, 1], t) ∧
    ¬ (nonzero [2, 1]).Sublist
      (puts (List.replicate processMaxKeyboardBufferSize (.put 1) ++ [.put 2, .get, .get])) := by
  have hpasses : (keyRun (List.replicate processMaxKeyboardBufferSize (.put 1) ++
      [.put 2, .get, .get])).passes (idleKernel (freshArena false) 0)
      (fun out _ ↦ out == [2, 1]) = true := by decide +kernel
  obtain ⟨out, t, hrun, hout⟩ := of_passes hpasses
  rw [beq_iff_eq.mp hout] at hrun
  exact ⟨t, hrun, by decide +kernel⟩

end GammaOS.Kernel
