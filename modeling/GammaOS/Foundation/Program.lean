import Mathlib.Logic.Basic

namespace GammaOS.Foundation

/-- A program over a state of type `σ`. It returns a value with the next
state, or it stops with a fault and no next state. -/
def Program (ε σ α : Type) := σ → Except ε (α × σ)

namespace Program

variable {ε σ τ α β : Type}

instance : Monad (Program ε σ) where
  pure a := fun s ↦ .ok (a, s)
  bind m f := fun s ↦
    match m s with
    | .ok (a, t) => f a t
    | .error e => .error e

def getState : Program ε σ σ := fun s ↦ .ok (s, s)

def gets (f : σ → α) : Program ε σ α := fun s ↦ .ok (f s, s)

def modifyState (f : σ → σ) : Program ε σ Unit := fun s ↦ .ok ((), f s)

def fault (e : ε) : Program ε σ α := fun _ ↦ .error e

def require (c : Prop) [Decidable c] (e : ε) : Program ε σ Unit :=
  if c then pure () else fault e

def ofExcept (x : Except ε α) : Program ε σ α := fun s ↦
  match x with
  | .ok a => .ok (a, s)
  | .error e => .error e

def onPart (view : τ → σ) (put : σ → τ → τ) (m : Program ε σ α) : Program ε τ α := fun t ↦
  match m (view t) with
  | .ok (a, s) => .ok (a, put s t)
  | .error e => .error e

@[simp] theorem pure_run (a : α) (s : σ) : (pure a : Program ε σ α) s = .ok (a, s) := rfl

@[simp] theorem getState_run (s : σ) : (getState : Program ε σ σ) s = .ok (s, s) := rfl

@[simp] theorem gets_run (f : σ → α) (s : σ) : (gets f : Program ε σ α) s = .ok (f s, s) := rfl

@[simp] theorem modifyState_run (f : σ → σ) (s : σ) :
    (modifyState f : Program ε σ Unit) s = .ok ((), f s) := rfl

@[simp] theorem fault_run (e : ε) (s : σ) : (fault e : Program ε σ α) s = .error e := rfl

theorem bind_run_ok {m : Program ε σ α} {f : α → Program ε σ β} {s t : σ} {a : α}
    (h : m s = .ok (a, t)) : (m >>= f) s = f a t := by
  change (match m s with | .ok (a, t) => f a t | .error e => .error e) = _
  rw [h]

theorem bind_run_error {m : Program ε σ α} {f : α → Program ε σ β} {s : σ} {e : ε}
    (h : m s = .error e) : (m >>= f) s = .error e := by
  change (match m s with | .ok (a, t) => f a t | .error e => .error e) = _
  rw [h]

instance : LawfulMonad (Program ε σ) := by
  refine LawfulMonad.mk' _ (fun m ↦ ?_) (fun _ _ ↦ rfl) (fun m f g ↦ ?_)
  · funext s
    cases h : m s with
    | ok p => exact bind_run_ok h
    | error e => exact bind_run_error h
  · funext s
    cases h : m s with
    | ok p =>
      rw [bind_run_ok h]
      change (match (m >>= f) s with | .ok (a, t) => g a t | .error e => .error e) = _
      rw [bind_run_ok h]
      rfl
    | error e => rw [bind_run_error h, bind_run_error (bind_run_error h)]

theorem bind_eq_ok {m : Program ε σ α} {f : α → Program ε σ β} {s u : σ} {b : β} :
    (m >>= f) s = .ok (b, u) ↔ ∃ a t, m s = .ok (a, t) ∧ f a t = .ok (b, u) := by
  cases h : m s with
  | error e => simp [bind_run_error h]
  | ok p =>
    obtain ⟨a, t⟩ := p
    rw [bind_run_ok h]
    constructor
    · intro hf
      exact ⟨a, t, rfl, hf⟩
    · rintro ⟨a', t', he, hf⟩
      cases he
      exact hf

theorem require_run {c : Prop} [Decidable c] {e : ε} {s : σ} (hc : c) :
    (require c e : Program ε σ Unit) s = .ok ((), s) := by
  simp [require, hc]

theorem require_error {c : Prop} [Decidable c] {e : ε} {s : σ} (hc : ¬ c) :
    (require c e : Program ε σ Unit) s = .error e := by
  simp [require, hc]

theorem require_eq_ok {c : Prop} [Decidable c] {e : ε} {s t : σ} :
    (require c e : Program ε σ Unit) s = .ok ((), t) ↔ c ∧ s = t := by
  by_cases hc : c <;> simp [require, hc]

theorem ofExcept_eq_ok {x : Except ε α} {s t : σ} {a : α} :
    (ofExcept x : Program ε σ α) s = .ok (a, t) ↔ x = .ok a ∧ s = t := by
  cases x <;> simp [ofExcept]

theorem onPart_eq_ok {view : τ → σ} {put : σ → τ → τ} {m : Program ε σ α} {t u : τ} {a : α} :
    onPart view put m t = .ok (a, u) ↔ ∃ s, m (view t) = .ok (a, s) ∧ u = put s t := by
  unfold onPart
  cases h : m (view t) with
  | error e => simp
  | ok p => obtain ⟨b, s⟩ := p; grind

def passes (m : Program ε σ α) (s : σ) (test : α → σ → Bool) : Bool :=
  match m s with
  | .ok (a, t) => test a t
  | .error _ => false

theorem of_passes {m : Program ε σ α} {s : σ} {test : α → σ → Bool} (h : m.passes s test = true) :
    ∃ a t, m s = .ok (a, t) ∧ test a t = true := by
  unfold passes at h
  cases hm : m s with
  | error e => simp [hm] at h
  | ok p =>
    obtain ⟨a, t⟩ := p
    exact ⟨a, t, rfl, by simpa only [hm] using h⟩

/-- Partial correctness: from a state with `P`, a run that returns ends with `Q`. -/
def Triple (P : σ → Prop) (m : Program ε σ α) (Q : α → σ → Prop) : Prop :=
  ∀ s, P s → ∀ a t, m s = .ok (a, t) → Q a t

variable {P R : σ → Prop} {Q : α → σ → Prop}

theorem Triple.pure {a : α} (h : ∀ s, P s → Q a s) : Triple (ε := ε) P (pure a) Q := by
  intro s hs b t he
  cases he
  exact h s hs

theorem Triple.bind {m : Program ε σ α} {f : α → Program ε σ β} {Q' : β → σ → Prop}
    (hm : Triple P m Q) (hf : ∀ a, Triple (Q a) (f a) Q') : Triple P (m >>= f) Q' := by
  intro s hs b u he
  obtain ⟨a, t, h, h'⟩ := bind_eq_ok.mp he
  exact hf a t (hm s hs a t h) b u h'

theorem Triple.fault {e : ε} : Triple P (fault e : Program ε σ α) Q := by
  intro s hs a t he
  cases he

theorem Triple.weaken {m : Program ε σ α} {P' : σ → Prop} {Q' : α → σ → Prop}
    (h : Triple P m Q) (hP : ∀ s, P' s → P s) (hQ : ∀ a s, Q a s → Q' a s) : Triple P' m Q' :=
  fun s hs a t he ↦ hQ a t (h s (hP s hs) a t he)

theorem Triple.read {f : σ → β} {m : β → Program ε σ α}
    (h : ∀ b, Triple (fun s ↦ P s ∧ f s = b) (m b) Q) : Triple P (Program.gets f >>= m) Q := by
  intro s hs a t he
  obtain ⟨b, u, h₁, h₂⟩ := bind_eq_ok.mp he
  cases h₁
  exact h _ s ⟨hs, rfl⟩ a t h₂

theorem Triple.modify {f : σ → σ} {Q : Unit → σ → Prop} (h : ∀ s, P s → Q () (f s)) :
    Triple (ε := ε) P (modifyState f) Q := by
  intro s hs a t he
  cases he
  exact h s hs

theorem Triple.ofExcept {x : Except ε α} (h : ∀ a, x = .ok a → ∀ s, P s → Q a s) :
    Triple P (ofExcept x) Q := by
  intro s hs a t he
  obtain ⟨hx, rfl⟩ := ofExcept_eq_ok.mp he
  exact h a hx s hs

theorem Triple.ite {c : Prop} [Decidable c] {m m' : Program ε σ α}
    (h : c → Triple P m Q) (h' : ¬ c → Triple P m' Q) : Triple P (if c then m else m') Q := by
  split
  · exact h ‹_›
  · exact h' ‹_›

theorem Triple.guard {c : Prop} [Decidable c] {e : ε} {m : Program ε σ α}
    (h : c → Triple P m Q) : Triple P (Program.require c e >>= fun _ ↦ m) Q := by
  intro s hs a t he
  obtain ⟨_, u, h₁, h₂⟩ := bind_eq_ok.mp he
  obtain ⟨hc, rfl⟩ := require_eq_ok.mp h₁
  exact h hc s hs a t h₂

/-- Total correctness: from a state with `P` the program returns, and ends with `Q`. -/
def Total (P : σ → Prop) (m : Program ε σ α) (Q : α → σ → Prop) : Prop :=
  ∀ s, P s → ∃ a t, m s = .ok (a, t) ∧ Q a t

theorem Total.pure {a : α} (h : ∀ s, P s → Q a s) : Total (ε := ε) P (pure a) Q :=
  fun s hs ↦ ⟨a, s, rfl, h s hs⟩

theorem Total.bind {m : Program ε σ α} {f : α → Program ε σ β} {Q' : β → σ → Prop}
    (hm : Total P m Q) (hf : ∀ a, Total (Q a) (f a) Q') : Total P (m >>= f) Q' := by
  intro s hs
  obtain ⟨a, t, h, ht⟩ := hm s hs
  obtain ⟨b, u, h', hu⟩ := hf a t ht
  exact ⟨b, u, bind_eq_ok.mpr ⟨a, t, h, h'⟩, hu⟩

theorem Total.weaken {m : Program ε σ α} {P' : σ → Prop} {Q' : α → σ → Prop}
    (h : Total P m Q) (hP : ∀ s, P' s → P s) (hQ : ∀ a s, Q a s → Q' a s) : Total P' m Q' := by
  intro s hs
  obtain ⟨a, t, h, ht⟩ := h s (hP s hs)
  exact ⟨a, t, h, hQ a t ht⟩

theorem Total.modify {f : σ → σ} {Q : Unit → σ → Prop} (h : ∀ s, P s → Q () (f s)) :
    Total (ε := ε) P (modifyState f) Q :=
  fun s hs ↦ ⟨(), f s, rfl, h s hs⟩

theorem Total.require {c : Prop} [Decidable c] {e : ε} {Q : Unit → σ → Prop}
    (h : ∀ s, P s → c ∧ Q () s) : Total P (require c e) Q :=
  fun s hs ↦ ⟨(), s, require_run (h s hs).1, (h s hs).2⟩

def Avoids (e : ε) (m : Program ε σ α) : Prop := ∀ s, m s ≠ .error e

variable {e : ε} {m : Program ε σ α}

theorem Avoids.pure {a : α} : Avoids e (pure a : Program ε σ α) := fun _ h ↦ nomatch h

theorem Avoids.modify {f : σ → σ} : Avoids e (modifyState f) := fun _ h ↦ nomatch h

theorem Avoids.fault {e' : ε} (h : e' ≠ e) : Avoids e (fault e' : Program ε σ α) :=
  fun _ he ↦ h (Except.error.inj he)

theorem Avoids.bind {f : α → Program ε σ β} (hm : Avoids e m) (hf : ∀ a, Avoids e (f a)) :
    Avoids e (m >>= f) := by
  intro s h
  cases hs : m s with
  | error e' =>
    rw [bind_run_error hs] at h
    exact hm s (hs.trans (congrArg Except.error (Except.error.inj h)))
  | ok p =>
    rw [bind_run_ok hs] at h
    exact hf p.1 p.2 h

theorem Avoids.ite {c : Prop} [Decidable c] {m' : Program ε σ α} (h : c → Avoids e m)
    (h' : ¬ c → Avoids e m') : Avoids e (if c then m else m') := by
  split
  · exact h ‹_›
  · exact h' ‹_›

theorem Avoids.require {c : Prop} [Decidable c] {e' : ε} (h : e' ≠ e) :
    Avoids e (require c e' : Program ε σ Unit) :=
  Avoids.ite (fun _ ↦ Avoids.pure) (fun _ ↦ Avoids.fault h)

theorem Avoids.ofExcept {x : Except ε α} (h : x ≠ .error e) :
    Avoids e (ofExcept x : Program ε σ α) := by
  intro s hs
  cases x with
  | error e' => exact h (congrArg Except.error (Except.error.inj hs))
  | ok a => cases hs

theorem Avoids.onPart {view : τ → σ} {put : σ → τ → τ} (h : Avoids e m) :
    Avoids e (onPart view put m) := by
  intro t ht
  unfold Program.onPart at ht
  cases hm : m (view t) with
  | error e' =>
    rw [hm] at ht
    exact h _ (hm.trans (congrArg Except.error (Except.error.inj ht)))
  | ok p =>
    rw [hm] at ht
    cases ht

end Program

end GammaOS.Foundation
