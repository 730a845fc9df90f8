import GammaOS.Foundation.Program
import Mathlib.Order.Defs.Unbundled

namespace GammaOS.Foundation.Program

variable {ε σ α β : Type} {R : σ → σ → Prop} {m m' : Program ε σ α}

/-- Every run of the program that returns goes to a state that is related to the
one it began in. -/
def Follows (R : σ → σ → Prop) (m : Program ε σ α) : Prop :=
  ∀ s a t, m s = .ok (a, t) → R s t

namespace Follows

theorem modify {f : σ → σ} (h : ∀ s, R s (f s)) : Follows R (modifyState f : Program ε σ Unit) := by
  intro s _ t ht
  cases ht
  exact h s

theorem ite {c : Prop} [Decidable c] (h : c → Follows R m) (h' : ¬ c → Follows R m') :
    Follows R (if c then m else m') := by
  by_cases hc : c
  · rw [if_pos hc]
    exact h hc
  · rw [if_neg hc]
    exact h' hc

variable [IsPreorder σ R]

theorem pure (a : α) : Follows R (Pure.pure a : Program ε σ α) := by
  intro s b t h
  cases h
  exact refl_of R s

theorem gets (f : σ → α) : Follows R (Program.gets f : Program ε σ α) := by
  intro s b t h
  cases h
  exact refl_of R s

theorem require {c : Prop} [Decidable c] {e : ε} : Follows R (Program.require c e) := by
  intro s _ t h
  obtain ⟨-, rfl⟩ := require_eq_ok.mp h
  exact refl_of R s

theorem bind {f : α → Program ε σ β} (hm : Follows R m) (hf : ∀ a, Follows R (f a)) :
    Follows R (m >>= f) := by
  intro s b u h
  obtain ⟨a, t, h₁, h₂⟩ := bind_eq_ok.mp h
  exact trans_of R (hm s a t h₁) (hf a t b u h₂)

end Follows

end GammaOS.Foundation.Program
