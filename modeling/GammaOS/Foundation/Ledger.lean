import GammaOS.Foundation.Runs
import Mathlib.Logic.Function.Basic

namespace GammaOS.Foundation

variable {ι : Type} {own own' : ι → List Run} {live live' : List Run} {i j : ι} {r q : Run}
  {rs : List Run}

/-- The live runs that each owner holds. No two of them share a cell. -/
structure Ledger (own : ι → List Run) (live : List Run) : Prop where
  live : ∀ i, ∀ r ∈ own i, r ∈ live
  apart : ∀ i j, i ≠ j → ∀ r ∈ own i, ∀ q ∈ own j, r.Apart q

namespace Ledger

theorem restrict (h : Ledger own live) (hs : ∀ i, own' i ⊆ own i)
    (hl : ∀ i, ∀ r ∈ own' i, r ∈ live') : Ledger own' live' where
  live := hl
  apart i j hij r hr q hq := h.apart i j hij r (hs i hr) q (hs j hq)

theorem replace (h : Ledger own live) (hsame : ∀ j, j ≠ i → own' j = own j)
    (hl : ∀ j, ∀ r ∈ own' j, r ∈ live')
    (hap : ∀ r ∈ own' i, ∀ j, j ≠ i → ∀ q ∈ own j, r.Apart q) : Ledger own' live' where
  live := hl
  apart j k hjk r hr q hq := by
    by_cases hj : j = i
    · have hk : k ≠ i := fun hk ↦ hjk (hj.trans hk.symm)
      rw [hj] at hr
      rw [hsame k hk] at hq
      exact hap r hr k hk q hq
    · rw [hsame j hj] at hr
      by_cases hk : k = i
      · rw [hk] at hq
        exact (hap q hq j hj r hr).symm
      · rw [hsame k hk] at hq
        exact h.apart j k hjk r hr q hq

end Ledger

end GammaOS.Foundation
