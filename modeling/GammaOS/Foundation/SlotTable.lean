import Mathlib.Data.Finset.Card
import Mathlib.Data.List.Basic
import Mathlib.Logic.Function.Basic

namespace GammaOS.Foundation

open Function

variable {κ β : Type} {n i j : ℕ} {table : ℕ → Option (κ × β)} {items : List (κ × β)} {x y : κ × β}
  {k : κ}

/-- A table of `n` slots that holds the items of the list, each under its key
and in one slot. -/
structure SlotTable (n : ℕ) (table : ℕ → Option (κ × β)) (items : List (κ × β)) : Prop where
  listed : ∀ i < n, ∀ x, table i = some x → x ∈ items
  placed : ∀ x ∈ items, ∃ i < n, table i = some x
  keyed : ∀ i < n, ∀ j < n, ∀ x y, table i = some x → table j = some y → x.1 = y.1 → i = j

namespace SlotTable

theorem empty (h : ∀ i < n, table i = none) : SlotTable n table [] where
  listed i hi x hx := by
    rw [h i hi] at hx
    cases hx
  placed x hx := nomatch hx
  keyed i hi j hj x y hx hy hk := by
    rw [h i hi] at hx
    cases hx

theorem insert (h : SlotTable n table items) (hi : i < n) (hfree : table i = none)
    (hk : ∀ y ∈ items, y.1 ≠ x.1) : SlotTable n (update table i (some x)) (x :: items) where
  listed j hj y hy := by
    by_cases hji : j = i
    · rw [hji, update_self] at hy
      exact Option.some.inj hy ▸ List.mem_cons_self
    · rw [update_of_ne hji] at hy
      exact List.mem_cons_of_mem _ (h.listed j hj y hy)
  placed y hy := by
    rcases List.mem_cons.mp hy with rfl | hy
    · exact ⟨i, hi, update_self _ _ _⟩
    · obtain ⟨j, hj, hjy⟩ := h.placed y hy
      have hji : j ≠ i := by
        rintro rfl
        cases hfree.symm.trans hjy
      exact ⟨j, hj, (update_of_ne hji _ _).trans hjy⟩
  keyed j hj l hl y z hy hz hkey := by
    by_cases hji : j = i <;> by_cases hli : l = i
    · rw [hji, hli]
    · rw [hji, update_self] at hy
      rw [update_of_ne hli] at hz
      cases hy
      exact absurd hkey.symm (hk z (h.listed l hl z hz))
    · rw [update_of_ne hji] at hy
      rw [hli, update_self] at hz
      cases hz
      exact absurd hkey (hk y (h.listed j hj y hy))
    · rw [update_of_ne hji] at hy
      rw [update_of_ne hli] at hz
      exact h.keyed j hj l hl y z hy hz hkey

theorem erase [DecidableEq κ] (h : SlotTable n table items) (hi : i < n)
    (hx : table i = some x) :
    SlotTable n (update table i none) (items.filter (fun y ↦ decide (y.1 ≠ x.1))) where
  listed j hj y hy := by
    by_cases hji : j = i
    · rw [hji, update_self] at hy
      cases hy
    · rw [update_of_ne hji] at hy
      have hne : y.1 ≠ x.1 := fun hk ↦ hji (h.keyed j hj i hi y x hy hx hk)
      exact List.mem_filter.mpr ⟨h.listed j hj y hy, decide_eq_true hne⟩
  placed y hy := by
    obtain ⟨hy, hne⟩ := List.mem_filter.mp hy
    obtain ⟨j, hj, hjy⟩ := h.placed y hy
    have hji : j ≠ i := by
      rintro rfl
      cases hjy.symm.trans hx
      exact of_decide_eq_true hne rfl
    exact ⟨j, hj, (update_of_ne hji _ _).trans hjy⟩
  keyed j hj l hl y z hy hz hkey := by
    by_cases hji : j = i
    · rw [hji, update_self] at hy
      cases hy
    · by_cases hli : l = i
      · rw [hli, update_self] at hz
        cases hz
      · rw [update_of_ne hji] at hy
        rw [update_of_ne hli] at hz
        exact h.keyed j hj l hl y z hy hz hkey

end SlotTable

section Count

variable {α : Type} {slots : ℕ → Option α} {a : α}

def slotsFilled (n : ℕ) (slots : ℕ → Option α) : ℕ :=
  ((Finset.range n).filter (fun i ↦ (slots i).isSome)).card

theorem slotsFilled_update (hi : i < n) (hfree : slots i = none) :
    slotsFilled n (update slots i (some a)) = slotsFilled n slots + 1 := by
  have hset : (Finset.range n).filter (fun j ↦ (update slots i (some a) j).isSome) =
      insert i ((Finset.range n).filter (fun j ↦ (slots j).isSome)) := by
    ext j
    rw [Finset.mem_insert, Finset.mem_filter, Finset.mem_filter, Finset.mem_range]
    by_cases hj : j = i
    · rw [hj, update_self]
      exact iff_of_true ⟨hi, rfl⟩ (Or.inl rfl)
    · rw [update_of_ne hj, or_iff_right hj]
  rw [slotsFilled, hset, Finset.card_insert_of_notMem, slotsFilled]
  rw [Finset.mem_filter, hfree]
  exact fun h ↦ Bool.false_ne_true h.2

end Count

end GammaOS.Foundation
