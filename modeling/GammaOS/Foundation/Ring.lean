import Mathlib.Data.List.Basic
import Mathlib.Data.Nat.ModEq
import Mathlib.Logic.Function.Basic

namespace GammaOS.Foundation

open Function

variable {α : Type} {z c : α} {N head : ℕ} {cells : ℕ → α} {q : List α}

/-- A ring of `N` cells holds a queue: its items lie from `head` on, modulo
`N`, and the cells behind them are empty, which is to hold `z`. -/
structure RingHolds (z : α) (N : ℕ) (cells : ℕ → α) (head : ℕ) (q : List α) : Prop where
  length_le : q.length ≤ N
  not_empty : z ∉ q
  cell : ∀ i < N, cells ((head + i) % N) = q.getD i z

theorem mod_add_ne {i j : ℕ} (hi : i < N) (hj : j < N) (h : i ≠ j) :
    (head + i) % N ≠ (head + j) % N := by
  intro he
  have hmod : i % N = j % N := Nat.ModEq.add_left_cancel' head he
  rw [Nat.mod_eq_of_lt hi, Nat.mod_eq_of_lt hj] at hmod
  exact h hmod

namespace RingHolds

theorem empty (h : ∀ i < N, cells i = z) (head : ℕ) : RingHolds z N cells head [] where
  length_le := Nat.zero_le N
  not_empty := List.not_mem_nil
  cell i hi := h _ (Nat.mod_lt _ (Nat.lt_of_le_of_lt (Nat.zero_le i) hi))

theorem head_cell (h : RingHolds z N cells head q) (hN : 0 < N) :
    cells (head % N) = q.getD 0 z :=
  h.cell 0 hN

theorem head_eq_empty (h : RingHolds z N cells head q) (hN : 0 < N) :
    cells (head % N) = z ↔ q = [] := by
  rw [h.head_cell hN]
  cases q with
  | nil => exact iff_of_true rfl rfl
  | cons c q =>
    refine iff_of_false (fun hc ↦ h.not_empty ?_) (List.cons_ne_nil c q)
    exact hc ▸ List.mem_cons_self

theorem tail_eq_empty (h : RingHolds z N cells head q) (hN : 0 < N) :
    cells ((head + q.length) % N) = z ↔ q.length < N := by
  rcases Nat.eq_or_lt_of_le h.length_le with hfull | hroom
  · rw [hfull, Nat.add_mod_right, h.head_eq_empty hN]
    refine iff_of_false ?_ (Nat.lt_irrefl N)
    rintro rfl
    exact Nat.ne_of_lt hN hfull
  · rw [h.cell _ hroom, List.getD_eq_getElem?_getD, List.getElem?_eq_none (Nat.le_refl _)]
    exact iff_of_true rfl hroom

theorem push (h : RingHolds z N cells head q) (hroom : q.length < N) (hc : c ≠ z) :
    RingHolds z N (update cells ((head + q.length) % N) c) head (q ++ [c]) where
  length_le := by
    rw [List.length_append, List.length_singleton]
    exact hroom
  not_empty hm := by
    rcases List.mem_append.mp hm with hm | hm
    · exact h.not_empty hm
    · exact hc (List.mem_singleton.mp hm).symm
  cell i hi := by
    rw [List.getD_eq_getElem?_getD]
    rcases Nat.lt_trichotomy i q.length with hlt | rfl | hgt
    · rw [update_of_ne (mod_add_ne hi hroom (Nat.ne_of_lt hlt)), h.cell i hi,
        List.getElem?_append_left hlt, List.getD_eq_getElem?_getD]
    · rw [update_self, List.getElem?_append_right (Nat.le_refl _), Nat.sub_self]
      rfl
    · rw [update_of_ne (mod_add_ne hi hroom (Nat.ne_of_gt hgt)), h.cell i hi,
        List.getD_eq_getElem?_getD, List.getElem?_eq_none (Nat.le_of_lt hgt),
        List.getElem?_eq_none (by rw [List.length_append]; exact hgt)]

theorem pop (h : RingHolds z N cells head (c :: q)) :
    RingHolds z N (update cells (head % N) z) (head + 1) q where
  length_le := Nat.le_of_succ_le h.length_le
  not_empty hm := h.not_empty (List.mem_cons_of_mem c hm)
  cell i hi := by
    have hN : 0 < N := Nat.lt_of_le_of_lt (Nat.zero_le i) hi
    have hshift : head + 1 + i = head + (i + 1) := by omega
    rw [hshift]
    rcases Nat.eq_or_lt_of_le (show i + 1 ≤ N from hi) with hlast | hlt
    · -- the cell that was freed is the last one of the ring now
      rw [hlast, Nat.add_mod_right, update_self, List.getD_eq_getElem?_getD, List.getElem?_eq_none]
      · rfl
      · have hle := h.length_le
        rw [List.length_cons] at hle
        omega
    · have hne : (head + (i + 1)) % N ≠ head % N :=
        mod_add_ne (j := 0) hlt hN (Nat.succ_ne_zero i)
      rw [update_of_ne hne, h.cell (i + 1) hlt]
      rfl

end RingHolds

end GammaOS.Foundation
