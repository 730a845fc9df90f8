import GammaOS.Foundation.ByteMemory
import Mathlib.Logic.Function.Basic

namespace GammaOS.Foundation.ByteMemory

open Function

/-- The memory with the bytes `b 0`, `b 1`, ... stored at `g 0`, `g 1`, ... in turn. -/
def scatter (g : ℕ → ℕ) (b : ℕ → UInt8) : ℕ → ByteMemory → ByteMemory
  | 0, m => m
  | n + 1, m => update (scatter g b n m) (g n) (b n)

/-- Copies bytes one by one, for at most `n` turns and up to the first zero. Each
byte is read and stored where the maps take its place in the memory of that
turn. The result is none when a place has no address. -/
def copyMapped (read write : ByteMemory → ℕ → Option ℕ) :
    ℕ → ℕ → ByteMemory → Option (ℕ × ByteMemory)
  | 0, i, m => some (i, m)
  | n + 1, i, m =>
    (read m i).bind fun p ↦
      if m p = 0 then some (i, m)
      else (write m i).bind fun q ↦ copyMapped read write n (i + 1) (update m q (m p))

variable {g f : ℕ → ℕ} {b : ℕ → UInt8} {m : ByteMemory} {n len a i : ℕ}
  {read write : ByteMemory → ℕ → Option ℕ}

theorem scatter_off (h : ∀ i < n, a ≠ g i) : scatter g b n m a = m a := by
  induction n with
  | zero => rfl
  | succ n ih =>
    rw [scatter, update_of_ne (h n (Nat.lt_succ_self n))]
    exact ih (fun i hi ↦ h i (by omega))

theorem scatter_at (hinj : ∀ i < n, ∀ j < n, g i = g j → i = j) (hi : i < n) :
    scatter g b n m (g i) = b i := by
  induction n with
  | zero => omega
  | succ n ih =>
    rw [scatter]
    rcases Nat.eq_or_lt_of_le (Nat.le_of_lt_succ hi) with rfl | hlt
    · exact update_self _ _ _
    · rw [update_of_ne (fun h ↦ absurd (hinj i hi n (Nat.lt_succ_self n) h) (Nat.ne_of_lt hlt))]
      exact ih (fun i hi j hj ↦ hinj i (by omega) j (by omega)) hlt

theorem scatter_window (p : ℕ) :
    scatter (fun i ↦ p + i) b n m = m.writeBytes p ((List.range n).map b) := by
  funext a
  by_cases ha : p ≤ a ∧ a < p + n
  · obtain ⟨i, rfl⟩ := Nat.exists_eq_add_of_le ha.1
    have hi : i < n := by omega
    rw [writeBytes_inside (by simpa using hi), List.getD_eq_getElem?_getD, List.getElem?_map,
      List.getElem?_range hi]
    exact scatter_at (g := fun i ↦ p + i) (fun i _ j _ h ↦ Nat.add_left_cancel h) hi
  · rw [scatter_off (fun i hi ↦ by omega), writeBytes_outside]
    simp only [List.length_map, List.length_range]
    omega

theorem copyMapped_run (hle : n ≤ len)
    (hread : ∀ k ≤ n, k < len → read (scatter g b k m) k = some (f k))
    (hbyte : ∀ k ≤ n, k < len → scatter g b k m (f k) = b k)
    (hpos : ∀ k < n, b k ≠ 0) (hend : n < len → b n = 0)
    (hwrite : ∀ k < n, write (scatter g b k m) k = some (g k)) :
    copyMapped read write len 0 m = some (n, scatter g b n m) := by
  have hloop : ∀ r k, k ≤ n → k + r = len →
      copyMapped read write r k (scatter g b k m) = some (n, scatter g b n m) := by
    intro r
    induction r with
    | zero =>
      intro k hk hlen
      rw [copyMapped, show k = n by omega]
    | succ r ih =>
      intro k hk hlen
      rw [copyMapped, hread k hk (by omega), Option.bind_some, hbyte k hk (by omega)]
      rcases Nat.eq_or_lt_of_le hk with rfl | hlt
      · rw [if_pos (hend (by omega))]
      · rw [if_neg (hpos k hlt), hwrite k hlt, Option.bind_some]
        exact ih (k + 1) hlt (by omega)
  exact hloop len 0 (Nat.zero_le n) (Nat.zero_add len)

end GammaOS.Foundation.ByteMemory
