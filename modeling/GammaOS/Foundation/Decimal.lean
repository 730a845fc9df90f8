import Mathlib.Algebra.Group.Int.Defs
import Mathlib.Algebra.Group.Nat.Defs
import Mathlib.Data.Nat.Init
import Mathlib.Tactic.Common

namespace GammaOS.Foundation

def charByte (c : Char) : UInt8 := UInt8.ofNat c.toNat

def decimal (z : ℤ) : List UInt8 := z.repr.toList.map charByte

def natDecimal (n : ℕ) : List UInt8 := (Nat.toDigits 10 n).map charByte

def digitByte (d : ℕ) : UInt8 := UInt8.ofNat (48 + d)

variable {n k : ℕ}

theorem charByte_digitChar (h : n < 10) : charByte n.digitChar = digitByte n := by
  rw [charByte, digitByte, Nat.toNat_digitChar_of_lt_ten h]

theorem digitByte_ne_zero (h : n < 10) : digitByte n ≠ 0 := by
  intro h0
  have htoNat := congrArg UInt8.toNat h0
  rw [digitByte, UInt8.toNat_ofNat', UInt8.toNat_zero] at htoNat
  omega

theorem decimal_natCast (n : ℕ) : decimal n = natDecimal n := by
  rw [decimal, natDecimal, Int.repr_eq_if, if_pos (Int.natCast_nonneg n), Int.toNat_natCast,
    Nat.toList_repr]

theorem decimal_ne_nil (z : ℤ) : decimal z ≠ [] := by
  rw [decimal, Int.repr_eq_if]
  split
  · simp
  · simp

theorem natDecimal_of_lt (h : n < 10) : natDecimal n = [digitByte n] := by
  rw [natDecimal, Nat.toDigits_of_lt_base h, List.map_singleton, charByte_digitChar h]

theorem natDecimal_of_le (h : 10 ≤ n) : natDecimal n = natDecimal (n / 10) ++ [digitByte (n % 10)] := by
  rw [natDecimal, natDecimal, Nat.toDigits_of_base_le (by decide) h, List.map_append,
    List.map_singleton, charByte_digitChar (Nat.mod_lt n (by decide))]

theorem natDecimal_length_le (hk : 0 < k) (h : n < 10 ^ k) : (natDecimal n).length ≤ k := by
  rw [natDecimal, List.length_map]
  exact (Nat.length_toDigits_le_iff (by decide) hk).mpr h

theorem natDecimal_no_zero (n : ℕ) : 0 ∉ natDecimal n := by
  induction n using Nat.strongRecOn with
  | _ n ih =>
    rcases Nat.lt_or_ge n 10 with h | h
    · rw [natDecimal_of_lt h, List.mem_singleton]
      exact (digitByte_ne_zero h).symm
    · rw [natDecimal_of_le h, List.mem_append, List.mem_singleton]
      rintro (h0 | h0)
      · exact ih _ (Nat.div_lt_self (by omega) (by decide)) h0
      · exact digitByte_ne_zero (Nat.mod_lt n (by decide)) h0.symm

end GammaOS.Foundation
