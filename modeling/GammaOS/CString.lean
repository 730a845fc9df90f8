import GammaOS.Foundation.ByteMemory
import GammaOS.Machine

namespace GammaOS

open Foundation

def tolower (c : UInt8) : UInt8 := if 97 ≤ c ∧ c ≤ 122 then c else c + 32

/-- The loop of `strncmp` with `n` characters left to compare, from place `i`
on. Characters compare as signed bytes. -/
def strncmpLoop (s₁ s₂ : ByteMemory) : ℕ → ℕ → ℤ
  | 0, _ => 0
  | n + 1, i =>
    if tolower (s₁ i) = tolower (s₂ i) then strncmpLoop s₁ s₂ n (i + 1)
    else if (s₁ i).toInt8 < (s₂ i).toInt8 then -1 else 1

def strncmp (s₁ s₂ : ByteMemory) (n : ℕ) : ℤ := strncmpLoop s₁ s₂ n 0

def zeroPadded (str : List UInt8) : ByteMemory := fun i ↦ str.getD i 0

end GammaOS
