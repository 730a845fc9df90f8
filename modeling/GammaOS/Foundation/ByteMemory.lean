import Mathlib.Logic.Basic
import Mathlib.Tactic.Common
import Mathlib.Tactic.IntervalCases

namespace GammaOS.Foundation

abbrev ByteMemory := ℕ → UInt8

namespace ByteMemory

/-- The little-endian value of the two bytes at `a`. -/
def load16 (m : ByteMemory) (a : ℕ) : ℕ := (m a).toNat + 2 ^ 8 * (m (a + 1)).toNat

def load32 (m : ByteMemory) (a : ℕ) : ℕ := load16 m a + 2 ^ 16 * load16 m (a + 2)

def store32 (m : ByteMemory) (a v : ℕ) : ByteMemory := fun i ↦
  if a ≤ i ∧ i < a + 4 then UInt8.ofNat (v / 256 ^ (i - a)) else m i

def fill (m : ByteMemory) (a n : ℕ) (b : UInt8) : ByteMemory := fun i ↦
  if a ≤ i ∧ i < a + n then b else m i

def writeBytes (m : ByteMemory) (a : ℕ) (bytes : List UInt8) : ByteMemory := fun i ↦
  if a ≤ i ∧ i < a + bytes.length then bytes.getD (i - a) 0 else m i

variable {m m' : ByteMemory} {a b n v : ℕ}

theorem load16_lt (m : ByteMemory) (a : ℕ) : load16 m a < 2 ^ 16 := by
  have h₀ := (m a).toNat_lt
  have h₁ := (m (a + 1)).toNat_lt
  unfold load16
  omega

theorem load32_lt (m : ByteMemory) (a : ℕ) : load32 m a < 2 ^ 32 := by
  have h₀ := load16_lt m a
  have h₁ := load16_lt m (a + 2)
  unfold load32
  omega

theorem load32_congr (h : ∀ i, a ≤ i → i < a + 4 → m' i = m i) : load32 m' a = load32 m a := by
  unfold load32 load16
  rw [h a (by omega) (by omega), h (a + 1) (by omega) (by omega), h (a + 2) (by omega) (by omega),
    h (a + 2 + 1) (by omega) (by omega)]

theorem store32_outside {i : ℕ} (h : i < a ∨ a + 4 ≤ i) : store32 m a v i = m i :=
  if_neg (by omega)

theorem fill_outside {i : ℕ} {c : UInt8} (h : i < a ∨ a + n ≤ i) : fill m a n c i = m i :=
  if_neg (by omega)

theorem writeBytes_outside {bytes : List UInt8} {i : ℕ} (h : i < a ∨ a + bytes.length ≤ i) :
    writeBytes m a bytes i = m i :=
  if_neg (by omega)

theorem writeBytes_inside {bytes : List UInt8} {i : ℕ} (h : i < bytes.length) :
    writeBytes m a bytes (a + i) = bytes.getD i 0 := by
  rw [writeBytes, if_pos (by omega), Nat.add_sub_cancel_left]

theorem load32_store32_self (h : v < 2 ^ 32) : load32 (store32 m a v) a = v := by
  have hbyte : ∀ k < 4, (store32 m a v (a + k)).toNat = v / 256 ^ k % 256 := by
    intro k hk
    rw [store32, if_pos (by omega), Nat.add_sub_cancel_left]
    exact UInt8.toNat_ofNat
  have h₀ := hbyte 0 (by omega)
  have h₁ := hbyte 1 (by omega)
  have h₂ := hbyte 2 (by omega)
  have h₃ := hbyte 3 (by omega)
  rw [Nat.add_zero] at h₀
  unfold load32 load16
  rw [h₀, h₁, h₂, h₃]
  omega

theorem store32_load32 {i : ℕ} (h₁ : a ≤ i) (h₂ : i < a + 4) :
    store32 m' a (load32 m a) i = m i := by
  have hbyte : ∀ k < 4, load32 m a / 256 ^ k % 256 = (m (a + k)).toNat := by
    intro k hk
    have h₀ := (m a).toNat_lt
    have h₁ := (m (a + 1)).toNat_lt
    have h₂ := (m (a + 2)).toNat_lt
    have h₃ := (m (a + 2 + 1)).toNat_lt
    unfold load32 load16
    interval_cases k
    · change _ = (m a).toNat
      omega
    · omega
    · omega
    · change _ = (m (a + 2 + 1)).toNat
      omega
  rw [store32, if_pos ⟨h₁, h₂⟩]
  refine UInt8.toNat_inj.mp ?_
  rw [UInt8.toNat_ofNat', hbyte (i - a) (by omega), Nat.add_sub_cancel' h₁]

theorem byte_eq {k : ℕ} (h : k < 4) : m (a + k) = UInt8.ofNat (load32 m a / 256 ^ k) := by
  have h₁ : store32 m a (load32 m a) (a + k) = m (a + k) :=
    store32_load32 (Nat.le_add_right a k) (Nat.add_lt_add_left h a)
  rw [← h₁, store32, if_pos ⟨Nat.le_add_right a k, Nat.add_lt_add_left h a⟩, Nat.add_sub_cancel_left]

theorem load32_store32_other (h : b + 4 ≤ a ∨ a + 4 ≤ b) :
    load32 (store32 m a v) b = load32 m b :=
  load32_congr (fun i hi hi' ↦ store32_outside (by omega))

end ByteMemory

end GammaOS.Foundation
