import GammaOS.Foundation.ByteString
import GammaOS.Memory.Arena

namespace GammaOS.Memory

open Function Foundation ByteMemory

/-! `strlen` and `strcpy`, byte by byte. There are `2 ^ 32` places for a byte: a
loop that has come to no zero at any of them goes on forever. -/

def strlen {σ : Type} (str : ℕ) : ArenaM σ ℕ := fun s ↦
  match countLoop (fun c ↦ decide (c ≠ 0)) s.mem str (2 ^ 32) 0 with
  | none => .error .loop
  | some n => .ok (n, s)

def strcpy {σ : Type} (tgt src : ℕ) : ArenaM σ Unit := fun s ↦
  match copyLoop (fun c ↦ decide (c ≠ 0)) tgt src (2 ^ 32) 0 s.mem with
  | none => .error .loop
  | some (m, n) => .ok ((), { s with mem := update m (tgt + n) 0 })

variable {σ : Type} {s : Arena σ} {m : ByteMemory} {a tgt src : ℕ} {str : List UInt8}

theorem strlen_run (h : IsString s.mem a str) (hlen : str.length < 2 ^ 32) :
    strlen a s = .ok (str.length, s) := by
  have hcount := h.count (p := fun c ↦ decide (c ≠ 0)) (by decide) hlen
  rw [h.takeWhile_self] at hcount
  rw [strlen, hcount]

theorem strcpy_run (tgt : ℕ) (h : IsString s.mem src str) (hlen : str.length < 2 ^ 32)
    (happ : tgt + str.length ≤ src ∨ src + str.length < tgt) :
    strcpy tgt src s = .ok ((), { s with mem := s.mem.writeBytes tgt (str ++ [0]) }) := by
  have hcopy := h.copy (p := fun c ↦ decide (c ≠ 0)) tgt (2 ^ 32) (by decide)
  rw [h.takeWhile_self] at hcopy
  rw [strcpy, hcopy happ hlen]
  dsimp only
  rw [writeBytes_concat]

end GammaOS.Memory
