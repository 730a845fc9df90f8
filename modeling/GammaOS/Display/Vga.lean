import GammaOS.Machine
import Mathlib.Logic.Function.Basic

namespace GammaOS.Display

open Function

def vgaWidth : ℕ := 80
def vgaHeight : ℕ := 80

def asciiBackspace : UInt8 := 0x08
def asciiReturn : UInt8 := 0xA

/-- The text buffer with the cursor. `writes` is a ghost: where the cursor was
at each write to the buffer, latest first. -/
structure Vga where
  cells : ℕ → UInt16
  cursorX : ℕ
  cursorY : ℕ
  writes : List (ℕ × ℕ)

def vgaInit (cells : ℕ → UInt16) : Vga := ⟨cells, 0, 0, []⟩

/-- The signed character is extended to an `int`, and the result cut to 16 bits. -/
def kmakeChar (c color : UInt8) : UInt16 :=
  UInt16.ofNat (2 ^ 8 * color.toNat ||| ofInt32 c.toInt8.toInt)

def kreturn (s : Vga) : Vga := { s with cursorX := 0, cursorY := u8 (s.cursorY + 1) }

/-- The write to the buffer in `kputchar` and `kprintf_wc`, with the wrap behind it. -/
def kwrite (c color : UInt8) (s : Vga) : Vga :=
  let s := { s with
    cells := update s.cells (s.cursorY * vgaWidth + s.cursorX) (kmakeChar c color)
    cursorX := u8 (s.cursorX + 1)
    writes := (s.cursorX, s.cursorY) :: s.writes }
  if s.cursorX = vgaWidth then kreturn s else s

/-- The column to the left: a remainder that truncates, made positive. -/
def columnBefore (x : ℕ) : ℕ :=
  (Int.tmod (Int.tmod ((x : ℤ) - 1) vgaWidth + vgaWidth) vgaWidth).toNat

/-- Its `kputchar(' ')` comes to the write. -/
def kbackspace (s : Vga) : Vga :=
  if s.cursorX = 0 ∧ s.cursorY = 0 then s
  else
    let s := if s.cursorX = 0 then { s with cursorY := u8 (s.cursorY + 2 ^ 8 - 1) } else s
    let s := kwrite 32 0xf { s with cursorX := columnBefore s.cursorX }
    { s with cursorX := columnBefore s.cursorX }

def kputchar (c : UInt8) (s : Vga) : Vga :=
  if c = asciiBackspace then kbackspace s
  else if c = asciiReturn then kreturn s
  else kwrite c 0xf s

def kputsLoop : List UInt8 → ℕ → Vga → ℕ × Vga
  | [], strpos, s => (strpos, s)
  | c :: str, strpos, s =>
    if c = 0 then (strpos, s)
    else if c = asciiReturn then
      kputsLoop str (u32 (strpos + 1)) { s with cursorX := 0, cursorY := u8 (s.cursorY + 1) }
    else kputsLoop str (u32 (strpos + 1)) (kputchar c s)

def kputs (str : List UInt8) (s : Vga) : ℕ × Vga := kputsLoop str 0 s

def kprintfLoop (color : UInt8) : List UInt8 → ℕ → Vga → ℕ × Vga
  | [], strlen, s => (strlen, s)
  | c :: str, strlen, s =>
    if c = 0 then (strlen, s)
    else if c = asciiReturn then
      kprintfLoop color str (u32 (strlen + 1)) { s with cursorX := 0, cursorY := u8 (s.cursorY + 1) }
    else kprintfLoop color str (u32 (strlen + 1)) (kwrite c color s)

def kprintfWc (str : List UInt8) (color : UInt8) (s : Vga) : ℕ × Vga := kprintfLoop color str 0 s

structure Vga.OnScreen (s : Vga) : Prop where
  column : s.cursorX < vgaWidth
  row : s.cursorY < vgaHeight

def Vga.position (s : Vga) : ℕ := s.cursorY * vgaWidth + s.cursorX

variable {s : Vga} {c color : UInt8}

theorem columnBefore_zero : columnBefore 0 = vgaWidth - 1 := by decide

theorem columnBefore_pos {x : ℕ} (h₀ : 0 < x) (h : x < vgaWidth) : columnBefore x = x - 1 := by
  unfold vgaWidth at h
  have hinner : Int.tmod ((x : ℤ) - 1) 80 = x - 1 := Int.tmod_eq_of_lt (by omega) (by omega)
  unfold columnBefore vgaWidth
  push_cast
  rw [hinner, Int.tmod_eq_emod_of_nonneg (by omega)]
  omega

theorem kwrite_cells (c color : UInt8) (s : Vga) :
    (kwrite c color s).cells = update s.cells s.position (kmakeChar c color) := by
  unfold kwrite
  dsimp only
  split <;> rfl

theorem kwrite_writes (c color : UInt8) (s : Vga) :
    (kwrite c color s).writes = (s.cursorX, s.cursorY) :: s.writes := by
  unfold kwrite
  dsimp only
  split <;> rfl

theorem kwrite_inside (c color : UInt8) (h : s.cursorX + 1 < vgaWidth) :
    (kwrite c color s).cursorX = s.cursorX + 1 ∧ (kwrite c color s).cursorY = s.cursorY := by
  have hx : u8 (s.cursorX + 1) = s.cursorX + 1 := u8_of_lt (Nat.lt_trans h (by decide))
  unfold kwrite
  dsimp only
  rw [hx, if_neg (Nat.ne_of_lt h)]
  exact ⟨rfl, rfl⟩

theorem kwrite_last (c color : UInt8) (h : s.cursorX + 1 = vgaWidth) :
    (kwrite c color s).cursorX = 0 ∧ (kwrite c color s).cursorY = u8 (s.cursorY + 1) := by
  have hx : u8 (s.cursorX + 1) = vgaWidth := by
    rw [h]
    decide
  unfold kwrite
  dsimp only
  rw [if_pos hx]
  exact ⟨rfl, rfl⟩

theorem kbackspace_inside (h₀ : 0 < s.cursorX) (h : s.cursorX < vgaWidth) :
    (kbackspace s).cursorX = s.cursorX - 1 ∧ (kbackspace s).cursorY = s.cursorY ∧
      (kbackspace s).cells = update s.cells (s.position - 1) (kmakeChar 32 0xf) ∧
      (kbackspace s).writes = (s.cursorX - 1, s.cursorY) :: s.writes := by
  have hx : columnBefore s.cursorX = s.cursorX - 1 := columnBefore_pos h₀ h
  have hback : kbackspace s =
      { kwrite 32 0xf { s with cursorX := s.cursorX - 1 } with
        cursorX := columnBefore (kwrite 32 0xf { s with cursorX := s.cursorX - 1 }).cursorX } := by
    rw [kbackspace, if_neg (fun hc ↦ Nat.ne_of_gt h₀ hc.1), if_neg (Nat.ne_of_gt h₀), ← hx]
  generalize hs : { s with cursorX := s.cursorX - 1 } = t at hback
  have htx : t.cursorX = s.cursorX - 1 := by rw [← hs]
  have hty : t.cursorY = s.cursorY := by rw [← hs]
  have hpos : t.position = s.position - 1 := by
    unfold Vga.position
    rw [htx, hty]
    omega
  obtain ⟨hcol, hrow⟩ := kwrite_inside (s := t) 32 0xf (by omega)
  rw [hback]
  refine ⟨?_, hrow.trans hty, ?_, ?_⟩
  · show columnBefore (kwrite 32 0xf t).cursorX = s.cursorX - 1
    rw [hcol, htx, Nat.sub_add_cancel h₀, hx]
  · show (kwrite 32 0xf t).cells = _
    rw [kwrite_cells, hpos, ← hs]
  · show (kwrite 32 0xf t).writes = _
    rw [kwrite_writes, htx, hty, ← hs]

/-- At the start of a line the space is written in the line before, and its
wrap takes the cursor back to the line it came from. -/
theorem kbackspace_start (h₀ : s.cursorX = 0) (hy : 0 < s.cursorY) (h : s.cursorY < 2 ^ 8) :
    (kbackspace s).cursorX = vgaWidth - 1 ∧ (kbackspace s).cursorY = s.cursorY ∧
      (kbackspace s).writes = (vgaWidth - 1, s.cursorY - 1) :: s.writes := by
  have hup : u8 (s.cursorY + 2 ^ 8 - 1) = s.cursorY - 1 := by
    unfold u8
    omega
  have hback : kbackspace s =
      { kwrite 32 0xf { s with cursorX := vgaWidth - 1, cursorY := s.cursorY - 1 } with
        cursorX := columnBefore
          (kwrite 32 0xf { s with cursorX := vgaWidth - 1, cursorY := s.cursorY - 1 }).cursorX } := by
    rw [kbackspace, if_neg (fun hc ↦ Nat.ne_of_gt hy hc.2), if_pos h₀, hup, ← columnBefore_zero, ← h₀]
  generalize hs : { s with cursorX := vgaWidth - 1, cursorY := s.cursorY - 1 } = t at hback
  have htx : t.cursorX = vgaWidth - 1 := by rw [← hs]
  have hty : t.cursorY = s.cursorY - 1 := by rw [← hs]
  obtain ⟨hcol, hrow⟩ := kwrite_last (s := t) 32 0xf (by rw [htx]; decide)
  rw [hback]
  refine ⟨?_, ?_, ?_⟩
  · show columnBefore (kwrite 32 0xf t).cursorX = vgaWidth - 1
    rw [hcol, columnBefore_zero]
  · show (kwrite 32 0xf t).cursorY = s.cursorY
    rw [hrow, hty, Nat.sub_add_cancel hy, u8_of_lt h]
  · show (kwrite 32 0xf t).writes = _
    rw [kwrite_writes, htx, hty, ← hs]

theorem kbackspace_origin (hx : s.cursorX = 0) (hy : s.cursorY = 0) : kbackspace s = s :=
  if_pos ⟨hx, hy⟩

end GammaOS.Display
