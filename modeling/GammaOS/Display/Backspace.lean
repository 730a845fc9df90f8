import GammaOS.Display.Vga
import Mathlib.Logic.Function.Iterate

namespace GammaOS.Display

open Function

def Printable (c : UInt8) : Prop := c ≠ asciiBackspace ∧ c ≠ asciiReturn

def putString (str : List UInt8) (s : Vga) : Vga := str.foldl (fun s c ↦ kputchar c s) s

/-- The cursor is back where it was in `s`, the next `n` cells are blank, and
the others are as they were. -/
structure Undone (s t : Vga) (n : ℕ) : Prop where
  column : t.cursorX = s.cursorX
  row : t.cursorY = s.cursorY
  blank : ∀ i < n, t.cells (s.position + i) = kmakeChar 32 0xf
  others : ∀ a, (a < s.position ∨ s.position + n ≤ a) → t.cells a = s.cells a

variable {s t : Vga} {c : UInt8} {str : List UInt8}

theorem kputchar_printable (h : Printable c) : kputchar c s = kwrite c 0xf s := by
  rw [kputchar, if_neg h.1, if_neg h.2]

theorem kputchar_backspace : kputchar asciiBackspace s = kbackspace s := if_pos rfl

theorem kwrite_next (c color : UInt8) (hx : s.cursorX < vgaWidth) (hy : s.cursorY < vgaHeight) :
    (kwrite c color s).cursorX < vgaWidth ∧ (kwrite c color s).position = s.position + 1 := by
  unfold Vga.position
  by_cases hlast : s.cursorX + 1 = vgaWidth
  · obtain ⟨hcol, hrow⟩ := kwrite_last c color hlast
    rw [hcol, hrow, u8_of_lt (Nat.lt_of_le_of_lt hy (by decide)), Nat.succ_mul]
    exact ⟨by decide, by omega⟩
  · obtain ⟨hcol, hrow⟩ := kwrite_inside (s := s) c color (by omega)
    rw [hcol, hrow]
    exact ⟨by omega, by omega⟩

theorem putString_position (hx : s.cursorX < vgaWidth) (hstr : ∀ c ∈ str, Printable c)
    (hfit : s.position + str.length ≤ vgaWidth * vgaHeight) :
    (putString str s).cursorX < vgaWidth ∧ (putString str s).position = s.position + str.length := by
  induction str generalizing s with
  | nil => exact ⟨hx, rfl⟩
  | cons c str ih =>
    rw [List.length_cons] at hfit ⊢
    have hy : s.cursorY < vgaHeight := by
      unfold Vga.position vgaWidth vgaHeight at *
      omega
    obtain ⟨hx', hpos⟩ := kwrite_next c 0xf hx hy
    have hstep : putString (c :: str) s = putString str (kwrite c 0xf s) :=
      congrArg (putString str) (kputchar_printable (hstr c List.mem_cons_self))
    obtain ⟨hcol, hend⟩ := ih hx' (fun d hd ↦ hstr d (List.mem_cons_of_mem c hd)) (by omega)
    rw [hstep]
    exact ⟨hcol, by omega⟩

theorem kbackspace_row (hx : s.cursorX < vgaWidth) (hy : s.cursorY < 2 ^ 8) :
    (kbackspace s).cursorX < vgaWidth ∧ (kbackspace s).cursorY = s.cursorY := by
  by_cases h₀ : s.cursorX = 0
  · by_cases hy₀ : s.cursorY = 0
    · rw [kbackspace_origin h₀ hy₀]
      exact ⟨hx, rfl⟩
    · obtain ⟨hcol, hrow, -⟩ := kbackspace_start h₀ (Nat.pos_of_ne_zero hy₀) hy
      exact ⟨by rw [hcol]; decide, hrow⟩
  · obtain ⟨hcol, hrow, -⟩ := kbackspace_inside (Nat.pos_of_ne_zero h₀) hx
    exact ⟨by rw [hcol]; omega, hrow⟩

theorem backspaces_row (hx : s.cursorX < vgaWidth) (hy : s.cursorY < 2 ^ 8) (n : ℕ) :
    ((kputchar asciiBackspace)^[n] s).cursorX < vgaWidth ∧
      ((kputchar asciiBackspace)^[n] s).cursorY = s.cursorY := by
  induction n with
  | zero => exact ⟨hx, rfl⟩
  | succ n ih =>
    rw [iterate_succ_apply', kputchar_backspace]
    obtain ⟨hcol, hrow⟩ := kbackspace_row ih.1 (by rw [ih.2]; exact hy)
    exact ⟨hcol, hrow.trans ih.2⟩

theorem Undone.step (hx : s.cursorX + 1 < vgaWidth) {n : ℕ} (h : Undone (kwrite c 0xf s) t n) :
    Undone s (kbackspace t) (n + 1) := by
  obtain ⟨hcol, hrow⟩ := kwrite_inside (s := s) c 0xf hx
  have htx : t.cursorX = s.cursorX + 1 := h.column.trans hcol
  have hty : t.cursorY = s.cursorY := h.row.trans hrow
  have hpos : (kwrite c 0xf s).position = s.position + 1 := by
    unfold Vga.position
    rw [hcol, hrow]
    omega
  have htpos : t.position - 1 = s.position := by
    unfold Vga.position
    rw [htx, hty]
    omega
  obtain ⟨hbcol, hbrow, hbcells, -⟩ := kbackspace_inside (s := t) (by omega) (by omega)
  rw [htpos] at hbcells
  refine ⟨by omega, by omega, fun i hi ↦ ?_, fun a ha ↦ ?_⟩
  · rw [hbcells]
    cases i with
    | zero => exact update_self _ _ _
    | succ i =>
      rw [update_of_ne (by omega)]
      have hblank := h.blank i (by omega)
      rwa [hpos, Nat.add_assoc, Nat.add_comm 1] at hblank
  · rw [hbcells, update_of_ne (by omega), h.others a (by omega), kwrite_cells,
      update_of_ne (by omega)]

theorem undone_inside (hstr : ∀ c ∈ str, Printable c) (hx : s.cursorX + str.length < vgaWidth) :
    Undone s ((kputchar asciiBackspace)^[str.length] (putString str s)) str.length := by
  induction str generalizing s with
  | nil => exact ⟨rfl, rfl, fun i hi ↦ absurd hi (Nat.not_lt_zero i), fun _ _ ↦ rfl⟩
  | cons c str ih =>
    rw [List.length_cons] at hx ⊢
    obtain ⟨hcol, -⟩ := kwrite_inside (s := s) c 0xf (by omega)
    have hstep : putString (c :: str) s = putString str (kwrite c 0xf s) :=
      congrArg (putString str) (kputchar_printable (hstr c List.mem_cons_self))
    rw [hstep, iterate_succ_apply', kputchar_backspace]
    exact (ih (fun d hd ↦ hstr d (List.mem_cons_of_mem c hd)) (by omega)).step (by omega)

/-- Backspaces undo a string exactly when it does not come to the end of its line. -/
theorem backspaces_undo_iff (hs : s.OnScreen) (hstr : ∀ c ∈ str, Printable c)
    (hfit : s.position + str.length ≤ vgaWidth * vgaHeight) :
    Undone s ((kputchar asciiBackspace)^[str.length] (putString str s)) str.length ↔
      s.cursorX + str.length < vgaWidth := by
  refine ⟨fun h ↦ ?_, undone_inside hstr⟩
  by_contra hlong
  obtain ⟨hcol, hpos⟩ := putString_position hs.column hstr hfit
  have hrow : s.cursorY < (putString str s).cursorY ∧ (putString str s).cursorY < 2 ^ 8 := by
    unfold Vga.position vgaWidth vgaHeight at *
    omega
  have hstay := (backspaces_row hcol hrow.2 str.length).2
  rw [h.row] at hstay
  omega

theorem backspaces_undo_iff_word :
    Undone (vgaInit (fun _ ↦ 0))
      ((kputchar asciiBackspace)^[2] (putString [72, 105] (vgaInit (fun _ ↦ 0)))) 2 ↔
    (vgaInit (fun _ ↦ 0)).cursorX + 2 < vgaWidth := by
  have hword : ∀ c ∈ ([72, 105] : List UInt8), Printable c := by
    simp [Printable, asciiBackspace, asciiReturn]
  exact backspaces_undo_iff ⟨by decide, by decide⟩ hword (by decide)

/-- A character in the last column is not undone: the cursor stays in the line below. -/
theorem last_column_not_undone :
    ¬ Undone ⟨fun _ ↦ 0, vgaWidth - 1, 0, []⟩
      ((kputchar asciiBackspace)^[1] (putString [72] ⟨fun _ ↦ 0, vgaWidth - 1, 0, []⟩)) 1 := by
  intro h
  have hrow : ((kputchar asciiBackspace)^[1]
    (putString [72] ⟨fun _ ↦ 0, vgaWidth - 1, 0, []⟩)).cursorY = 1 := by decide
  rw [h.row] at hrow
  exact absurd hrow (by decide)

end GammaOS.Display
