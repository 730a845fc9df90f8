import GammaOS.Display.Vga
import Mathlib.Algebra.Order.Group.Nat

namespace GammaOS.Display

inductive Printed
  | char (c : UInt8)
  | colored (c color : UInt8)

def Printed.step : Printed → Vga → Vga
  | char c, s => kputchar c s
  | colored c color, s => if c = asciiReturn then kreturn s else kwrite c color s

def printAll (ps : List Printed) (s : Vga) : Vga := ps.foldl (fun s p ↦ p.step s) s

inductive PrintCall
  | kputchar (c : UInt8)
  | kputs (str : List UInt8)
  | kprintfWc (str : List UInt8) (color : UInt8)

def PrintCall.run : PrintCall → Vga → Vga
  | kputchar c, s => Display.kputchar c s
  | kputs str, s => (Display.kputs str s).2
  | kprintfWc str color, s => (Display.kprintfWc str color s).2

def cString (str : List UInt8) : List UInt8 := str.takeWhile (fun c ↦ decide (c ≠ 0))

def PrintCall.chars : PrintCall → List Printed
  | kputchar c => [.char c]
  | kputs str => (cString str).map .char
  | kprintfWc str color => (cString str).map (fun c ↦ .colored c color)

def runCalls (calls : List PrintCall) (s : Vga) : Vga := calls.foldl (fun s c ↦ c.run s) s

def Printed.EndsLine : Printed → Vga → Prop
  | char c, s => c = asciiReturn ∨ c ≠ asciiBackspace ∧ s.cursorX + 1 = vgaWidth
  | colored c _, s => c = asciiReturn ∨ s.cursorX + 1 = vgaWidth

def KeepsLastLine : List Printed → Vga → Prop
  | [], _ => True
  | p :: ps, s => (p.EndsLine s → s.cursorY + 1 < vgaHeight) ∧ KeepsLastLine ps (p.step s)

/-- The cursor is on the screen, and was so at each write. -/
structure Vga.Tidy (s : Vga) : Prop extends s.OnScreen where
  writes : ∀ w ∈ s.writes, w.1 < vgaWidth ∧ w.2 < vgaHeight

variable {s : Vga} {p : Printed} {c color : UInt8}

theorem printLoop_eq {loop : List UInt8 → ℕ → Vga → ℕ × Vga} {printed : UInt8 → Printed}
    (hnil : ∀ n s, (loop [] n s).2 = s)
    (hcons : ∀ c str n s, (loop (c :: str) n s).2 =
      if c = 0 then s else (loop str (u32 (n + 1)) ((printed c).step s)).2)
    (str : List UInt8) : ∀ n s, (loop str n s).2 = printAll ((cString str).map printed) s := by
  induction str with
  | nil => exact hnil
  | cons c str ih =>
    intro n s
    rw [hcons]
    by_cases hc : c = 0
    · rw [if_pos hc, cString, List.takeWhile_cons_of_neg (by simp [hc])]
      rfl
    · rw [if_neg hc, cString, List.takeWhile_cons_of_pos (by simp [hc]), ih]
      rfl

theorem kputsLoop_eq (str : List UInt8) : ∀ strpos s,
    (kputsLoop str strpos s).2 = printAll ((cString str).map .char) s := by
  refine printLoop_eq (fun _ _ ↦ rfl) (fun c str strpos s ↦ ?_) str
  rw [kputsLoop]
  by_cases hr : c = asciiReturn
  · rw [if_pos hr, hr]
    rfl
  · rw [if_neg hr]
    split <;> rfl

theorem kprintfLoop_eq (color : UInt8) (str : List UInt8) : ∀ strlen s,
    (kprintfLoop color str strlen s).2 =
      printAll ((cString str).map (fun c ↦ .colored c color)) s := by
  refine printLoop_eq (fun _ _ ↦ rfl) (fun c str strlen s ↦ ?_) str
  rw [kprintfLoop, Printed.step]
  by_cases hr : c = asciiReturn
  · rw [if_pos hr, if_pos hr]
    split <;> rfl
  · rw [if_neg hr, if_neg hr]
    split <;> rfl

theorem run_eq (call : PrintCall) (s : Vga) : call.run s = printAll call.chars s := by
  cases call with
  | kputchar c => rfl
  | kputs str => exact kputsLoop_eq str 0 s
  | kprintfWc str color => exact kprintfLoop_eq color str 0 s

theorem runCalls_eq (calls : List PrintCall) (s : Vga) :
    runCalls calls s = printAll (calls.flatMap PrintCall.chars) s := by
  induction calls generalizing s with
  | nil => rfl
  | cons call calls ih =>
    rw [List.flatMap_cons, printAll, List.foldl_append]
    show runCalls calls (call.run s) = _
    rw [ih, run_eq]
    rfl

theorem Vga.Tidy.kwrite (h : s.Tidy) (hrow : s.cursorX + 1 = vgaWidth → s.cursorY + 1 < vgaHeight) :
    (kwrite c color s).Tidy := by
  have hx := h.column
  have hy := h.row
  have hlog : ∀ w ∈ (Display.kwrite c color s).writes, w.1 < vgaWidth ∧ w.2 < vgaHeight := by
    intro w hw
    rw [kwrite_writes] at hw
    rcases List.mem_cons.mp hw with rfl | hw
    · exact ⟨hx, hy⟩
    · exact h.writes w hw
  by_cases hlast : s.cursorX + 1 = vgaWidth
  · obtain ⟨hx', hy'⟩ := kwrite_last c color hlast
    refine ⟨⟨?_, ?_⟩, hlog⟩
    · rw [hx']
      decide
    · rw [hy', u8_of_lt (Nat.lt_trans (hrow hlast) (by decide))]
      exact hrow hlast
  · obtain ⟨hx', hy'⟩ := kwrite_inside (s := s) c color (by omega)
    exact ⟨⟨by omega, by omega⟩, hlog⟩

theorem Vga.Tidy.kreturn (h : s.Tidy) (hrow : s.cursorY + 1 < vgaHeight) : (kreturn s).Tidy := by
  refine ⟨⟨(by decide : 0 < vgaWidth), ?_⟩, h.writes⟩
  show u8 (s.cursorY + 1) < vgaHeight
  rwa [u8_of_lt (Nat.lt_trans hrow (by decide))]

theorem Vga.Tidy.kbackspace (h : s.Tidy) : (kbackspace s).Tidy := by
  have hx := h.column
  have hy := h.row
  by_cases h₀ : s.cursorX = 0
  · by_cases hy₀ : s.cursorY = 0
    · rwa [kbackspace_origin h₀ hy₀]
    · obtain ⟨hcol, hrow, hlog⟩ :=
        kbackspace_start h₀ (Nat.pos_of_ne_zero hy₀) (Nat.lt_trans hy (by decide))
      refine ⟨⟨by rw [hcol]; decide, by rwa [hrow]⟩, fun w hw ↦ ?_⟩
      rw [hlog] at hw
      rcases List.mem_cons.mp hw with rfl | hw
      · exact ⟨by show vgaWidth - 1 < vgaWidth; decide, Nat.lt_of_le_of_lt (Nat.sub_le _ 1) hy⟩
      · exact h.writes w hw
  · obtain ⟨hcol, hrow, -, hlog⟩ := kbackspace_inside (Nat.pos_of_ne_zero h₀) hx
    refine ⟨⟨by rw [hcol]; omega, by rwa [hrow]⟩, fun w hw ↦ ?_⟩
    rw [hlog] at hw
    rcases List.mem_cons.mp hw with rfl | hw
    · exact ⟨Nat.lt_of_le_of_lt (Nat.sub_le _ 1) hx, hy⟩
    · exact h.writes w hw

theorem Vga.Tidy.step (h : s.Tidy) (hrow : p.EndsLine s → s.cursorY + 1 < vgaHeight) :
    (p.step s).Tidy := by
  cases p with
  | char c =>
    show (kputchar c s).Tidy
    unfold kputchar
    by_cases hb : c = asciiBackspace
    · rw [if_pos hb]
      exact h.kbackspace
    rw [if_neg hb]
    by_cases hr : c = asciiReturn
    · rw [if_pos hr]
      exact h.kreturn (hrow (Or.inl hr))
    · rw [if_neg hr]
      exact h.kwrite (fun hx ↦ hrow (Or.inr ⟨hb, hx⟩))
  | colored c color =>
    rw [Printed.step]
    by_cases hr : c = asciiReturn
    · rw [if_pos hr]
      exact h.kreturn (hrow (Or.inl hr))
    · rw [if_neg hr]
      exact h.kwrite (fun hx ↦ hrow (Or.inr hx))

theorem Vga.Tidy.printAll (h : s.Tidy) {ps : List Printed} (hps : KeepsLastLine ps s) :
    (printAll ps s).Tidy := by
  induction ps generalizing s with
  | nil => exact h
  | cons p ps ih => exact ih (h.step hps.1) hps.2

theorem Printed.EndsLine.cursorY (h : p.EndsLine s) : (p.step s).cursorY = u8 (s.cursorY + 1) := by
  cases p with
  | char c =>
    show (kputchar c s).cursorY = _
    unfold kputchar
    rcases h with rfl | ⟨hb, hx⟩
    · rfl
    · rw [if_neg hb]
      by_cases hr : c = asciiReturn
      · rw [if_pos hr]
        rfl
      · rw [if_neg hr]
        exact (kwrite_last _ _ hx).2
  | colored c color =>
    rw [Printed.step]
    by_cases hr : c = asciiReturn
    · rw [if_pos hr]
      rfl
    · rw [if_neg hr]
      exact (kwrite_last _ _ (h.resolve_left hr)).2

theorem keepsLastLine_iff {ps : List Printed} (h : s.Tidy) :
    KeepsLastLine ps s ↔ ∀ qs, qs <+: ps → (printAll qs s).OnScreen := by
  induction ps generalizing s with
  | nil =>
    refine iff_of_true trivial (fun qs hqs ↦ ?_)
    rw [List.prefix_nil.mp hqs]
    exact h.toOnScreen
  | cons p ps ih =>
    constructor
    · rintro ⟨hp, hps⟩ qs hqs
      rcases List.prefix_cons_iff.mp hqs with rfl | ⟨qs', rfl, hqs'⟩
      · exact h.toOnScreen
      · exact (ih (h.step hp)).mp hps qs' hqs'
    · intro hall
      have hp : p.EndsLine s → s.cursorY + 1 < vgaHeight := by
        intro hend
        have hrow := (hall [p] (List.prefix_append [p] ps)).row
        have hy : (p.step s).cursorY = s.cursorY + 1 :=
          hend.cursorY.trans (u8_of_lt (Nat.lt_of_le_of_lt h.row (by decide)))
        exact hy ▸ hrow
      refine ⟨hp, (ih (h.step hp)).mpr (fun qs hqs ↦ ?_)⟩
      exact hall (p :: qs) (List.cons_prefix_cons.mpr ⟨rfl, hqs⟩)

/-- The cursor is on the screen all the time exactly when no character ends the
last line of the screen, and then every cell that is written is one of the screen. -/
theorem writes_onScreen (cells : ℕ → UInt16) (calls : List PrintCall) :
    (KeepsLastLine (calls.flatMap PrintCall.chars) (vgaInit cells) ↔
      ∀ qs, qs <+: calls.flatMap PrintCall.chars → (printAll qs (vgaInit cells)).OnScreen) ∧
    (KeepsLastLine (calls.flatMap PrintCall.chars) (vgaInit cells) →
      ∀ w ∈ (runCalls calls (vgaInit cells)).writes,
        w.1 < vgaWidth ∧ w.2 < vgaHeight ∧ w.2 * vgaWidth + w.1 < vgaWidth * vgaHeight) := by
  have hstart : (vgaInit cells).Tidy :=
    ⟨⟨(by decide : 0 < vgaWidth), (by decide : 0 < vgaHeight)⟩, fun w hw ↦ by cases hw⟩
  refine ⟨keepsLastLine_iff hstart, fun h w hw ↦ ?_⟩
  rw [runCalls_eq] at hw
  obtain ⟨hx, hy⟩ := (hstart.printAll h).writes w hw
  refine ⟨hx, hy, ?_⟩
  unfold vgaWidth vgaHeight at *
  omega

theorem writes_onScreen_line :
    ∀ w ∈ (runCalls [.kputs [72, 105, 10], .kputchar 33] (vgaInit (fun _ ↦ 0))).writes,
      w.1 < vgaWidth ∧ w.2 < vgaHeight ∧ w.2 * vgaWidth + w.1 < vgaWidth * vgaHeight := by
  refine (writes_onScreen (fun _ ↦ 0) [.kputs [72, 105, 10], .kputchar 33]).2 ?_
  exact ⟨fun _ ↦ by decide, fun _ ↦ by decide, fun _ ↦ by decide, fun _ ↦ by decide, trivial⟩

/-- Behind as many line ends as the screen has lines a character is written
to the line below it. -/
theorem lines_leave_screen :
    (0, vgaHeight) ∈ (runCalls [.kputs (List.replicate vgaHeight asciiReturn), .kputchar 33]
      (vgaInit (fun _ ↦ 0))).writes ∧
    ¬ vgaHeight * vgaWidth + 0 < vgaWidth * vgaHeight := by
  decide +kernel

end GammaOS.Display
