import GammaOS.User.Stdio

namespace GammaOS.User

open Function Foundation ByteMemory

section Text

variable {conv conv' : ℤ → List UInt8} {args : List Arg} {ps : List Piece} {used : Set ℕ}
  {m : ByteMemory} {stack : ℕ → ℕ} {i : ℕ} {sent : List Sent} {text text' : List UInt8}

theorem Sends.unique (h : Sends sent text) (h' : Sends sent text') : text = text' := by
  obtain ⟨ts, hts, rfl⟩ := h
  obtain ⟨ts', hts', rfl⟩ := h'
  have hone : Relator.RightUnique Sent.Is := by
    intro e t t' ht ht'
    cases e with
    | putch c => exact Eq.trans ht (Eq.symm ht')
    | puts m str => exact IsString.unique ht ht'
  rw [List.right_unique_forall₂' hone hts hts']

theorem texts_congr (h : ∀ b ∈ args, b.text conv = b.text conv') :
    texts conv ps args = texts conv' ps args := by
  induction ps generalizing args with
  | nil => rfl
  | cons q ps ih =>
    have htail := @ih args.tail (fun b hb ↦ h b (List.mem_of_mem_tail hb))
    have hhead : args.head?.elim [] (Arg.text conv) = args.head?.elim [] (Arg.text conv') := by
      cases args with
      | nil => rfl
      | cons b args => exact h b List.mem_cons_self
    cases q with
    | char c => rw [texts, texts, ih h]
    | dropped => exact ih h
    | cut => exact ih h
    | int => rw [texts, texts, hhead, htail]
    | str => rw [texts, texts, hhead, htail]

theorem texts_length (conv conv' : ℤ → List UInt8) (ps : List Piece) (args : List Arg) :
    (texts conv ps args).length = (texts conv' ps args).length := by
  induction ps generalizing args with
  | nil => rfl
  | cons q ps ih =>
    cases q <;> simp only [texts, List.length_cons, ih]

theorem texts_length_le (conv : ℤ → List UInt8) (ps : List Piece) (args : List Arg) :
    (texts conv ps args).length ≤ ps.length := by
  induction ps generalizing args with
  | nil => exact Nat.le_refl _
  | cons q ps ih =>
    rw [List.length_cons]
    cases q with
    | dropped => exact Nat.le_succ_of_le (ih _)
    | cut => exact Nat.le_succ_of_le (ih _)
    | char c => exact Nat.succ_le_succ (ih _)
    | int => exact Nat.succ_le_succ (ih _)
    | str => exact Nat.succ_le_succ (ih _)

theorem pieces_length_le (fmt : List UInt8) : (pieces fmt).length ≤ fmt.length := by
  induction fmt using pieces.induct with
  | case1 => exact Nat.le_refl _
  | case2 => exact Nat.le_refl _
  | case3 c hc => simp [pieces, hc]
  | case4 d fmt ih =>
    rw [pieces_conversion]
    simp only [List.length_cons]
    omega
  | case5 c d fmt hc ih =>
    rw [pieces, if_neg hc]
    exact Nat.succ_le_succ ih

def argsLength (conv : ℤ → List UInt8) (args : List Arg) : ℕ :=
  (args.map (fun b ↦ (b.text conv).length)).sum

theorem formatted_length (conv : ℤ → List UInt8) (h : Matching used m stack i ps args) :
    (formatted conv ps args).length + args.length =
      (texts conv ps args).length + argsLength conv args := by
  unfold formatted argsLength
  induction h with
  | nil => rfl
  | char _ ih =>
    simp only [texts, List.flatten_cons, List.length_append, List.length_cons, List.length_nil]
    omega
  | dropped _ ih => exact ih
  | cut _ ih => exact ih
  | int _ ih =>
    simp only [texts, List.head?_cons, Option.elim_some, List.tail_cons, List.flatten_cons,
      List.length_append, List.length_cons, List.map_cons, List.sum_cons]
    omega
  | str _ _ ih =>
    simp only [texts, List.head?_cons, Option.elim_some, List.tail_cons, List.flatten_cons,
      List.length_append, List.length_cons, List.map_cons, List.sum_cons]
    omega

theorem itoaText_le (b : Arg) : (b.text itoaText).length ≤ (b.text decimal).length := by
  cases b with
  | str text => exact Nat.le_refl _
  | int z =>
    rw [Arg.text, Arg.text, itoaText]
    split
    · exact Nat.le_refl _
    · exact Nat.zero_le _

theorem argsLength_le (args : List Arg) : argsLength itoaText args ≤ argsLength decimal args := by
  induction args with
  | nil => exact Nat.le_refl _
  | cons b args ih =>
    have hb := itoaText_le b
    simp only [argsLength, List.map_cons, List.sum_cons] at ih ⊢
    omega

theorem positive_of_argsLength (h : argsLength itoaText args = argsLength decimal args) {z : ℤ}
    (hz : .int z ∈ args) : 0 < z := by
  induction args with
  | nil => exact absurd hz List.not_mem_nil
  | cons b args ih =>
    have hb := itoaText_le b
    have hle := argsLength_le args
    simp only [argsLength, List.map_cons, List.sum_cons] at h hle ih
    rcases List.mem_cons.mp hz with rfl | hz
    · by_contra hneg
      rw [Arg.text, Arg.text, itoaText, if_neg hneg] at h
      have hpos := List.length_pos_iff.mpr (decimal_ne_nil z)
      rw [List.length_nil] at h
      omega
    · exact ih (by omega) hz

theorem itoaText_of_positive (h : ∀ z, .int z ∈ args → 0 < z) :
    ∀ b ∈ args, b.text itoaText = b.text decimal := by
  intro b hb
  cases b with
  | str text => rfl
  | int z => rw [Arg.text, Arg.text, itoaText, if_pos (h z hb)]

/-- The arguments that are numbers are positive when the text is right. -/
theorem formatted_eq_iff (h : Matching used m stack i ps args) :
    formatted itoaText ps args = formatted decimal ps args ↔ ∀ z, .int z ∈ args → 0 < z := by
  refine ⟨fun heq z hz ↦ positive_of_argsLength ?_ hz, fun hpos ↦ ?_⟩
  · have h₁ := formatted_length itoaText h
    have h₂ := formatted_length decimal h
    rw [heq, texts_length itoaText decimal] at h₁
    omega
  · rw [formatted, formatted, texts_congr (itoaText_of_positive hpos)]

end Text

section Right

variable {malloc : ℕ → Malloc} {blocks stack : ℕ → ℕ} {used : Set ℕ} {m : ByteMemory} {a : ℕ}
  {fmt : List UInt8} {args : List Arg}

/-- `printf` reads nothing behind the end of its format and uses no block that was
refused, sends the text of the format, takes all arguments and returns the number
of characters. -/
structure PrintfRight (malloc : ℕ → Malloc) (stack : ℕ → ℕ) (m : ByteMemory) (a : ℕ)
    (fmt : List UInt8) (args : List Arg) : Prop where
  inside : ∀ k s, Printf.run malloc stack k (.start a m) = some s →
    s.Inside malloc (a + fmt.length)
  returns : ∃ k t, Printf.run malloc stack k (.start a m) = some t ∧ t.step malloc stack = none ∧
    t.taken = args.length ∧ Sends t.sent (formatted decimal (pieces fmt) args) ∧
    toInt32 t.charsWritten = (formatted decimal (pieces fmt) args).length

theorem not_right_of_stray (hm : SafeMalloc malloc blocks used) (hfmt : Held used m a fmt)
    (hargs : Matching used m stack 0 (pieces fmt) args)
    (hwrong : .cut ∈ pieces fmt ∨ ¬ Granted blocks (pieces fmt) 0) :
    ¬ PrintfRight malloc stack m a fmt args := by
  intro h
  obtain ⟨k, t, hk, hout⟩ := ((strays_turns hm).format (s := .start a m) hm hfmt
    (fun _ _ ↦ rfl) hargs rfl hwrong).run
  exact hout (h.inside k t hk)

theorem printf_returns (hm : SafeMalloc malloc blocks used) (hfmt : Held used m a fmt)
    (hargs : Matching used m stack 0 (pieces fmt) args) (hcut : .cut ∉ pieces fmt)
    (hg : Granted blocks (pieces fmt) 0) :
    ∃ t, Printf.Ends malloc stack (a + fmt.length) (.start a m) t ∧ t.taken = args.length ∧
      Sends t.sent (formatted itoaText (pieces fmt) args) ∧
      toInt32 t.charsWritten = toInt32 (texts itoaText (pieces fmt) args).length := by
  obtain ⟨t, hends, hprinted⟩ := (prints_turns hm).format (s := .start a m) hm hfmt
    (fun _ _ ↦ rfl) hargs rfl hcut hg
  refine ⟨t, hends, hprinted.taken.trans (Nat.zero_add _), ⟨_, hprinted.sent [] .nil, rfl⟩, ?_⟩
  have hwritten := hprinted.charsWritten
  rw [Printf.start, Nat.zero_add] at hwritten
  rw [toInt32, hwritten, toInt32]

theorem toInt32_eq_iff {n k : ℕ} (hn : n < 2 ^ 32) : toInt32 n = k ↔ n < 2 ^ 31 ∧ n = k := by
  rw [toInt32, u32_of_lt hn]
  split <;> omega

/-- `printf` is right when no `%` is at the end, each integer is granted a block, all
integers are positive, and the arguments are as long as they are many. -/
theorem printf_iff (hm : SafeMalloc malloc blocks used) (hfmt : Held used m a fmt)
    (hend : a + fmt.length < 2 ^ 32) (hargs : Matching used m stack 0 (pieces fmt) args) :
    PrintfRight malloc stack m a fmt args ↔ .cut ∉ pieces fmt ∧ Granted blocks (pieces fmt) 0 ∧
      (∀ z, .int z ∈ args → 0 < z) ∧ argsLength decimal args = args.length ∧
      (texts decimal (pieces fmt) args).length < 2 ^ 31 := by
  by_cases hwrong : .cut ∈ pieces fmt ∨ ¬ Granted blocks (pieces fmt) 0
  · exact iff_of_false (not_right_of_stray hm hfmt hargs hwrong)
      (fun h ↦ hwrong.elim h.1 (not_not_intro h.2.1))
  obtain ⟨hcut, hg⟩ := not_or.mp hwrong
  rw [not_not] at hg
  obtain ⟨t, hends, htaken, hsends, hwritten⟩ := printf_returns hm hfmt hargs hcut hg
  have hlt : (texts itoaText (pieces fmt) args).length < 2 ^ 32 := by
    have h₁ := texts_length_le itoaText (pieces fmt) args
    have h₂ := pieces_length_le fmt
    omega
  have hlength := formatted_length decimal hargs
  have hcount := texts_length itoaText decimal (pieces fmt) args
  have hint := toInt32_eq_iff (k := (formatted decimal (pieces fmt) args).length) hlt
  rw [← hwritten] at hint
  constructor
  · intro h
    obtain ⟨k, u, hu, hend, -, hsend, hint'⟩ := h.returns
    obtain rfl := hends.unique hu hend
    have hpos := (formatted_eq_iff hargs).mp (hsends.unique hsend)
    obtain ⟨hsmall, heq⟩ := hint.mp hint'
    exact ⟨hcut, hg, hpos, by omega, by omega⟩
  · rintro ⟨-, -, hpos, hsum, hsmall⟩
    have heq := (formatted_eq_iff hargs).mpr hpos
    obtain ⟨k, hk, hstop⟩ := hends.run
    exact ⟨fun k s hs ↦ hends.inside hs, k, t, hk, hstop, htaken, heq ▸ hsends,
      hint.mpr ⟨by omega, by omega⟩⟩

def formatMemory (fmt : List UInt8) : ByteMemory := writeBytes (fun _ ↦ 0) 0x1000 (fmt ++ [0])

theorem formatMemory_held (h : 0 ∉ fmt) (hlen : fmt.length < 16) :
    Held {i | i < 0x1010} (formatMemory fmt) 0x1000 fmt :=
  ⟨.written _ _ h, fun i hi ↦ show 0x1000 + i < 0x1010 by omega⟩

/-- A `malloc` that has a block for each of `n` calls, and none for more. -/
def mallocPages (n k : ℕ) : ℕ := if k < n then 0x1400000 + 0x1000 * k else 0

theorem mallocPages_safe (n : ℕ) :
    SafeMalloc (fun k ↦ mallocAt (mallocPages n k)) (mallocPages n) {i | i < 0x1010} := by
  have hpage : ∀ k, mallocPages n k ≠ 0 → 0x1010 ≤ mallocPages n k := by
    intro k hk
    by_cases hkn : k < n
    · rw [mallocPages, if_pos hkn]
      omega
    · simp [mallocPages, hkn] at hk
  refine ⟨fun _ _ ↦ rfl, fun k m _ ↦ mallocAt_zeroed _ 15 m, fun k m hk i hi ↦ ?_, fun k hk i hi ↦ ?_⟩
  · exact fill_outside (.inl (Nat.lt_of_lt_of_le hi (hpage k hk)))
  · exact .inl (Nat.lt_of_lt_of_le hi (hpage k hk))

theorem decimal_seven : decimal (toInt32 7) = [55] := by
  rw [show toInt32 7 = ((7 : ℕ) : ℤ) by decide, decimal_natCast, natDecimal_of_lt (by decide)]
  rfl

theorem printf_iff_digit : PrintfRight (fun k ↦ mallocAt (mallocPages 1 k)) (fun _ ↦ 7)
    (formatMemory [110, 61, 37, 105]) 0x1000 [110, 61, 37, 105] [.int (toInt32 7)] := by
  refine (printf_iff (mallocPages_safe 1) (formatMemory_held (by decide) (by decide)) (by decide)
    (.char (.char (.int .nil)))).mpr ⟨by decide, by decide, fun z hz ↦ ?_, ?_, by decide⟩
  · cases List.mem_singleton.mp hz
    decide
  · rw [argsLength, List.map_singleton, Arg.text, decimal_seven]
    rfl

theorem percent_at_end : ¬ PrintfRight (fun k ↦ mallocAt (mallocPages 1 k)) (fun _ ↦ 7)
    (formatMemory [49, 48, 48, 37]) 0x1000 [49, 48, 48, 37] [] :=
  not_right_of_stray (mallocPages_safe 1) (formatMemory_held (by decide) (by decide))
    (.char (.char (.char (.cut .nil)))) (.inl (by decide))

end Right

end GammaOS.User
