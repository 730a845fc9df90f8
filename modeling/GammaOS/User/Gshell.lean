import GammaOS.Foundation.ByteString
import GammaOS.Machine

namespace GammaOS.User

open Foundation ByteMemory

/-- What GETCH leaves in `eax` for a character: it returns an `int`. -/
def getchWord (ch : UInt8) : ℕ := ofInt32 ch.toInt8.toInt

structure Line where
  mem : ByteMemory
  stores : List ℕ

/-- The loop of `gets`, with the answers of GETCH that are to come. `getch` asks again
until the answer is not zero. The loop waits for ever when no answer ends it. -/
def getsLoop : List UInt8 → ℕ → ByteMemory → Option Line
  | [], _, _ => none
  | ch :: keys, ebx, m =>
    let eax := getchWord ch
    if eax = 0 then getsLoop keys ebx m
    else
      let m := m.store32 ebx eax
      if eax = 10 then some ⟨m, [ebx]⟩
      else (getsLoop keys (u32 (ebx + 1)) m).map (fun line ↦ { line with stores := ebx :: line.stores })

def commandSize : ℕ := 30

/-- What a turn of the shell does with a line: `exec` is the argument of `exec`, if it is called. -/
structure Turn where
  line : Line
  exec : Option ℕ

def gshellTurn (command : ℕ) (keys : List UInt8) (m : ByteMemory) : Option Turn :=
  (getsLoop keys command m).map (fun line ↦ ⟨line, some command⟩)

variable {ch : UInt8} {m : ByteMemory} {ebx command i : ℕ} {keys typed : List UInt8} {line : Line}

theorem getchWord_facts (ch : UInt8) : (getchWord ch = 0 ↔ ch = 0) ∧ (getchWord ch = 10 ↔ ch = 10) ∧
    UInt8.ofNat (getchWord ch) = ch := by
  have hall : ∀ n < 256, (getchWord (UInt8.ofNat n) = 0 ↔ UInt8.ofNat n = 0) ∧
      (getchWord (UInt8.ofNat n) = 10 ↔ UInt8.ofNat n = 10) ∧
      UInt8.ofNat (getchWord (UInt8.ofNat n)) = UInt8.ofNat n := by
    decide +kernel
  have hch := hall ch.toNat ch.toNat_lt
  rwa [UInt8.ofNat_toNat] at hch

theorem getsLoop_zero : getsLoop (0 :: keys) ebx m = getsLoop keys ebx m := by
  rw [getsLoop, if_pos ((getchWord_facts 0).1.mpr rfl)]

theorem getsLoop_enter : getsLoop (10 :: keys) ebx m = some ⟨m.store32 ebx 10, [ebx]⟩ := by
  have h10 := (getchWord_facts 10).2.1.mpr rfl
  rw [getsLoop, h10, if_neg (by decide), if_pos rfl]

theorem getsLoop_char (h0 : ch ≠ 0) (h10 : ch ≠ 10) : getsLoop (ch :: keys) ebx m =
    (getsLoop keys (u32 (ebx + 1)) (m.store32 ebx (getchWord ch))).map
      (fun line ↦ { line with stores := ebx :: line.stores }) := by
  obtain ⟨hzero, hten, -⟩ := getchWord_facts ch
  rw [getsLoop, if_neg (mt hzero.mp h0), if_neg (mt hten.mp h10)]

/-- The answers are those that make the line, with Enter at its end, and zeros in between. -/
def Types (keys typed : List UInt8) : Prop := keys.filter (· ≠ 0) = typed ++ [10]

instance (keys typed : List UInt8) : Decidable (Types keys typed) :=
  inferInstanceAs (Decidable (keys.filter (· ≠ 0) = typed ++ [10]))

theorem stored_cons (n : ℕ) (hebx : ebx < 2 ^ 32) :
    ebx :: (List.range n).map (fun i ↦ u32 (u32 (ebx + 1) + i)) =
      (List.range (n + 1)).map (fun i ↦ u32 (ebx + i)) := by
  rw [List.range_succ_eq_map, List.map_cons, List.map_map]
  refine List.cons_eq_cons.mpr ⟨(u32_of_lt hebx).symm, List.map_congr_left (fun i _ ↦ ?_)⟩
  rw [Function.comp_apply]
  unfold u32
  omega

theorem getsLoop_run (hkeys : Types keys typed) (h10 : 10 ∉ typed) (hebx : ebx < 2 ^ 32) :
    ∃ line, getsLoop keys ebx m = some line ∧
      line.stores = (List.range (typed.length + 1)).map (fun i ↦ u32 (ebx + i)) ∧
      (ebx + typed.length + 4 ≤ 2 ^ 32 → line.mem = m.writeBytes ebx (typed ++ [10, 0, 0, 0])) := by
  unfold Types at hkeys
  induction keys generalizing typed ebx m with
  | nil => simp at hkeys
  | cons ch keys ih =>
    by_cases h0 : ch = 0
    · subst h0
      rw [getsLoop_zero]
      exact ih (by simpa using hkeys) h10 hebx
    · rw [List.filter_cons_of_pos (by simpa using h0)] at hkeys
      cases typed with
      | nil =>
        obtain ⟨rfl, -⟩ := List.cons_eq_cons.mp hkeys
        refine ⟨_, getsLoop_enter, ?_, fun _ ↦ store32_eq_writeBytes m ebx 10⟩
        simp [u32_of_lt hebx]
      | cons c typed =>
        rw [List.cons_append] at hkeys
        obtain ⟨rfl, htail⟩ := List.cons_eq_cons.mp hkeys
        obtain ⟨hne, h10⟩ := not_or.mp (mt List.mem_cons.mpr h10)
        obtain ⟨line, hline, hstores, hmem⟩ := ih (m := m.store32 ebx (getchWord ch)) htail h10
          (u32_lt (ebx + 1))
        refine ⟨_, by rw [getsLoop_char h0 (Ne.symm hne), hline, Option.map_some], ?_, fun hend ↦ ?_⟩
        · rw [hstores, List.length_cons]
          exact stored_cons _ hebx
        · rw [List.length_cons] at hend
          rw [u32_of_lt (by omega)] at hmem
          have hbytes := writeBytes_store32 (a := ebx) m (getchWord ch) (typed ++ [10, 0, 0, 0])
            (by simp)
          rw [(getchWord_facts ch).2.2] at hbytes
          exact (hmem (by omega)).trans hbytes

/-- The line came through: nothing but the buffer was written, and `exec` got the typed
characters, or was not called as they do not fit. -/
structure LineRight (command : ℕ) (typed : List UInt8) (t : Turn) : Prop where
  inside : ∀ a ∈ t.line.stores, command ≤ a ∧ a + 4 ≤ command + commandSize
  passed : (∃ a, t.exec = some a ∧ IsString t.line.mem a typed) ∨
    (t.exec = none ∧ commandSize < typed.length + 1)

theorem Types.no_zero (h : Types keys typed) : 0 ∉ typed := by
  intro h0
  have hmem : (0 : UInt8) ∈ keys.filter (· ≠ 0) := h ▸ List.mem_append_left _ h0
  simp at hmem

theorem gshellTurn_run (hkeys : Types keys typed) (h10 : 10 ∉ typed)
    (hcommand : command + commandSize ≤ 2 ^ 32) :
    ∃ t, gshellTurn command keys m = some t ∧ t.exec = some command ∧
      (typed.length < 27 → IsString t.line.mem command (typed ++ [10])) ∧
      (27 ≤ typed.length → command + 27 ∈ t.line.stores) := by
  unfold commandSize at hcommand
  obtain ⟨line, hline, hstores, hmem⟩ := getsLoop_run (m := m) hkeys h10
    (show command < 2 ^ 32 by omega)
  refine ⟨⟨line, some command⟩, by rw [gshellTurn, hline, Option.map_some], rfl, fun hlen ↦ ?_, fun hlen ↦ ?_⟩
  · have h0 : 0 ∉ typed ++ [10] := by
      simpa using hkeys.no_zero
    rw [hmem (by omega)]
    refine (IsString.written m command h0).congr (fun i hi ↦ ?_)
    have hzeros : typed ++ [10, 0, 0, 0] = (typed ++ [10] ++ [0]) ++ [0, 0] := by simp
    rw [hzeros, writeBytes_append_left (Nat.lt_of_le_of_lt hi (by simp))]
  · rw [hstores]
    exact List.mem_map.mpr ⟨27, List.mem_range.mpr (by omega), u32_of_lt (by omega)⟩

theorem not_lineRight {t : Turn} (hexec : t.exec = some command)
    (hshort : typed.length < 27 → IsString t.line.mem command (typed ++ [10]))
    (hlong : 27 ≤ typed.length → command + 27 ∈ t.line.stores) : ¬ LineRight command typed t := by
  intro h
  by_cases hlen : typed.length < 27
  · rcases h.passed with ⟨a, ha, hstr⟩ | ⟨hnone, -⟩
    · obtain rfl := Option.some.inj (hexec.symm.trans ha)
      have heq := congrArg List.length (hstr.unique (hshort hlen))
      simp at heq
    · rw [hexec] at hnone
      cases hnone
  · have hout := (h.inside _ (hlong (by omega))).2
    unfold commandSize at hout
    omega

/-- No line comes through. -/
theorem gshell_line_never (hkeys : Types keys typed) (h10 : 10 ∉ typed)
    (hcommand : command + commandSize ≤ 2 ^ 32) :
    ∃ t, gshellTurn command keys m = some t ∧ ¬ LineRight command typed t := by
  obtain ⟨t, ht, hexec, hshort, hlong⟩ := gshellTurn_run (m := m) hkeys h10 hcommand
  exact ⟨t, ht, not_lineRight hexec hshort hlong⟩

theorem gshell_line_never_short :
    ∃ t, gshellTurn 0x3fe000 [108, 0, 115, 10] (fun _ ↦ 0) = some t ∧ ¬ LineRight 0x3fe000 [108, 115] t :=
  gshell_line_never (by decide : Types [108, 0, 115, 10] [108, 115]) (by decide) (by decide)

/-- `exec` gets the newline with the name. -/
theorem newline_passed : ∃ t, gshellTurn 0x3fe000 [108, 0, 115, 10] (fun _ ↦ 0) = some t ∧
    t.exec = some 0x3fe000 ∧ IsString t.line.mem 0x3fe000 [108, 115, 10] ∧
    ¬ LineRight 0x3fe000 [108, 115] t := by
  have hkeys : Types [108, 0, 115, 10] [108, 115] := by decide
  have hcommand : 0x3fe000 + commandSize ≤ 2 ^ 32 := by decide
  obtain ⟨t, ht, hexec, hshort, hlong⟩ := gshellTurn_run (m := fun _ ↦ 0) hkeys (by decide) hcommand
  exact ⟨t, ht, hexec, hshort (by decide), not_lineRight hexec hshort hlong⟩

end GammaOS.User
