import GammaOS.Fs.PathUnits
import GammaOS.Memory.FreeCount

namespace GammaOS.Fs

open Foundation Foundation.Program Memory

/-! The blocks that the parser asks the heap for. The copy of the path that a
unit is cut from is given back, so two free blocks do for each unit. -/

def parseNeeds : ℕ → ℕ
  | 0 => 3
  | n + 1 => max 5 (2 * n + 4)

def parseTakes (n : ℕ) : ℕ := max 5 (2 * n + 3)

variable {whole : Bool} {s t : Arena (KHeap whole)} {alien : ByteMemory} {w rest : List UInt8}
  {unit : Option UnitStr} {units : List UnitStr} {d : UInt8} {q : Path} {n : ℕ}

theorem kzallocOne_count (hone : blocksOf (u32 n) = 1) {p : ℕ} (h : kzalloc n s = .ok (p, t)) :
    t.freeCount = s.freeCount - 1 ∧ (p ≠ 0 → 0 < s.freeCount) := by
  rcases kzallocOne_cases hone s with ⟨hfull, h'⟩ | ⟨i, u, h', hcount, -⟩
  · cases h.symm.trans h'
    exact ⟨by omega, fun hp ↦ absurd rfl hp⟩
  · cases h.symm.trans h'
    exact ⟨by omega, fun _ ↦ by omega⟩

theorem kzallocUncheckedOne_count (hone : blocksOf (u32 n) = 1) {p : ℕ}
    (h : kzallocUnchecked n s = .ok (p, t)) : t.freeCount + 1 = s.freeCount := by
  obtain ⟨h, hp⟩ := kzallocUnchecked_eq_ok.mp h
  obtain ⟨hcount, hpos⟩ := kzallocOne_count hone h
  have := hpos hp
  omega

theorem unit_count (hlen : w.length < pageSize)
    (h : pathGetCurrentUnitAndAdvance alien w s = .ok ((unit, rest), t)) :
    t.freeCount = s.freeCount - 1 ∧ (w ≠ [] → 2 ≤ s.freeCount) := by
  obtain ⟨p, s₁, h₁, h⟩ := bind_eq_ok.mp h
  obtain ⟨hcount₁, -⟩ := kzallocOne_count (by decide) h₁
  split at h
  · rename_i hw
    cases h
    exact ⟨hcount₁, fun hne ↦ absurd (List.eq_nil_of_length_eq_zero hw) hne⟩
  · rename_i hw
    have hone := blocksOf_one (Nat.pos_of_ne_zero hw) hlen.le
    obtain ⟨temp, s₂, h₂, h⟩ := bind_eq_ok.mp h
    have hpos : 0 < s₁.freeCount := by
      have := kzallocUncheckedOne_count hone h₂
      omega
    obtain ⟨i, s₂', h₂', hcount₂, hblock⟩ := kzallocUncheckedOne_granted hone hpos
    cases h₂.symm.trans h₂'
    obtain ⟨_, s₃, h₃, h⟩ := bind_eq_ok.mp h
    obtain ⟨-, rfl⟩ := require_eq_ok.mp h₃
    obtain ⟨_, s₄, h₄, h⟩ := bind_eq_ok.mp h
    obtain ⟨-, rfl⟩ := require_eq_ok.mp h₄
    obtain ⟨_, s₅, h₅, h⟩ := bind_eq_ok.mp h
    cases h₅
    cases h
    have hback := KHeap.freeCount_kfree (o := w.length - (nextPath w).length) hblock
      (Nat.lt_of_le_of_lt (Nat.sub_le _ _) hlen)
    have hgoal : (KHeap.kfree (blockAddress i + (w.length - (nextPath w).length))
      s₂.heap).freeCount = s.freeCount - 1 := by
      unfold Arena.freeCount at *
      omega
    exact ⟨hgoal, fun _ ↦ by omega⟩

theorem parseUnits_count : ∀ (fuel : ℕ) (w : List UInt8) (s t : Arena (KHeap whole))
    (units : List UnitStr), w.length < pageSize → parseUnits alien fuel w s = .ok (units, t) →
      2 * (pathUnits w).length ≤ s.freeCount ∧
        t.freeCount = s.freeCount - (2 * (pathUnits w).length + 1) := by
  intro fuel
  induction fuel with
  | zero => intro w s t units _ h; cases h
  | succ fuel ih =>
    intro w s t units hlen h
    obtain ⟨⟨unit, rest⟩, s₁, h₁, h⟩ := bind_eq_ok.mp h
    obtain ⟨hcount₁, htwo⟩ := unit_count hlen h₁
    rcases unit_returns h₁ with ⟨rfl, rfl, rfl⟩ | ⟨hw, rfl, u, rfl, -, -⟩
    · cases h
      exact ⟨Nat.zero_le _, hcount₁⟩
    · obtain ⟨_, s₂, h₂, h⟩ := bind_eq_ok.mp h
      obtain ⟨units, s₃, h₃, h⟩ := bind_eq_ok.mp h
      cases h
      have hnext := nextPath_length w
      have hcount₂ := kzallocUncheckedOne_count (n := 8) (by decide) h₂
      obtain ⟨hle, hcount₃⟩ := ih _ _ _ _ (by omega) h₃
      rw [pathUnits_eq hw, List.length_cons]
      have := htwo hw
      exact ⟨by omega, by omega⟩

theorem parsePath_count (h : parsePath alien w s = .ok (some q, t)) :
    parseNeeds (pathUnits (w.drop 3)).length ≤ s.freeCount ∧
      t.freeCount = s.freeCount - parseTakes (pathUnits (w.drop 3)).length := by
  obtain ⟨_, s₀, h₀, h⟩ := bind_eq_ok.mp h
  obtain ⟨hlen, rfl⟩ := require_eq_ok.mp h₀
  obtain ⟨parsed, s₁, h₁, h⟩ := bind_eq_ok.mp h
  obtain ⟨copy, s₂, h₂, h⟩ := bind_eq_ok.mp h
  have hmax : w.length ≤ 512 := hlen
  cases hd : parseDrive w with
  | none =>
    rw [hd] at h
    cases h
  | some drive =>
    rw [hd] at h
    obtain ⟨-, -, hthree, -⟩ := parseDrive_some hd
    obtain ⟨_, s₃, h₃, h⟩ := bind_eq_ok.mp h
    obtain ⟨hne, rfl⟩ := require_eq_ok.mp h₃
    obtain ⟨head, s₄, h₄, h⟩ := bind_eq_ok.mp h
    obtain ⟨⟨first, rest⟩, s₅, h₅, h⟩ := bind_eq_ok.mp h
    obtain ⟨units, s₆, h₆, h⟩ := bind_eq_ok.mp h
    cases h
    have hdrop : (w.drop 3).length = w.length - 3 := List.length_drop
    have hpage : (w.drop 3).length < pageSize := by unfold pageSize; omega
    obtain ⟨hcount₁, hpos₁⟩ := kzallocOne_count (n := 8) (by decide) h₁
    have hcount₂ := kzallocUncheckedOne_count
      (blocksOf_one (by omega) (by unfold pageSize; omega)) h₂
    have hcount₄ := kzallocUncheckedOne_count (n := 8) (by decide) h₄
    obtain ⟨hcount₅, htwo⟩ := unit_count hpage h₅
    have hrest := pathGetCurrentUnitAndAdvance_length h₅
    obtain ⟨hle, hcount₆⟩ := parseUnits_count _ _ _ _ _ (by omega) h₆
    have := hpos₁ hne
    unfold parseTakes
    rcases unit_returns h₅ with ⟨hw, rfl, rfl⟩ | ⟨hw, rfl, u, rfl, -, -⟩
    · simp only [hw, pathUnits, List.length_nil] at hle hcount₆ ⊢
      exact ⟨show 3 ≤ _ by omega, by omega⟩
    · have := htwo hw
      rw [pathUnits_eq hw, List.length_cons, parseNeeds]
      exact ⟨by omega, by omega⟩

theorem parsePath_count_bare (h : parsePath alien w s = .ok (some q, t)) (hnil : w.drop 3 = []) :
    3 ≤ s.freeCount ∧ (0 < t.freeCount ↔ 6 ≤ s.freeCount) := by
  obtain ⟨hneeds, hcount⟩ := parsePath_count h
  rw [hnil, pathUnits, List.length_nil] at hneeds hcount
  have hfive : t.freeCount = s.freeCount - 5 := hcount
  exact ⟨hneeds, by omega⟩

theorem unit_room (alien : ByteMemory) (hlen : w.length ≤ pageSize)
    (hroom : w ≠ [] → 2 ≤ s.freeCount) :
    (∃ r t, pathGetCurrentUnitAndAdvance alien w s = .ok (r, t)) ∨
      (pathGetCurrentUnitAndAdvance alien w s = .error .panic ∧
        ¬ FitsBuffer alien (firstUnit w)) := by
  by_cases hw : w = []
  · subst hw
    exact Or.inl ⟨_, _, rfl⟩
  · have htwo := hroom hw
    have hpos := List.length_pos_of_ne_nil hw
    obtain ⟨i, s₁, h₁, hcount₁, -⟩ := kzallocOne_granted (n := fsMaxPathUnitLength) (by decide)
      (show 0 < s.freeCount by omega)
    obtain ⟨j, s₂, h₂, -, -⟩ := kzallocUncheckedOne_granted (blocksOf_one hpos hlen)
      (show 0 < s₁.freeCount by omega)
    obtain ⟨_, s₃, h₃⟩ : ∃ u t, kfree (blockAddress j + (w.length - (nextPath w).length)) s₂ =
      .ok (u, t) := ⟨_, _, rfl⟩
    rw [pathGetCurrentUnitAndAdvance, bind_run_ok h₁, if_neg hpos.ne', bind_run_ok h₂,
      bind_run_ok (require_run (blockAddress_ne_zero i))]
    by_cases hfits : (firstUnit w).length < fsMaxPathUnitLength ∨
        ((firstUnit w).length = fsMaxPathUnitLength ∧
          alien (blockAddress i + fsMaxPathUnitLength) = 0)
    · refine Or.inl ⟨(some ⟨blockAddress i, firstUnit w⟩, nextPath w), s₃, ?_⟩
      refine (bind_run_ok (require_run hfits)).trans ?_
      exact bind_run_ok h₃
    · exact Or.inr ⟨bind_run_error (require_error hfits),
        fun h ↦ hfits (h.imp_right (fun h ↦ ⟨h.1, h.2 _⟩))⟩

theorem parseUnits_room (alien : ByteMemory) : ∀ fuel w (s : Arena (KHeap whole)),
    w.length < fuel → w.length < pageSize → 2 * (pathUnits w).length ≤ s.freeCount →
    (∃ units t, parseUnits alien fuel w s = .ok (units, t)) ∨
      (parseUnits alien fuel w s = .error .panic ∧ ¬ ∀ u ∈ pathUnits w, FitsBuffer alien u) := by
  intro fuel
  induction fuel with
  | zero => intro w s hfuel; omega
  | succ fuel ih =>
    intro w s hfuel hlen hroom
    by_cases hw : w = []
    · subst hw
      exact Or.inl ⟨_, _, rfl⟩
    · have hnext := nextPath_lt hw
      rw [pathUnits_eq hw, List.length_cons] at hroom
      rw [pathUnits_eq hw]
      rcases unit_room alien hlen.le (fun _ ↦ (by omega : 2 ≤ s.freeCount)) with
        ⟨⟨unit, rest⟩, s₁, h₁⟩ | ⟨h₁, hfits⟩
      · obtain ⟨hcount₁, -⟩ := unit_count hlen h₁
        obtain ⟨hnil, -⟩ | ⟨-, rfl, u, rfl, -, -⟩ := unit_returns h₁
        · exact absurd hnil hw
        obtain ⟨link, s₂, h₂, hcount₂, -⟩ := kzallocUncheckedOne_granted (n := 8) (by decide)
          (show 0 < s₁.freeCount by omega)
        rw [parseUnits, bind_run_ok h₁]
        rcases ih (nextPath w) s₂ (by omega) (by omega) (by omega) with
          ⟨units, s₃, h₃⟩ | ⟨h₃, hfits⟩
        · refine Or.inl ⟨u :: units, s₃, ?_⟩
          refine (bind_run_ok h₂).trans ?_
          exact bind_run_ok h₃
        · refine Or.inr ⟨(bind_run_ok h₂).trans (bind_run_error h₃), fun h ↦ hfits ?_⟩
          exact fun u hu ↦ h u (List.mem_cons_of_mem _ hu)
      · exact Or.inr ⟨bind_run_error h₁, fun h ↦ hfits (h _ List.mem_cons_self)⟩

theorem parsePath_room (alien : ByteMemory) (hd : parseDrive w = some d)
    (hlen : w.length ≤ fsMaxPathLength)
    (hroom : parseNeeds (pathUnits (w.drop 3)).length ≤ s.freeCount) :
    (∃ q t, parsePath alien w s = .ok (some q, t)) ∨
      (parsePath alien w s = .error .panic ∧ ¬ ∀ u ∈ pathUnits (w.drop 3), FitsBuffer alien u) := by
  obtain ⟨-, -, hthree, -⟩ := parseDrive_some hd
  have hmax : w.length ≤ 512 := hlen
  have hdrop : (w.drop 3).length = w.length - 3 := List.length_drop
  have hpage : (w.drop 3).length < pageSize := by unfold pageSize; omega
  have hneeds : 3 ≤ s.freeCount ∧ (w.drop 3 ≠ [] → 5 ≤ s.freeCount ∧
      2 * (pathUnits (nextPath (w.drop 3))).length + 4 ≤ s.freeCount) := by
    by_cases hw : w.drop 3 = []
    · rw [hw, pathUnits, List.length_nil, parseNeeds] at hroom
      exact ⟨hroom, fun hne ↦ absurd hw hne⟩
    · rw [pathUnits_eq hw, List.length_cons, parseNeeds] at hroom
      exact ⟨by omega, fun _ ↦ ⟨by omega, by omega⟩⟩
  obtain ⟨hroom₃, hroom₄⟩ := hneeds
  obtain ⟨i, s₁, h₁, hcount₁, -⟩ := kzallocOne_granted (n := 8) (by decide)
    (show 0 < s.freeCount by omega)
  obtain ⟨j, s₂, h₂, hcount₂, -⟩ := kzallocUncheckedOne_granted (n := w.length)
    (blocksOf_one (by omega) (by unfold pageSize; omega)) (show 0 < s₁.freeCount by omega)
  obtain ⟨k, s₃, h₃, hcount₃, -⟩ := kzallocUncheckedOne_granted (n := 8) (by decide)
    (show 0 < s₂.freeCount by omega)
  rw [parsePath, bind_run_ok (require_run hlen), bind_run_ok h₁, bind_run_ok h₂, hd]
  dsimp only
  rw [bind_run_ok (require_run (blockAddress_ne_zero i)), bind_run_ok h₃]
  rcases unit_room (s := s₃) alien hpage.le (fun hw ↦ by have := hroom₄ hw; omega) with
    ⟨⟨unit, rest⟩, s₄, h₄⟩ | ⟨h₄, hfits⟩
  · obtain ⟨hcount₄, -⟩ := unit_count hpage h₄
    have hrest := pathGetCurrentUnitAndAdvance_length h₄
    rw [bind_run_ok h₄]
    have hunits : 2 * (pathUnits rest).length ≤ s₄.freeCount ∧
        ∀ u ∈ pathUnits rest, u ∈ pathUnits (w.drop 3) := by
      rcases unit_returns h₄ with ⟨-, -, rfl⟩ | ⟨hw, rfl, -⟩
      · refine ⟨Nat.zero_le _, fun u hu ↦ ?_⟩
        cases hu
      · have := hroom₄ hw
        rw [pathUnits_eq hw]
        exact ⟨by omega, fun u hu ↦ List.mem_cons_of_mem _ hu⟩
    rcases parseUnits_room alien _ _ s₄ (Nat.lt_succ_self _) (by omega) hunits.1 with
      ⟨units, s₅, h₅⟩ | ⟨h₅, hfits⟩
    · exact Or.inl ⟨_, s₅, bind_run_ok h₅⟩
    · exact Or.inr ⟨bind_run_error h₅, fun h ↦ hfits (fun u hu ↦ h u (hunits.2 u hu))⟩
  · refine Or.inr ⟨bind_run_error h₄, fun h ↦ hfits (h _ ?_)⟩
    have hw : w.drop 3 ≠ [] := by
      intro hnil
      rw [hnil] at h₄
      cases h₄
    rw [pathUnits_eq hw]
    exact List.mem_cons_self

end GammaOS.Fs
