import GammaOS.Fs.Parser
import Mathlib.Data.List.TakeWhile

namespace GammaOS.Fs

open Foundation Foundation.Program Memory

def joinUnits : List (List UInt8) → List UInt8
  | [] => []
  | [u] => u
  | u :: w :: us => u ++ slash :: joinUnits (w :: us)

structure PathUnit (u : List UInt8) : Prop where
  ne_nil : u ≠ []
  no_slash : slash ∉ u
  short : u.length < fsMaxPathUnitLength

def firstUnit (w : List UInt8) : List UInt8 := w.takeWhile (fun c ↦ decide (c ≠ slash))

def nextPath (w : List UInt8) : List UInt8 := (w.dropWhile (fun c ↦ decide (c ≠ slash))).drop 1

def consUnit (c : UInt8) : List (List UInt8) → List (List UInt8)
  | [] => [[c]]
  | u :: us => (c :: u) :: us

/-- What the slashes of a path separate, up to the last that has something behind it. -/
def pathUnits : List UInt8 → List (List UInt8)
  | [] => []
  | c :: w => if c = slash then [] :: pathUnits w else consUnit c (pathUnits w)

variable {u w : List UInt8} {us : List (List UInt8)}

theorem firstUnit_cons {c : UInt8} (hc : c ≠ slash) (w : List UInt8) :
    firstUnit (c :: w) = c :: firstUnit w ∧ nextPath (c :: w) = nextPath w := by
  have hpos : (fun c ↦ decide (c ≠ slash)) c = true := decide_eq_true hc
  exact ⟨List.takeWhile_cons_of_pos hpos, congrArg (List.drop 1) (List.dropWhile_cons_of_pos hpos)⟩

theorem firstUnit_length (w : List UInt8) : (firstUnit w).length ≤ w.length :=
  (List.takeWhile_sublist _).length_le

theorem unit_rest (w : List UInt8) :
    (nextPath w = [] ∧ w.length = (firstUnit w).length) ∨
      w.drop (firstUnit w).length = slash :: nextPath w := by
  induction w with
  | nil => exact Or.inl ⟨rfl, rfl⟩
  | cons c w ih =>
    by_cases hc : c = slash
    · subst hc
      exact Or.inr rfl
    · obtain ⟨h₁, h₂⟩ := firstUnit_cons hc w
      rw [h₁, h₂, List.length_cons, List.length_cons, List.drop_succ_cons, Nat.succ_inj]
      exact ih

theorem nextPath_length (w : List UInt8) : (nextPath w).length ≤ w.length := by
  rw [nextPath, List.length_drop]
  have h := (List.dropWhile_sublist (l := w) (fun c ↦ decide (c ≠ slash))).length_le
  omega

theorem nextPath_lt (hw : w ≠ []) : (nextPath w).length < w.length := by
  have hpos := List.length_pos_of_ne_nil hw
  rcases unit_rest w with ⟨h₁, -⟩ | h₁
  · rwa [h₁]
  · have hl := congrArg List.length h₁
    rw [List.length_drop, List.length_cons] at hl
    omega

theorem pathUnits_eq (hw : w ≠ []) : pathUnits w = firstUnit w :: pathUnits (nextPath w) := by
  induction w with
  | nil => exact absurd rfl hw
  | cons c w ih =>
    by_cases hc : c = slash
    · subst hc
      rfl
    · obtain ⟨h₁, h₂⟩ := firstUnit_cons hc w
      rw [pathUnits, if_neg hc, h₁, h₂]
      cases w with
      | nil => rfl
      | cons d w => rw [ih (List.cons_ne_nil d w), consUnit]

theorem pathUnits_eq_nil : pathUnits w = [] ↔ w = [] := by
  constructor
  · intro h
    by_contra hw
    rw [pathUnits_eq hw] at h
    exact List.cons_ne_nil _ _ h
  · rintro rfl
    rfl

theorem pathUnits_no_slash (w : List UInt8) : ∀ u ∈ pathUnits w, slash ∉ u := by
  induction w with
  | nil => exact nofun
  | cons c w ih =>
    rw [pathUnits]
    split
    · exact List.forall_mem_cons.mpr ⟨List.not_mem_nil, ih⟩
    · rename_i hc
      have hslash : slash ∉ [c] := fun h ↦ hc (List.mem_singleton.mp h).symm
      cases h : pathUnits w with
      | nil => exact List.forall_mem_singleton.mpr hslash
      | cons u us =>
        rw [h] at ih
        obtain ⟨hu, hus⟩ := List.forall_mem_cons.mp ih
        refine List.forall_mem_cons.mpr ⟨fun hm ↦ ?_, hus⟩
        rcases List.mem_cons.mp hm with hm | hm
        · exact hc hm.symm
        · exact hu hm

theorem pathUnits_slash (hu : slash ∉ u) (w : List UInt8) :
    pathUnits (u ++ slash :: w) = u :: pathUnits w := by
  induction u with
  | nil => rfl
  | cons c u ih =>
    rw [List.mem_cons, not_or] at hu
    rw [List.cons_append, pathUnits, if_neg (Ne.symm hu.1), ih hu.2, consUnit]

theorem pathUnits_single (hne : u ≠ []) (hu : slash ∉ u) : pathUnits u = [u] := by
  have hfirst : firstUnit u = u := List.takeWhile_eq_self_iff.mpr
    (fun c hc ↦ decide_eq_true (fun he ↦ hu (he ▸ hc)))
  rcases unit_rest u with ⟨hnext, -⟩ | hnext
  · rw [pathUnits_eq hne, hfirst, hnext, pathUnits]
  · rw [hfirst, List.drop_length] at hnext
    cases hnext

theorem joinUnits_cons (u : List UInt8) (hus : us ≠ []) :
    joinUnits (u :: us) = u ++ slash :: joinUnits us := by
  cases us with
  | nil => exact absurd rfl hus
  | cons w us => rfl

theorem pathUnits_join (h : ∀ u ∈ us, u ≠ [] ∧ slash ∉ u) : pathUnits (joinUnits us) = us := by
  induction us with
  | nil => rfl
  | cons u us ih =>
    obtain ⟨⟨hne, hu⟩, hus⟩ := List.forall_mem_cons.mp h
    by_cases hnil : us = []
    · subst hnil
      exact pathUnits_single hne hu
    · rw [joinUnits_cons u hnil, pathUnits_slash hu, ih hus]

theorem pathUnits_join_slash (hne : us ≠ []) (h : ∀ u ∈ us, slash ∉ u) :
    pathUnits (joinUnits us ++ [slash]) = us := by
  induction us with
  | nil => exact absurd rfl hne
  | cons u us ih =>
    obtain ⟨hu, hus⟩ := List.forall_mem_cons.mp h
    by_cases hnil : us = []
    · subst hnil
      exact pathUnits_slash hu []
    · rw [joinUnits_cons u hnil, List.append_assoc, List.cons_append, pathUnits_slash hu, ih hnil hus]

theorem join_pathUnits (w : List UInt8) :
    w = joinUnits (pathUnits w) ∨ w = joinUnits (pathUnits w) ++ [slash] := by
  induction w with
  | nil => exact Or.inl rfl
  | cons c w ih =>
    by_cases hw : w = []
    · subst hw
      by_cases hc : c = slash
      · subst hc
        exact Or.inr rfl
      · rw [pathUnits, if_neg hc]
        exact Or.inl rfl
    · obtain ⟨u, us, hunits⟩ := List.exists_cons_of_ne_nil (mt pathUnits_eq_nil.mp hw)
      have hjoin : joinUnits (pathUnits (c :: w)) = c :: joinUnits (pathUnits w) := by
        rw [pathUnits, hunits]
        split
        · rename_i hc
          rw [hc]
          rfl
        · cases us <;> rfl
      rw [hjoin, List.cons_append, List.cons.injEq, List.cons.injEq, ← and_or_left]
      exact ⟨rfl, ih⟩

theorem parseDrive_some {d : UInt8} (h : parseDrive w = some d) :
    65 ≤ d ∧ d ≤ 90 ∧ 3 ≤ w.length ∧ w.head? = some d := by
  cases w with
  | nil => cases h
  | cons c w =>
    rw [parseDrive] at h
    split at h
    · rename_i hc
      cases h
      exact ⟨hc.1, hc.2.1, hc.2.2, rfl⟩
    · cases h

section Returns

variable {σ : Type} [Allocator σ] {alien : ByteMemory} {s s' : Arena σ} {unit : Option UnitStr}
  {rest : List UInt8} {q : Path}

/-- The string of a unit, in a buffer that is not null. If it fills the buffer, a zero lies behind. -/
def UnitStr.Held (alien : ByteMemory) (u : UnitStr) : Prop :=
  u.addr ≠ 0 ∧ (u.str.length < fsMaxPathUnitLength ∨
    (u.str.length = fsMaxPathUnitLength ∧ alien (u.addr + fsMaxPathUnitLength) = 0))

theorem UnitStr.Held.le {u : UnitStr} (h : u.Held alien) : u.str.length ≤ fsMaxPathUnitLength :=
  h.2.elim Nat.le_of_lt (fun h ↦ Nat.le_of_eq h.1)

theorem unit_returns (h : pathGetCurrentUnitAndAdvance alien w s = .ok ((unit, rest), s')) :
    (w = [] ∧ unit = none ∧ rest = []) ∨
      (w ≠ [] ∧ rest = nextPath w ∧ ∃ u, unit = some u ∧ u.str = firstUnit w ∧ u.Held alien) := by
  obtain ⟨p, s₁, -, h⟩ := bind_eq_ok.mp h
  split at h
  · rename_i hw
    cases h
    have hnil := List.eq_nil_of_length_eq_zero hw
    exact Or.inl ⟨hnil, rfl, hnil⟩
  · rename_i hw
    obtain ⟨temp, s₂, -, h⟩ := bind_eq_ok.mp h
    obtain ⟨_, s₃, h₃, h⟩ := bind_eq_ok.mp h
    obtain ⟨_, s₄, h₄, h⟩ := bind_eq_ok.mp h
    obtain ⟨_, s₅, -, h⟩ := bind_eq_ok.mp h
    cases h
    exact Or.inr ⟨fun hnil ↦ hw (congrArg List.length hnil), rfl, _, rfl,
      rfl, (require_eq_ok.mp h₃).1, (require_eq_ok.mp h₄).1⟩

theorem parseUnits_returns : ∀ fuel w (s s' : Arena σ) units,
    parseUnits alien fuel w s = .ok (units, s') →
      units.map UnitStr.str = pathUnits w ∧ ∀ u ∈ units, u.Held alien := by
  intro fuel
  induction fuel with
  | zero => intro w s s' units h; cases h
  | succ fuel ih =>
    intro w s s' units h
    obtain ⟨⟨unit, rest⟩, s₁, h₁, h⟩ := bind_eq_ok.mp h
    rcases unit_returns h₁ with ⟨rfl, rfl, -⟩ | ⟨hw, rfl, u, rfl, hstr, hu⟩
    · cases h
      exact ⟨rfl, nofun⟩
    · obtain ⟨_, s₂, -, h⟩ := bind_eq_ok.mp h
      obtain ⟨units, s₃, h₃, h⟩ := bind_eq_ok.mp h
      cases h
      obtain ⟨hunits, hheld⟩ := ih _ _ _ _ h₃
      rw [pathUnits_eq hw, List.map_cons, hstr, hunits]
      exact ⟨rfl, List.forall_mem_cons.mpr ⟨hu, hheld⟩⟩

structure ParsedFrom (alien : ByteMemory) (w : List UInt8) (q : Path) : Prop where
  drive : parseDrive w = some q.driveId
  units : (q.first.toList ++ q.rest).map UnitStr.str = pathUnits (w.drop 3)
  first : q.first = none ↔ w.drop 3 = []
  held : ∀ u ∈ q.first.toList ++ q.rest, u.Held alien

theorem parsePath_returns {o : Option Path} (h : parsePath alien w s = .ok (o, s')) :
    (o = none ∧ parseDrive w = none) ∨ ∃ q, o = some q ∧ ParsedFrom alien w q := by
  obtain ⟨_, s₁, -, h⟩ := bind_eq_ok.mp h
  obtain ⟨parsed, s₂, -, h⟩ := bind_eq_ok.mp h
  obtain ⟨copy, s₃, -, h⟩ := bind_eq_ok.mp h
  cases hd : parseDrive w with
  | none =>
    rw [hd] at h
    cases h
    exact Or.inl ⟨rfl, rfl⟩
  | some drive =>
    rw [hd] at h
    obtain ⟨_, s₄, -, h⟩ := bind_eq_ok.mp h
    obtain ⟨head, s₅, -, h⟩ := bind_eq_ok.mp h
    obtain ⟨⟨first, rest⟩, s₆, h₆, h⟩ := bind_eq_ok.mp h
    obtain ⟨units, s₇, h₇, h⟩ := bind_eq_ok.mp h
    cases h
    obtain ⟨hunits, hheld⟩ := parseUnits_returns _ _ _ _ _ h₇
    rcases unit_returns h₆ with ⟨hw, rfl, rfl⟩ | ⟨hw, rfl, u, rfl, hstr, hu⟩
    · exact Or.inr ⟨_, rfl, hd, by rw [hw]; exact hunits, iff_of_true rfl hw, hheld⟩
    · refine Or.inr ⟨_, rfl, hd, ?_, iff_of_false nofun hw, List.forall_mem_cons.mpr ⟨hu, hheld⟩⟩
      rw [pathUnits_eq hw, ← hstr, ← hunits]
      rfl

end Returns

section Total

variable {σ : Type} [Allocator σ] [RoomyAllocator σ] {alien : ByteMemory} {d : UInt8} {s : Arena σ}
  {k : ℕ}

def FitsBuffer (alien : ByteMemory) (u : List UInt8) : Prop :=
  u.length < fsMaxPathUnitLength ∨ (u.length = fsMaxPathUnitLength ∧ ∀ a, alien a = 0)

theorem unit_run_nil (alien : ByteMemory) (hs : s.HasRoom (k + 1)) :
    ∃ s', pathGetCurrentUnitAndAdvance alien [] s = .ok ((none, []), s') ∧ s'.HasRoom k := by
  obtain ⟨last, s₁, h₁, -, hr₁⟩ := kzallocOne_total (n := fsMaxPathUnitLength) (by decide) k s hs
  exact ⟨s₁, bind_run_ok h₁, hr₁⟩

theorem unit_run (alien : ByteMemory) (hw : w ≠ []) (hlen : w.length ≤ pageSize)
    (hs : s.HasRoom (k + 2)) :
    (∃ a s', pathGetCurrentUnitAndAdvance alien w s = .ok ((some ⟨a, firstUnit w⟩, nextPath w), s') ∧
        s'.HasRoom k) ∨
      (pathGetCurrentUnitAndAdvance alien w s = .error .panic ∧
        ¬ FitsBuffer alien (firstUnit w)) := by
  have hpos := List.length_pos_of_ne_nil hw
  obtain ⟨unit, s₁, h₁, hne, hr₁⟩ := kzallocOne_total (n := fsMaxPathUnitLength) (by decide)
    (k + 1) s hs
  obtain ⟨temp, s₂, h₂, -, hr₂⟩ := kzallocUncheckedOne_total (blocksOf_one hpos hlen) k s₁ hr₁
  obtain ⟨_, s₃, h₃, hr₃⟩ := kfree_total (temp + (w.length - (nextPath w).length)) k s₂ hr₂
  rw [pathGetCurrentUnitAndAdvance, bind_run_ok h₁, if_neg hpos.ne', bind_run_ok h₂,
    bind_run_ok (require_run hne)]
  by_cases hfits : (firstUnit w).length < fsMaxPathUnitLength ∨
      ((firstUnit w).length = fsMaxPathUnitLength ∧ alien (unit + fsMaxPathUnitLength) = 0)
  · refine Or.inl ⟨unit, s₃, ?_, hr₃⟩
    refine (bind_run_ok (require_run hfits)).trans ?_
    exact bind_run_ok h₃
  · exact Or.inr ⟨bind_run_error (require_error hfits),
      fun h ↦ hfits (h.imp_right (fun h ↦ ⟨h.1, h.2 _⟩))⟩

theorem parseUnits_run (alien : ByteMemory) : ∀ fuel w (s : Arena σ),
    w.length < fuel → w.length ≤ pageSize →
    s.HasRoom (k + (3 * (pathUnits w).length + 1)) →
    (∃ units s', parseUnits alien fuel w s = .ok (units, s') ∧ s'.HasRoom k) ∨
      (parseUnits alien fuel w s = .error .panic ∧ ¬ ∀ u ∈ pathUnits w, FitsBuffer alien u) := by
  intro fuel
  induction fuel with
  | zero => intro w s hfuel; omega
  | succ fuel ih =>
    intro w s hfuel hlen hs
    by_cases hw : w = []
    · subst hw
      obtain ⟨s₁, h₁, hr₁⟩ := unit_run_nil alien hs
      exact Or.inl ⟨[], s₁, bind_run_ok h₁, hr₁⟩
    · have hnext := nextPath_lt hw
      rw [pathUnits_eq hw] at hs ⊢
      rw [List.length_cons, Nat.mul_succ, Nat.add_right_comm, ← Nat.add_assoc] at hs
      rcases unit_run alien hw hlen hs with ⟨a, s₁, h₁, hr₁⟩ | ⟨h₁, hfits⟩
      · obtain ⟨link, s₂, h₂, -, hr₂⟩ := kzallocUncheckedOne_total (n := 8) (by decide) _ s₁ hr₁
        rw [parseUnits, bind_run_ok h₁]
        rcases ih (nextPath w) s₂ (by omega) (by omega) (hr₂.mono (by omega)) with
          ⟨units, s₃, h₃, hr₃⟩ | ⟨h₃, hfits⟩
        · refine Or.inl ⟨⟨a, firstUnit w⟩ :: units, s₃, ?_, hr₃⟩
          refine (bind_run_ok h₂).trans ?_
          exact bind_run_ok h₃
        · refine Or.inr ⟨(bind_run_ok h₂).trans (bind_run_error h₃), fun h ↦ hfits ?_⟩
          exact fun u hu ↦ h u (List.mem_cons_of_mem _ hu)
      · exact Or.inr ⟨bind_run_error h₁, fun h ↦ hfits (h _ List.mem_cons_self)⟩

def parseRoom (n : ℕ) : ℕ := max 5 (3 * n + 3)

theorem parsePath_behind_drive (alien : ByteMemory) (hd : parseDrive w = some d)
    (hlen : w.length ≤ fsMaxPathLength)
    (hs : s.HasRoom (k + 3)) : ∃ p s', s'.HasRoom k ∧ parsePath alien w s = (do
      let (first, path) ← pathGetCurrentUnitAndAdvance alien (w.drop 3)
      let rest ← parseUnits alien (path.length + 1) path
      pure (some ⟨p, d, first, rest⟩) : ArenaM σ (Option Path)) s' := by
  obtain ⟨-, -, hthree, -⟩ := parseDrive_some hd
  have hmax : w.length ≤ 512 := hlen
  obtain ⟨parsed, s₁, h₁, hne, hr₁⟩ := kzallocOne_total (n := 8) (by decide) (k + 2) s hs
  obtain ⟨copy, s₂, h₂, -, hr₂⟩ := kzallocUncheckedOne_total (n := w.length)
    (blocksOf_one (by omega) (by unfold pageSize; omega)) (k + 1) s₁ hr₁
  obtain ⟨head, s₃, h₃, -, hr₃⟩ := kzallocUncheckedOne_total (n := 8) (by decide) k s₂ hr₂
  refine ⟨parsed, s₃, hr₃, ?_⟩
  rw [parsePath, bind_run_ok (require_run hlen), bind_run_ok h₁]
  refine (bind_run_ok h₂).trans ?_
  rw [hd]
  refine (bind_run_ok (require_run hne)).trans ?_
  exact bind_run_ok h₃

theorem parsePath_run (alien : ByteMemory) (hd : parseDrive w = some d)
    (hlen : w.length ≤ fsMaxPathLength)
    (hs : s.HasRoom (k + parseRoom (pathUnits (w.drop 3)).length)) :
    (∃ q s', parsePath alien w s = .ok (some q, s') ∧ s'.HasRoom k) ∨
      (parsePath alien w s = .error .panic ∧ ¬ ∀ u ∈ pathUnits (w.drop 3), FitsBuffer alien u) := by
  have hmax : w.length ≤ 512 := hlen
  have hpage : (w.drop 3).length ≤ pageSize := by
    rw [List.length_drop]
    unfold pageSize
    omega
  by_cases hw : w.drop 3 = []
  · obtain ⟨p, s₁, hr₁, heq⟩ := parsePath_behind_drive (k := k + 2) alien hd hlen
      (hs.mono (by
        rw [parseRoom]
        omega))
    obtain ⟨s₂, h₂, hr₂⟩ := unit_run_nil (k := k + 1) alien hr₁
    obtain ⟨s₃, h₃, hr₃⟩ := unit_run_nil (k := k) alien hr₂
    have hunits : parseUnits alien 1 [] s₂ = .ok ([], s₃) := bind_run_ok h₃
    rw [heq, hw, bind_run_ok h₂]
    exact Or.inl ⟨_, s₃, bind_run_ok hunits, hr₃⟩
  · have hnext := nextPath_length (w.drop 3)
    rw [pathUnits_eq hw] at hs ⊢
    obtain ⟨p, s₁, hr₁, heq⟩ := parsePath_behind_drive alien
      (k := k + (3 * (pathUnits (nextPath (w.drop 3))).length + 1) + 2) hd hlen (hs.mono (by
        rw [parseRoom, List.length_cons]
        omega))
    rw [heq]
    rcases unit_run alien hw hpage hr₁ with ⟨a, s₂, h₂, hr₂⟩ | ⟨h₂, hfits⟩
    · rw [bind_run_ok h₂]
      rcases parseUnits_run alien _ _ s₂ (Nat.lt_succ_self _) (hnext.trans hpage) hr₂ with
        ⟨units, s₃, h₃, hr₃⟩ | ⟨h₃, hfits⟩
      · exact Or.inl ⟨_, s₃, bind_run_ok h₃, hr₃⟩
      · exact Or.inr ⟨bind_run_error h₃, fun h ↦ hfits (fun u hu ↦ h u (List.mem_cons_of_mem _ hu))⟩
    · exact Or.inr ⟨bind_run_error h₂, fun h ↦ hfits (h _ List.mem_cons_self)⟩

/-- A path that has a drive and at least one unit, all of which fit, is parsed into these. -/
theorem parsePath_total (alien : ByteMemory) (hd : parseDrive w = some d)
    (hlen : w.length ≤ fsMaxPathLength)
    (hunits : pathUnits (w.drop 3) = u :: us) (hfits : ∀ v ∈ u :: us, FitsBuffer alien v) (k : ℕ) :
    Total (Arena.HasRoom (σ := σ) (k + (3 * us.length + 6))) (parsePath alien w)
      (fun path s ↦ (∃ p a rest, path = some ⟨p, d, some ⟨a, u⟩, rest⟩ ∧
        rest.map UnitStr.str = us) ∧ s.HasRoom k) := by
  intro s hs
  have hroom : parseRoom (pathUnits (w.drop 3)).length ≤ 3 * us.length + 6 := by
    rw [hunits, parseRoom, List.length_cons]
    omega
  rcases parsePath_run alien hd hlen (hs.mono (Nat.add_le_add_left hroom k)) with
    ⟨q, s', h, hr⟩ | ⟨-, hc⟩
  · refine ⟨some q, s', h, ?_, hr⟩
    obtain ⟨hnone, -⟩ | ⟨_, ⟨⟩, hq⟩ := parsePath_returns h
    · cases hnone
    obtain ⟨p, drive, first, rest⟩ := q
    cases hd.symm.trans hq.drive
    have hmap := hq.units
    rw [hunits] at hmap
    cases first with
    | none => exact absurd (pathUnits_eq_nil.mpr (hq.first.mp rfl)) (hunits ▸ List.cons_ne_nil u us)
    | some v =>
      obtain ⟨rfl, hrest⟩ := List.cons.inj hmap
      exact ⟨p, v.addr, rest, rfl, hrest⟩
  · exact absurd (hunits ▸ hfits) hc

end Total

end GammaOS.Fs
