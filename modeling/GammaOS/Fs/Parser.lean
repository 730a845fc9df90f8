import GammaOS.Memory.Arena

namespace GammaOS.Fs

open Foundation Foundation.Program Memory

def fsMaxPathLength : ℕ := 512
def fsMaxPathUnitLength : ℕ := 64

def slash : UInt8 := 47

structure UnitStr where
  addr : ℕ
  str : List UInt8

/-- `struct path`. Only the first unit can be null, for a path that ends after
its drive. -/
structure Path where
  addr : ℕ
  driveId : UInt8
  first : Option UnitStr
  rest : List UnitStr

def parseDrive (path : List UInt8) : Option UInt8 :=
  match path with
  | [] => none
  | c :: _ => if 65 ≤ c ∧ c ≤ 90 ∧ path.length ≥ 3 then some c else none

variable {σ : Type} [Allocator σ]

/-- Takes the first unit off a path. `strlen` of the unit's buffer reads on past
its 64 zeroed bytes when the unit fills them; `alien` gives the bytes behind. -/
def pathGetCurrentUnitAndAdvance (alien : ByteMemory) (path : List UInt8) :
    ArenaM σ (Option UnitStr × List UInt8) := do
  let currentUnitStr ← kzalloc fsMaxPathUnitLength
  if path.length = 0 then pure (none, path)
  else
    let tempPath ← kzallocUnchecked path.length
    require (currentUnitStr ≠ 0) Fault.nullDeref
    let str := path.takeWhile (fun c ↦ decide (c ≠ slash))
    let rest := path.dropWhile (fun c ↦ decide (c ≠ slash))
    require (str.length < fsMaxPathUnitLength ∨
      (str.length = fsMaxPathUnitLength ∧ alien (currentUnitStr + fsMaxPathUnitLength) = 0))
      Fault.panic
    kfree (tempPath + (path.length - (rest.drop 1).length))
    pure (some ⟨currentUnitStr, str⟩, rest.drop 1)

def parseUnits (alien : ByteMemory) : ℕ → List UInt8 → ArenaM σ (List UnitStr)
  | 0, _ => fault Fault.loop
  | fuel + 1, path => do
    let (currentUnit, path) ← pathGetCurrentUnitAndAdvance alien path
    match currentUnit with
    | none => pure []
    | some unit => do
      let _ ← kzallocUnchecked 8
      let units ← parseUnits alien fuel path
      pure (unit :: units)

def parsePath (alien : ByteMemory) (path : List UInt8) : ArenaM σ (Option Path) := do
  require (path.length ≤ fsMaxPathLength) Fault.panic
  let parsedPath ← kzalloc 8
  let _ ← kzallocUnchecked path.length
  match parseDrive path with
  | none => pure none
  | some drive => do
    require (parsedPath ≠ 0) Fault.nullDeref
    let _ ← kzallocUnchecked 8
    let (first, path) ← pathGetCurrentUnitAndAdvance alien (path.drop 3)
    let rest ← parseUnits alien (path.length + 1) path
    pure (some ⟨parsedPath, drive, first, rest⟩)

variable {alien : ByteMemory}

theorem pathGetCurrentUnitAndAdvance_length {path rest : List UInt8} {unit : Option UnitStr}
    {s s' : Arena σ} (h : pathGetCurrentUnitAndAdvance alien path s = .ok ((unit, rest), s')) :
    rest.length ≤ path.length := by
  obtain ⟨p, s₁, -, h⟩ := bind_eq_ok.mp h
  split at h
  · cases h
    exact Nat.le_refl _
  · obtain ⟨q, s₂, -, h⟩ := bind_eq_ok.mp h
    obtain ⟨_, s₃, -, h⟩ := bind_eq_ok.mp h
    obtain ⟨_, s₄, -, h⟩ := bind_eq_ok.mp h
    obtain ⟨_, s₅, -, h⟩ := bind_eq_ok.mp h
    cases h
    have h₁ := (List.dropWhile_sublist (l := path) (fun c ↦ decide (c ≠ slash))).length_le
    rw [List.length_drop]
    omega

section Frame

variable [LawfulAllocator σ] {r : Run} {s₀ : Arena σ}

theorem Off.add {p k : ℕ} (h : Off r p) (hal : p % pageSize = 0) (hp : p < 2 ^ 32)
    (hk : k < pageSize) : Off r (p + k) := by
  have he : pageOf (u32 (p + k)) = pageOf (u32 p) := by
    unfold pageOf
    unfold pageSize at *
    rw [u32_of_lt hp, u32_of_lt (by omega)]
    omega
  rw [Off, he]
  exact h

theorem kzallocUnchecked_kept_aligned (n : ℕ) :
    Triple (Kept r s₀) (kzallocUnchecked n)
      (fun p s ↦ Kept r s₀ s ∧ Off r p ∧ p % pageSize = 0 ∧ p < 2 ^ 32) := by
  intro s hk p s' h
  obtain ⟨h, hp⟩ := kzallocUnchecked_eq_ok.mp h
  have g := kzalloc_granted h hp
  obtain ⟨hk', ho⟩ := g.kept hk
  have hin := g.inside
  have hpos := g.pos
  have hle := lt_blocksOf (u32 n)
  exact ⟨hk', ho, g.aligned, by omega⟩

theorem pathGetCurrentUnitAndAdvance_kept {path : List UInt8} (hlen : path.length < pageSize) :
    Triple (Kept r s₀) (pathGetCurrentUnitAndAdvance alien path) (fun _ s ↦ Kept r s₀ s) := by
  refine (kzalloc_kept _).bind (fun unit ↦ ?_)
  refine Triple.ite (fun _ ↦ .pure (fun _ h ↦ h.1)) (fun _ ↦ ?_)
  refine ((kzallocUnchecked_kept_aligned _).weaken (fun _ h ↦ h.1) (fun _ _ h ↦ h)).bind
    (fun temp ↦ ?_)
  refine Triple.guard (fun _ ↦ Triple.guard (fun _ ↦ ?_))
  intro s ⟨hk, ho, hal, hp⟩ a s' h
  obtain ⟨_, s₁, h₁, h₂⟩ := bind_eq_ok.mp h
  cases h₂
  exact kfree_kept (Off.add ho hal hp (by omega)) s hk _ _ h₁

theorem parseUnits_kept : ∀ (fuel : ℕ) (path : List UInt8), path.length < pageSize →
    Triple (Kept r s₀) (parseUnits alien fuel path) (fun _ s ↦ Kept r s₀ s) := by
  intro fuel
  induction fuel with
  | zero => intro path _; exact .fault
  | succ fuel ih =>
    intro path hlen s hk units s' h
    obtain ⟨⟨unit, rest⟩, s₁, h₁, h⟩ := bind_eq_ok.mp h
    have hk₁ := pathGetCurrentUnitAndAdvance_kept hlen s hk _ _ h₁
    have hrest := pathGetCurrentUnitAndAdvance_length h₁
    cases unit with
    | none =>
      cases h
      exact hk₁
    | some unit =>
      obtain ⟨_, s₂, h₂, h⟩ := bind_eq_ok.mp h
      obtain ⟨units', s₃, h₃, h⟩ := bind_eq_ok.mp h
      have hk₂ := (kzallocUnchecked_kept _ s₁ hk₁ _ _ h₂).1
      cases h
      exact ih rest (by omega) s₂ hk₂ _ _ h₃

theorem parsePath_result {path : List UInt8} {s s' : Arena σ} {o : Option Path}
    (h : parsePath alien path s = .ok (o, s')) :
    ∃ p a, kzalloc 8 s = .ok (p, a) ∧ (o ≠ none → p ≠ 0) ∧
      ∀ (r : Run) (s₀ : Arena σ), Kept r s₀ a → Kept r s₀ s' := by
  obtain ⟨_, s₁, h₁, h⟩ := bind_eq_ok.mp h
  obtain ⟨hlen, rfl⟩ := require_eq_ok.mp h₁
  obtain ⟨p, a, ha, h⟩ := bind_eq_ok.mp h
  obtain ⟨_, s₂, h₂, h⟩ := bind_eq_ok.mp h
  refine ⟨p, a, ha, ?_⟩
  cases hd : parseDrive path with
  | none =>
    rw [hd] at h
    cases h
    exact ⟨fun hne ↦ absurd rfl hne, fun r s₀ hk ↦ (kzallocUnchecked_kept _ _ hk _ _ h₂).1⟩
  | some drive =>
    rw [hd] at h
    obtain ⟨_, s₃, h₃, h⟩ := bind_eq_ok.mp h
    obtain ⟨hp, rfl⟩ := require_eq_ok.mp h₃
    obtain ⟨_, s₄, h₄, h⟩ := bind_eq_ok.mp h
    obtain ⟨⟨first, rest⟩, s₅, h₅, h⟩ := bind_eq_ok.mp h
    obtain ⟨units, s₆, h₆, h⟩ := bind_eq_ok.mp h
    cases h
    have hlt : (path.drop 3).length < pageSize := by
      rw [List.length_drop]
      unfold fsMaxPathLength at hlen
      unfold pageSize
      omega
    have hrest := pathGetCurrentUnitAndAdvance_length h₅
    refine ⟨fun _ ↦ hp, fun r s₀ hk ↦ ?_⟩
    have hk₂ := (kzallocUnchecked_kept _ _ hk _ _ h₂).1
    have hk₄ := (kzallocUnchecked_kept _ _ hk₂ _ _ h₄).1
    have hk₅ := pathGetCurrentUnitAndAdvance_kept hlt _ hk₄ _ _ h₅
    exact parseUnits_kept _ rest (by omega) _ hk₅ _ _ h₆

theorem parsePath_kept {path : List UInt8} :
    Triple (Kept r s₀) (parsePath alien path) (fun _ s ↦ Kept r s₀ s) := by
  intro s hk o s' h
  obtain ⟨p, a, ha, -, hkeep⟩ := parsePath_result h
  exact hkeep r s₀ (kzalloc_kept _ _ hk _ _ ha).1

end Frame

end GammaOS.Fs
