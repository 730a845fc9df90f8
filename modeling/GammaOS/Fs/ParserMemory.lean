import GammaOS.Fs.PathUnits
import GammaOS.Memory.Region
import GammaOS.Memory.StringCalls

namespace GammaOS.Fs

open Function Foundation Foundation.Program Memory ByteMemory

namespace InMemory

/-! The parser on the bytes of the memory. -/

section

variable {σ : Type}

def load (a : ℕ) : ArenaM σ UInt8 := gets (fun s ↦ s.mem a)

def store (a : ℕ) (c : UInt8) : ArenaM σ Unit :=
  modifyState (fun s ↦ { s with mem := update s.mem a c })

def store32 (a v : ℕ) : ArenaM σ Unit :=
  modifyState (fun s ↦ { s with mem := s.mem.store32 a v })

/-- The drive letter, none for the error that the source returns as a negative `char`. -/
def parseDrive (path : ℕ) : ArenaM σ (Option UInt8) := do
  let c ← load path
  if 65 ≤ c ∧ c ≤ 90 then do
    let n ← strlen path
    if n ≥ 3 then pure (some c) else pure none
  else pure none

def copyUnit (currentUnitStr tempPath : ℕ) : ArenaM σ ℕ := fun s ↦
  match copyLoop (fun c ↦ decide (c ≠ slash ∧ c ≠ 0)) currentUnitStr tempPath (2 ^ 32) 0 s.mem with
  | none => .error .loop
  | some (m, n) => .ok (n, { s with mem := m })

end

variable {σ : Type} [Allocator σ]

/-- Shifts the path by one unit in its buffer, and returns the buffer of the unit. -/
def pathGetCurrentUnitAndAdvance (path : ℕ) : ArenaM σ ℕ := do
  let currentUnitStr ← kzalloc fsMaxPathUnitLength
  let n ← strlen path
  if n = 0 then pure 0
  else do
    let tempPath ← kzallocUnchecked n
    strcpy tempPath path
    require (currentUnitStr ≠ 0) Fault.nullDeref
    let k ← copyUnit currentUnitStr tempPath
    let len ← strlen currentUnitStr
    require (len ≤ fsMaxPathUnitLength) Fault.panic
    let c ← load (tempPath + k)
    let tempPath := if c = slash then tempPath + k + 1 else tempPath + k
    strcpy path tempPath
    kfree tempPath
    pure currentUnitStr

/-- The loop of `parse_path` with a bound on its turns. A `struct path_unit` is
two words, its string and the next unit. -/
def parseUnits : ℕ → ℕ → ℕ → ArenaM σ Unit
  | 0, _, _ => fault Fault.loop
  | fuel + 1, path, pathUnitPtr => do
    let currentUnit ← pathGetCurrentUnitAndAdvance path
    if currentUnit = 0 then pure ()
    else do
      let pathCurrentUnit ← kzallocUnchecked 8
      store32 pathCurrentUnit currentUnit
      store32 (pathCurrentUnit + 4) 0
      store32 (pathUnitPtr + 4) pathCurrentUnit
      parseUnits fuel path pathCurrentUnit

/-- `parse_path` from its drive on. A `struct path` is a byte, the drive, and at
4 its first unit. -/
def parseBehindDrive (parsedPath copy : ℕ) (drive : UInt8) : ArenaM σ ℕ := do
  require (parsedPath ≠ 0) Fault.nullDeref
  store parsedPath drive
  let unitHead ← kzallocUnchecked 8
  let unit ← pathGetCurrentUnitAndAdvance (copy + 3)
  store32 unitHead unit
  store32 (unitHead + 4) 0
  parseUnits (fsMaxPathLength + 1) (copy + 3) unitHead
  store32 (parsedPath + 4) unitHead
  pure parsedPath

def parsePath (path : ℕ) : ArenaM σ ℕ := do
  let n ← strlen path
  require (n ≤ fsMaxPathLength) Fault.panic
  let parsedPath ← kzalloc 8
  let copy ← kzallocUnchecked n
  strcpy copy path
  match ← parseDrive copy with
  | none => pure 0
  | some drive => parseBehindDrive parsedPath copy drive

end InMemory

structure UnitBuffer (m : ByteMemory) (unit : UnitStr) : Prop where
  ne_zero : unit.addr ≠ 0
  bytes : ∀ i < fsMaxPathUnitLength, m (unit.addr + i) = unit.str.getD i 0

theorem UnitBuffer.congr {m m' : ByteMemory} {unit : UnitStr} (h : UnitBuffer m unit)
    (he : ∀ i < fsMaxPathUnitLength, m' (unit.addr + i) = m (unit.addr + i)) : UnitBuffer m' unit :=
  ⟨h.ne_zero, fun i hi ↦ (he i hi).trans (h.bytes i hi)⟩

def UnitList (m : ByteMemory) : ℕ → List UnitStr → Prop
  | p, [] => p = 0
  | p, unit :: units =>
    p ≠ 0 ∧ m.load32 p = unit.addr ∧ UnitBuffer m unit ∧ UnitList m (m.load32 (p + 4)) units

/-- The `struct path` at its address, with the list of its units. A path
without units has one unit with a null string. -/
structure PathAt (m : ByteMemory) (path : Path) : Prop where
  ne_zero : path.addr ≠ 0
  drive : m path.addr = path.driveId
  head : m.load32 (path.addr + 4) ≠ 0
  first : m.load32 (m.load32 (path.addr + 4)) = path.first.elim 0 UnitStr.addr
  buffer : ∀ unit ∈ path.first, UnitBuffer m unit
  rest : UnitList m (m.load32 (m.load32 (path.addr + 4) + 4)) path.rest

variable {σ : Type} [Allocator σ] {s s' t t' : Arena σ} {alien : ByteMemory} {path p n : ℕ}
  {w rest : List UInt8} {W : ℕ → Prop}

theorem kzalloc_same (heq : s.heap = t.heap) (h : kzalloc n t = .ok (p, t')) :
    ∃ s', kzalloc n s = .ok (p, s') ∧ s'.heap = t'.heap := by
  cases h
  exact ⟨⟨(Allocator.kzalloc n s.heap).2, if (Allocator.kzalloc n s.heap).1 = 0 then s.mem
    else s.mem.fill (Allocator.kzalloc n s.heap).1 (u32 n) 0⟩, by rw [kzalloc, heq], by rw [heq]⟩

theorem kzallocUnchecked_same (heq : s.heap = t.heap) (h : kzallocUnchecked n t = .ok (p, t')) :
    ∃ s', kzallocUnchecked n s = .ok (p, s') ∧ kzalloc n s = .ok (p, s') ∧ p ≠ 0 ∧
      s'.heap = t'.heap := by
  obtain ⟨h, hp⟩ := kzallocUnchecked_eq_ok.mp h
  obtain ⟨s', h', heq'⟩ := kzalloc_same heq h
  exact ⟨s', kzallocUnchecked_eq_ok.mpr ⟨h', hp⟩, h', hp, heq'⟩

theorem fresh_apart {R : Region σ} {a k : ℕ} (hb : Block t p n) (hf : Fresh s (blockRun p n))
    (hR : R.safe s.heap) (ha : ∀ i ≤ k, R.pages (pageOf (a + i))) :
    a + k < p ∨ p + pageSize * blocksOf (u32 n) ≤ a := by
  have hpos := blocksOf_pos hb.pos
  have hpage : 0 < pageSize * blocksOf (u32 n) := Nat.mul_pos (by decide) hpos
  by_contra hc
  by_cases hlt : a < p
  · obtain ⟨i, rfl⟩ := Nat.exists_eq_add_of_lt hlt
    refine hf R hR _ (hb.byte_mem (Nat.le_refl _) (by omega)) ?_
    rw [Nat.add_assoc]
    exact ha (i + 1) (by omega)
  · exact hf R hR _ (hb.byte_mem (i := a) (by omega) (by omega)) (ha 0 (Nat.zero_le k))

theorem block_page_le (hb : Block t p n) : pageSize ≤ pageSize * blocksOf (u32 n) :=
  Nat.le_mul_of_pos_right pageSize (blocksOf_pos hb.pos)

theorem block_first_page (hb : Block t p n) {i : ℕ} (hi : i < pageSize) :
    pageOf (p + i) ∈ blockRun p n := by
  have hle := block_page_le hb
  exact hb.byte_mem (Nat.le_add_right p i) (by omega)

theorem advance_run {m : ByteMemory} {temp : ℕ} (h : IsString m temp w) :
    (if m (temp + (firstUnit w).length) = slash then temp + (firstUnit w).length + 1
      else temp + (firstUnit w).length) = temp + (w.length - (nextPath w).length) ∧
      IsString m (temp + (w.length - (nextPath w).length)) (nextPath w) := by
  have hdrop := h.drop (firstUnit_length w)
  rcases unit_rest w with ⟨hnil, hlen⟩ | hcons
  · have hzero : m (temp + w.length) = 0 := h.zero
    rw [← hlen, List.drop_length] at hdrop
    rw [← hlen, hnil, hzero, if_neg (by decide)]
    exact ⟨rfl, hdrop⟩
  · rw [hcons] at hdrop
    obtain ⟨hc, -, htail⟩ := hdrop.tail
    have hlen := congrArg List.length hcons
    rw [List.length_drop, List.length_cons] at hlen
    have hnext : temp + (firstUnit w).length + 1 = temp + (w.length - (nextPath w).length) := by omega
    rw [if_pos hc, ← hnext]
    exact ⟨rfl, htail⟩

omit [Allocator σ] in
theorem copyUnit_run {temp : ℕ} (unit : ℕ) (h : IsString s.mem temp w) (hlen : w.length < 2 ^ 32)
    (happ : unit + (firstUnit w).length ≤ temp ∨ temp + (firstUnit w).length < unit) :
    InMemory.copyUnit unit temp s = .ok ((firstUnit w).length,
      { s with mem := s.mem.writeBytes unit (firstUnit w) }) := by
  have hsame : ∀ w : List UInt8, 0 ∉ w →
      w.takeWhile (fun c ↦ decide (c ≠ slash ∧ c ≠ 0)) = firstUnit w := by
    intro w
    induction w with
    | nil => exact fun _ ↦ rfl
    | cons c w ih =>
      intro h0
      rw [List.mem_cons, not_or] at h0
      by_cases hc : c = slash
      · subst hc
        rfl
      · rw [(firstUnit_cons hc w).1, ← ih h0.2]
        exact List.takeWhile_cons_of_pos (decide_eq_true ⟨hc, Ne.symm h0.1⟩)
  have hcopy := h.copy (p := fun c ↦ decide (c ≠ slash ∧ c ≠ 0)) unit (2 ^ 32)
    (by decide)
  rw [hsame w h.no_zero] at hcopy
  rw [InMemory.copyUnit, hcopy happ hlen]

section Lawful

variable [LawfulAllocator σ] {s₁ s₂ : Arena σ} {unit temp : ℕ}

/-- The buffers of a unit and of the copy of the path, and what the two loops
leave in them. -/
structure UnitTaken (W : ℕ → Prop) (s : Arena σ) (w : List UInt8) (unit temp path : ℕ)
    (s₂ s₃ s₄ : Arena σ) : Prop where
  strcpy : strcpy temp path s₂ = .ok ((), s₃)
  copyUnit : InMemory.copyUnit unit temp s₃ = .ok ((firstUnit w).length, s₄)
  heap : s₄.heap = s₂.heap
  temp : IsString s₄.mem temp w
  buffer : UnitBuffer s₄.mem ⟨unit, firstUnit w⟩
  spares : Spares W s s₄

theorem unit_taken (W : ℕ → Prop) {P : Region σ} (hP : P.safe s.heap)
    (hpages : ∀ i ≤ w.length, P.pages (pageOf (path + i))) (hw : IsString s.mem path w)
    (hpos : 0 < w.length) (hlen : w.length < pageSize)
    (hshort : (firstUnit w).length < fsMaxPathUnitLength)
    (h₁ : kzalloc fsMaxPathUnitLength s = .ok (unit, s₁)) (hunit : unit ≠ 0)
    (h₂ : kzalloc w.length s₁ = .ok (temp, s₂)) (htemp : temp ≠ 0) :
    ∃ s₃ s₄, UnitTaken W s w unit temp path s₂ s₃ s₄ := by
  have hfirst := firstUnit_length w
  unfold pageSize at hlen
  unfold fsMaxPathUnitLength at hshort
  have hlt : w.length < 2 ^ 32 := by omega
  have hs₁ := kzalloc_spares (fun _ ↦ False) h₁
  have hs₂ := kzalloc_spares (fun _ ↦ False) h₂
  obtain ⟨hb₁, -⟩ := kzalloc_taken h₁ hunit
  obtain ⟨hb₂, -⟩ := kzalloc_taken h₂ htemp
  have hf₁ := kzalloc_fresh h₁ hunit
  have hf₂ := kzalloc_fresh h₂ htemp
  have hle₁ := block_page_le hb₁
  have hle₂ := block_page_le hb₂
  have hbig₁ : fsMaxPathUnitLength ≤ pageSize := by decide
  unfold pageSize at hle₁ hle₂ hbig₁
  -- the buffers are apart from the path, and from each other
  have hsep₁ := fresh_apart hb₂ hf₂ (hs₁.safe P hP) hpages
  have hsep₂ := fresh_apart (R := Region.live (blockRun unit fsMaxPathUnitLength)) (k := 4095) hb₂ hf₂
    hb₁.live (fun i hi ↦ block_first_page hb₁ (Nat.lt_of_le_of_lt hi (by decide)))
  unfold pageSize at hsep₁ hsep₂
  have hw₂ : IsString s₂.mem path w := by
    refine hw.congr (fun i hi ↦ ?_)
    rw [hs₂.bytes P (hs₁.safe P hP) _ (hpages i hi) id, hs₁.bytes P hP _ (hpages i hi) id]
  have hcopy := strcpy_run temp hw₂ hlt (by omega)
  generalize hm₃ : s₂.mem.writeBytes temp (w ++ [0]) = m₃ at hcopy
  have hw₃ : IsString m₃ temp w := hm₃ ▸ IsString.written s₂.mem temp hw.no_zero
  have hunit₃ := copyUnit_run (s := ⟨s₂.heap, m₃⟩) unit hw₃ hlt (by omega)
  generalize hm₄ : m₃.writeBytes unit (firstUnit w) = m₄ at hunit₃
  refine ⟨_, _, hcopy, hunit₃, rfl, ?_, ?_, ?_⟩
  · refine hw₃.congr (fun i hi ↦ ?_)
    show m₄ (temp + i) = m₃ (temp + i)
    rw [← hm₄, writeBytes_outside (by omega)]
  · refine ⟨hunit, fun i hi ↦ ?_⟩
    show m₄ (unit + i) = (firstUnit w).getD i 0
    unfold fsMaxPathUnitLength at hi
    by_cases hin : i < (firstUnit w).length
    · rw [← hm₄, writeBytes_inside hin]
    · have hzero := (kzalloc_granted h₁ hunit).zeroed (unit + i) (by omega) (by
        rw [u32_of_lt (by decide)]
        unfold fsMaxPathUnitLength
        omega)
      have hkeep := hs₂.bytes (Region.live (blockRun unit fsMaxPathUnitLength)) hb₁.live (unit + i)
        (block_first_page hb₁ (by unfold pageSize; omega)) id
      rw [← hm₄, writeBytes_outside (by omega), ← hm₃,
        writeBytes_outside (by rw [List.length_append, List.length_singleton]; omega), hkeep, hzero,
        List.getD_eq_getElem?_getD, List.getElem?_eq_none (by omega), Option.getD_none]
  · have hstart : Spares W s s₂ := (kzalloc_spares W h₁).trans (kzalloc_spares W h₂)
      (fun _ hi ↦ Or.inl hi)
    refine hstart.store (fun i ↦ ?_)
    by_cases hin₄ : unit ≤ i ∧ i < unit + (firstUnit w).length
    · exact Or.inr (Or.inr ⟨_, hf₁, hb₁.byte_mem hin₄.1 (by unfold pageSize; omega)⟩)
    · by_cases hin₃ : temp ≤ i ∧ i < temp + (w.length + 1)
      · exact Or.inr (Or.inr ⟨_, hs₁.fresh hf₂, hb₂.byte_mem hin₃.1 (by unfold pageSize; omega)⟩)
      · refine Or.inl ?_
        rw [← hm₄, writeBytes_outside (by omega), ← hm₃,
          writeBytes_outside (by rw [List.length_append, List.length_singleton]; omega)]

def Window (path n : ℕ) : ℕ → Prop := fun i ↦ path ≤ i ∧ i ≤ path + n

structure UnitMade (s s' : Arena σ) (unit : UnitStr) : Prop where
  block : Block s' unit.addr fsMaxPathUnitLength
  fresh : Fresh s (blockRun unit.addr fsMaxPathUnitLength)
  buffer : UnitBuffer s'.mem unit

structure UnitStep (s s' : Arena σ) (path : ℕ) (w : List UInt8) (unit : Option UnitStr)
    (rest : List UInt8) : Prop where
  run : InMemory.pathGetCurrentUnitAndAdvance path s = .ok (unit.elim 0 UnitStr.addr, s')
  rest_le : rest.length ≤ w.length
  string : IsString s'.mem path rest
  spares : Spares (Window path w.length) s s'
  made : ∀ u ∈ unit, UnitMade s s' u

theorem unit_refines {P : Region σ} (hP : P.safe s.heap)
    (hpages : ∀ i ≤ w.length, P.pages (pageOf (path + i))) (hw : IsString s.mem path w)
    (hlen : w.length < pageSize) (heq : s.heap = t.heap) {unit : Option UnitStr}
    (h : pathGetCurrentUnitAndAdvance alien w t = .ok ((unit, rest), t'))
    (hshort : ∀ u ∈ unit, u.str.length < fsMaxPathUnitLength) :
    ∃ s', UnitStep s s' path w unit rest ∧ s'.heap = t'.heap := by
  have hlt : w.length < 2 ^ 32 := by
    unfold pageSize at hlen
    omega
  obtain ⟨p, t₁, ht₁, h⟩ := bind_eq_ok.mp h
  obtain ⟨s₁, hs₁, heq₁⟩ := kzalloc_same heq ht₁
  have hkeep₁ := kzalloc_spares (fun _ ↦ False) hs₁
  have hw₁ : IsString s₁.mem path w :=
    hw.congr (fun i hi ↦ hkeep₁.bytes P hP _ (hpages i hi) id)
  by_cases hnil : w.length = 0
  · rw [if_pos hnil] at h
    cases h
    refine ⟨s₁, ⟨?_, Nat.le_refl _, hw₁, kzalloc_spares _ hs₁, nofun⟩, heq₁⟩
    rw [InMemory.pathGetCurrentUnitAndAdvance, bind_run_ok hs₁, bind_run_ok (strlen_run hw₁ hlt),
      if_pos hnil]
    rfl
  rw [if_neg hnil] at h
  obtain ⟨temp, t₂, ht₂, h⟩ := bind_eq_ok.mp h
  obtain ⟨_, t₃, ht₃, h⟩ := bind_eq_ok.mp h
  obtain ⟨hp, rfl⟩ := require_eq_ok.mp ht₃
  obtain ⟨_, t₄, ht₄, h⟩ := bind_eq_ok.mp h
  obtain ⟨-, rfl⟩ := require_eq_ok.mp ht₄
  obtain ⟨_, t₅, ht₅, h⟩ := bind_eq_ok.mp h
  cases ht₅
  cases h
  have hfirst : (firstUnit w).length < fsMaxPathUnitLength := hshort _ rfl
  obtain ⟨s₂, hs₂, hz₂, htemp, heq₂⟩ := kzallocUnchecked_same heq₁ ht₂
  obtain ⟨s₃, s₄, hk⟩ := unit_taken (Window path w.length) hP hpages hw (by omega) hlen hfirst hs₁ hp
    hz₂ htemp
  obtain ⟨hadv, hnext⟩ := advance_run hk.temp
  have hrest := nextPath_length w
  have hnext_le : temp ≤ temp + (w.length - (nextPath w).length) ∧
      temp + (w.length - (nextPath w).length) + (nextPath w).length = temp + w.length := by omega
  generalize hn : temp + (w.length - (nextPath w).length) = next at hadv hnext hnext_le
  obtain ⟨hb₁, -⟩ := kzalloc_taken hs₁ hp
  obtain ⟨hb₂, -⟩ := kzalloc_taken hz₂ htemp
  have hf₁ := kzalloc_fresh hs₁ hp
  have hf₂ := kzalloc_fresh hz₂ htemp
  have hle₁ := block_page_le hb₁
  have hle₂ := block_page_le hb₂
  have hin₂ := hb₂.inside
  have hsep₁ := fresh_apart hb₁ hf₁ hP hpages
  have hsep₂ := fresh_apart hb₂ hf₂ (hkeep₁.safe P hP) hpages
  unfold pageSize at hlen hle₁ hle₂ hin₂ hsep₁ hsep₂
  have hstr : IsString s₄.mem p (firstUnit w) := by
    refine ⟨fun i hi ↦ hk.buffer.bytes i (Nat.lt_of_le_of_lt hi hfirst), fun h0 ↦ hw.no_zero ?_⟩
    exact (List.takeWhile_sublist _).subset h0
  have hshift := strcpy_run path hnext (by omega) (by omega)
  have hpage : pageOf (u32 next) ∈ blockRun temp w.length := by
    rw [u32_of_lt (by omega)]
    exact hb₂.byte_mem (by omega) (by unfold pageSize; omega)
  generalize hm : s₄.mem.writeBytes path (nextPath w ++ [0]) = m at hshift
  have hrun : InMemory.pathGetCurrentUnitAndAdvance path s =
      .ok (p, ⟨Allocator.kfree next s₄.heap, m⟩) := by
    rw [InMemory.pathGetCurrentUnitAndAdvance, bind_run_ok hs₁, bind_run_ok (strlen_run hw₁ hlt),
      if_neg hnil]
    refine (bind_run_ok hs₂).trans ((bind_run_ok hk.strcpy).trans ?_)
    refine (bind_run_ok (require_run hp)).trans ((bind_run_ok hk.copyUnit).trans ?_)
    refine (bind_run_ok (strlen_run hstr ?_)).trans ?_
    · unfold fsMaxPathUnitLength at hfirst
      omega
    refine (bind_run_ok (require_run (Nat.le_of_lt hfirst))).trans
      ((bind_run_ok (gets_run _ _)).trans ?_)
    rw [hadv, bind_run_ok hshift]
    rfl
  have hwindow : ∀ i, ¬ Window path w.length i → m i = s₄.mem i := by
    intro i hi
    unfold Window at hi
    rw [← hm, writeBytes_outside (by rw [List.length_append, List.length_singleton]; omega)]
  refine ⟨_, ⟨hrun, hrest, hm ▸ IsString.written _ _ ?_, ?_, ?_⟩, ?_⟩
  · exact fun h0 ↦ hw.no_zero ((List.dropWhile_sublist _).subset (List.mem_of_mem_drop h0))
  · refine (hk.spares.store (m := m) (fun i ↦ ?_)).free (hkeep₁.fresh hf₂) hpage
    by_cases hi : Window path w.length i
    · exact Or.inr (Or.inl hi)
    · exact Or.inl (hwindow i hi)
  · rintro u ⟨⟩
    refine ⟨hb₁.keep ?_, hf₁, hk.buffer.congr (fun i hi ↦ hwindow (p + i) ?_)⟩
    · refine (Region.live _).kfree_safe _ next ?_ (hf₂ (Region.live _) hb₁.live _ hpage)
      rw [hk.heap]
      exact (kzalloc_spares (fun _ ↦ False) hz₂).safe (Region.live _) hb₁.live
    · unfold Window
      unfold fsMaxPathUnitLength at hi
      omega
  · rw [hk.heap, heq₂, ← hn]
    rfl

def Link (p : ℕ) : ℕ → Prop := fun i ↦ p + 4 ≤ i ∧ i < p + 8

def linked (m : ByteMemory) (p link str : ℕ) : ByteMemory :=
  ((m.store32 link str).store32 (link + 4) 0).store32 (p + 4) link

theorem linked_outside {m : ByteMemory} {p link str i : ℕ} (h : i < link ∨ link + 8 ≤ i)
    (h' : ¬ Link p i) : linked m p link str i = m i := by
  unfold Link at h'
  rw [linked, store32_outside (by omega), store32_outside (by omega), store32_outside (by omega)]

theorem linked_loads (m : ByteMemory) {p link str : ℕ} (hsep : p + 8 ≤ link ∨ link + 8 ≤ p)
    (hlink : link < 2 ^ 32) (hstr : str < 2 ^ 32) :
    (linked m p link str).load32 (p + 4) = link ∧ (linked m p link str).load32 link = str ∧
      (linked m p link str).load32 (link + 4) = 0 := by
  refine ⟨load32_store32_self hlink, ?_, ?_⟩
  · rw [linked, load32_store32_other (by omega), load32_store32_other (by omega),
      load32_store32_self hstr]
  · rw [linked, load32_store32_other (by omega), load32_store32_self (Nat.two_pow_pos 32)]

/-- The list behind the unit at `p` lies in blocks allocated since `s`: it is
there in every memory that has kept these and the link. -/
def ListMade (s s' : Arena σ) (p : ℕ) (units : List UnitStr) : Prop :=
  ∀ m : ByteMemory, (∀ r i, Fresh s r → pageOf i ∈ r → m i = s'.mem i) →
    (∀ i, Link p i → m i = s'.mem i) → UnitList m (m.load32 (p + 4)) units

/-- The memory behind a turn of the loop that made the unit at `link`, with the
string of `u`, and put it behind the unit at `ptr`. Nothing is written over
anything else. -/
structure NodeLinked (s t : Arena σ) (path n ptr link : ℕ) (u : UnitStr) (rest : List UInt8) :
    Prop where
  node : Block t link 8
  unit : Block t u.addr fsMaxPathUnitLength
  fresh : Fresh s (blockRun link 8)
  path_node : path + n < link ∨ link + 8 ≤ path
  path_unit : path + n < u.addr ∨ u.addr + 64 ≤ path
  unit_node : u.addr + 63 < link ∨ link + 8 ≤ u.addr
  ptr_node : ptr + 8 ≤ link ∨ link + 8 ≤ ptr
  ptr_next : t.mem.load32 (ptr + 4) = link
  str : t.mem.load32 link = u.addr
  next : t.mem.load32 (link + 4) = 0
  string : IsString t.mem path rest
  buffer : UnitBuffer t.mem u
  spares : Spares (fun i ↦ Window path n i ∨ Link ptr i) s t

theorem UnitStep.nodeLinked {P Q : Region σ} {rest : List UInt8} {u : UnitStr} {ptr link : ℕ}
    (hstep : UnitStep s s₁ path w (some u) rest) (hP : P.safe s.heap)
    (hpages : ∀ i ≤ w.length, P.pages (pageOf (path + i))) (hQ : Q.safe s.heap)
    (hptr : ∀ i ≤ 7, Q.pages (pageOf (ptr + i)))
    (hsep : path + w.length < ptr ∨ ptr + 8 ≤ path) (hz : kzalloc 8 s₁ = .ok (link, s₂))
    (hlink : link ≠ 0) :
    NodeLinked s ⟨s₂.heap, linked s₂.mem ptr link u.addr⟩ path w.length ptr link u rest := by
  have hmade := hstep.made u rfl
  have hP₁ := hstep.spares.safe P hP
  have hkeep := kzalloc_spares (fun _ ↦ False) hz
  obtain ⟨hb, -⟩ := kzalloc_taken hz hlink
  have hf := kzalloc_fresh hz hlink
  have hle := block_page_le hb
  have hle' := block_page_le hmade.block
  have hunit : ∀ i ≤ 63, (Region.live (blockRun u.addr fsMaxPathUnitLength) : Region σ).pages
      (pageOf (u.addr + i)) :=
    fun i hi ↦ block_first_page hmade.block (Nat.lt_of_le_of_lt hi (by decide))
  -- the new unit, its string, the path and the last unit are apart from each other
  have hsep₁ := fresh_apart hb hf hP₁ hpages
  have hsep₂ := fresh_apart hb hf (hstep.spares.safe Q hQ) hptr
  have hsep₃ := fresh_apart hb hf hmade.block.live hunit
  have hsep₄ := fresh_apart hmade.block hmade.fresh hP hpages
  have hsep₅ := fresh_apart hmade.block hmade.fresh hQ hptr
  unfold pageSize at hle hle' hsep₁ hsep₂ hsep₃ hsep₄ hsep₅
  have hrest := hstep.rest_le
  have hptr_node : ptr + 8 ≤ link ∨ link + 8 ≤ ptr := by omega
  obtain ⟨hload₁, hload₂, hload₃⟩ := linked_loads s₂.mem hptr_node hb.lt hmade.block.lt
  have hout : ∀ i, (i < link ∨ link + 8 ≤ i) → ¬ Link ptr i →
      linked s₂.mem ptr link u.addr i = s₂.mem i := fun i h₁ h₂ ↦ linked_outside h₁ h₂
  have hfresh := hstep.spares.fresh hf
  have hunit_live := hkeep.safe (Region.live _) hmade.block.live
  refine ⟨hb.keep hb.live, hmade.block.keep hunit_live, hfresh, by omega, by omega, by omega,
    hptr_node, hload₁, hload₂, hload₃, ?_, ?_, ?_⟩
  · refine hstep.string.congr (fun i hi ↦ ?_)
    show linked s₂.mem ptr link u.addr (path + i) = _
    rw [hout _ (by omega) (by unfold Link; omega)]
    exact hkeep.bytes P hP₁ _ (hpages i (by omega)) id
  · refine hmade.buffer.congr (fun i hi ↦ ?_)
    have hi' : i ≤ 63 := Nat.le_of_lt_succ hi
    show linked s₂.mem ptr link u.addr (u.addr + i) = _
    rw [hout _ (by omega) (by unfold Link; omega),
      hkeep.bytes _ hmade.block.live _ (hunit i hi') id]
  · have hstart := (hstep.spares.mono (V := fun i ↦ Window path w.length i ∨ Link ptr i)
      (fun _ ↦ Or.inl)).trans hkeep nofun
    refine hstart.store (fun i ↦ ?_)
    by_cases hi : i < link ∨ link + 8 ≤ i
    · by_cases hi' : Link ptr i
      · exact Or.inr (Or.inl (Or.inr hi'))
      · exact Or.inl (hout i hi hi')
    · exact Or.inr (Or.inr ⟨_, hfresh, hb.byte_mem (by omega) (by unfold pageSize; omega)⟩)

theorem NodeLinked.listMade {n ptr link : ℕ} {u : UnitStr} {rest : List UInt8} {Q : Region σ}
    {units : List UnitStr} (h : NodeLinked s t path n ptr link u rest)
    (hu : Fresh s (blockRun u.addr fsMaxPathUnitLength)) (hQ : Q.safe s.heap)
    (hptr : ∀ i ≤ 7, Q.pages (pageOf (ptr + i)))
    (hsep : path + n < ptr ∨ ptr + 8 ≤ path)
    (hkeep : Spares (fun i ↦ Window path n i ∨ Link link i) t t')
    (hlist : ListMade t t' link units) : ListMade s t' ptr (u :: units) := by
  have hunit : ∀ i ≤ 63, (Region.live (blockRun u.addr fsMaxPathUnitLength) : Region σ).pages
      (pageOf (u.addr + i)) :=
    fun i hi ↦ block_first_page h.unit (Nat.lt_of_le_of_lt hi (by decide))
  have hnode : ∀ i ≤ 7, (Region.live (blockRun link 8) : Region σ).pages (pageOf (link + i)) :=
    fun i hi ↦ block_first_page h.node (Nat.lt_of_le_of_lt hi (by decide))
  have hpath := h.path_node
  have hpathUnit := h.path_unit
  have hunitNode := h.unit_node
  have hptrNode := h.ptr_node
  have hlater : ∀ {R : Region σ}, R.safe t.heap → ∀ i, R.pages (pageOf i) →
      (path + n < i ∨ i < path) → (i < link + 4 ∨ link + 8 ≤ i) → t'.mem i = t.mem i := by
    intro R hR i hi h₁ h₂
    refine hkeep.bytes R hR i hi ?_
    unfold Window Link
    omega
  have hhead : t'.mem.load32 (ptr + 4) = link := by
    refine (load32_congr (fun i h₁ h₂ ↦ ?_)).trans h.ptr_next
    obtain ⟨j, rfl⟩ := Nat.exists_eq_add_of_le (show ptr ≤ i by omega)
    exact hlater (h.spares.safe Q hQ) _ (hptr j (by omega)) (by omega) (by omega)
  have hstr : t'.mem.load32 link = u.addr := by
    refine (load32_congr (fun i h₁ h₂ ↦ ?_)).trans h.str
    obtain ⟨j, rfl⟩ := Nat.exists_eq_add_of_le h₁
    exact hlater h.node.live _ (hnode j (by omega)) (by omega) (by omega)
  have hbuffer : UnitBuffer t'.mem u := by
    refine h.buffer.congr (fun i hi ↦ ?_)
    have hi' : i ≤ 63 := Nat.le_of_lt_succ hi
    exact hlater h.unit.live _ (hunit i hi') (by omega) (by omega)
  intro m hm hlast
  have hlink : m.load32 (ptr + 4) = link :=
    (load32_congr (fun i h₁ h₂ ↦ hlast i ⟨h₁, h₂⟩)).trans hhead
  have hnode' : ∀ i ≤ 7, m (link + i) = t'.mem (link + i) := fun i hi ↦ hm _ _ h.fresh (hnode i hi)
  rw [hlink]
  refine ⟨h.node.ne_zero, ?_, hbuffer.congr (fun i hi ↦ ?_),
    hlist m (fun r i hr ↦ hm r i (h.spares.fresh hr)) ?_⟩
  · refine (load32_congr (fun i h₁ h₂ ↦ ?_)).trans hstr
    obtain ⟨j, rfl⟩ := Nat.exists_eq_add_of_le h₁
    exact hnode' j (by omega)
  · exact hm _ _ hu (hunit i (Nat.le_of_lt_succ hi))
  · rintro i ⟨h₁, h₂⟩
    obtain ⟨j, rfl⟩ := Nat.exists_eq_add_of_le (show link ≤ i by omega)
    exact hnode' j (by omega)

theorem units_refine {P : Region σ} : ∀ fuel fuel' (w : List UInt8) ptr (s t t' : Arena σ) units
    (Q : Region σ), fuel ≤ fuel' → P.safe s.heap → (∀ i ≤ w.length, P.pages (pageOf (path + i))) →
    IsString s.mem path w → w.length < pageSize → s.heap = t.heap →
    parseUnits alien fuel w t = .ok (units, t') → (∀ u ∈ units, u.str.length < fsMaxPathUnitLength) →
    Q.safe s.heap → (∀ i ≤ 7, Q.pages (pageOf (ptr + i))) →
    path + w.length < ptr ∨ ptr + 8 ≤ path → s.mem.load32 (ptr + 4) = 0 →
    ∃ s', InMemory.parseUnits fuel' path ptr s = .ok ((), s') ∧ s'.heap = t'.heap ∧
      ListMade s s' ptr units ∧
      Spares (fun i ↦ Window path w.length i ∨ Link ptr i) s s' := by
  intro fuel
  induction fuel with
  | zero => intro fuel' w ptr s t t' units Q _ _ _ _ _ _ h; cases h
  | succ fuel ih =>
    intro fuel' w ptr s t t' units Q hfuel hP hpages hw hlen heq h hshort hQ hptr hsep hnull
    obtain ⟨fuel', rfl⟩ := Nat.exists_eq_succ_of_ne_zero (Nat.ne_of_gt (Nat.lt_of_lt_of_le
      (Nat.succ_pos fuel) hfuel))
    obtain ⟨⟨unit, rest⟩, t₁, ht₁, h⟩ := bind_eq_ok.mp h
    cases unit with
    | none =>
      cases h
      obtain ⟨s₁, hstep, heq₁⟩ := unit_refines hP hpages hw hlen heq ht₁ nofun
      have hkeep : s₁.mem.load32 (ptr + 4) = 0 := by
        refine (load32_congr (fun i h₁ h₂ ↦ ?_)).trans hnull
        obtain ⟨j, rfl⟩ := Nat.exists_eq_add_of_le (show ptr ≤ i by omega)
        refine hstep.spares.bytes Q hQ _ (hptr j (by omega)) ?_
        unfold Window
        omega
      refine ⟨s₁, ?_, heq₁, fun m _ hm ↦ ?_, hstep.spares.mono (fun _ ↦ Or.inl)⟩
      · rw [InMemory.parseUnits, bind_run_ok hstep.run]
        rfl
      · exact (load32_congr (fun i h₁ h₂ ↦ hm i ⟨h₁, h₂⟩)).trans hkeep
    | some u =>
      obtain ⟨link, t₂, ht₂, h⟩ := bind_eq_ok.mp h
      obtain ⟨units', t₃, ht₃, h⟩ := bind_eq_ok.mp h
      cases h
      obtain ⟨s₁, hstep, heq₁⟩ := unit_refines hP hpages hw hlen heq ht₁
        (fun v hv ↦ hshort v (Option.mem_some.mp hv ▸ List.mem_cons_self))
      have hmade := hstep.made u rfl
      obtain ⟨s₂, hs₂, hz₂, hlink, heq₂⟩ := kzallocUnchecked_same heq₁ ht₂
      have hn := hstep.nodeLinked hP hpages hQ hptr hsep hz₂ hlink
      have hnode : ∀ i ≤ 7, (Region.live (blockRun link 8) : Region σ).pages (pageOf (link + i)) :=
        fun i hi ↦ block_first_page hn.node (Nat.lt_of_le_of_lt hi (by decide))
      have hrest := hstep.rest_le
      have hpath := hn.path_node
      obtain ⟨s₄, hrun, heq₄, hlist, hkeep₄⟩ := ih fuel' rest link _ t₂ t' units'
        (Region.live (blockRun link 8)) (by omega) (hn.spares.safe P hP)
        (fun i hi ↦ hpages i (by omega)) hn.string (by omega) heq₂ ht₃
        (fun v hv ↦ hshort v (List.mem_cons_of_mem _ hv)) hn.node.live hnode (by omega) hn.next
      -- what is left of the path lies in the window of the whole
      have hkeep : Spares (fun i ↦ Window path w.length i ∨ Link link i)
          ⟨s₂.heap, linked s₂.mem ptr link u.addr⟩ s₄ := by
        refine hkeep₄.mono (fun i hi ↦ hi.imp_left (fun hi ↦ ?_))
        unfold Window at *
        omega
      refine ⟨s₄, ?_, heq₄, hn.listMade hmade.fresh hQ hptr hsep hkeep hlist,
        hn.spares.trans hkeep (fun i hi ↦ ?_)⟩
      · have hne : (some u).elim 0 UnitStr.addr ≠ 0 := hmade.block.ne_zero
        rw [InMemory.parseUnits, bind_run_ok hstep.run, if_neg hne]
        exact (bind_run_ok hs₂).trans hrun
      · rcases hi with hi | hi
        · exact Or.inl (Or.inl hi)
        · unfold Link at hi
          have hle := block_page_le hn.node
          unfold pageSize at hle
          exact Or.inr ⟨_, hn.fresh, hn.node.byte_mem (by omega) (by unfold pageSize; omega)⟩

omit [Allocator σ] [LawfulAllocator σ] in
theorem parseDrive_run {copy : ℕ} (hw : IsString s.mem copy w) (hpos : 0 < w.length)
    (hlen : w.length < 2 ^ 32) :
    InMemory.parseDrive copy s = .ok (parseDrive w, s) := by
  cases w with
  | nil => cases hpos
  | cons c w =>
    obtain ⟨hc, -, -⟩ := hw.tail
    rw [InMemory.parseDrive]
    refine (bind_run_ok (gets_run _ _)).trans ?_
    rw [hc, parseDrive]
    by_cases hdrive : 65 ≤ c ∧ c ≤ 90
    · rw [if_pos hdrive, bind_run_ok (strlen_run hw hlen)]
      by_cases hthree : (c :: w).length ≥ 3
      · rw [if_pos hthree, if_pos ⟨hdrive.1, hdrive.2, hthree⟩]
        rfl
      · rw [if_neg hthree, if_neg (fun h ↦ hthree h.2.2)]
        rfl
    · rw [if_neg hdrive, if_neg (fun h ↦ hdrive ⟨h.1, h.2.1⟩)]
      rfl

structure HeadAt (m : ByteMemory) (head : ℕ) (first : Option UnitStr) (units : List UnitStr) :
    Prop where
  str : m.load32 head = first.elim 0 UnitStr.addr
  buffer : ∀ u ∈ first, UnitBuffer m u
  rest : UnitList m (m.load32 (head + 4)) units

theorem head_refines {P : Region σ} {head fuel fuel' : ℕ} {t₁ : Arena σ} {first : Option UnitStr}
    {units : List UnitStr} (hP : P.safe s.heap) (hpages : ∀ i ≤ w.length, P.pages (pageOf (path + i)))
    (hw : IsString s.mem path w) (hlen : w.length < pageSize) (heq : s.heap = t.heap)
    (hb : Block s head 8) (hsep : path + w.length < head ∨ head + 8 ≤ path) (hfuel : fuel ≤ fuel')
    (h₁ : pathGetCurrentUnitAndAdvance alien w t = .ok ((first, rest), t₁))
    (h₂ : parseUnits alien fuel rest t₁ = .ok (units, t'))
    (hshort : ∀ u ∈ first.toList ++ units, u.str.length < fsMaxPathUnitLength) :
    ∃ s₁ s', UnitStep s s₁ path w first rest ∧ InMemory.parseUnits fuel' path head
        ⟨s₁.heap, (s₁.mem.store32 head (first.elim 0 UnitStr.addr)).store32 (head + 4) 0⟩ =
          .ok ((), s') ∧ s'.heap = t'.heap ∧
      Spares (fun i ↦ Window path w.length i ∨ (head ≤ i ∧ i < head + 8)) s s' ∧
      ∀ m : ByteMemory, (∀ r i, Fresh s r → pageOf i ∈ r → m i = s'.mem i) →
        (∀ i, head ≤ i → i < head + 8 → m i = s'.mem i) → HeadAt m head first units := by
  obtain ⟨s₁, hstep, heq₁⟩ := unit_refines hP hpages hw hlen heq h₁
    (fun u hu ↦ hshort u (List.mem_append_left _ (Option.mem_toList.mpr hu)))
  have hrest := hstep.rest_le
  have hle := block_page_le hb
  have hnode : ∀ i ≤ 7, (Region.live (blockRun head 8) : Region σ).pages (pageOf (head + i)) :=
    fun i hi ↦ block_first_page hb (Nat.lt_of_le_of_lt hi (by decide))
  have hhead₁ := hstep.spares.safe (Region.live (blockRun head 8)) hb.live
  have hapart : ∀ u ∈ first, u.addr + 63 < head ∨ head + 8 ≤ u.addr := by
    intro u hu
    have hmade := hstep.made u hu
    have hle' := block_page_le hmade.block
    have h := fresh_apart hmade.block hmade.fresh (R := Region.live (blockRun head 8)) hb.live hnode
    unfold pageSize at *
    omega
  have haddr : first.elim 0 UnitStr.addr < 2 ^ 32 := by
    cases first with
    | none => exact Nat.two_pow_pos 32
    | some u => exact (hstep.made u rfl).block.lt
  generalize hm : (s₁.mem.store32 head (first.elim 0 UnitStr.addr)).store32 (head + 4) 0 = m₂
  have hout : ∀ i, (i < head ∨ head + 8 ≤ i) → m₂ i = s₁.mem i := by
    intro i hi
    rw [← hm, store32_outside (by omega), store32_outside (by omega)]
  have hload : m₂.load32 head = first.elim 0 UnitStr.addr := by
    rw [← hm, load32_store32_other (by omega), load32_store32_self haddr]
  have hnull : m₂.load32 (head + 4) = 0 := by
    rw [← hm, load32_store32_self (Nat.two_pow_pos 32)]
  obtain ⟨s', hrun, heq', hlist, hkeep⟩ := units_refine (s := ⟨s₁.heap, m₂⟩) fuel fuel' rest head
    t₁ t' units (Region.live (blockRun head 8)) hfuel (hstep.spares.safe P hP)
    (fun i hi ↦ hpages i (by omega)) (hstep.string.congr (fun i hi ↦ hout _ (by omega))) (by omega) heq₁ h₂
    (fun u hu ↦ hshort u (List.mem_append_right _ hu)) hhead₁ hnode (by omega) hnull
  have hmid : Spares (fun i ↦ Window path w.length i ∨ (head ≤ i ∧ i < head + 8)) s
      ⟨s₁.heap, m₂⟩ := by
    refine (hstep.spares.mono (fun _ ↦ Or.inl)).store (fun i ↦ ?_)
    by_cases hi : i < head ∨ head + 8 ≤ i
    · exact Or.inl (hout i hi)
    · exact Or.inr (Or.inl (Or.inr (by omega)))
  have hlater : ∀ {R : Region σ}, R.safe s₁.heap → ∀ i, R.pages (pageOf i) →
      (path + w.length < i ∨ i < path) → (i < head + 4 ∨ head + 8 ≤ i) → s'.mem i = m₂ i := by
    intro R hR i hi h₁ h₂
    refine hkeep.bytes R hR i hi ?_
    unfold Window Link
    omega
  refine ⟨s₁, s', hstep, hm ▸ hrun, heq', hmid.trans hkeep (fun i hi ↦ Or.inl ?_),
    fun m hfresh hhead ↦ ⟨?_, ?_, ?_⟩⟩
  · unfold Window Link at *
    omega
  · refine (load32_congr (fun i h₁ h₂ ↦ ?_)).trans hload
    obtain ⟨j, rfl⟩ := Nat.exists_eq_add_of_le h₁
    rw [hhead _ (by omega) (by omega)]
    exact hlater hhead₁ _ (hnode j (by omega)) (by omega) (by omega)
  · intro u hu
    have hmade := hstep.made u hu
    refine hmade.buffer.congr (fun i hi ↦ ?_)
    have hle' := block_page_le hmade.block
    have hpage : pageOf (u.addr + i) ∈ blockRun u.addr fsMaxPathUnitLength :=
      block_first_page hmade.block (Nat.lt_trans hi (by decide))
    have hsep₁ := fresh_apart hmade.block hmade.fresh hP hpages
    have hsep₂ := hapart u hu
    unfold pageSize at hle' hsep₁
    unfold fsMaxPathUnitLength at hi
    rw [hfresh _ _ hmade.fresh hpage, hlater (R := Region.live (blockRun u.addr fsMaxPathUnitLength))
      hmade.block.live _ hpage (by unfold fsMaxPathUnitLength at *; omega) (by omega),
      hout _ (by omega)]
  · refine hlist m (fun r i hr ↦ hfresh r i (hmid.fresh hr)) (fun i hi ↦ ?_)
    unfold Link at hi
    exact hhead i (by omega) (by omega)

theorem parseBehindDrive_refines {P : Region σ} {parsed copy fuel head₀ : ℕ} {t₁ t₂ : Arena σ}
    {first : Option UnitStr} {units : List UnitStr} (drive : UInt8) (hP : P.safe s.heap)
    (hpages : ∀ i ≤ w.length, P.pages (pageOf (copy + i))) (hw : IsString s.mem copy w)
    (hthree : 3 ≤ w.length) (hlen : w.length ≤ fsMaxPathLength) (heq : s.heap = t.heap)
    (hb : Block s parsed 8) (hsep : copy + w.length < parsed ∨ parsed + 8 ≤ copy)
    (hfuel : fuel ≤ fsMaxPathLength + 1) (h₀ : kzallocUnchecked 8 t = .ok (head₀, t₁))
    (h₁ : pathGetCurrentUnitAndAdvance alien (w.drop 3) t₁ = .ok ((first, rest), t₂))
    (h₂ : parseUnits alien fuel rest t₂ = .ok (units, t'))
    (hshort : ∀ u ∈ first.toList ++ units, u.str.length < fsMaxPathUnitLength) :
    ∃ s', InMemory.parseBehindDrive parsed copy drive s = .ok (parsed, s') ∧ s'.heap = t'.heap ∧
      Spares (fun i ↦ Window copy w.length i ∨ (parsed ≤ i ∧ i < parsed + 8)) s s' ∧
      PathAt s'.mem ⟨parsed, drive, first, units⟩ := by
  have hle := block_page_le hb
  have hdrop : (w.drop 3).length = w.length - 3 := List.length_drop
  have hnode : ∀ i ≤ 7, (Region.live (blockRun parsed 8) : Region σ).pages (pageOf (parsed + i)) :=
    fun i hi ↦ block_first_page hb (Nat.lt_of_le_of_lt hi (by decide))
  obtain ⟨s₁, hs₁, hz₁, hhead, heq₁⟩ :=
    kzallocUnchecked_same (s := ⟨s.heap, update s.mem parsed drive⟩) heq h₀
  have hkeep₁ := kzalloc_spares (fun _ ↦ False) hz₁
  obtain ⟨hb₁, -⟩ := kzalloc_taken hz₁ hhead
  have hf₁ := kzalloc_fresh hz₁ hhead
  have hle₁ := block_page_le hb₁
  -- the head is apart from the path and from its struct
  have hsep₁ := fresh_apart hb₁ hf₁ hP hpages
  have hsep₂ := fresh_apart hb₁ hf₁ (R := Region.live (blockRun parsed 8)) hb.live hnode
  unfold pageSize at hle hle₁ hsep₁ hsep₂
  have hw₁ : IsString s₁.mem (copy + 3) (w.drop 3) := by
    refine (hw.drop hthree).congr (fun i hi ↦ ?_)
    rw [Nat.add_assoc, hkeep₁.bytes P hP _ (hpages _ (by omega)) id]
    exact update_of_ne (by omega) _ _
  obtain ⟨s₂, s₃, hstep, hrun, heq₃, hkeep₃, hhead₃⟩ := head_refines (s := s₁)
    (hkeep₁.safe P hP) (fun i hi ↦ Nat.add_assoc copy 3 i ▸ hpages (3 + i) (by omega)) hw₁
    (by unfold pageSize; unfold fsMaxPathLength at hlen; omega) heq₁ hb₁ (by omega) hfuel h₁ h₂ hshort
  have hparsed := hkeep₁.safe (Region.live (blockRun parsed 8)) hb.live
  have hdrive : s₃.mem parsed = drive := by
    have hzero := hnode 0 (Nat.zero_le 7)
    rw [hkeep₃.bytes _ hparsed parsed hzero (by unfold Window; omega),
      hkeep₁.bytes _ hb.live parsed hzero id]
    exact update_self _ _ _
  generalize hm : s₃.mem.store32 (parsed + 4) head₀ = m
  have hout : ∀ i, (i < parsed + 4 ∨ parsed + 8 ≤ i) → m i = s₃.mem i :=
    fun i hi ↦ hm ▸ store32_outside (by omega)
  have hload : m.load32 (parsed + 4) = head₀ := hm ▸ load32_store32_self hb₁.lt
  have hat := hhead₃ m (fun r i hr hi ↦ hout i ?_) (fun i h₁ h₂ ↦ hout i (by omega))
  · refine ⟨⟨s₃.heap, m⟩, ?_, heq₃, ?_, hb.ne_zero, (hout parsed (by omega)).trans hdrive,
      fun h ↦ hb₁.ne_zero (hload.symm.trans h), ?_, hat.buffer, ?_⟩
    · rw [InMemory.parseBehindDrive, bind_run_ok (require_run hb.ne_zero)]
      refine (bind_run_ok (modifyState_run _ _)).trans ((bind_run_ok hs₁).trans ?_)
      refine (bind_run_ok hstep.run).trans ((bind_run_ok (modifyState_run _ _)).trans ?_)
      refine (bind_run_ok (modifyState_run _ _)).trans ((bind_run_ok hrun).trans ?_)
      rw [← hm]
      rfl
    · have hfirst : Spares (fun i ↦ Window copy w.length i ∨ (parsed ≤ i ∧ i < parsed + 8)) s
          ⟨s.heap, update s.mem parsed drive⟩ := by
        refine (Spares.refl _ s).store (fun i ↦ ?_)
        by_cases hi : i = parsed
        · exact Or.inr (Or.inl (Or.inr (by omega)))
        · exact Or.inl (update_of_ne hi _ _)
      refine Spares.store ((hfirst.trans hkeep₁ nofun).trans hkeep₃ (fun i hi ↦ ?_)) (fun i ↦ ?_)
      · rcases hi with hi | hi
        · unfold Window at *
          exact Or.inl (Or.inl (by omega))
        · exact Or.inr ⟨_, hf₁, hb₁.byte_mem hi.1 (by unfold pageSize; omega)⟩
      · by_cases hi : i < parsed + 4 ∨ parsed + 8 ≤ i
        · exact Or.inl (hout i hi)
        · exact Or.inr (Or.inl (Or.inr (by omega)))
    · show m.load32 (m.load32 (parsed + 4)) = _
      rw [hload]
      exact hat.str
    · show UnitList m (m.load32 (m.load32 (parsed + 4) + 4)) units
      rw [hload]
      exact hat.rest
  · by_contra hc
    refine hr (Region.live (blockRun parsed 8)) hparsed _ hi ?_
    obtain ⟨j, rfl⟩ := Nat.exists_eq_add_of_le (show parsed ≤ i by omega)
    exact hnode j (by omega)

/-- The parser on the memory does what the parser on the text does: it returns
a path with the same drive and units, on the same heap, and writes to nothing
that was protected. -/
theorem parsePath_refines {R : Region σ} (hR : R.safe s.heap)
    (hpages : ∀ i ≤ w.length, R.pages (pageOf (path + i))) (hw : IsString s.mem path w)
    (heq : s.heap = t.heap) {o : Option Path} (h : parsePath alien w t = .ok (o, t'))
    (hshort : ∀ q ∈ o, ∀ u ∈ q.first.toList ++ q.rest, u.str.length < fsMaxPathUnitLength) :
    ∃ s', InMemory.parsePath path s = .ok (o.elim 0 Path.addr, s') ∧ s'.heap = t'.heap ∧
      Spares (fun _ ↦ False) s s' ∧ ∀ q ∈ o, PathAt s'.mem q := by
  obtain ⟨_, t₀, ht₀, h⟩ := bind_eq_ok.mp h
  obtain ⟨hlen, rfl⟩ := require_eq_ok.mp ht₀
  obtain ⟨parsed, t₁, ht₁, h⟩ := bind_eq_ok.mp h
  obtain ⟨copy, t₂, ht₂, h⟩ := bind_eq_ok.mp h
  obtain ⟨s₁, hs₁, heq₁⟩ := kzalloc_same heq ht₁
  obtain ⟨s₂, hs₂, hz₂, hcopy, heq₂⟩ := kzallocUnchecked_same heq₁ ht₂
  have hkeep₁ := kzalloc_spares (fun _ ↦ False) hs₁
  have hkeep₂ := kzalloc_spares (fun _ ↦ False) hz₂
  obtain ⟨hb, -⟩ := kzalloc_taken hz₂ hcopy
  have hf := kzalloc_fresh hz₂ hcopy
  have hle := block_page_le hb
  have hsep := fresh_apart hb hf (hkeep₁.safe R hR) hpages
  have hpos := hb.pos
  have hmax : w.length ≤ 512 := hlen
  rw [u32_of_lt (by omega)] at hpos
  have hlt : w.length < 2 ^ 32 := by omega
  have hbyte : ∀ i ≤ w.length, pageOf (copy + i) ∈ blockRun copy w.length :=
    fun i hi ↦ block_first_page hb (by unfold pageSize; omega)
  unfold pageSize at hle hsep
  have hw₂ : IsString s₂.mem path w := by
    refine hw.congr (fun i hi ↦ ?_)
    rw [hkeep₂.bytes R (hkeep₁.safe R hR) _ (hpages i hi) id, hkeep₁.bytes R hR _ (hpages i hi) id]
  have hcopied := strcpy_run copy hw₂ hlt (by omega)
  generalize hm₃ : s₂.mem.writeBytes copy (w ++ [0]) = m₃ at hcopied
  have hw₃ : IsString m₃ copy w := hm₃ ▸ IsString.written s₂.mem copy hw.no_zero
  have hkeep₃ : Spares (fun _ ↦ False) s ⟨s₂.heap, m₃⟩ := by
    refine (hkeep₁.trans hkeep₂ nofun).store (fun i ↦ ?_)
    by_cases hi : copy ≤ i ∧ i ≤ copy + w.length
    · obtain ⟨j, rfl⟩ := Nat.exists_eq_add_of_le hi.1
      exact Or.inr (Or.inr ⟨_, hkeep₁.fresh hf, hbyte j (by omega)⟩)
    · refine Or.inl ?_
      rw [← hm₃, writeBytes_outside (by rw [List.length_append, List.length_singleton]; omega)]
  have hdrive := parseDrive_run (s := ⟨s₂.heap, m₃⟩) hw₃ hpos hlt
  cases hd : parseDrive w with
  | none =>
    rw [hd] at h hdrive
    cases h
    refine ⟨⟨s₂.heap, m₃⟩, ?_, heq₂, hkeep₃, nofun⟩
    rw [InMemory.parsePath, bind_run_ok (strlen_run hw hlt), bind_run_ok (require_run hlen),
      bind_run_ok hs₁, bind_run_ok hs₂, bind_run_ok hcopied, bind_run_ok hdrive]
    rfl
  | some drive =>
    rw [hd] at h hdrive
    obtain ⟨_, t₃, ht₃, h⟩ := bind_eq_ok.mp h
    obtain ⟨hparsed, rfl⟩ := require_eq_ok.mp ht₃
    obtain ⟨head, t₄, ht₄, h⟩ := bind_eq_ok.mp h
    obtain ⟨⟨first, rest⟩, t₅, ht₅, h⟩ := bind_eq_ok.mp h
    obtain ⟨units, t₆, ht₆, h⟩ := bind_eq_ok.mp h
    cases h
    obtain ⟨hb₁, -⟩ := kzalloc_taken hs₁ hparsed
    have hf₁ := kzalloc_fresh hs₁ hparsed
    have hle₁ := block_page_le hb₁
    unfold pageSize at hle₁
    have hnode : ∀ i ≤ 7, (Region.live (blockRun parsed 8) : Region σ).pages (pageOf (parsed + i)) :=
      fun i hi ↦ block_first_page hb₁ (Nat.lt_of_le_of_lt hi (by decide))
    have hsep₁ := fresh_apart hb hf (R := Region.live (blockRun parsed 8)) hb₁.live hnode
    unfold pageSize at hsep₁
    have hrest := pathGetCurrentUnitAndAdvance_length ht₅
    rw [List.length_drop] at hrest
    obtain ⟨s₄, hrun, heq₄, hkeep₄, hpath⟩ := parseBehindDrive_refines (s := ⟨s₂.heap, m₃⟩) drive
      (P := Region.live (blockRun copy w.length)) hb.live hbyte hw₃ (parseDrive_some hd).2.2.1 hlen
      heq₂
      (hb₁.keep (hkeep₂.safe (Region.live _) hb₁.live)) (by omega) (by omega) ht₄ ht₅ ht₆
      (hshort _ rfl)
    refine ⟨s₄, ?_, heq₄, hkeep₃.trans hkeep₄ (fun i hi ↦ Or.inr ?_), ?_⟩
    · rw [InMemory.parsePath, bind_run_ok (strlen_run hw hlt), bind_run_ok (require_run hlen),
        bind_run_ok hs₁, bind_run_ok hs₂, bind_run_ok hcopied, bind_run_ok hdrive]
      exact hrun
    · rcases hi with ⟨h₁, h₂⟩ | ⟨h₁, h₂⟩
      · obtain ⟨j, rfl⟩ := Nat.exists_eq_add_of_le h₁
        exact ⟨_, hkeep₁.fresh hf, hbyte j (by omega)⟩
      · obtain ⟨j, rfl⟩ := Nat.exists_eq_add_of_le h₁
        exact ⟨_, hf₁, hnode j (by omega)⟩
    · rintro q ⟨⟩
      exact hpath

end Lawful

end GammaOS.Fs
