import GammaOS.Fs.Fat16Frame
import GammaOS.Fs.FdTableRuns

namespace GammaOS.Fs

open Function Foundation Foundation.Program Memory

variable {σ : Type} [Allocator σ] {v : Fat16Volume} {alien : ByteMemory} {s s' : Arena σ} {a : ℕ}

def Held (s : Arena σ) (a : ℕ) : Prop := a = 0 ∨ ∃ q ∈ s.live, pageOf (u32 a) ∈ q

def UnitContent.blocks : UnitContent → List ℕ
  | .directory none => []
  | .directory (some (p, dir)) => [p, dir.files]
  | .file copy => [copy.elim 0 Prod.fst]

def Fat16Unit.blocks (u : Fat16Unit) : List ℕ := u.addr :: u.content.blocks

theorem Held.mono (h : Held s a) (hl : ∀ q ∈ s.live, q ∈ s'.live) : Held s' a :=
  h.imp_right (fun ⟨q, hq, ha⟩ ↦ ⟨q, hl q hq, ha⟩)

section Lawful

variable [LawfulAllocator σ]

theorem kzalloc_held {n p : ℕ} (h : kzalloc n s = .ok (p, s')) : Held s' p := by
  by_cases hp : p = 0
  · exact Or.inl hp
  · have g := kzalloc_granted h hp
    refine Or.inr ⟨_, g.live_eq ▸ List.mem_cons_self, ?_⟩
    have hin := g.inside
    have hpos := g.pos
    have hle := lt_blocksOf (u32 n)
    have hu : u32 p = p := u32_of_lt (by omega)
    rw [hu]
    exact g.page_mem (Nat.le_refl p) (by omega)

theorem kzalloc_live {n p : ℕ} (h : kzalloc n s = .ok (p, s')) : ∀ q ∈ s.live, q ∈ s'.live :=
  fun _ hq ↦ (kzalloc_kept n _ (Kept.refl hq) _ _ h).1.live

theorem fat16LoadDirectory_held {file : Fat16File} {dir : Option (ℕ × Fat16Directory)}
    (h : fat16LoadDirectory v file s = .ok (dir, s')) :
    ∀ a ∈ (UnitContent.directory dir).blocks, Held s' a := by
  obtain ⟨p, s₁, h₁, h⟩ := bind_eq_ok.mp h
  by_cases hp : p = 0
  · rw [if_pos hp] at h
    cases h
    intro a ha
    cases ha
  · rw [if_neg hp] at h
    by_cases hd : ¬ file.isDirectory
    · rw [if_pos hd] at h
      obtain ⟨_, s₂, -, h⟩ := bind_eq_ok.mp h
      cases h
      intro a ha
      cases ha
    · rw [if_neg hd] at h
      obtain ⟨n, s₂, h₂, h⟩ := bind_eq_ok.mp h
      obtain ⟨-, rfl⟩ := ofExcept_eq_ok.mp h₂
      obtain ⟨q, s₃, h₃, h⟩ := bind_eq_ok.mp h
      by_cases hq : q = 0
      · rw [if_pos hq] at h
        cases h
        intro a ha
        cases ha
      · rw [if_neg hq] at h
        obtain ⟨⟨status, bytes⟩, s₄, h₄, h⟩ := bind_eq_ok.mp h
        obtain ⟨hbytes, rfl⟩ := ofExcept_eq_ok.mp h₄
        obtain ⟨_, s₅, h₅, h⟩ := bind_eq_ok.mp h
        cases h₅
        cases fat16ReadFromDisk_status hbytes
        cases h
        intro a ha
        simp only [UnitContent.blocks, List.mem_cons, List.not_mem_nil, or_false] at ha
        have hdir : Held s₃ p := (kzalloc_held h₁).mono (kzalloc_live h₃)
        have hfiles : Held s₃ q := kzalloc_held h₃
        rcases ha with rfl | rfl
        · exact hdir
        · exact hfiles

theorem fat16CloneFile_held {file : Fat16File} {copy : Option (ℕ × Fat16File)}
    (h : fat16CloneFile file s = .ok (copy, s')) :
    ∀ a ∈ (UnitContent.file copy).blocks, Held s' a := by
  obtain ⟨p, s₁, h₁, h⟩ := bind_eq_ok.mp h
  have hp := kzalloc_held h₁
  split at h <;> cases h
  · intro a ha
    exact Or.inl (List.mem_singleton.mp ha)
  · intro a ha
    cases List.mem_singleton.mp ha
    exact hp

theorem fat16NewFatUnitForDirectoryUnit_held {file : Fat16File} {unit : Option Fat16Unit}
    (h : fat16NewFatUnitForDirectoryUnit v file s = .ok (unit, s')) :
    ∀ u ∈ unit, ∀ a ∈ u.blocks, Held s' a := by
  obtain ⟨p, s₁, h₁, h⟩ := bind_eq_ok.mp h
  by_cases hp : p = 0
  · rw [if_pos hp] at h
    cases h
    rintro u ⟨⟩
  · rw [if_neg hp] at h
    split at h
    · obtain ⟨dir, s₂, h₂, h⟩ := bind_eq_ok.mp h
      cases h
      rintro u ⟨⟩ a ha
      rcases List.mem_cons.mp ha with rfl | ha
      · exact (kzalloc_held h₁).mono
          (fun q hq ↦ (fat16LoadDirectory_kept file _ (Kept.refl hq) _ _ h₂).1.live)
      · exact fat16LoadDirectory_held h₂ a ha
    · obtain ⟨copy, s₂, h₂, h⟩ := bind_eq_ok.mp h
      cases h
      rintro u ⟨⟩ a ha
      rcases List.mem_cons.mp ha with rfl | ha
      · exact (kzalloc_held h₁).mono
          (fun q hq ↦ (fat16CloneFile_kept file _ (Kept.refl hq) _ _ h₂).1.live)
      · exact fat16CloneFile_held h₂ a ha

theorem findUnitLoop_held {dir : Fat16Directory} {unitStr : Option UnitStr} :
    ∀ n dirUnit (unit unit' : Option Fat16Unit) (s s' : Arena σ),
      (∀ u ∈ unit, ∀ a ∈ u.blocks, Held s a) →
      findUnitLoop v alien dir unitStr n dirUnit unit s = .ok (unit', s') →
      ∀ u ∈ unit', ∀ a ∈ u.blocks, Held s' a := by
  intro n
  induction n with
  | zero =>
    intro dirUnit unit unit' s s' hu h
    cases h
    exact hu
  | succ n ih =>
    intro dirUnit unit unit' s s' hu h
    cases unitStr with
    | none => cases h
    | some str =>
      rw [findUnitLoop] at h
      split at h
      · obtain ⟨unit₁, s₁, h₁, h⟩ := bind_eq_ok.mp h
        exact ih _ _ _ _ _ (fat16NewFatUnitForDirectoryUnit_held h₁) h
      · exact ih _ _ _ _ _ hu h

theorem fat16FindUnitInDirectory_held {dir : Fat16Directory} {unitStr : Option UnitStr}
    {unit : Option Fat16Unit}
    (h : fat16FindUnitInDirectory v alien dir unitStr s = .ok (unit, s')) :
    ∀ u ∈ unit, ∀ a ∈ u.blocks, Held s' a :=
  findUnitLoop_held _ _ none _ _ _ (by rintro u ⟨⟩) h

theorem getUnitLoop_held : ∀ (rest : List UnitStr) (unit unit' : Option Fat16Unit)
    (s s' : Arena σ), (∀ u ∈ unit, ∀ a ∈ u.blocks, Held s a) →
    getUnitLoop v alien rest unit s = .ok (unit', s') → ∀ u ∈ unit', ∀ a ∈ u.blocks, Held s' a := by
  intro rest
  induction rest with
  | nil =>
    intro unit unit' s s' hu h
    cases h
    exact hu
  | cons next rest ih =>
    intro unit unit' s s' hu h
    rcases unit with _ | ⟨addr, (_ | ⟨p, dir⟩) | file⟩
    · cases h
    · cases h
    · obtain ⟨unit₁, s₁, h₁, h⟩ := bind_eq_ok.mp h
      exact ih _ _ _ _ (fat16FindUnitInDirectory_held h₁) h
    · cases h
      rintro u ⟨⟩

theorem fat16GetUnit_held {path : Path} {unit : Option Fat16Unit}
    (h : fat16GetUnit v alien path s = .ok (unit, s')) :
    ∀ u ∈ unit, ∀ a ∈ u.blocks, Held s' a := by
  obtain ⟨root, s₁, h₁, h⟩ := bind_eq_ok.mp h
  have hr := fat16FindUnitInDirectory_held h₁
  cases root with
  | none =>
    cases h
    rintro u ⟨⟩
  | some root => exact getUnitLoop_held _ _ _ _ _ hr h

end Lawful

/-- What a handle of the driver stands for: the unit it was opened on. -/
def fat16View (files : Fat16Files) (h : ℕ) : Option (OpenFile Fat16Unit) :=
  (files h).map (fun fd ↦ ⟨fd.unit, fd.filePosition⟩)

/-- Each open handle owns runs of the heap: one holds its own block, and others
the addresses that its unit frees. Different handles own different runs. -/
structure Owns (s : Drive σ Fat16Files) (own : ℕ → Run → Prop) : Prop where
  live : ∀ h, s.files h ≠ none → ∀ q, own h q → q ∈ s.arena.live
  handle : ∀ h, s.files h ≠ none → ∃ q, own h q ∧ pageOf (u32 h) ∈ q
  unit : ∀ h fd, s.files h = some fd → ∀ a ∈ fd.unit.blocks,
    a = 0 ∨ ∃ q, own h q ∧ pageOf (u32 a) ∈ q
  apart : ∀ h k, s.files h ≠ none → s.files k ≠ none → h ≠ k → ∀ q, own h q → ¬ own k q

def HandlesOwn (s : Drive σ Fat16Files) : Prop := ∃ own, Owns s own

theorem unitOff_iff {r : Run} {u : Fat16Unit} : UnitOff r u ↔ ∀ a ∈ u.blocks, Off r a := by
  obtain ⟨addr, (_ | ⟨p, dir⟩) | file⟩ := u
  · refine ⟨fun h ↦ ?_, fun h ↦ ⟨h addr List.mem_cons_self, by rintro p ⟨⟩⟩⟩
    simpa [Fat16Unit.blocks, UnitContent.blocks] using h.addr
  · simp only [Fat16Unit.blocks, UnitContent.blocks, List.forall_mem_cons, List.not_mem_nil,
      false_implies, implies_true, and_true]
    refine ⟨fun h ↦ ⟨h.addr, h.content _ rfl⟩, fun h ↦ ⟨h.1, ?_⟩⟩
    rintro q ⟨⟩
    exact h.2
  · simp only [Fat16Unit.blocks, UnitContent.blocks, List.forall_mem_cons, List.not_mem_nil,
      false_implies, implies_true, and_true]
    exact ⟨fun h ↦ ⟨h.addr, h.content⟩, fun h ↦ ⟨h.1, h.2⟩⟩

theorem fat16Open_cases {path : Path} {mode : UInt8} {s s' : Drive σ Fat16Files} {h : ℕ}
    (ho : fat16Open v alien path mode s = .ok (h, s')) :
    (h = 0 ∧ s'.files = s.files) ∨
      (h ≠ 0 ∧ ∃ unit a, kzallocUnchecked 8 s.arena = .ok (h, a) ∧
        fat16GetUnit v alien path a = .ok (some unit, s'.arena) ∧
        s'.files = update s.files h (some ⟨unit, 0⟩)) := by
  unfold fat16Open at ho
  split at ho
  · cases ho
    exact Or.inl ⟨rfl, rfl⟩
  · obtain ⟨fd, s₁, h₁, ho⟩ := bind_eq_ok.mp ho
    obtain ⟨a, ha, rfl⟩ := onArena_eq_ok.mp h₁
    obtain ⟨unit, s₂, h₂, ho⟩ := bind_eq_ok.mp ho
    obtain ⟨b, hb, rfl⟩ := onArena_eq_ok.mp h₂
    cases unit with
    | none =>
      obtain ⟨_, s₃, h₃, ho⟩ := bind_eq_ok.mp ho
      obtain ⟨c, -, rfl⟩ := onArena_eq_ok.mp h₃
      cases ho
      exact Or.inl ⟨rfl, rfl⟩
    | some unit =>
      cases ho
      exact Or.inr ⟨(kzallocUnchecked_eq_ok.mp ha).2, unit, a, ha, hb, rfl⟩

section Laws

variable [LawfulAllocator σ] {s s' : Drive σ Fat16Files} {r : Run} {s₀ : Arena σ}

def HandleOff (r : Run) (h : ℕ) (files : Fat16Files) : Prop :=
  ∀ fd, files h = some fd → Off r h ∧ UnitOff r fd.unit

theorem fat16Open_kept (path : Path) (mode : UInt8) :
    Triple (fun s : Drive σ Fat16Files ↦ Kept r s₀ s.arena) (fat16Open v alien path mode)
      (fun h s ↦ Kept r s₀ s.arena ∧ (h ≠ 0 → HandleOff r h s.files)) := by
  intro s hk h s' ho
  unfold fat16Open at ho
  split at ho
  · cases ho
    exact ⟨hk, fun h0 ↦ absurd rfl h0⟩
  · obtain ⟨fd, s₁, h₁, ho⟩ := bind_eq_ok.mp ho
    obtain ⟨a, ha, rfl⟩ := onArena_eq_ok.mp h₁
    obtain ⟨hka, hoff⟩ := kzallocUnchecked_kept 8 _ hk _ _ ha
    obtain ⟨unit, s₂, h₂, ho⟩ := bind_eq_ok.mp ho
    obtain ⟨b, hb, rfl⟩ := onArena_eq_ok.mp h₂
    obtain ⟨hkb, hunit⟩ := fat16GetUnit_kept path a hka _ _ hb
    cases unit with
    | none =>
      obtain ⟨_, s₃, h₃, ho⟩ := bind_eq_ok.mp ho
      obtain ⟨c, hc, rfl⟩ := onArena_eq_ok.mp h₃
      cases ho
      exact ⟨kfree_kept hoff b hkb _ _ hc, fun h0 ↦ absurd rfl h0⟩
    | some unit =>
      cases ho
      refine ⟨hkb, fun _ fd' hfd ↦ ?_⟩
      cases (update_self h (some ⟨unit, 0⟩) s.files).symm.trans hfd
      exact ⟨hoff, hunit _ rfl⟩

theorem fat16Close_kept {h : ℕ} :
    Triple (fun s : Drive σ Fat16Files ↦ Kept r s₀ s.arena ∧ HandleOff r h s.files) (fat16Close h)
      (fun _ s ↦ Kept r s₀ s.arena) := by
  intro s ⟨hk, ho⟩ x s' hc
  obtain ⟨fd, s₁, h₁, hc⟩ := bind_eq_ok.mp hc
  have hfd : s.files h = some fd ∧ s = s₁ := by
    unfold handleAt at h₁
    split at h₁ <;> cases h₁
    exact ⟨‹_›, rfl⟩
  obtain ⟨hfd, rfl⟩ := hfd
  obtain ⟨hh, hu⟩ := ho fd hfd
  obtain ⟨_, s₂, h₂, hc⟩ := bind_eq_ok.mp hc
  obtain ⟨a, ha, rfl⟩ := onArena_eq_ok.mp h₂
  obtain ⟨_, s₃, h₃, hc⟩ := bind_eq_ok.mp hc
  obtain ⟨b, hb, rfl⟩ := onArena_eq_ok.mp h₃
  obtain ⟨_, s₄, h₄, hc⟩ := bind_eq_ok.mp hc
  cases h₄
  cases hc
  exact kfree_kept hh a (fat16DestroyUnit_kept hu _ hk _ _ ha) _ _ hb

theorem Owns.off {own : ℕ → Run → Prop} (ho : Owns s own) {h k a : ℕ} {q : Run}
    (hh : s.files h ≠ none) (hk : s.files k ≠ none) (hne : k ≠ h) (hq : own k q)
    (ha : a = 0 ∨ ∃ p, own h p ∧ pageOf (u32 a) ∈ p) : Off q a := by
  have hlive := ho.live k hk q hq
  rcases ha with rfl | ⟨p, hp, hap⟩
  · exact off_zero hlive
  · intro haq
    have hpq := (LawfulAllocator.separate s.arena.heap).eq_of_mem (ho.live h hh p hp) hlive hap haq
    subst hpq
    exact ho.apart h k hh hk hne.symm p hp hq

theorem Owns.handleOff {own : ℕ → Run → Prop} (ho : Owns s own) {h k : ℕ} {q : Run}
    (hk : s.files k ≠ none) (hne : k ≠ h) (hq : own k q) : HandleOff q h s.files := by
  intro fd hfd
  have hh : s.files h ≠ none := by simp [hfd]
  exact ⟨ho.off hh hk hne hq (Or.inr (ho.handle h hh)),
    unitOff_iff.mpr (fun a ha ↦ ho.off hh hk hne hq (ho.unit h fd hfd a ha))⟩

omit [LawfulAllocator σ] in
theorem handlesOwn_arenaStable : ArenaStable (HandlesOwn (σ := σ)) := by
  rintro s a ⟨own, h⟩ hl
  exact ⟨own, fun k hk q hq ↦ hl q (h.live k hk q hq), h.handle, h.unit, h.apart⟩

theorem HandlesOwn.fresh {p n : ℕ} {a : Arena σ} (hs : HandlesOwn s)
    (ha : kzalloc n s.arena = .ok (p, a)) : s.files p = none := by
  obtain ⟨own, ho⟩ := hs
  by_contra hc
  obtain ⟨q, hq, hm⟩ := ho.handle p hc
  exact (kzalloc_kept n _ (Kept.refl (ho.live p hc q hq)) _ _ ha).2 hm

theorem HandlesOwn.null (hs : HandlesOwn s) : s.files 0 = none := by
  obtain ⟨own, ho⟩ := hs
  by_contra hc
  obtain ⟨q, hq, hm⟩ := ho.handle 0 hc
  exact off_zero (ho.live 0 hc q hq) hm

theorem fat16Open_owns {path : Path} {mode : UInt8} {h : ℕ} (hs : HandlesOwn s)
    (ho : fat16Open v alien path mode s = .ok (h, s')) : HandlesOwn s' := by
  obtain ⟨own, hown⟩ := hs
  have hkeep : ∀ q ∈ s.arena.live, Kept q s.arena s'.arena ∧ (h ≠ 0 → HandleOff q h s'.files) :=
    fun q hq ↦ fat16Open_kept path mode s (Kept.refl hq) h s' ho
  rcases fat16Open_cases ho with ⟨-, hf⟩ | ⟨hne, unit, a, ha, hu, hf⟩
  · refine ⟨own, fun k hk q hq ↦ ?_, fun k hk ↦ ?_, fun k fd hk ↦ ?_, fun j k hj hk ↦ ?_⟩
    · rw [hf] at hk
      exact (hkeep q (hown.live k hk q hq)).1.live
    · rw [hf] at hk
      exact hown.handle k hk
    · rw [hf] at hk
      exact hown.unit k fd hk
    · rw [hf] at hj hk
      exact hown.apart j k hj hk
  · have hself : s'.files h = some ⟨unit, 0⟩ := by rw [hf, update_self]
    have hoff : ∀ q ∈ s.arena.live, Off q h ∧ UnitOff q unit :=
      fun q hq ↦ (hkeep q hq).2 hne _ hself
    have hold : ∀ k, k ≠ h → s'.files k = s.files k := fun k hk ↦ by rw [hf, update_of_ne hk]
    have hwas : ∀ k, k ≠ h → s'.files k ≠ none → s.files k ≠ none := fun k hk hc ↦ by
      rwa [hold k hk] at hc
    have hblock : ∀ b, Held s'.arena b → (∀ q ∈ s.arena.live, Off q b) →
        b = 0 ∨ ∃ q, (q ∈ s'.arena.live ∧ q ∉ s.arena.live) ∧ pageOf (u32 b) ∈ q :=
      fun b hb hq ↦ hb.imp_right (fun ⟨q, hl, hm⟩ ↦ ⟨q, ⟨hl, fun hc ↦ hq q hc hm⟩, hm⟩)
    have hheld : Held s'.arena h := (kzalloc_held (kzallocUnchecked_eq_ok.mp ha).1).mono
      (fun q hq ↦ (fat16GetUnit_kept path a (Kept.refl hq) _ _ hu).1.live)
    refine ⟨update own h (fun q ↦ q ∈ s'.arena.live ∧ q ∉ s.arena.live), fun k hk q hq ↦ ?_,
      fun k hk ↦ ?_, fun k fd hk b hb ↦ ?_, fun j k hj hk hjk q hq hq' ↦ ?_⟩
    · by_cases hkh : k = h
      · rw [hkh, update_self] at hq
        exact hq.1
      · rw [update_of_ne hkh] at hq
        exact (hkeep q (hown.live k (hwas k hkh hk) q hq)).1.live
    · by_cases hkh : k = h
      · rw [hkh, update_self]
        exact (hblock h hheld (fun q hq ↦ (hoff q hq).1)).resolve_left hne
      · rw [update_of_ne hkh]
        exact hown.handle k (hwas k hkh hk)
    · by_cases hkh : k = h
      · rw [hkh, hself] at hk
        cases hk
        rw [hkh, update_self]
        exact hblock b (fat16GetUnit_held hu unit rfl b hb)
          (fun q hq ↦ unitOff_iff.mp (hoff q hq).2 b hb)
      · rw [hold k hkh] at hk
        rw [update_of_ne hkh]
        exact hown.unit k fd hk b hb
    · by_cases hjh : j = h
      · have hkh : k ≠ h := fun hkh ↦ hjk (hjh.trans hkh.symm)
        rw [hjh, update_self] at hq
        rw [update_of_ne hkh] at hq'
        exact hq.2 (hown.live k (hwas k hkh hk) q hq')
      · rw [update_of_ne hjh] at hq
        by_cases hkh : k = h
        · rw [hkh, update_self] at hq'
          exact hq'.2 (hown.live j (hwas j hjh hj) q hq)
        · rw [update_of_ne hkh] at hq'
          exact hown.apart j k (hwas j hjh hj) (hwas k hkh hk) hjk q hq hq'

end Laws

end GammaOS.Fs
