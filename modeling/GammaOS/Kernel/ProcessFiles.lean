import GammaOS.Kernel.NewProcess

namespace GammaOS.Kernel

open Function Foundation Foundation.Program Memory Paging Fs Loader

variable {σ δ α : Type} [Allocator σ] {alien : ByteMemory} {filename : List UInt8} {mode : UInt8}
  {s t t' : Vfs σ δ} {fd r : ℤ}

/-- Behind `t` the descriptor `fd` is open, in a slot that was free in `s`, and
no other slot has changed. -/
def SlotTaken (s : Vfs σ δ) (fd : ℤ) (t : Vfs σ δ) : Prop :=
  ∃ (index : ℕ) (d : FileDescriptor σ δ), fd = index ∧ index < fsTotalFileDescriptors ∧
    s.fdList index = none ∧ d.index = index ∧ t.fdList = update s.fdList index (some d)

theorem vfsFopen_slot (h : vfsFopen alien filename mode s = .ok (fd, t)) :
    (fd < 0 ∧ t.fdList = s.fdList) ∨ SlotTaken s fd t := by
  cases vfsFopen_result h with
  | badMode _ hneg => exact Or.inl ⟨hneg, rfl⟩
  | badDrive _ hneg => exact Or.inl ⟨hneg, rfl⟩
  | refused _ _ _ _ hneg => exact Or.inl ⟨hneg, rfl⟩
  | opened hpath hfs ho hne hi hp =>
    obtain ⟨hlt, hfree, -⟩ := freeIndex_some hi
    exact Or.inr ⟨_, _, rfl, hlt, hfree, rfl, rfl⟩

omit [Allocator σ] in
theorem SlotTaken.isInt32 (h : SlotTaken s fd t) : IsInt32 fd := by
  obtain ⟨index, d, rfl, hlt, -⟩ := h
  unfold fsTotalFileDescriptors at hlt
  exact ⟨by omega, by omega⟩

omit [Allocator σ] in
theorem SlotTaken.onDrive (h : SlotTaken s fd t) {m : DriveM σ δ α} {x : α}
    (hm : onDrive m t = .ok (x, t')) : SlotTaken s fd t' := by
  obtain ⟨d, -, rfl⟩ := onDrive_eq_ok.mp hm
  exact h

omit [Allocator σ] in
theorem delegates_fdList {call : FileDescriptor σ δ → DriveM σ δ α} (h : Delegates t fd r t' call) :
    t'.fdList = t.fdList := by
  unfold Delegates at h
  cases hd : t.openAt fd with
  | none =>
    rw [hd] at h
    rw [h.2]
  | some d =>
    rw [hd] at h
    obtain ⟨x, u, -, -, rfl⟩ := h
    rfl

omit [Allocator σ] in
theorem SlotTaken.of_fdList (h : SlotTaken s fd t) (he : t'.fdList = t.fdList) :
    SlotTaken s fd t' := by
  obtain ⟨index, d, h₁, h₂, h₃, h₄, h₅⟩ := h
  exact ⟨index, d, h₁, h₂, h₃, h₄, he.trans h₅⟩

omit [Allocator σ] in
theorem SlotTaken.stat (h : SlotTaken s fd t) {st : Option FileStat}
    (hs : vfsFstat fd t = .ok ((r, st), t')) : SlotTaken s fd t' :=
  h.of_fdList (delegates_fdList (vfsFstat_delegates h.isInt32 hs))

omit [Allocator σ] in
theorem SlotTaken.read (h : SlotTaken s fd t) {dest size nmemb : ℕ}
    (hr : vfsFread dest size nmemb fd t = .ok (r, t')) : SlotTaken s fd t' :=
  h.of_fdList (delegates_fdList (vfsFread_delegates h.isInt32 hr))

omit [Allocator σ] in
theorem SlotTaken.close (h : SlotTaken s fd t) (hc : vfsFclose fd t = .ok (r, t')) :
    t'.fdList = s.fdList := by
  have hcases := vfsFclose_cases h.isInt32 hc
  obtain ⟨index, d, rfl, hlt, hfree, hd, hlist⟩ := h
  have hopen : t.openAt (index : ℤ) = some d := by
    rw [Vfs.openAt, if_pos ⟨by omega, by omega⟩, Int.toNat_natCast, hlist, update_self]
  rw [hopen] at hcases
  obtain ⟨x, u, -, rfl⟩ := hcases
  change update t.fdList d.index none = s.fdList
  rw [hd, hlist, update_idem, ← hfree, update_eq_self]

omit [Allocator σ] in
theorem SlotTaken.ne (h : SlotTaken s fd t) : t.fdList ≠ s.fdList := by
  obtain ⟨index, d, -, -, hfree, -, hlist⟩ := h
  intro he
  have := congrFun (hlist.symm.trans he) index
  rw [update_self, hfree] at this
  cases this

theorem fileLoaded_slot {env : LoadEnv} {elfFile : ElfFile}
    (h : FileLoaded env filename s fd elfFile t) : SlotTaken s fd t := by
  obtain ⟨h₁, hfd, h₂, -, h₃, h₄, -, h₅, -⟩ := h
  have hs := (vfsFopen_slot h₁).resolve_left (fun hneg ↦ by omega)
  exact (((hs.onDrive h₂).stat h₃).onDrive h₄).read h₅

/-- `gloader_load_elf` leaves the descriptor of every file it has loaded open,
and closes the others. -/
theorem gloaderLoadElf_slot {env : LoadEnv} {x : ℤ × Option ElfFile}
    (h : gloaderLoadElf env filename s = .ok (x, t)) :
    (x.1 < 0 ∧ t.fdList = s.fdList) ∨ (0 ≤ x.1 ∧ ∃ fd f, FileLoaded env filename s fd f t) := by
  cases gloaderLoadElf_result h with
  | unopened h₁ hfd =>
    exact Or.inl ⟨by decide, ((vfsFopen_slot h₁).resolve_right
      (fun ⟨i, d, he, _⟩ ↦ by omega)).2⟩
  | noStruct h₁ hfd h₂ hc =>
    have hs := (vfsFopen_slot h₁).resolve_left (fun hneg ↦ by omega)
    exact Or.inl ⟨by decide, (hs.onDrive h₂).close hc⟩
  | noBuffer h₁ hfd h₂ _ h₃ h₄ h₅ hc =>
    have hs := (vfsFopen_slot h₁).resolve_left (fun hneg ↦ by omega)
    exact Or.inl ⟨by decide, ((((hs.onDrive h₂).stat h₃).onDrive h₄).onDrive h₅).close hc⟩
  | unread h₁ hfd h₂ _ h₃ h₄ _ h₅ _ h₆ h₇ hc =>
    have hs := (vfsFopen_slot h₁).resolve_left (fun hneg ↦ by omega)
    exact Or.inl ⟨by decide,
      ((((((hs.onDrive h₂).stat h₃).onDrive h₄).read h₅).onDrive h₆).onDrive h₇).close hc⟩
  | loaded hf => exact Or.inr ⟨Int.natCast_nonneg _, _, _, hf⟩

theorem processLoadBinary_fdList {env : LoadEnv} {x : ℤ × Option ProcessData}
    (h : processLoadBinary env filename s = .ok (x, t)) : t.fdList = s.fdList := by
  obtain ⟨fd, s₁, h₁, h⟩ := bind_eq_ok.mp h
  rcases vfsFopen_slot h₁ with ⟨hneg, he⟩ | hs
  · rw [if_pos hneg] at h
    cases h
    exact he
  have hpos : ¬ fd < 0 := by
    obtain ⟨i, -, rfl, -⟩ := hs
    omega
  rw [if_neg hpos] at h
  obtain ⟨⟨status, stat⟩, s₂, h₂, h⟩ := bind_eq_ok.mp h
  dsimp only at h
  have hs₂ := hs.stat h₂
  by_cases hst : status = -errFdNotFound
  · rw [if_pos hst] at h
    obtain ⟨y, s₃, hc, h⟩ := bind_eq_ok.mp h
    cases h
    exact hs₂.close hc
  rw [if_neg hst] at h
  obtain ⟨rawData, s₃, h₃, h⟩ := bind_eq_ok.mp h
  have hs₃ := hs₂.onDrive h₃
  by_cases hraw : rawData = 0
  · rw [if_pos hraw] at h
    obtain ⟨y, s₄, hc, h⟩ := bind_eq_ok.mp h
    cases h
    exact hs₃.close hc
  rw [if_neg hraw] at h
  obtain ⟨read, s₄, h₄, h⟩ := bind_eq_ok.mp h
  have hs₄ := hs₃.read h₄
  by_cases hread : read < 0
  · rw [if_pos hread] at h
    obtain ⟨_, s₅, h₅, h⟩ := bind_eq_ok.mp h
    obtain ⟨y, s₆, hc, h⟩ := bind_eq_ok.mp h
    cases h
    exact (hs₄.onDrive h₅).close hc
  · rw [if_neg hread] at h
    obtain ⟨y, s₅, hc, h⟩ := bind_eq_ok.mp h
    cases h
    exact hs₄.close hc

theorem processLoadData_slot {env : ProcessEnv} {x : ℤ × Option ProcessData}
    (h : processLoadData env filename s = .ok (x, t)) :
    t.fdList = s.fdList ↔ ¬ ∃ fd f u, FileLoaded env.elf filename s fd f u := by
  obtain ⟨⟨status, data⟩, s₁, h₁, h⟩ := bind_eq_ok.mp h
  obtain ⟨⟨status', elfFile⟩, s₂, h₂, h₁⟩ := bind_eq_ok.mp h₁
  rcases gloaderLoadElf_slot h₂ with ⟨hneg, he⟩ | ⟨hpos, fd, f, hf⟩
  · dsimp only at h₁ hneg
    rw [if_pos hneg] at h₁
    cases h₁
    refine iff_of_true ?_ (fun ⟨fd, f, u, hf⟩ ↦ ?_)
    · dsimp only at h
      rw [if_pos (by decide)] at h
      obtain ⟨y, s₃, h₃, h⟩ := bind_eq_ok.mp h
      have hlist := (processLoadBinary_fdList h₃).trans he
      split at h <;> cases h <;> exact hlist
    · cases (gloaderLoadElf_loaded hf).symm.trans h₂
      exact absurd hneg (by decide)
  · dsimp only at h₁ hpos
    rw [if_neg (Int.not_lt.mpr hpos)] at h₁
    cases h₁
    dsimp only at h
    rw [if_neg (by decide)] at h
    cases h
    exact iff_of_false (fileLoaded_slot hf).ne (fun hn ↦ hn ⟨fd, f, _, hf⟩)

section New

variable {env : ProcessEnv} {s s' s₁ : KernelState σ δ} {p task process stack : ℕ} {x : ℤ}
  {data : ProcessData}

/-- `process_new` gets memory for the struct and the stack, and `gloader_load_elf`
can open, allocate and read the file. -/
def LoadsFile (env : ProcessEnv) (filename : List UInt8) (s : KernelState σ δ) : Prop :=
  ∃ process stack a b, kzalloc processSize s.arena = .ok (process, a) ∧ process ≠ 0 ∧
    kzalloc processMaxProcessStackSize a = .ok (stack, b) ∧ stack ≠ 0 ∧
    ∃ fd f u, FileLoaded env.elf filename (s.setArena b).vfs fd f u

theorem Prepared.fdList_iff {status : ℤ} {data : Option ProcessData}
    (h : Prepared env filename s process stack status data s₁) :
    s₁.vfs.fdList = s.vfs.fdList ↔ ¬ LoadsFile env filename s := by
  obtain ⟨ha, hp, -, hb, hst, hv⟩ := h
  refine (processLoadData_slot hv).trans (not_congr ⟨fun hf ↦ ⟨_, _, _, _, ha, hp, hb, hst, hf⟩, ?_⟩)
  rintro ⟨process', stack', a', b', ha', -, hb', -, hf⟩
  cases ha.symm.trans ha'
  cases hb.symm.trans hb'
  exact hf

theorem TaskResult.fdList (h : TaskResult alien process data s task s') :
    s'.vfs.fdList = s.vfs.fdList := by
  cases h <;> rfl

theorem closeTask_fdList (h : closeTask task s = .ok (x, s')) : s'.vfs.fdList = s.vfs.fdList := by
  obtain ⟨t, b, l, -, -, -, -, rfl⟩ := closeTask_eq_ok h
  rfl

end New

end GammaOS.Kernel
