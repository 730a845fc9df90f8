import GammaOS.Fs.FileEnd

namespace GammaOS.Fs

open Function Foundation Foundation.Program Memory

structure SeekCall where
  offset : ℕ
  mode : ℕ

variable {σ : Type} {f : Fat16File} {handle pos : ℕ} {c : SeekCall} {calls : List SeekCall}

structure SeekRight (fileSize pos : ℕ) (c : SeekCall) (r : ℤ) (pos' : ℕ) : Prop where
  inside : pos' ≤ fileSize
  moved : c.mode = seekCur → r = 0 → pos' = pos + c.offset
  refused : r ≠ 0 → pos' = pos

def SeeksRight (f : Fat16File) (handle : ℕ) : List SeekCall → ℕ → Drive σ Fat16Files → Prop
  | [], _, _ => True
  | c :: calls, pos, s => ∃ r s' pos', fat16Seek handle c.offset c.mode s = .ok (r, s') ∧
      OpenOn s' handle f pos' ∧ SeekRight f.size pos c r pos' ∧ SeeksRight f handle calls pos' s'

/-- No relative move that is accepted goes over the end of the file. -/
def NoOvershoot (fileSize : ℕ) : List SeekCall → ℕ → Prop
  | [], _ => True
  | c :: calls, pos => (c.mode = seekCur → c.offset < fileSize → pos + c.offset ≤ fileSize) ∧
      NoOvershoot fileSize calls (seekTo fileSize pos c.offset c.mode)

theorem OpenOn.seek {s : Drive σ Fat16Files} (h : OpenOn s handle f pos) (c : SeekCall) :
    ∃ r s', fat16Seek handle c.offset c.mode s = .ok (r, s') ∧
      OpenOn s' handle f (seekTo f.size pos c.offset c.mode) ∧
      r ≤ 0 ∧ (r = 0 ↔ c.offset < f.size ∧ (c.mode = seekSet ∨ c.mode = seekCur)) := by
  obtain ⟨addr, p, hh⟩ := h
  have hrun : fat16Seek handle c.offset c.mode s = (if f.size ≤ c.offset then pure (-errInvarg)
    else if c.mode = seekSet then do
      setHandle handle (some ⟨⟨addr, .file (some (p, f))⟩, c.offset⟩)
      pure 0
    else if c.mode = seekCur then do
      setHandle handle (some ⟨⟨addr, .file (some (p, f))⟩, u32 (pos + c.offset)⟩)
      pure 0
    else if c.mode = seekEnd then pure (-1)
    else pure (-errInvarg) : DriveM σ Fat16Files ℤ) s :=
    bind_run_ok (handleAt_eq_ok.mpr ⟨hh, rfl⟩)
  rw [hrun, seekTo]
  by_cases h₁ : f.size ≤ c.offset
  · rw [if_pos h₁, if_pos h₁]
    exact ⟨_, s, rfl, ⟨addr, p, hh⟩, by decide, iff_of_false (by decide) (fun h ↦ by omega)⟩
  rw [if_neg h₁, if_neg h₁]
  by_cases h₂ : c.mode = seekSet
  · rw [if_pos h₂, if_pos h₂]
    exact ⟨0, _, rfl, ⟨addr, p, update_self _ _ _⟩, le_rfl, iff_of_true rfl ⟨by omega, Or.inl h₂⟩⟩
  rw [if_neg h₂, if_neg h₂]
  by_cases h₃ : c.mode = seekCur
  · rw [if_pos h₃, if_pos h₃]
    exact ⟨0, _, rfl, ⟨addr, p, update_self _ _ _⟩, le_rfl, iff_of_true rfl ⟨by omega, Or.inr h₃⟩⟩
  have hno : ¬ (c.offset < f.size ∧ (c.mode = seekSet ∨ c.mode = seekCur)) :=
    fun h ↦ h.2.elim h₂ h₃
  rw [if_neg h₃, if_neg h₃]
  by_cases h₄ : c.mode = seekEnd
  · rw [if_pos h₄]
    exact ⟨_, s, rfl, ⟨addr, p, hh⟩, by decide, iff_of_false (by decide) hno⟩
  · rw [if_neg h₄]
    exact ⟨_, s, rfl, ⟨addr, p, hh⟩, by decide, iff_of_false (by decide) hno⟩

theorem OpenOn.position {s : Drive σ Fat16Files} {pos' : ℕ} (h : OpenOn s handle f pos)
    (h' : OpenOn s handle f pos') : pos' = pos := by
  obtain ⟨addr, p, hh⟩ := h
  obtain ⟨addr', p', hh'⟩ := h'
  cases hh.symm.trans hh'
  rfl

/-- One seek from a position inside the file does what it promises, unless it
is a relative move over the end of the file. -/
theorem seekRight_iff {fileSize : ℕ} {r : ℤ} (hp : pos ≤ fileSize) (hs : fileSize < 2 ^ 32)
    (hr : r = 0 ↔ c.offset < fileSize ∧ (c.mode = seekSet ∨ c.mode = seekCur)) :
    SeekRight fileSize pos c r (seekTo fileSize pos c.offset c.mode) ↔
      (c.mode = seekCur → c.offset < fileSize → pos + c.offset ≤ fileSize) := by
  have hmodes : seekCur ≠ seekSet := by decide
  constructor
  · rintro ⟨hin, hmoved, -⟩ hm hlt
    have he := hmoved hm (hr.mpr ⟨hlt, Or.inr hm⟩)
    omega
  · intro hbound
    by_cases hlt : c.offset < fileSize
    · have hle : ¬ fileSize ≤ c.offset := by omega
      by_cases h₁ : c.mode = seekSet
      · rw [seekTo, if_neg hle, if_pos h₁]
        exact ⟨by omega, fun hm ↦ absurd (hm.symm.trans h₁) hmodes,
          fun hne ↦ absurd (hr.mpr ⟨hlt, Or.inl h₁⟩) hne⟩
      by_cases h₂ : c.mode = seekCur
      · have hle' := hbound h₂ hlt
        rw [seekTo, if_neg hle, if_neg h₁, if_pos h₂, u32_of_lt (by omega)]
        exact ⟨hle', fun _ _ ↦ rfl, fun hne ↦ absurd (hr.mpr ⟨hlt, Or.inr h₂⟩) hne⟩
      · rw [seekTo, if_neg hle, if_neg h₁, if_neg h₂]
        exact ⟨hp, fun hm ↦ absurd hm h₂, fun _ ↦ rfl⟩
    · rw [seekTo, if_pos (by omega)]
      exact ⟨hp, fun _ h0 ↦ absurd (hr.mp h0).1 hlt, fun _ ↦ rfl⟩

theorem OpenOn.seeksRight_iff (hs : f.size < 2 ^ 32) :
    ∀ calls pos (s : Drive σ Fat16Files), OpenOn s handle f pos → pos ≤ f.size →
      (SeeksRight f handle calls pos s ↔ NoOvershoot f.size calls pos) := by
  intro calls
  induction calls with
  | nil => exact fun _ _ _ _ ↦ Iff.rfl
  | cons c calls ih =>
    intro pos s h hp
    obtain ⟨r, s', hrun, hopen, -, hr⟩ := h.seek c
    have hstep := seekRight_iff hp hs hr
    constructor
    · rintro ⟨r', s'', pos', hrun', hopen', hright, hrest⟩
      cases hrun.symm.trans hrun'
      cases hopen.position hopen'
      exact ⟨hstep.mp hright, (ih _ _ hopen hright.inside).mp hrest⟩
    · rintro ⟨hbound, hrest⟩
      have hright := hstep.mpr hbound
      exact ⟨r, s', _, hrun, hopen, hright, (ih _ _ hopen hright.inside).mpr hrest⟩

/-- The seeks behind an open keep the position inside the file when no relative
move goes over its end: `fat16_seek` tests the offset before it knows the mode. -/
theorem seeks_after_open_iff [Allocator σ] {v : Fat16Volume} {alien : ByteMemory} {path : Path}
    {mode : UInt8} {s₀ s : Drive σ Fat16Files}
    (hopen : fat16Open v alien path mode s₀ = .ok (handle, s)) (hne : handle ≠ 0)
    (hfile : OpenOn s handle f pos) (hs : f.size < 2 ^ 32) :
    SeeksRight f handle calls pos s ↔ NoOvershoot f.size calls 0 := by
  have h0 : pos = 0 := by
    rcases fat16Open_cases hopen with ⟨h0, -⟩ | ⟨-, unit, a, -, -, hupdate⟩
    · exact absurd h0 hne
    · obtain ⟨addr, p, hh⟩ := hfile
      rw [hupdate, update_self] at hh
      cases hh
      rfl
  subst h0
  exact OpenOn.seeksRight_iff hs _ _ _ hfile (Nat.zero_le _)

theorem shortVolume_handle : ∃ (s₀ s : Drive (KHeap false) Fat16Files) (path : Path) (handle : ℕ)
    (f : Fat16File), fat16Open shortVolume (fun _ ↦ 0) path modeRead s₀ = .ok (handle, s) ∧
      handle ≠ 0 ∧ OpenOn s handle f 0 ∧ f.size = 2 := by
  obtain ⟨s, f, hopen, ⟨d, addr, p, hd, -, hh⟩, hsize, -⟩ := shortVolume_opened
  obtain ⟨path, a, fs, handle, t, -, hfs, ho, hne, hd', hfiles⟩ :=
    vfsFopen_opened hopen (Int.le_refl 0)
  have hv := mountedVfs_disks hfs
  cases hd.symm.trans hd'
  subst hv
  exact ⟨_, t, path, handle, f, ho, hne, ⟨addr, p, hfiles ▸ hh⟩, hsize⟩

theorem seeks_after_open_iff_short : ∃ (s : Drive (KHeap false) Fat16Files) (handle : ℕ)
    (f : Fat16File), f.size = 2 ∧ (SeeksRight f handle [⟨1, seekCur⟩, ⟨1, seekCur⟩] 0 s ↔
      NoOvershoot f.size [⟨1, seekCur⟩, ⟨1, seekCur⟩] 0) := by
  obtain ⟨s₀, s, path, handle, f, ho, hne, h, hsize⟩ := shortVolume_handle
  exact ⟨s, handle, f, hsize, seeks_after_open_iff ho hne h (by rw [hsize]; decide)⟩

theorem seek_behind_end : ∃ (s₀ s : Drive (KHeap false) Fat16Files) (path : Path) (handle : ℕ)
    (f : Fat16File), fat16Open shortVolume (fun _ ↦ 0) path modeRead s₀ = .ok (handle, s) ∧
      OpenOn s handle f 0 ∧ f.size = 2 ∧
      ¬ SeeksRight f handle [⟨1, seekCur⟩, ⟨1, seekCur⟩, ⟨1, seekCur⟩] 0 s := by
  obtain ⟨s₀, s, path, handle, f, ho, hne, h, hsize⟩ := shortVolume_handle
  refine ⟨s₀, s, path, handle, f, ho, h, hsize, fun hright ↦ ?_⟩
  have hno := (OpenOn.seeksRight_iff (by rw [hsize]; decide) _ _ _ h (Nat.zero_le _)).mp hright
  rw [hsize] at hno
  exact absurd (hno.2.2.1 rfl (by decide)) (by decide)

end GammaOS.Fs
