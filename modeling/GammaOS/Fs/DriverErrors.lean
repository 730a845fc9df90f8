import GammaOS.Fs.ReadStores
import GammaOS.Fs.SeekRuns
import GammaOS.Fs.VfsFrame

namespace GammaOS.Fs

open Function Foundation Foundation.Program Memory

section Reports

variable {σ δ α β : Type} {s : Vfs σ δ}

/-- Whenever the operation of the driver fails, the call returns a negative value. -/
def Reports (failed : β → Prop) (op : DriveM σ δ β) (status : α → ℤ) (call : VfsM σ δ α)
    (s : Vfs σ δ) : Prop :=
  ∀ x u, op s.drive = .ok (x, u) → failed x → ∃ r t, call s = .ok (r, t) ∧ status r < 0

/-- A call that drops the result of the operation reports only operations that never fail. -/
theorem reports_iff {failed : β → Prop} {op : DriveM σ δ β} {status : α → ℤ} {call : VfsM σ δ α}
    (hdrop : ∀ x u, op s.drive = .ok (x, u) → ∃ r t, call s = .ok (r, t) ∧ status r = success) :
    Reports failed op status call s ↔ ∀ x u, op s.drive = .ok (x, u) → ¬ failed x := by
  constructor
  · intro h x u hop hfail
    obtain ⟨r, t, hcall, hneg⟩ := h x u hop hfail
    obtain ⟨r', t', hcall', hok⟩ := hdrop x u hop
    cases hcall.symm.trans hcall'
    rw [hok] at hneg
    exact absurd hneg (by decide)
  · intro h x u hop hfail
    exact absurd hfail (h x u hop)

def FreadReports (s : Vfs σ δ) (fd : ℤ) (d : FileDescriptor σ δ) (dest size nmemb : ℕ) : Prop :=
  Reports (fun x : ℤ ↦ x < nmemb) (d.fs.fsRead d.fsFileDescriptor size nmemb dest) id
    (vfsFread dest size nmemb fd) s

def FseekReports (s : Vfs σ δ) (fd : ℤ) (d : FileDescriptor σ δ) (offset whence : ℕ) : Prop :=
  Reports (fun x ↦ x < 0) (d.fs.fsSeek d.fsFileDescriptor offset whence) id
    (vfsFseek fd offset whence) s

def FstatReports (s : Vfs σ δ) (fd : ℤ) (d : FileDescriptor σ δ) : Prop :=
  Reports (fun x ↦ x.1 < 0) (d.fs.fsStat d.fsFileDescriptor) Prod.fst (vfsFstat fd) s

end Reports

variable {σ : Type} {v : Fat16Volume} {s t : Arena σ}

/-- What a unit with a file is read with: fewer members than an `int` counts to,
unless the volume makes the driver divide by zero. -/
def Fat16Unit.Readable (v : Fat16Volume) (u : Fat16Unit) (nmemb : ℕ) : Prop :=
  match u.content with
  | .directory _ => False
  | .file none => True
  | .file (some _) => nmemb < 2 ^ 31 ∨ v.pd.clusterSize = 0

def Fat16Unit.Seekable (u : Fat16Unit) (offset whence : ℕ) : Prop :=
  match u.content with
  | .directory _ => False
  | .file none => True
  | .file (some (_, file)) => offset < file.size ∧ (whence = seekSet ∨ whence = seekCur)

def Fat16Unit.IsDirectory (u : Fat16Unit) : Prop :=
  match u.content with
  | .directory _ => True
  | .file _ => False

theorem readMembers_count {file : Fat16File} {size : ℕ} : ∀ n offset out members {x : ℕ}
    {s t : Arena σ}, readMembers v file size n offset out members s = .ok (x, t) →
      x = members + n := by
  intro n
  induction n with
  | zero =>
    intro offset out members x s t h
    cases h
    rfl
  | succ n ih =>
    intro offset out members x s t h
    obtain ⟨status, bytes, -, hrest⟩ := readMembers_succ h
    rw [ih _ _ _ hrest]
    omega

theorem readMembers_faults (hzero : v.pd.clusterSize = 0) {file : Fat16File}
    {size n offset out x : ℕ} (h : readMembers v file size n offset out 0 s = .ok (x, t)) :
    n = 0 := by
  cases n with
  | zero => rfl
  | succ n =>
    obtain ⟨status, bytes, hbytes, -⟩ := readMembers_succ h
    rw [fat16ReadFromDisk, fat16ReadLoop, fat16GetClusterFromOffset, fat16ClusterFromOffset,
      if_pos hzero] at hbytes
    cases hbytes

variable {d : Drive σ Fat16Files} {k : Fat16FileDescriptor} {handle : ℕ}

theorem fat16Read_directory {dir : Option (ℕ × Fat16Directory)} (hk : d.files handle = some k)
    (hu : k.unit.content = .directory dir) (size nmemb out : ℕ) :
    fat16Read v handle size nmemb out d = .ok ((-errInvarg : ℤ), d) := by
  refine (bind_run_ok (handleAt_eq_ok.mpr ⟨hk, rfl⟩)).trans ?_
  rw [hu]
  rfl

theorem fat16Read_file {p : ℕ} {file : Fat16File} (hk : d.files handle = some k)
    (hu : k.unit.content = .file (some (p, file))) (size nmemb out : ℕ) :
    fat16Read v handle size nmemb out d =
      (onArena (readMembers v file size nmemb k.filePosition out 0) >>=
        fun members ↦ pure (toInt32 members)) d := by
  refine (bind_run_ok (handleAt_eq_ok.mpr ⟨hk, rfl⟩)).trans ?_
  rw [hu]

theorem toInt32_lt_iff {n : ℕ} (hn : n < 2 ^ 32) : toInt32 n < n ↔ ¬ n < 2 ^ 31 := by
  rw [toInt32, u32_of_lt hn]
  split <;> omega

theorem membersStatus_eq {file : Fat16File} {size nmemb pos out : ℕ} {x : ℤ}
    {u : Drive σ Fat16Files}
    (h : (onArena (readMembers v file size nmemb pos out 0) >>=
      fun members ↦ pure (toInt32 members) : DriveM σ Fat16Files ℤ) d = .ok (x, u)) :
    x = toInt32 nmemb ∧ (v.pd.clusterSize = 0 → nmemb = 0) := by
  obtain ⟨members, t, h₁, h₂⟩ := bind_eq_ok.mp h
  obtain ⟨a, ha, rfl⟩ := onArena_eq_ok.mp h₁
  cases h₂
  refine ⟨?_, fun hzero ↦ readMembers_faults hzero ha⟩
  rw [readMembers_count _ _ _ _ ha, Nat.zero_add]

theorem fat16Read_full_iff (hk : d.files handle = some k) {size nmemb out : ℕ}
    (hn : nmemb < 2 ^ 32) :
    (∀ x u, fat16Read v handle size nmemb out d = .ok (x, u) → ¬ x < nmemb) ↔
      k.unit.Readable v nmemb := by
  unfold Fat16Unit.Readable
  cases hu : k.unit.content with
  | directory dir =>
    refine iff_of_false (fun h ↦ ?_) id
    have hneg : (-errInvarg : ℤ) < 0 := by decide
    exact h _ _ (fat16Read_directory hk hu size nmemb out) (by omega)
  | file file =>
    rcases file with _ | ⟨p, file⟩
    · refine iff_of_true (fun x u h ↦ ?_) trivial
      obtain ⟨k', hk', h⟩ := handleAt_bind h
      cases hk.symm.trans hk'
      simp only [hu] at h
      by_cases h₀ : nmemb = 0
      · rw [if_pos h₀] at h
        cases h
        omega
      · rw [if_neg h₀] at h
        cases h
    · rw [fat16Read_file hk hu]
      constructor
      · intro h
        by_contra hbad
        obtain ⟨hlong, hpos⟩ := not_or.mp hbad
        obtain ⟨a, ha, -⟩ := readMembers_total hpos nmemb k.filePosition out 0 d.arena
        have hrun := bind_run_ok (f := fun members ↦ (pure (toInt32 members) :
          DriveM σ Fat16Files ℤ)) (onArena_eq_ok.mpr ⟨a, ha, rfl⟩)
        rw [pure_run] at hrun
        refine h _ _ hrun ?_
        rw [(membersStatus_eq hrun).1]
        exact (toInt32_lt_iff hn).mpr hlong
      · rintro hgood x u h hshort
        obtain ⟨rfl, hzero⟩ := membersStatus_eq h
        rcases hgood with hlt | h₀
        · exact (toInt32_lt_iff hn).mp hshort hlt
        · rw [hzero h₀] at hshort
          exact absurd hshort (by decide)

theorem fat16Seek_works_iff (hk : d.files handle = some k) {offset whence : ℕ} :
    (∀ x u, fat16Seek handle offset whence d = .ok (x, u) → ¬ x < 0) ↔
      k.unit.Seekable offset whence := by
  unfold Fat16Unit.Seekable
  cases hu : k.unit.content with
  | directory dir =>
    refine iff_of_false (fun h ↦ ?_) id
    have hrun : fat16Seek handle offset whence d = .ok ((-errInvarg : ℤ), d) := by
      refine (bind_run_ok (handleAt_eq_ok.mpr ⟨hk, rfl⟩)).trans ?_
      rw [hu]
      rfl
    exact h _ _ hrun (by decide)
  | file file =>
    rcases file with _ | ⟨p, file⟩
    · refine iff_of_true (fun x u h ↦ ?_) trivial
      obtain ⟨k', hk', h⟩ := handleAt_bind h
      cases hk.symm.trans hk'
      simp only [hu] at h
      cases h
    · obtain ⟨⟨addr, content⟩, pos⟩ := k
      cases hu
      have hopen : OpenOn d handle file pos := ⟨addr, p, hk⟩
      obtain ⟨r, u, hrun, -, hle, hr⟩ := hopen.seek ⟨offset, whence⟩
      refine Iff.trans ?_ hr
      constructor
      · intro h
        have := h r u hrun
        omega
      · intro h₀ x u' hrun'
        cases hrun.symm.trans hrun'
        omega

theorem fat16Stat_works_iff (hk : d.files handle = some k) :
    (∀ x u, fat16Stat handle d = .ok (x, u) → ¬ x.1 < 0) ↔ ¬ k.unit.IsDirectory := by
  unfold Fat16Unit.IsDirectory
  cases hu : k.unit.content with
  | directory dir =>
    refine iff_of_false (fun h ↦ ?_) (not_not.mpr trivial)
    have hrun : fat16Stat handle d = .ok (((-errInvarg : ℤ), none), d) := by
      refine (bind_run_ok (handleAt_eq_ok.mpr ⟨hk, rfl⟩)).trans ?_
      rw [hu]
      rfl
    exact h _ _ hrun (by decide)
  | file file =>
    refine iff_of_true (fun x u h ↦ ?_) id
    obtain ⟨k', hk', h⟩ := handleAt_bind h
    cases hk.symm.trans hk'
    simp only [hu] at h
    rcases file with _ | ⟨p, file⟩ <;> cases h
    exact Int.lt_irrefl 0

/-! The descriptors of the FAT16 driver. -/

variable [Allocator σ] {s : Vfs σ Fat16Files} {fd : ℤ} {d : FileDescriptor σ Fat16Files}

theorem fread_reports_iff (hd : s.openAt fd = some d) (hfs : d.fs = fat16 v)
    (hk : s.drive.files d.fsFileDescriptor = some k) (dest size : ℕ) {nmemb : ℕ}
    (hn : nmemb < 2 ^ 32) : FreadReports s fd d dest size nmemb ↔ k.unit.Readable v nmemb := by
  obtain ⟨index, fs, handle⟩ := d
  cases hfs
  exact (reports_iff (fun x u h ↦ ⟨_, _, vfsFread_run hd h, rfl⟩)).trans (fat16Read_full_iff hk hn)

theorem fseek_reports_iff (hd : s.openAt fd = some d) (hfs : d.fs = fat16 v)
    (hk : s.drive.files d.fsFileDescriptor = some k) (offset whence : ℕ) :
    FseekReports s fd d offset whence ↔ k.unit.Seekable offset whence := by
  obtain ⟨index, fs, handle⟩ := d
  cases hfs
  exact (reports_iff (fun x u h ↦ ⟨_, _, vfsFseek_run hd h, rfl⟩)).trans (fat16Seek_works_iff hk)

theorem fstat_reports_iff (hd : s.openAt fd = some d) (hfs : d.fs = fat16 v)
    (hk : s.drive.files d.fsFileDescriptor = some k) :
    FstatReports s fd d ↔ ¬ k.unit.IsDirectory := by
  obtain ⟨index, fs, handle⟩ := d
  cases hfs
  exact (reports_iff (fun x u h ↦ ⟨_, _, vfsFstat_run hd h, rfl⟩)).trans (fat16Stat_works_iff hk)

end GammaOS.Fs
