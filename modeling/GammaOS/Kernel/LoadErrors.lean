import GammaOS.Fs.NamedEntry
import GammaOS.Fs.PathWalk
import GammaOS.Kernel.ProcessLoad

namespace GammaOS.Kernel

open Function Foundation Foundation.Program Memory Fs Loader

variable {σ : Type} [Allocator σ]

/-- A load has called `vfs_fstat` on its file and goes on behind it: with what the
call stored in `file_stat`, the descriptor and the state. -/
inductive BinaryStat (env : LoadEnv) (filename : List UInt8) (s : Vfs σ Fat16Files) :
    Option FileStat → ℤ → Vfs σ Fat16Files → Prop
  | mk {fd status : ℤ} {stat : Option FileStat} {s₁ t : Vfs σ Fat16Files} :
      vfsFopen env.path filename modeRead s = .ok (fd, s₁) → 0 ≤ fd →
      vfsFstat fd s₁ = .ok ((status, stat), t) → status ≠ -errFdNotFound →
      BinaryStat env filename s stat fd t

inductive ElfStat (env : LoadEnv) (filename : List UInt8) (s : Vfs σ Fat16Files) :
    Option FileStat → ℤ → Vfs σ Fat16Files → Prop
  | mk {fd status : ℤ} {addr : ℕ} {stat : Option FileStat} {s₁ s₂ t : Vfs σ Fat16Files} :
      vfsFopen env.path filename modeRead s = .ok (fd, s₁) → 0 ≤ fd →
      onDrive (onArena (kzalloc elfFileSize)) s₁ = .ok (addr, s₂) → addr ≠ 0 →
      vfsFstat fd s₂ = .ok ((status, stat), t) → ElfStat env filename s stat fd t

/-- A buffer of the size of the file that the load goes on with is one that the
driver has filled. -/
def Fills (env : LoadEnv) (stat : Option FileStat) (fd : ℤ) (s : Vfs σ Fat16Files) : Prop :=
  ∀ data read s' t, onDrive (onArena (kzalloc (stat.getD env.stat).size)) s = .ok (data, s') →
    data ≠ 0 → vfsFread data (stat.getD env.stat).size 1 fd s' = .ok (read, t) → 0 ≤ read →
    ∃ d u, s'.openAt fd = some d ∧
      d.fs.fsRead d.fsFileDescriptor (stat.getD env.stat).size 1 data s'.drive = .ok ((1 : ℤ), u)

/-- `process_load_binary` uses no `file_stat` that is unset and no buffer that is unfilled. -/
def BinarySafe (env : LoadEnv) (filename : List UInt8) (s : Vfs σ Fat16Files) : Prop :=
  ∀ stat fd t, BinaryStat env filename s stat fd t → stat ≠ none ∧ Fills env stat fd t

def ElfSafe (env : LoadEnv) (filename : List UInt8) (s : Vfs σ Fat16Files) : Prop :=
  ∀ stat fd t, ElfStat env filename s stat fd t → stat ≠ none ∧ Fills env stat fd t

structure OpenUnit (v : Fat16Volume) (unit : Fat16Unit) (fd : ℤ) (s : Vfs σ Fat16Files) : Prop where
  found : ∃ d, s.openAt fd = some d ∧ d.fs = fat16 v ∧
    s.drive.files d.fsFileDescriptor = some ⟨unit, 0⟩

variable {v : Fat16Volume} {unit : Fat16Unit} {env : LoadEnv} {filename : List UInt8} {fd : ℤ}
  {s s₁ t : Vfs σ Fat16Files} {stat : Option FileStat} {status : ℤ}

theorem OpenUnit.onHeap (h : OpenUnit v unit fd s) {m : ArenaM σ ℕ} {p : ℕ}
    (hm : onDrive (onArena m) s = .ok (p, t)) : OpenUnit v unit fd t := by
  obtain ⟨b, -, rfl⟩ := onHeapDrive_eq_ok hm
  exact ⟨h.found⟩

theorem OpenUnit.fstat (h : OpenUnit v unit fd s)
    (hstat : vfsFstat fd s = .ok ((status, stat), t)) :
    t = s ∧ (stat = none ↔ unit.IsDirectory) := by
  obtain ⟨⟨index, fs, handle⟩, hd, rfl, hk⟩ := h.found
  rw [vfsFstat, getFileDescriptor_bind (openAt_isInt32 hd).2.2, hd] at hstat
  obtain ⟨⟨y, st⟩, s₁, hrun, hret⟩ := bind_eq_ok.mp hstat
  obtain ⟨u, hu, rfl⟩ := onDrive_eq_ok.mp hrun
  have hstate := fat16Stat_state hu
  obtain ⟨k, hk', hu⟩ := handleAt_bind hu
  cases hret
  cases hk.symm.trans hk'
  refine ⟨by rw [hstate], ?_⟩
  obtain ⟨addr, dir | file⟩ := unit
  · cases hu
    exact iff_of_true rfl trivial
  · rcases file with _ | ⟨p, file⟩ <;> cases hu
    exact iff_of_false (Option.some_ne_none _) id

theorem OpenUnit.stat_directory (h : OpenUnit v unit fd s) (hdir : unit.IsDirectory) :
    vfsFstat fd s = .ok (((success : ℤ), none), s) := by
  obtain ⟨⟨index, fs, handle⟩, hd, rfl, hk⟩ := h.found
  obtain ⟨addr, dir | file⟩ := unit
  · have hstat : fat16Stat handle s.drive = .ok (((-errInvarg : ℤ), none), s.drive) :=
      bind_run_ok (handleAt_eq_ok.mpr ⟨hk, rfl⟩)
    exact vfsFstat_run hd hstat
  · exact hdir.elim

theorem OpenUnit.read (h : OpenUnit v unit fd s) (hfile : ¬ unit.IsDirectory) {data size : ℕ}
    {read : ℤ} (hread : vfsFread data size 1 fd s = .ok (read, t)) :
    ∃ d u, s.openAt fd = some d ∧ d.fs.fsRead d.fsFileDescriptor size 1 data s.drive =
      .ok ((1 : ℤ), u) := by
  obtain ⟨⟨index, fs, handle⟩, hd, rfl, hk⟩ := h.found
  have hdel := vfsFread_delegates (openAt_isInt32 hd).2.2 hread
  rw [Delegates, hd] at hdel
  obtain ⟨x, u, hx, -, -⟩ := hdel
  refine ⟨_, u, hd, ?_⟩
  obtain ⟨addr, dir | file⟩ := unit
  · exact absurd trivial hfile
  · have hx' := hx
    obtain ⟨k, hk', hx'⟩ := handleAt_bind hx'
    cases hk.symm.trans hk'
    rcases file with _ | ⟨p, file⟩
    · cases hx'
    · obtain ⟨members, d, h₁, h₂⟩ := bind_eq_ok.mp hx'
      obtain ⟨a, ha, rfl⟩ := onArena_eq_ok.mp h₁
      rw [readMembers_count _ _ _ _ ha] at h₂
      cases h₂
      exact hx

theorem fopen_unit {path : Path} {a : Arena σ}
    (hpath : parsePath env.path filename s.drive.arena = .ok (some path, a))
    (hdisk : s.disks path.driveId = some (fat16 v))
    (hopen : vfsFopen env.path filename modeRead s = .ok (fd, s₁)) (hfd : 0 ≤ fd) :
    ∃ unit, OpenUnit v unit fd s₁ ∧ (unit.IsDirectory ↔ NamesDirectory v env.path path) := by
  obtain ⟨path', a', fs, handle, u, hpath', hdisk', ho, hne, hfound, hfiles⟩ :=
    vfsFopen_opened hopen hfd
  cases hpath.symm.trans hpath'
  cases hdisk.symm.trans hdisk'
  have ho' : fat16Open v env.path path modeRead { s.drive with arena := a } = .ok (handle, u) := ho
  obtain ⟨h0, -⟩ | ⟨-, unit, b, -, hunit, hset⟩ := fat16Open_cases ho'
  · exact absurd h0 hne
  obtain ⟨file, hnamed, hmade⟩ := getUnit_madeOf hunit
  refine ⟨unit, ⟨_, hfound, rfl, ?_⟩, hmade.directory.trans ?_⟩
  · rw [hfiles, hset]
    exact update_self _ _ _
  · constructor
    · exact fun hdir ↦ ⟨file, hnamed, hdir⟩
    · rintro ⟨file', hnamed', hdir⟩
      cases hnamed.symm.trans hnamed'
      exact hdir

theorem fills_of_file (h : OpenUnit v unit fd s) (hfile : ¬ unit.IsDirectory) :
    Fills env stat fd s := by
  intro data read s' t halloc _ hread _
  exact (h.onHeap halloc).read hfile hread

theorem binarySafe_iff (hopen : vfsFopen env.path filename modeRead s = .ok (fd, s₁)) (hfd : 0 ≤ fd)
    (hunit : OpenUnit v unit fd s₁) : BinarySafe env filename s ↔ ¬ unit.IsDirectory := by
  constructor
  · intro h hdir
    exact (h none fd s₁ (.mk hopen hfd (hunit.stat_directory hdir) (by decide))).1 rfl
  · intro hfile stat fd' t hrun
    cases hrun with
    | mk hopen' _ hstat _ =>
      cases hopen.symm.trans hopen'
      obtain ⟨rfl, hset⟩ := hunit.fstat hstat
      exact ⟨fun hnone ↦ hfile (hset.mp hnone), fills_of_file hunit hfile⟩

theorem elfSafe_iff (hopen : vfsFopen env.path filename modeRead s = .ok (fd, s₁)) (hfd : 0 ≤ fd)
    (hunit : OpenUnit v unit fd s₁) {addr : ℕ} {s₂ : Vfs σ Fat16Files}
    (halloc : onDrive (onArena (kzalloc elfFileSize)) s₁ = .ok (addr, s₂)) (haddr : addr ≠ 0) :
    ElfSafe env filename s ↔ ¬ unit.IsDirectory := by
  have hunit₂ := hunit.onHeap halloc
  constructor
  · intro h hdir
    exact (h none fd s₂ (.mk hopen hfd halloc haddr (hunit₂.stat_directory hdir))).1 rfl
  · intro hfile stat fd' t hrun
    cases hrun with
    | mk hopen' _ halloc' _ hstat =>
      cases hopen.symm.trans hopen'
      cases halloc.symm.trans halloc'
      obtain ⟨rfl, hset⟩ := hunit₂.fstat hstat
      exact ⟨fun hnone ↦ hfile (hset.mp hnone), fills_of_file hunit₂ hfile⟩

/-- The calls on a descriptor report the failures of the driver exactly where
the driver does not fail, and a load uses only what was stored for it exactly
when its path does not name a directory. -/
theorem driver_errors_iff (s : Vfs σ Fat16Files) :
    (∀ fd d v k, s.openAt fd = some d → d.fs = fat16 v →
      s.drive.files d.fsFileDescriptor = some k →
        (∀ dest size nmemb, nmemb < 2 ^ 32 →
          (FreadReports s fd d dest size nmemb ↔ k.unit.Readable v nmemb)) ∧
        (∀ offset whence, FseekReports s fd d offset whence ↔ k.unit.Seekable offset whence) ∧
        (FstatReports s fd d ↔ ¬ k.unit.IsDirectory)) ∧
    (∀ env filename path a v fd s₁,
      parsePath env.path filename s.drive.arena = .ok (some path, a) →
      s.disks path.driveId = some (fat16 v) →
      vfsFopen env.path filename modeRead s = .ok (fd, s₁) → 0 ≤ fd →
        (BinarySafe env filename s ↔ ¬ NamesDirectory v env.path path) ∧
        ∀ addr s₂, onDrive (onArena (kzalloc elfFileSize)) s₁ = .ok (addr, s₂) → addr ≠ 0 →
          (ElfSafe env filename s ↔ ¬ NamesDirectory v env.path path)) := by
  constructor
  · intro fd d v k hd hfs hk
    exact ⟨fun dest size nmemb hn ↦ fread_reports_iff hd hfs hk dest size hn,
      fseek_reports_iff hd hfs hk, fstat_reports_iff hd hfs hk⟩
  · intro env filename path a v fd s₁ hpath hdisk hopen hfd
    obtain ⟨unit, hunit, hnames⟩ := fopen_unit hpath hdisk hopen hfd
    refine ⟨(binarySafe_iff hopen hfd hunit).trans (not_congr hnames), fun addr s₂ halloc haddr ↦ ?_⟩
    exact (elfSafe_iff hopen hfd hunit halloc haddr).trans (not_congr hnames)

def nestedVolume : Fat16Volume := ⟨nestedDisk, nestedData kernelHeapBase⟩

theorem opened_of_passes {v : Fat16Volume} {filename : List UInt8} {test : Path → Bool}
    (hparse : passes (parsePath (fun _ ↦ 0) filename) (mountedVfs v).drive.arena
      (fun path _ ↦ path.any (fun p ↦ decide (p.driveId = 65) && test p)) = true)
    (hopen : passes (vfsFopen (fun _ ↦ 0) filename modeRead) (mountedVfs v)
      (fun fd s ↦ decide (0 ≤ fd) && passes (onDrive (onArena (kzalloc elfFileSize))) s
        (fun addr _ ↦ decide (addr ≠ 0))) = true) :
    ∃ path a fd s₁ addr s₂, parsePath (fun _ ↦ 0) filename (mountedVfs v).drive.arena =
        .ok (some path, a) ∧ (mountedVfs v).disks path.driveId = some (fat16 v) ∧ test path = true ∧
      vfsFopen (fun _ ↦ 0) filename modeRead (mountedVfs v) = .ok (fd, s₁) ∧ 0 ≤ fd ∧
      onDrive (onArena (kzalloc elfFileSize)) s₁ = .ok (addr, s₂) ∧ addr ≠ 0 := by
  obtain ⟨path, a, h₁, htest⟩ := of_passes hparse
  obtain ⟨fd, s₁, h₂, hgo⟩ := of_passes hopen
  obtain ⟨hfd, hgo⟩ := Bool.and_eq_true_iff.mp hgo
  obtain ⟨addr, s₂, h₃, haddr⟩ := of_passes hgo
  cases path with
  | none => cases htest
  | some path =>
    obtain ⟨hid, htest⟩ := Bool.and_eq_true_iff.mp htest
    exact ⟨path, a, fd, s₁, addr, s₂, h₁, if_pos (of_decide_eq_true hid), htest, h₂,
      of_decide_eq_true hfd, h₃, of_decide_eq_true haddr⟩

theorem driver_errors_iff_short : BinarySafe quietEnv.bin [65, 58, 47, 70] (mountedVfs shortVolume) ∧
    ElfSafe quietEnv.elf [65, 58, 47, 70] (mountedVfs shortVolume) := by
  obtain ⟨path, a, fd, s₁, addr, s₂, hpath, hdisk, htest, hopen, hfd, halloc, haddr⟩ :=
    @opened_of_passes shortVolume [65, 58, 47, 70]
      (fun p ↦ (namedEntry shortVolume (fun _ ↦ 0) p).all (fun f ↦ !f.isDirectory))
      (by decide +kernel) (by decide +kernel)
  obtain ⟨hbin, helf⟩ := (driver_errors_iff (mountedVfs shortVolume)).2 quietEnv.bin _ path a
    shortVolume fd s₁ hpath hdisk hopen hfd
  have hnames : ¬ NamesDirectory shortVolume (fun _ ↦ 0) path := by
    rintro ⟨file, hfile, hdir⟩
    rw [hfile, Option.all_some, hdir] at htest
    exact Bool.false_ne_true htest
  exact ⟨hbin.mpr hnames, (helf addr s₂ halloc haddr).mpr hnames⟩

/-- None of the failures on an open directory is reported, and the loads of a
directory go on with what their stack holds. -/
theorem directory_errors_dropped : ∃ (fd : ℤ) (d : FileDescriptor (KHeap false) Fat16Files)
    (s₁ : Vfs (KHeap false) Fat16Files),
    vfsFopen (fun _ ↦ 0) [65, 58, 47, 68] modeRead (mountedVfs nestedVolume) = .ok (fd, s₁) ∧
      s₁.openAt fd = some d ∧ ¬ FreadReports s₁ fd d 0x2000 1 1 ∧
      ¬ FseekReports s₁ fd d 0 seekSet ∧ ¬ FstatReports s₁ fd d ∧
      ¬ BinarySafe quietEnv.bin [65, 58, 47, 68] (mountedVfs nestedVolume) ∧
      ¬ ElfSafe quietEnv.elf [65, 58, 47, 68] (mountedVfs nestedVolume) := by
  obtain ⟨path, a, fd, s₁, addr, s₂, hpath, hdisk, htest, hopen, hfd, halloc, haddr⟩ :=
    @opened_of_passes nestedVolume [65, 58, 47, 68]
      (fun p ↦ (namedEntry nestedVolume (fun _ ↦ 0) p).any Fat16File.isDirectory)
      (by decide +kernel) (by decide +kernel)
  obtain ⟨unit, hunit, hnames⟩ := @fopen_unit _ _ _ quietEnv.bin _ _ _ _ _ _ hpath hdisk hopen hfd
  obtain ⟨file, hfile, hdir⟩ := (Option.any_eq_true _ _).mp htest
  have hunitDir : unit.IsDirectory := hnames.mpr ⟨file, hfile, hdir⟩
  obtain ⟨d, hd, hfs, hk⟩ := hunit.found
  refine ⟨fd, d, s₁, hopen, hd, ?_, ?_, ?_, ?_, ?_⟩
  · rw [fread_reports_iff hd hfs hk 0x2000 1 (by decide)]
    obtain ⟨addr, dir | file⟩ := unit
    · exact id
    · exact hunitDir.elim
  · rw [fseek_reports_iff hd hfs hk]
    obtain ⟨addr, dir | file⟩ := unit
    · exact id
    · exact hunitDir.elim
  · rw [fstat_reports_iff hd hfs hk]
    exact not_not.mpr hunitDir
  · have hsafe : BinarySafe quietEnv.bin _ _ ↔ _ := binarySafe_iff hopen hfd hunit
    exact fun hb ↦ hsafe.mp hb hunitDir
  · have hsafe : ElfSafe quietEnv.elf _ _ ↔ _ := elfSafe_iff hopen hfd hunit halloc haddr
    exact fun he ↦ hsafe.mp he hunitDir

end GammaOS.Kernel
