import GammaOS.Fs.Fat16Laws
import GammaOS.Fs.NamedEntry

namespace GammaOS.Fs

open Function Foundation Foundation.Program Memory

/-- The states of the driver on a volume. Every handle comes from `fat16_open`, and
between the calls the rest of the kernel uses the heap. -/
inductive DriveRun {σ : Type} [Allocator σ] (v : Fat16Volume) : Drive σ Fat16Files → Prop
  | mounted (s : Arena σ) : DriveRun v ⟨s, fun _ ↦ none⟩
  | heap {d : Drive σ Fat16Files} (s : Arena σ) : DriveRun v d → DriveRun v ⟨s, d.files⟩
  | opens {d d' : Drive σ Fat16Files} {alien : ByteMemory} {path : Path} {mode : UInt8}
      {handle : ℕ} : DriveRun v d → fat16Open v alien path mode d = .ok (handle, d') →
      DriveRun v d'
  | reads {d d' : Drive σ Fat16Files} {handle size nmemb out : ℕ} {r : ℤ} : DriveRun v d →
      fat16Read v handle size nmemb out d = .ok (r, d') → DriveRun v d'
  | seeks {d d' : Drive σ Fat16Files} {handle offset whence : ℕ} {r : ℤ} : DriveRun v d →
      fat16Seek handle offset whence d = .ok (r, d') → DriveRun v d'
  | closes {d d' : Drive σ Fat16Files} {handle : ℕ} {r : ℤ} : DriveRun v d →
      fat16Close handle d = .ok (r, d') → DriveRun v d'

/-- What the arithmetic with the header of a mounted disk has to keep to: no later
call of `fat16_open` or `fat16_read` divides by zero, the recursion of a read
ends, and no cluster inside the volume starts at or behind 4 GiB. -/
structure GeometrySafe (σ : Type) [Allocator σ] (disk : Disk) (pd : Fat16PrivateData) : Prop where
  opens : ∀ d : Drive σ Fat16Files, DriveRun ⟨disk, pd⟩ d → ∀ alien path mode,
    fat16Open ⟨disk, pd⟩ alien path mode d ≠ .error .divideError
  reads : ∀ d : Drive σ Fat16Files, DriveRun ⟨disk, pd⟩ d → ∀ handle size nmemb out,
    fat16Read ⟨disk, pd⟩ handle size nmemb out d ≠ .error .divideError
  progress : ∀ firstCluster offset size,
    fat16ReadFromDisk disk pd firstCluster offset size ≠ .error .loop
  positions : ∀ cluster, 2 ≤ cluster → cluster ≤ 0xFFEF → InsideVolume disk cluster →
    fat16ClusterToSector pd cluster * sectorSize < 2 ^ 32

/-- Each name that the root directory has is, where it stands last, that of a
directory, and there is no entry at the first sector of the data. -/
def OnlyEmptyDirectories (disk : Disk) (root : Fat16Directory) : Prop :=
  ∀ alien u file, lastNamed (root.fileAt alien) u root.totalFiles = some file →
    file.isDirectory = true ∧
      fat16TotalFilesInDirectory disk (volumeHeader disk).dataSector = .ok 0

/-- The last cluster that can be addressed starts below 4 GiB. Clusters without
sectors are harmless while there is nothing to read from them. -/
structure GeometryFits (disk : Disk) (root : Fat16Directory) : Prop where
  clusters : (volumeHeader disk).sectorsPerCluster = 0 → OnlyEmptyDirectories disk root
  last : dataClusters disk ≠ 0 → (volumeHeader disk).dataSector +
    min (dataClusters disk - 1) 0xFFED * (volumeHeader disk).sectorsPerCluster < 2 ^ 23

def NoFile (files : Fat16Files) : Prop :=
  ∀ handle fd, files handle = some fd → fd.unit.IsDirectory

/-- The heap has room for an open that goes through the whole root directory and
loads the directory at the first sector of the data. -/
def RoomToOpen (σ : Type) [Allocator σ] [RoomyAllocator σ] (disk : Disk) (root : Fat16Directory) :
    Prop :=
  ∃ (totalFiles : ℕ) (s : Arena σ),
    fat16TotalFilesInDirectory disk (volumeHeader disk).dataSector = .ok totalFiles ∧
      s.HasRoom (2 * root.totalFiles + blocksOf (u32 (totalFiles * 32)) + 1)

variable {σ : Type} [Allocator σ] {v : Fat16Volume} {disk : Disk} {pd : Fat16PrivateData}
  {alien : ByteMemory} {file : Fat16File} {path : Path} {d : Drive σ Fat16Files}

theorem NoFile.update {files : Fat16Files} {handle : ℕ} {fd : Option Fat16FileDescriptor}
    (h : NoFile files) (hfd : ∀ x, fd = some x → x.unit.IsDirectory) :
    NoFile (update files handle fd) := by
  intro k x hk
  by_cases hkh : k = handle
  · subst hkh
    rw [update_self] at hk
    exact hfd x hk
  · rw [update_of_ne hkh] at hk
    exact h k x hk

omit [Allocator σ] in
theorem fat16Read_noFile (h : NoFile d.files) (handle size nmemb out : ℕ) :
    fat16Read v handle size nmemb out d ≠ .error .divideError := by
  cases hfd : d.files handle with
  | none =>
    have hat : handleAt handle d = .error .dangling := by rw [handleAt, hfd]
    rw [fat16Read, bind_run_error hat]
    intro he
    cases he
  | some fd =>
    have hat : handleAt handle d = .ok (fd, d) := by rw [handleAt, hfd]
    have hdir := h handle fd hfd
    rw [fat16Read, bind_run_ok hat]
    obtain ⟨⟨addr, dir | file⟩, position⟩ := fd
    · intro he
      cases he
    · exact hdir.elim

theorem DriveRun.noFile (h : DriveRun v d)
    (hnames : ∀ alien path file, namedEntry v alien path = some file → file.isDirectory = true) :
    NoFile d.files := by
  induction h with
  | mounted s => exact nofun
  | heap s _ ih => exact ih
  | opens _ ho ih =>
    rcases fat16Open_cases ho with ⟨-, hf⟩ | ⟨-, unit, a, -, hget, hf⟩
    · rwa [hf]
    · obtain ⟨file, hfile, hmade⟩ := getUnit_madeOf hget
      rw [hf]
      refine ih.update ?_
      rintro _ ⟨⟩
      exact hmade.directory.mpr (hnames _ _ file hfile)
  | reads _ hr ih => rwa [(fat16Read_files hr).1]
  | seeks _ hr ih =>
    obtain ⟨-, fd, position, hfd, hf⟩ := fat16Seek_files hr
    rw [hf]
    refine ih.update ?_
    rintro _ ⟨⟩
    exact ih _ fd hfd
  | closes _ hr ih =>
    rw [fat16Close_files hr]
    exact ih.update nofun

theorem subdirectory_none (h : v.pd.clusterSize = 0) (file : Fat16File) :
    subdirectory v file = none := by
  rw [subdirectory]
  generalize fat16TotalFilesInDirectory v.disk (fat16ClusterToSector v.pd file.firstCluster) = total
  cases total with
  | error e => rfl
  | ok n => simp [Except.toOption, fat16ReadFromDisk_divides h]

theorem namedEntry_isDirectory (hsize : v.pd.clusterSize = 0)
    (h : OnlyEmptyDirectories v.disk v.pd.root) (hfile : namedEntry v alien path = some file) :
    file.isDirectory = true := by
  unfold namedEntry at hfile
  split at hfile
  · cases hfile
  · rename_i u _
    cases hrest : path.rest with
    | nil =>
      rw [hrest, entryFrom] at hfile
      exact (h alien u.str file hfile).1
    | cons w us =>
      rw [hrest, entryFrom] at hfile
      obtain ⟨_, -, hfile⟩ := Option.bind_eq_some_iff.mp hfile
      rw [subdirectory_none hsize] at hfile
      cases hfile

theorem OnlyEmptyDirectories.empty {root : Fat16Directory} (h : OnlyEmptyDirectories disk root) :
    root.totalFiles = 0 ∨
      fat16TotalFilesInDirectory disk (volumeHeader disk).dataSector = .ok 0 := by
  rcases Nat.eq_zero_or_pos root.totalFiles with hnone | hpos
  · exact Or.inl hnone
  · have hon : (root.fileAt (fun _ ↦ 0) 0).OnDisk := ⟨_, rfl⟩
    have hself : sameName (root.fileAt (fun _ ↦ 0) 0)
        (fat16GetFullRelativeName (root.fileAt (fun _ ↦ 0) 0)) = true := hon.sameName_self
    obtain ⟨file, hfile⟩ : ∃ file, lastNamed (root.fileAt fun _ ↦ 0) _ root.totalFiles = some file :=
      lastNamed_of_name hself _ hpos
    exact Or.inr (h _ _ file hfile).2

section Safe

variable [LawfulAllocator σ]

theorem loadDirectory_avoids_empty (h : ∀ cluster,
    fat16TotalFilesInDirectory v.disk (fat16ClusterToSector v.pd cluster) = .ok 0)
    (file : Fat16File) : Avoids .divideError (fat16LoadDirectory (σ := σ) v file) := by
  refine (kzalloc_avoids 16).bind (fun dir ↦ Avoids.ite (fun _ ↦ .pure) (fun _ ↦ ?_))
  refine Avoids.ite (fun _ ↦ (kfree_avoids dir).bind (fun _ ↦ .pure)) (fun _ s hs ↦ ?_)
  obtain ⟨s', hnull⟩ := kzalloc_none (n := u32 (0 * 32)) rfl s
  rw [bind_run_ok (ofExcept_eq_ok.mpr ⟨h _, rfl⟩), bind_run_ok hnull, if_pos rfl] at hs
  cases hs

theorem GeometryFits.safe (h : GeometryFits disk pd.root) (hm : Mounted disk pd) :
    GeometrySafe σ disk pd := by
  by_cases hzero : (volumeHeader disk).sectorsPerCluster = 0
  · have hsize : pd.clusterSize = 0 := by
      rw [Fat16PrivateData.clusterSize, hm.header, hzero, Nat.zero_mul]
    have honly := h.clusters hzero
    have hget : ∀ alien path, Avoids .divideError (fat16GetUnit (σ := σ) ⟨disk, pd⟩ alien path) := by
      intro alien path
      rcases honly.empty with hnone | hempty
      · have hpure : (fat16GetUnit ⟨disk, pd⟩ alien path : ArenaM σ _) = pure none := by
          rw [fat16GetUnit, fat16FindUnitInDirectory, hnone]
          rfl
        rw [hpure]
        exact .pure
      · refine fat16GetUnit_avoids (loadDirectory_avoids_empty (fun cluster ↦ ?_)) (by decide) path
        rw [hm.clusterToSector_zero hzero]
        exact hempty
    have hnames : ∀ alien path file, namedEntry ⟨disk, pd⟩ alien path = some file →
        file.isDirectory = true := fun alien path file hfile ↦
      namedEntry_isDirectory (v := ⟨disk, pd⟩) hsize honly hfile
    refine ⟨fun d _ alien path mode ↦ fat16Open_avoids (hget alien path) (by decide) mode d,
      fun d hd handle size nmemb out ↦ fat16Read_noFile (hd.noFile hnames) _ _ _ _,
      fun c offset size hloop ↦ ?_, hm.positions_iff.mpr h.last⟩
    rw [fat16ReadFromDisk_divides hsize] at hloop
    cases hloop
  · have hsize : pd.clusterSize ≠ 0 := by
      rw [← hm.header] at hzero
      exact clusterSize_ne_zero (Nat.pos_of_ne_zero hzero)
    have hread : ∀ e c offset size, fat16ReadFromDisk disk pd c offset size ≠ .error e := by
      intro e c offset size he
      obtain ⟨bytes, hread, -⟩ := @fat16ReadFromDisk_total disk pd c hsize offset size
      cases hread.symm.trans he
    have hcount : ∀ sector, fat16TotalFilesInDirectory disk sector ≠ .error .divideError := by
      intro sector he
      cases totalFilesLoop_error _ _ _ he
    have havoid : VolumeAvoids ⟨disk, pd⟩ .divideError := ⟨hcount, hread _⟩
    exact ⟨fun d _ alien path mode ↦ fat16Open_avoids (fat16GetUnit_avoids
        (fat16LoadDirectory_avoids havoid) (by decide) path) (by decide) mode d,
      fun d _ handle size nmemb out ↦ fat16Read_avoids havoid (by decide) (by decide) _ _ _ _ d,
      hread _, hm.positions_iff.mpr h.last⟩

end Safe

theorem fat16Open_run {unit : Fat16Unit} {fd : ℕ} {s s₁ s₂ : Arena σ} (files : Fat16Files)
    (h₁ : kzallocUnchecked 8 s = .ok (fd, s₁))
    (h₂ : fat16GetUnit v alien path s₁ = .ok (some unit, s₂)) :
    fat16Open v alien path modeRead ⟨s, files⟩ =
      .ok (fd, ⟨s₂, update files fd (some ⟨unit, 0⟩)⟩) := by
  have hfd : onArena (kzallocUnchecked 8) (⟨s, files⟩ : Drive σ Fat16Files) =
      .ok (fd, ⟨s₁, files⟩) := onArena_eq_ok.mpr ⟨s₁, h₁, rfl⟩
  have hget : onArena (fat16GetUnit v alien path) (⟨s₁, files⟩ : Drive σ Fat16Files) =
      .ok (some unit, ⟨s₂, files⟩) := onArena_eq_ok.mpr ⟨s₂, h₂, rfl⟩
  rw [fat16Open, if_neg (not_not.mpr rfl), bind_run_ok hfd, bind_run_ok hget]
  rfl

theorem fat16Open_error {fd : ℕ} {e : Fault} {s s₁ : Arena σ} (files : Fat16Files)
    (h₁ : kzallocUnchecked 8 s = .ok (fd, s₁)) (h₂ : fat16GetUnit v alien path s₁ = .error e) :
    fat16Open v alien path modeRead ⟨s, files⟩ = .error e := by
  have hfd : onArena (kzallocUnchecked 8) (⟨s, files⟩ : Drive σ Fat16Files) =
      .ok (fd, ⟨s₁, files⟩) := onArena_eq_ok.mpr ⟨s₁, h₁, rfl⟩
  have hget : onArena (fat16GetUnit v alien path) (⟨s₁, files⟩ : Drive σ Fat16Files) =
      .error e := by
    rw [onArena, onPart, h₂]
  rw [fat16Open, if_neg (not_not.mpr rfl), bind_run_ok hfd, bind_run_error hget]

/-- Clusters have no sectors, so that every directory starts at the same one,
where it has `n` entries. -/
structure Sectorless (v : Fat16Volume) (n : ℕ) : Prop where
  size : v.pd.clusterSize = 0
  total : ∀ cluster,
    fat16TotalFilesInDirectory v.disk (fat16ClusterToSector v.pd cluster) = .ok n

/-- What is made of an entry without a division: a unit with a copy of a file, and
something of a directory only where directories have no entries. -/
def MadeWithout (n : ℕ) (file : Fat16File) (unit : Option Fat16Unit) : Prop :=
  if file.isDirectory then n = 0 else ∃ a q, unit = some ⟨a, .file (some (q, file))⟩

section Divides

variable [LawfulAllocator σ] [RoomyAllocator σ] {n k : ℕ} {dir : Fat16Directory}

theorem Sectorless.newUnit (h : Sectorless v n) (hk : blocksOf (u32 (n * 32)) ≤ k)
    (file : Fat16File) {s : Arena σ} (hs : s.HasRoom (k + 2)) :
    fat16NewFatUnitForDirectoryUnit v file s = .error .divideError ∨
      ∃ unit s', fat16NewFatUnitForDirectoryUnit v file s = .ok (unit, s') ∧
        MadeWithout n file unit ∧ s'.HasRoom k := by
  by_cases hd : file.isDirectory = true
  · obtain ⟨a, s₁, h₁, hne₁, hr₁⟩ := kzallocOne_total (n := 8) (by decide) (k + 1) s hs
    obtain ⟨b, s₂, h₂, hne₂, hr₂⟩ := kzallocOne_total (n := 16) (by decide) k s₁ hr₁
    have hcount := h.total file.firstCluster
    have hlt := totalFiles_lt hcount
    rw [fat16NewFatUnitForDirectoryUnit, bind_run_ok h₁, if_neg hne₁, if_pos hd]
    by_cases hn : n = 0
    · subst hn
      obtain ⟨_, s₃, h₃, rfl, hr₃⟩ := kzallocNone_total (n := u32 (0 * 32)) rfl k s₂ hr₂
      have hload : fat16LoadDirectory v file s₁ = .ok (none, s₃) := by
        rw [fat16LoadDirectory, bind_run_ok h₂, if_neg hne₂, if_neg (not_not.mpr hd),
          bind_run_ok (ofExcept_eq_ok.mpr ⟨hcount, rfl⟩), bind_run_ok h₃, if_pos rfl]
        rfl
      exact Or.inr ⟨_, s₃, bind_run_ok hload, by rw [MadeWithout, if_pos hd], hr₃⟩
    · have hsize : u32 (u32 (n * 32)) = u32 (n * 32) := u32_of_lt (u32_lt _)
      have hpos : 0 < u32 (u32 (n * 32)) := by
        rw [hsize, u32_of_lt (by omega)]
        omega
      obtain ⟨files, s₃, h₃, hne₃, -⟩ := kzalloc_total hpos 0 s₂
        (hr₂.mono (by rw [hsize, Nat.add_zero]; exact hk))
      have hload : fat16LoadDirectory v file s₁ = .error .divideError := by
        rw [fat16LoadDirectory, bind_run_ok h₂, if_neg hne₂, if_neg (not_not.mpr hd),
          bind_run_ok (ofExcept_eq_ok.mpr ⟨hcount, rfl⟩), bind_run_ok h₃, if_neg hne₃,
          fat16ReadFromDisk_divides h.size]
        rfl
      exact Or.inl (bind_run_error hload)
  · obtain ⟨unit, s', hunit, hmade, hr⟩ := newUnit_file (Bool.eq_false_of_not_eq_true hd) k s hs
    exact Or.inr ⟨unit, s', hunit, by rwa [MadeWithout, if_neg hd], hr⟩

theorem Sectorless.findUnit (h : Sectorless v n) (hk : blocksOf (u32 (n * 32)) ≤ k) (str : UnitStr) :
    ∀ j i unit₀ (s : Arena σ), s.HasRoom (k + 2 * j) →
      findUnitLoop v alien dir (some str) j i unit₀ s = .error .divideError ∨
      ∃ unit s', findUnitLoop v alien dir (some str) j i unit₀ s = .ok (unit, s') ∧
        ((∀ l, i ≤ l → l < i + j → ¬ sameName (dir.fileAt alien l) str.str = true) →
          unit = unit₀) ∧
        ∀ l, i ≤ l → l < i + j → sameName (dir.fileAt alien l) str.str = true →
          (∀ l', l < l' → l' < i + j → ¬ sameName (dir.fileAt alien l') str.str = true) →
          MadeWithout n (dir.fileAt alien l) unit := by
  intro j
  induction j with
  | zero => exact fun i unit₀ s _ ↦ Or.inr ⟨unit₀, s, rfl, fun _ ↦ rfl, fun l h₁ h₂ ↦ by omega⟩
  | succ j ih =>
    intro i unit₀ s hs
    by_cases hsame : sameName (dir.fileAt alien i) str.str = true
    · rw [findUnitLoop, if_pos hsame]
      rcases h.newUnit (k := k + 2 * j) (by omega) (dir.fileAt alien i) hs with
        hdiv | ⟨unit₁, s₁, hnew, hmade, hr⟩
      · exact Or.inl (bind_run_error hdiv)
      rw [bind_run_ok hnew]
      refine (ih (i + 1) unit₁ s₁ hr).imp_right ?_
      rintro ⟨unit, s', hloop, hnone, hlast⟩
      refine ⟨unit, s', hloop, fun hno ↦ absurd hsame (hno i le_rfl (by omega)),
        fun l h₁ h₂ hl hlater ↦ ?_⟩
      rcases Nat.eq_or_lt_of_le h₁ with rfl | hlt
      · rwa [hnone (fun l' h₁' h₂' ↦ hlater l' h₁' (by omega))]
      · exact hlast l hlt (by omega) hl (fun l' h₁' h₂' ↦ hlater l' h₁' (by omega))
    · rw [findUnitLoop, if_neg hsame]
      refine (ih (i + 1) unit₀ s (hs.mono (by omega))).imp_right ?_
      rintro ⟨unit, s', hloop, hnone, hlast⟩
      refine ⟨unit, s', hloop, fun hno ↦ hnone (fun l h₁ h₂ ↦ hno l (by omega) (by omega)),
        fun l h₁ h₂ hl hlater ↦ ?_⟩
      rcases Nat.eq_or_lt_of_le h₁ with rfl | hlt
      · exact absurd hl hsame
      · exact hlast l hlt (by omega) hl (fun l' h₁' h₂' ↦ hlater l' h₁' (by omega))

theorem GeometrySafe.onlyEmptyDirectories (h : GeometrySafe σ disk pd) (hm : Mounted disk pd)
    (hzero : (volumeHeader disk).sectorsPerCluster = 0) (hroom : RoomToOpen σ disk pd.root) :
    OnlyEmptyDirectories disk pd.root := by
  obtain ⟨n, s, htotal, hs⟩ := hroom
  intro alien u file hfile
  obtain ⟨l, hl, rfl, hname, hlater⟩ := lastNamed_some _ hfile
  have hless : Sectorless ⟨disk, pd⟩ n := by
    refine ⟨?_, fun cluster ↦ ?_⟩
    · rw [Fat16PrivateData.clusterSize, hm.header, hzero, Nat.zero_mul]
    · rw [hm.clusterToSector_zero hzero]
      exact htotal
  obtain ⟨fd, s₁, h₁, -, hr₁⟩ := kzallocUncheckedOne_total (n := 8) (by decide)
    (2 * pd.root.totalFiles + blocksOf (u32 (n * 32))) s hs
  have hrun := @DriveRun.mounted σ _ ⟨disk, pd⟩ s
  rcases @Sectorless.findUnit σ _ ⟨disk, pd⟩ alien _ _ n _ pd.root hless le_rfl ⟨0, u⟩
    pd.root.totalFiles 0 none s₁ (hr₁.mono (by omega)) with hdiv | ⟨unit, s₂, hfind, -, hlast⟩
  · have hget : fat16GetUnit ⟨disk, pd⟩ alien ⟨0, 65, some ⟨0, u⟩, []⟩ s₁ = .error .divideError :=
      bind_run_error hdiv
    exact (h.opens _ hrun _ _ _ (fat16Open_error _ h₁ hget)).elim
  · have hmade := hlast l (Nat.zero_le l) (by omega) hname
      (fun l' h₁' h₂' ↦ hlater l' h₁' (by omega))
    by_cases hd : (pd.root.fileAt alien l).isDirectory = true
    · rw [MadeWithout, if_pos hd] at hmade
      exact ⟨hd, hmade ▸ htotal⟩
    · rw [MadeWithout, if_neg hd] at hmade
      obtain ⟨a, q, rfl⟩ := hmade
      have hget : fat16GetUnit ⟨disk, pd⟩ alien ⟨0, 65, some ⟨0, u⟩, []⟩ s₁ =
          .ok (some ⟨a, .file (some (q, pd.root.fileAt alien l))⟩, s₂) := bind_run_ok hfind
      have hopen := fat16Open_run (fun _ ↦ none) h₁ hget
      have hfd : update (fun _ ↦ none : Fat16Files) fd
          (some ⟨⟨a, .file (some (q, pd.root.fileAt alien l))⟩, 0⟩) fd = _ := update_self _ _ _
      exact (h.reads _ (hrun.opens hopen) fd 0 1 0
        (read_divides hless.size hfd Nat.one_ne_zero)).elim

/-- The arithmetic is safe where the header fits, and on every volume whose header
does not fit it fails, as long as the heap lets files be opened. -/
theorem geometrySafe_iff {s s' : Arena σ} (h : fat16Resolve disk s = .ok (some pd, s')) :
    (GeometryFits disk pd.root → GeometrySafe σ disk pd) ∧
      (RoomToOpen σ disk pd.root → GeometrySafe σ disk pd → GeometryFits disk pd.root) := by
  have hm := fat16Resolve_mounted h
  exact ⟨fun hfits ↦ hfits.safe hm, fun hroom hsafe ↦
    ⟨fun hzero ↦ hsafe.onlyEmptyDirectories hm hzero hroom, hm.positions_iff.mp hsafe.positions⟩⟩

end Divides

theorem geometrySafe_iff_oneFile : ∃ pd s',
    fat16Resolve (oneFileDisk 1) (freshArena false) = .ok (some pd, s') ∧
      (GeometrySafe (KHeap false) (oneFileDisk 1) pd ↔ GeometryFits (oneFileDisk 1) pd.root) := by
  obtain ⟨_, s', h, ⟨files, rfl⟩, -⟩ :=
    oneFileDisk_resolved 1 0 (freshArena false) (freshArena_room false (by decide))
  have hsector : (volumeHeader (oneFileDisk 1)).dataSector = 3 := by decide +kernel
  have hempty : fat16TotalFilesInDirectory (oneFileDisk 1) 3 = .ok 0 :=
    fat16TotalFiles_count (by decide) (by decide) nofun rfl
  have hroom : RoomToOpen (KHeap false) (oneFileDisk 1) (oneFileData 1 files).root :=
    ⟨0, freshArena false, hsector ▸ hempty,
      freshArena_room false (show 2 * 1 + blocksOf (u32 (0 * 32)) + 1 ≤ kheapEntryCount by decide)⟩
  exact ⟨_, s', h, (geometrySafe_iff h).2 hroom, (geometrySafe_iff h).1⟩

/-- On a volume whose header says that its clusters have no sectors, the first
read of its file divides by zero. -/
theorem no_sectors_divides : ∃ pd s',
    fat16Resolve (oneFileDisk 0) (freshArena false) = .ok (some pd, s') ∧
      (∃ path handle d,
        fat16Open ⟨oneFileDisk 0, pd⟩ (fun _ ↦ 0) path modeRead ⟨s', fun _ ↦ none⟩ = .ok (handle, d) ∧
        fat16Read ⟨oneFileDisk 0, pd⟩ handle 1 1 0x2000 d = .error .divideError) ∧
      ¬ GeometrySafe (KHeap false) (oneFileDisk 0) pd := by
  obtain ⟨_, s₁, h₁, ⟨files, rfl⟩, hr₁⟩ :=
    oneFileDisk_resolved 0 3 (freshArena false) (freshArena_room false (by decide))
  let v : Fat16Volume := ⟨oneFileDisk 0, oneFileData 0 files⟩
  have hleads : Leads v oneFileEntry v.pd.root [[70]] := .file (oneFileRoot_entry 0 files) rfl
  obtain ⟨fd, s₂, h₂, -, hr₂⟩ := kzallocUncheckedOne_total (n := 8) (by decide) 2 s₁ hr₁
  obtain ⟨_, s₃, h₃, ⟨a, q, rfl⟩, -⟩ := hleads.getUnit_total (fun _ ↦ 0)
    (rfl : [].map UnitStr.str = []) 0 0 0 s₂ hr₂
  generalize hunit : (⟨a, .file (some (q, oneFileEntry))⟩ : Fat16Unit) = unit at h₃
  have hopen := fat16Open_run (fun _ ↦ none) h₂ h₃
  have hfd : update (fun _ ↦ none : Fat16Files) fd (some ⟨unit, 0⟩) fd =
      some ⟨⟨a, .file (some (q, oneFileEntry))⟩, 0⟩ := by
    rw [hunit]
    exact update_self _ _ _
  have hread : fat16Read v fd 1 1 0x2000 ⟨s₃, update (fun _ ↦ none) fd (some ⟨unit, 0⟩)⟩ =
      .error .divideError := read_divides (v := v) (Nat.zero_mul sectorSize) hfd Nat.one_ne_zero
  have hrun : DriveRun v ⟨s₃, update (fun _ ↦ none) fd (some ⟨unit, 0⟩)⟩ :=
    (DriveRun.mounted s₁).opens hopen
  have hnot : ¬ GeometrySafe (KHeap false) v.disk v.pd :=
    fun h ↦ h.reads _ hrun fd 1 1 0x2000 hread
  exact ⟨_, s₁, h₁, ⟨_, fd, _, hopen, hread⟩, hnot⟩

end GammaOS.Fs
