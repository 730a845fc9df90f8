import GammaOS.Fs.Fat16Faults
import GammaOS.Fs.Geometry
import GammaOS.Fs.PathGrammar
import GammaOS.Fs.VfsFrame

namespace GammaOS.Fs

open Foundation Foundation.Program Memory

def OnlyDiskA {σ : Type} [Allocator σ] (v : Fat16Volume) (s : Vfs σ Fat16Files) : Prop :=
  ∀ drive, s.disks drive = if drive = 65 then some (fat16 v) else none

/-- Whatever lies behind its buffers, the open follows no null pointer in the path, in
its first unit or in the file system of its drive: all three are there, or
the call returns a refusal and the descriptors stay as they are. -/
def FopenSafe {whole : Bool} (filename : List UInt8) (mode : UInt8)
    (s : Vfs (KHeap whole) Fat16Files) : Prop :=
  ∀ alien, (∃ q a fs u, parsePath alien filename s.drive.arena = .ok (some q, a) ∧
      s.disks q.driveId = some fs ∧ q.first = some u) ∨
    ∃ x t, vfsFopen alien filename mode s = .ok (x, t) ∧ x < 0 ∧ t.fdList = s.fdList

section Calls

variable {σ δ α : Type} [Allocator σ] {alien : ByteMemory} {filename : List UInt8} {mode : UInt8}
  {s : Vfs σ δ} {q : Path} {a : Arena σ} {fs : Filesystem σ δ}

omit [Allocator σ] in
theorem onHeapDrive_run {m : ArenaM σ α} {x : α} (h : m s.drive.arena = .ok (x, a)) :
    onDrive (onArena m) s = .ok (x, { s with drive := { s.drive with arena := a } }) :=
  onDrive_eq_ok.mpr ⟨_, onArena_eq_ok.mpr ⟨a, h, rfl⟩, rfl⟩

theorem fopen_not_parsed (hmode : mode ≠ modeInvalid)
    (h : parsePath alien filename s.drive.arena = .ok (none, a)) :
    vfsFopen alien filename mode s = .error .nullDeref := by
  rw [vfsFopen, if_neg hmode, bind_run_ok (onHeapDrive_run h)]
  rfl

theorem fopen_not_mounted (hmode : mode ≠ modeInvalid)
    (h : parsePath alien filename s.drive.arena = .ok (some q, a))
    (hd : 65 ≤ q.driveId ∧ q.driveId ≤ 90) (hfs : s.disks q.driveId = none) :
    vfsFopen alien filename mode s = .error .nullDeref := by
  have hrange : ¬ (q.driveId < 65 ∨ q.driveId > 90) :=
    not_or.mpr ⟨UInt8.not_lt.mpr hd.1, UInt8.not_lt.mpr hd.2⟩
  rw [vfsFopen, if_neg hmode, bind_run_ok (onHeapDrive_run h)]
  dsimp only
  rw [if_neg hrange, bind_run_ok (gets_run _ _)]
  dsimp only
  rw [hfs]
  rfl

theorem fopen_mounted (hmode : mode ≠ modeInvalid)
    (h : parsePath alien filename s.drive.arena = .ok (some q, a))
    (hd : 65 ≤ q.driveId ∧ q.driveId ≤ 90) (hfs : s.disks q.driveId = some fs) :
    (∀ e, fs.fsOpen alien q mode { s.drive with arena := a } = .error e →
      vfsFopen alien filename mode s = .error e) ∧
    ∀ d, fs.fsOpen alien q mode { s.drive with arena := a } = .ok (0, d) →
      vfsFopen alien filename mode s = .ok (-errFsFopenFailed, { s with drive := d }) := by
  have hrange : ¬ (q.driveId < 65 ∨ q.driveId > 90) :=
    not_or.mpr ⟨UInt8.not_lt.mpr hd.1, UInt8.not_lt.mpr hd.2⟩
  rw [vfsFopen, if_neg hmode, bind_run_ok (onHeapDrive_run h)]
  dsimp only
  rw [if_neg hrange, bind_run_ok (gets_run _ _)]
  dsimp only
  rw [hfs]
  refine ⟨fun e he ↦ bind_run_error ?_, fun d hd ↦ ?_⟩
  · rw [onDrive, onPart, he]
  · have hopen : onDrive (fs.fsOpen alien q mode) { s with drive := { s.drive with arena := a } } =
        .ok (0, { s with drive := d }) := onDrive_eq_ok.mpr ⟨d, hd, rfl⟩
    exact bind_run_ok hopen

theorem parsePath_no_drive {a₀ : Arena σ} (alien : ByteMemory) (hd : parseDrive filename = none)
    (hlen : filename.length ≤ fsMaxPathLength) :
    parsePath alien filename a₀ = .error .nullDeref ∨
      ∃ a', parsePath alien filename a₀ = .ok (none, a') := by
  obtain ⟨parsed, a₁, h₁⟩ : ∃ p a₁, kzalloc 8 a₀ = .ok (p, a₁) := ⟨_, _, rfl⟩
  obtain ⟨copy, a₂, h₂⟩ : ∃ p a₂, kzalloc filename.length a₁ = .ok (p, a₂) := ⟨_, _, rfl⟩
  rw [parsePath, bind_run_ok (require_run hlen), bind_run_ok h₁]
  by_cases hcopy : copy = 0
  · have hnull : kzallocUnchecked filename.length a₁ = .error .nullDeref := by
      rw [kzallocUnchecked, bind_run_ok h₂, bind_run_error (require_error (not_not.mpr hcopy))]
    exact Or.inl (bind_run_error hnull)
  · rw [bind_run_ok (kzallocUnchecked_eq_ok.mpr ⟨h₂, hcopy⟩), hd]
    exact Or.inr ⟨a₂, rfl⟩

theorem fopen_no_drive (hd : parseDrive filename = none) (hlen : filename.length ≤ fsMaxPathLength)
    (hmode : mode ≠ modeInvalid) : vfsFopen alien filename mode s = .error .nullDeref := by
  have hparsed := @parsePath_no_drive _ _ _ s.drive.arena alien hd hlen
  rcases hparsed with hrun | ⟨a, hrun⟩
  · have hparse : onDrive (onArena (parsePath alien filename)) s = .error .nullDeref := by
      rw [onDrive, onPart, onArena, onPart, hrun]
    rw [vfsFopen, if_neg hmode, bind_run_error hparse]
  · exact fopen_not_parsed hmode hrun

end Calls

variable {whole : Bool} {alien : ByteMemory} {filename : List UInt8} {mode : UInt8}
  {v : Fat16Volume} {q : Path} {d d' : Drive (KHeap whole) Fat16Files}
  {s : Vfs (KHeap whole) Fat16Files} {a : Arena (KHeap whole)} {x : ℕ}

theorem fat16Open_empty (alien : ByteMemory)
    (h : mode ≠ modeRead ∨ (v.pd.root.totalFiles = 0 ∧ 0 < d.arena.freeCount)) :
    ∃ d', fat16Open v alien q mode d = .ok (0, d') := by
  by_cases hmode : mode = modeRead
  · obtain ⟨htotal, hroom⟩ := h.resolve_left (not_not.mpr hmode)
    obtain ⟨fd, a₁, h₁, -, -⟩ := kzallocUncheckedOne_granted (n := 8) (by decide) hroom
    have hfd : onArena (kzallocUnchecked 8) d = .ok (blockAddress fd, { d with arena := a₁ }) :=
      onArena_eq_ok.mpr ⟨a₁, h₁, rfl⟩
    have hget : fat16GetUnit v alien q a₁ = .ok (none, a₁) := by
      rw [fat16GetUnit, fat16FindUnitInDirectory, htotal]
      rfl
    have hget' : onArena (fat16GetUnit v alien q) { d with arena := a₁ } =
        .ok (none, { d with arena := a₁ }) := onArena_eq_ok.mpr ⟨a₁, hget, rfl⟩
    rw [fat16Open, if_neg (not_not.mpr hmode), bind_run_ok hfd, bind_run_ok hget']
    exact ⟨_, rfl⟩
  · exact ⟨d, by rw [fat16Open, if_pos hmode]; rfl⟩

/-- The name of a first entry is compared with the null pointer. -/
theorem fat16Open_bare_entry (hroom : 0 < d.arena.freeCount) (hfirst : q.first = none)
    (hpos : v.pd.root.totalFiles ≠ 0) : fat16Open v alien q modeRead d = .error .nullDeref := by
  obtain ⟨n, hn⟩ := Nat.exists_eq_succ_of_ne_zero hpos
  obtain ⟨fd, a₁, h₁, -, -⟩ := kzallocUncheckedOne_granted (n := 8) (by decide) hroom
  have hfd : onArena (kzallocUnchecked 8) d = .ok (blockAddress fd, { d with arena := a₁ }) :=
    onArena_eq_ok.mpr ⟨a₁, h₁, rfl⟩
  have hget : fat16GetUnit v alien q a₁ = .error .nullDeref := by
    rw [fat16GetUnit, fat16FindUnitInDirectory, hn, hfirst]
    rfl
  have hget' : onArena (fat16GetUnit v alien q) { d with arena := a₁ } = .error .nullDeref := by
    rw [onArena, onPart, hget]
  rw [fat16Open, if_neg (not_not.mpr rfl), bind_run_ok hfd, bind_run_error hget']

theorem fat16Open_bare (h : fat16Open v alien q mode d = .ok (x, d')) (hfirst : q.first = none) :
    mode ≠ modeRead ∨ (v.pd.root.totalFiles = 0 ∧ 0 < d.arena.freeCount) := by
  by_cases hmode : mode = modeRead
  · rw [fat16Open, if_neg (not_not.mpr hmode)] at h
    obtain ⟨fd, d₁, h₁, h⟩ := bind_eq_ok.mp h
    obtain ⟨a₁, ha, rfl⟩ := onArena_eq_ok.mp h₁
    obtain ⟨unit, d₂, h₂, -⟩ := bind_eq_ok.mp h
    obtain ⟨a₂, hget, -⟩ := onArena_eq_ok.mp h₂
    have hcount := kzallocUncheckedOne_count (n := 8) (by decide) ha
    refine Or.inr ⟨?_, by omega⟩
    cases htotal : v.pd.root.totalFiles with
    | zero => rfl
    | succ n =>
      rw [fat16GetUnit, fat16FindUnitInDirectory, htotal, hfirst] at hget
      cases hget
  · exact Or.inl hmode

/-- What an open that is safe has found: a path on the disk `A`, parsed to its
end, with a unit or with nothing to look up. -/
structure OpensSafely (v : Fat16Volume) (filename : List UInt8) (mode : UInt8)
    (free : ℕ) : Prop where
  drive : parseDrive filename = some 65
  short : ∀ u ∈ pathUnits (filename.drop 3), u.length < fsMaxPathUnitLength
  room : (3 < filename.length ∧ parseNeeds (pathUnits (filename.drop 3)).length ≤ free) ∨
    (filename.length = 3 ∧
      ((mode ≠ modeRead ∧ 3 ≤ free) ∨ (v.pd.root.totalFiles = 0 ∧ 6 ≤ free)))

theorem ParsedFrom.drive_range (h : ParsedFrom alien filename q) :
    65 ≤ q.driveId ∧ q.driveId ≤ 90 := by
  obtain ⟨h65, h90, -, -⟩ := parseDrive_some h.drive
  exact ⟨h65, h90⟩

/-- With no zero behind a buffer, the string of a unit does not fill it. -/
theorem ParsedFrom.short (h : ParsedFrom (fun _ ↦ 1) filename q) :
    ∀ u ∈ pathUnits (filename.drop 3), u.length < fsMaxPathUnitLength := by
  rw [← h.units]
  intro u hu
  obtain ⟨unit, hmem, rfl⟩ := List.mem_map.mp hu
  have hone : (1 : UInt8) ≠ 0 := by decide
  exact (h.held unit hmem).2.resolve_right (fun hfull ↦ hone hfull.2)

theorem fopen_bare_room (hdisk : OnlyDiskA v s) (hmode : mode ≠ modeInvalid)
    (hrun : parsePath alien filename s.drive.arena = .ok (some q, a))
    (hq : ParsedFrom alien filename q) (hfirst : q.first = none) {y : ℤ}
    {t : Vfs (KHeap whole) Fat16Files} (h : vfsFopen alien filename mode s = .ok (y, t)) :
    q.driveId = 65 ∧ (mode ≠ modeRead ∨ (v.pd.root.totalFiles = 0 ∧ 0 < a.freeCount)) := by
  by_cases hid : q.driveId = 65
  · have hfs : s.disks q.driveId = some (fat16 v) := by rw [hdisk, if_pos hid]
    refine ⟨hid, ?_⟩
    cases hopen : fat16Open v alien q mode { s.drive with arena := a } with
    | error e =>
      have herror := (fopen_mounted hmode hrun hq.drive_range hfs).1 e hopen
      cases herror.symm.trans h
    | ok p =>
      have hbare := fat16Open_bare hopen hfirst
      simpa only using hbare
  · have hfs : s.disks q.driveId = none := by rw [hdisk, if_neg hid]
    cases (fopen_not_mounted hmode hrun hq.drive_range hfs).symm.trans h

theorem FopenSafe.opens (h : FopenSafe filename mode s) (hdisk : OnlyDiskA v s)
    (hmode : mode ≠ modeInvalid) : OpensSafely v filename mode s.drive.arena.freeCount := by
  rcases h (fun _ ↦ 1) with ⟨q, a, fs, u, hrun, hfs, hu⟩ | ⟨y, t, hopen, -, -⟩
  · obtain ⟨hnone, -⟩ | ⟨_, ⟨⟩, hq⟩ := parsePath_returns hrun
    · cases hnone
    have hid : q.driveId = 65 := by
      by_contra hid
      rw [hdisk, if_neg hid] at hfs
      cases hfs
    have hne : filename.drop 3 ≠ [] := fun hnil ↦ by
      rw [hq.first.mpr hnil] at hu
      cases hu
    have hpos := List.length_pos_of_ne_nil hne
    rw [List.length_drop] at hpos
    exact ⟨hid ▸ hq.drive, hq.short, Or.inl ⟨by omega, (parsePath_count hrun).1⟩⟩
  · obtain ⟨q, a, hrun⟩ : ∃ q a, parsePath (fun _ ↦ 1) filename s.drive.arena = .ok (some q, a) := by
      cases vfsFopen_result hopen with
      | badMode hinvalid _ => exact absurd hinvalid hmode
      | badDrive hp _ => exact ⟨_, _, hp⟩
      | refused hp _ _ _ _ => exact ⟨_, _, hp⟩
      | opened hp _ _ _ _ _ => exact ⟨_, _, hp⟩
    obtain ⟨hnone, -⟩ | ⟨_, ⟨⟩, hq⟩ := parsePath_returns hrun
    · cases hnone
    obtain ⟨-, -, hthree, -⟩ := parseDrive_some hq.drive
    cases hfirst : q.first with
    | some u =>
      have hne := mt hq.first.mpr (hfirst ▸ Option.some_ne_none u)
      have hpos := List.length_pos_of_ne_nil hne
      rw [List.length_drop] at hpos
      have hid : q.driveId = 65 := by
        by_contra hid
        have hfs : s.disks q.driveId = none := by rw [hdisk, if_neg hid]
        cases (fopen_not_mounted hmode hrun hq.drive_range hfs).symm.trans hopen
      exact ⟨hid ▸ hq.drive, hq.short, Or.inl ⟨by omega, (parsePath_count hrun).1⟩⟩
    | none =>
      have hnil := hq.first.mp hfirst
      have hlen := congrArg List.length hnil
      rw [List.length_drop, List.length_nil] at hlen
      obtain ⟨hid, hbare⟩ := fopen_bare_room hdisk hmode hrun hq hfirst hopen
      obtain ⟨hneeds, hleft⟩ := parsePath_count_bare hrun hnil
      exact ⟨hid ▸ hq.drive, hq.short, Or.inr ⟨by omega, hbare.imp (fun h ↦ ⟨h, hneeds⟩)
        (And.imp_right hleft.mp)⟩⟩

theorem OpensSafely.fopenSafe (h : OpensSafely v filename mode s.drive.arena.freeCount)
    (hdisk : OnlyDiskA v s) (hlen : filename.length ≤ fsMaxPathLength)
    (hmode : mode ≠ modeInvalid) : FopenSafe filename mode s := by
  intro alien
  have hneeds : parseNeeds (pathUnits (filename.drop 3)).length ≤ s.drive.arena.freeCount := by
    rcases h.room with ⟨-, hroom⟩ | ⟨hthree, hroom⟩
    · exact hroom
    · have hnil : filename.drop 3 = [] := List.drop_eq_nil_of_le hthree.le
      rw [hnil, pathUnits, List.length_nil, parseNeeds]
      omega
  obtain ⟨q, a, hrun⟩ := (parsePath_room alien h.drive hlen hneeds).resolve_right
    (fun hp ↦ hp.2 (fun u hu ↦ Or.inl (h.short u hu)))
  obtain ⟨hnone, -⟩ | ⟨_, ⟨⟩, hq⟩ := parsePath_returns hrun
  · cases hnone
  have hid : q.driveId = 65 := Option.some.inj (hq.drive.symm.trans h.drive)
  have hfs : s.disks q.driveId = some (fat16 v) := by rw [hdisk, if_pos hid]
  cases hfirst : q.first with
  | some u => exact Or.inl ⟨q, a, _, u, hrun, hfs, hfirst⟩
  | none =>
    have hnil := hq.first.mp hfirst
    have hlen := congrArg List.length hnil
    rw [List.length_drop, List.length_nil] at hlen
    have hleft := (parsePath_count_bare hrun hnil).2
    have hempty : mode ≠ modeRead ∨ (v.pd.root.totalFiles = 0 ∧ 0 < a.freeCount) := by
      rcases h.room with ⟨hlong, -⟩ | ⟨-, hroom⟩
      · omega
      · exact hroom.imp And.left (And.imp_right hleft.mpr)
    obtain ⟨d, hopen⟩ := fat16Open_empty (q := q) (d := { s.drive with arena := a }) alien hempty
    exact Or.inr ⟨_, _, (fopen_mounted hmode hrun hq.drive_range hfs).2 d hopen, by decide, rfl⟩

/-- The open is safe exactly for a path on the disk `A` that the heap has the blocks to
parse, with a unit behind its drive or without an entry to look up. -/
theorem fopenSafe_iff (hdisk : OnlyDiskA v s) (hlen : filename.length ≤ fsMaxPathLength)
    (hmode : mode ≠ modeInvalid) :
    FopenSafe filename mode s ↔ OpensSafely v filename mode s.drive.arena.freeCount :=
  ⟨fun h ↦ h.opens hdisk hmode, fun h ↦ h.fopenSafe hdisk hlen hmode⟩

def oneFileVolume : Fat16Volume := ⟨oneFileDisk 1, oneFileData 1 kernelHeapBase⟩

def oneFileVfs (whole : Bool) : Vfs (KHeap whole) Fat16Files :=
  ⟨⟨freshArena whole, fun _ ↦ none⟩, fun _ ↦ none,
    fun drive ↦ if drive = 65 then some (fat16 oneFileVolume) else none⟩

theorem oneFileVfs_free (whole : Bool) : kheapEntryCount ≤ (oneFileVfs whole).drive.arena.freeCount :=
  (freshArena_room whole (Nat.le_refl _)).freeCount

theorem fopenSafe_iff_oneFile : FopenSafe [65, 58, 47, 70] modeRead (oneFileVfs false) := by
  refine (fopenSafe_iff (v := oneFileVolume) (fun _ ↦ rfl) (by decide) (by decide)).mpr
    ⟨rfl, by decide, Or.inl ⟨by decide, ?_⟩⟩
  exact Nat.le_trans (by decide) (oneFileVfs_free false)

/-- `sh` is not parsed, `B:/F` names a disk without a file system and `A:/` has no
unit: the open of each follows a null pointer. -/
theorem fopen_follows_null :
    vfsFopen (fun _ ↦ 0) [115, 104] modeRead (oneFileVfs false) = .error .nullDeref ∧
    vfsFopen (fun _ ↦ 0) [66, 58, 47, 70] modeRead (oneFileVfs false) = .error .nullDeref ∧
    vfsFopen (fun _ ↦ 0) [65, 58, 47] modeRead (oneFileVfs false) = .error .nullDeref ∧
    ∀ name ∈ [[115, 104], [66, 58, 47, 70], [65, 58, 47]],
      ¬ FopenSafe name modeRead (oneFileVfs false) := by
  have hroom : ∀ n ≤ kheapEntryCount, n ≤ (oneFileVfs false).drive.arena.freeCount :=
    fun n hn ↦ hn.trans (oneFileVfs_free false)
  refine ⟨fopen_no_drive (rfl : parseDrive [115, 104] = none) (by decide) (by decide), ?_, ?_, ?_⟩
  · obtain ⟨q, a, hrun, hq⟩ := parsePath_accepts (rfl : parseDrive [66, 58, 47, 70] = some 66)
      (by decide) (by decide) (hroom _ (by decide))
    have hid : q.driveId = 66 := (Option.some.inj hq.drive).symm
    exact fopen_not_mounted (by decide) hrun hq.drive_range (if_neg (by rw [hid]; decide))
  · obtain ⟨q, a, hrun, hq⟩ := parsePath_accepts (rfl : parseDrive [65, 58, 47] = some 65)
      (by decide) (by decide) (hroom _ (by decide))
    have hid : q.driveId = 65 := (Option.some.inj hq.drive).symm
    have hfs : (oneFileVfs false).disks q.driveId = some (fat16 oneFileVolume) := if_pos hid
    have hpos : 0 < a.freeCount := (parsePath_count_bare hrun rfl).2.mpr (hroom 6 (by decide))
    refine (fopen_mounted (by decide) hrun hq.drive_range hfs).1 _ ?_
    exact fat16Open_bare_entry (d := { (oneFileVfs false).drive with arena := a }) hpos
      (hq.first.mpr rfl) Nat.one_ne_zero
  · have hno : ∀ name, FopenSafe name modeRead (oneFileVfs false) →
        OpensSafely oneFileVolume name modeRead (oneFileVfs false).drive.arena.freeCount :=
      fun name h ↦ h.opens (fun _ ↦ rfl) (by decide)
    simp only [List.forall_mem_cons, List.not_mem_nil, false_implies, implies_true, and_true]
    refine ⟨fun h ↦ ?_, fun h ↦ ?_, fun h ↦ ?_⟩
    · exact absurd (hno _ h).drive (by decide)
    · exact absurd (hno _ h).drive (by decide)
    · obtain ⟨hlong, -⟩ | ⟨-, ⟨hmode, -⟩ | ⟨htotal, -⟩⟩ := (hno _ h).room
      · exact absurd hlong (by decide)
      · exact hmode rfl
      · exact Nat.one_ne_zero htotal

end GammaOS.Fs
