import GammaOS.Fs.Vfs

namespace GammaOS.Fs

open Function Foundation Foundation.Program Memory

variable {σ δ φ α : Type}

structure OpenFile (φ : Type) where
  file : φ
  position : ℕ

/-- The program works on the handle `h` only, and leaves it on its file. -/
def Touches (view : δ → ℕ → Option (OpenFile φ)) (inv : Drive σ δ → Prop) (h : ℕ)
    (m : DriveM σ δ α) : Prop :=
  ∀ s x s' f, inv s → view s.files h = some f → m s = .ok (x, s') →
    inv s' ∧ (∃ f', view s'.files h = some f' ∧ f'.file = f.file) ∧
      ∀ k ≠ h, view s'.files k = view s.files k

/-- The property outlives calls of the heap that free nothing it may rely on. -/
def ArenaStable [Allocator σ] (inv : Drive σ δ → Prop) : Prop :=
  ∀ (s : Drive σ δ) (a : Arena σ), inv s → (∀ r ∈ s.arena.live, r ∈ a.live) →
    inv { s with arena := a }

/-- What the table needs of a driver: its open returns null or a fresh handle,
and its other operations touch the handle they are given. `inv` is what the
driver itself relies on. -/
structure HandleLaws (view : δ → ℕ → Option (OpenFile φ)) (inv : Drive σ δ → Prop)
    (fs : Filesystem σ δ) : Prop where
  open_inv : ∀ alien path mode s h s', inv s → fs.fsOpen alien path mode s = .ok (h, s') → inv s'
  open_other : ∀ alien path mode s h s', inv s → fs.fsOpen alien path mode s = .ok (h, s') →
    ∀ k, view s.files k ≠ none → k ≠ h ∧ view s'.files k = view s.files k
  open_fresh : ∀ alien path mode s h s', inv s → fs.fsOpen alien path mode s = .ok (h, s') →
    h ≠ 0 → view s'.files h ≠ none
  read : ∀ h size nmemb dest, Touches view inv h (fs.fsRead h size nmemb dest)
  seek : ∀ h offset whence, Touches view inv h (fs.fsSeek h offset whence)
  stat : ∀ h, Touches view inv h (fs.fsStat h)
  close_inv : ∀ h s x s', inv s → view s.files h ≠ none → fs.fsClose h s = .ok (x, s') → inv s'
  close_other : ∀ h s x s', inv s → view s.files h ≠ none → fs.fsClose h s = .ok (x, s') →
    ∀ k ≠ h, view s'.files k = view s.files k

inductive VfsOp
  | fopen (alien : ByteMemory) (filename : List UInt8) (mode : UInt8)
  | fread (dest size nmemb : ℕ) (fd : ℤ)
  | fseek (fd : ℤ) (offset whence : ℕ)
  | fclose (fd : ℤ)
  | fstat (fd : ℤ)

def IsInt32 (z : ℤ) : Prop := -2 ^ 31 ≤ z ∧ z < 2 ^ 31

def VfsOp.Valid : VfsOp → Prop
  | fopen _ _ _ => True
  | fread _ _ _ fd => IsInt32 fd
  | fseek fd _ _ => IsInt32 fd
  | fclose fd => IsInt32 fd
  | fstat fd => IsInt32 fd

def VfsOp.fd : VfsOp → Option ℤ
  | fopen _ _ _ => none
  | fread _ _ _ fd => some fd
  | fseek fd _ _ => some fd
  | fclose fd => some fd
  | fstat fd => some fd

def VfsOp.run [Allocator σ] : VfsOp → VfsM σ δ ℤ
  | fopen alien filename mode => vfsFopen alien filename mode
  | fread dest size nmemb fd => vfsFread dest size nmemb fd
  | fseek fd offset whence => vfsFseek fd offset whence
  | fclose fd => vfsFclose fd
  | fstat fd => Prod.fst <$> vfsFstat fd

def Vfs.table (view : δ → ℕ → Option (OpenFile φ)) (s : Vfs σ δ) (index : ℕ) :
    Option (OpenFile φ) :=
  (s.fdList index).bind (fun d ↦ view s.drive.files d.fsFileDescriptor)

/-- Notes the file of a descriptor that `vfs_fopen` has just returned. -/
def VfsOp.noteOpened (view : δ → ℕ → Option (OpenFile φ)) (op : VfsOp) (r : ℤ) (s' : Vfs σ δ)
    (opened : ℕ → Option φ) : ℕ → Option φ :=
  match op with
  | fopen _ _ _ => if 0 ≤ r then update opened r.toNat ((s'.table view r.toNat).map OpenFile.file)
      else opened
  | _ => opened

/-- The runs of the file system from an empty table. `opened` is, for each
descriptor, the file of the latest `vfs_fopen` that returned it. -/
inductive VfsRuns [Allocator σ] (view : δ → ℕ → Option (OpenFile φ)) (inv : Drive σ δ → Prop) :
    Vfs σ δ → (ℕ → Option φ) → Prop
  | start {s : Vfs σ δ} : (∀ i, s.fdList i = none) → ArenaStable inv → inv s.drive →
      (∀ disk fs, s.disks disk = some fs → HandleLaws view inv fs) →
      VfsRuns view inv s (fun _ ↦ none)
  | step {s s' : Vfs σ δ} {opened : ℕ → Option φ} {r : ℤ} (op : VfsOp) :
      VfsRuns view inv s opened → op.Valid → op.run s = .ok (r, s') →
      VfsRuns view inv s' (op.noteOpened view r s' opened)

def Vfs.openAt (s : Vfs σ δ) (fd : ℤ) : Option (FileDescriptor σ δ) :=
  if 0 ≤ fd ∧ fd < fsTotalFileDescriptors then s.fdList fd.toNat else none

/-- An operation of the driver on the descriptor `fd`: refused when it is not
open, and otherwise done on the file of the latest `vfs_fopen` that returned it,
with every other open file left as it is. -/
def ActsOn (view : δ → ℕ → Option (OpenFile φ)) (opened : ℕ → Option φ) (s : Vfs σ δ) (fd r : ℤ)
    (s' : Vfs σ δ) (call : FileDescriptor σ δ → DriveM σ δ α) : Prop :=
  match s.openAt fd with
  | none => r < 0 ∧ s' = s
  | some d => ∃ f x, s.table view fd.toNat = some f ∧ opened fd.toNat = some f.file ∧
      call d s.drive = .ok (x, s'.drive) ∧ s'.fdList = s.fdList ∧
      ∀ i, i ≠ fd.toNat → s'.table view i = s.table view i

/-- A close of the descriptor `fd`: refused when it is not open, and otherwise
it frees that slot only, and leaves every other open file as it is. -/
def Closes (view : δ → ℕ → Option (OpenFile φ)) (s : Vfs σ δ) (fd r : ℤ) (s' : Vfs σ δ) : Prop :=
  match s.openAt fd with
  | none => r < 0 ∧ s' = s
  | some d => s'.fdList = update s.fdList fd.toNat none ∧
      (∃ x, d.fs.fsClose d.fsFileDescriptor s.drive = .ok (x, s'.drive)) ∧
      ∀ i, i ≠ fd.toNat → s'.table view i = s.table view i

/-- An open: refused with the table as it was, or with the least free slot
taken and no other changed. The files that are open stay as they are. -/
def Opens (view : δ → ℕ → Option (OpenFile φ)) (s : Vfs σ δ) (r : ℤ) (s' : Vfs σ δ) : Prop :=
  (r < 0 ∧ s'.fdList = s.fdList ∨
    ∃ index < fsTotalFileDescriptors, r = index ∧ s.fdList index = none ∧
      (∀ j < index, s.fdList j ≠ none) ∧ s'.fdList index ≠ none ∧
      ∀ j, j ≠ index → s'.fdList j = s.fdList j) ∧
  ∀ i, s.fdList i ≠ none → s'.table view i = s.table view i

def OpCorrect (view : δ → ℕ → Option (OpenFile φ)) (opened : ℕ → Option φ) (s : Vfs σ δ)
    (op : VfsOp) (r : ℤ) (s' : Vfs σ δ) : Prop :=
  match op with
  | .fopen _ _ _ => Opens view s r s'
  | .fread dest size nmemb fd =>
    ActsOn view opened s fd r s' (fun d ↦ d.fs.fsRead d.fsFileDescriptor size nmemb dest)
  | .fseek fd offset whence =>
    ActsOn view opened s fd r s' (fun d ↦ d.fs.fsSeek d.fsFileDescriptor offset whence)
  | .fclose fd => Closes view s fd r s'
  | .fstat fd => ActsOn view opened s fd r s' (fun d ↦ d.fs.fsStat d.fsFileDescriptor)

section Calls

variable {s s' : Vfs σ δ} {fd r : ℤ}

theorem onDrive_eq_ok {m : DriveM σ δ α} {x : α} :
    onDrive m s = .ok (x, s') ↔ ∃ d, m s.drive = .ok (x, d) ∧ s' = { s with drive := d } :=
  onPart_eq_ok

theorem onArena_eq_ok {m : ArenaM σ α} {x : α} {s s' : Drive σ δ} :
    onArena m s = .ok (x, s') ↔ ∃ a, m s.arena = .ok (x, a) ∧ s' = { s with arena := a } :=
  onPart_eq_ok

theorem fileDescriptor_ofInt32 (h : IsInt32 fd) : s.fileDescriptor (ofInt32 fd) = s.openAt fd := by
  obtain ⟨h₁, h₂⟩ := h
  unfold Vfs.fileDescriptor Vfs.openAt ofInt32 fsTotalFileDescriptors
  by_cases h₀ : 0 ≤ fd
  · rw [Int.emod_eq_of_lt h₀ (by omega)]
    by_cases h₃ : fd < 1024
    · rw [if_pos (by omega), if_pos (by omega)]
    · rw [if_neg (by omega), if_neg (by omega)]
  · rw [if_neg (by omega), if_neg (by omega)]

theorem getFileDescriptor_bind (h : IsInt32 fd)
    {k : Option (FileDescriptor σ δ) → VfsM σ δ α} :
    (vfsGetFileDescriptor (ofInt32 fd) >>= k) s = k (s.openAt fd) s := by
  rw [← fileDescriptor_ofInt32 h]
  rfl

theorem VfsOp.refused [Allocator σ] {op : VfsOp} (hv : op.Valid) (hop : op.fd = some fd)
    (hclosed : s.openAt fd = none) : ∃ r < 0, op.run s = .ok (r, s) := by
  cases op with
  | fopen alien filename mode => cases hop
  | fread dest size nmemb fd =>
    cases hop
    rw [VfsOp.run, vfsFread]
    by_cases hc : fd < 0 ∨ fd ≥ fsTotalFileDescriptors
    · exact ⟨-errInvarg, by decide, by rw [if_pos hc]; rfl⟩
    · refine ⟨-errFdNotFound, by decide, ?_⟩
      rw [if_neg hc, getFileDescriptor_bind hv, hclosed]
      rfl
  | fseek fd offset whence =>
    cases hop
    refine ⟨-errFdNotFound, by decide, ?_⟩
    rw [VfsOp.run, vfsFseek, getFileDescriptor_bind hv, hclosed]
    rfl
  | fclose fd =>
    cases hop
    refine ⟨-errFdNotFound, by decide, ?_⟩
    rw [VfsOp.run, vfsFclose, getFileDescriptor_bind hv, hclosed]
    rfl
  | fstat fd =>
    cases hop
    refine ⟨-errFdNotFound, by decide, ?_⟩
    have hstat : vfsFstat fd s = .ok ((-errFdNotFound, none), s) := by
      rw [vfsFstat, getFileDescriptor_bind hv, hclosed]
      rfl
    exact bind_run_ok hstat

/-- The call is refused when the descriptor is not open, and is the driver's otherwise. -/
def Delegates (s : Vfs σ δ) (fd r : ℤ) (s' : Vfs σ δ) (call : FileDescriptor σ δ → DriveM σ δ α) :
    Prop :=
  match s.openAt fd with
  | none => r < 0 ∧ s' = s
  | some d => ∃ x t, call d s.drive = .ok (x, t) ∧ r = success ∧ s' = { s with drive := t }

/-- What the calls share after their own checks: they find the descriptor and
answer with what its driver did. -/
theorem delegates_of_bind {β : Type} {call : FileDescriptor σ δ → DriveM σ δ α} {refused y : β}
    {answer : α → β} (status : β → ℤ) (hneg : status refused < 0)
    (hok : ∀ x, status (answer x) = success) (hfd : IsInt32 fd)
    (h : (vfsGetFileDescriptor (ofInt32 fd) >>= fun
      | none => pure refused
      | some d => onDrive (call d) >>= fun x ↦ pure (answer x)) s = .ok (y, s')) :
    Delegates s fd (status y) s' call := by
  unfold Delegates
  rw [getFileDescriptor_bind hfd] at h
  cases hd : s.openAt fd with
  | none =>
    rw [hd] at h
    cases h
    exact ⟨hneg, rfl⟩
  | some d =>
    rw [hd] at h
    obtain ⟨x, u, h₁, h₂⟩ := bind_eq_ok.mp h
    obtain ⟨t, ht, rfl⟩ := onDrive_eq_ok.mp h₁
    cases h₂
    exact ⟨x, t, ht, hok x, rfl⟩

theorem vfsFread_delegates {dest size nmemb : ℕ} (hfd : IsInt32 fd)
    (h : vfsFread dest size nmemb fd s = .ok (r, s')) :
    Delegates s fd r s' (fun d ↦ d.fs.fsRead d.fsFileDescriptor size nmemb dest) := by
  unfold vfsFread at h
  by_cases hc : fd < 0 ∨ fd ≥ fsTotalFileDescriptors
  · rw [if_pos hc] at h
    cases h
    have hno : s.openAt fd = none := if_neg (by omega)
    unfold Delegates
    rw [hno]
    exact ⟨by decide, rfl⟩
  · rw [if_neg hc] at h
    exact delegates_of_bind id (by decide) (fun _ ↦ rfl) hfd h

theorem vfsFseek_delegates {offset whence : ℕ} (hfd : IsInt32 fd)
    (h : vfsFseek fd offset whence s = .ok (r, s')) :
    Delegates s fd r s' (fun d ↦ d.fs.fsSeek d.fsFileDescriptor offset whence) :=
  delegates_of_bind id (by decide) (fun _ ↦ rfl) hfd h

theorem vfsFstat_delegates {st : Option FileStat} (hfd : IsInt32 fd)
    (h : vfsFstat fd s = .ok ((r, st), s')) :
    Delegates s fd r s' (fun d ↦ d.fs.fsStat d.fsFileDescriptor) :=
  delegates_of_bind Prod.fst (by decide) (fun _ ↦ rfl) hfd h

theorem vfsFclose_cases (hfd : IsInt32 fd) (h : vfsFclose fd s = .ok (r, s')) :
    match s.openAt fd with
    | none => r < 0 ∧ s' = s
    | some d => ∃ x t, d.fs.fsClose d.fsFileDescriptor s.drive = .ok (x, t) ∧
        s' = { s.setFd d.index none with drive := t } := by
  rw [vfsFclose, getFileDescriptor_bind hfd] at h
  cases hd : s.openAt fd with
  | none =>
    rw [hd] at h
    cases h
    exact ⟨by decide, rfl⟩
  | some d =>
    rw [hd] at h
    obtain ⟨_, u, h₀, h⟩ := bind_eq_ok.mp h
    cases h₀
    obtain ⟨x, u, h₁, h₂⟩ := bind_eq_ok.mp h
    obtain ⟨t, ht, rfl⟩ := onDrive_eq_ok.mp h₁
    cases h₂
    exact ⟨x, t, ht, rfl⟩

theorem freeIndexLoop_some {fdList : ℕ → Option (FileDescriptor σ δ)} :
    ∀ n k {index : ℕ}, freeIndexLoop fdList n k = some index →
      k ≤ index ∧ index < k + n ∧ fdList index = none ∧
        ∀ j, k ≤ j → j < index → fdList j ≠ none := by
  intro n
  induction n with
  | zero => intro k index h; cases h
  | succ n ih =>
    intro k index h
    rw [freeIndexLoop] at h
    by_cases hk : (fdList k).isNone
    · rw [if_pos hk] at h
      cases h
      exact ⟨Nat.le_refl _, by omega, Option.isNone_iff_eq_none.mp hk, fun j _ _ ↦ by omega⟩
    · rw [if_neg hk] at h
      obtain ⟨h₁, h₂, h₃, h₄⟩ := ih (k + 1) h
      refine ⟨by omega, by omega, h₃, fun j hj hlt ↦ ?_⟩
      rcases Nat.eq_or_lt_of_le hj with rfl | hj
      · exact fun hn ↦ hk (Option.isNone_iff_eq_none.mpr hn)
      · exact h₄ j hj hlt

theorem freeIndex_some {index : ℕ} (h : s.freeIndex = some index) :
    index < fsTotalFileDescriptors ∧ s.fdList index = none ∧ ∀ j < index, s.fdList j ≠ none := by
  obtain ⟨-, h₁, h₂, h₃⟩ := freeIndexLoop_some _ _ h
  exact ⟨by omega, h₂, fun j hj ↦ h₃ j (Nat.zero_le j) hj⟩

theorem freeIndexLoop_of_free {fdList : ℕ → Option (FileDescriptor σ δ)} {i : ℕ}
    (hi : fdList i = none) : ∀ n k, k ≤ i → i < k + n →
      ∃ index ≤ i, freeIndexLoop fdList n k = some index := by
  intro n
  induction n with
  | zero => exact fun k _ _ ↦ by omega
  | succ n ih =>
    intro k hk hlt
    rw [freeIndexLoop]
    by_cases hfree : (fdList k).isNone
    · exact ⟨k, hk, if_pos hfree⟩
    · have hne : k ≠ i := fun he ↦ hfree (he ▸ Option.isNone_iff_eq_none.mpr hi)
      obtain ⟨index, hle, hind⟩ := ih (k + 1) (by omega) (by omega)
      exact ⟨index, hle, (if_neg hfree).trans hind⟩

theorem freeIndex_of_free {i : ℕ} (hi : s.fdList i = none) (hlt : i < fsTotalFileDescriptors) :
    ∃ index ≤ i, s.freeIndex = some index :=
  freeIndexLoop_of_free hi _ _ (Nat.zero_le i) (by omega)

variable [Allocator σ] {alien : ByteMemory} {filename : List UInt8} {mode : UInt8}

/-- The ways `vfs_fopen` returns: before the driver is asked, with no handle
from the driver or no free index for it, or with a new descriptor. -/
inductive FopenResult (alien : ByteMemory) (filename : List UInt8) (mode : UInt8) (s : Vfs σ δ) :
    ℤ → Vfs σ δ → Prop
  | badMode {r : ℤ} : mode = modeInvalid → r < 0 → FopenResult alien filename mode s r s
  | badDrive {r : ℤ} {path : Path} {a : Arena σ} :
      parsePath alien filename s.drive.arena = .ok (some path, a) → r < 0 →
      FopenResult alien filename mode s r { s with drive := { s.drive with arena := a } }
  | refused {r : ℤ} {path : Path} {a : Arena σ} {fs : Filesystem σ δ} {h : ℕ} {t : Drive σ δ} :
      parsePath alien filename s.drive.arena = .ok (some path, a) →
      s.disks path.driveId = some fs →
      fs.fsOpen alien path mode { s.drive with arena := a } = .ok (h, t) →
      h = 0 ∨ s.freeIndex = none → r < 0 →
      FopenResult alien filename mode s r { s with drive := t }
  | opened {path : Path} {a b : Arena σ} {fs : Filesystem σ δ} {h p index : ℕ} {t : Drive σ δ} :
      parsePath alien filename s.drive.arena = .ok (some path, a) →
      s.disks path.driveId = some fs →
      fs.fsOpen alien path mode { s.drive with arena := a } = .ok (h, t) →
      h ≠ 0 → s.freeIndex = some index → kzallocUnchecked 16 t.arena = .ok (p, b) →
      FopenResult alien filename mode s index
        { s.setFd index (some ⟨index, fs, h⟩) with drive := { t with arena := b } }

theorem vfsFopen_result (h : vfsFopen alien filename mode s = .ok (r, s')) :
    FopenResult alien filename mode s r s' := by
  unfold vfsFopen at h
  by_cases hm : mode = modeInvalid
  · rw [if_pos hm] at h
    cases h
    exact .badMode hm (by decide)
  rw [if_neg hm] at h
  obtain ⟨path, s₁, h₁, h⟩ := bind_eq_ok.mp h
  obtain ⟨d, hd, rfl⟩ := onDrive_eq_ok.mp h₁
  obtain ⟨a, ha, rfl⟩ := onArena_eq_ok.mp hd
  cases path with
  | none => cases h
  | some path =>
    by_cases hdrive : path.driveId < 65 ∨ path.driveId > 90
    · simp only [if_pos hdrive] at h
      cases h
      exact .badDrive ha (by decide)
    · simp only [if_neg hdrive] at h
      rw [bind_run_ok (gets_run _ _)] at h
      cases hfs : s.disks path.driveId with
      | none =>
        simp only [hfs] at h
        cases h
      | some fs =>
        simp only [hfs] at h
        obtain ⟨file, s₂, h₂, h⟩ := bind_eq_ok.mp h
        obtain ⟨t, ht, rfl⟩ := onDrive_eq_ok.mp h₂
        by_cases h0 : file = 0
        · rw [if_pos h0] at h
          cases h
          exact .refused ha hfs ht (Or.inl h0) (by decide)
        · rw [if_neg h0] at h
          obtain ⟨index, s₃, h₃, h⟩ := bind_eq_ok.mp h
          rw [vfsNewFileDescriptor, bind_run_ok (gets_run _ _)] at h₃
          rw [show Vfs.freeIndex { s with drive := t } = s.freeIndex from rfl] at h₃
          cases hi : s.freeIndex with
          | none =>
            simp only [hi] at h₃
            cases h₃
            cases h
            exact .refused ha hfs ht (Or.inr hi) (by decide)
          | some i =>
            simp only [hi] at h₃
            obtain ⟨p, s₄, h₄, h₃⟩ := bind_eq_ok.mp h₃
            obtain ⟨d', hd', rfl⟩ := onDrive_eq_ok.mp h₄
            obtain ⟨b, hb, rfl⟩ := onArena_eq_ok.mp hd'
            cases h₃
            cases h
            exact .opened ha hfs ht h0 hi hb

theorem vfsFopen_opened (h : vfsFopen alien filename mode s = .ok (r, s')) (hr : 0 ≤ r) :
    ∃ path a fs handle t, parsePath alien filename s.drive.arena = .ok (some path, a) ∧
      s.disks path.driveId = some fs ∧
      fs.fsOpen alien path mode { s.drive with arena := a } = .ok (handle, t) ∧ handle ≠ 0 ∧
      s'.openAt r = some ⟨r.toNat, fs, handle⟩ ∧ s'.drive.files = t.files := by
  cases vfsFopen_result h with
  | badMode _ hneg => omega
  | badDrive _ hneg => omega
  | refused _ _ _ _ hneg => omega
  | @opened path a b fs handle p index t hpath hfs ho hne hi hp =>
    have hlt := (freeIndex_some hi).1
    refine ⟨path, a, fs, handle, t, hpath, hfs, ho, hne, ?_, rfl⟩
    rw [Int.toNat_natCast, Vfs.openAt, if_pos ⟨hr, by omega⟩, Int.toNat_natCast]
    exact update_self index _ s.fdList

end Calls

end GammaOS.Fs
