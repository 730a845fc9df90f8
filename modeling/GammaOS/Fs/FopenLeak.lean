import GammaOS.Fs.FopenSafety

namespace GammaOS.Fs

open Function Foundation Foundation.Program Memory

def VfsOp.UsesFile : VfsOp → Prop
  | fopen _ _ _ | fclose _ => False
  | fread _ _ _ _ | fseek _ _ _ | fstat _ => True

inductive FileUses {σ δ : Type} [Allocator σ] (s : Vfs σ δ) : Vfs σ δ → Prop
  | start : FileUses s s
  | step {t u : Vfs σ δ} {r : ℤ} (op : VfsOp) :
      FileUses s t → op.UsesFile → op.Valid → op.run t = .ok (r, u) → FileUses s u

def SameTable {δ : Type} (s t : Vfs (KHeap true) δ) : Prop :=
  ∀ i < kheapEntryCount, t.drive.arena.heap.heap.entryTable.entries i =
    s.drive.arena.heap.heap.entryTable.entries i

/-- What an open that returned `x` has allocated is given back: at once if it was
refused, and by the close of its descriptor otherwise. -/
structure HeapNeutral {δ : Type} (s t : Vfs (KHeap true) δ) (x : ℤ) : Prop where
  refused : x < 0 → SameTable s t
  closed : 0 ≤ x → ∀ u y w, FileUses t u → vfsFclose x u = .ok (y, w) → SameTable s w

section Close

variable {σ : Type} [Allocator σ] {v : Fat16Volume} {d : Drive σ Fat16Files} {h : ℕ}
  {f : Fat16FileDescriptor} {s t : Vfs σ Fat16Files} {x : ℤ} {alien : ByteMemory}
  {filename : List UInt8} {mode : UInt8}

theorem fat16DestroyUnit_total (unit : Fat16Unit) (a : Arena σ) :
    ∃ a', fat16DestroyUnit unit a = .ok ((), a') := by
  obtain ⟨addr, (_ | ⟨p, dir⟩) | file⟩ := unit
  · exact ⟨_, rfl⟩
  · have hdir : ∃ a₁, fat16DestroyDirectory (some (p, dir)) a = .ok ((), a₁) := by
      rw [fat16DestroyDirectory]
      split
      · exact ⟨_, rfl⟩
      · exact ⟨_, rfl⟩
    obtain ⟨a₁, h₁⟩ := hdir
    exact ⟨_, bind_run_ok h₁⟩
  · exact ⟨_, rfl⟩

theorem fat16Close_total (hf : d.files h = some f) :
    ∃ d', fat16Close h d = .ok ((success : ℤ), d') := by
  obtain ⟨a, ha⟩ := fat16DestroyUnit_total f.unit d.arena
  have hunit : onArena (fat16DestroyUnit f.unit) d = .ok ((), { d with arena := a }) :=
    onArena_eq_ok.mpr ⟨a, ha, rfl⟩
  rw [fat16Close, bind_run_ok (handleAt_eq_ok.mpr ⟨hf, rfl⟩), bind_run_ok hunit]
  exact ⟨_, rfl⟩

theorem fclose_opened (hm : Fat16Mounted s) (h : vfsFopen alien filename mode s = .ok (x, t))
    (hx : 0 ≤ x)
    (hint : IsInt32 x) : ∃ w, vfsFclose x t = .ok ((success : ℤ), w) := by
  obtain ⟨path, a, fs, handle, d, -, hfs, hopen, hne, hfd, hfiles⟩ := vfsFopen_opened h hx
  obtain ⟨v, rfl⟩ := hm _ _ hfs
  obtain ⟨h0, -⟩ | ⟨-, unit, b, -, -, hupd⟩ := fat16Open_cases hopen
  · exact absurd h0 hne
  have hfile : t.drive.files handle = some ⟨unit, 0⟩ := by rw [hfiles, hupd, update_self]
  obtain ⟨d', hclose⟩ := fat16Close_total (d := t.drive) hfile
  have hdrive : onDrive (fat16Close handle) (t.setFd x.toNat none) =
      .ok ((success : ℤ), { t.setFd x.toNat none with drive := d' }) :=
    onDrive_eq_ok.mpr ⟨d', hclose, rfl⟩
  refine ⟨{ t.setFd x.toNat none with drive := d' }, ?_⟩
  rw [vfsFclose, getFileDescriptor_bind hint, hfd]
  refine (bind_run_ok (modifyState_run _ _)).trans ?_
  exact bind_run_ok hdrive

end Close

variable {s t : Vfs (KHeap true) Fat16Files} {x : ℤ} {alien : ByteMemory} {filename : List UInt8}
  {mode : UInt8}

theorem fopen_keeps_path (hm : Fat16Mounted s) (h : vfsFopen alien filename mode s = .ok (x, t))
    (hmode : mode ≠ modeInvalid) :
    ¬ SameTable s t ∧ (0 ≤ x → ∀ y w, vfsFclose x t = .ok (y, w) → ¬ SameTable s w) := by
  obtain ⟨path, a, hp, hkeep⟩ := fopen_parsed hm h hmode
  obtain ⟨p, b, hz, hne, hk⟩ := parsePath_result hp
  have hp0 := hne nofun
  have hlive := (kzalloc_granted hz hp0).block.live
  obtain ⟨hkt, hoff⟩ := hkeep _ _ (hk _ _ (Kept.refl hlive))
  have hmarked : ∀ u : Vfs (KHeap true) Fat16Files, blockRun p 8 ∈ u.drive.arena.live →
    ¬ SameTable s u := by
    intro u hu hsame
    obtain ⟨i, hi, hfree, htaken⟩ := KHeap.kept_marked hz hp0 hu
    exact htaken ((hsame i hi).trans hfree)
  refine ⟨hmarked t hkt.live, fun hx y w hclose ↦ ?_⟩
  exact hmarked w (fclose_kept (hoff hx) (fopen_opened hm h hx).1 hclose hkt).live

/-- An open that returns, and the close of its descriptor, leave the heap as
it was exactly when the mode is `INVALID`: every other call parses its path. -/
theorem fopen_heapNeutral_iff (hm : Fat16Mounted s)
    (h : vfsFopen alien filename mode s = .ok (x, t)) : HeapNeutral s t x ↔ mode = modeInvalid := by
  constructor
  · intro hn
    by_contra hmode
    obtain ⟨hopen, hclose⟩ := fopen_keeps_path hm h hmode
    by_cases hx : x < 0
    · exact hopen (hn.refused hx)
    · have hx' := Int.not_lt.mp hx
      obtain ⟨w, hw⟩ := fclose_opened hm h hx' (fopen_opened hm h hx').1
      exact hclose hx' _ w hw (hn.closed hx' t _ w .start hw)
  · rintro rfl
    rw [vfsFopen, if_pos rfl] at h
    cases h
    exact ⟨fun _ _ _ ↦ rfl, fun hx ↦ absurd hx (by decide)⟩

theorem fopen_writing : ∃ x t,
    vfsFopen (fun _ ↦ 0) [65, 58, 47, 70] 119 (oneFileVfs true) = .ok (x, t) ∧ x < 0 := by
  obtain ⟨q, a, hrun, hq⟩ := parsePath_accepts (rfl : parseDrive [65, 58, 47, 70] = some 65)
    (by decide) (by decide) (Nat.le_trans (by decide) (oneFileVfs_free true))
  have hid : q.driveId = 65 := (Option.some.inj hq.drive).symm
  have hfs : (oneFileVfs true).disks q.driveId = some (fat16 oneFileVolume) := if_pos hid
  obtain ⟨d, hopen⟩ := fat16Open_empty (v := oneFileVolume) (q := q)
    (d := { (oneFileVfs true).drive with arena := a }) (fun _ ↦ 0)
    (Or.inl (by decide : (119 : UInt8) ≠ modeRead))
  exact ⟨_, _, (fopen_mounted (by decide) hrun (by rw [hid]; decide) hfs).2 d hopen, by decide⟩

theorem oneFileVfs_mounted (whole : Bool) : Fat16Mounted (oneFileVfs whole) := by
  intro drive fs h
  by_cases hd : drive = 65
  · exact ⟨oneFileVolume, (Option.some.inj ((if_pos hd).symm.trans h)).symm⟩
  · cases (if_neg hd).symm.trans h

theorem fopen_heapNeutral_iff_writing : ∃ x t,
    vfsFopen (fun _ ↦ 0) [65, 58, 47, 70] 119 (oneFileVfs true) = .ok (x, t) ∧
      (HeapNeutral (oneFileVfs true) t x ↔ (119 : UInt8) = modeInvalid) := by
  obtain ⟨x, t, h, -⟩ := fopen_writing
  exact ⟨x, t, h, fopen_heapNeutral_iff (oneFileVfs_mounted true) h⟩

theorem fopen_writing_leaks : ∃ x t,
    vfsFopen (fun _ ↦ 0) [65, 58, 47, 70] 119 (oneFileVfs true) = .ok (x, t) ∧ x < 0 ∧
      ¬ HeapNeutral (oneFileVfs true) t x := by
  obtain ⟨x, t, h, hx⟩ := fopen_writing
  refine ⟨x, t, h, hx, fun hn ↦ ?_⟩
  exact (fopen_keeps_path (oneFileVfs_mounted true) h (by decide)).1 (hn.refused hx)

end GammaOS.Fs
