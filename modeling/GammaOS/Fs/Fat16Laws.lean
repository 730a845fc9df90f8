import GammaOS.Fs.Fat16Handles
import GammaOS.Fs.Fat16ReadBack
import GammaOS.Memory.KernelHeap

namespace GammaOS.Fs

open Function Foundation Foundation.Program Memory

variable {σ : Type} [Allocator σ] {v : Fat16Volume} {s s' : Drive σ Fat16Files} {h : ℕ}

omit [Allocator σ] in
theorem handleAt_eq_ok {fd : Fat16FileDescriptor} :
    handleAt h s = .ok (fd, s') ↔ s.files h = some fd ∧ s = s' := by
  unfold handleAt
  cases hf : s.files h with
  | none => simp
  | some fd' => simp

omit [Allocator σ] in
theorem readMembers_heap {file : Fat16File} {size x : ℕ} :
    ∀ n offset out members (a a' : Arena σ),
      readMembers v file size n offset out members a = .ok (x, a') → a'.heap = a.heap := by
  intro n
  induction n with
  | zero =>
    intro offset out members a a' h
    cases h
    rfl
  | succ n ih =>
    intro offset out members a a' h
    obtain ⟨_, _, -, h⟩ := readMembers_succ h
    have hheap := ih _ _ _ _ _ h
    exact hheap

omit [Allocator σ] in
theorem fat16Read_files {size nmemb out : ℕ} {x : ℤ}
    (hr : fat16Read v h size nmemb out s = .ok (x, s')) :
    s'.files = s.files ∧ s'.arena.heap = s.arena.heap := by
  obtain ⟨fd, s₁, h₁, hr⟩ := bind_eq_ok.mp hr
  obtain ⟨-, rfl⟩ := handleAt_eq_ok.mp h₁
  obtain ⟨⟨addr, dir | file⟩, pos⟩ := fd
  · cases hr
    exact ⟨rfl, rfl⟩
  · rcases file with _ | ⟨p, file⟩
    · dsimp only at hr
      split at hr <;> cases hr
      exact ⟨rfl, rfl⟩
    · obtain ⟨_, s₂, h₂, hr⟩ := bind_eq_ok.mp hr
      obtain ⟨a, ha, rfl⟩ := onArena_eq_ok.mp h₂
      cases hr
      exact ⟨rfl, readMembers_heap _ _ _ _ _ _ ha⟩

omit [Allocator σ] in
theorem fat16Stat_state {x : ℤ × Option FileStat} (hr : fat16Stat h s = .ok (x, s')) : s' = s := by
  obtain ⟨fd, s₁, h₁, hr⟩ := bind_eq_ok.mp hr
  obtain ⟨-, rfl⟩ := handleAt_eq_ok.mp h₁
  obtain ⟨⟨addr, dir | file⟩, pos⟩ := fd
  · cases hr
    rfl
  · rcases file with _ | ⟨p, file⟩ <;> cases hr
    rfl

omit [Allocator σ] in
theorem fat16Seek_files {offset whence : ℕ} {x : ℤ}
    (hr : fat16Seek h offset whence s = .ok (x, s')) :
    s'.arena = s.arena ∧ ∃ fd pos, s.files h = some fd ∧
      s'.files = update s.files h (some { fd with filePosition := pos }) := by
  obtain ⟨fd, s₁, h₁, hr⟩ := bind_eq_ok.mp hr
  obtain ⟨hfd, rfl⟩ := handleAt_eq_ok.mp h₁
  have hsame : s.files = update s.files h (some { fd with filePosition := fd.filePosition }) := by
    rw [← hfd, update_eq_self]
  obtain ⟨⟨addr, dir | file⟩, pos⟩ := fd
  · cases hr
    exact ⟨rfl, _, pos, hfd, hsame⟩
  · rcases file with _ | ⟨p, file⟩
    · cases hr
    · dsimp only at hr
      split at hr
      · cases hr
        exact ⟨rfl, _, pos, hfd, hsame⟩
      split at hr
      · cases hr
        exact ⟨rfl, _, offset, hfd, rfl⟩
      split at hr
      · cases hr
        exact ⟨rfl, _, _, hfd, rfl⟩
      split at hr <;> cases hr <;> exact ⟨rfl, _, pos, hfd, hsame⟩

theorem fat16View_some {files : Fat16Files} {f : OpenFile Fat16Unit}
    (hf : fat16View files h = some f) :
    ∃ fd, files h = some fd ∧ f = ⟨fd.unit, fd.filePosition⟩ := by
  obtain ⟨fd, hfd, he⟩ := Option.map_eq_some_iff.mp hf
  exact ⟨fd, hfd, he.symm⟩

theorem fat16View_ne {files : Fat16Files} (hf : fat16View files h ≠ none) : files h ≠ none := by
  intro hc
  exact hf (by rw [fat16View, hc, Option.map_none])

theorem fat16View_update {files : Fat16Files} {k : ℕ} {fd : Option Fat16FileDescriptor}
    (hk : k ≠ h) : fat16View (update files h fd) k = fat16View files k := by
  rw [fat16View, fat16View, update_of_ne hk]

theorem fat16Read_touches (size nmemb out : ℕ) :
    Touches fat16View HandlesOwn h (fat16Read (σ := σ) v h size nmemb out) := by
  intro s x s' f hs hf hr
  obtain ⟨hfiles, hheap⟩ := fat16Read_files hr
  have hs' := handlesOwn_arenaStable s s'.arena hs (fun q hq ↦ by rwa [Arena.live, hheap])
  rw [← hfiles] at hs'
  exact ⟨hs', ⟨f, by rw [hfiles, hf], rfl⟩, fun k _ ↦ by rw [hfiles]⟩

theorem fat16Seek_touches (offset whence : ℕ) :
    Touches fat16View HandlesOwn h (fat16Seek (σ := σ) h offset whence) := by
  intro s x s' f hs hf hr
  obtain ⟨harena, fd, pos, hfd, hfiles⟩ := fat16Seek_files hr
  have hself : s'.files h = some { fd with filePosition := pos } := by rw [hfiles, update_self]
  have hopen : ∀ k, s'.files k ≠ none → s.files k ≠ none := by
    intro k hk
    by_cases hkh : k = h
    · rw [hkh, hfd]
      exact Option.some_ne_none fd
    · rwa [hfiles, update_of_ne hkh] at hk
  obtain ⟨own, ho⟩ := hs
  refine ⟨⟨own, fun k hk q hq ↦ ?_, fun k hk ↦ ho.handle k (hopen k hk), fun k fd' hk ↦ ?_,
    fun j k hj hk ↦ ho.apart j k (hopen j hj) (hopen k hk)⟩, ?_, fun k hk ↦ ?_⟩
  · rw [harena]
    exact ho.live k (hopen k hk) q hq
  · by_cases hkh : k = h
    · rw [hkh, hself] at hk
      cases hk
      rw [hkh]
      exact ho.unit h fd hfd
    · rw [hfiles, update_of_ne hkh] at hk
      exact ho.unit k fd' hk
  · obtain ⟨fd', hfd', rfl⟩ := fat16View_some hf
    cases hfd.symm.trans hfd'
    exact ⟨⟨fd.unit, pos⟩, by rw [fat16View, hself, Option.map_some], rfl⟩
  · rw [hfiles, fat16View_update hk]

theorem fat16Stat_touches : Touches fat16View HandlesOwn h (fat16Stat (σ := σ) h) := by
  intro s x s' f hs hf hr
  cases fat16Stat_state hr
  exact ⟨hs, ⟨f, hf, rfl⟩, fun _ _ ↦ rfl⟩

theorem fat16Close_files {x : ℤ} (hc : fat16Close h s = .ok (x, s')) :
    s'.files = update s.files h none := by
  obtain ⟨fd, s₁, h₁, hc⟩ := bind_eq_ok.mp hc
  obtain ⟨-, rfl⟩ := handleAt_eq_ok.mp h₁
  obtain ⟨_, s₂, h₂, hc⟩ := bind_eq_ok.mp hc
  obtain ⟨a, -, rfl⟩ := onArena_eq_ok.mp h₂
  obtain ⟨_, s₃, h₃, hc⟩ := bind_eq_ok.mp hc
  obtain ⟨b, -, rfl⟩ := onArena_eq_ok.mp h₃
  obtain ⟨_, s₄, h₄, hc⟩ := bind_eq_ok.mp hc
  cases h₄
  cases hc
  rfl

section Laws

variable [LawfulAllocator σ]

theorem fat16Close_owns {x : ℤ} (hs : HandlesOwn s) (hc : fat16Close h s = .ok (x, s')) :
    HandlesOwn s' := by
  obtain ⟨own, ho⟩ := hs
  have hf := fat16Close_files hc
  have hopen : ∀ k, s'.files k ≠ none → k ≠ h ∧ s.files k ≠ none := by
    intro k hk
    by_cases hkh : k = h
    · rw [hf, hkh, update_self] at hk
      exact absurd rfl hk
    · rw [hf, update_of_ne hkh] at hk
      exact ⟨hkh, hk⟩
  refine ⟨own, fun k hk q hq ↦ ?_, fun k hk ↦ ho.handle k (hopen k hk).2, fun k fd hk ↦ ?_,
    fun j k hj hk ↦ ho.apart j k (hopen j hj).2 (hopen k hk).2⟩
  · obtain ⟨hkh, hk⟩ := hopen k hk
    exact (fat16Close_kept s ⟨Kept.refl (ho.live k hk q hq), ho.handleOff hk hkh hq⟩ _ _ hc).live
  · have hkh := (hopen k (by simp [hk])).1
    rw [hf, update_of_ne hkh] at hk
    exact ho.unit k fd hk

theorem fat16_handleLaws (v : Fat16Volume) :
    HandleLaws fat16View (HandlesOwn (σ := σ)) (fat16 v) where
  open_inv _ _ _ _ _ _ hs ho := fat16Open_owns hs ho
  open_other alien path mode s h s' hs ho k hk := by
    have hk' := fat16View_ne hk
    rcases fat16Open_cases ho with ⟨h0, hf⟩ | ⟨-, unit, a, ha, -, hf⟩
    · refine ⟨?_, by rw [hf]⟩
      rintro rfl
      exact hk' (h0 ▸ hs.null)
    · have hne : k ≠ h := by
        rintro rfl
        exact hk' (hs.fresh (kzallocUnchecked_eq_ok.mp ha).1)
      exact ⟨hne, by rw [hf, fat16View_update hne]⟩
  open_fresh alien path mode s h s' hs ho hne := by
    rcases fat16Open_cases ho with ⟨h0, -⟩ | ⟨-, unit, a, -, -, hf⟩
    · exact absurd h0 hne
    · rw [fat16View, hf, update_self, Option.map_some]
      exact Option.some_ne_none _
  read _ _ _ _ := fat16Read_touches _ _ _
  seek _ _ _ := fat16Seek_touches _ _
  stat _ := fat16Stat_touches
  close_inv _ _ _ _ hs _ hc := fat16Close_owns hs hc
  close_other h s x s' _ _ hc k hk := by
    rw [fat16Close_files hc, fat16View_update hk]

end Laws

def mountedVfs (v : Fat16Volume) : Vfs (KHeap false) Fat16Files where
  drive := ⟨⟨KHeap.init (fun _ ↦ 0), fun _ ↦ 0⟩, fun _ ↦ none⟩
  fdList _ := none
  disks drive := if drive = 65 then some (fat16 v) else none

theorem mountedVfs_disks {v : Fat16Volume} {drive : UInt8} {fs : Filesystem (KHeap false) Fat16Files}
    (h : (mountedVfs v).disks drive = some fs) : fs = fat16 v := by
  change (if drive = 65 then some (fat16 v) else none) = some fs at h
  split at h <;> cases h
  rfl

theorem mountedVfs_runs (v : Fat16Volume) :
    VfsRuns fat16View HandlesOwn (mountedVfs v) (fun _ ↦ none) := by
  refine .start (fun _ ↦ rfl) handlesOwn_arenaStable ⟨fun _ _ ↦ False, ?_, ?_, ?_, ?_⟩ ?_
  · exact fun h hh ↦ absurd rfl hh
  · exact fun h hh ↦ absurd rfl hh
  · exact fun h fd hh ↦ by cases hh
  · exact fun h k hh ↦ absurd rfl hh
  · intro drive fs hfs
    rw [mountedVfs_disks hfs]
    exact fat16_handleLaws v

def fileVolume (content : List UInt8) : Fat16Volume where
  disk sector i :=
    if sector = 1 then (if i = 4 ∨ i = 5 then 0xFF else 0)
    else if sector = 3 then content.getD i 0 else 0
  pd := { smallVolume with root := { smallVolume.root with
    files := kernelHeapBase
    image := [70] ++ List.replicate 10 0x20 ++ List.replicate 15 0 ++ [2, 0] ++
      [UInt8.ofNat content.length, UInt8.ofNat (content.length / 256), 0, 0]
    totalFiles := 1 } }

def shortVolume : Fat16Volume := fileVolume [0, 1]

/-- In every run each descriptor sits at its index, the next operation, whichever
it is, does with the table what it is for, and one on a descriptor that is not
open returns an error. -/
theorem fdTable_correct {σ δ φ : Type} [Allocator σ] [LawfulAllocator σ]
    {view : δ → ℕ → Option (OpenFile φ)} {inv : Drive σ δ → Prop} {s : Vfs σ δ}
    {opened : ℕ → Option φ} (h : VfsRuns view inv s opened) :
    (∀ i d, s.fdList i = some d → d.index = i) ∧
      (∀ (op : VfsOp) (r : ℤ) (s' : Vfs σ δ), op.Valid → op.run s = .ok (r, s') →
        OpCorrect view opened s op r s') ∧
      ∀ (op : VfsOp) (fd : ℤ), op.Valid → op.fd = some fd → s.openAt fd = none →
        ∃ r < 0, op.run s = .ok (r, s) :=
  ⟨h.tableInv.index, fun _ _ _ hv hr ↦ (h.tableInv.step hv hr).2,
    fun _ _ hv hop hclosed ↦ VfsOp.refused hv hop hclosed⟩

theorem fdTable_correct_short : ∃ s₁ s₂ s₃ : Vfs (KHeap false) Fat16Files,
    (VfsOp.fopen (fun _ ↦ 0) [65, 58, 47, 70] modeRead).run (mountedVfs shortVolume) =
      .ok (0, s₁) ∧
    (VfsOp.fread 0x2000 1 1 0).run s₁ = .ok (0, s₂) ∧ (VfsOp.fclose 0).run s₂ = .ok (0, s₃) ∧
    OpCorrect fat16View (fun _ ↦ none) (mountedVfs shortVolume)
      (.fopen (fun _ ↦ 0) [65, 58, 47, 70] modeRead) 0 s₁ ∧
    (∃ d, s₁.openAt 0 = some d ∧ d.index = 0) ∧
    ∃ opened : ℕ → Option Fat16Unit, opened 0 ≠ none ∧
      OpCorrect fat16View opened s₁ (.fread 0x2000 1 1 0) 0 s₂ ∧
      OpCorrect fat16View opened s₂ (.fclose 0) 0 s₃ ∧
      ∃ r < 0, (VfsOp.fread 0x2000 1 1 0).run s₃ = .ok (r, s₃) := by
  obtain ⟨r₁, s₁, h₁, ht₁⟩ := of_passes (show passes
    ((VfsOp.fopen (fun _ ↦ 0) [65, 58, 47, 70] modeRead).run) (mountedVfs shortVolume)
    (fun r₁ s₁ ↦ decide (r₁ = 0) && (s₁.openAt 0).isSome && (s₁.table fat16View 0).isSome &&
      passes ((VfsOp.fread 0x2000 1 1 0).run) s₁ (fun r₂ s₂ ↦ decide (r₂ = 0) &&
        passes ((VfsOp.fclose 0).run) s₂ (fun r₃ s₃ ↦
          decide (r₃ = 0) && (s₃.openAt 0).isNone))) = true by decide +kernel)
  simp only [Bool.and_eq_true, decide_eq_true_eq] at ht₁
  obtain ⟨⟨⟨rfl, hopen⟩, htable⟩, ht₁⟩ := ht₁
  obtain ⟨r₂, s₂, h₂, ht₂⟩ := of_passes ht₁
  simp only [Bool.and_eq_true, decide_eq_true_eq] at ht₂
  obtain ⟨rfl, ht₂⟩ := ht₂
  obtain ⟨r₃, s₃, h₃, ht₃⟩ := of_passes ht₂
  simp only [Bool.and_eq_true, decide_eq_true_eq] at ht₃
  obtain ⟨rfl, hclosed⟩ := ht₃
  have hvalid : ∀ op : VfsOp, op = .fread 0x2000 1 1 0 ∨ op = .fclose 0 → op.Valid := by
    rintro _ (rfl | rfl) <;> exact ⟨by decide, by decide⟩
  have hrun₁ := (mountedVfs_runs shortVolume).step (.fopen _ _ _) trivial h₁
  have hrun₂ := hrun₁.step _ (hvalid _ (Or.inl rfl)) h₂
  have hrun₃ := hrun₂.step _ (hvalid _ (Or.inr rfl)) h₃
  obtain ⟨d, hd⟩ := Option.isSome_iff_exists.mp hopen
  obtain ⟨f, hf⟩ := Option.isSome_iff_exists.mp htable
  refine ⟨s₁, s₂, s₃, h₁, h₂, h₃, (fdTable_correct (mountedVfs_runs _)).2.1 _ _ _ trivial h₁,
    ⟨d, hd, (fdTable_correct hrun₁).1 _ _ (openAt_some hd).2.2⟩, _, ?_,
    (fdTable_correct hrun₁).2.1 _ _ _ (hvalid _ (Or.inl rfl)) h₂,
    (fdTable_correct hrun₂).2.1 _ _ _ (hvalid _ (Or.inr rfl)) h₃,
    (fdTable_correct hrun₃).2.2 _ 0 (hvalid _ (Or.inl rfl)) rfl (Option.isNone_iff_eq_none.mp hclosed)⟩
  show update (fun _ ↦ none) 0 ((s₁.table fat16View 0).map OpenFile.file) 0 ≠ none
  rw [update_self, hf]
  exact Option.some_ne_none _

end GammaOS.Fs
