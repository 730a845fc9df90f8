import GammaOS.Fs.FdTable

namespace GammaOS.Fs

open Function Foundation Foundation.Program Memory

variable {σ δ φ α : Type} {view : δ → ℕ → Option (OpenFile φ)} {inv : Drive σ δ → Prop}
  {s s' : Vfs σ δ} {opened : ℕ → Option φ} {fd r : ℤ}

/-- Each descriptor sits at its index, holds a handle of its own that its
lawful driver has open, and stands for the file it was opened on. -/
structure TableInv [Allocator σ] (view : δ → ℕ → Option (OpenFile φ)) (inv : Drive σ δ → Prop)
    (s : Vfs σ δ) (opened : ℕ → Option φ) : Prop where
  stable : ArenaStable inv
  drive : inv s.drive
  disks : ∀ disk fs, s.disks disk = some fs → HandleLaws view inv fs
  index : ∀ i d, s.fdList i = some d → d.index = i
  lawful : ∀ i d, s.fdList i = some d → HandleLaws view inv d.fs
  held : ∀ i d, s.fdList i = some d →
    ∃ f, view s.drive.files d.fsFileDescriptor = some f ∧ opened i = some f.file
  distinct : ∀ i j d e, s.fdList i = some d → s.fdList j = some e →
    d.fsFileDescriptor = e.fsFileDescriptor → i = j

theorem openAt_some {d : FileDescriptor σ δ} (h : s.openAt fd = some d) :
    0 ≤ fd ∧ fd < fsTotalFileDescriptors ∧ s.fdList fd.toNat = some d := by
  unfold Vfs.openAt at h
  split at h
  · exact ⟨‹0 ≤ fd ∧ _›.1, ‹0 ≤ fd ∧ _›.2, h⟩
  · cases h

theorem table_of_some {i : ℕ} {d : FileDescriptor σ δ} (h : s.fdList i = some d) :
    s.table view i = view s.drive.files d.fsFileDescriptor := by
  rw [Vfs.table, h, Option.bind_some]

theorem table_congr {i : ℕ} (hl : s'.fdList i = s.fdList i)
    (hv : ∀ d, s.fdList i = some d →
      view s'.drive.files d.fsFileDescriptor = view s.drive.files d.fsFileDescriptor) :
    s'.table view i = s.table view i := by
  unfold Vfs.table
  rw [hl]
  cases hd : s.fdList i with
  | none => rfl
  | some d => exact hv d hd

variable [Allocator σ]

theorem TableInv.delegates {call : FileDescriptor σ δ → DriveM σ δ α}
    (h : TableInv view inv s opened) (hd : Delegates s fd r s' call)
    (ht : ∀ d, HandleLaws view inv d.fs → Touches view inv d.fsFileDescriptor (call d)) :
    TableInv view inv s' opened ∧ ActsOn view opened s fd r s' call := by
  unfold Delegates at hd
  unfold ActsOn
  cases ho : s.openAt fd with
  | none =>
    rw [ho] at hd
    obtain ⟨hr, rfl⟩ := hd
    exact ⟨h, hr, rfl⟩
  | some d =>
    rw [ho] at hd
    obtain ⟨x, t, hx, -, rfl⟩ := hd
    obtain ⟨-, -, hfd⟩ := openAt_some ho
    obtain ⟨f, hf, hof⟩ := h.held _ d hfd
    obtain ⟨hi, ⟨f', hf', hfile⟩, hother⟩ := ht d (h.lawful _ d hfd) _ _ _ f h.drive hf hx
    refine ⟨⟨h.stable, hi, h.disks, h.index, h.lawful, fun i e he ↦ ?_, h.distinct⟩, f, x,
      (table_of_some hfd).trans hf, hof, hx, rfl, fun i hi ↦ table_congr rfl (fun e he ↦ ?_)⟩
    · by_cases hie : e.fsFileDescriptor = d.fsFileDescriptor
      · have := h.distinct _ _ e d he hfd hie
        subst this
        exact ⟨f', by rw [hie, hf'], by rw [hof, hfile]⟩
      · obtain ⟨g, hg, hog⟩ := h.held i e he
        exact ⟨g, (hother _ hie).trans hg, hog⟩
    · exact hother _ (fun hie ↦ hi (h.distinct _ _ e d he hfd hie))

theorem TableInv.fclose (h : TableInv view inv s opened) (hfd : IsInt32 fd)
    (hr : vfsFclose fd s = .ok (r, s')) :
    TableInv view inv s' opened ∧ Closes view s fd r s' := by
  have hc := vfsFclose_cases hfd hr
  unfold Closes
  cases ho : s.openAt fd with
  | none =>
    rw [ho] at hc
    obtain ⟨hneg, rfl⟩ := hc
    exact ⟨h, hneg, rfl⟩
  | some d =>
    rw [ho] at hc
    obtain ⟨x, t, hx, rfl⟩ := hc
    obtain ⟨-, -, hd⟩ := openAt_some ho
    obtain ⟨f, hf, -⟩ := h.held _ d hd
    have hne : view s.drive.files d.fsFileDescriptor ≠ none := by simp [hf]
    have hind := h.index _ d hd
    have hother := (h.lawful _ d hd).close_other _ _ _ _ h.drive hne hx
    have hsub : ∀ i e, (update s.fdList d.index none) i = some e →
        i ≠ fd.toNat ∧ s.fdList i = some e := by
      intro i e he
      by_cases hi : i = d.index
      · rw [hi, update_self] at he
        cases he
      · rw [update_of_ne hi] at he
        exact ⟨hind ▸ hi, he⟩
    have hne' : ∀ i e, i ≠ fd.toNat → s.fdList i = some e →
        e.fsFileDescriptor ≠ d.fsFileDescriptor :=
      fun i e hi he hie ↦ hi (h.distinct _ _ e d he hd hie)
    refine ⟨⟨h.stable, (h.lawful _ d hd).close_inv _ _ _ _ h.drive hne hx, h.disks,
      fun i e he ↦ h.index i e (hsub i e he).2, fun i e he ↦ h.lawful i e (hsub i e he).2,
      fun i e he ↦ ?_, fun i j e e' he he' ↦ h.distinct i j e e' (hsub i e he).2 (hsub j e' he').2⟩,
      ?_, ⟨x, hx⟩, fun i hi ↦ table_congr ?_ (fun e he ↦ hother _ (hne' i e hi he))⟩
    · obtain ⟨hi, he⟩ := hsub i e he
      obtain ⟨g, hg, hog⟩ := h.held i e he
      exact ⟨g, (hother _ (hne' i e hi he)).trans hg, hog⟩
    · rw [← hind]
      rfl
    · exact update_of_ne (by rwa [hind]) _ _

section Open

variable {alien : ByteMemory} {filename : List UInt8} {mode : UInt8}

theorem TableInv.withDrive (h : TableInv view inv s opened) {t : Drive σ δ} (hi : inv t)
    (hv : ∀ k, view s.drive.files k ≠ none → view t.files k = view s.drive.files k) :
    TableInv view inv { s with drive := t } opened ∧
      ∀ i, s.fdList i ≠ none → Vfs.table view { s with drive := t } i = s.table view i := by
  have hkeep : ∀ i d, s.fdList i = some d →
      view t.files d.fsFileDescriptor = view s.drive.files d.fsFileDescriptor := by
    intro i d hd
    obtain ⟨f, hf, -⟩ := h.held i d hd
    exact hv _ (by simp [hf])
  refine ⟨⟨h.stable, hi, h.disks, h.index, h.lawful, fun i d hd ↦ ?_, h.distinct⟩,
    fun i _ ↦ table_congr rfl (fun d hd ↦ hkeep i d hd)⟩
  obtain ⟨f, hf, ho⟩ := h.held i d hd
  exact ⟨f, (hkeep i d hd).trans hf, ho⟩

theorem TableInv.setFd (h : TableInv view inv s opened) {index file : ℕ} {fs : Filesystem σ δ}
    (hfs : HandleLaws view inv fs) (hi : s.fdList index = none) {f : OpenFile φ}
    (hf : view s.drive.files file = some f)
    (hnew : ∀ i d, s.fdList i = some d → d.fsFileDescriptor ≠ file) :
    TableInv view inv (s.setFd index (some ⟨index, fs, file⟩))
      (update opened index (some f.file)) := by
  have hcase : ∀ i d, (s.setFd index (some ⟨index, fs, file⟩)).fdList i = some d →
      (i = index ∧ d = ⟨index, fs, file⟩) ∨ (i ≠ index ∧ s.fdList i = some d) := by
    intro i d hd
    change update s.fdList index _ i = _ at hd
    by_cases hii : i = index
    · rw [hii, update_self] at hd
      cases hd
      exact Or.inl ⟨hii, rfl⟩
    · rw [update_of_ne hii] at hd
      exact Or.inr ⟨hii, hd⟩
  refine ⟨h.stable, h.drive, h.disks, fun i d hd ↦ ?_, fun i d hd ↦ ?_, fun i d hd ↦ ?_,
    fun i j d e hd he hde ↦ ?_⟩
  · rcases hcase i d hd with ⟨rfl, rfl⟩ | ⟨-, hd⟩
    · rfl
    · exact h.index i d hd
  · rcases hcase i d hd with ⟨rfl, rfl⟩ | ⟨-, hd⟩
    · exact hfs
    · exact h.lawful i d hd
  · rcases hcase i d hd with ⟨rfl, rfl⟩ | ⟨hne, hd⟩
    · exact ⟨f, hf, update_self _ _ _⟩
    · obtain ⟨g, hg, hog⟩ := h.held i d hd
      exact ⟨g, hg, (update_of_ne hne _ _).trans hog⟩
  · rcases hcase i d hd with ⟨hii, hdd⟩ | ⟨-, hd'⟩
    · rcases hcase j e he with ⟨hjj, -⟩ | ⟨-, he'⟩
      · exact hii.trans hjj.symm
      · exact absurd (by rw [← hde, hdd]) (hnew j e he')
    · rcases hcase j e he with ⟨-, hee⟩ | ⟨-, he'⟩
      · exact absurd (by rw [hde, hee]) (hnew i d hd')
      · exact h.distinct i j d e hd' he' hde

variable [LawfulAllocator σ]

theorem parsePath_live {path : Option Path} {a a' : Arena σ}
    (h : parsePath alien filename a = .ok (path, a')) : ∀ q ∈ a.live, q ∈ a'.live :=
  fun _ hq ↦ (parsePath_kept _ (Kept.refl hq) _ _ h).live

theorem kzallocUnchecked_live {n p : ℕ} {a a' : Arena σ}
    (h : kzallocUnchecked n a = .ok (p, a')) : ∀ q ∈ a.live, q ∈ a'.live :=
  fun _ hq ↦ (kzallocUnchecked_kept _ _ (Kept.refl hq) _ _ h).1.live

theorem TableInv.fopen (h : TableInv view inv s opened)
    (hr : FopenResult alien filename mode s r s') :
    TableInv view inv s' ((VfsOp.fopen alien filename mode).noteOpened view r s' opened) ∧
      Opens view s r s' := by
  have hnote : r < 0 → (VfsOp.fopen alien filename mode).noteOpened view r s' opened = opened :=
    fun hneg ↦ if_neg (by omega)
  cases hr with
  | badMode hm hneg =>
    rw [hnote hneg]
    exact ⟨h, Or.inl ⟨hneg, rfl⟩, fun _ _ ↦ rfl⟩
  | badDrive hp hneg =>
    rw [hnote hneg]
    obtain ⟨hinv, ht⟩ := h.withDrive (h.stable _ _ h.drive (parsePath_live hp)) (fun _ _ ↦ rfl)
    exact ⟨hinv, Or.inl ⟨hneg, rfl⟩, ht⟩
  | refused hp hfs ho _ hneg =>
    rw [hnote hneg]
    have hl := h.disks _ _ hfs
    have ha := h.stable _ _ h.drive (parsePath_live hp)
    obtain ⟨hinv, ht⟩ := h.withDrive (hl.open_inv _ _ _ _ _ _ ha ho)
      (fun k hk ↦ (hl.open_other _ _ _ _ _ _ ha ho k hk).2)
    exact ⟨hinv, Or.inl ⟨hneg, rfl⟩, ht⟩
  | @opened path a b fs file p index t hp hfs ho hne hi hz =>
    have hl := h.disks _ _ hfs
    have ha := h.stable _ _ h.drive (parsePath_live hp)
    have ht := hl.open_inv _ _ _ _ _ _ ha ho
    have hother := hl.open_other _ _ _ _ _ _ ha ho
    obtain ⟨hlt, hnone, hleast⟩ := freeIndex_some hi
    obtain ⟨f, hf⟩ := Option.ne_none_iff_exists'.mp (hl.open_fresh _ _ _ _ _ _ ha ho hne)
    obtain ⟨hinv, htab⟩ := h.withDrive (h.stable t b ht (kzallocUnchecked_live hz))
      (fun k hk ↦ (hother k hk).2)
    have hset := hinv.setFd hl hnone hf (fun i d hd hdf ↦ by
      obtain ⟨g, hg, -⟩ := h.held i d hd
      exact (hother d.fsFileDescriptor (by simp [hg])).1 hdf)
    have hfile : Vfs.table view
        { s.setFd index (some ⟨index, fs, file⟩) with drive := { t with arena := b } } index =
          some f :=
      (table_of_some (update_self _ _ _)).trans hf
    refine ⟨?_, Or.inr ⟨index, hlt, rfl, hnone, hleast, ?_, fun j hj ↦ update_of_ne hj _ _⟩,
      fun i hopen ↦ ?_⟩
    · rw [VfsOp.noteOpened, if_pos (Int.natCast_nonneg _), Int.toNat_natCast, hfile]
      exact hset
    · show update s.fdList index _ index ≠ none
      rw [update_self]
      exact Option.some_ne_none _
    · rw [← htab i hopen]
      have hne' : i ≠ index := by
        rintro rfl
        exact hopen hnone
      exact table_congr (update_of_ne hne' _ _) (fun _ _ ↦ rfl)

end Open

section Runs

variable [LawfulAllocator σ]

theorem TableInv.step (h : TableInv view inv s opened) {op : VfsOp} (hv : op.Valid)
    (hr : op.run s = .ok (r, s')) :
    TableInv view inv s' (op.noteOpened view r s' opened) ∧
      OpCorrect view opened s op r s' := by
  cases op with
  | fopen alien filename mode => exact h.fopen (vfsFopen_result hr)
  | fread dest size nmemb fd =>
    exact h.delegates (vfsFread_delegates hv hr) (fun d hd ↦ hd.read _ _ _ _)
  | fseek fd offset whence =>
    exact h.delegates (vfsFseek_delegates hv hr) (fun d hd ↦ hd.seek _ _ _)
  | fclose fd => exact h.fclose hv hr
  | fstat fd =>
    obtain ⟨⟨r', st⟩, t, hst, he⟩ := bind_eq_ok.mp hr
    cases he
    exact h.delegates (vfsFstat_delegates hv hst) (fun d hd ↦ hd.stat _)

theorem VfsRuns.tableInv (h : VfsRuns view inv s opened) : TableInv view inv s opened := by
  induction h with
  | start hnone hst hi hd =>
    refine ⟨hst, hi, hd, fun i d h ↦ ?_, fun i d h ↦ ?_, fun i d h ↦ ?_, fun i j d e h ↦ ?_⟩ <;>
      · rw [hnone] at h
        cases h
  | step op hrun hv hr ih => exact (ih.step hv hr).1

end Runs

end GammaOS.Fs
