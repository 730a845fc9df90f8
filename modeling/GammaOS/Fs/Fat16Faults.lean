import GammaOS.Fs.Fat16

namespace GammaOS.Fs

open Function Foundation Foundation.Program Memory

variable {disk : Disk} {pd : Fat16PrivateData} {e : Fault}

theorem totalFilesLoop_error : ∀ fuel pos totalFiles,
    totalFilesLoop disk fuel pos totalFiles = .error e → e = .loop := by
  intro fuel
  induction fuel with
  | zero =>
    intro pos totalFiles h
    exact (Except.error.inj h).symm
  | succ fuel ih =>
    intro pos totalFiles h
    rw [totalFilesLoop] at h
    split at h
    · cases h
    · split at h
      · exact ih _ _ h
      · exact ih _ _ h

theorem fat16ReadLoop_error {firstCluster : ℕ} : ∀ fuel offset size,
    fat16ReadLoop disk pd firstCluster fuel offset size = .error e →
      e = .loop ∨ e = .divideError := by
  intro fuel
  induction fuel with
  | zero =>
    intro offset size h
    exact Or.inl (Except.error.inj h).symm
  | succ fuel ih =>
    intro offset size h
    rw [fat16ReadLoop] at h
    cases hc : fat16GetClusterFromOffset disk pd firstCluster offset with
    | error e' =>
      simp only [hc, bind, Except.bind, Except.error.injEq] at h
      rw [fat16GetClusterFromOffset, fat16ClusterFromOffset] at hc
      split at hc
      · exact Or.inr (h.symm.trans (Except.error.inj hc).symm)
      · cases hc
    | ok c =>
      simp only [hc, bind, Except.bind, pure, Except.pure, if_neg (not_ofInt32_neg c)] at h
      generalize (if size > pd.clusterSize then pd.clusterSize else size) = k at h
      by_cases hmore : size - k > 0
      · rw [if_pos hmore] at h
        cases hr : fat16ReadLoop disk pd firstCluster fuel (u32 (offset + k)) (size - k) with
        | error e' =>
          simp only [hr, Except.error.injEq] at h
          exact ih _ _ (h ▸ hr)
        | ok rest => simp [hr] at h
      · rw [if_neg hmore] at h
        cases h

/-- A fault that neither the count of a directory nor the read of its array stops with. -/
structure VolumeAvoids (v : Fat16Volume) (e : Fault) : Prop where
  total : ∀ sector, fat16TotalFilesInDirectory v.disk sector ≠ .error e
  read : ∀ firstCluster offset size,
    fat16ReadFromDisk v.disk v.pd firstCluster offset size ≠ .error e

theorem volume_avoids_nullDeref (v : Fat16Volume) : VolumeAvoids v .nullDeref where
  total sector h := nomatch totalFilesLoop_error _ _ _ h
  read firstCluster offset size h := by
    rcases fat16ReadLoop_error _ _ _ h with h | h <;> cases h

section Avoids

variable {σ : Type} [Allocator σ] {v : Fat16Volume} {alien : ByteMemory}

theorem kzalloc_avoids (n : ℕ) : Avoids e (kzalloc n : ArenaM σ ℕ) := fun _ h ↦ nomatch h

theorem kzallocUnchecked_avoids (h : Fault.nullDeref ≠ e) (n : ℕ) :
    Avoids e (kzallocUnchecked n : ArenaM σ ℕ) :=
  (kzalloc_avoids n).bind (fun _ ↦ (Avoids.require h).bind (fun _ ↦ .pure))

theorem kfree_avoids (p : ℕ) : Avoids e (kfree p : ArenaM σ Unit) := .modify

theorem fat16LoadDirectory_avoids (h : VolumeAvoids v e) (file : Fat16File) :
    Avoids e (fat16LoadDirectory (σ := σ) v file) := by
  refine (kzalloc_avoids 16).bind (fun dir ↦ Avoids.ite (fun _ ↦ .pure) (fun _ ↦ ?_))
  refine Avoids.ite (fun _ ↦ (kfree_avoids dir).bind (fun _ ↦ .pure)) (fun _ ↦ ?_)
  refine (Avoids.ofExcept (h.total _)).bind (fun totalFiles ↦ ?_)
  refine (kzalloc_avoids _).bind (fun files ↦ Avoids.ite (fun _ ↦ .pure) (fun _ ↦ ?_))
  refine (Avoids.ofExcept (h.read _ _ _)).bind (fun read ↦ Avoids.modify.bind (fun _ ↦ ?_))
  exact Avoids.ite (fun _ ↦ (kfree_avoids files).bind (fun _ ↦ .pure)) (fun _ ↦ .pure)

theorem fat16CloneFile_avoids (file : Fat16File) :
    Avoids e (fat16CloneFile (σ := σ) file) :=
  (kzalloc_avoids 32).bind (fun _ ↦ Avoids.ite (fun _ ↦ .pure) (fun _ ↦ .pure))

theorem fat16NewFatUnit_avoids (hload : ∀ file, Avoids e (fat16LoadDirectory (σ := σ) v file))
    (file : Fat16File) :
    Avoids e (fat16NewFatUnitForDirectoryUnit (σ := σ) v file) := by
  refine (kzalloc_avoids 8).bind (fun unit ↦ Avoids.ite (fun _ ↦ .pure) (fun _ ↦ ?_))
  exact Avoids.ite (fun _ ↦ (hload file).bind (fun _ ↦ .pure))
    (fun _ ↦ (fat16CloneFile_avoids file).bind (fun _ ↦ .pure))

theorem findUnitLoop_avoids (hload : ∀ file, Avoids e (fat16LoadDirectory (σ := σ) v file))
    {dir : Fat16Directory} {unitStr : Option UnitStr}
    (hu : unitStr = none → Fault.nullDeref ≠ e) : ∀ n dirUnit unit,
    Avoids e (findUnitLoop (σ := σ) v alien dir unitStr n dirUnit unit) := by
  intro n
  induction n with
  | zero => exact fun _ _ ↦ .pure
  | succ n ih =>
    intro dirUnit unit
    cases unitStr with
    | none => exact .fault (hu rfl)
    | some str =>
      exact Avoids.ite (fun _ ↦ (fat16NewFatUnit_avoids hload _).bind (fun _ ↦ ih _ _))
        (fun _ ↦ ih _ _)

theorem getUnitLoop_avoids (hload : ∀ file, Avoids e (fat16LoadDirectory (σ := σ) v file))
    (he : Fault.nullDeref ≠ e) :
    ∀ (rest : List UnitStr) unit, Avoids e (getUnitLoop (σ := σ) v alien rest unit) := by
  intro rest
  induction rest with
  | nil => exact fun _ ↦ .pure
  | cons next rest ih =>
    intro unit
    rcases unit with _ | ⟨addr, (_ | ⟨p, dir⟩) | file⟩
    · exact .fault he
    · exact .fault he
    · exact (findUnitLoop_avoids hload (fun _ ↦ he) _ _ _).bind (fun unit ↦ ih unit)
    · exact .pure

theorem fat16GetUnit_avoids (hload : ∀ file, Avoids e (fat16LoadDirectory (σ := σ) v file))
    (he : Fault.nullDeref ≠ e) (path : Path) :
    Avoids e (fat16GetUnit (σ := σ) v alien path) := by
  refine (findUnitLoop_avoids hload (fun _ ↦ he) _ _ _).bind (fun unit ↦ ?_)
  cases unit with
  | none => exact .pure
  | some root => exact getUnitLoop_avoids hload he path.rest (some root)

theorem fat16Open_avoids {path : Path} (hget : Avoids e (fat16GetUnit (σ := σ) v alien path))
    (he : Fault.nullDeref ≠ e) (mode : UInt8) :
    Avoids e (fat16Open (σ := σ) v alien path mode) := by
  refine Avoids.ite (fun _ ↦ .pure) (fun _ ↦ ?_)
  refine (kzallocUnchecked_avoids he 8).onPart.bind (fun fd ↦ ?_)
  refine hget.onPart.bind (fun unit ↦ ?_)
  cases unit with
  | none => exact (kfree_avoids fd).onPart.bind (fun _ ↦ .pure)
  | some unit => exact Avoids.modify.bind (fun _ ↦ .pure)

omit [Allocator σ] in
theorem readMembers_avoids (h : VolumeAvoids v e) {file : Fat16File} {size : ℕ} :
    ∀ n offset out members, Avoids e (readMembers (σ := σ) v file size n offset out members) := by
  intro n
  induction n with
  | zero => exact fun _ _ _ ↦ .pure
  | succ n ih =>
    intro offset out members
    refine (Avoids.ofExcept (h.read _ _ _)).bind (fun read ↦ Avoids.modify.bind (fun _ ↦ ?_))
    exact Avoids.ite (fun _ ↦ .pure) (fun _ ↦ ih _ _ _)

omit [Allocator σ] in
theorem fat16Read_avoids (h : VolumeAvoids v e) (he : Fault.nullDeref ≠ e) (hd : Fault.dangling ≠ e)
    (handle size nmemb out : ℕ) : Avoids e (fat16Read (σ := σ) v handle size nmemb out) := by
  refine Avoids.bind (fun s hs ↦ ?_) (fun fd ↦ ?_)
  · unfold handleAt at hs
    split at hs
    · exact hd (Except.error.inj hs)
    · cases hs
  · obtain ⟨⟨addr, dir | _ | ⟨q, file⟩⟩, pos⟩ := fd
    · exact .pure
    · exact Avoids.ite (fun _ ↦ .pure) (fun _ ↦ .fault he)
    · exact (readMembers_avoids h _ _ _ _).onPart.bind (fun _ ↦ .pure)

end Avoids

end GammaOS.Fs
