import GammaOS.Fs.Fat16

namespace GammaOS.Fs

open Function Foundation Foundation.Program Memory

variable {σ : Type} [Allocator σ] [LawfulAllocator σ] {r : Run} {s₀ : Arena σ}
  {v : Fat16Volume} {alien : ByteMemory}

def DirOff (r : Run) (dir : Option (ℕ × Fat16Directory)) : Prop :=
  ∀ p ∈ dir, Off r p.1 ∧ Off r p.2.files

def ContentOff (r : Run) : UnitContent → Prop
  | .directory dir => DirOff r dir
  | .file file => Off r (file.elim 0 Prod.fst)

structure UnitOff (r : Run) (u : Fat16Unit) : Prop where
  addr : Off r u.addr
  content : ContentOff r u.content

theorem fat16LoadDirectory_kept (file : Fat16File) :
    Triple (Kept r s₀) (fat16LoadDirectory v file) (fun dir s ↦ Kept r s₀ s ∧ DirOff r dir) := by
  refine (kzalloc_kept 16).bind (fun dir ↦ ?_)
  refine Triple.ite (fun _ ↦ .pure (fun s h ↦ ⟨h.1, by rintro p ⟨⟩⟩)) (fun _ ↦ ?_)
  refine Triple.ite (fun _ ↦ ?_) (fun _ ↦ ?_)
  · intro s ⟨hk, ho⟩
    refine ((kfree_kept ho).bind (fun _ ↦ .pure (fun s h ↦ ?_))) s hk
    exact ⟨h, by rintro p ⟨⟩⟩
  · refine (Triple.ofExcept (Q := fun _ s ↦ Kept r s₀ s ∧ Off r dir) (fun _ _ s h ↦ h)).bind
      (fun totalFiles ↦ ?_)
    intro s ⟨hk, ho⟩
    refine ((kzalloc_clear (u32 (totalFiles * 32))).bind (fun files ↦ ?_)) s hk
    refine Triple.ite (fun _ ↦ .pure (fun s h ↦ ⟨h.1, by rintro p ⟨⟩⟩)) (fun hne ↦ ?_)
    intro s ⟨hk, hf, hc⟩ x s' h
    obtain ⟨⟨status, bytes⟩, s₁, h₁, h⟩ := bind_eq_ok.mp h
    obtain ⟨hbytes, rfl⟩ := ofExcept_eq_ok.mp h₁
    obtain ⟨_, s₂, h₂, h⟩ := bind_eq_ok.mp h
    cases h₂
    cases fat16ReadFromDisk_status hbytes
    cases h
    have hlen := fat16ReadFromDisk_length hbytes
    have hle := lt_blocksOf (u32 (u32 (totalFiles * 32)))
    rw [u32_of_lt (u32_lt (totalFiles * 32))] at hle
    refine ⟨hk.write ((hc hne).mono ?_), ?_⟩
    · rw [hlen, u32_of_lt (u32_lt (totalFiles * 32))]
      exact hle
    · rintro p ⟨⟩
      exact ⟨ho, hf⟩

theorem fat16CloneFile_kept (file : Fat16File) :
    Triple (Kept r s₀) (fat16CloneFile file)
      (fun copy s ↦ Kept r s₀ s ∧ Off r (copy.elim 0 Prod.fst)) := by
  refine (kzalloc_kept 32).bind (fun p ↦ ?_)
  exact Triple.ite (fun hp ↦ .pure (fun s h ↦ ⟨h.1, off_zero h.1.live⟩)) (fun _ ↦ .pure (fun s h ↦ h))

theorem fat16NewFatUnitForDirectoryUnit_kept (file : Fat16File) :
    Triple (Kept r s₀) (fat16NewFatUnitForDirectoryUnit v file)
      (fun unit s ↦ Kept r s₀ s ∧ ∀ u ∈ unit, UnitOff r u) := by
  refine (kzalloc_kept 8).bind (fun unit ↦ ?_)
  refine Triple.ite (fun _ ↦ .pure (fun s h ↦ ⟨h.1, by rintro p ⟨⟩⟩)) (fun _ ↦ ?_)
  refine Triple.ite (fun _ ↦ ?_) (fun _ ↦ ?_)
  · intro s ⟨hk, ho⟩
    refine ((fat16LoadDirectory_kept file).bind (fun dir ↦ .pure (fun s h ↦ ⟨h.1, ?_⟩))) s hk
    rintro u ⟨⟩
    exact ⟨ho, h.2⟩
  · intro s ⟨hk, ho⟩
    refine ((fat16CloneFile_kept file).bind (fun copy ↦ .pure (fun s h ↦ ⟨h.1, ?_⟩))) s hk
    rintro u ⟨⟩
    exact ⟨ho, h.2⟩

theorem findUnitLoop_kept {dir : Fat16Directory} {unitStr : Option UnitStr} :
    ∀ n dirUnit (unit : Option Fat16Unit),
      Triple (fun s ↦ Kept r s₀ s ∧ ∀ u ∈ unit, UnitOff r u)
        (findUnitLoop v alien dir unitStr n dirUnit unit)
        (fun unit s ↦ Kept r s₀ s ∧ ∀ u ∈ unit, UnitOff r u) := by
  intro n
  induction n with
  | zero => intro dirUnit unit; exact .pure (fun s h ↦ h)
  | succ n ih =>
    intro dirUnit unit
    cases unitStr with
    | none => exact .fault
    | some str =>
      refine Triple.ite (fun _ ↦ ?_) (fun _ ↦ ih _ _)
      refine ((fat16NewFatUnitForDirectoryUnit_kept _).weaken (fun s h ↦ h.1)
        (fun _ _ h ↦ h)).bind (fun unit ↦ ih _ _)

theorem fat16FindUnitInDirectory_kept {dir : Fat16Directory} {unitStr : Option UnitStr} :
    Triple (Kept r s₀) (fat16FindUnitInDirectory v alien dir unitStr)
      (fun unit s ↦ Kept r s₀ s ∧ ∀ u ∈ unit, UnitOff r u) :=
  (findUnitLoop_kept _ _ none).weaken (fun s h ↦ ⟨h, by rintro u ⟨⟩⟩) (fun _ _ h ↦ h)

theorem getUnitLoop_kept : ∀ (rest : List UnitStr) (unit : Option Fat16Unit),
    Triple (fun s ↦ Kept r s₀ s ∧ ∀ u ∈ unit, UnitOff r u) (getUnitLoop v alien rest unit)
      (fun unit s ↦ Kept r s₀ s ∧ ∀ u ∈ unit, UnitOff r u) := by
  intro rest
  induction rest with
  | nil => intro unit; exact .pure (fun s h ↦ h)
  | cons next rest ih =>
    intro unit
    rcases unit with _ | ⟨addr, dir | file⟩
    · exact .fault
    · rcases dir with _ | ⟨p, dir⟩
      · exact .fault
      · exact (fat16FindUnitInDirectory_kept.weaken (fun s h ↦ h.1) (fun _ _ h ↦ h)).bind
          (fun unit ↦ ih unit)
    · exact .pure (fun s h ↦ ⟨h.1, by rintro u ⟨⟩⟩)

theorem fat16GetUnit_kept (path : Path) :
    Triple (Kept r s₀) (fat16GetUnit v alien path)
      (fun unit s ↦ Kept r s₀ s ∧ ∀ u ∈ unit, UnitOff r u) := by
  refine fat16FindUnitInDirectory_kept.bind (fun unit ↦ ?_)
  cases unit with
  | none => exact .pure (fun s h ↦ h)
  | some root => exact getUnitLoop_kept path.rest (some root)

omit [Allocator σ] [LawfulAllocator σ] in
theorem readMembers_ok {file : Fat16File} {size n offset out members : ℕ} {status : ℤ}
    {bytes : List UInt8} {s : Arena σ}
    (h : fat16ReadFromDisk v.disk v.pd file.firstCluster offset size = .ok (status, bytes)) :
    readMembers v file size (n + 1) offset out members s =
      readMembers v file size n (u32 (offset + size)) (u32 (out + size)) (members + 1)
        { s with mem := s.mem.writeBytes out bytes } := by
  cases fat16ReadFromDisk_status h
  rw [readMembers]
  exact bind_run_ok (ofExcept_eq_ok.mpr ⟨h, rfl⟩)

omit [Allocator σ] [LawfulAllocator σ] in
theorem readMembers_succ {file : Fat16File} {size n offset out members x : ℕ} {s s' : Arena σ}
    (h : readMembers v file size (n + 1) offset out members s = .ok (x, s')) :
    ∃ status bytes,
      fat16ReadFromDisk v.disk v.pd file.firstCluster offset size = .ok (status, bytes) ∧
      readMembers v file size n (u32 (offset + size)) (u32 (out + size)) (members + 1)
        { s with mem := s.mem.writeBytes out bytes } = .ok (x, s') := by
  obtain ⟨⟨status, bytes⟩, s₁, h₁, -⟩ := bind_eq_ok.mp h
  obtain ⟨hbytes, rfl⟩ := ofExcept_eq_ok.mp h₁
  exact ⟨status, bytes, hbytes, (readMembers_ok hbytes).symm.trans h⟩

omit [LawfulAllocator σ] in
theorem readMembers_kept {file : Fat16File} {size : ℕ} : ∀ n offset out members, out < 2 ^ 32 →
    out + size * n ≤ 2 ^ 32 → Clear r out (size * n) →
    Triple (Kept r s₀) (readMembers v file size n offset out members) (fun _ s ↦ Kept r s₀ s) := by
  intro n
  induction n with
  | zero => intro offset out members _ _ _; exact .pure (fun s h ↦ h)
  | succ n ih =>
    intro offset out members hlt hle hc s hk x s' h
    obtain ⟨status, bytes, hbytes, h⟩ := readMembers_succ h
    have hlen := fat16ReadFromDisk_length hbytes
    rw [Nat.mul_succ] at hle hc
    have hfirst : Clear r out bytes.length := by
      rw [hlen]
      exact hc.mono (by omega)
    have hk₁ := hk.write hfirst
    rcases Nat.eq_zero_or_pos (size * n) with h0 | hpos
    · refine ih (u32 (offset + size)) (u32 (out + size)) (members + 1) (u32_lt _) ?_ ?_ _ hk₁ x s' h
      · rw [h0]
        exact Nat.le_of_lt (u32_lt _)
      · rw [h0]
        exact fun i _ ↦ by omega
    · have hu : u32 (out + size) = out + size := u32_of_lt (by omega)
      rw [hu] at h
      refine ih (u32 (offset + size)) (out + size) (members + 1) (by omega) (by omega) ?_ _ hk₁ x s' h
      exact fun i hi ↦ (hc i hi).imp (fun hlt ↦ by omega) (fun hge ↦ by omega)

theorem fat16DestroyDirectory_kept {dir : Option (ℕ × Fat16Directory)} (hd : DirOff r dir) :
    Triple (Kept r s₀) (fat16DestroyDirectory dir) (fun _ s ↦ Kept r s₀ s) := by
  rcases dir with _ | ⟨addr, dir⟩
  · exact .pure (fun s h ↦ h)
  · obtain ⟨ha, hf⟩ := hd _ rfl
    rw [fat16DestroyDirectory]
    split
    · exact (kfree_kept hf).bind (fun _ ↦ kfree_kept ha)
    · exact kfree_kept ha

theorem fat16DestroyUnit_kept {unit : Fat16Unit} (hu : UnitOff r unit) :
    Triple (Kept r s₀) (fat16DestroyUnit unit) (fun _ s ↦ Kept r s₀ s) := by
  obtain ⟨addr, dir | file⟩ := unit
  · exact (fat16DestroyDirectory_kept hu.content).bind (fun _ ↦ kfree_kept hu.addr)
  · exact (kfree_kept hu.content).bind (fun _ ↦ kfree_kept hu.addr)

end GammaOS.Fs
