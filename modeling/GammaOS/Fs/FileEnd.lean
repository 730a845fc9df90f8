import GammaOS.Fs.ChainWalk
import GammaOS.Fs.ReadSeek

namespace GammaOS.Fs

open Function Foundation Foundation.Program Memory

variable {σ : Type} {v : Fat16Volume} {f : Fat16File} {disk : Disk} {pd : Fat16PrivateData}
  {firstCluster offset size n : ℕ}

theorem readMembers_total (hpos : v.pd.clusterSize ≠ 0) :
    ∀ n offset out members (s : Arena σ), ∃ s',
      readMembers v f size n offset out members s = .ok (members + n, s') ∧
        (out + size * n ≤ 2 ^ 32 → ∀ a, a < out ∨ out + size * n ≤ a → s'.mem a = s.mem a) := by
  intro n
  induction n with
  | zero => exact fun offset out members s ↦ ⟨s, rfl, fun _ _ _ ↦ rfl⟩
  | succ n ih =>
    intro offset out members s
    obtain ⟨bytes, hb, hlen⟩ := @fat16ReadFromDisk_total v.disk v.pd f.firstCluster hpos offset size
    obtain ⟨s', hr, hmem⟩ := ih (u32 (offset + size)) (u32 (out + size)) (members + 1)
      { s with mem := s.mem.writeBytes out bytes }
    refine ⟨s', ?_, fun hend a ha ↦ ?_⟩
    · rw [readMembers_ok hb, hr, Nat.add_right_comm, Nat.add_assoc]
    rw [Nat.mul_succ] at hend ha
    have hwrite : s.mem.writeBytes out bytes a = s.mem a :=
      ByteMemory.writeBytes_outside (by omega)
    rcases Nat.eq_zero_or_pos (size * n) with h0 | hmore
    · have hu := u32_lt (out + size)
      rw [h0] at hmem
      exact (hmem (by omega) a (Nat.lt_or_ge _ _)).trans hwrite
    · rw [u32_of_lt (by omega)] at hmem
      exact (hmem (by omega) a (by omega)).trans hwrite

def WalkFails (disk : Disk) (pd : Fat16PrivateData) (firstCluster offset : ℕ) : Prop :=
  ∃ r < 0, fat16GetClusterFromOffset disk pd firstCluster offset = .ok r

def Broken (v : Fat16Volume) (f : Fat16File) (offset size : ℕ) : Prop :=
  ∃ i < size, WalkFails v.disk v.pd f.firstCluster (offset + i)

def OpenOn (s : Drive σ Fat16Files) (handle : ℕ) (f : Fat16File) (pos : ℕ) : Prop :=
  ∃ addr p, s.files handle = some ⟨⟨addr, .file (some (p, f))⟩, pos⟩

/-- A failed walk for a byte of the range is reported by `fat16_read_from_disk`,
and `fat16_read` does not count the member that starts at `offset`. -/
structure BrokenReported (v : Fat16Volume) (f : Fat16File) (offset size : ℕ) : Prop where
  status : ∀ status bytes, fat16ReadFromDisk v.disk v.pd f.firstCluster offset size =
    .ok (status, bytes) → Broken v f offset size → status < 0
  member : ∀ (σ : Type) (s s' : Drive σ Fat16Files) (handle pos nmemb out : ℕ) (r : ℤ),
    OpenOn s handle f pos → fat16Read v handle size nmemb out s = .ok (r, s') →
      ∀ j < nmemb, u32 (pos + size * j) = offset → Broken v f offset size → r ≤ j

/-- No failed walk is reported: the reports are right when there is nothing to report. -/
theorem brokenReported_iff : BrokenReported v f offset size ↔ ¬ Broken v f offset size := by
  constructor
  · rintro h hb
    have hpos : v.pd.clusterSize ≠ 0 := by
      obtain ⟨i, -, r, -, hr⟩ := hb
      intro h0
      rw [fat16GetClusterFromOffset, fat16ClusterFromOffset, if_pos h0] at hr
      cases hr
    obtain ⟨bytes, hread, -⟩ := fat16ReadFromDisk_total f.firstCluster hpos offset size
    exact absurd (h.status _ _ hread hb) (by decide)
  · exact fun h ↦ ⟨fun _ _ _ hb ↦ absurd hb h, fun _ _ _ _ _ _ _ _ _ _ _ _ _ hb ↦ absurd hb h⟩

/-- Cluster 2 of a disk of zeros has the entry 0: no cluster follows it. -/
theorem broken_not_reported :
    Broken ⟨fun _ _ ↦ 0, smallVolume⟩ ⟨[], [], 0, 0, 2, 1024⟩ 512 1 ∧
      fat16ReadFromDisk (fun _ _ ↦ 0) smallVolume 2 512 1 = .ok (0, [0]) ∧
      ¬ BrokenReported ⟨fun _ _ ↦ 0, smallVolume⟩ ⟨[], [], 0, 0, 2, 1024⟩ 512 1 := by
  have hb : Broken ⟨fun _ _ ↦ 0, smallVolume⟩ ⟨[], [], 0, 0, 2, 1024⟩ 512 1 :=
    ⟨0, Nat.one_pos, -1, by decide, by decide⟩
  have hread : fat16ReadFromDisk (fun _ _ ↦ 0) smallVolume 2 512 1 = .ok (0, [0]) := by decide
  exact ⟨hb, hread, fun h ↦ absurd (h.status 0 [0] hread hb) (by decide)⟩

/-- `fat16_read` returns the count of the members that the file holds from the
position on, and stores no byte that lies behind the end of the file. -/
def ReadsToEnd (v : Fat16Volume) (f : Fat16File) (s : Drive σ Fat16Files)
    (handle pos size nmemb out : ℕ) : Prop :=
  ∃ r s', fat16Read v handle size nmemb out s = .ok (r, s') ∧
    r = ((min nmemb ((f.size - pos) / size) : ℕ) : ℤ) ∧
    ∀ a, a < out ∨ out + (f.size - pos) ≤ a → s'.arena.mem a = s.arena.mem a

theorem OpenOn.read {s : Drive σ Fat16Files} {handle pos nmemb out : ℕ}
    (h : OpenOn s handle f pos) {b : Arena σ} {members : ℕ}
    (hr : readMembers v f size nmemb pos out 0 s.arena = .ok (members, b)) :
    fat16Read v handle size nmemb out s = .ok (toInt32 members, { s with arena := b }) := by
  obtain ⟨addr, p, hh⟩ := h
  refine (bind_run_ok (handleAt_eq_ok.mpr ⟨hh, rfl⟩)).trans ?_
  exact bind_run_ok (onArena_eq_ok.mpr ⟨b, hr, rfl⟩)

theorem OpenOn.read_eq_ok {s s' : Drive σ Fat16Files} {handle pos nmemb out : ℕ} {r : ℤ}
    (h : OpenOn s handle f pos) (hr : fat16Read v handle size nmemb out s = .ok (r, s')) :
    ∃ members b, readMembers v f size nmemb pos out 0 s.arena = .ok (members, b) := by
  obtain ⟨addr, p, hh⟩ := h
  obtain ⟨fd, s₁, h₁, hr⟩ := bind_eq_ok.mp hr
  obtain ⟨hfd, rfl⟩ := handleAt_eq_ok.mp h₁
  cases hh.symm.trans hfd
  obtain ⟨members, s₂, h₂, -⟩ := bind_eq_ok.mp hr
  obtain ⟨b, hb, -⟩ := onArena_eq_ok.mp h₂
  exact ⟨members, b, hb⟩

theorem readMembers_clusterSize {offset out members x : ℕ} {s s' : Arena σ}
    (h : readMembers v f size (n + 1) offset out members s = .ok (x, s')) :
    v.pd.clusterSize ≠ 0 := by
  obtain ⟨status, bytes, hb, -⟩ := readMembers_succ h
  intro h0
  simp [fat16ReadFromDisk, fat16ReadLoop, fat16GetClusterFromOffset, fat16ClusterFromOffset, h0,
    bind, Except.bind] at hb

theorem OpenOn.read_run {s : Drive σ Fat16Files} {handle pos nmemb out : ℕ}
    (h : OpenOn s handle f pos) (hcl : nmemb = 0 ∨ v.pd.clusterSize ≠ 0) :
    ∃ b, fat16Read v handle size nmemb out s = .ok (toInt32 nmemb, { s with arena := b }) ∧
      (out + size * nmemb ≤ 2 ^ 32 → ∀ a, a < out ∨ out + size * nmemb ≤ a →
        b.mem a = s.arena.mem a) := by
  rcases hcl with rfl | hpos
  · exact ⟨s.arena, h.read rfl, fun _ _ _ ↦ rfl⟩
  · obtain ⟨b, hb, hmem⟩ := @readMembers_total σ v f size hpos nmemb pos out 0 s.arena
    rw [Nat.zero_add] at hb
    exact ⟨b, h.read hb, hmem⟩

/-- `fat16_read` does not look at the size of the file: it is right when all
members that it is asked for lie in front of the end. -/
theorem readsToEnd_iff {s : Drive σ Fat16Files} {handle pos nmemb out : ℕ}
    (h : OpenOn s handle f pos) (hn : nmemb < 2 ^ 32)
    (hout : out + size * min nmemb ((f.size - pos) / size) ≤ 2 ^ 32) :
    ReadsToEnd v f s handle pos size nmemb out ↔
      (nmemb = 0 ∨ v.pd.clusterSize ≠ 0) ∧ nmemb ≤ (f.size - pos) / size ∧ nmemb < 2 ^ 31 := by
  constructor
  · rintro ⟨r, s', hr, hmin, -⟩
    have hcl : nmemb = 0 ∨ v.pd.clusterSize ≠ 0 := by
      cases nmemb with
      | zero => exact Or.inl rfl
      | succ n =>
        obtain ⟨members, b, hb⟩ := h.read_eq_ok hr
        exact Or.inr (readMembers_clusterSize hb)
    obtain ⟨b, hrun, -⟩ := @OpenOn.read_run σ v f size s handle pos nmemb out h hcl
    cases hrun.symm.trans hr
    -- a count from 2 ^ 31 on is negative
    have hlt : nmemb < 2 ^ 31 := by
      by_contra hge
      have hnn := Int.natCast_nonneg (min nmemb ((f.size - pos) / size))
      rw [← hmin, toInt32, u32_of_lt hn, if_neg hge] at hnn
      omega
    rw [toInt32, u32_of_lt hn, if_pos hlt, Int.ofNat_inj] at hmin
    exact ⟨hcl, by omega, hlt⟩
  · rintro ⟨hcl, hle, hlt⟩
    obtain ⟨b, hrun, hmem⟩ := @OpenOn.read_run σ v f size s handle pos nmemb out h hcl
    rw [Nat.min_eq_left hle] at hout
    have hbytes : size * nmemb ≤ f.size - pos :=
      (Nat.mul_le_mul_left size hle).trans (Nat.mul_div_le _ _)
    refine ⟨_, _, hrun, ?_, fun a ha ↦ hmem hout a (ha.imp_right (fun hge ↦ by omega))⟩
    rw [toInt32, u32_of_lt hn, if_pos hlt, Nat.min_eq_left hle]

theorem OnFile.openOn [Allocator σ] {s : Vfs σ Fat16Files} {fd : ℤ} {pos : ℕ}
    (h : OnFile v f fd pos s) : ∃ handle, OpenOn s.drive handle f pos := by
  obtain ⟨d, addr, p, -, -, hh⟩ := h
  exact ⟨d.fsFileDescriptor, addr, p, hh⟩

theorem readsToEnd_iff_short : ∃ (s : Drive (KHeap false) Fat16Files) (f : Fat16File) (handle : ℕ),
    OpenOn s handle f 0 ∧ f.size = 2 ∧ (ReadsToEnd shortVolume f s handle 0 1 2 0x2000 ↔
      (2 = 0 ∨ shortVolume.pd.clusterSize ≠ 0) ∧ 2 ≤ (f.size - 0) / 1 ∧ 2 < 2 ^ 31) := by
  obtain ⟨s, f, -, hon, hsize, -⟩ := shortVolume_opened
  obtain ⟨handle, h⟩ := hon.openOn
  refine ⟨s.drive, f, handle, h, hsize, readsToEnd_iff h (by decide) ?_⟩
  rw [hsize]
  decide

theorem read_behind_end : ∃ (s : Drive (KHeap false) Fat16Files) (f : Fat16File) (handle : ℕ),
    OpenOn s handle f 0 ∧ f.size = 2 ∧
      (∃ s', fat16Read shortVolume handle 1 3 0x2000 s = .ok (3, s')) ∧
      ¬ ReadsToEnd shortVolume f s handle 0 1 3 0x2000 := by
  obtain ⟨s, f, -, hon, hsize, -⟩ := shortVolume_opened
  obtain ⟨handle, h⟩ := hon.openOn
  have hcl : shortVolume.pd.clusterSize ≠ 0 := by decide
  obtain ⟨b, hrun, -⟩ := @OpenOn.read_run _ shortVolume f 1 _ _ _ 3 0x2000 h (Or.inr hcl)
  refine ⟨s.drive, f, handle, h, hsize, ⟨_, hrun⟩, fun hr ↦ ?_⟩
  obtain ⟨r, s', hread, hmin, -⟩ := hr
  cases hrun.symm.trans hread
  rw [hsize] at hmin
  exact absurd hmin (by decide)

end GammaOS.Fs
