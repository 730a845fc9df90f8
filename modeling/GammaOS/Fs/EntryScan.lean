import GammaOS.Fs.DiskStream
import GammaOS.Fs.Fat16

namespace GammaOS.Fs

open Foundation Foundation.Program Memory

/-- The place of entry `i` behind the first sector of a directory, as the
scan comes to it: behind the last position it goes on at the first. -/
def scanPos (sector i : ℕ) : ℕ := u32 (sector * sectorSize + 32 * i)

def scanByte (disk : Disk) (sector i : ℕ) : UInt8 := disk.byteAt (scanPos sector i)

def undeleted (disk : Disk) (sector k : ℕ) : ℕ :=
  (List.range k).countP (fun i ↦ decide (scanByte disk sector i ≠ 0xE5))

structure ScanEnd (disk : Disk) (sector k : ℕ) : Prop where
  zero : scanByte disk sector k = 0
  least : ∀ i < k, scanByte disk sector i ≠ 0

variable {disk : Disk} {sector k n : ℕ}

theorem scanPos_zero (sector : ℕ) : scanPos sector 0 = u32 (sector * sectorSize) := by
  rw [scanPos, Nat.mul_zero, Nat.add_zero]

theorem scanPos_period (sector i : ℕ) : scanPos sector (i % 2 ^ 27) = scanPos sector i := by
  unfold scanPos u32
  omega

theorem scan_read (disk : Disk) (sector i : ℕ) :
    (diskStreamRead disk (scanPos sector i) 32).bytes.getD 0 0 = scanByte disk sector i ∧
      (diskStreamRead disk (scanPos sector i) 32).pos = scanPos sector (i + 1) := by
  have hlt := u32_lt (sector * sectorSize + 32 * i)
  obtain ⟨hpos, hbytes⟩ := diskStreamRead_wraps disk hlt (n := 32) (by decide)
  refine ⟨?_, ?_⟩
  · rw [scanPos, hbytes, scanByte, scanPos]
    show disk.byteAt (u32 (u32 (sector * sectorSize + 32 * i))) = _
    rw [u32_of_lt hlt]
  · rw [scanPos, hpos, u32_add, scanPos, Nat.mul_succ, Nat.add_assoc]

theorem totalFilesLoop_ends : ∀ m j fuel t, m < fuel → t + m < 2 ^ 32 →
    (∀ i, j ≤ i → i < j + m → scanByte disk sector i ≠ 0) → scanByte disk sector (j + m) = 0 →
    totalFilesLoop disk fuel (scanPos sector j) t =
      .ok (t + (List.range' j m).countP (fun i ↦ decide (scanByte disk sector i ≠ 0xE5))) := by
  intro m
  induction m with
  | zero =>
    intro j fuel t hfuel _ _ hzero
    obtain ⟨fuel, rfl⟩ := Nat.exists_eq_succ_of_ne_zero (Nat.ne_of_gt hfuel)
    rw [totalFilesLoop, (scan_read disk sector j).1, if_pos (by rwa [Nat.add_zero] at hzero)]
    rfl
  | succ m ih =>
    intro j fuel t hfuel ht hlive hzero
    obtain ⟨fuel, rfl⟩ := Nat.exists_eq_succ_of_ne_zero (Nat.ne_zero_of_lt hfuel)
    obtain ⟨hbyte, hpos⟩ := scan_read disk sector j
    have hrest := ih (j + 1) fuel
    rw [totalFilesLoop, hbyte, hpos, if_neg (hlive j (Nat.le_refl j) (by omega)), List.range'_succ,
      List.countP_cons]
    have hlive' : ∀ i, j + 1 ≤ i → i < j + 1 + m → scanByte disk sector i ≠ 0 :=
      fun i h₁ h₂ ↦ hlive i (by omega) (by omega)
    have hzero' : scanByte disk sector (j + 1 + m) = 0 := by
      rwa [show j + 1 + m = j + (m + 1) by omega]
    by_cases hdel : scanByte disk sector j = 0xE5
    · rw [if_pos hdel, hrest t (by omega) (by omega) hlive' hzero',
        if_neg (by rw [decide_eq_true_iff, not_not]; exact hdel)]
      rfl
    · rw [if_neg hdel, if_pos (decide_eq_true hdel), u32_of_lt (by omega),
        hrest (t + 1) (by omega) (by omega) hlive' hzero']
      exact congrArg Except.ok (by omega)

theorem totalFilesLoop_zero : ∀ fuel j t, totalFilesLoop disk fuel (scanPos sector j) t = .ok n →
    ∃ k, scanByte disk sector k = 0 := by
  intro fuel
  induction fuel with
  | zero => intro j t h; cases h
  | succ fuel ih =>
    intro j t h
    obtain ⟨hbyte, hpos⟩ := scan_read disk sector j
    rw [totalFilesLoop, hbyte, hpos] at h
    by_cases hzero : scanByte disk sector j = 0
    · exact ⟨j, hzero⟩
    · rw [if_neg hzero] at h
      split at h
      · exact ih _ _ h
      · exact ih _ _ h

theorem scanEnd_of_zero (h : scanByte disk sector k = 0) :
    ∃ e, ScanEnd disk sector e ∧ e ≤ k ∧ e < 2 ^ 27 := by
  have hex : ∃ i, scanByte disk sector i = 0 := ⟨k, h⟩
  have hmod : scanByte disk sector (k % 2 ^ 27) = 0 := by
    rw [scanByte, scanPos_period]
    exact h
  have hlt : Nat.find hex < 2 ^ 27 :=
    Nat.lt_of_le_of_lt (Nat.find_min' hex hmod) (Nat.mod_lt k (Nat.two_pow_pos 27))
  exact ⟨Nat.find hex, ⟨Nat.find_spec hex, fun i hi ↦ Nat.find_min hex hi⟩,
    Nat.find_min' hex h, hlt⟩

theorem ScanEnd.total (h : ScanEnd disk sector k) :
    fat16TotalFilesInDirectory disk sector = .ok (undeleted disk sector k) := by
  obtain ⟨e, he, hle, hlt⟩ := scanEnd_of_zero h.zero
  obtain rfl : e = k := by
    by_contra hne
    exact h.least e (by omega) he.zero
  have hloop : ∀ fuel, e < fuel →
      totalFilesLoop disk fuel (scanPos sector 0) 0 = .ok (undeleted disk sector e) := by
    intro fuel hfuel
    have hrun := @totalFilesLoop_ends disk sector e 0 fuel 0 hfuel (by omega)
      (fun i _ hi ↦ h.least i (by omega)) (by rw [Nat.zero_add]; exact h.zero)
    rw [hrun, Nat.zero_add, undeleted, List.range_eq_range']
  rw [fat16TotalFilesInDirectory, ← scanPos_zero]
  exact hloop _ (Nat.lt_succ_of_lt hlt)

/-- The count returns exactly when there is an end mark, and it is the number
of the entries before it that are not deleted. -/
theorem totalFiles_eq_ok : fat16TotalFilesInDirectory disk sector = .ok n ↔
    ∃ k, ScanEnd disk sector k ∧ n = undeleted disk sector k := by
  constructor
  · intro h
    rw [fat16TotalFilesInDirectory, ← scanPos_zero] at h
    obtain ⟨k, hk⟩ := totalFilesLoop_zero _ 0 _ h
    obtain ⟨e, he, -⟩ := scanEnd_of_zero hk
    rw [scanPos_zero, ← fat16TotalFilesInDirectory, he.total] at h
    cases h
    exact ⟨e, he, rfl⟩
  · rintro ⟨k, hk, rfl⟩
    exact hk.total

end GammaOS.Fs
