import GammaOS.Fs.Fat16Read
import Mathlib.Tactic.Ring

namespace GammaOS.Fs

open Memory

def Disk.word16At (disk : Disk) (pos : ℕ) : ℕ :=
  (disk.byteAt pos).toNat + 2 ^ 8 * (disk.byteAt (pos + 1)).toNat

def Fat16PrivateData.entryPosition (pd : Fat16PrivateData) (cluster : ℕ) : ℕ :=
  pd.header.reservedSectors * sectorSize + 2 * cluster

/-- The position from which `fat16_get_entry` reads: a product where a sum is meant. -/
def Fat16PrivateData.readPosition (pd : Fat16PrivateData) (cluster : ℕ) : ℕ :=
  u32 (pd.header.reservedSectors * sectorSize * cluster * fat16EntrySize)

variable {disk : Disk} {pd : Fat16PrivateData} {cluster p q r c : ℕ}

theorem word16At_inj (disk : Disk) :
    disk.word16At p = disk.word16At q ↔ ∀ i < 2, disk.byteAt (p + i) = disk.byteAt (q + i) := by
  have hlt := fun n ↦ (disk.byteAt n).toNat_lt
  constructor
  · intro h i hi
    have hp := hlt p
    have hq := hlt q
    unfold Disk.word16At at h
    rw [← UInt8.toNat_inj]
    obtain rfl | rfl : i = 0 ∨ i = 1 := by omega
    · rw [Nat.add_zero, Nat.add_zero]
      omega
    · omega
  · intro h
    have h₀ := h 0 (by decide)
    rw [Nat.add_zero, Nat.add_zero] at h₀
    rw [Disk.word16At, Disk.word16At, h₀, h 1 (by decide)]

theorem diskStreamRead_word {pos : ℕ} (h : pos + 2 ≤ 2 ^ 32) :
    ((diskStreamRead disk pos 2).bytes.getD 0 0).toNat +
      2 ^ 8 * ((diskStreamRead disk pos 2).bytes.getD 1 0).toNat = disk.word16At pos := by
  rw [diskStreamRead_bytes (by decide) h]
  rfl

theorem fat16GetEntry_reads (hr : pd.header.reservedSectors < 2 ^ 16) :
    fat16GetEntry disk pd cluster = disk.word16At (pd.readPosition cluster) := by
  have htable : u32 (pd.header.reservedSectors * sectorSize) = pd.header.reservedSectors * sectorSize :=
    u32_of_lt (by unfold sectorSize; omega)
  rw [fat16GetEntry, htable]
  refine diskStreamRead_word ?_
  unfold u32 fat16EntrySize
  omega

/-- Modulo `2 ^ 32` the product is never the sum, but for zero. The cluster is a multiple
`256 * a`, and with it `512 * j - a` is the number of sectors. -/
theorem product_ne_sum (hr : r < 2 ^ 16) (hc : c < 2 ^ 16)
    (h : r * 512 * c * 2 % 2 ^ 32 = r * 512 + 2 * c) : r = 0 ∧ c = 0 := by
  have hfinite : ∀ a < 256, a ≤ 512 * ((512 - a * a % 512) % 512) →
      512 * ((512 - a * a % 512) % 512) * a % 2 ^ 14 =
        ((512 - a * a % 512) % 512 + a * a) % 2 ^ 14 →
      (512 - a * a % 512) % 512 ≤ 128 → a = 0 := by
    decide +kernel
  have hprod : r * 512 * c * 2 = 1024 * (r * c) := by ring
  rw [hprod] at h
  obtain ⟨a, rfl⟩ : 256 ∣ c := by omega
  have hprod : r * (256 * a) = 256 * (r * a) := by ring
  rw [hprod] at h
  obtain ⟨j, hj⟩ : 512 ∣ r + a := by omega
  have hsq : r * a + a * a = 512 * (j * a) := by rw [← Nat.add_mul, hj, Nat.mul_assoc]
  have hjval : j = (512 - a * a % 512) % 512 := by omega
  have ha : a = 0 := hfinite a (by omega) (by omega) (by rw [← hjval, Nat.mul_assoc]; omega) (by omega)
  subst ha
  omega

def Disk.marked (pos : ℕ) : Disk := fun sector i ↦
  if sector * sectorSizeInBytes + i = pos then 1 else 0

theorem marked_byteAt : (Disk.marked p).byteAt q = if q = p then 1 else 0 := by
  rw [Disk.byteAt, Disk.marked, Nat.div_add_mod']

theorem eq_of_byteAt_eq (h : ∀ disk : Disk, ∀ i < 2, disk.byteAt (p + i) = disk.byteAt (q + i)) :
    p = q := by
  have hp := h (Disk.marked p) 0 (by decide)
  rw [Nat.add_zero, Nat.add_zero, marked_byteAt, marked_byteAt, if_pos rfl] at hp
  by_contra hne
  rw [if_neg (Ne.symm hne)] at hp
  exact absurd hp (by decide)

theorem fat16GetEntry_right_iff (hr : pd.header.reservedSectors < 2 ^ 16) (disk : Disk) :
    fat16GetEntry disk pd cluster = disk.word16At (pd.entryPosition cluster) ↔
      ∀ i < 2, disk.byteAt (pd.readPosition cluster + i) = disk.byteAt (pd.entryPosition cluster + i) := by
  rw [fat16GetEntry_reads hr, word16At_inj]

/-- `fat16_get_entry` returns the entry when the disk holds the same word where it reads.
Only the first entry of a table in front of which there is no sector is read from its place. -/
theorem fat16GetEntry_iff (hr : pd.header.reservedSectors < 2 ^ 16) (hc : cluster < 2 ^ 16) :
    (∀ disk : Disk, fat16GetEntry disk pd cluster = disk.word16At (pd.entryPosition cluster) ↔
      ∀ i < 2, disk.byteAt (pd.readPosition cluster + i) = disk.byteAt (pd.entryPosition cluster + i)) ∧
    ((∀ disk : Disk, fat16GetEntry disk pd cluster = disk.word16At (pd.entryPosition cluster)) ↔
      pd.header.reservedSectors = 0 ∧ cluster = 0) := by
  refine ⟨fat16GetEntry_right_iff hr, fun h ↦ ?_, fun ⟨h₁, h₂⟩ disk ↦ ?_⟩
  · have hpos : pd.readPosition cluster = pd.entryPosition cluster :=
      eq_of_byteAt_eq (fun disk ↦ (fat16GetEntry_right_iff hr disk).mp (h disk))
    unfold Fat16PrivateData.readPosition Fat16PrivateData.entryPosition u32 sectorSize
      fat16EntrySize at hpos
    exact product_ne_sum hr hc hpos
  · rw [fat16GetEntry_right_iff hr, Fat16PrivateData.readPosition, Fat16PrivateData.entryPosition,
      h₁, h₂]
    exact fun _ _ ↦ rfl

def bootVolume : Fat16PrivateData where
  header := ⟨0x80, 200, 2, 0x40, 0x100, 0x29⟩
  root := ⟨0, [], 0, 0, 0⟩

theorem fat16GetEntry_iff_blank :
    fat16GetEntry (fun _ _ ↦ 0) bootVolume 2 = Disk.word16At (fun _ _ ↦ 0) (bootVolume.entryPosition 2) :=
  ((@fat16GetEntry_iff bootVolume 2 (by decide) (by decide)).1 _).mpr (fun _ _ ↦ rfl)

theorem entry_not_read :
    Disk.word16At (Disk.marked 102404) (bootVolume.entryPosition 2) = 1 ∧
      fat16GetEntry (Disk.marked 102404) bootVolume 2 = 0 := by
  decide

end GammaOS.Fs
