import GammaOS.Foundation.ByteMemory
import GammaOS.Fs.Disk
import Mathlib.Data.List.Nodup

namespace GammaOS.Fs

open Foundation

variable {disk : Disk} {pos n fuel : ℕ}

theorem streamReadLoop_trace :
    ∀ fuel pos n, n < fuel → pos + n < 2 ^ 32 →
      (streamReadLoop disk fuel pos n).pos = pos + n ∧
      (streamReadLoop disk fuel pos n).sectors =
        List.range' (pos / sectorSizeInBytes)
          ((pos + n) / sectorSizeInBytes - pos / sectorSizeInBytes + 1) := by
  intro fuel
  induction fuel with
  | zero => intro pos n hn; omega
  | succ fuel ih =>
    intro pos n hn hpos
    have hmod := Nat.mod_le pos sectorSizeInBytes
    have hu : u32 (pos % sectorSizeInBytes + n) = pos % sectorSizeInBytes + n :=
      u32_of_lt (by omega)
    have hoff : pos % sectorSizeInBytes < sectorSizeInBytes := Nat.mod_lt _ (by decide)
    simp only [streamReadLoop, hu]
    generalize hk : sectorSizeInBytes - pos % sectorSizeInBytes = k
    by_cases hov : pos % sectorSizeInBytes + n ≥ sectorSizeInBytes
    · have hdiv : (pos + k) / sectorSizeInBytes = pos / sectorSizeInBytes + 1 := by
        unfold sectorSizeInBytes at *
        omega
      have hcount : (pos + n) / sectorSizeInBytes - pos / sectorSizeInBytes + 1 =
          (pos + n) / sectorSizeInBytes - (pos / sectorSizeInBytes + 1) + 1 + 1 := by
        unfold sectorSizeInBytes at *
        omega
      obtain ⟨h₁, h₂⟩ := ih (pos + k) (n - k) (by omega) (by omega)
      rw [if_pos hov, if_pos hov, u32_of_lt (by omega)]
      dsimp only
      rw [h₁, h₂, hdiv, show pos + k + (n - k) = pos + n by omega, hcount]
      exact ⟨rfl, (List.range'_succ).symm⟩
    · have hdiv : (pos + n) / sectorSizeInBytes = pos / sectorSizeInBytes := by
        unfold sectorSizeInBytes at *
        omega
      rw [if_neg hov, if_neg hov, u32_of_lt hpos, hdiv, Nat.sub_self]
      exact ⟨rfl, rfl⟩

theorem u32_add (a b : ℕ) : u32 (u32 a + b) = u32 (a + b) := by
  unfold u32
  omega

/-- A stream read goes on at the start of the disk behind the 4 GiB limit. -/
theorem streamReadLoop_wraps : ∀ fuel pos n, n < fuel → n < 2 ^ 31 → pos < 2 ^ 32 →
    (streamReadLoop disk fuel pos n).pos = u32 (pos + n) ∧
      (streamReadLoop disk fuel pos n).bytes =
        (List.range n).map (fun i ↦ disk.byteAt (u32 (pos + i))) := by
  intro fuel
  induction fuel with
  | zero => intro pos n hn; omega
  | succ fuel ih =>
    intro pos n hn hn' hpos
    have hoff : pos % sectorSizeInBytes < sectorSizeInBytes := Nat.mod_lt _ (by decide)
    have hu : u32 (pos % sectorSizeInBytes + n) = pos % sectorSizeInBytes + n := by
      unfold sectorSizeInBytes at *
      exact u32_of_lt (by omega)
    have hhere : ∀ k ≤ sectorSizeInBytes - pos % sectorSizeInBytes,
        (List.range k).map (fun index ↦
          disk (pos / sectorSizeInBytes) (pos % sectorSizeInBytes + index)) =
        (List.range k).map (fun i ↦ disk.byteAt (u32 (pos + i))) := by
      intro k hk
      refine List.map_congr_left (fun i hi ↦ ?_)
      have hi' := List.mem_range.mp hi
      have hlt : pos + i < 2 ^ 32 := by
        unfold sectorSizeInBytes at *
        omega
      rw [u32_of_lt hlt]
      exact byteAt_sector (by omega)
    simp only [streamReadLoop, hu]
    generalize hk : sectorSizeInBytes - pos % sectorSizeInBytes = k at hhere
    by_cases hov : pos % sectorSizeInBytes + n ≥ sectorSizeInBytes
    · obtain ⟨hp, hb⟩ := ih (u32 (pos + k)) (n - k) (by omega) (by omega) (u32_lt _)
      simp only [if_pos hov]
      rw [hp, hb, range_split _ (show k ≤ n by omega), hhere k (Nat.le_refl k), u32_add]
      refine ⟨congrArg u32 (by omega), ?_⟩
      simp only [u32_add, Nat.add_assoc]
    · simp only [if_neg hov, true_and]
      exact hhere n (by omega)

theorem diskStreamRead_wraps (disk : Disk) (hpos : pos < 2 ^ 32) (hn : n < 2 ^ 31) :
    (diskStreamRead disk pos n).pos = u32 (pos + n) ∧
      (diskStreamRead disk pos n).bytes =
        (List.range n).map (fun i ↦ disk.byteAt (u32 (pos + i))) :=
  streamReadLoop_wraps _ pos n (Nat.lt_succ_self n) hn hpos

theorem streamReadLoop_fuel (hn : n < fuel) (hpos : pos + n < 2 ^ 32) :
    streamReadLoop disk fuel pos n = diskStreamRead disk pos n := by
  have hoff := Nat.mod_le pos sectorSizeInBytes
  have hend : pos % sectorSizeInBytes + n < 2 ^ 32 := by omega
  have hself := Nat.lt_succ_self n
  obtain ⟨h₁, h₂⟩ := @streamReadLoop_trace disk fuel pos n hn hpos
  obtain ⟨h₃, h₄⟩ := @streamReadLoop_trace disk (n + 1) pos n hself hpos
  have h₅ := @streamReadLoop_bytes disk fuel pos n hn hend (by omega)
  have h₆ := @streamReadLoop_bytes disk (n + 1) pos n hself hend (by omega)
  rw [diskStreamRead]
  generalize streamReadLoop disk fuel pos n = r at *
  generalize streamReadLoop disk (n + 1) pos n = r' at *
  cases r
  cases r'
  rw [StreamRead.mk.injEq]
  exact ⟨h₅.trans h₆.symm, h₁.trans h₃.symm, h₂.trans h₄.symm⟩

/-- A stream read below the 4 GiB limit ends, stores the bytes of the disk from
its position on and no others, and leaves the stream behind them. -/
theorem diskStreamRead_exact (hpos : pos + n < 2 ^ 32) :
    (∀ fuel, n < fuel → streamReadLoop disk fuel pos n = diskStreamRead disk pos n) ∧
    (diskStreamRead disk pos n).pos = pos + n ∧
    ∀ (m : ByteMemory) (buffer : ℕ),
      (∀ i < n, m.writeBytes buffer (diskStreamRead disk pos n).bytes (buffer + i) =
        disk.byteAt (pos + i)) ∧
      ∀ a, a < buffer ∨ buffer + n ≤ a →
        m.writeBytes buffer (diskStreamRead disk pos n).bytes a = m a := by
  have hlen := diskStreamRead_length disk pos n
  have hoff := Nat.mod_le pos sectorSizeInBytes
  have hbytes := @streamReadLoop_bytes disk (n + 1) pos n (Nat.lt_succ_self n) (by omega) (by omega)
  refine ⟨fun fuel hn ↦ streamReadLoop_fuel hn hpos,
    (streamReadLoop_trace _ pos n (Nat.lt_succ_self n) hpos).1,
    fun m buffer ↦ ⟨fun i hi ↦ ?_, fun a ha ↦ ?_⟩⟩
  · rw [ByteMemory.writeBytes_inside (hlen.symm ▸ hi), diskStreamRead, hbytes,
      List.getD_eq_getElem?_getD, List.getElem?_map, List.getElem?_range hi]
    rfl
  · exact ByteMemory.writeBytes_outside (hlen.symm ▸ ha)

theorem diskStreamRead_exact_across :
    (diskStreamRead (fun sector i ↦ UInt8.ofNat (sector + i)) 500 30).pos = 530 ∧
      ∀ (m : ByteMemory) (buffer : ℕ), ∀ i < 30, m.writeBytes buffer
        (diskStreamRead (fun sector i ↦ UInt8.ofNat (sector + i)) 500 30).bytes (buffer + i) =
          UInt8.ofNat ((500 + i) / 512 + (500 + i) % 512) := by
  obtain ⟨-, hpos, hbytes⟩ :=
    @diskStreamRead_exact (fun sector i ↦ UInt8.ofNat (sector + i)) 500 30 (by decide)
  exact ⟨hpos, fun m buffer ↦ (hbytes m buffer).1⟩

/-- The sectors asked for are those that hold a byte of the read, each once. -/
def ReadsNeeded (disk : Disk) (pos n : ℕ) : Prop :=
  (diskStreamRead disk pos n).sectors.Nodup ∧
  ∀ sector, sector ∈ (diskStreamRead disk pos n).sectors ↔
    ∃ i < n, (pos + i) / sectorSizeInBytes = sector

/-- A read that takes no byte, or ends at the end of a sector, asks for a sector too many. -/
theorem readsNeeded_iff (hpos : pos + n < 2 ^ 32) :
    ReadsNeeded disk pos n ↔ 0 < n ∧ (pos + n) % sectorSizeInBytes ≠ 0 := by
  have hsectors := (@streamReadLoop_trace disk (n + 1) pos n (Nat.lt_succ_self n) hpos).2
  have hle : pos / sectorSizeInBytes ≤ (pos + n) / sectorSizeInBytes :=
    Nat.div_le_div_right (Nat.le_add_right pos n)
  have hmem : ∀ sector, sector ∈ (diskStreamRead disk pos n).sectors ↔
      pos / sectorSizeInBytes ≤ sector ∧ sector ≤ (pos + n) / sectorSizeInBytes := by
    intro sector
    rw [diskStreamRead, hsectors, List.mem_range'_1]
    omega
  have hnodup : (diskStreamRead disk pos n).sectors.Nodup := by
    rw [diskStreamRead, hsectors]
    exact List.nodup_range'
  constructor
  · rintro ⟨-, h⟩
    -- the last sector asked for holds a byte of the read
    obtain ⟨i, hi, he⟩ := (h _).mp ((hmem _).mpr ⟨hle, Nat.le_refl _⟩)
    unfold sectorSizeInBytes at *
    omega
  · rintro ⟨hn, hend⟩
    refine ⟨hnodup, fun sector ↦ (hmem sector).trans ⟨fun ⟨h₁, h₂⟩ ↦ ?_, fun ⟨i, hi, he⟩ ↦ ?_⟩⟩
    · refine ⟨max pos (sector * sectorSizeInBytes) - pos, ?_, ?_⟩
      all_goals
        unfold sectorSizeInBytes at *
        omega
    · unfold sectorSizeInBytes at *
      omega

theorem readsNeeded_iff_across :
    ReadsNeeded (fun _ _ ↦ 0) 500 30 ↔ 0 < 30 ∧ (500 + 30) % sectorSizeInBytes ≠ 0 :=
  readsNeeded_iff (by decide)

/-- A read of the whole of the first sector asks for the second, too. -/
theorem whole_sector_not_needed :
    (diskStreamRead (fun _ _ ↦ 0) 0 512).sectors = [0, 1] ∧ ¬ ReadsNeeded (fun _ _ ↦ 0) 0 512 := by
  refine ⟨(streamReadLoop_trace _ 0 512 (Nat.lt_succ_self _) (by decide)).2, fun h ↦ ?_⟩
  exact ((readsNeeded_iff (by decide)).mp h).2 rfl

end GammaOS.Fs
