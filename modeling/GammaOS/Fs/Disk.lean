import GammaOS.Machine
import Mathlib.Data.List.Range
import Mathlib.Tactic.Common

namespace GammaOS.Fs

def sectorSizeInBytes : ℕ := 512

abbrev Disk := ℕ → ℕ → UInt8

def Disk.byteAt (disk : Disk) (pos : ℕ) : UInt8 :=
  disk (pos / sectorSizeInBytes) (pos % sectorSizeInBytes)

/-- What a read of a stream delivers, where it leaves the stream, and the
sectors it asked the drive for. -/
structure StreamRead where
  bytes : List UInt8
  pos : ℕ
  sectors : List ℕ

def streamReadLoop (disk : Disk) : ℕ → ℕ → ℕ → StreamRead
  | 0, pos, _ => ⟨[], pos, []⟩
  | fuel + 1, pos, bytesToRead =>
    let sector := pos / sectorSizeInBytes
    let sectorOffset := pos % sectorSizeInBytes
    let isOverflowing := u32 (sectorOffset + bytesToRead) ≥ sectorSizeInBytes
    let here := if isOverflowing then sectorSizeInBytes - sectorOffset else bytesToRead
    let bytes := (List.range here).map (fun index ↦ disk sector (sectorOffset + index))
    if isOverflowing then
      let rest := streamReadLoop disk fuel (u32 (pos + here)) (bytesToRead - here)
      ⟨bytes ++ rest.bytes, rest.pos, sector :: rest.sectors⟩
    else ⟨bytes, u32 (pos + here), [sector]⟩

/-- Each recursive call has fewer bytes left to read. -/
def diskStreamRead (disk : Disk) (pos bytesToRead : ℕ) : StreamRead :=
  streamReadLoop disk (bytesToRead + 1) pos bytesToRead

variable {disk : Disk}

theorem range_split (f : ℕ → UInt8) {k n : ℕ} (h : k ≤ n) :
    (List.range n).map f =
      (List.range k).map f ++ (List.range (n - k)).map (fun i ↦ f (k + i)) := by
  obtain ⟨m, rfl⟩ := Nat.exists_eq_add_of_le h
  rw [Nat.add_sub_cancel_left, List.range_add, List.map_append, List.map_map]
  rfl

theorem byteAt_sector {pos i : ℕ} (h : pos % sectorSizeInBytes + i < sectorSizeInBytes) :
    disk (pos / sectorSizeInBytes) (pos % sectorSizeInBytes + i) = disk.byteAt (pos + i) := by
  unfold Disk.byteAt
  unfold sectorSizeInBytes at *
  congr 1 <;> omega

theorem streamReadLoop_bytes :
    ∀ fuel pos n, n < fuel → pos % sectorSizeInBytes + n < 2 ^ 32 → pos + n ≤ 2 ^ 32 →
      (streamReadLoop disk fuel pos n).bytes =
        (List.range n).map (fun i ↦ disk.byteAt (pos + i)) := by
  intro fuel
  induction fuel with
  | zero => intro pos n hn; omega
  | succ fuel ih =>
    intro pos n hn hn' hpos
    have hoff : pos % sectorSizeInBytes < sectorSizeInBytes := Nat.mod_lt _ (by decide)
    have hu : u32 (pos % sectorSizeInBytes + n) = pos % sectorSizeInBytes + n := u32_of_lt hn'
    have hhere : ∀ k ≤ sectorSizeInBytes - pos % sectorSizeInBytes,
        (List.range k).map (fun index ↦
          disk (pos / sectorSizeInBytes) (pos % sectorSizeInBytes + index)) =
        (List.range k).map (fun i ↦ disk.byteAt (pos + i)) := by
      intro k hk
      refine List.map_congr_left (fun i hi ↦ byteAt_sector ?_)
      have := List.mem_range.mp hi
      omega
    simp only [streamReadLoop, hu]
    generalize hk : sectorSizeInBytes - pos % sectorSizeInBytes = k at hhere ⊢
    by_cases hov : pos % sectorSizeInBytes + n ≥ sectorSizeInBytes
    · rw [if_pos hov, if_pos hov, range_split _ (show k ≤ n by omega), hhere k (Nat.le_refl k)]
      have hk0 : 0 < k := by omega
      have hnext : ∀ p, p % sectorSizeInBytes + (n - k) < 2 ^ 32 := by
        intro p
        have hp : p % sectorSizeInBytes < sectorSizeInBytes := Nat.mod_lt _ (by decide)
        unfold sectorSizeInBytes at *
        omega
      by_cases htop : pos + k < 2 ^ 32
      · rw [u32_of_lt htop, ih _ _ (by omega) (hnext _) (by omega)]
        simp only [Nat.add_assoc]
      · have hend := hnext (u32 (pos + k))
        rw [show n - k = 0 by omega] at hend ⊢
        rw [ih _ _ (by omega) hend (Nat.le_of_lt (u32_lt _))]
        rfl
    · rw [if_neg hov, if_neg hov]
      exact hhere n (by omega)

theorem streamReadLoop_length :
    ∀ fuel pos n, n < fuel → (streamReadLoop disk fuel pos n).bytes.length = n := by
  intro fuel
  induction fuel with
  | zero => intro pos n hn; omega
  | succ fuel ih =>
    intro pos n hn
    have hoff : pos % sectorSizeInBytes < sectorSizeInBytes := Nat.mod_lt _ (by decide)
    simp only [streamReadLoop]
    by_cases hov : u32 (pos % sectorSizeInBytes + n) ≥ sectorSizeInBytes
    · have hle : sectorSizeInBytes - pos % sectorSizeInBytes ≤ n := by
        unfold u32 at hov
        unfold sectorSizeInBytes at *
        omega
      rw [if_pos hov, if_pos hov]
      simp only [List.length_append, List.length_map, List.length_range]
      rw [ih _ _ (by omega)]
      omega
    · rw [if_neg hov, if_neg hov]
      simp only [List.length_map, List.length_range]

theorem diskStreamRead_length (disk : Disk) (pos n : ℕ) :
    (diskStreamRead disk pos n).bytes.length = n :=
  streamReadLoop_length _ _ _ (Nat.lt_succ_self n)

theorem diskStreamRead_bytes {pos n : ℕ} (hn : n < 2 ^ 31) (hpos : pos + n ≤ 2 ^ 32) :
    (diskStreamRead disk pos n).bytes = (List.range n).map (fun i ↦ disk.byteAt (pos + i)) :=
  streamReadLoop_bytes _ _ _ (Nat.lt_succ_self n) (by
    have hoff : pos % sectorSizeInBytes < sectorSizeInBytes := Nat.mod_lt _ (by decide)
    unfold sectorSizeInBytes at *
    omega) hpos

end GammaOS.Fs
