import GammaOS.Fs.Fat16Read

namespace GammaOS.Fs

open Memory

def fatEntry (disk : Disk) (pd : Fat16PrivateData) (cluster : ℕ) : ℕ :=
  let pos := pd.header.reservedSectors * sectorSize + fat16EntrySize * cluster
  (disk.byteAt pos).toNat + 2 ^ 8 * (disk.byteAt (pos + 1)).toNat

def DataCluster (cluster : ℕ) : Prop := 2 ≤ cluster ∧ cluster ≤ 0xFFEF

/-- The clusters of a file, each followed in the first FAT by the next, the
last by an end mark. -/
def IsChain (disk : Disk) (pd : Fat16PrivateData) : List ℕ → Prop
  | [] => False
  | [c] => DataCluster c ∧ 0xFFF8 ≤ fatEntry disk pd c
  | c :: d :: cs => DataCluster c ∧ fatEntry disk pd c = d ∧ IsChain disk pd (d :: cs)

/-- A file of a mounted volume: its chain is long enough for its size. -/
structure StoredFile (disk : Disk) (pd : Fat16PrivateData) (cs : List ℕ) (fileSize : ℕ) : Prop where
  clusters_pos : 1 ≤ pd.header.sectorsPerCluster
  clusters_lt : pd.header.sectorsPerCluster < 2 ^ 8
  chain : IsChain disk pd cs
  long : fileSize ≤ cs.length * pd.clusterSize

def clusterStart (pd : Fat16PrivateData) (cluster : ℕ) : ℕ :=
  (pd.root.lastSector + 1 + (cluster - 2) * pd.header.sectorsPerCluster) * sectorSize

def chainByte (disk : Disk) (pd : Fat16PrivateData) (cs : List ℕ) (i : ℕ) : UInt8 :=
  disk.byteAt (clusterStart pd (cs.getD (i / pd.clusterSize) 0) + i % pd.clusterSize)

def ReadsBack (disk : Disk) (pd : Fat16PrivateData) (cs : List ℕ) (offset size : ℕ) : Prop :=
  fat16ReadFromDisk disk pd (cs.headD 0) offset size =
    .ok ((success : ℤ), (List.range size).map (fun i ↦ chainByte disk pd cs (offset + i)))

/-- The read starts in the first cluster, takes at most a cluster, goes on at
most into a second cluster that lies behind the first, and ends below 4 GiB. -/
def NearStart (pd : Fat16PrivateData) (cs : List ℕ) (offset size : ℕ) : Prop :=
  (offset + size ≤ pd.clusterSize ∨
    (offset < pd.clusterSize ∧ size ≤ pd.clusterSize ∧ cs[1]? = some (cs.headD 0 + 1))) ∧
  clusterStart pd (cs.headD 0) + offset + size ≤ 2 ^ 32

variable {disk : Disk} {pd : Fat16PrivateData} {cs : List ℕ} {c offset size fileSize : ℕ}

theorem IsChain.head (h : IsChain disk pd cs) : DataCluster (cs.headD 0) := by
  cases cs with
  | nil => exact h.elim
  | cons c cs =>
    cases cs with
    | nil => exact h.1
    | cons d cs => exact h.1

theorem ofInt32_toInt32 {n : ℕ} (h : n < 2 ^ 32) : ofInt32 (toInt32 n) = n := by
  unfold ofInt32 toInt32
  rw [u32_of_lt h]
  split <;> omega

theorem clusterToSector_start (hc : 2 ≤ c) (hlt : c < 2 ^ 32) (h : clusterStart pd c < 2 ^ 32) :
    fat16ClusterToSector pd c * sectorSize = clusterStart pd c := by
  have hsub : subU32 c 2 = c - 2 := by
    unfold subU32 u32
    omega
  unfold fat16ClusterToSector clusterStart
  unfold clusterStart at h
  rw [hsub]
  generalize (c - 2) * pd.header.sectorsPerCluster = k at h ⊢
  unfold sectorSize at *
  rw [u32_of_lt (by omega)]
  omega

theorem clusterStart_next (hc : 2 ≤ c) :
    clusterStart pd (c + 1) = clusterStart pd c + pd.clusterSize := by
  unfold clusterStart Fat16PrivateData.clusterSize
  rw [show c + 1 - 2 = c - 2 + 1 by omega, Nat.add_mul (c - 2) 1, Nat.one_mul, ← Nat.add_assoc,
    Nat.add_mul _ pd.header.sectorsPerCluster]

theorem fat16ReadFromDisk_small (hpos : pd.clusterSize ≠ 0) (hs : size ≤ pd.clusterSize) :
    fat16ReadFromDisk disk pd c offset size =
      .ok ((success : ℤ), (diskStreamRead disk (u32 (fat16ClusterToSector pd
        (ofInt32 (fat16FollowChain (fat16GetEntry disk pd) (offset / pd.clusterSize) c)) *
        sectorSize + offset))
        size).bytes) := by
  have hd : ¬ size - size > 0 := by omega
  simp only [fat16ReadFromDisk, fat16ReadLoop, fat16GetClusterFromOffset,
    fat16ClusterFromOffset, if_neg hpos,
    if_neg (show ¬ size > pd.clusterSize by omega), if_neg hd, if_neg (not_ofInt32_neg _), bind,
    Except.bind, pure, Except.pure]

theorem StoredFile.clusterSize_pos (h : StoredFile disk pd cs fileSize) :
    0 < pd.clusterSize ∧ pd.clusterSize < 2 ^ 31 := by
  have h₁ := h.clusters_pos
  have h₂ := h.clusters_lt
  unfold Fat16PrivateData.clusterSize sectorSize
  omega

theorem NearStart.chainByte_eq (h : NearStart pd cs offset size) (hf : StoredFile disk pd cs fileSize)
    {i : ℕ} (hi : i < size) :
    chainByte disk pd cs (offset + i) = disk.byteAt (clusterStart pd (cs.headD 0) + offset + i) := by
  obtain ⟨hpos, -⟩ := hf.clusterSize_pos
  have hhead : cs.getD 0 0 = cs.headD 0 := by cases cs <;> rfl
  unfold chainByte
  by_cases hin : offset + i < pd.clusterSize
  · rw [Nat.div_eq_of_lt hin, Nat.mod_eq_of_lt hin, hhead, Nat.add_assoc]
  · rcases h.1 with hle | ⟨ho, hs, hnext⟩
    · omega
    · have hdiv : (offset + i) / pd.clusterSize = 1 :=
        Nat.div_eq_of_lt_le (by omega) (by omega)
      have hmod : (offset + i) % pd.clusterSize = offset + i - pd.clusterSize := by
        rw [Nat.mod_eq_sub_mod (by omega), Nat.mod_eq_of_lt (by omega)]
      have hsecond : cs.getD 1 0 = cs.headD 0 + 1 := by
        rw [List.getD_eq_getElem?_getD, hnext, Option.getD_some]
      rw [hdiv, hmod, hsecond, clusterStart_next hf.chain.head.1]
      congr 1
      omega

theorem StoredFile.readsBack (hf : StoredFile disk pd cs fileSize)
    (h : size = 0 ∨ NearStart pd cs offset size) : ReadsBack disk pd cs offset size := by
  obtain ⟨hpos, hlt⟩ := hf.clusterSize_pos
  unfold ReadsBack
  by_cases h0 : size = 0
  · subst h0
    have hle : ∀ p, u32 p + 0 ≤ 2 ^ 32 := fun p ↦ Nat.le_of_lt (u32_lt p)
    rw [fat16ReadFromDisk_small (by omega) (Nat.zero_le _), diskStreamRead_bytes (by decide) (hle _)]
    simp only [List.range_zero, List.map_nil]
  · have hn := h.resolve_left h0
    have hnear := hn.1
    have htop := hn.2
    have hhead := hf.chain.head
    have hs : size ≤ pd.clusterSize := by omega
    have hk : offset / pd.clusterSize = 0 := Nat.div_eq_of_lt (by omega)
    have hc : cs.headD 0 < 2 ^ 32 := by
      have := hhead.2
      omega
    rw [fat16ReadFromDisk_small (by omega) hs, hk, fat16FollowChain, ofInt32_toInt32 hc,
      clusterToSector_start hhead.1 hc (by omega), u32_of_lt (by omega),
      diskStreamRead_bytes (by omega) htop]
    refine congrArg (fun bytes ↦ Except.ok ((success : ℤ), bytes))
      (List.map_congr_left (fun i hi ↦ ?_))
    exact (hn.chainByte_eq hf (List.mem_range.mp hi)).symm

/-- A read of a stored file near its start delivers the bytes of the file. -/
theorem readsBack_of_nearStart (hf : StoredFile disk pd cs fileSize)
    (h : size = 0 ∨ NearStart pd cs offset size) : ReadsBack disk pd cs offset size :=
  hf.readsBack h

def smallVolume : Fat16PrivateData := ⟨⟨1, 1, 1, 16, 1, 0x29⟩, ⟨0, [], 0, 2, 2⟩⟩

def fragmentedDisk : Disk := fun sector i ↦
  if sector = 1 then (if i = 4 then 4 else if i = 8 ∨ i = 9 then 0xFF else 0)
  else if sector = 5 then 7 else 0

theorem fragmentedDisk_stored : StoredFile fragmentedDisk smallVolume [2, 4] 1024 where
  clusters_pos := by decide
  clusters_lt := by decide
  chain := ⟨⟨by decide, by decide⟩, by decide, ⟨by decide, by decide⟩, by decide⟩
  long := by decide

theorem readsBack_of_nearStart_fragmented : ReadsBack fragmentedDisk smallVolume [2, 4] 100 8 :=
  readsBack_of_nearStart fragmentedDisk_stored (by unfold NearStart; decide)

/-- The first byte of the second cluster is not read back, and neither are the
two bytes across the end of the first. -/
theorem fragmented_not_readBack :
    StoredFile fragmentedDisk smallVolume [2, 4] 1024 ∧
      ¬ ReadsBack fragmentedDisk smallVolume [2, 4] 512 1 ∧
      ¬ ReadsBack fragmentedDisk smallVolume [2, 4] 511 2 :=
  ⟨fragmentedDisk_stored, by unfold ReadsBack; decide, by unfold ReadsBack; decide⟩

end GammaOS.Fs
