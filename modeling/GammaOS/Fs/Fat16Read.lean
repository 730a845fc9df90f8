import GammaOS.Fs.Disk
import GammaOS.Memory.Arena

namespace GammaOS.Fs

open Memory

def fat16EntrySize : ℕ := 2
def fat16BadSector : ℕ := 0xFF7

structure Fat16Header where
  sectorsPerCluster : ℕ
  reservedSectors : ℕ
  fatCopies : ℕ
  rootDirEntries : ℕ
  sectorsPerFat : ℕ
  signature : ℕ

/-- `struct fat16_directory`: the address of its array of files, the bytes that
were read into the array, and where the directory lies on the disk. -/
structure Fat16Directory where
  files : ℕ
  image : List UInt8
  totalFiles : ℕ
  firstSector : ℕ
  lastSector : ℕ

structure Fat16PrivateData where
  header : Fat16Header
  root : Fat16Directory

def sectorSize : ℕ := 512

def Fat16PrivateData.clusterSize (pd : Fat16PrivateData) : ℕ :=
  pd.header.sectorsPerCluster * sectorSize

def fat16GetEntry (disk : Disk) (pd : Fat16PrivateData) (cluster : ℕ) : ℕ :=
  let tablePosition := u32 (pd.header.reservedSectors * sectorSize)
  let bytes := (diskStreamRead disk (u32 (tablePosition * cluster * fat16EntrySize)) 2).bytes
  (bytes.getD 0 0).toNat + 2 ^ 8 * (bytes.getD 1 0).toNat

/-- The loop of `fat16_get_cluster_from_offset` with `n` entries left to follow,
over whatever `fat16_get_entry` returns. -/
def fat16FollowChain (getEntry : ℕ → ℕ) : ℕ → ℕ → ℤ
  | 0, currentCluster => toInt32 currentCluster
  | n + 1, currentCluster =>
    let entry := getEntry currentCluster
    if entry = 0xFF8 ∨ entry = 0xFFF then -errInvarg
    else if entry = fat16BadSector then -errInvarg
    else if entry = 0xFF0 ∨ entry = 0xFF6 then -errInvarg
    else if entry = 0 then -errInvarg
    else fat16FollowChain getEntry n entry

def fat16ClusterFromOffset (getEntry : ℕ → ℕ) (clusterSize cluster offset : ℕ) : Except Fault ℤ :=
  if clusterSize = 0 then .error .divideError
  else .ok (fat16FollowChain getEntry (offset / clusterSize) cluster)

def fat16GetClusterFromOffset (disk : Disk) (pd : Fat16PrivateData) (cluster offset : ℕ) :
    Except Fault ℤ :=
  fat16ClusterFromOffset (fat16GetEntry disk pd) pd.clusterSize cluster offset

def fat16ClusterToSector (pd : Fat16PrivateData) (cluster : ℕ) : ℕ :=
  u32 (pd.root.lastSector + subU32 cluster 2 * pd.header.sectorsPerCluster + 1)

/-- `fat16_read_from_disk` with a bound on its recursive calls. It returns its
status and the bytes it stores. The result of the chain walk is tested as an
unsigned value, and the status of the recursive call is dropped. -/
def fat16ReadLoop (disk : Disk) (pd : Fat16PrivateData) (firstCluster : ℕ) :
    ℕ → ℕ → ℕ → Except Fault (ℤ × List UInt8)
  | 0, _, _ => .error .loop
  | fuel + 1, offset, size => do
    let cluster ← fat16GetClusterFromOffset disk pd firstCluster offset
    let currentCluster := ofInt32 cluster
    if (currentCluster : ℤ) < 0 then pure (-errInvarg, [])
    else
      let firstSector := fat16ClusterToSector pd currentCluster
      let positionInSector := u32 (firstSector * sectorSize + offset)
      let sizeReadable := if size > pd.clusterSize then pd.clusterSize else size
      let bytes := (diskStreamRead disk positionInSector sizeReadable).bytes
      if size - sizeReadable > 0 then do
        let rest ← fat16ReadLoop disk pd firstCluster fuel (u32 (offset + sizeReadable))
          (size - sizeReadable)
        pure ((success : ℤ), bytes ++ rest.2)
      else pure ((success : ℤ), bytes)

def fat16ReadFromDisk (disk : Disk) (pd : Fat16PrivateData) (firstCluster offset size : ℕ) :
    Except Fault (ℤ × List UInt8) :=
  fat16ReadLoop disk pd firstCluster (size + 1) offset size

theorem not_ofInt32_neg (cluster : ℤ) : ¬ ((ofInt32 cluster : ℕ) : ℤ) < 0 :=
  Int.not_lt.mpr (Int.natCast_nonneg _)

theorem fat16ReadLoop_result {disk : Disk} {pd : Fat16PrivateData} {firstCluster : ℕ} :
    ∀ fuel offset size {status : ℤ} {bytes : List UInt8},
      fat16ReadLoop disk pd firstCluster fuel offset size = .ok (status, bytes) →
        status = (success : ℤ) ∧ bytes.length = size := by
  intro fuel
  induction fuel with
  | zero => intro offset size status bytes h; cases h
  | succ fuel ih =>
    intro offset size status bytes h
    rw [fat16ReadLoop] at h
    cases hc : fat16GetClusterFromOffset disk pd firstCluster offset with
    | error e => simp [hc, bind, Except.bind] at h
    | ok c =>
      simp only [hc, bind, Except.bind, pure, Except.pure, if_neg (not_ofInt32_neg c)] at h
      generalize hk : (if size > pd.clusterSize then pd.clusterSize else size) = k at h
      have hle : k ≤ size := by
        rw [← hk]
        split <;> omega
      by_cases hmore : size - k > 0
      · rw [if_pos hmore] at h
        cases hr : fat16ReadLoop disk pd firstCluster fuel (u32 (offset + k)) (size - k) with
        | error e => simp [hr] at h
        | ok rest =>
          simp only [hr, Except.ok.injEq, Prod.mk.injEq] at h
          obtain ⟨rfl, rfl⟩ := h
          refine ⟨rfl, ?_⟩
          rw [List.length_append, diskStreamRead_length, (ih _ _ hr).2]
          omega
      · rw [if_neg hmore, Except.ok.injEq, Prod.mk.injEq] at h
        obtain ⟨rfl, rfl⟩ := h
        refine ⟨rfl, ?_⟩
        rw [diskStreamRead_length]
        omega

theorem fat16ReadFromDisk_length {disk : Disk} {pd : Fat16PrivateData} {status : ℤ}
    {firstCluster offset size : ℕ} {bytes : List UInt8}
    (h : fat16ReadFromDisk disk pd firstCluster offset size = .ok (status, bytes)) :
    bytes.length = size :=
  (fat16ReadLoop_result _ _ _ h).2

theorem fat16ReadFromDisk_status {disk : Disk} {pd : Fat16PrivateData} {status : ℤ}
    {firstCluster offset size : ℕ} {bytes : List UInt8}
    (h : fat16ReadFromDisk disk pd firstCluster offset size = .ok (status, bytes)) :
    status = (success : ℤ) :=
  (fat16ReadLoop_result _ _ _ h).1

theorem fat16ReadLoop_total {disk : Disk} {pd : Fat16PrivateData} (firstCluster : ℕ)
    (hpos : pd.clusterSize ≠ 0) : ∀ fuel offset size, size < fuel →
      ∃ bytes, fat16ReadLoop disk pd firstCluster fuel offset size =
        .ok ((success : ℤ), bytes) := by
  intro fuel
  induction fuel with
  | zero => intro offset size h; omega
  | succ fuel ih =>
    intro offset size hsize
    simp only [fat16ReadLoop, fat16GetClusterFromOffset, fat16ClusterFromOffset, if_neg hpos, bind,
      Except.bind, if_neg (not_ofInt32_neg _)]
    generalize hk : (if size > pd.clusterSize then pd.clusterSize else size) = k
    by_cases hmore : size - k > 0
    · have hlt : size - k < fuel := by
        split at hk <;> omega
      obtain ⟨rest, hrest⟩ := ih (u32 (offset + k)) (size - k) hlt
      rw [if_pos hmore, hrest]
      exact ⟨_, rfl⟩
    · rw [if_neg hmore]
      exact ⟨_, rfl⟩

theorem fat16ReadFromDisk_total {disk : Disk} {pd : Fat16PrivateData} (firstCluster : ℕ)
    (hpos : pd.clusterSize ≠ 0) (offset size : ℕ) :
    ∃ bytes, fat16ReadFromDisk disk pd firstCluster offset size = .ok ((success : ℤ), bytes) ∧
      bytes.length = size := by
  obtain ⟨bytes, h⟩ := fat16ReadLoop_total firstCluster hpos _ offset size (Nat.lt_succ_self size)
  exact ⟨bytes, h, fat16ReadFromDisk_length h⟩

end GammaOS.Fs
