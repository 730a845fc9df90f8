import GammaOS.Fs.Fat16Faults
import GammaOS.Fs.ReadStores
import GammaOS.Fs.RootScan

namespace GammaOS.Fs

open Function Foundation Foundation.Program Memory

def volumeSectors (disk : Disk) : ℕ :=
  let b := zeroPadded (diskStreamRead disk 0 62).bytes
  if b.load16 19 ≠ 0 then b.load16 19 else b.load32 32

def Fat16Header.dataSector (header : Fat16Header) : ℕ :=
  header.rootSector + header.rootSectorsOccupied

def InsideVolume (disk : Disk) (cluster : ℕ) : Prop :=
  1 ≤ (volumeHeader disk).sectorsPerCluster ∧
    (volumeHeader disk).dataSector + (cluster - 1) * (volumeHeader disk).sectorsPerCluster ≤
      volumeSectors disk

def dataClusters (disk : Disk) : ℕ :=
  (volumeSectors disk - (volumeHeader disk).dataSector) / (volumeHeader disk).sectorsPerCluster

structure Fat16Header.Bounded (header : Fat16Header) : Prop where
  sectorsPerCluster : header.sectorsPerCluster < 2 ^ 8
  reservedSectors : header.reservedSectors < 2 ^ 16
  fatCopies : header.fatCopies < 2 ^ 8
  rootDirEntries : header.rootDirEntries < 2 ^ 16
  sectorsPerFat : header.sectorsPerFat < 2 ^ 16

theorem header_bounded (b : ByteMemory) : (Fat16Header.ofBytes b).Bounded where
  sectorsPerCluster := UInt8.toNat_lt _
  reservedSectors := b.load16_lt 14
  fatCopies := UInt8.toNat_lt _
  rootDirEntries := b.load16_lt 17
  sectorsPerFat := b.load16_lt 22

variable {disk : Disk} {pd : Fat16PrivateData} {header : Fat16Header} {cluster : ℕ}

theorem Fat16Header.Bounded.dataSector_lt (h : header.Bounded) : header.dataSector < 2 ^ 25 := by
  have hproduct : header.fatCopies * header.sectorsPerFat ≤ 2 ^ 8 * 2 ^ 16 :=
    Nat.mul_le_mul (Nat.le_of_lt h.fatCopies) (Nat.le_of_lt h.sectorsPerFat)
  have hreserved := h.reservedSectors
  have hentries := h.rootDirEntries
  have hoccupied : header.rootSectorsOccupied ≤ 2 ^ 13 := by
    unfold Fat16Header.rootSectorsOccupied sectorSize
    split <;> omega
  unfold Fat16Header.dataSector Fat16Header.rootSector
  rw [u32_of_lt (by omega)]
  omega

theorem Mounted.clusterToSector (h : Mounted disk pd) (hc : 2 ≤ cluster) (hlt : cluster < 2 ^ 16) :
    fat16ClusterToSector pd cluster = (volumeHeader disk).dataSector +
      (cluster - 2) * (volumeHeader disk).sectorsPerCluster := by
  have hb : (volumeHeader disk).Bounded := header_bounded _
  have hdata := hb.dataSector_lt
  have hsub : subU32 cluster 2 = cluster - 2 := by
    unfold subU32 u32
    omega
  have hproduct : (cluster - 2) * (volumeHeader disk).sectorsPerCluster ≤ 2 ^ 16 * 2 ^ 8 :=
    Nat.mul_le_mul (by omega) (Nat.le_of_lt hb.sectorsPerCluster)
  have hlast := h.lastSector
  rw [h.header, ← Fat16Header.dataSector] at hlast
  rw [fat16ClusterToSector, hlast, hsub, h.header]
  generalize (cluster - 2) * (volumeHeader disk).sectorsPerCluster = k at *
  generalize (volumeHeader disk).dataSector = d at *
  unfold subU32 u32
  omega

theorem clusterSize_ne_zero (h : 1 ≤ pd.header.sectorsPerCluster) : pd.clusterSize ≠ 0 := by
  unfold Fat16PrivateData.clusterSize sectorSize
  omega

theorem Mounted.clusterToSector_zero (h : Mounted disk pd)
    (hzero : (volumeHeader disk).sectorsPerCluster = 0) (cluster : ℕ) :
    fat16ClusterToSector pd cluster = (volumeHeader disk).dataSector := by
  have hdata := (show (volumeHeader disk).Bounded from header_bounded _).dataSector_lt
  have hlast := h.lastSector
  rw [h.header, ← Fat16Header.dataSector] at hlast
  rw [fat16ClusterToSector, hlast, h.header, hzero, Nat.mul_zero]
  generalize (volumeHeader disk).dataSector = d at *
  unfold subU32 u32
  omega

theorem Mounted.positions_iff (h : Mounted disk pd) :
    (∀ cluster, 2 ≤ cluster → cluster ≤ 0xFFEF → InsideVolume disk cluster →
      fat16ClusterToSector pd cluster * sectorSize < 2 ^ 32) ↔
    (dataClusters disk ≠ 0 → (volumeHeader disk).dataSector +
      min (dataClusters disk - 1) 0xFFED * (volumeHeader disk).sectorsPerCluster < 2 ^ 23) := by
  have hsector := fun cluster ↦ @Mounted.clusterToSector disk pd cluster h
  have hle := Nat.div_mul_le_self (volumeSectors disk - (volumeHeader disk).dataSector)
    (volumeHeader disk).sectorsPerCluster
  have hnone := Nat.div_zero (volumeSectors disk - (volumeHeader disk).dataSector)
  unfold dataClusters InsideVolume sectorSize
  generalize (volumeHeader disk).dataSector = d at *
  generalize (volumeHeader disk).sectorsPerCluster = k at *
  constructor
  · intro hall hn
    rcases Nat.eq_zero_or_pos k with rfl | hpos
    · exact absurd hnone hn
    generalize (volumeSectors disk - d) / k = n at *
    have hmin : (min (n - 1) 0xFFED + 2 - 1) * k ≤ n * k := Nat.mul_le_mul_right k (by omega)
    have hone : 1 * k ≤ n * k := Nat.mul_le_mul_right k (by omega)
    have hp := hall (min (n - 1) 0xFFED + 2) (by omega) (by omega) ⟨hpos, by omega⟩
    rw [hsector _ (by omega) (by omega), Nat.add_sub_cancel] at hp
    omega
  · rintro hlast cluster h₂ htop ⟨hpos, hin⟩
    have hn : cluster - 1 ≤ (volumeSectors disk - d) / k := 
      (Nat.le_div_iff_mul_le hpos).mpr (by omega)
    have hp := hlast (by omega)
    have hmin : (cluster - 2) * k ≤ min ((volumeSectors disk - d) / k - 1) 0xFFED * k :=
      Nat.mul_le_mul_right k (by omega)
    rw [hsector _ h₂ (by omega)]
    omega

variable {σ : Type} [Allocator σ] {s s' : Arena σ}

theorem fat16ReadFromDisk_divides (h : pd.clusterSize = 0) (firstCluster offset size : ℕ) :
    fat16ReadFromDisk disk pd firstCluster offset size = .error .divideError := by
  rw [fat16ReadFromDisk, fat16ReadLoop, fat16GetClusterFromOffset, fat16ClusterFromOffset, if_pos h]
  rfl

omit [Allocator σ] in
theorem read_divides {v : Fat16Volume} (hsize : v.pd.clusterSize = 0)
    {handle size nmemb out : ℕ}
    {d : Drive σ Fat16Files} {addr q position : ℕ} {file : Fat16File}
    (hfd : d.files handle = some ⟨⟨addr, .file (some (q, file))⟩, position⟩) (hn : nmemb ≠ 0) :
    fat16Read v handle size nmemb out d = .error .divideError := by
  obtain ⟨n, rfl⟩ := Nat.exists_eq_succ_of_ne_zero hn
  have hhandle : handleAt handle d = .ok (⟨⟨addr, .file (some (q, file))⟩, position⟩, d) := by
    rw [handleAt, hfd]
  have hmembers : readMembers v file size (n + 1) position out 0 d.arena = .error .divideError := by
    rw [readMembers, fat16ReadFromDisk_divides hsize]
    rfl
  rw [fat16Read, bind_run_ok hhandle]
  refine bind_run_error ?_
  rw [onArena, onPart, hmembers]

def oneFileDisk (sectorsPerCluster : UInt8) : Disk := fun sector i ↦
  match sector with
  | 0 => (List.replicate 13 (0 : UInt8) ++ [sectorsPerCluster, 1, 0, 1, 16, 0, 64, 0, 0, 1, 0] ++
      List.replicate 14 0 ++ [0x29]).getD i 0
  | 2 => ((70 : UInt8) :: List.replicate 10 0x20 ++ List.replicate 15 0 ++ [2, 0, 1, 0, 0, 0]).getD i 0
  | _ => 0

def oneFileEntry : Fat16File := ⟨70 :: List.replicate 7 0x20, List.replicate 3 0x20, 0, 0, 2, 1⟩

def oneFileData (sectorsPerCluster : UInt8) (files : ℕ) : Fat16PrivateData where
  header := ⟨sectorsPerCluster.toNat, 1, 1, 16, 1, 0x29⟩
  root := ⟨files, (diskStreamRead (oneFileDisk sectorsPerCluster) 1024 512).bytes, 1, 2, 2⟩

theorem bootRecord_resolved [RoomyAllocator σ] {k : UInt8} {totalFiles : ℕ}
    (hboot : disk 0 = oneFileDisk k 0) (htotal : fat16TotalFilesInDirectory disk 2 = .ok totalFiles)
    (n : ℕ) : Total (Arena.HasRoom (σ := σ) (n + 7)) (fat16Resolve disk)
      (fun pd s ↦ (∃ files, pd = some ⟨⟨k.toNat, 1, 1, 16, 1, 0x29⟩,
        ⟨files, (diskStreamRead disk 1024 512).bytes, totalFiles, 2, 2⟩⟩) ∧ s.HasRoom n) := by
  have hbytes : (diskStreamRead disk 0 62).bytes = (diskStreamRead (oneFileDisk k) 0 62).bytes := by
    rw [diskStreamRead_bytes (by decide) (by decide), diskStreamRead_bytes (by decide) (by decide)]
    refine List.map_congr_left (fun i hi ↦ ?_)
    have hsector : (0 + i) / sectorSizeInBytes = 0 := by
      have hi' := List.mem_range.mp hi
      unfold sectorSizeInBytes
      omega
    rw [Disk.byteAt, Disk.byteAt, hsector, hboot]
  have hheader : Fat16Header.ofBytes (zeroPadded (diskStreamRead disk 0 62).bytes) =
      ⟨k.toNat, 1, 1, 16, 1, 0x29⟩ := by
    rw [hbytes]
    rfl
  have hsector : u32 (1 * 1 + 1) = 2 := rfl
  have hlast : subU32 (u32 (2 + (16 * 32 / sectorSize + if 16 * 32 % sectorSize ≠ 0 then 1 else 0))) 1 =
      2 := by decide
  have h := fat16Resolve_total (σ := σ) disk _ hheader rfl hsector (Nat.zero_lt_succ 511)
    (by show 512 ≤ pageSize; decide) htotal n
  dsimp only at h
  rw [hlast] at h
  exact h

theorem oneFileDisk_resolved [RoomyAllocator σ] (k : UInt8) (n : ℕ) :
    Total (Arena.HasRoom (σ := σ) (n + 7)) (fat16Resolve (oneFileDisk k))
      (fun pd s ↦ (∃ files, pd = some (oneFileData k files)) ∧ s.HasRoom n) := by
  have htotal : fat16TotalFilesInDirectory (oneFileDisk k) 2 = .ok 1 := by
    refine totalFiles_eq_ok.mpr ⟨1, ⟨rfl, fun i hi ↦ ?_⟩, rfl⟩
    rw [Nat.lt_one_iff.mp hi]
    exact (by decide : (70 : UInt8) ≠ 0)
  exact bootRecord_resolved rfl htotal n

set_option maxRecDepth 3000 in
theorem oneFileRoot_entry (k : UInt8) (files : ℕ) :
    HasEntry (oneFileData k files).root [70] oneFileEntry := by
  have hread := @diskStreamRead_bytes (oneFileDisk k) 1024 512 (by decide) (by decide)
  have hentry : ∀ alien, (oneFileData k files).root.fileAt alien 0 = oneFileEntry :=
    fun alien ↦ (fileAt_read alien hread (by decide)).trans rfl
  refine ⟨0, Nat.one_pos, fun alien ↦ ⟨hentry alien, fun j hj ↦ ?_⟩⟩
  rw [Nat.lt_one_iff.mp hj, hentry]
  decide +kernel

end GammaOS.Fs
