import GammaOS.Loader.FileVolume

namespace GammaOS.Loader

open Function Foundation Foundation.Program Memory Fs

def gshellUnits : List (List UInt8) :=
  [[117, 115, 114, 115, 112, 99], [103, 115, 104, 101, 108, 108], [109, 97, 105, 110, 46, 111]]

def entryBytes (name : List UInt8) (attributes cluster size : UInt8) : List UInt8 :=
  name ++ [attributes] ++ List.replicate 14 0 ++ [cluster, 0] ++ [size, 0, 0, 0]

/-- A disk with a FAT16 file system: the shell is the file `usrspc/gshell/main.o`,
and the program the file `f`, each of 92 bytes. -/
def shellDisk (shell program : List UInt8) : Disk := fun sector i ↦
  match sector with
  | 0 => (List.replicate 13 (0 : UInt8) ++ [1, 1, 0, 1, 16, 0, 0, 0, 0, 1, 0] ++ List.replicate 14 0 ++
      [0x29]).getD i 0
  | 1 => if 4 ≤ i ∧ i < 12 then 0xFF else 0
  | 2 => (entryBytes [85, 83, 82, 83, 80, 67, 32, 32, 32, 32, 32] 0x10 2 0 ++
      entryBytes [70, 32, 32, 32, 32, 32, 32, 32, 32, 32, 32] 0 5 92).getD i 0
  | 3 => (entryBytes [71, 83, 72, 69, 76, 76, 32, 32, 32, 32, 32] 0x10 3 0).getD i 0
  | 4 => (entryBytes [77, 65, 73, 78, 32, 32, 32, 32, 79, 32, 32] 0 4 92).getD i 0
  | 5 => shell.getD i 0
  | 6 => program.getD i 0
  | _ => 0

def shellVolume (shell program : List UInt8) (files : ℕ) : Fat16Volume where
  disk := shellDisk shell program
  pd := ⟨⟨1, 1, 1, 16, 1, 0x29⟩,
    ⟨files, (diskStreamRead (shellDisk shell program) 1024 512).bytes, 2, 2, 2⟩⟩

variable {shell program : List UInt8} {files : ℕ}

def usrspcEntry : Fat16File := ⟨[85, 83, 82, 83, 80, 67, 32, 32], [32, 32, 32], 0x10, 0, 2, 0⟩
def gshellEntry : Fat16File := ⟨[71, 83, 72, 69, 76, 76, 32, 32], [32, 32, 32], 0x10, 0, 3, 0⟩
def mainEntry : Fat16File := ⟨[77, 65, 73, 78, 32, 32, 32, 32], [79, 32, 32], 0, 0, 4, 92⟩
def programEntry : Fat16File := ⟨70 :: List.replicate 7 32, [32, 32, 32], 0, 0, 5, 92⟩

set_option maxRecDepth 3000 in
theorem shellRoot_fileAt {alien : ByteMemory} :
    (shellVolume shell program files).pd.root.fileAt alien 0 = usrspcEntry ∧
      (shellVolume shell program files).pd.root.fileAt alien 1 = programEntry := by
  have hread := @diskStreamRead_bytes (shellDisk shell program) 1024 512 (by decide) (by decide)
  rw [fileAt_read alien hread (by decide), fileAt_read alien hread (by decide)]
  exact ⟨rfl, rfl⟩

theorem shellVolume_clusterSize : (shellVolume shell program files).pd.clusterSize = 512 := by
  show 1 * sectorSize = 512
  decide

theorem shellVolume_start {c : ℕ} (h₂ : 2 ≤ c) :
    clusterStart (shellVolume shell program files).pd c = (c + 1) * 512 := by
  show (2 + 1 + (c - 2) * 1) * 512 = (c + 1) * 512
  omega

theorem shellDisk_byteAt {sector i : ℕ} (hi : i < 512) :
    (shellDisk shell program).byteAt (sector * 512 + i) = shellDisk shell program sector i := by
  have hdiv : (sector * 512 + i) / sectorSizeInBytes = sector := by
    unfold sectorSizeInBytes
    omega
  have hmod : (sector * 512 + i) % sectorSizeInBytes = i := by
    unfold sectorSizeInBytes
    omega
  rw [Disk.byteAt, hdiv, hmod]

theorem shellVolume_stored {c size : ℕ} (h₂ : 2 ≤ c) (h₅ : c ≤ 5) (hsize : size ≤ 512) :
    StoredFile (shellVolume shell program files).disk (shellVolume shell program files).pd
      [c] size := by
  have hfat : ∀ i, 4 ≤ i → i < 12 → (shellDisk shell program).byteAt (1 * 512 + i) = 0xFF := by
    intro i h₁ h₂
    rw [shellDisk_byteAt (by omega)]
    exact if_pos ⟨h₁, h₂⟩
  have hentry : fatEntry (shellVolume shell program files).disk (shellVolume shell program files).pd
      c = 0xFFFF := by
    have hlow := hfat (2 * c) (by omega) (by omega)
    have hhigh := hfat (2 * c + 1) (by omega) (by omega)
    show ((shellDisk shell program).byteAt (1 * 512 + 2 * c)).toNat + 2 ^ 8 *
      ((shellDisk shell program).byteAt (1 * 512 + 2 * c + 1)).toNat = 0xFFFF
    rw [Nat.add_assoc (1 * 512), hlow, hhigh]
    rfl
  refine ⟨Nat.le_refl 1, Nat.one_lt_two_pow (by decide), ⟨⟨h₂, by omega⟩, ?_⟩, ?_⟩
  · rw [hentry]
    decide
  · show size ≤ 1 * (1 * 512)
    omega

theorem shellVolume_near {c size : ℕ} (h₂ : 2 ≤ c) (h₅ : c ≤ 5) (hsize : size ≤ 512) :
    NearStart (shellVolume shell program files).pd [c] 0 size := by
  rw [NearStart, shellVolume_clusterSize, show [c].headD 0 = c from rfl, shellVolume_start h₂]
  exact ⟨Or.inl (by omega), by omega⟩

theorem shellVolume_byte {c i : ℕ} (h₂ : 2 ≤ c) (hi : i < 512) :
    chainByte (shellVolume shell program files).disk (shellVolume shell program files).pd [c] i =
      shellDisk shell program (c + 1) i := by
  rw [chainByte, shellVolume_clusterSize, Nat.div_eq_of_lt hi, Nat.mod_eq_of_lt hi]
  change (shellDisk shell program).byteAt
    (clusterStart (shellVolume shell program files).pd c + i) = _
  rw [shellVolume_start h₂, shellDisk_byteAt hi]

/-- The bytes of the first 32 of a cluster. -/
def clusterImage (shell program : List UInt8) (c : ℕ) : List UInt8 :=
  (List.range 32).map (fun i ↦ shellDisk shell program (c + 1) i)

theorem shellVolume_subdirectory {c : ℕ} {d : Fat16File} {b : UInt8} (h₂ : 2 ≤ c) (h₅ : c ≤ 5)
    (hd : d.isDirectory = true) (hc : d.firstCluster = c)
    (hfirst : shellDisk shell program (c + 1) 0 = b) (hb : b ≠ 0 ∧ b ≠ 0xE5)
    (hend : shellDisk shell program (c + 1) 32 = 0) :
    Subdirectory (shellVolume shell program files) d (clusterImage shell program c) 1 := by
  have hsector : fat16ClusterToSector (shellVolume shell program files).pd c = c + 1 := by
    show u32 (2 + subU32 c 2 * 1 + 1) = c + 1
    unfold subU32 u32
    omega
  refine ⟨hd, ?_, Nat.one_pos, by decide, ?_⟩
  · rw [hc, hsector]
    refine fat16TotalFiles_count (by omega) (by decide) (fun i hi ↦ ?_) ?_
    · rw [Nat.lt_one_iff.mp hi]
      exact ((shellDisk_byteAt (i := 0) (by decide)).trans hfirst).symm ▸ hb
    · exact (shellDisk_byteAt (i := 32) (by decide)).trans hend
  · have hstored : StoredFile (shellVolume shell program files).disk
        (shellVolume shell program files).pd [c] 32 := shellVolume_stored h₂ h₅ (by decide)
    have hread : ReadsBack (shellVolume shell program files).disk
        (shellVolume shell program files).pd [c] 0 32 :=
      hstored.readsBack (Or.inr (shellVolume_near h₂ h₅ (by decide)))
    rw [hc]
    refine hread.trans (congrArg (fun bytes ↦ Except.ok ((success : ℤ), bytes))
      (List.map_congr_left (fun i hi ↦ ?_)))
    have hi' := List.mem_range.mp hi
    rw [Nat.zero_add, shellVolume_byte h₂ (by omega)]

theorem clusterImage_entry {c sector : ℕ} {f : Fat16File} {u : List UInt8}
    (hf : Fat16File.ofBytes (fun k ↦ shellDisk shell program (c + 1) (32 * 0 + k)) = f)
    (hname : sameName f u = true) :
    HasEntry ⟨files, clusterImage shell program c, 1, sector, 0⟩ u f := by
  have hread : ∀ alien, Fat16Directory.fileAt ⟨files, clusterImage shell program c, 1, sector, 0⟩
      alien 0 = f := fun alien ↦ (fileAt_read alien rfl (Nat.le_refl 32)).trans hf
  refine ⟨0, Nat.one_pos, fun alien ↦ ⟨hread alien, fun j hj ↦ ?_⟩⟩
  rw [Nat.lt_one_iff.mp hj, hread, hname, decide_eq_true rfl]

theorem shellRoot_usrspc : HasEntry (shellVolume shell program files).pd.root
    [117, 115, 114, 115, 112, 99] usrspcEntry := by
  refine ⟨0, Nat.two_pos, fun alien ↦ ⟨shellRoot_fileAt.1, fun j hj ↦ ?_⟩⟩
  rcases Nat.le_one_iff_eq_zero_or_eq_one.mp (Nat.le_of_lt_succ hj) with rfl | rfl
  · rw [shellRoot_fileAt.1]
    decide +kernel
  · rw [shellRoot_fileAt.2]
    decide +kernel

theorem shellRoot_program : HasEntry (shellVolume shell program files).pd.root [70] programEntry := by
  refine ⟨1, Nat.one_lt_two, fun alien ↦ ⟨shellRoot_fileAt.2, fun j hj ↦ ?_⟩⟩
  rcases Nat.le_one_iff_eq_zero_or_eq_one.mp (Nat.le_of_lt_succ hj) with rfl | rfl
  · rw [shellRoot_fileAt.1]
    decide +kernel
  · rw [shellRoot_fileAt.2]
    decide +kernel

theorem gshell_leads : Leads (shellVolume shell program files) mainEntry
    (shellVolume shell program files).pd.root gshellUnits :=
  .into shellRoot_usrspc (shellVolume_subdirectory (c := 2) (b := 71) (by decide) (by decide)
      (by decide) rfl rfl (by decide) rfl) (fun _ ↦
    .into (clusterImage_entry (f := gshellEntry) rfl (by decide +kernel))
        (shellVolume_subdirectory (c := 3) (b := 77) (by decide) (by decide) (by decide) rfl rfl
          (by decide) rfl) (fun _ ↦
      .file (clusterImage_entry rfl (by decide +kernel)) rfl))

theorem gshell_stores (hlen : shell.length = 92) :
    Stores (shellVolume shell program files) gshellUnits shell mainEntry 4 where
  units u hu := by
    rcases List.mem_cons.mp hu with rfl | hu
    · exact ⟨by decide, by decide, by decide⟩
    · rcases List.mem_cons.mp hu with rfl | hu
      · exact ⟨by decide, by decide, by decide⟩
      · cases List.mem_singleton.mp hu
        exact ⟨by decide, by decide, by decide⟩
  path_le := by decide
  leads := gshell_leads
  size := hlen.symm
  firstCluster := rfl
  stored := shellVolume_stored (by decide) (by decide) (by decide)
  near := shellVolume_near (by decide) (by decide) (by decide)
  bytes i hi := shellVolume_byte (by decide) (by omega)

theorem program_stores (hlen : program.length = 92) :
    Stores (shellVolume shell program files) [[70]] program programEntry 5 where
  units u hu := by
    cases List.mem_singleton.mp hu
    exact ⟨by decide, by decide, by decide⟩
  path_le := by decide
  leads := .file shellRoot_program rfl
  size := hlen.symm
  firstCluster := rfl
  stored := shellVolume_stored (by decide) (by decide) (by decide)
  near := shellVolume_near (by decide) (by decide) (by decide)
  bytes i hi := shellVolume_byte (by decide) (by omega)

theorem shellDisk_resolved {σ : Type} [Allocator σ] [RoomyAllocator σ]
    (shell program : List UInt8) (k : ℕ) :
    Total (Arena.HasRoom (σ := σ) (k + 7)) (fat16Resolve (shellDisk shell program))
      (fun pd s ↦ (∃ files, pd = some (shellVolume shell program files).pd) ∧ s.HasRoom k) := by
  have htotal : fat16TotalFilesInDirectory (shellDisk shell program) 2 = .ok 2 := by
    refine fat16TotalFiles_count (by decide) (by decide) (fun i hi ↦ ?_) ?_
    · rcases Nat.le_one_iff_eq_zero_or_eq_one.mp (Nat.le_of_lt_succ hi) with rfl | rfl
      · have hbyte : (shellDisk shell program).byteAt (2 * 512 + 0) = 85 :=
          shellDisk_byteAt (by decide)
        exact hbyte.symm ▸ (by decide : (85 : UInt8) ≠ 0 ∧ (85 : UInt8) ≠ 0xE5)
      · have hbyte : (shellDisk shell program).byteAt (2 * 512 + 32) = 70 :=
          shellDisk_byteAt (by decide)
        exact hbyte.symm ▸ (by decide : (70 : UInt8) ≠ 0 ∧ (70 : UInt8) ≠ 0xE5)
    · exact shellDisk_byteAt (i := 64) (by decide)
  exact fat16Resolve_total (shellDisk shell program) ⟨1, 1, 1, 16, 1, 0x29⟩ rfl rfl rfl (by decide)
    (by decide) htotal k

end GammaOS.Loader
