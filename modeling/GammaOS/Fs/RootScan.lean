import GammaOS.Fs.EntryScan
import GammaOS.Fs.PathLookup
import GammaOS.Memory.KernelHeap

namespace GammaOS.Fs

open Foundation Foundation.Program Memory

def volumeHeader (disk : Disk) : Fat16Header :=
  .ofBytes (zeroPadded (diskStreamRead disk 0 62).bytes)

def Fat16Header.rootSector (header : Fat16Header) : ℕ :=
  u32 (header.fatCopies * header.sectorsPerFat + header.reservedSectors)

def Fat16Header.rootSectorsOccupied (header : Fat16Header) : ℕ :=
  header.rootDirEntries * 32 / sectorSize +
    if header.rootDirEntries * 32 % sectorSize ≠ 0 then 1 else 0

/-- What `fat16_resolve` keeps of a disk that it accepts. -/
structure Mounted (disk : Disk) (pd : Fat16PrivateData) : Prop where
  header : pd.header = volumeHeader disk
  signature : pd.header.signature = fat16Signature
  image : pd.root.image = (diskStreamRead disk (u32 (pd.header.rootSector * sectorSize))
    (pd.header.rootDirEntries * 32)).bytes
  totalFiles : fat16TotalFilesInDirectory disk pd.header.rootSector = .ok pd.root.totalFiles
  firstSector : pd.root.firstSector = pd.header.rootSector
  lastSector : pd.root.lastSector =
    subU32 (u32 (pd.header.rootSector + pd.header.rootSectorsOccupied)) 1

/-- The scan of the root directory returns no more entries than its array has,
and no search of the root looks at a byte behind the array. -/
structure RootScanInside (σ : Type) [Allocator σ] (disk : Disk) : Prop where
  returns : ∃ n ≤ (volumeHeader disk).rootDirEntries,
    fat16TotalFilesInDirectory disk (volumeHeader disk).rootSector = .ok n
  inside : ∀ (s s' : Arena σ) pd, fat16Resolve disk s = .ok (some pd, s') →
    ∀ dirUnit < pd.root.totalFiles, 32 * dirUnit + 32 ≤ pd.root.image.length
  search : ∀ (s s' : Arena σ) pd, fat16Resolve disk s = .ok (some pd, s') →
    ∀ (alien alien' : ByteMemory) unitStr,
      (fat16FindUnitInDirectory ⟨disk, pd⟩ alien pd.root unitStr : ArenaM σ _) =
        fat16FindUnitInDirectory ⟨disk, pd⟩ alien' pd.root unitStr

variable {disk : Disk} {sector k l : ℕ}

theorem undeleted_mono (h : k ≤ l) : undeleted disk sector k ≤ undeleted disk sector l :=
  (List.range_sublist.mpr h).countP_le

section Search

variable {σ : Type} [Allocator σ] {v : Fat16Volume} {dir : Fat16Directory}
  {alien alien' : ByteMemory} {unitStr : Option UnitStr}

theorem fileAt_inside {i : ℕ} (h : 32 * i + 32 ≤ dir.image.length) :
    dir.fileAt alien i = dir.fileAt alien' i := by
  refine ofBytes_file_congr (fun k hk ↦ ?_)
  rw [List.getElem?_eq_getElem (by omega), Option.getD_some, Option.getD_some]

theorem findUnitLoop_inside : ∀ n i unit, (∀ j, i ≤ j → j < i + n → 32 * j + 32 ≤ dir.image.length) →
    findUnitLoop (σ := σ) v alien dir unitStr n i unit =
      findUnitLoop v alien' dir unitStr n i unit := by
  intro n
  induction n with
  | zero => exact fun _ _ _ ↦ rfl
  | succ n ih =>
    intro i unit h
    have hrest := fun unit ↦ ih (i + 1) unit (fun j h₁ h₂ ↦ h j (by omega) (by omega))
    cases unitStr with
    | none => rfl
    | some str =>
      rw [findUnitLoop, findUnitLoop, @fileAt_inside _ _ alien' _ (h i (Nat.le_refl i) (by omega))]
      simp only [hrest]

end Search

variable {σ : Type} [Allocator σ] {pd : Fat16PrivateData} {s s' : Arena σ}

theorem fat16GetRoot_result {header : Fat16Header} {root : Fat16Directory}
    (h : fat16GetRoot disk header s = .ok (some root, s')) :
    root.image = (diskStreamRead disk (u32 (header.rootSector * sectorSize))
        (header.rootDirEntries * 32)).bytes ∧
      fat16TotalFilesInDirectory disk header.rootSector = .ok root.totalFiles ∧
      root.firstSector = header.rootSector ∧
      root.lastSector = subU32 (u32 (header.rootSector + header.rootSectorsOccupied)) 1 := by
  obtain ⟨files, s₁, -, h⟩ := bind_eq_ok.mp h
  obtain ⟨_, s₂, -, h⟩ := bind_eq_ok.mp h
  by_cases hfiles : files = 0
  · rw [if_pos hfiles] at h
    cases h
  · rw [if_neg hfiles] at h
    obtain ⟨_, s₃, -, h⟩ := bind_eq_ok.mp h
    obtain ⟨totalFiles, s₄, htotal, h⟩ := bind_eq_ok.mp h
    obtain ⟨_, s₅, -, h⟩ := bind_eq_ok.mp h
    cases h
    exact ⟨rfl, (ofExcept_eq_ok.mp htotal).1, rfl, rfl⟩

theorem fat16Resolve_mounted (h : fat16Resolve disk s = .ok (some pd, s')) : Mounted disk pd := by
  obtain ⟨_, s₁, -, h⟩ := bind_eq_ok.mp h
  obtain ⟨_, s₂, -, h⟩ := bind_eq_ok.mp h
  obtain ⟨_, s₃, -, h⟩ := bind_eq_ok.mp h
  obtain ⟨_, s₄, -, h⟩ := bind_eq_ok.mp h
  obtain ⟨_, s₅, -, h⟩ := bind_eq_ok.mp h
  change (if (volumeHeader disk).signature ≠ fat16Signature then _ else _ : ArenaM σ _) s₅ = _ at h
  by_cases hsig : (volumeHeader disk).signature ≠ fat16Signature
  · rw [if_pos hsig] at h
    obtain ⟨_, s₆, -, h⟩ := bind_eq_ok.mp h
    obtain ⟨_, s₇, -, h⟩ := bind_eq_ok.mp h
    cases h
  rw [if_neg hsig] at h
  obtain ⟨root, s₆, hroot, h⟩ := bind_eq_ok.mp h
  cases root with
  | none =>
    obtain ⟨_, s₇, -, h⟩ := bind_eq_ok.mp h
    obtain ⟨_, s₈, -, h⟩ := bind_eq_ok.mp h
    cases h
  | some root =>
    obtain ⟨_, s₇, -, h⟩ := bind_eq_ok.mp h
    cases h
    obtain ⟨himage, htotal, hfirst, hlast⟩ := fat16GetRoot_result hroot
    exact ⟨rfl, not_not.mp hsig, himage, htotal, hfirst, hlast⟩

theorem rootScanInside_iff : RootScanInside σ disk ↔
    ∃ k, scanByte disk (volumeHeader disk).rootSector k = 0 ∧
      undeleted disk (volumeHeader disk).rootSector k ≤ (volumeHeader disk).rootDirEntries := by
  constructor
  · rintro ⟨⟨n, hn, h⟩, -, -⟩
    obtain ⟨k, hk, rfl⟩ := totalFiles_eq_ok.mp h
    exact ⟨k, hk.zero, hn⟩
  · rintro ⟨k, hk, hle⟩
    obtain ⟨e, he, hek, -⟩ := scanEnd_of_zero hk
    have hn := (undeleted_mono hek).trans hle
    have hinside : ∀ (s s' : Arena σ) pd, fat16Resolve disk s = .ok (some pd, s') →
        ∀ dirUnit < pd.root.totalFiles, 32 * dirUnit + 32 ≤ pd.root.image.length := by
      intro s s' pd h dirUnit hi
      have hm := fat16Resolve_mounted h
      have htotal := hm.totalFiles
      rw [hm.header, he.total] at htotal
      have hcount := Except.ok.inj htotal
      rw [hm.image, diskStreamRead_length, hm.header]
      omega
    refine ⟨⟨_, hn, he.total⟩, hinside, fun s s' pd h alien alien' unitStr ↦ ?_⟩
    exact findUnitLoop_inside _ 0 none (fun j _ hj ↦ hinside s s' pd h j (by omega))

def fullRootDisk : Disk := fun sector i ↦
  if sector = 0 then
    if i = 13 ∨ i = 14 ∨ i = 16 ∨ i = 22 then 1
    else if i = 17 then 16
    else if i = 38 then 0x29
    else 0
  else if sector = 2 ∨ (sector = 3 ∧ i = 0) then 65
  else 0

theorem full_root_overrun :
    (volumeHeader fullRootDisk).signature = fat16Signature ∧
      (volumeHeader fullRootDisk).rootDirEntries = 16 ∧
      fat16TotalFilesInDirectory fullRootDisk (volumeHeader fullRootDisk).rootSector = .ok 17 ∧
      ¬ RootScanInside (KHeap false) fullRootDisk := by
  have hsector : (volumeHeader fullRootDisk).rootSector = 2 := by decide
  have hentries : (volumeHeader fullRootDisk).rootDirEntries = 16 := by decide
  have htotal : fat16TotalFilesInDirectory fullRootDisk (volumeHeader fullRootDisk).rootSector =
      .ok 17 := by
    rw [hsector]
    exact totalFiles_eq_ok.mpr ⟨17, ⟨by decide, by decide⟩, by decide⟩
  refine ⟨by decide, hentries, htotal, fun h ↦ ?_⟩
  obtain ⟨n, hn, hcount⟩ := h.returns
  rw [htotal] at hcount
  have heq := Except.ok.inj hcount
  rw [hentries] at hn
  omega

end GammaOS.Fs
