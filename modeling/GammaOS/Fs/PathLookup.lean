import GammaOS.Fs.Fat16
import GammaOS.Fs.PathUnits

namespace GammaOS.Fs

open Function Foundation Foundation.Program Memory

def drivePath (us : List (List UInt8)) : List UInt8 := 65 :: 58 :: 47 :: joinUnits us

variable {u : List UInt8} {us : List (List UInt8)}

theorem drivePath_total {σ : Type} [Allocator σ] [RoomyAllocator σ] {alien : ByteMemory}
    (hus : ∀ w ∈ u :: us, PathUnit w) (hlen : (drivePath (u :: us)).length ≤ fsMaxPathLength)
    (k : ℕ) :
    Total (Arena.HasRoom (σ := σ) (k + (3 * us.length + 6))) (parsePath alien (drivePath (u :: us)))
      (fun path s ↦ (∃ p a rest, path = some ⟨p, 65, some ⟨a, u⟩, rest⟩ ∧
        rest.map UnitStr.str = us) ∧ s.HasRoom k) := by
  have hdrive : parseDrive (drivePath (u :: us)) = some 65 := by
    rw [drivePath, parseDrive, if_pos ⟨by decide, by decide, Nat.le_add_left 3 _⟩]
  exact parsePath_total alien hdrive hlen
    (pathUnits_join (fun w hw ↦ ⟨(hus w hw).ne_nil, (hus w hw).no_slash⟩))
    (fun w hw ↦ Or.inl (hus w hw).short) k

theorem ofBytes_file_congr {b b' : ByteMemory} (h : ∀ k < 32, b k = b' k) :
    Fat16File.ofBytes b = .ofBytes b' := by
  have hname : (List.range 8).map b = (List.range 8).map b' :=
    List.map_congr_left (fun k hk ↦ h k (by have := List.mem_range.mp hk; omega))
  have hext : (List.range 3).map (fun i ↦ b (8 + i)) = (List.range 3).map (fun i ↦ b' (8 + i)) :=
    List.map_congr_left (fun k hk ↦ h _ (by have := List.mem_range.mp hk; omega))
  have h16 : ∀ k ≤ 30, b.load16 k = b'.load16 k := by
    intro k hk
    rw [ByteMemory.load16, ByteMemory.load16, h k (by omega), h (k + 1) (by omega)]
  rw [Fat16File.ofBytes, Fat16File.ofBytes, hname, hext, h 11 (by decide), h16 20 (by decide),
    h16 26 (by decide), ByteMemory.load32, ByteMemory.load32, h16 28 (by decide),
    h16 30 (by decide)]

theorem fileAt_read {dir : Fat16Directory} {bytes : ℕ → UInt8} {n i : ℕ} (alien : ByteMemory)
    (h : dir.image = (List.range n).map bytes) (hi : 32 * i + 32 ≤ n) :
    dir.fileAt alien i = .ofBytes (fun k ↦ bytes (32 * i + k)) := by
  refine ofBytes_file_congr (fun k hk ↦ ?_)
  rw [h, List.getElem?_map, List.getElem?_range (by omega)]
  rfl

theorem totalFilesLoop_count {disk : Disk} {pos : ℕ} (hal : pos % sectorSizeInBytes = 0)
    (htop : pos + sectorSizeInBytes ≤ 2 ^ 32) : ∀ n j fuel t, j + n < 16 → n < fuel →
    (∀ i, j ≤ i → i < j + n → disk.byteAt (pos + 32 * i) ≠ 0 ∧ disk.byteAt (pos + 32 * i) ≠ 0xE5) →
    disk.byteAt (pos + 32 * (j + n)) = 0 → t + n < 2 ^ 32 →
    totalFilesLoop disk fuel (pos + 32 * j) t = .ok (t + n) := by
  unfold sectorSizeInBytes at hal htop
  have hread : ∀ j < 16, (diskStreamRead disk (pos + 32 * j) 32).bytes.getD 0 0 =
      disk.byteAt (pos + 32 * j) := by
    intro j hj
    rw [diskStreamRead_bytes (by decide) (by omega)]
    rfl
  intro n
  induction n with
  | zero =>
    intro j fuel t hj hfuel _ hend _
    obtain ⟨fuel, rfl⟩ := Nat.exists_eq_succ_of_ne_zero (Nat.ne_of_gt hfuel)
    rw [totalFilesLoop, hread j hj, if_pos (by rwa [Nat.add_zero] at hend)]
    rfl
  | succ n ih =>
    intro j fuel t hj hfuel hlive hend ht
    obtain ⟨fuel, rfl⟩ := Nat.exists_eq_succ_of_ne_zero (Nat.ne_zero_of_lt hfuel)
    obtain ⟨h₀, h₁⟩ := hlive j le_rfl (by omega)
    have hpos : (diskStreamRead disk (pos + 32 * j) 32).pos = pos + 32 * (j + 1) := by
      have hnot : ¬ u32 ((pos + 32 * j) % sectorSizeInBytes + 32) ≥ sectorSizeInBytes := by
        unfold sectorSizeInBytes
        rw [u32_of_lt (by omega)]
        omega
      rw [diskStreamRead, streamReadLoop]
      simp only [if_neg hnot]
      rw [u32_of_lt (by omega)]
      omega
    rw [totalFilesLoop, hread j (by omega), hpos, if_neg h₀, if_neg h₁, u32_of_lt (by omega),
      ih (j + 1) fuel (t + 1) (by omega) (by omega) (fun i hi hin ↦ hlive i (by omega) (by omega))
        (by rwa [show j + 1 + n = j + (n + 1) by omega]) (by omega)]
    rw [show t + 1 + n = t + (n + 1) by omega]

theorem fat16TotalFiles_count {disk : Disk} {sector n : ℕ} (htop : sector < 2 ^ 22) (hn : n < 16)
    (hlive : ∀ i < n, disk.byteAt (sector * sectorSize + 32 * i) ≠ 0 ∧
      disk.byteAt (sector * sectorSize + 32 * i) ≠ 0xE5)
    (hend : disk.byteAt (sector * sectorSize + 32 * n) = 0) :
    fat16TotalFilesInDirectory disk sector = .ok n := by
  have hpos : sector * sectorSize < 2 ^ 32 := by
    unfold sectorSize
    omega
  have hcount : ∀ fuel, n < fuel →
      totalFilesLoop disk fuel (sector * sectorSize) 0 = .ok n := by
    intro fuel hfuel
    have h := @totalFilesLoop_count disk (sector * sectorSize)
      (by unfold sectorSize sectorSizeInBytes; omega)
      (by unfold sectorSize sectorSizeInBytes; omega) n 0 fuel 0 (by omega) hfuel
      (fun i _ hi ↦ hlive i (by omega)) (by rwa [Nat.zero_add]) (by omega)
    rwa [Nat.mul_zero, Nat.add_zero, Nat.zero_add] at h
  rw [fat16TotalFilesInDirectory, u32_of_lt hpos]
  exact hcount _ (Nat.lt_of_lt_of_le hn (by norm_num))

def HasEntry (dir : Fat16Directory) (u : List UInt8) (f : Fat16File) : Prop :=
  ∃ i < dir.totalFiles, ∀ alien, dir.fileAt alien i = f ∧
    ∀ j < dir.totalFiles, sameName (dir.fileAt alien j) u = decide (j = i)

/-- A directory of at most a page, whose entries are read with success. -/
structure Subdirectory (v : Fat16Volume) (d : Fat16File) (image : List UInt8) (totalFiles : ℕ) :
    Prop where
  isDirectory : d.isDirectory = true
  total : fat16TotalFilesInDirectory v.disk (fat16ClusterToSector v.pd d.firstCluster) =
    .ok totalFiles
  pos : 0 < totalFiles
  page : totalFiles * 32 ≤ pageSize
  read : fat16ReadFromDisk v.disk v.pd d.firstCluster 0 (u32 (totalFiles * 32)) =
    .ok ((success : ℤ), image)

inductive Leads (v : Fat16Volume) (f : Fat16File) : Fat16Directory → List (List UInt8) → Prop
  | file {dir : Fat16Directory} {u : List UInt8} :
      HasEntry dir u f → f.isDirectory = false → Leads v f dir [u]
  | into {dir : Fat16Directory} {u w : List UInt8} {us : List (List UInt8)} {d : Fat16File}
      {image : List UInt8} {totalFiles : ℕ} :
      HasEntry dir u d → Subdirectory v d image totalFiles →
      (∀ files, Leads v f
        ⟨files, image, totalFiles, fat16ClusterToSector v.pd d.firstCluster, 0⟩ (w :: us)) →
      Leads v f dir (u :: w :: us)

variable {σ : Type} [Allocator σ] {alien : ByteMemory} {v : Fat16Volume} {dir : Fat16Directory}
  {f d : Fat16File} {unit : Option Fat16Unit} {image : List UInt8} {addr n k totalFiles : ℕ}
  {s s' : Arena σ}

theorem findUnitLoop_skip (addr : ℕ) : ∀ n i,
    (∀ j, i ≤ j → j < i + n → sameName (dir.fileAt alien j) u = false) →
    findUnitLoop (σ := σ) v alien dir (some ⟨addr, u⟩) n i unit = pure unit := by
  intro n
  induction n with
  | zero => exact fun _ _ ↦ rfl
  | succ n ih =>
    intro i h
    rw [findUnitLoop, if_neg (by rw [h i le_rfl (by omega)]; exact Bool.false_ne_true)]
    exact ih (i + 1) (fun j hj hjn ↦ h j (by omega) (by omega))

theorem findUnit_eq (h : HasEntry dir u f)
    (hr : fat16NewFatUnitForDirectoryUnit v f s = .ok (unit, s')) (addr : ℕ) :
    fat16FindUnitInDirectory v alien dir (some ⟨addr, u⟩) s = .ok (unit, s') := by
  obtain ⟨i, hi, h⟩ := h
  obtain ⟨hf, hname⟩ := h alien
  have hloop : ∀ n j acc, j ≤ i → i < j + n → j + n ≤ dir.totalFiles →
      findUnitLoop v alien dir (some ⟨addr, u⟩) n j acc s = .ok (unit, s') := by
    intro n
    induction n with
    | zero => intro j acc h₁ h₂; omega
    | succ n ih =>
      intro j acc h₁ h₂ h₃
      by_cases hj : j = i
      · subst hj
        rw [findUnitLoop, if_pos (by rw [hname j hi, decide_eq_true rfl]), hf]
        refine (bind_run_ok hr).trans ?_
        rw [findUnitLoop_skip addr n (j + 1) (fun l hl hln ↦ by
          rw [hname l (by omega)]
          exact decide_eq_false (by omega))]
        rfl
      · rw [findUnitLoop, if_neg (by
          rw [hname j (by omega), decide_eq_false hj]
          exact Bool.false_ne_true)]
        exact ih (j + 1) acc (by omega) (by omega) (by omega)
  exact hloop dir.totalFiles 0 none (Nat.zero_le i) (by omega) (by omega)

variable [RoomyAllocator σ]

theorem newUnit_file (hf : f.isDirectory = false) (k : ℕ) :
    Total (Arena.HasRoom (σ := σ) (k + 2)) (fat16NewFatUnitForDirectoryUnit v f)
      (fun unit s ↦ (∃ a q, unit = some ⟨a, .file (some (q, f))⟩) ∧ s.HasRoom k) := by
  intro s hs
  obtain ⟨a, s₁, h₁, hne₁, hr₁⟩ := kzallocOne_total (n := 8) (by decide) (k + 1) s hs
  obtain ⟨q, s₂, h₂, hne₂, hr₂⟩ := kzallocOne_total (n := 32) (by decide) k s₁ hr₁
  have hclone : fat16CloneFile f s₁ = .ok (some (q, f), s₂) := by
    rw [fat16CloneFile, bind_run_ok h₂, if_neg hne₂]
    rfl
  refine ⟨some ⟨a, .file (some (q, f))⟩, s₂, ?_, ⟨a, q, rfl⟩, hr₂⟩
  rw [fat16NewFatUnitForDirectoryUnit, bind_run_ok h₁, if_neg hne₁,
    if_neg (by rw [hf]; exact Bool.false_ne_true)]
  exact bind_run_ok hclone

theorem newUnit_directory (hd : Subdirectory v d image totalFiles) (k : ℕ) :
    Total (Arena.HasRoom (σ := σ) (k + 3)) (fat16NewFatUnitForDirectoryUnit v d)
      (fun unit s ↦ (∃ a b files, unit = some ⟨a, .directory (some (b,
        ⟨files, image, totalFiles, fat16ClusterToSector v.pd d.firstCluster, 0⟩))⟩) ∧
        s.HasRoom k) := by
  intro s hs
  have hpos := hd.pos
  have hpage := hd.page
  have hsize : u32 (totalFiles * 32) = totalFiles * 32 := by
    unfold pageSize at hpage
    exact u32_of_lt (by omega)
  obtain ⟨a, s₁, h₁, hne₁, hr₁⟩ := kzallocOne_total (n := 8) (by decide) (k + 2) s hs
  obtain ⟨b, s₂, h₂, hne₂, hr₂⟩ := kzallocOne_total (n := 16) (by decide) (k + 1) s₁ hr₁
  obtain ⟨files, s₃, h₃, hne₃, hr₃⟩ := kzallocOne_total (n := u32 (totalFiles * 32))
    (blocksOf_one (by omega) (by omega)) k s₂ hr₂
  have hload : fat16LoadDirectory v d s₁ = .ok (some (b, ⟨files, image, totalFiles,
      fat16ClusterToSector v.pd d.firstCluster, 0⟩),
      { s₃ with mem := s₃.mem.writeBytes files image }) := by
    rw [fat16LoadDirectory, bind_run_ok h₂, if_neg hne₂, if_neg (not_not.mpr hd.isDirectory)]
    refine (bind_run_ok (ofExcept_eq_ok.mpr ⟨hd.total, rfl⟩)).trans ?_
    refine (bind_run_ok h₃).trans ?_
    rw [if_neg hne₃]
    refine (bind_run_ok (ofExcept_eq_ok.mpr ⟨hd.read, rfl⟩)).trans ?_
    rfl
  refine ⟨_, { s₃ with mem := s₃.mem.writeBytes files image }, ?_, ⟨a, b, files, rfl⟩, hr₃⟩
  rw [fat16NewFatUnitForDirectoryUnit, bind_run_ok h₁, if_neg hne₁, if_pos hd.isDirectory]
  exact bind_run_ok hload

theorem Leads.total (alien : ByteMemory) (h : Leads v f dir us) : ∀ (units : List UnitStr),
    units.map UnitStr.str = us →
    ∀ a b k, Total (Arena.HasRoom (σ := σ) (k + (3 * us.length - 1)))
      (getUnitLoop v alien units (some ⟨a, .directory (some (b, dir))⟩))
      (fun unit s ↦ (∃ a q, unit = some ⟨a, .file (some (q, f))⟩) ∧ s.HasRoom k) := by
  induction h with
  | file hentry hf =>
    intro units hunits a b k s hs
    obtain ⟨⟨addr, str⟩, rest, rfl, rfl, hrest⟩ := List.map_eq_cons_iff.mp hunits
    cases List.map_eq_nil_iff.mp hrest
    obtain ⟨_, s₁, h₁, ⟨a', q, rfl⟩, hr₁⟩ := newUnit_file hf k s hs
    exact ⟨_, s₁, bind_run_ok (findUnit_eq hentry h₁ addr), ⟨a', q, rfl⟩, hr₁⟩
  | @into dir u w us d image totalFiles hentry hd _ ih =>
    intro units hunits a b k s hs
    obtain ⟨⟨addr, str⟩, rest, rfl, rfl, hrest⟩ := List.map_eq_cons_iff.mp hunits
    have hroom : k + (3 * (str :: w :: us).length - 1) = k + (3 * (w :: us).length - 1) + 3 := by
      simp only [List.length_cons]
      omega
    rw [hroom] at hs
    obtain ⟨_, s₁, h₁, ⟨a', b', files, rfl⟩, hr₁⟩ := newUnit_directory hd _ s hs
    obtain ⟨unit, s₂, h₂, hunit, hr₂⟩ := ih files rest hrest a' b' k s₁ hr₁
    exact ⟨unit, s₂, (bind_run_ok (findUnit_eq hentry h₁ addr)).trans h₂, hunit, hr₂⟩

theorem Leads.getUnit_total (alien : ByteMemory) (h : Leads v f v.pd.root (u :: us))
    {rest : List UnitStr}
    (hrest : rest.map UnitStr.str = us) (p a k : ℕ) :
    Total (Arena.HasRoom (σ := σ) (k + (3 * us.length + 2)))
      (fat16GetUnit v alien ⟨p, 65, some ⟨a, u⟩, rest⟩)
      (fun unit s ↦ (∃ a q, unit = some ⟨a, .file (some (q, f))⟩) ∧ s.HasRoom k) := by
  intro s hs
  have htotal := h.total (σ := σ) alien (⟨a, u⟩ :: rest) (by rw [List.map_cons, hrest])
    0 0 k
  obtain ⟨unit, s₁, h₁, ⟨b, q, rfl⟩, hr₁⟩ := htotal s (hs.mono (by rw [List.length_cons]; omega))
  refine ⟨_, s₁, ?_, ⟨b, q, rfl⟩, hr₁⟩
  obtain ⟨found, s₂, h₂, h₃⟩ := bind_eq_ok.mp h₁
  refine (bind_run_ok h₂).trans ?_
  cases found with
  | none =>
    cases rest with
    | nil => cases h₃
    | cons _ _ => cases h₃
  | some root => exact h₃

theorem fat16Resolve_total (disk : Disk) (header : Fat16Header) {rootSector : ℕ}
    (hheader : Fat16Header.ofBytes (zeroPadded (diskStreamRead disk 0 62).bytes) = header)
    (hsig : header.signature = fat16Signature)
    (hsector : u32 (header.fatCopies * header.sectorsPerFat + header.reservedSectors) = rootSector)
    (hsize : 0 < header.rootDirEntries * 32) (hpage : header.rootDirEntries * 32 ≤ pageSize)
    (htotal : fat16TotalFilesInDirectory disk rootSector = .ok totalFiles) (k : ℕ) :
    Total (Arena.HasRoom (σ := σ) (k + 7)) (fat16Resolve disk)
      (fun pd s ↦ (∃ files, pd = some ⟨header, files,
        (diskStreamRead disk (u32 (rootSector * sectorSize)) (header.rootDirEntries * 32)).bytes,
        totalFiles, rootSector, subU32 (u32 (rootSector +
          (header.rootDirEntries * 32 / sectorSize +
            if header.rootDirEntries * 32 % sectorSize ≠ 0 then 1 else 0))) 1⟩) ∧
        s.HasRoom k) := by
  intro s hs
  obtain ⟨pd, s₁, h₁, -, hr₁⟩ := kzallocUncheckedOne_total (n := 92) (by decide) (k + 6) s hs
  obtain ⟨p₂, s₂, h₂, -, hr₂⟩ := kzallocUncheckedOne_total (n := 4) (by decide) (k + 5) s₁ hr₁
  obtain ⟨p₃, s₃, h₃, -, hr₃⟩ := kzallocUncheckedOne_total (n := 4) (by decide) (k + 4) s₂ hr₂
  obtain ⟨p₄, s₄, h₄, -, hr₄⟩ := kzallocUncheckedOne_total (n := 4) (by decide) (k + 3) s₃ hr₃
  obtain ⟨p₅, s₅, h₅, -, hr₅⟩ := kzallocUncheckedOne_total (n := 4) (by decide) (k + 2) s₄ hr₄
  obtain ⟨files, s₆, h₆, hne, hr₆⟩ := kzallocOne_total (blocksOf_one hsize hpage) (k + 1) s₅ hr₅
  obtain ⟨p₇, s₇, h₇, -, hr₇⟩ := kzallocUncheckedOne_total (n := 4) (by decide) k s₆ hr₆
  obtain ⟨image, himage⟩ : ∃ image, (diskStreamRead disk (u32 (rootSector * sectorSize))
    (header.rootDirEntries * 32)).bytes = image := ⟨_, rfl⟩
  obtain ⟨_, s₈, h₈, hr₈⟩ := kfree_total p₇ k { s₇ with mem := s₇.mem.writeBytes files image } hr₇
  obtain ⟨_, s₉, h₉, hr₉⟩ := kfree_total p₅ k s₈ hr₈
  have hroot : fat16GetRoot disk header s₅ = .ok (some ⟨files, image, totalFiles, rootSector,
      subU32 (u32 (rootSector + (header.rootDirEntries * 32 / sectorSize +
        if header.rootDirEntries * 32 % sectorSize ≠ 0 then 1 else 0))) 1⟩, s₈) := by
    unfold fat16GetRoot
    dsimp only
    rw [hsector, himage]
    refine (bind_run_ok h₆).trans ?_
    refine (bind_run_ok h₇).trans ?_
    rw [if_neg hne]
    refine (bind_run_ok (modifyState_run _ _)).trans ?_
    refine (bind_run_ok (ofExcept_eq_ok.mpr ⟨htotal, rfl⟩)).trans ?_
    exact bind_run_ok h₈
  refine ⟨_, s₉, ?_, ⟨files, rfl⟩, hr₉⟩
  rw [himage]
  refine (bind_run_ok h₁).trans ?_
  refine (bind_run_ok h₂).trans ?_
  refine (bind_run_ok h₃).trans ?_
  refine (bind_run_ok h₄).trans ?_
  refine (bind_run_ok h₅).trans ?_
  rw [hheader, if_neg (not_not.mpr hsig)]
  refine (bind_run_ok hroot).trans ?_
  exact bind_run_ok h₉

end GammaOS.Fs
