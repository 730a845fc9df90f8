import GammaOS.Fs.PathLookup
import GammaOS.Fs.ReadSeek
import GammaOS.Loader.GLoader

namespace GammaOS.Loader

open Function Foundation Foundation.Program Memory Fs

variable {σ : Type} [Allocator σ] [RoomyAllocator σ] {alien : ByteMemory} {content : List UInt8}

def filePath : List UInt8 := [65, 58, 47, 70]

def fileEntry (size : ℕ) : Fat16File :=
  ⟨70 :: List.replicate 7 0x20, List.replicate 3 0x20, 0, 0, 2, size⟩

theorem fileVolume_entry (h : content.length < 2 ^ 16) (alien : ByteMemory) :
    (fileVolume content).pd.root.fileAt alien 0 = fileEntry content.length := by
  have hsize : ((fileVolume content).pd.root.fileAt alien 0).size = content.length := by
    have hbytes : ((fileVolume content).pd.root.fileAt alien 0).size =
        (UInt8.ofNat content.length).toNat + 2 ^ 8 * (UInt8.ofNat (content.length / 256)).toNat +
          2 ^ 16 * ((0 : UInt8).toNat + 2 ^ 8 * (0 : UInt8).toNat) := rfl
    rw [hbytes, UInt8.toNat_ofNat', UInt8.toNat_ofNat', UInt8.toNat_zero]
    omega
  have hrest : (fileVolume content).pd.root.fileAt alien 0 =
      fileEntry ((fileVolume content).pd.root.fileAt alien 0).size := rfl
  rw [hrest, hsize]

theorem fileEntry_named (size : ℕ) : sameName (fileEntry size) [70] = true := by
  have h : fat16GetFullRelativeName (fileEntry size) = fat16GetFullRelativeName (fileEntry 0) := rfl
  rw [sameName, h]
  decide +kernel

theorem fileVolume_stored (h : content.length ≤ 512) :
    StoredFile (fileVolume content).disk (fileVolume content).pd [2] content.length := by
  have hentry : fatEntry (fileVolume content).disk (fileVolume content).pd 2 = 0xFFFF := by
    simp [fatEntry, fileVolume, smallVolume, sectorSize, fat16EntrySize, Disk.byteAt,
      sectorSizeInBytes]
  refine ⟨Nat.le_refl 1, Nat.one_lt_two_pow (by decide), ⟨⟨Nat.le_refl 2, by decide⟩, ?_⟩, ?_⟩
  · rw [hentry]
    decide
  · simpa [Fat16PrivateData.clusterSize, fileVolume, smallVolume, sectorSize] using h

theorem fileVolume_byte {i : ℕ} (hi : i < 512) :
    chainByte (fileVolume content).disk (fileVolume content).pd [2] i = content.getD i 0 := by
  have hstart : clusterStart (fileVolume content).pd 2 = 1536 := by
    simp [clusterStart, fileVolume, smallVolume, sectorSize]
  have hsize : (fileVolume content).pd.clusterSize = 512 := by
    simp [Fat16PrivateData.clusterSize, fileVolume, smallVolume, sectorSize]
  rw [chainByte, hsize, Nat.div_eq_of_lt hi, Nat.mod_eq_of_lt hi]
  change (fileVolume content).disk.byteAt (clusterStart (fileVolume content).pd 2 + i) = _
  have hdiv : (1536 + i) / sectorSizeInBytes = 3 := by
    unfold sectorSizeInBytes
    omega
  have hmod : (1536 + i) % sectorSizeInBytes = i := by
    unfold sectorSizeInBytes
    omega
  rw [hstart, Disk.byteAt, hdiv, hmod]
  rfl

/-- The names lead to a file in one cluster, with the content. -/
structure Stores (v : Fat16Volume) (us : List (List UInt8)) (content : List UInt8) (f : Fat16File)
    (cluster : ℕ) : Prop where
  units : ∀ u ∈ us, PathUnit u
  path_le : (drivePath us).length ≤ fsMaxPathLength
  leads : Leads v f v.pd.root us
  size : f.size = content.length
  firstCluster : f.firstCluster = cluster
  stored : StoredFile v.disk v.pd [cluster] f.size
  near : NearStart v.pd [cluster] 0 f.size
  bytes : ∀ i < content.length, chainByte v.disk v.pd [cluster] i = content.getD i 0

theorem fileVolume_stores (hpos : 0 < content.length) (hle : content.length ≤ 512) :
    Stores (fileVolume content) [[70]] content (fileEntry content.length) 2 := by
  have hsize : (fileVolume content).pd.clusterSize = 512 := by
    simp [Fat16PrivateData.clusterSize, fileVolume, smallVolume, sectorSize]
  refine ⟨?_, by decide, .file ⟨0, Nat.one_pos, fun alien ↦ ⟨fileVolume_entry (by omega) alien, ?_⟩⟩
    (by simp [fileEntry, Fat16File.isDirectory]), rfl, Nat.or_zero 2, fileVolume_stored hle, ?_,
    fun i hi ↦ fileVolume_byte (by omega)⟩
  · intro u hu
    cases List.mem_singleton.mp hu
    exact ⟨by decide, by decide, by decide⟩
  · intro j hj
    rw [Nat.lt_one_iff.mp hj, fileVolume_entry (by omega), fileEntry_named, decide_eq_true rfl]
  · have hstart : clusterStart (fileVolume content).pd ([2].headD 0) = 1536 := by
      simp [clusterStart, fileVolume, smallVolume, sectorSize]
    rw [NearStart, hsize, hstart]
    refine ⟨Or.inl ?_, ?_⟩
    · show 0 + content.length ≤ 512
      omega
    · show 1536 + 0 + content.length ≤ 2 ^ 32
      omega

variable {s t : Vfs σ Fat16Files} {v : Fat16Volume} {f : Fat16File} {fd : ℤ} {pos index cluster : ℕ}
  {us : List (List UInt8)}

theorem Stores.opened (alien : ByteMemory) (h : Stores v us content f cluster) {k : ℕ}
    (hdisk : s.disks 65 = some (fat16 v)) (hi : s.freeIndex = some index)
    (hroom : s.drive.arena.HasRoom (k + (6 * us.length + 4))) :
    ∃ t, vfsFopen alien (drivePath us) modeRead s = .ok ((index : ℤ), t) ∧
      OnFile v f index 0 t ∧ t.drive.arena.HasRoom k := by
  obtain ⟨u, us, rfl⟩ : ∃ u us', us = u :: us' := by
    cases h.leads
    · exact ⟨_, _, rfl⟩
    · exact ⟨_, _, rfl⟩
  have hsum : k + (6 * (u :: us).length + 4) =
      k + 1 + (3 * us.length + 2) + 1 + (3 * us.length + 6) := by
    rw [List.length_cons]
    omega
  rw [hsum] at hroom
  obtain ⟨_, a₁, h₁, ⟨p, a, rest, rfl, hrest⟩, hr₁⟩ := @drivePath_total u us σ _ _ alien h.units
    h.path_le (k + 1 + (3 * us.length + 2) + 1) _ hroom
  obtain ⟨handle, a₂, h₂, hne, hr₂⟩ := kzallocUncheckedOne_total (n := 8) (by decide) _ a₁ hr₁
  obtain ⟨_, a₃, h₃, ⟨b, q, rfl⟩, hr₃⟩ := h.leads.getUnit_total alien hrest p a (k + 1) a₂ hr₂
  obtain ⟨d, a₄, h₄, -, hr₄⟩ := kzallocUncheckedOne_total (n := 16) (by decide) k a₃ hr₃
  generalize hunit : (⟨b, .file (some (q, f))⟩ : Fat16Unit) = unit at h₃
  let files := update s.drive.files handle (some ⟨unit, 0⟩)
  have hopen : fat16Open v alien ⟨p, 65, some ⟨a, u⟩, rest⟩ modeRead
      { s.drive with arena := a₁ } = .ok (handle, ⟨a₃, files⟩) := by
    have hfd : onArena (kzallocUnchecked 8) { s.drive with arena := a₁ } =
        .ok (handle, { s.drive with arena := a₂ }) := onArena_eq_ok.mpr ⟨a₂, h₂, rfl⟩
    have hget : onArena (fat16GetUnit v alien ⟨p, 65, some ⟨a, u⟩, rest⟩)
        { s.drive with arena := a₂ } = .ok (some unit, { s.drive with arena := a₃ }) :=
      onArena_eq_ok.mpr ⟨a₃, h₃, rfl⟩
    rw [fat16Open, if_neg (not_not.mpr rfl), bind_run_ok hfd, bind_run_ok hget]
    rfl
  have hlt := (freeIndex_some hi).1
  have hnew : vfsNewFileDescriptor (fat16 v) handle { s with drive := ⟨a₃, files⟩ } =
      .ok (some index, { s.setFd index (some ⟨index, fat16 v, handle⟩) with
        drive := ⟨a₄, files⟩ }) := by
    have hi' : Vfs.freeIndex { s with drive := ⟨a₃, files⟩ } = some index := hi
    rw [vfsNewFileDescriptor, bind_run_ok (gets_run _ _), hi']
    exact bind_run_ok (onDrive_eq_ok.mpr ⟨_, onArena_eq_ok.mpr ⟨a₄, h₄, rfl⟩, rfl⟩)
  have hpath : onDrive (onArena (parsePath alien (drivePath (u :: us)))) s =
      .ok (some ⟨p, 65, some ⟨a, u⟩, rest⟩, { s with drive := { s.drive with arena := a₁ } }) :=
    onDrive_eq_ok.mpr ⟨_, onArena_eq_ok.mpr ⟨a₁, h₁, rfl⟩, rfl⟩
  have hfs : onDrive ((fat16 v).fsOpen alien ⟨p, 65, some ⟨a, u⟩, rest⟩ modeRead)
      { s with drive := { s.drive with arena := a₁ } } =
      .ok (handle, { s with drive := ⟨a₃, files⟩ }) := onDrive_eq_ok.mpr ⟨_, hopen, rfl⟩
  refine ⟨{ s.setFd index (some ⟨index, fat16 v, handle⟩) with drive := ⟨a₄, files⟩ }, ?_,
    ⟨⟨index, fat16 v, handle⟩, b, q, ?_, rfl, ?_⟩, hr₄⟩
  · rw [vfsFopen, if_neg (by decide), bind_run_ok hpath]
    dsimp only
    rw [if_neg (by decide), bind_run_ok (gets_run _ _)]
    dsimp only
    rw [hdisk]
    refine (bind_run_ok hfs).trans ?_
    rw [if_neg hne]
    exact bind_run_ok hnew
  · rw [Vfs.openAt, if_pos ⟨by omega, by omega⟩, Int.toNat_natCast]
    exact update_self _ _ _
  · rw [hunit]
    exact update_self _ _ _

omit [RoomyAllocator σ] in
theorem onFile_stat (h : OnFile v f fd pos s) :
    vfsFstat fd s = .ok (((success : ℤ), some ⟨f.size, f.attributes.toNat⟩), s) := by
  obtain ⟨⟨index, fs, handle⟩, addr, p, hd, rfl, hh⟩ := h
  have hstat : fat16Stat handle s.drive =
      .ok (((success : ℤ), some ⟨f.size, f.attributes.toNat⟩), s.drive) :=
    bind_run_ok (handleAt_eq_ok.mpr ⟨hh, rfl⟩)
  exact vfsFstat_run hd hstat

omit [RoomyAllocator σ] in
theorem onFile_read_heap {dest size nmemb : ℕ} {r : ℤ} (h : OnFile v f fd pos s)
    (hr : vfsFread dest size nmemb fd s = .ok (r, t)) :
    t.drive.arena.heap = s.drive.arena.heap ∧ t.disks = s.disks := by
  obtain ⟨⟨index, fs, handle⟩, addr, p, hd, rfl, hh⟩ := h
  have hdel := vfsFread_delegates (openAt_isInt32 hd).2.2 hr
  rw [Delegates, hd] at hdel
  obtain ⟨x, d, hx, -, rfl⟩ := hdel
  exact ⟨(fat16Read_files hx).2, rfl⟩

theorem Stores.loaded [LawfulAllocator σ] (env : LoadEnv) {k : ℕ} (h : Stores v us content f cluster)
    (hpos : 0 < content.length) (hle : content.length ≤ 512)
    (hdisk : s.disks 65 = some (fat16 v)) (hi : s.freeIndex = some index)
    (hroom : s.drive.arena.HasRoom (k + (6 * us.length + 6))) :
    ∃ e t, FileLoaded env (drivePath us) s index e t ∧ e.fileSize = content.length ∧
      (∀ i < content.length, t.drive.arena.mem (e.data + i) = content.getD i 0) ∧
      t.drive.arena.HasRoom k := by
  have hsum : k + (6 * us.length + 6) = k + 2 + (6 * us.length + 4) := by omega
  rw [hsum] at hroom
  obtain ⟨s₁, h₁, hon, hr₁⟩ := h.opened env.path hdisk hi hroom
  obtain ⟨addr, a₂, h₂, haddr, hr₂⟩ := kzallocOne_total (n := elfFileSize) (by decide) (k + 1) _ hr₁
  obtain ⟨data, a₃, h₃, hdata, hr₃⟩ := kzallocOne_total (n := f.size)
    (by rw [h.size]; exact blocksOf_one hpos (by unfold pageSize; omega)) k a₂ hr₂
  have hon₂ : OnFile v f index 0 { s₁ with drive := { s₁.drive with arena := a₂ } } := hon
  have hon₃ : OnFile v f index 0 { s₁ with drive := { s₁.drive with arena := a₃ } } := hon
  have hin := (kzalloc_granted h₃ hdata).inside
  have hsize := h.size
  rw [blocksOf_one (by omega) (by unfold pageSize; omega)] at hin
  unfold pageSize at hin
  obtain ⟨t, h₄, -, hmem⟩ := @OnFile.read _ _ _ _ _ _ _ _ _ data f.size 1 hon₃ h.stored
    h.firstCluster (by omega) (by omega) (by omega) (fun j hj ↦ Or.inr (by
      rw [Nat.lt_one_iff.mp hj]
      exact h.near))
  refine ⟨⟨addr, data, f.size, 0, 0, 0, 0⟩, t, ?_, h.size, fun i hilt ↦ ?_, ?_⟩
  · exact .mk h₁ (Int.natCast_nonneg index)
      (onDrive_eq_ok.mpr ⟨_, onArena_eq_ok.mpr ⟨a₂, h₂, rfl⟩, rfl⟩) haddr (onFile_stat hon₂)
      (onDrive_eq_ok.mpr ⟨_, onArena_eq_ok.mpr ⟨a₃, h₃, rfl⟩, rfl⟩) hdata h₄
      (Int.natCast_nonneg success)
  · rw [hmem i (by omega), Nat.zero_add, h.bytes i hilt]
  · rw [Arena.HasRoom, (onFile_read_heap hon₃ h₄).1]
    exact hr₃

end GammaOS.Loader
