import GammaOS.Fs.Geometry

namespace GammaOS.Fs

open Function Foundation Foundation.Program Memory

/-- Where looking up the components of a path in turn ends. -/
inductive WalkEnd (σ : Type)
  | reached (unit : Fat16Unit) (s : Arena σ)
  | missing (found left : ℕ) (s : Arena σ)
  | plainFile (s : Arena σ)
  | unloaded
  | stuck (e : Fault)

section Walk

variable {σ : Type} [Allocator σ] (v : Fat16Volume) (alien : ByteMemory)

def walkFrom : List UnitStr → ℕ → Fat16Unit → Arena σ → WalkEnd σ
  | [], _, unit, s => .reached unit s
  | u :: rest, found, unit, s =>
    match unit.content with
    | .file _ => .plainFile s
    | .directory none => .unloaded
    | .directory (some (_, dir)) =>
      match fat16FindUnitInDirectory v alien dir (some u) s with
      | .error e => .stuck e
      | .ok (none, s') => .missing found rest.length s'
      | .ok (some next, s') => walkFrom rest (found + 1) next s'

def walk (first : UnitStr) (rest : List UnitStr) (s : Arena σ) : WalkEnd σ :=
  match fat16FindUnitInDirectory v alien v.pd.root (some first) s with
  | .error e => .stuck e
  | .ok (none, s') => .missing 0 rest.length s'
  | .ok (some unit, s') => walkFrom v alien rest 1 unit s'

end Walk

variable {σ : Type}

/-- The unit where all components are found, none where one is missing or a
plain file is to be gone through, and no null pointer is followed in any case. -/
def WalkEnd.Resolved (result : Except Fault (Option Fat16Unit × Arena σ)) : WalkEnd σ → Prop
  | .reached unit s' => result = .ok (some unit, s')
  | .missing _ _ s' => result = .ok (none, s')
  | .plainFile s' => result = .ok (none, s')
  | .unloaded => result ≠ .error .nullDeref
  | .stuck _ => result ≠ .error .nullDeref

/-- A missing component is the first or the last of the path, and every
directory that is gone through could be loaded. -/
def WalkEnd.Passable : WalkEnd σ → Prop
  | .missing found left _ => found = 0 ∨ left = 0
  | .unloaded => False
  | _ => True

variable [Allocator σ] {v : Fat16Volume} {alien : ByteMemory}

theorem findUnit_not_null {dir : Fat16Directory} {u : UnitStr} {s : Arena σ} {e : Fault}
    (h : fat16FindUnitInDirectory v alien dir (some u) s = .error e) : e ≠ .nullDeref := by
  rintro rfl
  have hu : some u = none → Fault.nullDeref ≠ Fault.nullDeref := nofun
  exact findUnitLoop_avoids (fat16LoadDirectory_avoids (volume_avoids_nullDeref v)) hu _ _ _ s h

theorem getUnitLoop_walkFrom : ∀ (rest : List UnitStr) found unit (s : Arena σ), found ≠ 0 →
    ((walkFrom v alien rest found unit s).Resolved (getUnitLoop v alien rest (some unit) s) ↔
      (walkFrom v alien rest found unit s).Passable) := by
  intro rest
  induction rest with
  | nil => exact fun _ _ _ _ ↦ iff_of_true rfl trivial
  | cons u rest ih =>
    intro found unit s hfound
    obtain ⟨addr, (_ | ⟨p, dir⟩) | file⟩ := unit
    · exact iff_of_false (fun h ↦ h rfl) id
    · simp only [walkFrom, getUnitLoop]
      cases hfind : fat16FindUnitInDirectory v alien dir (some u) s with
      | error e =>
        rw [bind_run_error hfind]
        exact iff_of_true (fun h ↦ findUnit_not_null hfind (Except.error.inj h)) trivial
      | ok r =>
        obtain ⟨next, s'⟩ := r
        rw [bind_run_ok hfind]
        cases next with
        | some next => exact ih (found + 1) next s' (Nat.succ_ne_zero found)
        | none =>
          cases rest with
          | nil => exact iff_of_true rfl (Or.inr rfl)
          | cons w rest => exact iff_of_false nofun (by rintro (h | h); exacts [hfound h, nomatch h])
    · exact iff_of_true rfl trivial

/-- A path is resolved as it should be exactly when no component in its middle
is missing and no directory on its way fails to load. -/
theorem getUnit_resolved_iff (v : Fat16Volume) (alien : ByteMemory) (addr : ℕ) (drive : UInt8)
    (first : UnitStr) (rest : List UnitStr) (s : Arena σ) :
    (walk v alien first rest s).Resolved (fat16GetUnit v alien ⟨addr, drive, some first, rest⟩ s) ↔
      (walk v alien first rest s).Passable := by
  rw [walk, fat16GetUnit]
  cases hfind : fat16FindUnitInDirectory v alien v.pd.root (some first) s with
  | error e =>
    rw [bind_run_error hfind]
    exact iff_of_true (fun h ↦ findUnit_not_null hfind (Except.error.inj h)) trivial
  | ok r =>
    obtain ⟨unit, s'⟩ := r
    rw [bind_run_ok hfind]
    cases unit with
    | none => exact iff_of_true rfl (Or.inl rfl)
    | some unit => exact getUnitLoop_walkFrom rest 1 unit s' Nat.one_ne_zero

def nestedDisk : Disk := fun sector i ↦
  match sector with
  | 2 => ((68 : UInt8) :: List.replicate 10 0x20 ++ [0x10] ++ List.replicate 14 0 ++ [2, 0]).getD i 0
  | 3 => ((70 : UInt8) :: List.replicate 10 0x20 ++ List.replicate 15 0 ++ [3, 0, 1]).getD i 0
  | _ => oneFileDisk 1 sector i

def nestedDirectory : Fat16File :=
  ⟨68 :: List.replicate 7 0x20, List.replicate 3 0x20, 0x10, 0, 2, 0⟩

def nestedData (files : ℕ) : Fat16PrivateData where
  header := ⟨1, 1, 1, 16, 1, 0x29⟩
  root := ⟨files, (diskStreamRead nestedDisk 1024 512).bytes, 1, 2, 2⟩

set_option maxRecDepth 3000 in
theorem nestedRoot_entry (files : ℕ) : HasEntry (nestedData files).root [68] nestedDirectory := by
  have hread := @diskStreamRead_bytes nestedDisk 1024 512 (by decide) (by decide)
  have hentry : ∀ alien, (nestedData files).root.fileAt alien 0 = nestedDirectory :=
    fun alien ↦ (fileAt_read alien hread (by decide)).trans rfl
  refine ⟨0, Nat.one_pos, fun alien ↦ ⟨hentry alien, fun j hj ↦ ?_⟩⟩
  rw [Nat.lt_one_iff.mp hj, hentry]
  decide +kernel

theorem nestedDirectory_loads (files : ℕ) : Subdirectory ⟨nestedDisk, nestedData files⟩
    nestedDirectory (diskStreamRead nestedDisk 1536 32).bytes 1 where
  isDirectory := by decide
  total := by
    have hsector : fat16ClusterToSector (nestedData files) nestedDirectory.firstCluster = 3 := by
      show fat16ClusterToSector (nestedData 0) 2 = 3
      decide
    have htotal : fat16TotalFilesInDirectory nestedDisk 3 = .ok 1 :=
      totalFiles_eq_ok.mpr ⟨1, ⟨rfl, by decide⟩, by decide⟩
    rw [hsector]
    exact htotal
  pos := Nat.one_pos
  page := by decide
  read := by
    have hsize : (nestedData files).clusterSize = 512 := by
      show 1 * sectorSize = 512
      decide
    have hsector : u32 (fat16ClusterToSector (nestedData files) (ofInt32 (fat16FollowChain
        (fat16GetEntry nestedDisk (nestedData files)) (0 / 512) 2)) * sectorSize + 0) = 1536 := by
      show u32 (fat16ClusterToSector (nestedData 0) (ofInt32 (toInt32 2)) * sectorSize + 0) = 1536
      decide
    have hread := @fat16ReadFromDisk_small nestedDisk (nestedData files) 2 0 32
      (by rw [hsize]; decide) (by rw [hsize]; decide)
    rw [hsize, hsector] at hread
    exact hread

/-- A path that goes on behind a missing component follows a null pointer. -/
theorem missing_middle_dereferences : ∃ pd s' s'',
    fat16Resolve nestedDisk (freshArena false) = .ok (some pd, s') ∧
      walk ⟨nestedDisk, pd⟩ (fun _ ↦ 0) ⟨0, [68]⟩ [⟨0, [88]⟩, ⟨0, [89]⟩] s' = .missing 1 1 s'' ∧
      fat16GetUnit ⟨nestedDisk, pd⟩ (fun _ ↦ 0) ⟨0, 65, some ⟨0, [68]⟩, [⟨0, [88]⟩, ⟨0, [89]⟩]⟩ s' =
        .error .nullDeref ∧
      ¬ (walk ⟨nestedDisk, pd⟩ (fun _ ↦ 0) ⟨0, [68]⟩ [⟨0, [88]⟩, ⟨0, [89]⟩] s').Resolved
        (fat16GetUnit ⟨nestedDisk, pd⟩ (fun _ ↦ 0)
          ⟨0, 65, some ⟨0, [68]⟩, [⟨0, [88]⟩, ⟨0, [89]⟩]⟩ s') := by
  have hboot : nestedDisk 0 = oneFileDisk 1 0 := rfl
  have htotal : fat16TotalFilesInDirectory nestedDisk 2 = .ok 1 :=
    totalFiles_eq_ok.mpr ⟨1, ⟨rfl, by decide⟩, by decide⟩
  have hresolve : Total (Arena.HasRoom (σ := KHeap false) 10) (fat16Resolve nestedDisk)
      (fun pd s ↦ (∃ files, pd = some (nestedData files)) ∧ s.HasRoom 3) :=
    bootRecord_resolved hboot htotal 3
  obtain ⟨_, s', h, ⟨files, rfl⟩, hr⟩ :=
    hresolve (freshArena false) (freshArena_room false (by decide))
  let v : Fat16Volume := ⟨nestedDisk, nestedData files⟩
  obtain ⟨_, s'', hnew, ⟨a, b, q, rfl⟩, -⟩ := newUnit_directory (nestedDirectory_loads files) 0 s' hr
  have hroot : fat16FindUnitInDirectory v (fun _ ↦ 0) v.pd.root (some ⟨0, [68]⟩) s' = _ :=
    findUnit_eq (nestedRoot_entry files) hnew 0
  generalize hdir : (⟨q, (diskStreamRead nestedDisk 1536 32).bytes, 1,
    fat16ClusterToSector (nestedData files) nestedDirectory.firstCluster, 0⟩ : Fat16Directory) = dir
    at hroot
  have hread := @diskStreamRead_bytes nestedDisk 1536 32 (by decide) (by decide)
  have hfile : dir.fileAt (fun _ ↦ 0) 0 =
      ⟨70 :: List.replicate 7 0x20, List.replicate 3 0x20, 0, 0, 3, 1⟩ := by
    rw [← hdir]
    exact (fileAt_read _ hread (by decide)).trans rfl
  have hother : sameName (dir.fileAt (fun _ ↦ 0) 0) [88] = false := by
    rw [hfile]
    decide +kernel
  have hmiss : fat16FindUnitInDirectory v (fun _ ↦ 0) dir (some ⟨0, [88]⟩) s'' = .ok (none, s'') := by
    have hskip : findUnitLoop (σ := KHeap false) v (fun _ ↦ 0) dir (some ⟨0, [88]⟩) 1 0 none =
        pure none := by
      refine findUnitLoop_skip 0 1 0 (fun j _ hj ↦ ?_)
      rw [Nat.lt_one_iff.mp (by omega : j < 1)]
      exact hother
    have hone : dir.totalFiles = 1 := by rw [← hdir]
    rw [fat16FindUnitInDirectory, hone, hskip]
    rfl
  have hwalk : walk v (fun _ ↦ 0) ⟨0, [68]⟩ [⟨0, [88]⟩, ⟨0, [89]⟩] s' = .missing 1 1 s'' := by
    rw [walk, hroot]
    simp only [walkFrom]
    rw [hmiss]
    rfl
  have hget : fat16GetUnit v (fun _ ↦ 0) ⟨0, 65, some ⟨0, [68]⟩, [⟨0, [88]⟩, ⟨0, [89]⟩]⟩ s' =
      .error .nullDeref := by
    rw [fat16GetUnit, bind_run_ok hroot]
    simp only [getUnitLoop]
    rw [bind_run_ok hmiss]
    rfl
  refine ⟨_, s', s'', h, hwalk, hget, ?_⟩
  rw [hwalk, hget]
  exact nofun

end GammaOS.Fs
