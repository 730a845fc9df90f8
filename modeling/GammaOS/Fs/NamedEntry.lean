import GammaOS.Fs.DirectoryLookup
import GammaOS.Fs.DriverErrors

namespace GammaOS.Fs

open Function Foundation Foundation.Program Memory

def lastNamed (entries : ℕ → Fat16File) (u : List UInt8) : ℕ → Option Fat16File
  | 0 => none
  | n + 1 => if sameName (entries n) u then some (entries n) else lastNamed entries u n

def subdirectory (v : Fat16Volume) (file : Fat16File) : Option Fat16Directory :=
  let firstSector := fat16ClusterToSector v.pd file.firstCluster
  (fat16TotalFilesInDirectory v.disk firstSector).toOption.bind fun totalFiles ↦
    (fat16ReadFromDisk v.disk v.pd file.firstCluster 0 (u32 (totalFiles * 32))).toOption.map
      fun read ↦ ⟨0, read.2, totalFiles, firstSector, 0⟩

def entryFrom (v : Fat16Volume) (alien : ByteMemory) (dir : Fat16Directory) (u : UnitStr) :
    List UnitStr → Option Fat16File
  | [] => lastNamed (dir.fileAt alien) u.str dir.totalFiles
  | w :: us =>
    (lastNamed (dir.fileAt alien) u.str dir.totalFiles).bind fun file ↦
      (subdirectory v file).bind fun dir ↦ entryFrom v alien dir w us

def namedEntry (v : Fat16Volume) (alien : ByteMemory) (path : Path) : Option Fat16File :=
  match path.first with
  | none => none
  | some u => entryFrom v alien v.pd.root u path.rest

def NamesDirectory (v : Fat16Volume) (alien : ByteMemory) (path : Path) : Prop :=
  ∃ file, namedEntry v alien path = some file ∧ file.isDirectory = true

variable {v : Fat16Volume} {alien : ByteMemory} {dir dir' : Fat16Directory} {file : Fat16File}
  {entries entries' : ℕ → Fat16File} {u : List UInt8}

theorem lastNamed_eq {i : ℕ} (hi : sameName (entries i) u = true) : ∀ n, i < n →
    (∀ l, i < l → l < n → ¬ sameName (entries l) u = true) →
    lastNamed entries u n = some (entries i) := by
  intro n
  induction n with
  | zero => intro h; omega
  | succ n ih =>
    intro hlt hlater
    rw [lastNamed]
    rcases Nat.eq_or_lt_of_le (Nat.le_of_lt_succ hlt) with rfl | hlt'
    · rw [if_pos hi]
    · rw [if_neg (hlater n hlt' (Nat.lt_succ_self n))]
      exact ih hlt' (fun l h₁ h₂ ↦ hlater l h₁ (by omega))

theorem lastNamed_some {file : Fat16File} : ∀ n, lastNamed entries u n = some file →
    ∃ i < n, entries i = file ∧ sameName (entries i) u = true ∧
      ∀ l, i < l → l < n → ¬ sameName (entries l) u = true := by
  intro n
  induction n with
  | zero => intro h; cases h
  | succ n ih =>
    intro h
    rw [lastNamed] at h
    by_cases hn : sameName (entries n) u = true
    · rw [if_pos hn] at h
      exact ⟨n, Nat.lt_succ_self n, Option.some.inj h, hn, fun l h₁ h₂ ↦ by omega⟩
    · rw [if_neg hn] at h
      obtain ⟨i, hi, he, hname, hlater⟩ := ih h
      refine ⟨i, Nat.lt_succ_of_lt hi, he, hname, fun l h₁ h₂ ↦ ?_⟩
      rcases Nat.eq_or_lt_of_le (Nat.le_of_lt_succ h₂) with rfl | hlt
      · exact hn
      · exact hlater l h₁ hlt

theorem lastNamed_of_name {i : ℕ} (hi : sameName (entries i) u = true) : ∀ n, i < n →
    ∃ file, lastNamed entries u n = some file := by
  intro n
  induction n with
  | zero => intro h; omega
  | succ n ih =>
    intro hlt
    rw [lastNamed]
    by_cases hn : sameName (entries n) u = true
    · exact ⟨_, if_pos hn⟩
    · rw [if_neg hn]
      refine ih (Nat.lt_of_le_of_ne (Nat.le_of_lt_succ hlt) ?_)
      rintro rfl
      exact hn hi

theorem lastNamed_congr : ∀ n, (∀ i < n, entries i = entries' i) →
    lastNamed entries u n = lastNamed entries' u n := by
  intro n
  induction n with
  | zero => exact fun _ ↦ rfl
  | succ n ih =>
    intro h
    rw [lastNamed, lastNamed, h n (Nat.lt_succ_self n), ih (fun i hi ↦ h i (by omega))]

/-- Two directories whose entries were all read from the same bytes. -/
structure SameEntries (dir dir' : Fat16Directory) : Prop where
  image : dir.image = dir'.image
  total : dir.totalFiles = dir'.totalFiles
  covered : 32 * dir.totalFiles ≤ dir.image.length

theorem SameEntries.fileAt (h : SameEntries dir dir') (alien : ByteMemory) {i : ℕ}
    (hi : i < dir.totalFiles) : dir.fileAt alien i = dir'.fileAt alien i := by
  refine ofBytes_file_congr (fun k hk ↦ ?_)
  have hcov := h.covered
  have hlt : 32 * i + k < dir.image.length := by omega
  rw [← h.image, List.getElem?_eq_getElem hlt, Option.getD_some, Option.getD_some]

theorem SameEntries.lastNamed (h : SameEntries dir dir') (alien : ByteMemory) (u : List UInt8) :
    lastNamed (dir.fileAt alien) u dir.totalFiles =
      Fs.lastNamed (dir'.fileAt alien) u dir'.totalFiles := by
  rw [← h.total]
  exact lastNamed_congr _ (fun i hi ↦ h.fileAt alien hi)

theorem SameEntries.entryFrom (h : SameEntries dir dir') (u : UnitStr) (us : List UnitStr) :
    entryFrom v alien dir u us = Fs.entryFrom v alien dir' u us := by
  cases us with
  | nil =>
    rw [Fs.entryFrom, Fs.entryFrom]
    exact h.lastNamed alien u.str
  | cons w us => rw [Fs.entryFrom, Fs.entryFrom, h.lastNamed alien u.str]

section Units

variable {σ : Type} [Allocator σ] {s s' : Arena σ} {unit : Fat16Unit}

/-- The unit made of an entry is a directory when the entry is one, and the
directory that is loaded for it has the entries of the disk. -/
structure MadeOf (v : Fat16Volume) (unit : Fat16Unit) (file : Fat16File) : Prop where
  directory : unit.IsDirectory ↔ file.isDirectory = true
  loaded : ∀ p dir, unit.content = .directory (some (p, dir)) →
    ∃ dir', subdirectory v file = some dir' ∧ SameEntries dir dir'

theorem loadDirectory_entries {p : ℕ} (h : fat16LoadDirectory v file s = .ok (some (p, dir), s')) :
    ∃ dir', subdirectory v file = some dir' ∧ SameEntries dir dir' := by
  obtain ⟨htotal, -, status, hread⟩ := fat16LoadDirectory_result h
  have hlt := totalFiles_lt htotal
  have hlen := fat16ReadFromDisk_length hread
  rw [u32_of_lt (by omega)] at hlen
  have hsub : subdirectory v file = some ⟨0, dir.image, dir.totalFiles,
      fat16ClusterToSector v.pd file.firstCluster, 0⟩ := by
    rw [subdirectory, htotal, Except.toOption, Option.bind_some, hread]
    rfl
  exact ⟨_, hsub, rfl, rfl, Nat.le_of_eq (by rw [hlen, Nat.mul_comm])⟩

theorem newUnit_madeOf (h : fat16NewFatUnitForDirectoryUnit v file s = .ok (some unit, s')) :
    MadeOf v unit file := by
  obtain ⟨addr, s₁, -, h⟩ := bind_eq_ok.mp h
  by_cases haddr : addr = 0
  · rw [if_pos haddr] at h
    cases h
  rw [if_neg haddr] at h
  by_cases hd : file.isDirectory = true
  · rw [if_pos hd] at h
    obtain ⟨loaded, s₂, hload, h⟩ := bind_eq_ok.mp h
    cases h
    refine ⟨iff_of_true trivial hd, fun p dir hc ↦ ?_⟩
    cases hc
    exact loadDirectory_entries hload
  · rw [if_neg hd] at h
    obtain ⟨clone, s₂, -, h⟩ := bind_eq_ok.mp h
    cases h
    exact ⟨iff_of_false id hd, fun p dir hc ↦ by cases hc⟩

theorem findUnit_madeOf {str : UnitStr}
    (h : fat16FindUnitInDirectory v alien dir (some str) s = .ok (some unit, s')) :
    ∃ file, lastNamed (dir.fileAt alien) str.str dir.totalFiles = some file ∧
      MadeOf v unit file := by
  obtain ⟨-, hnone, -⟩ | ⟨l, -, hl, hsame, hlater, s₁, hnew⟩ := findUnitLoop_lastMatch _ 0 none s h
  · cases hnone
  · rw [Nat.zero_add] at hl hlater
    exact ⟨_, lastNamed_eq hsame _ hl hlater, newUnit_madeOf hnew⟩

theorem getUnitLoop_cons {first : Fat16Unit} {w : UnitStr} {us : List UnitStr}
    (h : getUnitLoop v alien (w :: us) (some first) s = .ok (some unit, s')) :
    ∃ p dir, first.content = .directory (some (p, dir)) ∧
      ∃ found s₁, fat16FindUnitInDirectory v alien dir (some w) s = .ok (some found, s₁) ∧
        getUnitLoop v alien us (some found) s₁ = .ok (some unit, s') := by
  rw [getUnitLoop] at h
  obtain ⟨addr, (_ | ⟨p, dir⟩) | _⟩ := first
  · cases h
  · obtain ⟨found, s₁, hsearch, h⟩ := bind_eq_ok.mp h
    cases found with
    | none => cases us <;> cases h
    | some found => exact ⟨p, dir, rfl, found, s₁, hsearch, h⟩
  · cases h

theorem getUnitLoop_madeOf : ∀ (us : List UnitStr) (w : UnitStr) (dir : Fat16Directory)
    {first : Fat16Unit} {s₀ s : Arena σ},
    fat16FindUnitInDirectory v alien dir (some w) s₀ = .ok (some first, s) →
    getUnitLoop v alien us (some first) s = .ok (some unit, s') →
    ∃ file, entryFrom v alien dir w us = some file ∧ MadeOf v unit file := by
  intro us
  induction us with
  | nil =>
    intro w dir first s₀ s hfind h
    cases h
    rw [entryFrom]
    exact findUnit_madeOf hfind
  | cons w' us ih =>
    intro w dir first s₀ s hfind h
    obtain ⟨file, hlast, hmade⟩ := findUnit_madeOf hfind
    obtain ⟨p, sub, hc, found, s₁, hsearch, hrest⟩ := getUnitLoop_cons h
    obtain ⟨dir', hsub, hsame⟩ := hmade.loaded p sub hc
    rw [entryFrom, hlast, Option.bind_some, hsub, Option.bind_some, ← hsame.entryFrom]
    exact ih w' sub hsearch hrest

theorem getUnit_madeOf {path : Path} (h : fat16GetUnit v alien path s = .ok (some unit, s')) :
    ∃ file, namedEntry v alien path = some file ∧ MadeOf v unit file := by
  obtain ⟨found, s₁, hfind, h⟩ := bind_eq_ok.mp h
  cases found with
  | none => cases h
  | some root =>
    cases hfirst : path.first with
    | none =>
      rw [hfirst, fat16FindUnitInDirectory] at hfind
      cases htotal : v.pd.root.totalFiles with
      | zero =>
        rw [htotal] at hfind
        cases hfind
      | succ n =>
        rw [htotal] at hfind
        cases hfind
    | some str =>
      rw [hfirst] at hfind
      rw [namedEntry, hfirst]
      exact getUnitLoop_madeOf path.rest str _ hfind h

end Units

end GammaOS.Fs
