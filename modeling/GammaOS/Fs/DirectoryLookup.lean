import GammaOS.Fs.EntryName
import GammaOS.Fs.Fat16ReadBack
import GammaOS.Fs.Geometry
import Mathlib.Data.Nat.ModEq

namespace GammaOS.Fs

open Function Foundation Foundation.Program Memory

def Fat16File.firstByte (f : Fat16File) : UInt8 := f.name.headD 0

/-- Not a deleted entry, not a piece of a long name, not a volume label. -/
structure Fat16File.Live (f : Fat16File) : Prop where
  not_deleted : f.firstByte ≠ 0xE5
  not_piece : f.attributes ≠ 0x0F
  not_label : f.attributes &&& 0x08 = 0

/-- A directory of a disk: the entries it has there, the sector from which its
entries are counted, and what its array holds for them. -/
structure Listing where
  stored : ℕ → Fat16File
  capacity : ℕ
  sector : ℕ
  loaded : ℕ → Fat16File
  fits : ℕ → Prop

structure Listing.LiveAt (d : Listing) (j : ℕ) : Prop where
  inside : j < d.capacity
  before : ∀ i ≤ j, (d.stored i).firstByte ≠ 0
  live : (d.stored j).Live

def rootListing (v : Fat16Volume) : Listing where
  stored i := .ofBytes (fun k ↦ v.disk.byteAt (v.pd.header.rootSector * sectorSize + (32 * i + k)))
  capacity := v.pd.header.rootDirEntries
  sector := v.pd.header.rootSector
  loaded i := .ofBytes (fun k ↦
    v.disk.byteAt (u32 (u32 (v.pd.header.rootSector * sectorSize) + (32 * i + k))))
  fits n := n ≤ v.pd.header.rootDirEntries

/-- Byte `b` as `fat16_read_from_disk` reads it from the start of a chain: it
adds the whole of `b` to the start of the cluster in which `b` lies. -/
def readByte (v : Fat16Volume) (firstCluster b : ℕ) : UInt8 :=
  v.disk.byteAt (u32 (fat16ClusterToSector v.pd (ofInt32 (fat16FollowChain
    (fat16GetEntry v.disk v.pd) (b / v.pd.clusterSize) firstCluster)) * sectorSize + b))

def subListing (v : Fat16Volume) (cs : List ℕ) : Listing where
  stored i := .ofBytes (fun k ↦ chainByte v.disk v.pd cs (32 * i + k))
  capacity := cs.length * v.pd.clusterSize / 32
  sector := fat16ClusterToSector v.pd (cs.headD 0)
  loaded i := .ofBytes (fun k ↦ readByte v (cs.headD 0) (32 * i + k))
  fits _ := True

inductive LoadedDirectory (v : Fat16Volume) : Listing → Fat16Directory → Prop
  | root : LoadedDirectory v (rootListing v) v.pd.root
  | sub {σ : Type} [Allocator σ] {s s' : Arena σ} {file : Fat16File} {cs : List ℕ} {p : ℕ}
      {dir : Fat16Directory} : IsChain v.disk v.pd cs → file.firstCluster = cs.headD 0 →
      fat16LoadDirectory v file s = .ok (some (p, dir), s') →
      LoadedDirectory v (subListing v cs) dir

/-- A search for `u` ends with the unit made of a live entry of that name, or
with none when no live entry has the name. -/
def Listing.Finds {σ : Type} [Allocator σ] (d : Listing) (v : Fat16Volume) (u : List UInt8)
    (s : Arena σ) (unit : Option Fat16Unit) (s' : Arena σ) : Prop :=
  (∃ j, d.LiveAt j ∧ HasName (d.stored j) u ∧
    ∃ s₁, fat16NewFatUnitForDirectoryUnit v (d.stored j) s₁ = .ok (unit, s')) ∨
  (unit = none ∧ s' = s ∧ ∀ j, d.LiveAt j → ¬ HasName (d.stored j) u)

def LookupExact (v : Fat16Volume) (d : Listing) (dir : Fat16Directory) : Prop :=
  ∀ (σ : Type) [Allocator σ] (alien : ByteMemory) (addr : ℕ) (u : List UInt8),
    u.length < fsMaxPathUnitLength → 0 ∉ u → ∀ s : Arena σ, ∃ unit s',
      fat16FindUnitInDirectory v alien dir (some ⟨addr, u⟩) s = .ok (unit, s') ∧
        d.Finds v u s unit s'

def SameName (f g : Fat16File) : Prop :=
  (fat16GetFullRelativeName f).map lowerCase = (fat16GetFullRelativeName g).map lowerCase

/-- Entries that the same unit is made of: a directory is known by its first cluster. -/
def SameUnit (f g : Fat16File) : Prop :=
  f = g ∨ (f.isDirectory = true ∧ g.isDirectory = true ∧ f.firstCluster = g.firstCluster)

/-- Of the first `n` entries of the array, the last of each name is a live entry
of the directory, and every live entry has one of its name among them. -/
structure Listing.InOrder (d : Listing) (v : Fat16Volume) (n : ℕ) : Prop where
  fits : d.fits n
  clusters : ∀ i < n, (d.loaded i).isDirectory = true → 1 ≤ v.pd.header.sectorsPerCluster
  found : ∀ i < n, (∀ l < n, i < l → ¬ SameName (d.loaded l) (d.loaded i)) →
    ∃ j, d.LiveAt j ∧ SameName (d.stored j) (d.loaded i) ∧ SameUnit (d.loaded i) (d.stored j)
  complete : ∀ j, d.LiveAt j → ∃ i < n, SameName (d.loaded i) (d.stored j)

variable {v : Fat16Volume} {d : Listing} {dir : Fat16Directory} {f g : Fat16File}

section Units

variable {σ : Type} [Allocator σ]

theorem SameUnit.newUnit_eq (h : SameUnit f g) :
    fat16NewFatUnitForDirectoryUnit (σ := σ) v f = fat16NewFatUnitForDirectoryUnit v g := by
  rcases h with rfl | ⟨hf, hg, hc⟩
  · rfl
  · have hload : fat16LoadDirectory (σ := σ) v f = fat16LoadDirectory v g := by
      unfold fat16LoadDirectory
      rw [hf, hg, hc]
    unfold fat16NewFatUnitForDirectoryUnit
    simp only [hf, hg, hload, if_true]

def Marked (disk : Disk) : Prop := ∀ sector, ∃ n, fat16TotalFilesInDirectory disk sector = .ok n

theorem marked_of_scanEnd {disk : Disk} {sector k : ℕ} (h : ScanEnd disk sector k) : Marked disk := by
  intro sector'
  have hplace : scanPos sector' (16 * sector + k + (2 ^ 27 - 1) * (16 * sector')) =
      scanPos sector k := by
    unfold scanPos sectorSize u32
    omega
  have hzero : scanByte disk sector' (16 * sector + k + (2 ^ 27 - 1) * (16 * sector')) = 0 := by
    rw [scanByte, hplace]
    exact h.zero
  obtain ⟨e, he, -⟩ := scanEnd_of_zero hzero
  exact ⟨_, he.total⟩

theorem loadDirectory_returns (hmark : Marked v.disk) (hpos : v.pd.clusterSize ≠ 0) (f : Fat16File)
    (s : Arena σ) : ∃ r, fat16LoadDirectory v f s = .ok r := by
  obtain ⟨p, s₁, h₁⟩ : ∃ p s₁, kzalloc 16 s = .ok (p, s₁) := ⟨_, _, rfl⟩
  obtain ⟨n, hn⟩ := hmark (fat16ClusterToSector v.pd f.firstCluster)
  obtain ⟨bytes, hbytes, -⟩ := @fat16ReadFromDisk_total v.disk v.pd f.firstCluster hpos 0
    (u32 (n * 32))
  obtain ⟨q, s₂, h₂⟩ : ∃ q s₂, kzalloc (u32 (n * 32)) s₁ = .ok (q, s₂) := ⟨_, _, rfl⟩
  rw [fat16LoadDirectory, bind_run_ok h₁]
  by_cases hp : p = 0
  · rw [if_pos hp]
    exact ⟨_, rfl⟩
  rw [if_neg hp]
  by_cases hd : ¬ f.isDirectory = true
  · rw [if_pos hd]
    exact ⟨_, rfl⟩
  rw [if_neg hd, bind_run_ok (ofExcept_eq_ok.mpr ⟨hn, rfl⟩)]
  by_cases hq : q = 0
  · refine ⟨(none, s₂), (bind_run_ok h₂).trans ?_⟩
    rw [if_pos hq]
    rfl
  · refine ⟨(some (p, ⟨q, bytes, n, fat16ClusterToSector v.pd f.firstCluster, 0⟩),
      ⟨s₂.heap, s₂.mem.writeBytes q bytes⟩), (bind_run_ok h₂).trans ?_⟩
    rw [if_neg hq, bind_run_ok (ofExcept_eq_ok.mpr ⟨hbytes, rfl⟩)]
    rfl

theorem newUnit_returns (hmark : Marked v.disk) (hf : f.isDirectory = true → v.pd.clusterSize ≠ 0)
    (s : Arena σ) : ∃ r, fat16NewFatUnitForDirectoryUnit v f s = .ok r := by
  obtain ⟨p, s₁, h₁⟩ : ∃ p s₁, kzalloc 8 s = .ok (p, s₁) := ⟨_, _, rfl⟩
  rw [fat16NewFatUnitForDirectoryUnit, bind_run_ok h₁]
  by_cases hp : p = 0
  · rw [if_pos hp]
    exact ⟨_, rfl⟩
  rw [if_neg hp]
  by_cases hd : f.isDirectory = true
  · obtain ⟨⟨loaded, s₂⟩, h₂⟩ := loadDirectory_returns hmark (hf hd) f s₁
    rw [if_pos hd]
    exact ⟨_, bind_run_ok h₂⟩
  · rw [if_neg hd]
    have hclone : ∃ r, fat16CloneFile f s₁ = .ok r := by
      obtain ⟨q, s₂, h₂⟩ : ∃ q s₂, kzalloc 32 s₁ = .ok (q, s₂) := ⟨_, _, rfl⟩
      rw [fat16CloneFile, bind_run_ok h₂]
      split
      · exact ⟨_, rfl⟩
      · exact ⟨_, rfl⟩
    obtain ⟨⟨copy, s₂⟩, h₂⟩ := hclone
    exact ⟨_, bind_run_ok h₂⟩

/-- What a search of `n` entries ends with: the unit of the last match, or what
it started with when there is none. -/
def LastMatch (v : Fat16Volume) (entries : ℕ → Fat16File) (u : List UInt8) (i n : ℕ)
    (unit₀ : Option Fat16Unit) (s : Arena σ) (unit : Option Fat16Unit) (s' : Arena σ) : Prop :=
  ((∀ l, i ≤ l → l < i + n → ¬ sameName (entries l) u = true) ∧ unit = unit₀ ∧ s' = s) ∨
  ∃ l, i ≤ l ∧ l < i + n ∧ sameName (entries l) u = true ∧
    (∀ l', l < l' → l' < i + n → ¬ sameName (entries l') u = true) ∧
    ∃ s₁, fat16NewFatUnitForDirectoryUnit v (entries l) s₁ = .ok (unit, s')

theorem LastMatch.cons {entries : ℕ → Fat16File} {u : List UInt8} {i n : ℕ} {s s₁ s' : Arena σ}
    {unit unit₀ unit₁ : Option Fat16Unit} (h : LastMatch v entries u (i + 1) n unit₁ s₁ unit s')
    (hhead : (¬ sameName (entries i) u = true ∧ unit₁ = unit₀ ∧ s₁ = s) ∨
      (sameName (entries i) u = true ∧
        fat16NewFatUnitForDirectoryUnit v (entries i) s = .ok (unit₁, s₁))) :
    LastMatch v entries u i (n + 1) unit₀ s unit s' := by
  rcases h with ⟨hnone, rfl, rfl⟩ | ⟨l, hl, hln, hsame, hlater, hnew⟩
  · have hbehind : ∀ l, i < l → l < i + (n + 1) → ¬ sameName (entries l) u = true :=
      fun l h₁ h₂ ↦ hnone l (by omega) (by omega)
    rcases hhead with ⟨hne, rfl, rfl⟩ | ⟨hsame, hnew⟩
    · refine Or.inl ⟨fun l h₁ h₂ ↦ ?_, rfl, rfl⟩
      rcases Nat.eq_or_lt_of_le h₁ with rfl | hlt
      · exact hne
      · exact hbehind l hlt h₂
    · exact Or.inr ⟨i, Nat.le_refl i, by omega, hsame, hbehind, s, hnew⟩
  · exact Or.inr ⟨l, by omega, by omega, hsame, fun l' h₁ h₂ ↦ hlater l' h₁ (by omega), hnew⟩

variable {alien : ByteMemory} {u : List UInt8} {addr : ℕ}

theorem findUnitLoop_lastMatch : ∀ n i unit₀ (s : Arena σ) {unit s'},
    findUnitLoop v alien dir (some ⟨addr, u⟩) n i unit₀ s = .ok (unit, s') →
    LastMatch v (dir.fileAt alien) u i n unit₀ s unit s' := by
  intro n
  induction n with
  | zero =>
    intro i unit₀ s unit s' h
    cases h
    exact Or.inl ⟨fun l h₁ h₂ ↦ by omega, rfl, rfl⟩
  | succ n ih =>
    intro i unit₀ s unit s' h
    rw [findUnitLoop] at h
    by_cases hsame : sameName (dir.fileAt alien i) u = true
    · rw [if_pos hsame] at h
      obtain ⟨unit₁, s₁, hnew, h⟩ := bind_eq_ok.mp h
      exact (ih (i + 1) unit₁ s₁ h).cons (Or.inr ⟨hsame, hnew⟩)
    · rw [if_neg hsame] at h
      exact (ih (i + 1) unit₀ s h).cons (Or.inl ⟨hsame, rfl, rfl⟩)

theorem findUnitLoop_returns (alien : ByteMemory) (str : UnitStr) : ∀ n i unit₀ (s : Arena σ),
    (∀ l, i ≤ l → l < i + n → ∀ s : Arena σ,
      ∃ r, fat16NewFatUnitForDirectoryUnit v (dir.fileAt alien l) s = .ok r) →
    ∃ r, findUnitLoop v alien dir (some str) n i unit₀ s = .ok r := by
  intro n
  induction n with
  | zero => exact fun _ _ _ _ ↦ ⟨_, rfl⟩
  | succ n ih =>
    intro i unit₀ s h
    have hrest := fun unit₁ s₁ ↦ ih (i + 1) unit₁ s₁ (fun l h₁ h₂ ↦ h l (by omega) (by omega))
    rw [findUnitLoop]
    by_cases hsame : sameName (dir.fileAt alien i) str.str = true
    · obtain ⟨⟨unit₁, s₁⟩, hnew⟩ := h i (Nat.le_refl i) (by omega) s
      rw [if_pos hsame, bind_run_ok hnew]
      exact hrest unit₁ s₁
    · rw [if_neg hsame]
      exact hrest unit₀ s

theorem findUnitLoop_made : ∀ n i unit₀ (s : Arena σ) {r},
    findUnitLoop v alien dir (some ⟨addr, u⟩) n i unit₀ s = .ok r →
    ∀ l, i ≤ l → l < i + n → sameName (dir.fileAt alien l) u = true →
      ∃ s₁ r, fat16NewFatUnitForDirectoryUnit v (dir.fileAt alien l) (s₁ : Arena σ) = .ok r := by
  intro n
  induction n with
  | zero => intro i unit₀ s r _ l h₁ h₂; omega
  | succ n ih =>
    intro i unit₀ s r h l h₁ h₂ hl
    rw [findUnitLoop] at h
    by_cases hsame : sameName (dir.fileAt alien i) u = true
    · rw [if_pos hsame] at h
      obtain ⟨unit₁, s₁, hnew, h⟩ := bind_eq_ok.mp h
      rcases Nat.eq_or_lt_of_le h₁ with rfl | hlt
      · exact ⟨s, _, hnew⟩
      · exact ih (i + 1) unit₁ s₁ h l hlt (by omega) hl
    · rw [if_neg hsame] at h
      rcases Nat.eq_or_lt_of_le h₁ with rfl | hlt
      · exact absurd hl hsame
      · exact ih (i + 1) unit₀ s h l hlt (by omega) hl

end Units

theorem fat16ReadLoop_readByte {firstCluster : ℕ} (hsize : v.pd.clusterSize < 2 ^ 31) :
    ∀ fuel offset size {status : ℤ} {bytes : List UInt8}, offset % v.pd.clusterSize = 0 →
      offset + size < 2 ^ 32 →
      fat16ReadLoop v.disk v.pd firstCluster fuel offset size = .ok (status, bytes) →
      bytes = (List.range size).map (fun i ↦ readByte v firstCluster (offset + i)) := by
  intro fuel
  induction fuel with
  | zero => intro offset size status bytes _ _ h; cases h
  | succ fuel ih =>
    intro offset size status bytes hoff htop h
    have hpos : v.pd.clusterSize ≠ 0 := by
      intro hc
      rw [fat16ReadLoop, fat16GetClusterFromOffset, fat16ClusterFromOffset, if_pos hc] at h
      cases h
    have hcluster : fat16GetClusterFromOffset v.disk v.pd firstCluster offset = .ok (fat16FollowChain
        (fat16GetEntry v.disk v.pd) (offset / v.pd.clusterSize) firstCluster) := by
      rw [fat16GetClusterFromOffset, fat16ClusterFromOffset, if_neg hpos]
    have hchunk : ∀ k ≤ v.pd.clusterSize, (diskStreamRead v.disk (u32 (fat16ClusterToSector v.pd
        (ofInt32 (fat16FollowChain (fat16GetEntry v.disk v.pd) (offset / v.pd.clusterSize)
          firstCluster)) * sectorSize + offset)) k).bytes =
        (List.range k).map (fun i ↦ readByte v firstCluster (offset + i)) := by
      intro k hk
      rw [(diskStreamRead_wraps v.disk (u32_lt _) (by omega)).2]
      refine List.map_congr_left (fun i hi ↦ ?_)
      have hdiv : (offset + i) / v.pd.clusterSize = offset / v.pd.clusterSize := by
        have hi' := List.mem_range.mp hi
        obtain ⟨q, hq⟩ := Nat.dvd_of_mod_eq_zero hoff
        rw [hq, Nat.mul_add_div (Nat.pos_of_ne_zero hpos), Nat.mul_div_cancel_left q
          (Nat.pos_of_ne_zero hpos), Nat.div_eq_of_lt (by omega), Nat.add_zero]
      rw [u32_add, readByte, hdiv, Nat.add_assoc]
    simp only [fat16ReadLoop, hcluster, bind, Except.bind, pure, Except.pure,
      if_neg (not_ofInt32_neg _)] at h
    by_cases hlong : size > v.pd.clusterSize
    · have hmore : size - v.pd.clusterSize > 0 := by omega
      rw [if_pos hlong, if_pos hmore, u32_of_lt (by omega)] at h
      cases hr : fat16ReadLoop v.disk v.pd firstCluster fuel (offset + v.pd.clusterSize)
          (size - v.pd.clusterSize) with
      | error e => simp [hr] at h
      | ok rest =>
        simp only [hr, Except.ok.injEq, Prod.mk.injEq] at h
        have hrest := ih (offset + v.pd.clusterSize) (size - v.pd.clusterSize)
          (by rw [Nat.add_mod_right]; exact hoff) (by omega) hr
        rw [← h.2, hchunk _ (Nat.le_refl _), hrest, range_split _ (Nat.le_of_lt hlong)]
        simp only [Nat.add_assoc]
    · have hlast : ¬ size - size > 0 := by omega
      rw [if_neg hlong, if_neg hlast, Except.ok.injEq, Prod.mk.injEq] at h
      rw [← h.2]
      exact hchunk size (by omega)

section Loaded

variable {σ : Type} [Allocator σ] {s s' : Arena σ} {file : Fat16File} {p : ℕ}

theorem fat16LoadDirectory_result (h : fat16LoadDirectory v file s = .ok (some (p, dir), s')) :
    fat16TotalFilesInDirectory v.disk (fat16ClusterToSector v.pd file.firstCluster) =
      .ok dir.totalFiles ∧
    dir.firstSector = fat16ClusterToSector v.pd file.firstCluster ∧
    ∃ status, fat16ReadFromDisk v.disk v.pd file.firstCluster 0 (u32 (dir.totalFiles * 32)) =
      .ok (status, dir.image) := by
  obtain ⟨p', s₁, -, h⟩ := bind_eq_ok.mp h
  by_cases hp : p' = 0
  · rw [if_pos hp] at h
    cases h
  rw [if_neg hp] at h
  by_cases hd : ¬ file.isDirectory = true
  · rw [if_pos hd] at h
    obtain ⟨_, s₂, -, h⟩ := bind_eq_ok.mp h
    cases h
  rw [if_neg hd] at h
  obtain ⟨totalFiles, s₂, htotal, h⟩ := bind_eq_ok.mp h
  obtain ⟨files, s₃, -, h⟩ := bind_eq_ok.mp h
  by_cases hfiles : files = 0
  · rw [if_pos hfiles] at h
    cases h
  rw [if_neg hfiles] at h
  obtain ⟨⟨status, bytes⟩, s₄, hread, h⟩ := bind_eq_ok.mp h
  obtain ⟨_, s₅, -, h⟩ := bind_eq_ok.mp h
  by_cases hstatus : status < 0
  · rw [if_pos hstatus] at h
    obtain ⟨_, s₆, -, h⟩ := bind_eq_ok.mp h
    cases h
  · rw [if_neg hstatus] at h
    cases h
    exact ⟨(ofExcept_eq_ok.mp htotal).1, rfl, status, (ofExcept_eq_ok.mp hread).1⟩

end Loaded

variable {disk : Disk} {n : ℕ}

theorem Mounted.clusterSize_lt (hm : Mounted v.disk v.pd) : v.pd.clusterSize < 2 ^ 31 := by
  have hb : (volumeHeader v.disk).Bounded := header_bounded _
  have hlt := hb.sectorsPerCluster
  unfold Fat16PrivateData.clusterSize sectorSize
  rw [hm.header]
  omega

theorem LoadedDirectory.total (hm : Mounted v.disk v.pd) (h : LoadedDirectory v d dir) :
    fat16TotalFilesInDirectory v.disk d.sector = .ok dir.totalFiles := by
  cases h with
  | root => exact hm.totalFiles
  | sub hchain hfirst hload =>
    rw [subListing, ← hfirst]
    exact (fat16LoadDirectory_result hload).1

theorem totalFiles_lt {sector : ℕ} (h : fat16TotalFilesInDirectory disk sector = .ok n) :
    n < 2 ^ 27 := by
  obtain ⟨k, hk, rfl⟩ := totalFiles_eq_ok.mp h
  obtain ⟨e, he, hle, hlt⟩ := scanEnd_of_zero hk.zero
  have hcount : undeleted disk sector e ≤ e :=
    List.countP_le_length.trans (List.length_range.le)
  have hlast : k ≤ e := by
    by_contra hc
    exact hk.least e (by omega) he.zero
  exact (undeleted_mono hlast).trans_lt (hcount.trans_lt hlt)

theorem LoadedDirectory.fileAt (hm : Mounted v.disk v.pd) (h : LoadedDirectory v d dir)
    (alien : ByteMemory) {i : ℕ} (hi : i < dir.totalFiles) (hfits : d.fits (i + 1)) :
    dir.fileAt alien i = d.loaded i := by
  have htotal := totalFiles_lt (h.total hm)
  cases h with
  | root =>
    have hb : (volumeHeader v.disk).Bounded := header_bounded _
    have hlt := hb.rootDirEntries
    rw [← hm.header] at hlt
    have himage := hm.image
    rw [(diskStreamRead_wraps v.disk (u32_lt _) (by omega)).2] at himage
    have hle : i + 1 ≤ v.pd.header.rootDirEntries := hfits
    exact fileAt_read alien himage (by omega)
  | sub hchain hfirst hload =>
    obtain ⟨-, -, status, hread⟩ := fat16LoadDirectory_result hload
    rw [u32_of_lt (by omega)] at hread
    have himage := fat16ReadLoop_readByte hm.clusterSize_lt _ 0 _ (Nat.zero_mod _) (by omega) hread
    simp only [Nat.zero_add] at himage
    rw [fileAt_read alien himage (by omega), hfirst]
    rfl

def Fat16File.OnDisk (f : Fat16File) : Prop := ∃ b, f = .ofBytes b

theorem Fat16File.OnDisk.lengths (h : f.OnDisk) : f.name.length = 8 ∧ f.extention.length = 3 := by
  obtain ⟨b, rfl⟩ := h
  exact ⟨List.length_map _, List.length_map _⟩

theorem Fat16File.OnDisk.firstCluster_lt (h : f.OnDisk) : f.firstCluster < 2 ^ 16 := by
  obtain ⟨b, rfl⟩ := h
  exact Nat.or_lt_two_pow (b.load16_lt 26) (b.load16_lt 20)

theorem Fat16File.OnDisk.sameName_iff {u : List UInt8} (h : f.OnDisk)
    (hu : u.length < fsMaxPathUnitLength) (hu₀ : 0 ∉ u) : sameName f u = true ↔ HasName f u :=
  Fs.sameName_iff h.lengths.1 h.lengths.2 (Nat.le_of_lt hu) hu₀

theorem Fat16File.OnDisk.name_short (h : f.OnDisk) :
    (fat16GetFullRelativeName f).length < fsMaxPathUnitLength :=
  (fullName_length h.lengths.1 h.lengths.2).trans_lt (by decide)

theorem Fat16File.OnDisk.sameName_self (h : f.OnDisk) :
    sameName f (fat16GetFullRelativeName f) = true :=
  (h.sameName_iff h.name_short (fullName_no_zero f)).mpr rfl

theorem LoadedDirectory.onDisk (h : LoadedDirectory v d dir) (j : ℕ) :
    (d.stored j).OnDisk ∧ (d.loaded j).OnDisk := by
  cases h with
  | root => exact ⟨⟨_, rfl⟩, ⟨_, rfl⟩⟩
  | sub => exact ⟨⟨_, rfl⟩, ⟨_, rfl⟩⟩

theorem LoadedDirectory.fits_lt (h : LoadedDirectory v d dir) {i : ℕ} (hfits : d.fits n)
    (hi : i < n) : d.fits (i + 1) := by
  cases h with
  | root => exact Nat.le_trans hi hfits
  | sub => exact trivial

theorem Listing.InOrder.lookupExact (hm : Mounted v.disk v.pd) (hd : LoadedDirectory v d dir)
    (h : d.InOrder v dir.totalFiles) : LookupExact v d dir := by
  intro σ _ alien addr u hu hu₀ s
  have hmark : Marked v.disk := by
    obtain ⟨k, hk, -⟩ := totalFiles_eq_ok.mp (hd.total hm)
    exact marked_of_scanEnd hk
  have hentry : ∀ i < dir.totalFiles, dir.fileAt alien i = d.loaded i :=
    fun i hi ↦ hd.fileAt hm alien hi (hd.fits_lt h.fits hi)
  have hname : ∀ i, sameName (d.loaded i) u = true ↔ HasName (d.loaded i) u :=
    fun i ↦ (hd.onDisk i).2.sameName_iff hu hu₀
  obtain ⟨⟨unit, s'⟩, hsearch⟩ := findUnitLoop_returns alien (⟨addr, u⟩ : UnitStr) dir.totalFiles
    0 none s (fun l _ hl s₁ ↦ by
      have hl' : l < dir.totalFiles := by omega
      rw [hentry l hl']
      exact newUnit_returns hmark (fun hdir ↦ clusterSize_ne_zero (h.clusters l hl' hdir)) s₁)
  refine ⟨unit, s', hsearch, ?_⟩
  rcases findUnitLoop_lastMatch _ _ _ _ hsearch with ⟨hnone, rfl, rfl⟩ |
    ⟨l, -, hl, hsame, hlater, hnew⟩
  · refine Or.inr ⟨rfl, rfl, fun j hj hu ↦ ?_⟩
    obtain ⟨i, hi, hsame⟩ := h.complete j hj
    refine hnone i (Nat.zero_le i) (by omega) ?_
    rw [hentry i hi, hname]
    exact hsame.trans hu
  · have hl' : l < dir.totalFiles := by omega
    rw [hentry l hl'] at hsame hnew
    rw [hname] at hsame
    obtain ⟨j, hj, hstored, hunit⟩ := h.found l hl' (fun l' hl' hlt hsame' ↦ by
      refine hlater l' hlt (by omega) ?_
      rw [hentry l' hl', hname]
      exact hsame'.trans hsame)
    refine Or.inl ⟨j, hj, hstored.trans hsame, ?_⟩
    rw [← hunit.newUnit_eq]
    exact hnew

inductive EndlessHeap
  | endless

instance : Allocator EndlessHeap where
  kzalloc _ h := (pageSize, h)
  kfree _ h := h
  live _ := []

theorem clusterSize_of_read {disk : Disk} {pd : Fat16PrivateData} {c offset size : ℕ}
    {r : ℤ × List UInt8} (h : fat16ReadFromDisk disk pd c offset size = .ok r) :
    pd.clusterSize ≠ 0 := by
  intro hc
  rw [fat16ReadFromDisk, fat16ReadLoop, fat16GetClusterFromOffset, fat16ClusterFromOffset,
    if_pos hc] at h
  cases h

section Endless

variable {s s' : Arena EndlessHeap} {unit : Option Fat16Unit}

theorem kzalloc_endless {m p : ℕ} (h : kzalloc m s = .ok (p, s')) : p = pageSize := by
  cases h
  rfl

theorem loadDirectory_endless {loaded : Option (ℕ × Fat16Directory)}
    (h : fat16LoadDirectory v f s = .ok (loaded, s')) (hf : f.isDirectory = true) :
    v.pd.clusterSize ≠ 0 ∧ ∃ p dir, loaded = some (p, dir) ∧
      dir.firstSector = fat16ClusterToSector v.pd f.firstCluster := by
  obtain ⟨p, s₁, h₁, h⟩ := bind_eq_ok.mp h
  obtain rfl := kzalloc_endless h₁
  rw [if_neg (by decide), if_neg (not_not.mpr hf)] at h
  obtain ⟨totalFiles, s₂, htotal, h⟩ := bind_eq_ok.mp h
  obtain ⟨files, s₃, h₃, h⟩ := bind_eq_ok.mp h
  obtain rfl := kzalloc_endless h₃
  rw [if_neg (by decide)] at h
  obtain ⟨⟨status, bytes⟩, s₄, hread, h⟩ := bind_eq_ok.mp h
  obtain ⟨_, s₅, -, h⟩ := bind_eq_ok.mp h
  have hok := (ofExcept_eq_ok.mp hread).1
  rw [fat16ReadFromDisk_status hok, if_neg (by decide)] at h
  cases h
  exact ⟨clusterSize_of_read hok, _, _, rfl, rfl⟩

theorem newUnit_endless (h : fat16NewFatUnitForDirectoryUnit v f s = .ok (unit, s')) :
    (f.isDirectory = true ∧ v.pd.clusterSize ≠ 0 ∧ ∃ p dir,
      unit = some ⟨pageSize, .directory (some (p, dir))⟩ ∧
        dir.firstSector = fat16ClusterToSector v.pd f.firstCluster) ∨
    (f.isDirectory = false ∧ unit = some ⟨pageSize, .file (some (pageSize, f))⟩) := by
  obtain ⟨p, s₁, h₁, h⟩ := bind_eq_ok.mp h
  obtain rfl := kzalloc_endless h₁
  rw [if_neg (by decide)] at h
  by_cases hf : f.isDirectory = true
  · rw [if_pos hf] at h
    obtain ⟨loaded, s₂, hload, h⟩ := bind_eq_ok.mp h
    obtain ⟨hsize, p, dir, rfl, hfirst⟩ := loadDirectory_endless hload hf
    cases h
    exact Or.inl ⟨hf, hsize, p, dir, rfl, hfirst⟩
  · rw [if_neg hf] at h
    obtain ⟨copy, s₂, hclone, h⟩ := bind_eq_ok.mp h
    obtain ⟨q, s₃, h₃, hclone⟩ := bind_eq_ok.mp hclone
    obtain rfl := kzalloc_endless h₃
    rw [if_neg (by decide)] at hclone
    cases hclone
    cases h
    exact Or.inr ⟨Bool.eq_false_iff.mpr hf, rfl⟩

theorem newUnit_endless_some (h : fat16NewFatUnitForDirectoryUnit v f s = .ok (unit, s')) :
    unit ≠ none := by
  rcases newUnit_endless h with ⟨-, -, p, dir, rfl, -⟩ | ⟨-, rfl⟩
  · exact Option.some_ne_none _
  · exact Option.some_ne_none _

end Endless

theorem clusterToSector_inj {pd : Fat16PrivateData} {c c' : ℕ} (h₁ : 1 ≤ pd.header.sectorsPerCluster)
    (hk : pd.header.sectorsPerCluster < 2 ^ 8) (hc : c < 2 ^ 16) (hc' : c' < 2 ^ 16)
    (h : fat16ClusterToSector pd c = fat16ClusterToSector pd c') : c = c' := by
  have hmod : subU32 c 2 * pd.header.sectorsPerCluster ≡
      subU32 c' 2 * pd.header.sectorsPerCluster [MOD 2 ^ 32] :=
    Nat.ModEq.add_left_cancel' _ (Nat.ModEq.add_right_cancel' 1 h)
  have hsub : ∀ c < 2 ^ 16, c ≡ subU32 c 2 + 2 [MOD 2 ^ 32] := by
    intro c hc
    unfold Nat.ModEq subU32 u32
    omega
  have hproduct : c * pd.header.sectorsPerCluster ≡
      c' * pd.header.sectorsPerCluster [MOD 2 ^ 32] := by
    refine ((hsub c hc).mul_right _).trans (Nat.ModEq.trans ?_ ((hsub c' hc').mul_right _).symm)
    rw [Nat.add_mul, Nat.add_mul]
    exact hmod.add_right _
  have hlt : ∀ c < 2 ^ 16, c * pd.header.sectorsPerCluster < 2 ^ 32 := by
    intro c hc
    have hle := Nat.mul_le_mul (Nat.le_of_lt hc) (Nat.le_of_lt hk)
    omega
  exact Nat.eq_of_mul_eq_mul_right h₁ (hproduct.eq_of_lt_of_lt (hlt c hc) (hlt c' hc'))

theorem sameUnit_of_newUnit (hm : Mounted v.disk v.pd) (hf : f.OnDisk) (hg : g.OnDisk)
    {s₁ s₂ t₁ t₂ : Arena EndlessHeap} {unit : Option Fat16Unit}
    (h₁ : fat16NewFatUnitForDirectoryUnit v f s₁ = .ok (unit, t₁))
    (h₂ : fat16NewFatUnitForDirectoryUnit v g s₂ = .ok (unit, t₂)) : SameUnit f g := by
  have hb : (volumeHeader v.disk).Bounded := header_bounded _
  rcases newUnit_endless h₁ with ⟨hdf, hsize, p, dir, rfl, hfirst⟩ | ⟨hdf, rfl⟩
  · rcases newUnit_endless h₂ with ⟨hdg, -, q, dir', he, hfirst'⟩ | ⟨hdg, he⟩
    · cases he
      have hpos : 1 ≤ v.pd.header.sectorsPerCluster := by
        unfold Fat16PrivateData.clusterSize at hsize
        exact Nat.pos_of_ne_zero (fun hc ↦ hsize (by rw [hc, Nat.zero_mul]))
      have hlt : v.pd.header.sectorsPerCluster < 2 ^ 8 := by
        rw [hm.header]
        exact hb.sectorsPerCluster
      exact Or.inr ⟨hdf, hdg, clusterToSector_inj hpos hlt hf.firstCluster_lt hg.firstCluster_lt
        (hfirst.symm.trans hfirst')⟩
    · cases he
  · rcases newUnit_endless h₂ with ⟨hdg, -, q, dir', he, -⟩ | ⟨hdg, he⟩
    · cases he
    · cases he
      exact Or.inl rfl

theorem not_deletedName (h₀ : f.firstByte ≠ 0) (hdel : f.firstByte ≠ 0xE5) : ¬ HasName f [0xE5] := by
  intro h
  have hlower : ∀ c : UInt8, lowerCase c = 0xE5 → c = 0xE5 := by
    intro c
    have hc := c.toNat_lt
    simp only [lowerCase, ← UInt8.toNat_inj, UInt8.le_iff_toNat_le]
    split_ifs
    all_goals simp only [UInt8.toNat_add, UInt8.reduceToNat] at *
    all_goals omega
  unfold HasName fat16GetFullRelativeName at h
  cases hname : f.name with
  | nil =>
    rw [hname] at h
    split at h <;> cases h
  | cons c cs =>
    rw [Fat16File.firstByte, hname, List.headD_cons] at h₀ hdel
    rw [hname] at h
    by_cases hc : c = 0x20
    · rw [properString_stop (by rw [hc]; decide)] at h
      split at h
      · exact absurd (List.cons.inj h).1 (by decide)
      · cases h
    · rw [properString_cons ⟨h₀, hc⟩] at h
      exact hdel (hlower c (List.cons.inj h).1)

def staleEntry : Fat16File := .ofBytes (fun k ↦ if k = 0 then 0xE5 else 0x20)

def staleBytes (files : ℕ) : ByteMemory := fun a ↦ if (a - files) % 32 = 0 then 0xE5 else 0x20

theorem fileAt_stale {i : ℕ} (h : dir.image.length ≤ 32 * i) :
    dir.fileAt (staleBytes dir.files) i = staleEntry := by
  refine ofBytes_file_congr (fun k hk ↦ ?_)
  have hzero : (dir.files + 32 * i + k - dir.files) % 32 = k := by omega
  rw [List.getElem?_eq_none (by omega), Option.getD_none, staleBytes, hzero]

theorem LookupExact.fits (hm : Mounted v.disk v.pd) (hd : LoadedDirectory v d dir)
    (h : LookupExact v d dir) : d.fits dir.totalFiles := by
  cases hd with
  | sub => exact trivial
  | root =>
    by_contra hfits
    have himage : v.pd.root.image.length = v.pd.header.rootDirEntries * 32 := by
      rw [hm.image, diskStreamRead_length]
    have hlt : v.pd.header.rootDirEntries < v.pd.root.totalFiles := Nat.lt_of_not_le hfits
    have hstale : sameName staleEntry [0xE5] = true := by decide +kernel
    obtain ⟨unit, s', hsearch, hfinds⟩ := h EndlessHeap (staleBytes v.pd.root.files) 0 [0xE5]
      (by decide) (by decide) ⟨.endless, fun _ ↦ 0⟩
    rcases findUnitLoop_lastMatch _ _ _ _ hsearch with ⟨hnone, -⟩ | ⟨l, -, -, -, -, s₁, hnew⟩
    · refine hnone v.pd.header.rootDirEntries (Nat.zero_le _) (by omega) ?_
      rw [fileAt_stale (by omega)]
      exact hstale
    · rcases hfinds with ⟨j, hj, hname, -⟩ | ⟨rfl, -, -⟩
      · exact not_deletedName (hj.before j (Nat.le_refl j)) hj.live.not_deleted hname
      · exact newUnit_endless_some hnew rfl

theorem LookupExact.inOrder (hm : Mounted v.disk v.pd) (hd : LoadedDirectory v d dir)
    (h : LookupExact v d dir) : d.InOrder v dir.totalFiles := by
  have hfits := h.fits hm hd
  let s : Arena EndlessHeap := ⟨.endless, fun _ ↦ 0⟩
  have hentry : ∀ i < dir.totalFiles, dir.fileAt (fun _ ↦ 0) i = d.loaded i :=
    fun i hi ↦ hd.fileAt hm _ hi (hd.fits_lt hfits hi)
  -- a search for the name of an entry
  have hsearch : ∀ f : Fat16File, f.OnDisk → ∃ unit s',
      fat16FindUnitInDirectory v (fun _ ↦ 0) dir (some ⟨0, fat16GetFullRelativeName f⟩) s =
        .ok (unit, s') ∧ d.Finds v (fat16GetFullRelativeName f) s unit s' :=
    fun f hf ↦ h EndlessHeap _ 0 _ hf.name_short (fullName_no_zero f) s
  have hname : ∀ {f g : Fat16File}, f.OnDisk → g.OnDisk →
      (sameName f (fat16GetFullRelativeName g) = true ↔ SameName f g) :=
    fun hf hg ↦ hf.sameName_iff hg.name_short (fullName_no_zero _)
  refine ⟨hfits, fun i hi hdir ↦ ?_, fun i hi hlast ↦ ?_, fun j hj ↦ ?_⟩
  · have hon := (hd.onDisk i).2
    obtain ⟨unit, s', hfound, -⟩ := hsearch _ hon
    obtain ⟨s₁, r, hnew⟩ := findUnitLoop_made _ _ _ _ hfound i (Nat.zero_le i) (by omega) (by
      rw [hentry i hi, hname hon hon]
      rfl)
    rw [hentry i hi] at hnew
    rcases newUnit_endless hnew with ⟨-, hsize, -⟩ | ⟨hfile, -⟩
    · refine Nat.pos_of_ne_zero (fun hc ↦ hsize ?_)
      rw [Fat16PrivateData.clusterSize, hc, Nat.zero_mul]
    · rw [hfile] at hdir
      cases hdir
  · have hon := (hd.onDisk i).2
    obtain ⟨unit, s', hfound, hfinds⟩ := hsearch _ hon
    have hself : sameName (dir.fileAt (fun _ ↦ 0) i)
        (fat16GetFullRelativeName (d.loaded i)) = true := by
      rw [hentry i hi, hname hon hon]
      rfl
    rcases findUnitLoop_lastMatch _ _ _ _ hfound with
      ⟨hnone, -⟩ | ⟨l, -, hl, hsame, hlater, s₁, hnew⟩
    · exact absurd hself (hnone i (Nat.zero_le i) (by omega))
    · have hl' : l < dir.totalFiles := by omega
      rw [hentry l hl'] at hsame hnew
      -- the last match is the entry itself
      obtain rfl : l = i := by
        rcases Nat.lt_trichotomy l i with hlt | heq | hlt
        · exact absurd hself (hlater i hlt (by omega))
        · exact heq
        · exact absurd ((hname (hd.onDisk l).2 hon).mp hsame) (hlast l hl' hlt)
      rcases hfinds with ⟨j, hj, hstored, s₂, hnew'⟩ | ⟨rfl, -, -⟩
      · exact ⟨j, hj, hstored, sameUnit_of_newUnit hm hon (hd.onDisk j).1 hnew hnew'⟩
      · exact absurd rfl (newUnit_endless_some hnew)
  · have hon := (hd.onDisk j).1
    obtain ⟨unit, s', hfound, hfinds⟩ := hsearch _ hon
    rcases findUnitLoop_lastMatch _ _ _ _ hfound with
      ⟨-, rfl, -⟩ | ⟨l, -, hl, hsame, -, s₁, hnew⟩
    · rcases hfinds with ⟨j', hj', -, s₂, hnew'⟩ | ⟨-, -, hnone⟩
      · exact absurd rfl (newUnit_endless_some hnew')
      · exact absurd rfl (hnone j hj)
    · have hl' : l < dir.totalFiles := by omega
      rw [hentry l hl'] at hsame
      exact ⟨l, hl', (hname (hd.onDisk l).2 hon).mp hsame⟩

/-- The searches of a directory find exactly its live entries when the entries
that its array has room for are in order. -/
theorem lookupExact_iff {σ : Type} [Allocator σ] {s s' : Arena σ}
    (h : fat16Resolve v.disk s = .ok (some v.pd, s')) (hd : LoadedDirectory v d dir) :
    LookupExact v d dir ↔
      ∃ k, ScanEnd v.disk d.sector k ∧ d.InOrder v (undeleted v.disk d.sector k) := by
  have hm := fat16Resolve_mounted h
  have htotal := hd.total hm
  constructor
  · intro hexact
    obtain ⟨k, hk, hn⟩ := totalFiles_eq_ok.mp htotal
    exact ⟨k, hk, hn ▸ hexact.inOrder hm hd⟩
  · rintro ⟨k, hk, hord⟩
    have hn : dir.totalFiles = undeleted v.disk d.sector k :=
      Except.ok.inj (htotal.symm.trans hk.total)
    exact (hn ▸ hord).lookupExact hm hd

theorem lookupExact_iff_oneFile : ∃ pd s',
    fat16Resolve (oneFileDisk 1) (freshArena false) = .ok (some pd, s') ∧
      (LookupExact ⟨oneFileDisk 1, pd⟩ (rootListing ⟨oneFileDisk 1, pd⟩) pd.root ↔
        ∃ k, ScanEnd (oneFileDisk 1) (rootListing ⟨oneFileDisk 1, pd⟩).sector k ∧
          (rootListing ⟨oneFileDisk 1, pd⟩).InOrder ⟨oneFileDisk 1, pd⟩
            (undeleted (oneFileDisk 1) (rootListing ⟨oneFileDisk 1, pd⟩).sector k)) := by
  obtain ⟨_, s', h, ⟨files, rfl⟩, -⟩ :=
    oneFileDisk_resolved 1 0 (freshArena false) (freshArena_room false (by decide))
  exact ⟨_, s', h, lookupExact_iff (v := ⟨oneFileDisk 1, oneFileData 1 files⟩) h .root⟩

def deletedFirstDisk : Disk := fun sector i ↦
  match sector with
  | 2 => ((0xE5 : UInt8) :: List.replicate 31 0x20 ++
      (70 :: List.replicate 10 0x20 ++ List.replicate 15 0 ++ [2, 0, 1, 0, 0, 0])).getD i 0
  | _ => oneFileDisk 1 sector i

def deletedFirstData (files : ℕ) : Fat16PrivateData where
  header := ⟨1, 1, 1, 16, 1, 0x29⟩
  root := ⟨files, (diskStreamRead deletedFirstDisk 1024 512).bytes, 1, 2, 2⟩

set_option maxRecDepth 3000 in
/-- The search for the file looks at the deleted entry only. -/
theorem deleted_first_hides_file : ∃ pd s',
    fat16Resolve deletedFirstDisk (freshArena false) = .ok (some pd, s') ∧
      (rootListing ⟨deletedFirstDisk, pd⟩).LiveAt 1 ∧
      HasName ((rootListing ⟨deletedFirstDisk, pd⟩).stored 1) [70] ∧
      (∀ (alien : ByteMemory) (addr : ℕ) (s : Arena (KHeap false)),
        fat16FindUnitInDirectory ⟨deletedFirstDisk, pd⟩ alien pd.root (some ⟨addr, [70]⟩) s =
          .ok (none, s)) ∧
      ¬ LookupExact ⟨deletedFirstDisk, pd⟩ (rootListing ⟨deletedFirstDisk, pd⟩) pd.root := by
  have hboot : deletedFirstDisk 0 = oneFileDisk 1 0 := rfl
  have htotal : fat16TotalFilesInDirectory deletedFirstDisk 2 = .ok 1 :=
    totalFiles_eq_ok.mpr ⟨2, ⟨rfl, by decide⟩, by decide⟩
  have hresolve : Total (Arena.HasRoom (σ := KHeap false) 7) (fat16Resolve deletedFirstDisk)
      (fun pd s ↦ (∃ files, pd = some (deletedFirstData files)) ∧ s.HasRoom 0) :=
    bootRecord_resolved hboot htotal 0
  obtain ⟨_, s', h, ⟨files, rfl⟩, -⟩ :=
    hresolve (freshArena false) (freshArena_room false (by decide))
  let v : Fat16Volume := ⟨deletedFirstDisk, deletedFirstData files⟩
  have hread := @diskStreamRead_bytes deletedFirstDisk 1024 512 (by decide) (by decide)
  have hfirst : ∀ alien, v.pd.root.fileAt alien 0 =
      ⟨0xE5 :: List.replicate 7 0x20, List.replicate 3 0x20, 0x20, 0x2020, 0x2020, 0x20202020⟩ :=
    fun alien ↦ (fileAt_read alien hread (by decide)).trans rfl
  have hother : ∀ alien, ¬ sameName (v.pd.root.fileAt alien 0) [70] = true := by
    intro alien
    rw [hfirst]
    decide +kernel
  have hsearch : ∀ {σ : Type} [Allocator σ] (alien : ByteMemory) (addr : ℕ) (s : Arena σ),
      fat16FindUnitInDirectory v alien v.pd.root (some ⟨addr, [70]⟩) s = .ok (none, s) := by
    intro σ _ alien addr s
    have hloop : findUnitLoop v alien v.pd.root (some ⟨addr, [70]⟩) 1 0 none s = .ok (none, s) := by
      rw [findUnitLoop, if_neg (hother alien)]
      rfl
    exact hloop
  have hbytes : ∀ i, (rootListing v).stored i =
      .ofBytes (fun k ↦ deletedFirstDisk.byteAt (1024 + (32 * i + k))) := by
    intro i
    have hsector : v.pd.header.rootSector * sectorSize = 1024 := by
      show u32 (1 * 1 + 1) * sectorSize = 1024
      decide
    rw [rootListing, hsector]
  have hstored : (rootListing v).stored 1 =
      ⟨70 :: List.replicate 7 0x20, List.replicate 3 0x20, 0, 0, 2, 1⟩ := (hbytes 1).trans rfl
  have hlive : (rootListing v).LiveAt 1 := by
    refine ⟨?_, fun i hi ↦ ?_, ?_⟩
    · show 1 < 16
      decide
    · interval_cases i
      · rw [hbytes]
        decide
      · rw [hstored]
        decide
    · rw [hstored]
      exact ⟨by decide, by decide, by decide⟩
  have hname : HasName ((rootListing v).stored 1) [70] := by
    rw [hstored]
    rfl
  refine ⟨_, s', h, hlive, hname, fun alien addr s ↦ hsearch alien addr s, fun hexact ↦ ?_⟩
  obtain ⟨unit, s₁, hfound, hfinds⟩ := hexact EndlessHeap (fun _ ↦ 0) 0 [70] (by decide) (by decide)
    ⟨.endless, fun _ ↦ 0⟩
  rw [hsearch] at hfound
  cases hfound
  rcases hfinds with ⟨j, -, -, s₂, hnew⟩ | ⟨-, -, hnone⟩
  · exact newUnit_endless_some hnew rfl
  · exact hnone 1 hlive hname

end GammaOS.Fs
