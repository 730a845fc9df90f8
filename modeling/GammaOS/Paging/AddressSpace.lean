import GammaOS.Paging.Paging
import Mathlib.Data.Nat.Bitwise

namespace GammaOS.Paging

open Foundation Memory

structure Space where
  vspace : ℕ
  pd : ℕ
  directory : ℕ
  table : ℕ → ℕ

def Space.slot (S : Space) (v : ℕ) : ℕ := S.table (v / 2 ^ 22) + 4 * (v % 2 ^ 22 / pageSize)

/-- The page tables are whole pages, different from one another and from the
pages that lead to them. -/
structure Space.Sound (S : Space) : Prop where
  vspace_aligned : S.vspace % pageSize = 0
  pd_aligned : S.pd % pageSize = 0
  directory_aligned : S.directory % pageSize = 0
  table_aligned : ∀ i < pageDirEntries, S.table i % pageSize = 0
  table_inside : ∀ i < pageDirEntries, S.table i + pageSize ≤ 2 ^ 32
  table_ne : ∀ i < pageDirEntries,
    S.table i ≠ S.vspace ∧ S.table i ≠ S.pd ∧ S.table i ≠ S.directory
  table_inj : ∀ i < pageDirEntries, ∀ j < pageDirEntries, S.table i = S.table j → i = j

structure Holds (m : ByteMemory) (S : Space) : Prop where
  sound : S.Sound
  pd_eq : m.load32 S.vspace = S.pd
  directory_eq : m.load32 S.pd = S.directory
  table_eq : ∀ i < pageDirEntries, tableOf m S.directory i = S.table i

def entries (m : ByteMemory) (S : Space) (v : ℕ) : ℕ := m.load32 (S.slot v)

variable {m m' : ByteMemory} {S : Space} {v w val : ℕ}

theorem dirIndex_lt (hv : v < 2 ^ 32) : v / 2 ^ 22 < pageDirEntries := by
  unfold pageDirEntries
  omega

theorem Space.Sound.slot_inside (hS : S.Sound) (hv : v < 2 ^ 32) :
    S.table (v / 2 ^ 22) ≤ S.slot v ∧ S.slot v + 4 ≤ S.table (v / 2 ^ 22) + pageSize := by
  have := hS.table_aligned _ (dirIndex_lt hv)
  unfold Space.slot pageSize
  omega

theorem Space.Sound.slot_apart (hS : S.Sound) (hv : v < 2 ^ 32) (hw : w < 2 ^ 32)
    (hva : v % pageSize = 0) (hwa : w % pageSize = 0) (hne : v ≠ w) :
    S.slot v + 4 ≤ S.slot w ∨ S.slot w + 4 ≤ S.slot v := by
  by_cases hd : v / 2 ^ 22 = w / 2 ^ 22
  · unfold Space.slot
    rw [hd]
    unfold pageSize at *
    omega
  · have hne' : S.table (v / 2 ^ 22) ≠ S.table (w / 2 ^ 22) :=
      fun h ↦ hd (hS.table_inj _ (dirIndex_lt hv) _ (dirIndex_lt hw) h)
    have h₁ := hS.slot_inside hv
    have h₂ := hS.slot_inside hw
    have h₃ := hS.table_aligned _ (dirIndex_lt hv)
    have h₄ := hS.table_aligned _ (dirIndex_lt hw)
    generalize S.table (v / 2 ^ 22) = t at *
    generalize S.table (w / 2 ^ 22) = u at *
    unfold pageSize at *
    omega

theorem getPageIndices_aligned (ha : v % pageSize = 0) :
    getPageIndices v = some (v / 2 ^ 22, v % 2 ^ 22 / pageSize) := by
  have h : addressPageAligned v = true := by simp [addressPageAligned, ha]
  rw [getPageIndices, if_pos h]
  rfl

theorem Holds.slot_eq (h : Holds m S) (hv : v < 2 ^ 32) :
    tableOf m (m.load32 S.pd) (v / 2 ^ 22) + 4 * (v % 2 ^ 22 / pageSize) = S.slot v := by
  rw [h.directory_eq, h.table_eq _ (dirIndex_lt hv), Space.slot]

theorem Holds.map_eq (h : Holds m S) (hv : v < 2 ^ 32) (ha : v % pageSize = 0) :
    mapVaddrToVal m S.pd v val = ((success : ℤ), m.store32 (S.slot v) val) := by
  rw [mapVaddrToVal, getPageIndices_aligned ha]
  simp only [h.slot_eq hv]

theorem Holds.virtToPhy_eq (h : Holds m S) (hv : v < 2 ^ 32) (ha : v % pageSize = 0) :
    pagingVirtToPhy m S.vspace v = some (entries m S v) := by
  rw [pagingVirtToPhy, getPageIndices_aligned ha, Option.map_some]
  simp only [h.pd_eq, h.slot_eq hv, entries]

theorem Holds.congr (h : Holds m S)
    (hbytes : ∀ i, pageOf i = pageOf S.vspace ∨ pageOf i = pageOf S.pd ∨
      pageOf i = pageOf S.directory → m' i = m i) : Holds m' S := by
  have h₁ := h.sound.vspace_aligned
  have h₂ := h.sound.pd_aligned
  have h₃ := h.sound.directory_aligned
  unfold pageOf at hbytes
  unfold pageSize at *
  refine ⟨h.sound, ?_, ?_, fun i hi ↦ ?_⟩
  · rw [← h.pd_eq]
    exact ByteMemory.load32_congr (fun i _ _ ↦ hbytes i (Or.inl (by omega)))
  · rw [← h.directory_eq]
    exact ByteMemory.load32_congr (fun i _ _ ↦ hbytes i (Or.inr (Or.inl (by omega))))
  · rw [← h.table_eq i hi, tableOf, tableOf]
    unfold pageDirEntries at hi
    rw [ByteMemory.load32_congr (fun j _ _ ↦ hbytes j (Or.inr (Or.inr (by omega))))]

theorem Space.Sound.slot_page (hS : S.Sound) (hv : v < 2 ^ 32) {i : ℕ} (h₁ : S.slot v ≤ i)
    (h₂ : i < S.slot v + 4) : pageOf i = pageOf (S.table (v / 2 ^ 22)) := by
  have h₃ := hS.slot_inside hv
  have h₄ := hS.table_aligned _ (dirIndex_lt hv)
  unfold pageOf
  unfold pageSize at *
  omega

theorem pageOf_inj {a b : ℕ} (ha : a % pageSize = 0) (hb : b % pageSize = 0)
    (h : pageOf a = pageOf b) : a = b := by
  unfold pageOf at h
  unfold pageSize at *
  omega

theorem Holds.store (h : Holds m S) (hv : v < 2 ^ 32) : Holds (m.store32 (S.slot v) val) S := by
  have hd := dirIndex_lt hv
  have hal := h.sound.table_aligned _ hd
  obtain ⟨hne₁, hne₂, hne₃⟩ := h.sound.table_ne _ hd
  refine h.congr (fun i hi ↦ ByteMemory.store32_outside ?_)
  by_contra hc
  have hp := h.sound.slot_page hv (i := i) (by omega) (by omega)
  rcases hi with hi | hi | hi
  · exact hne₁ (pageOf_inj hal h.sound.vspace_aligned (hp.symm.trans hi))
  · exact hne₂ (pageOf_inj hal h.sound.pd_aligned (hp.symm.trans hi))
  · exact hne₃ (pageOf_inj hal h.sound.directory_aligned (hp.symm.trans hi))

theorem Holds.entries_store (h : Holds m S) (hv : v < 2 ^ 32) (hw : w < 2 ^ 32)
    (hva : v % pageSize = 0) (hwa : w % pageSize = 0) (hval : val < 2 ^ 32) :
    entries (m.store32 (S.slot v) val) S w = if w = v then val else entries m S w := by
  unfold entries
  by_cases he : w = v
  · rw [if_pos he, he, ByteMemory.load32_store32_self hval]
  · rw [if_neg he]
    exact ByteMemory.load32_store32_other (h.sound.slot_apart hw hv hwa hva he)

end GammaOS.Paging
