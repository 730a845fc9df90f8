import GammaOS.Memory.SingleBlocks
import Mathlib.Order.Interval.Finset.Nat

namespace GammaOS.Memory

open Foundation Foundation.Program

namespace KHeap

variable {whole : Bool} {h k : KHeap whole} {i p n o : ℕ}

def freeSet (h : KHeap whole) : Finset ℕ :=
  (Finset.range kheapEntryCount).filter (fun i ↦ h.heap.entryTable.entries i = heapBlockEntryFree)

/-- The number of single blocks that the heap can still hand out. -/
def freeCount (h : KHeap whole) : ℕ := h.freeSet.card

theorem mem_freeSet :
    i ∈ h.freeSet ↔ i < kheapEntryCount ∧ h.heap.entryTable.entries i = heapBlockEntryFree := by
  simp [freeSet]

theorem freeCount_eq_zero : h.freeCount = 0 ↔
    ∀ i < kheapEntryCount, h.heap.entryTable.entries i ≠ heapBlockEntryFree := by
  simp [freeCount, freeSet, Finset.card_eq_zero, Finset.filter_eq_empty_iff]

theorem freeCount_take (hi : i ∈ h.freeSet) (hti : k.heap.entryTable.entries i ≠ heapBlockEntryFree)
    (he : ∀ j, j ≠ i → k.heap.entryTable.entries j = h.heap.entryTable.entries j) :
    k.freeCount + 1 = h.freeCount := by
  have hset : k.freeSet = h.freeSet.erase i := by
    ext j
    rw [Finset.mem_erase, mem_freeSet, mem_freeSet]
    by_cases hj : j = i
    · subst hj
      simp [hti]
    · simp [hj, he j hj]
  rw [freeCount, hset]
  exact Finset.card_erase_add_one hi

theorem room_le_freeCount (hr : h.Room n) : n ≤ h.freeCount := by
  obtain ⟨m, hm, hfree⟩ := hr
  have hsub : Finset.Ico m (m + n) ⊆ h.freeSet := by
    intro i hi
    obtain ⟨h₁, h₂⟩ := Finset.mem_Ico.mp hi
    exact mem_freeSet.mpr ⟨by omega, hfree i h₁ (by omega)⟩
  have hcard := Finset.card_le_card hsub
  rwa [Nat.card_Ico, Nat.add_sub_cancel_left] at hcard

theorem freeAt_one {t : HbTable} : FreeAt t ⟨i, 1⟩ ↔ t.entries i = heapBlockEntryFree := by
  constructor
  · exact fun h ↦ h i (mem_blockAt.mpr rfl)
  · intro h j hj
    rwa [mem_blockAt.mp hj]

theorem blockOf_inside (h : KHeap whole) (hi : i < kheapEntryCount) (ho : o < kernelHbSize) :
    h.heap.blockOf (u32 (blockAddress i + o)) = i := by
  rw [Heap.blockOf, subU32, u32, u32, h.base_eq, blockAddress]
  unfold kheapEntryCount kernelHeapSize at hi
  unfold kernelHeapBase
  unfold kernelHbSize at *
  omega

theorem kfree_one_entries (hb : blockAt i ∈ h.blocks) (ho : o < kernelHbSize) (j : ℕ) :
    (kfree (blockAddress i + o) h).heap.entryTable.entries j =
      if j = i then heapBlockEntryFree else h.heap.entryTable.entries j := by
  have hlt : i < kheapEntryCount := h.count_eq ▸ h.layout.inside _ hb
  have hself : i ∈ blockAt i := mem_blockAt.mpr rfl
  show (h.freeHeap (u32 (blockAddress i + o))).entryTable.entries j = _
  rw [freeHeap, h.blockOf_inside hlt ho]
  cases whole with
  | false =>
    simp only [Bool.false_eq_true, if_false]
    rw [free, h.blockOf_inside hlt ho, freeBlocks_entries, h.count_eq]
    exact if_congr (and_iff_left hlt) rfl rfl
  | true =>
    have hmem : (∃ r ∈ h.blocks, i ∈ r ∧ j ∈ r) ↔ j = i := by
      constructor
      · rintro ⟨r, hr, hir, hjr⟩
        rw [h.layout.separate.eq_of_mem hr hb hir hself] at hjr
        exact mem_blockAt.mp hjr
      · rintro rfl
        exact ⟨_, hb, hself, hself⟩
    exact if_congr hmem rfl rfl

theorem freeCount_kfree (hb : blockAt i ∈ h.blocks) (ho : o < kernelHbSize) :
    (kfree (blockAddress i + o) h).freeCount = h.freeCount + 1 := by
  have htaken := h.layout.taken hb (mem_blockAt.mpr rfl)
  refine (freeCount_take (i := i) (mem_freeSet.mpr ⟨?_, ?_⟩) htaken (fun j hj ↦ ?_)).symm
  · exact h.count_eq ▸ h.layout.inside _ hb
  · rw [kfree_one_entries hb ho, if_pos rfl]
  · rw [kfree_one_entries hb ho, if_neg hj]

end KHeap

def Arena.freeCount {whole : Bool} (s : Arena (KHeap whole)) : ℕ := s.heap.freeCount

variable {whole : Bool} {s t : Arena (KHeap whole)} {i p n : ℕ}

theorem Arena.HasRoom.freeCount (h : s.HasRoom n) : n ≤ s.freeCount := KHeap.room_le_freeCount h

/-- A request for one block that returns null has changed nothing, and found the heap full. -/
theorem kzallocOne_cases (hone : blocksOf (u32 n) = 1) (s : Arena (KHeap whole)) :
    (s.freeCount = 0 ∧ kzalloc n s = .ok (0, s)) ∨
      ∃ i t, kzalloc n s = .ok (blockAddress i, t) ∧ t.freeCount + 1 = s.freeCount ∧
        blockAt i ∈ t.heap.blocks := by
  have hrun : kzalloc n s = .ok (_, _) := rfl
  generalize hp : (Allocator.kzalloc n s.heap).1 = p at hrun
  generalize ht : (⟨_, _⟩ : Arena (KHeap whole)) = t at hrun
  by_cases h0 : p = 0
  · subst h0
    obtain rfl := KHeap.arena_null hrun
    refine Or.inl ⟨KHeap.freeCount_eq_zero.mpr (fun i hlt hf ↦ ?_), hrun⟩
    have hnull : (malloc t.heap.heap (u32 n)).1 = 0 := (KHeap.kzalloc_fst _ _).symm.trans hp
    rcases t.heap.malloc_cases n with ⟨-, hz | hno⟩ | ⟨b, -, -, -, -, hm⟩
    · rw [hz] at hone
      exact absurd hone (by decide)
    · rw [hone] at hno
      exact hno i hlt (KHeap.freeAt_one.mpr hf)
    · rw [hm] at hnull
      unfold kernelHeapBase at hnull
      omega
  · obtain ⟨i, hin, -, hf, rfl, htab, hb⟩ := KHeap.kzalloc_marks hrun h0
    rw [hone] at hin hf htab hb
    refine Or.inr ⟨i, t, hrun, ?_, hb ▸ List.mem_cons_self⟩
    refine KHeap.freeCount_take (i := i) (KHeap.mem_freeSet.mpr ⟨hin, KHeap.freeAt_one.mp hf⟩) ?_
      (fun j hj ↦ ?_)
    · exact t.heap.layout.taken (hb ▸ List.mem_cons_self) (mem_blockAt.mpr rfl)
    · rw [htab, markBlocksTaken_entries _ Nat.one_pos]
      exact if_neg (fun hm ↦ hj (mem_blockAt.mp hm))

theorem kzallocOne_granted (hone : blocksOf (u32 n) = 1) (hpos : 0 < s.freeCount) :
    ∃ i t, kzalloc n s = .ok (blockAddress i, t) ∧ t.freeCount + 1 = s.freeCount ∧
      blockAt i ∈ t.heap.blocks :=
  (kzallocOne_cases hone s).resolve_left (fun h ↦ by omega)

theorem blockAddress_ne_zero (i : ℕ) : blockAddress i ≠ 0 := by
  unfold blockAddress kernelHeapBase
  omega

theorem kzallocUncheckedOne_granted (hone : blocksOf (u32 n) = 1) (hpos : 0 < s.freeCount) :
    ∃ i t, kzallocUnchecked n s = .ok (blockAddress i, t) ∧ t.freeCount + 1 = s.freeCount ∧
      blockAt i ∈ t.heap.blocks := by
  obtain ⟨i, t, h, hcount, hb⟩ := kzallocOne_granted hone hpos
  exact ⟨i, t, kzallocUnchecked_eq_ok.mpr ⟨h, blockAddress_ne_zero i⟩, hcount, hb⟩

theorem freeCount_blocks : BlockRoom (fun k (s : Arena (KHeap whole)) ↦ k ≤ s.freeCount) where
  grant hone k s hk := by
    obtain ⟨i, t, h, hcount, -⟩ := kzallocOne_granted hone (show 0 < s.freeCount by omega)
    exact ⟨_, t, h, blockAddress_ne_zero i, by omega⟩
  mem _ h := h

end GammaOS.Memory
