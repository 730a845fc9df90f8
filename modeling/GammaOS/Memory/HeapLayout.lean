import GammaOS.Memory.HeapSearch

namespace GammaOS.Memory

open Foundation

/-- The table encodes the live runs: they are nonempty, lie inside the table,
share no block, and every entry of a live run carries the byte of its position. -/
structure Layout (t : HbTable) (live : List Run) : Prop where
  separate : Separate live
  nonempty : ∀ r ∈ live, 0 < r.size
  inside : ∀ r ∈ live, r.first + r.size ≤ t.numEntries
  encoded : ∀ r ∈ live, ∀ j ∈ r, t.entries j = entryOf (j - r.first) r.size

def Covered (t : HbTable) (live : List Run) : Prop :=
  ∀ j < t.numEntries, t.entries j ≠ heapBlockEntryFree → ∃ r ∈ live, j ∈ r

theorem Layout.taken {t : HbTable} {live : List Run} (h : Layout t live) {r : Run} (hr : r ∈ live)
    {j : ℕ} (hj : j ∈ r) : t.entries j ≠ heapBlockEntryFree := by
  rw [h.encoded r hr j hj]
  exact entryOf_ne_free _ _

theorem Layout.free_apart {t : HbTable} {live : List Run} (h : Layout t live) {r : Run}
    (hr : FreeAt t r) : ∀ s ∈ live, r.Apart s :=
  fun _ hs j hj hj' ↦ h.taken hs hj' (hr j hj)

theorem Layout.nil (t : HbTable) : Layout t [] where
  separate := .nil
  nonempty := fun _ h ↦ nomatch h
  inside := fun _ h ↦ nomatch h
  encoded := fun _ h ↦ nomatch h

theorem Layout.mark {t : HbTable} {live : List Run} (h : Layout t live) {s k : ℕ} (hk : 0 < k)
    (hs : s + k ≤ t.numEntries) (hf : FreeAt t ⟨s, k⟩) :
    Layout (markBlocksTaken t s (s + k - 1)) (⟨s, k⟩ :: live) where
  separate := h.separate.cons (h.free_apart hf)
  nonempty := by
    intro r hr
    rcases List.mem_cons.mp hr with rfl | hr
    · exact hk
    · exact h.nonempty r hr
  inside := by
    intro r hr
    rw [markBlocksTaken_numEntries]
    rcases List.mem_cons.mp hr with rfl | hr
    · exact hs
    · exact h.inside r hr
  encoded := by
    intro r hr j hj
    rw [markBlocksTaken_entries t hk]
    rcases List.mem_cons.mp hr with rfl | hr
    · rw [if_pos hj]
    · rw [if_neg (fun hj' ↦ h.free_apart hf r hr j hj' hj)]
      exact h.encoded r hr j hj

theorem Covered.mark {t : HbTable} {live : List Run} (h : Covered t live) {s k : ℕ} (hk : 0 < k) :
    Covered (markBlocksTaken t s (s + k - 1)) (⟨s, k⟩ :: live) := by
  intro j hj he
  rw [markBlocksTaken_numEntries] at hj
  rw [markBlocksTaken_entries t hk] at he
  by_cases hm : j ∈ (⟨s, k⟩ : Run)
  · exact ⟨_, List.mem_cons_self, hm⟩
  · rw [if_neg hm] at he
    obtain ⟨r, hr, hjr⟩ := h j hj he
    exact ⟨r, List.mem_cons_of_mem _ hr, hjr⟩

/-- An edit that leaves the runs not holding block `b` alone keeps the layout
of the runs that remain when `b` is released. -/
theorem Layout.release {t t' : HbTable} {live : List Run} (h : Layout t live) {b : ℕ}
    (hn : t'.numEntries = t.numEntries)
    (he : ∀ r ∈ live, b ∉ r → ∀ j ∈ r, t'.entries j = t.entries j) :
    Layout t' (Foundation.release b live) where
  separate := release_separate h.separate b
  nonempty := fun r hr ↦ h.nonempty r (mem_release.mp hr).1
  inside := fun r hr ↦ hn ▸ h.inside r (mem_release.mp hr).1
  encoded := by
    intro r hr j hj
    obtain ⟨hr, hb⟩ := mem_release.mp hr
    rw [he r hr hb j hj, h.encoded r hr j hj]

theorem Layout.freeBlocks {h : Heap} {live : List Run} (hl : Layout h.entryTable live) (b : ℕ) :
    Layout (freeBlocks h b).entryTable (Foundation.release b live) := by
  refine hl.release (freeBlocks_numEntries h b) (fun r _ hb j hj ↦ ?_)
  rw [freeBlocks_entries, if_neg]
  rintro ⟨rfl, _⟩
  exact hb hj

/-- Frees every block of the live runs that hold block `b`: what releasing a
whole allocation means, whatever the table's bits say. -/
def releaseWhole (t : HbTable) (live : List Run) (b : ℕ) : HbTable :=
  { t with entries := fun i ↦
      if ∃ r ∈ live, b ∈ r ∧ i ∈ r then heapBlockEntryFree else t.entries i }

theorem Layout.releaseWhole {t : HbTable} {live : List Run} (h : Layout t live) (b : ℕ) :
    Layout (releaseWhole t live b) (Foundation.release b live) := by
  refine h.release rfl (fun r hr hb j hj ↦ if_neg ?_)
  rintro ⟨s, hs, hbs, hjs⟩
  exact hb (h.separate.eq_of_mem hs hr hjs hj ▸ hbs)

def blocksOf (size : ℕ) : ℕ := (size + (kernelHbSize - 1)) / kernelHbSize

theorem alignedBlocks {size : ℕ} (h : size < 2 ^ 32) :
    getAlignedHeapSize size / kernelHbSize =
      if size ≤ 2 ^ 32 - kernelHbSize then blocksOf size else 0 := by
  unfold getAlignedHeapSize blocksOf u32 kernelHbSize
  split_ifs <;> omega

/-- What one call of `malloc` does: it refuses and changes nothing, or it marks
the first `blocksOf size` consecutive free blocks. -/
inductive MallocStep (h : Heap) (size : ℕ) : ℕ → Heap → Prop
  | refused (hr : size = 0 ∨ ∀ i, i + blocksOf size ≤ h.entryTable.numEntries →
      ¬ FreeAt h.entryTable ⟨i, blocksOf size⟩) : MallocStep h size 0 h
  | found (s : ℕ) (hs : s + blocksOf size ≤ h.entryTable.numEntries) (hpos : 0 < blocksOf size)
      (hf : FreeAt h.entryTable ⟨s, blocksOf size⟩)
      (hleast : ∀ i < s, ¬ FreeAt h.entryTable ⟨i, blocksOf size⟩) :
      MallocStep h size (u32 (h.heapBase + s * kernelHbSize))
        { h with entryTable := markBlocksTaken h.entryTable s (s + blocksOf size - 1) }

theorem mallocBlocks_zero (h : Heap) : mallocBlocks h 0 = (0, h) := by
  rw [mallocBlocks, findFreeEntry_zero, if_pos rfl]

theorem malloc_step {h h' : Heap} (hN : h.entryTable.numEntries < 2 ^ 20) {size p : ℕ}
    (hs : size < 2 ^ 32) (hm : malloc h size = (p, h')) : MallocStep h size p h' := by
  rw [malloc, alignedBlocks hs] at hm
  by_cases hle : size ≤ 2 ^ 32 - kernelHbSize
  · rw [if_pos hle] at hm
    by_cases hpos : 0 < blocksOf size
    · rcases findFreeEntry_firstFit (t := h.entryTable) (by unfold negU32; omega) hpos with
        ⟨he, hno⟩ | ⟨hin, hf, hleast⟩
      · rw [mallocBlocks, if_pos he] at hm
        cases hm
        exact .refused (Or.inr hno)
      · have hne : findFreeEntry h.entryTable (blocksOf size) ≠ negU32 errMallocFail := by
          unfold negU32 errMallocFail
          omega
        rw [mallocBlocks, if_neg hne] at hm
        cases hm
        exact .found _ hin hpos hf hleast
    · rw [Nat.eq_zero_of_not_pos hpos, mallocBlocks_zero] at hm
      cases hm
      exact .refused (Or.inl (by unfold blocksOf kernelHbSize at hpos; omega))
  · rw [if_neg hle, mallocBlocks_zero] at hm
    cases hm
    refine .refused (Or.inr (fun i hi ↦ absurd hi ?_))
    unfold blocksOf
    unfold kernelHbSize at hle ⊢
    omega

theorem blockOf_address {h : Heap} (hb : h.heapBase < 2 ^ 32)
    (hN : h.entryTable.numEntries < 2 ^ 20) {i : ℕ} (hi : i < h.entryTable.numEntries) :
    h.blockOf (u32 (h.heapBase + i * kernelHbSize)) = i := by
  unfold Heap.blockOf subU32 u32 kernelHbSize
  omega

end GammaOS.Memory
