import GammaOS.Memory.HeapLayout

namespace GammaOS.Memory

open Foundation

def Fits (t : HbTable) (size : ℕ) : Prop :=
  1 ≤ size ∧ ∃ i, i + blocksOf size ≤ t.numEntries ∧ FreeAt t ⟨i, blocksOf size⟩

structure FirstFree (t : HbTable) (size i : ℕ) : Prop where
  inside : i + blocksOf size ≤ t.numEntries
  free : FreeAt t ⟨i, blocksOf size⟩
  least : ∀ j < i, ¬ FreeAt t ⟨j, blocksOf size⟩

/-- `t'` is `t` with the `k` blocks from `i` on marked as one allocation. -/
structure Marked (t t' : HbTable) (i k : ℕ) : Prop where
  taken : ∀ b, i ≤ b → b < i + k → t'.entries b ≠ heapBlockEntryFree
  first : ∀ b, i ≤ b → b < i + k → (t'.entries b &&& heapBlockIsFirst ≠ 0 ↔ b = i)
  next : ∀ b, i ≤ b → b < i + k → (t'.entries b &&& heapBlockHasNext ≠ 0 ↔ b + 1 < i + k)
  outside : ∀ b, b < i ∨ i + k ≤ b → t'.entries b = t.entries b
  numEntries : t'.numEntries = t.numEntries

variable {t : HbTable} {h h' : Heap} {i j k p size : ℕ}

theorem entryOf_first (hj : j < k) : entryOf j k &&& heapBlockIsFirst ≠ 0 ↔ j = 0 := by
  unfold entryOf
  split_ifs with h₁ h₂ h₃
  · exact iff_of_true (by decide) (by omega)
  · exact iff_of_true (by decide) h₂
  · exact iff_of_false (by decide) h₂
  · exact iff_of_false (by decide) h₂

theorem entryOf_next (hj : j < k) : entryOf j k &&& heapBlockHasNext ≠ 0 ↔ j + 1 < k := by
  unfold entryOf
  split_ifs with h₁ h₂ h₃
  · exact iff_of_false (by decide) (by omega)
  · exact iff_of_true (by decide) (by omega)
  · exact iff_of_false (by decide) (by omega)
  · exact iff_of_true (by decide) (by omega)

theorem markBlocksTaken_marked (hk : 0 < k) : Marked t (markBlocksTaken t i (i + k - 1)) i k := by
  have hin : ∀ b, i ≤ b → b < i + k →
      (markBlocksTaken t i (i + k - 1)).entries b = entryOf (b - i) k :=
    fun b h₁ h₂ ↦ (markBlocksTaken_entries t hk b).trans (if_pos (Run.mem_mk.mpr ⟨h₁, h₂⟩))
  refine ⟨fun b h₁ h₂ ↦ ?_, fun b h₁ h₂ ↦ ?_, fun b h₁ h₂ ↦ ?_, fun b hb ↦ ?_,
    markBlocksTaken_numEntries t i (i + k - 1)⟩
  · rw [hin b h₁ h₂]
    exact entryOf_ne_free _ _
  · rw [hin b h₁ h₂, entryOf_first (by omega)]
    omega
  · rw [hin b h₁ h₂, entryOf_next (by omega)]
    omega
  · refine (markBlocksTaken_entries t hk b).trans (if_neg (fun hm ↦ ?_))
    have hmem := Run.mem_mk.mp hm
    omega

/-- `malloc` finds the first blocks that fit, whatever the table holds. Its
address is null for a failure only, since no block lies at address 0. -/
theorem malloc_first_fit (hN : h.entryTable.numEntries < 2 ^ 20) (hs : size < 2 ^ 32)
    (hnull : ∀ b < h.entryTable.numEntries, u32 (h.heapBase + b * kernelHbSize) ≠ 0)
    (hm : malloc h size = (p, h')) :
    (p ≠ 0 ↔ Fits h.entryTable size) ∧
    (p ≠ 0 → ∃ i, FirstFree h.entryTable size i ∧ p = u32 (h.heapBase + i * kernelHbSize) ∧
      h'.heapBase = h.heapBase ∧ Marked h.entryTable h'.entryTable i (blocksOf size)) ∧
    (p = 0 → h' = h) := by
  cases malloc_step hN hs hm with
  | refused hr =>
    refine ⟨iff_of_false (fun h0 ↦ h0 rfl) (fun ⟨hpos, i, hin, hf⟩ ↦ ?_), fun h0 ↦ absurd rfl h0,
      fun _ ↦ rfl⟩
    rcases hr with h0 | hno
    · omega
    · exact hno i hin hf
  | found i hin hpos hf hleast =>
    have hne := hnull i (by omega)
    have hsize : 1 ≤ size := by
      unfold blocksOf kernelHbSize at hpos
      omega
    exact ⟨iff_of_true hne ⟨hsize, i, hin, hf⟩,
      fun _ ↦ ⟨i, ⟨hin, hf, hleast⟩, rfl, rfl, markBlocksTaken_marked hpos⟩,
      fun h0 ↦ absurd h0 hne⟩

def gapHeap : Heap :=
  ⟨⟨fun i ↦ if i = 0 ∨ i = 2 ∨ i = 5 then 0x41 else 0, 6⟩, 0x1000000⟩

theorem malloc_first_fit_gap : ∃ p h', malloc gapHeap 4097 = (p, h') ∧ p ≠ 0 ∧
    (p ≠ 0 ↔ Fits gapHeap.entryTable 4097) ∧
    Marked gapHeap.entryTable h'.entryTable 3 2 := by
  obtain ⟨r, hm⟩ : ∃ r, malloc gapHeap 4097 = r := ⟨_, rfl⟩
  have hp : r.1 = 0x1000000 + 3 * kernelHbSize := by
    rw [← hm]
    decide +kernel
  have hne : r.1 ≠ 0 := by
    rw [hp]
    decide
  obtain ⟨h₁, h₂, -⟩ := malloc_first_fit (by decide) (by decide) (by decide) hm
  obtain ⟨i, hi, he, -, hmark⟩ := h₂ hne
  have h3 : i = 3 := by
    have hin := hi.inside
    have hfits : i + 2 ≤ 6 := hin
    have hbase : u32 (gapHeap.heapBase + i * kernelHbSize) = 0x1000000 + i * kernelHbSize := by
      refine u32_of_lt ?_
      unfold gapHeap kernelHbSize
      dsimp only
      omega
    rw [hp, hbase] at he
    unfold kernelHbSize at he
    omega
  exact ⟨r.1, r.2, hm, hne, h₁, h3 ▸ hmark⟩

end GammaOS.Memory
