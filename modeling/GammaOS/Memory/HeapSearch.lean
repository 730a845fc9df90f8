import GammaOS.Foundation.Runs
import GammaOS.Memory.Heap

namespace GammaOS.Memory

open Function Foundation

def FreeAt (t : HbTable) (r : Run) : Prop := ∀ j ∈ r, t.entries j = heapBlockEntryFree

/-- What `find_free_entry` knows when it is about to look at block `c`: the
`count` blocks before `c` are free, the one before those is not, and no run of
`k` free blocks ends at or before `c`. -/
structure Scan (t : HbTable) (k c start count : ℕ) : Prop where
  count_lt : count < k
  count_le : count ≤ c
  start_eq : start = if count = 0 then negU32 1 else c - count
  free : FreeAt t ⟨c - count, count⟩
  bound : count < c → t.entries (c - count - 1) ≠ heapBlockEntryFree
  none_before : ∀ i, i + k ≤ c → ¬ FreeAt t ⟨i, k⟩

theorem Scan.init (t : HbTable) {k : ℕ} (hk : 0 < k) : Scan t k 0 (negU32 1) 0 where
  count_lt := hk
  count_le := Nat.le_refl 0
  start_eq := rfl
  free := fun j hj ↦ by have := hj.2; simp at this
  bound := fun h ↦ absurd h (Nat.lt_irrefl 0)
  none_before := fun i hi ↦ by omega

theorem Scan.taken {t : HbTable} {k c start count : ℕ} (h : Scan t k c start count)
    (hc : t.entries c ≠ heapBlockEntryFree) : Scan t k (c + 1) (negU32 1) 0 where
  count_lt := Nat.zero_lt_of_lt h.count_lt
  count_le := Nat.zero_le _
  start_eq := rfl
  free := fun j hj ↦ by have h₁ := hj.1; have h₂ := hj.2; simp at h₁ h₂; omega
  bound := fun _ ↦ by simpa using hc
  none_before := by
    intro i hi hf
    by_cases hle : i + k ≤ c
    · exact h.none_before i hle hf
    · have := h.count_lt
      exact hc (hf c ⟨by simp only; omega, by simp only; omega⟩)

theorem Scan.start_next {t : HbTable} {k c start count : ℕ} (h : Scan t k c start count)
    (hc : c < negU32 1) : (if start = negU32 1 then c else start) = c - count := by
  rw [h.start_eq]
  by_cases h0 : count = 0
  · simp [h0]
  · have : c - count ≠ negU32 1 := by omega
    simp [h0, this]

theorem Scan.free_next {t : HbTable} {k c start count : ℕ} (h : Scan t k c start count)
    (hc : t.entries c = heapBlockEntryFree) : FreeAt t ⟨c - count, count + 1⟩ := by
  rintro j ⟨hj, hj'⟩
  simp only at hj hj'
  by_cases he : j = c
  · rw [he, hc]
  · have := h.count_le
    exact h.free j ⟨hj, by simp only; omega⟩

theorem Scan.more {t : HbTable} {k c start count : ℕ} (h : Scan t k c start count)
    (hc : t.entries c = heapBlockEntryFree) (hk : count + 1 ≠ k) :
    Scan t k (c + 1) (c - count) (count + 1) where
  count_lt := by have := h.count_lt; omega
  count_le := Nat.succ_le_succ h.count_le
  start_eq := by simp
  free := by simpa using h.free_next hc
  bound := fun hlt ↦ by simpa using h.bound (by omega)
  none_before := by
    intro i hi hf
    by_cases hle : i + k ≤ c
    · exact h.none_before i hle hf
    · have hcount := h.count_lt
      -- the run would have to reach back over the block that stopped the count
      exact h.bound (by omega) (hf (c - count - 1) ⟨by simp only; omega, by simp only; omega⟩)

/-- The answer of the search: the least start of `k` free blocks, or the
error code when there is none. -/
def FirstFit (t : HbTable) (k r : ℕ) : Prop :=
  (r = negU32 errMallocFail ∧ ∀ i, i + k ≤ t.numEntries → ¬ FreeAt t ⟨i, k⟩) ∨
  (r + k ≤ t.numEntries ∧ FreeAt t ⟨r, k⟩ ∧ ∀ i < r, ¬ FreeAt t ⟨i, k⟩)

theorem findFreeLoop_firstFit {t : HbTable} {k : ℕ} (hN : t.numEntries < negU32 1) :
    ∀ n c start count, c + n = t.numEntries → Scan t k c start count →
      FirstFit t k (findFreeLoop t k n c start count) := by
  intro n
  induction n with
  | zero =>
    intro c start count hc h
    exact Or.inl ⟨rfl, fun i hi ↦ h.none_before i (by omega)⟩
  | succ n ih =>
    intro c start count hc h
    rw [findFreeLoop]
    split
    · exact ih (c + 1) _ _ (by omega) (h.taken ‹_›)
    · have hfree : t.entries c = heapBlockEntryFree := not_not.mp ‹_›
      simp only [h.start_next (by omega)]
      have hle := h.count_le
      split
      · rename_i hk
        refine Or.inr ⟨by omega, hk ▸ h.free_next hfree, fun i hi ↦ h.none_before i (by omega)⟩
      · exact ih (c + 1) _ _ (by omega) (h.more hfree ‹_›)

theorem findFreeEntry_firstFit {t : HbTable} {k : ℕ} (hN : t.numEntries < negU32 1)
    (hk : 0 < k) : FirstFit t k (findFreeEntry t k) :=
  findFreeLoop_firstFit hN _ 0 _ 0 (Nat.zero_add _) (.init t hk)

theorem findFreeEntry_zero (t : HbTable) : findFreeEntry t 0 = negU32 errMallocFail := by
  have h : ∀ n c start count, findFreeLoop t 0 n c start count = negU32 errMallocFail := by
    intro n
    induction n with
    | zero => intros; rfl
    | succ n ih =>
      intro c start count
      rw [findFreeLoop]
      split
      · exact ih _ _ _
      · simpa using ih _ _ _
  exact h _ _ _ _

def entryOf (j k : ℕ) : UInt8 :=
  if k = 1 then heapBlockEntryTaken ||| heapBlockIsFirst
  else if j = 0 then heapBlockEntryTaken ||| heapBlockIsFirst ||| heapBlockHasNext
  else if j + 1 = k then heapBlockEntryTaken
  else heapBlockEntryTaken ||| heapBlockHasNext

theorem entryOf_taken (j k : ℕ) : entryOf j k &&& heapBlockEntryTaken ≠ 0 := by
  unfold entryOf
  split_ifs <;> decide

theorem entryOf_ne_free (j k : ℕ) : entryOf j k ≠ heapBlockEntryFree := by
  unfold entryOf
  split_ifs <;> decide

@[simp] theorem HbTable.set_numEntries (t : HbTable) (b : ℕ) (e : UInt8) :
    (t.set b e).numEntries = t.numEntries := rfl

theorem HbTable.set_entries (t : HbTable) (b : ℕ) (e : UInt8) (i : ℕ) :
    (t.set b e).entries i = if i = b then e else t.entries i := by
  simp [HbTable.set, update_apply]

theorem markLoop_entries (s e : ℕ) (hse : s < e) :
    ∀ n b t, s ≤ b → b + n = e + 1 → ∀ i, (markLoop s e n b t).entries i =
      if b ≤ i ∧ i ≤ e then entryOf (i - s) (e + 1 - s) else t.entries i := by
  intro n
  induction n with
  | zero =>
    intro b t _ hb i
    rw [if_neg (by omega)]
    rfl
  | succ n ih =>
    intro b t hs hb i
    rw [markLoop, ih (b + 1) _ (by omega) (by omega)]
    by_cases hi : i = b
    · subst i
      rw [if_neg (show ¬ (b + 1 ≤ b ∧ b ≤ e) by omega), HbTable.set_entries, if_pos rfl,
        if_pos (show b ≤ b ∧ b ≤ e by omega), entryOf, if_neg (show ¬ e + 1 - s = 1 by omega)]
      by_cases h₁ : b = s
      · rw [if_pos h₁, if_pos (show b - s = 0 by omega)]
      · rw [if_neg h₁, if_neg (show ¬ b - s = 0 by omega)]
        by_cases h₂ : b = e
        · rw [if_pos h₂, if_pos (show b - s + 1 = e + 1 - s by omega)]
        · rw [if_neg h₂, if_neg (show ¬ b - s + 1 = e + 1 - s by omega)]
    · rw [HbTable.set_entries, if_neg hi]
      by_cases hr : b ≤ i ∧ i ≤ e
      · rw [if_pos hr, if_pos (by omega)]
      · rw [if_neg hr, if_neg (by omega)]

theorem markLoop_numEntries (s e : ℕ) :
    ∀ n b t, (markLoop s e n b t).numEntries = t.numEntries := by
  intro n
  induction n with
  | zero => intros; rfl
  | succ n ih => intro b t; rw [markLoop, ih]; rfl

theorem markBlocksTaken_entries (t : HbTable) {s k : ℕ} (hk : 0 < k) (i : ℕ) :
    (markBlocksTaken t s (s + k - 1)).entries i =
      if i ∈ (⟨s, k⟩ : Run) then entryOf (i - s) k else t.entries i := by
  unfold markBlocksTaken
  by_cases h1 : k = 1
  · subst h1
    rw [if_pos (by omega), HbTable.set_entries]
    simp only [Run.mem_iff, entryOf]
    by_cases hi : i = s
    · rw [if_pos hi, if_pos (by omega)]; simp
    · rw [if_neg hi, if_neg (by omega)]
  · rw [if_neg (by omega), markLoop_entries _ _ (by omega) _ _ _ (Nat.le_refl _) (by omega)]
    simp only [Run.mem_iff]
    rw [show s + k - 1 + 1 - s = k by omega]
    by_cases hi : s ≤ i ∧ i ≤ s + k - 1
    · rw [if_pos hi, if_pos (by omega)]
    · rw [if_neg hi, if_neg (by omega)]

@[simp] theorem markBlocksTaken_numEntries (t : HbTable) (s e : ℕ) :
    (markBlocksTaken t s e).numEntries = t.numEntries := by
  unfold markBlocksTaken
  split
  · rfl
  · exact markLoop_numEntries _ _ _ _ _

/-- The source's loop stops at its first block, since it tests the entry it
has just cleared. -/
theorem freeLoop_eq (n b : ℕ) (t : HbTable) :
    freeLoop (n + 1) b t = t.set b heapBlockEntryFree := by
  have h : (t.set b heapBlockEntryFree).entries b = heapBlockEntryFree := by
    rw [HbTable.set_entries, if_pos rfl]
  simp only [freeLoop, h]
  rw [if_pos (by decide)]

theorem freeBlocks_entries (h : Heap) (b i : ℕ) :
    (freeBlocks h b).entryTable.entries i =
      if i = b ∧ b < h.entryTable.numEntries then heapBlockEntryFree
      else h.entryTable.entries i := by
  unfold freeBlocks
  by_cases hb : b < h.entryTable.numEntries
  · obtain ⟨n, hn⟩ := Nat.exists_eq_succ_of_ne_zero (show h.entryTable.numEntries - b ≠ 0 by omega)
    simp only [hn, freeLoop_eq, HbTable.set_entries, hb, and_true]
  · have hn : h.entryTable.numEntries - b = 0 := by omega
    simp [hn, freeLoop, hb]

@[simp] theorem freeBlocks_numEntries (h : Heap) (b : ℕ) :
    (freeBlocks h b).entryTable.numEntries = h.entryTable.numEntries := by
  unfold freeBlocks
  cases h.entryTable.numEntries - b with
  | zero => rfl
  | succ n => simp only [freeLoop_eq, HbTable.set_numEntries]

end GammaOS.Memory
