import GammaOS.Memory.KernelHeap

namespace GammaOS.Memory

open Foundation Foundation.Program

def blockAt (i : ℕ) : Run := ⟨i, 1⟩

def blockAddress (i : ℕ) : ℕ := kernelHeapBase + i * kernelHbSize

def blockIndex (p : ℕ) : ℕ := pageOf p - pageOf kernelHeapBase

section Took

variable {whole : Bool} {h h' : KHeap whole} {s t : Arena (KHeap whole)} {is : List ℕ} {n p i j : ℕ}

theorem mem_blockAt : j ∈ blockAt i ↔ j = i := by
  rw [blockAt, Run.mem_mk]
  omega

/-- Since `h` the heap has handed out the blocks of the list, one with each
call, the latest first. -/
structure Took (h h' : KHeap whole) (is : List ℕ) : Prop where
  blocks : h'.blocks = is.map blockAt ++ h.blocks
  log : h'.log = (is.map blockAt).map .took ++ h.log
  free : ∀ i ∈ is, h.heap.entryTable.entries i = heapBlockEntryFree
  entries : ∀ j ∉ is, h'.heap.entryTable.entries j = h.heap.entryTable.entries j

theorem Took.refl (h : KHeap whole) : Took h h [] :=
  ⟨rfl, rfl, fun _ hi ↦ (List.not_mem_nil hi).elim, fun _ _ ↦ rfl⟩

theorem Took.mem_blocks (h' : Took h s.heap is) (hi : i ∈ is) : blockAt i ∈ s.heap.blocks := by
  rw [h'.blocks]
  exact List.mem_append_left _ (List.mem_map_of_mem hi)

theorem Took.live (h : Took s.heap t.heap is) :
    t.live = (is.map blockAt).map KHeap.pagesOf ++ s.live := by
  show t.heap.blocks.map KHeap.pagesOf = _
  rw [h.blocks, List.map_append]
  rfl

theorem kzalloc_log (h : kzalloc n s = .ok (p, t)) (hp : p ≠ 0) :
    ∃ r, t.heap.blocks = r :: s.heap.blocks ∧ t.heap.log = .took r :: s.heap.log := by
  simp only [kzalloc, Except.ok.injEq, Prod.mk.injEq] at h
  obtain ⟨hfst, rfl⟩ := h
  have hne : (malloc s.heap.heap (u32 n)).1 ≠ 0 := by
    rw [← KHeap.kzalloc_fst]
    exact fun h0 ↦ hp (hfst.symm.trans h0)
  have hrun : (KHeap.kzalloc n s.heap).2.log = .took (s.heap.grantedRun n) :: s.heap.log := by
    unfold KHeap.kzalloc
    rw [dif_neg hne]
  refine ⟨_, KHeap.kzalloc_blocks ?_, hrun⟩
  rwa [KHeap.kzalloc_fst]

theorem Took.kzalloc (h' : Took h s.heap is) (hk : kzalloc n s = .ok (p, t)) (hp : p ≠ 0)
    (hone : blocksOf (u32 n) = 1) : ∃ i, Took h t.heap (i :: is) := by
  obtain ⟨i, -, hpos, hf, -, ht, hb⟩ := KHeap.kzalloc_marks hk hp
  obtain ⟨r, hr, hlog⟩ := kzalloc_log hk hp
  have hrun : r = blockAt i := by
    rw [hb, hone] at hr
    exact (List.cons.inj hr).1.symm
  rw [hone] at hf hb ht
  have hfree : s.heap.heap.entryTable.entries i = heapBlockEntryFree := hf i (mem_blockAt.mpr rfl)
  have hnew : i ∉ is := fun hi ↦
    s.heap.layout.taken (h'.mem_blocks hi) (mem_blockAt.mpr rfl) hfree
  refine ⟨i, ?_, ?_, ?_, fun j hj ↦ ?_⟩
  · rw [hb, h'.blocks]
    rfl
  · rw [hlog, hrun, h'.log]
    rfl
  · rw [List.forall_mem_cons]
    exact ⟨(h'.entries i hnew).symm.trans hfree, h'.free⟩
  · rw [List.mem_cons, not_or] at hj
    rw [ht, markBlocksTaken_entries _ Nat.one_pos, if_neg, h'.entries j hj.2]
    exact fun hm ↦ hj.1 (mem_blockAt.mp hm)

def TookMany (h : KHeap whole) (n : ℕ) (s : Arena (KHeap whole)) : Prop :=
  ∃ is, is.length = n ∧ Took h s.heap is

theorem kzallocUnchecked_took (hone : blocksOf (u32 n) = 1) (k : ℕ) :
    Triple (TookMany h k) (kzallocUnchecked n) (fun _ ↦ TookMany h (k + 1)) := by
  rintro s ⟨is, hlen, hs⟩ p t hk
  obtain ⟨hk, hp⟩ := kzallocUnchecked_eq_ok.mp hk
  obtain ⟨i, hi⟩ := hs.kzalloc hk hp hone
  exact ⟨i :: is, by rw [List.length_cons, hlen], hi⟩

end Took

section Gave

variable {h h' : KHeap false} {is : List ℕ} {i j : ℕ}

structure Gave (h h' : KHeap false) (is : List ℕ) : Prop where
  log : h'.log = (is.map blockAt).map (fun r ↦ .gave (some r)) ++ h.log
  cleared : ∀ i ∈ is, h'.heap.entryTable.entries i = heapBlockEntryFree
  entries : ∀ j ∉ is, h'.heap.entryTable.entries j = h.heap.entryTable.entries j

theorem block_lt (hi : blockAt i ∈ h.blocks) : i < kheapEntryCount := by
  have hin := h.layout.inside _ hi
  rw [h.count_eq] at hin
  exact hin

theorem blockOf_blockAddress (hi : i < kheapEntryCount) :
    h.heap.blockOf (u32 (blockAddress i)) = i := by
  refine h.blockOf_grant hi ?_
  rw [blockAddress]

theorem kfree_blocks (hi : i < kheapEntryCount) :
    (KHeap.kfree (blockAddress i) h).blocks = release i h.blocks :=
  congrArg (fun b ↦ release b h.blocks) (blockOf_blockAddress hi)

theorem kfree_log (hi : blockAt i ∈ h.blocks) :
    (KHeap.kfree (blockAddress i) h).log = .gave (some (blockAt i)) :: h.log := by
  have hfind : h.blocks.find? (fun r ↦ decide (i ∈ r)) = some (blockAt i) := by
    cases hf : h.blocks.find? (fun r ↦ decide (i ∈ r)) with
    | none =>
      have hno := List.find?_eq_none.mp hf _ hi
      exact absurd (decide_eq_true (mem_blockAt.mpr rfl)) hno
    | some r =>
      have hmem := List.find?_some hf
      rw [decide_eq_true_eq] at hmem
      rw [h.layout.separate.eq_of_mem (List.mem_of_find?_eq_some hf) hi hmem (mem_blockAt.mpr rfl)]
  have hlog : ∀ p, (KHeap.kfree p h).log =
      .gave (h.blocks.find? (fun r ↦ decide (h.heap.blockOf (u32 p) ∈ r))) :: h.log := fun _ ↦ rfl
  rw [hlog, blockOf_blockAddress (block_lt hi), hfind]

theorem kfree_entries (hi : i < kheapEntryCount) :
    (KHeap.kfree (blockAddress i) h).heap.entryTable.entries j =
      if j = i then heapBlockEntryFree else h.heap.entryTable.entries j := by
  have hheap : (KHeap.kfree (blockAddress i) h).heap = free h.heap (u32 (blockAddress i)) := rfl
  rw [hheap, free, blockOf_blockAddress hi, freeBlocks_entries, h.count_eq]
  exact if_congr (and_iff_left hi) rfl rfl

/-- Calls of `kfree`, the first of the list first. -/
def freeAll (ps : List ℕ) (h : KHeap false) : KHeap false :=
  ps.foldl (fun h p ↦ KHeap.kfree p h) h

theorem freeAll_cons {p : ℕ} {ps : List ℕ} : freeAll (p :: ps) h = freeAll ps (KHeap.kfree p h) :=
  List.foldl_cons

theorem freeAll_append {ps qs : List ℕ} : freeAll (ps ++ qs) h = freeAll qs (freeAll ps h) :=
  List.foldl_append

theorem freeAll_gave : ∀ (is : List ℕ) (h : KHeap false), is.Nodup →
    (∀ i ∈ is, blockAt i ∈ h.blocks) → Gave h (freeAll (is.map blockAddress) h) is.reverse := by
  intro is
  induction is with
  | nil => exact fun h _ _ ↦ ⟨rfl, fun _ hi ↦ (List.not_mem_nil hi).elim, fun _ _ ↦ rfl⟩
  | cons i is ih =>
    intro h hnd hmem
    obtain ⟨hnot, hnd⟩ := List.nodup_cons.mp hnd
    have hi := hmem i List.mem_cons_self
    have hlt := block_lt hi
    have hrest : ∀ j ∈ is, blockAt j ∈ (KHeap.kfree (blockAddress i) h).blocks := by
      intro j hj
      rw [kfree_blocks hlt, mem_release]
      exact ⟨hmem j (List.mem_cons_of_mem i hj), fun he ↦ hnot (mem_blockAt.mp he ▸ hj)⟩
    have g := ih _ hnd hrest
    rw [List.map_cons, freeAll_cons, List.reverse_cons]
    refine ⟨?_, fun j hj ↦ ?_, fun j hj ↦ ?_⟩
    · rw [g.log, kfree_log hi]
      simp
    · by_cases hjs : j ∈ is.reverse
      · exact g.cleared j hjs
      · rw [g.entries j hjs, kfree_entries hlt, if_pos]
        simpa [hjs] using hj
    · rw [List.mem_append, List.mem_singleton, not_or] at hj
      rw [g.entries j hj.1, kfree_entries hlt, if_neg hj.2]

end Gave

theorem blockIndex_address (i : ℕ) : blockIndex (blockAddress i) = i := by
  rw [blockIndex, blockAddress, KHeap.pageOf_block, Nat.add_sub_cancel_left]

end GammaOS.Memory
