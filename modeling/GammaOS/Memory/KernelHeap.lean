import GammaOS.Memory.Arena

namespace GammaOS.Memory

open Foundation

def kernelHeapSize : ℕ := 104857600
def kernelHeapBase : ℕ := 0x01000000

def kheapEntryCount : ℕ := kernelHeapSize / kernelHbSize

/-- One call of the heap: the blocks it took, or the live run it gave back,
none when no live run holds the address. -/
inductive HeapEvent
  | took (r : Run)
  | gave (r : Option Run)
deriving DecidableEq

/-- The kernel heap with its ghosts: the live runs of its table, which the
table encodes, and the log of its calls, latest first. `whole` says what `free`
does: release the whole allocation it is given, or what the source does. -/
structure KHeap (whole : Bool) where
  heap : Heap
  blocks : List Run
  log : List HeapEvent
  base_eq : heap.heapBase = kernelHeapBase
  count_eq : heap.entryTable.numEntries = kheapEntryCount
  layout : Layout heap.entryTable blocks

namespace KHeap

variable {whole : Bool}

theorem count_lt (h : KHeap whole) : h.heap.entryTable.numEntries < 2 ^ 20 := by
  rw [h.count_eq]
  decide

theorem base_lt (h : KHeap whole) : h.heap.heapBase < 2 ^ 32 := by
  rw [h.base_eq]
  decide

theorem block_address (h : KHeap whole) {s : ℕ} (hs : s < kheapEntryCount) :
    u32 (h.heap.heapBase + s * kernelHbSize) = kernelHeapBase + s * kernelHbSize := by
  rw [h.base_eq]
  refine u32_of_lt ?_
  unfold kheapEntryCount kernelHeapSize at hs
  unfold kernelHeapBase
  unfold kernelHbSize at *
  omega

theorem blockOf_block (h : KHeap whole) {s : ℕ} (hs : s < kheapEntryCount) :
    h.heap.blockOf (kernelHeapBase + s * kernelHbSize) = s := by
  rw [← h.block_address hs]
  exact blockOf_address h.base_lt h.count_lt (h.count_eq ▸ hs)

theorem malloc_cases (h : KHeap whole) (n : ℕ) :
    malloc h.heap (u32 n) = (0, h.heap) ∧ (u32 n = 0 ∨
        ∀ i, i + blocksOf (u32 n) ≤ kheapEntryCount →
          ¬ FreeAt h.heap.entryTable ⟨i, blocksOf (u32 n)⟩) ∨
      ∃ s, s + blocksOf (u32 n) ≤ kheapEntryCount ∧ 0 < blocksOf (u32 n) ∧
        FreeAt h.heap.entryTable ⟨s, blocksOf (u32 n)⟩ ∧
        (∀ i < s, ¬ FreeAt h.heap.entryTable ⟨i, blocksOf (u32 n)⟩) ∧
        malloc h.heap (u32 n) = (kernelHeapBase + s * kernelHbSize,
          { h.heap with entryTable :=
              markBlocksTaken h.heap.entryTable s (s + blocksOf (u32 n) - 1) }) := by
  generalize hm : malloc h.heap (u32 n) = r
  obtain ⟨p, h'⟩ := r
  cases malloc_step h.count_lt (u32_lt n) hm with
  | refused hr => exact Or.inl ⟨rfl, h.count_eq ▸ hr⟩
  | found s hin hpos hf hleast =>
    rw [h.count_eq] at hin
    exact Or.inr ⟨s, hin, hpos, hf, hleast, by rw [h.block_address (by omega)]⟩

theorem malloc_null {h : KHeap whole} {n : ℕ} (hp : (malloc h.heap (u32 n)).1 = 0) :
    (malloc h.heap (u32 n)).2 = h.heap := by
  rcases h.malloc_cases n with ⟨hm, -⟩ | ⟨s, -, -, -, -, hm⟩
  · rw [hm]
  · rw [hm] at hp
    unfold kernelHeapBase at hp
    simp at hp

theorem malloc_found {h : KHeap whole} {n : ℕ} (hp : (malloc h.heap (u32 n)).1 ≠ 0) :
    ∃ s, s + blocksOf (u32 n) ≤ kheapEntryCount ∧ 0 < blocksOf (u32 n) ∧
      FreeAt h.heap.entryTable ⟨s, blocksOf (u32 n)⟩ ∧
      h.heap.blockOf (malloc h.heap (u32 n)).1 = s ∧
      (malloc h.heap (u32 n)).1 = kernelHeapBase + s * kernelHbSize ∧
      (malloc h.heap (u32 n)).2 =
        { h.heap with
          entryTable := markBlocksTaken h.heap.entryTable s (s + blocksOf (u32 n) - 1) } := by
  rcases h.malloc_cases n with ⟨hm, -⟩ | ⟨s, hin, hpos, hf, -, hm⟩
  · rw [hm] at hp
    exact absurd rfl hp
  · rw [hm]
    exact ⟨s, hin, hpos, hf, h.blockOf_block (by omega), rfl, rfl⟩

def grantedRun (h : KHeap whole) (n : ℕ) : Run :=
  ⟨h.heap.blockOf (malloc h.heap (u32 n)).1, blocksOf (u32 n)⟩

theorem granted_layout {h : KHeap whole} {n : ℕ} (hp : (malloc h.heap (u32 n)).1 ≠ 0) :
    Layout (malloc h.heap (u32 n)).2.entryTable (h.grantedRun n :: h.blocks) := by
  obtain ⟨s, hin, hpos, hf, hs, -, he⟩ := malloc_found hp
  rw [he, grantedRun, hs]
  exact h.layout.mark hpos (h.count_eq ▸ hin) hf

theorem granted_base {h : KHeap whole} {n : ℕ} (hp : (malloc h.heap (u32 n)).1 ≠ 0) :
    (malloc h.heap (u32 n)).2.heapBase = kernelHeapBase := by
  obtain ⟨s, -, -, -, -, -, he⟩ := malloc_found hp
  rw [he]
  exact h.base_eq

theorem granted_count {h : KHeap whole} {n : ℕ} (hp : (malloc h.heap (u32 n)).1 ≠ 0) :
    (malloc h.heap (u32 n)).2.entryTable.numEntries = kheapEntryCount := by
  obtain ⟨s, -, -, -, -, -, he⟩ := malloc_found hp
  rw [he]
  exact (markBlocksTaken_numEntries _ _ _).trans h.count_eq

def kzalloc (n : ℕ) (h : KHeap whole) : ℕ × KHeap whole :=
  if hp : (malloc h.heap (u32 n)).1 = 0 then (0, h)
  else
    ((malloc h.heap (u32 n)).1,
      ⟨(malloc h.heap (u32 n)).2, h.grantedRun n :: h.blocks, .took (h.grantedRun n) :: h.log,
        granted_base hp, granted_count hp, granted_layout hp⟩)

def freeHeap (h : KHeap whole) (p : ℕ) : Heap :=
  if whole then
    { h.heap with entryTable := releaseWhole h.heap.entryTable h.blocks (h.heap.blockOf p) }
  else free h.heap p

theorem freeHeap_base (h : KHeap whole) (p : ℕ) : (h.freeHeap p).heapBase = h.heap.heapBase := by
  unfold freeHeap
  split
  · rfl
  · rw [free, freeBlocks]

theorem freeHeap_count (h : KHeap whole) (p : ℕ) :
    (h.freeHeap p).entryTable.numEntries = h.heap.entryTable.numEntries := by
  unfold freeHeap
  split
  · rfl
  · rw [free]
    exact freeBlocks_numEntries _ _

theorem freeHeap_layout (h : KHeap whole) (p : ℕ) :
    Layout (h.freeHeap p).entryTable (release (h.heap.blockOf p) h.blocks) := by
  unfold freeHeap
  split
  · exact h.layout.releaseWhole _
  · rw [free]
    exact h.layout.freeBlocks _

def kfree (p : ℕ) (h : KHeap whole) : KHeap whole where
  heap := h.freeHeap (u32 p)
  blocks := release (h.heap.blockOf (u32 p)) h.blocks
  log := .gave (h.blocks.find? (fun r ↦ decide (h.heap.blockOf (u32 p) ∈ r))) :: h.log
  base_eq := (h.freeHeap_base _).trans h.base_eq
  count_eq := (h.freeHeap_count _).trans h.count_eq
  layout := h.freeHeap_layout _

def pagesOf (r : Run) : Run := ⟨pageOf kernelHeapBase + r.first, r.size⟩

instance : Allocator (KHeap whole) where
  kzalloc := kzalloc
  kfree := kfree
  live h := h.blocks.map pagesOf

theorem kzalloc_fst (h : KHeap whole) (n : ℕ) : (kzalloc n h).1 = (malloc h.heap (u32 n)).1 := by
  unfold kzalloc
  split
  · exact (‹_› : (malloc h.heap (u32 n)).1 = 0).symm
  · rfl

theorem kzalloc_heap (h : KHeap whole) (n : ℕ) :
    (kzalloc n h).2.heap = (malloc h.heap (u32 n)).2 := by
  unfold kzalloc
  split
  · exact (malloc_null ‹_›).symm
  · rfl

theorem kzalloc_blocks {h : KHeap whole} {n : ℕ} (hp : (kzalloc n h).1 ≠ 0) :
    (kzalloc n h).2.blocks = h.grantedRun n :: h.blocks := by
  rw [kzalloc_fst] at hp
  unfold kzalloc
  rw [dif_neg hp]

theorem kzalloc_null {h : KHeap whole} {n : ℕ} (hp : (kzalloc n h).1 = 0) :
    (kzalloc n h).2 = h := by
  rw [kzalloc_fst] at hp
  unfold kzalloc
  rw [dif_pos hp]

theorem arena_null {s s' : Arena (KHeap whole)} {n : ℕ} (h : Memory.kzalloc n s = .ok (0, s')) :
    s' = s := by
  simp only [Memory.kzalloc, Except.ok.injEq, Prod.mk.injEq] at h
  obtain ⟨hp, rfl⟩ := h
  rw [if_pos hp]
  exact congrArg (fun k ↦ (⟨k, s.mem⟩ : Arena (KHeap whole))) (kzalloc_null hp)

theorem kzalloc_large {s : Arena (KHeap whole)} {n : ℕ} (h : kheapEntryCount < blocksOf (u32 n)) :
    Memory.kzalloc n s = .ok (0, s) := by
  have hp : (Allocator.kzalloc n s.heap).1 = 0 := by
    refine (kzalloc_fst s.heap n).trans ?_
    rcases s.heap.malloc_cases n with ⟨hm, -⟩ | ⟨i, hin, -⟩
    · rw [hm]
    · omega
  have hrun : Memory.kzalloc n s = .ok (0, ⟨(Allocator.kzalloc n s.heap).2, s.mem⟩) := by
    simp only [Memory.kzalloc, hp, if_true]
  exact hrun.trans (congrArg (fun b ↦ Except.ok (0, b)) (arena_null hrun))

theorem kzalloc_inside {s t : Arena (KHeap whole)} {n p : ℕ} (h : Memory.kzalloc n s = .ok (p, t))
    (hp : p ≠ 0) : kernelHeapBase ≤ p ∧
      p + pageSize * blocksOf (u32 n) ≤ kernelHeapBase + kernelHeapSize := by
  have hfst : p = (malloc s.heap.heap (u32 n)).1 :=
    (congrArg Prod.fst (Except.ok.inj h)).symm.trans (kzalloc_fst s.heap n)
  obtain ⟨i, hin, -, -, -, hm, -⟩ := malloc_found (hfst ▸ hp)
  rw [hfst, hm]
  unfold kheapEntryCount kernelHeapSize at hin
  unfold kernelHeapSize pageSize
  unfold kernelHbSize at *
  omega

theorem pageOf_block (s : ℕ) :
    pageOf (kernelHeapBase + s * kernelHbSize) = pageOf kernelHeapBase + s := by
  unfold pageOf kernelHeapBase kernelHbSize pageSize
  omega

theorem mem_pagesOf {r : Run} {i : ℕ} : pageOf kernelHeapBase + i ∈ pagesOf r ↔ i ∈ r := by
  rw [pagesOf, Run.mem_mk, Run.mem_iff]
  omega

theorem pagesOf_apart {r s : Run} (h : r.Apart s) : (pagesOf r).Apart (pagesOf s) := by
  intro i hi hj
  obtain ⟨j, rfl⟩ := Nat.exists_eq_add_of_le (Nat.le_trans (Nat.le_add_right _ r.first) hi.1)
  exact h j (mem_pagesOf.mp hi) (mem_pagesOf.mp hj)

/-- Seen from the heap's base, an address and its page name the same block,
or neither names one. -/
theorem block_page (h : KHeap whole) {p : ℕ} (hp : p < 2 ^ 32) :
    pageOf p = pageOf kernelHeapBase + h.heap.blockOf p ∨
      (pageOf p < pageOf kernelHeapBase ∧ kheapEntryCount ≤ h.heap.blockOf p) := by
  have hb : h.heap.blockOf p = (p + 2 ^ 32 - kernelHeapBase) % 2 ^ 32 / kernelHbSize := by
    rw [Heap.blockOf, subU32, u32, h.base_eq]
  rw [hb]
  unfold kheapEntryCount kernelHeapSize pageOf kernelHeapBase kernelHbSize pageSize
  omega

theorem page_mem_iff (h : KHeap whole) {p : ℕ} (hp : p < 2 ^ 32) {r : Run} (hr : r ∈ h.blocks) :
    pageOf p ∈ pagesOf r ↔ h.heap.blockOf p ∈ r := by
  have hin := h.layout.inside r hr
  rw [h.count_eq] at hin
  rcases h.block_page hp with he | ⟨hlt, hle⟩
  · rw [he]
    exact mem_pagesOf
  · rw [pagesOf, Run.mem_mk, Run.mem_iff]
    generalize h.heap.blockOf p = b at *
    omega

instance : LawfulAllocator (KHeap whole) where
  separate h := List.pairwise_map.mpr (h.layout.separate.imp pagesOf_apart)
  positive h r hr := by
    obtain ⟨q, -, rfl⟩ := List.mem_map.mp hr
    unfold pagesOf pageOf kernelHeapBase pageSize
    show 0 < _ + _
    omega
  live_null h n hp := congrArg (fun k ↦ k.blocks.map pagesOf) (kzalloc_null hp)
  live_granted h n hp := by
    show (kzalloc n h).2.blocks.map pagesOf = _ :: h.blocks.map pagesOf
    change (kzalloc n h).1 ≠ 0 at hp
    rw [kzalloc_blocks hp]
    change _ = (⟨pageOf (kzalloc n h).1, _⟩ : Run) :: _
    rw [kzalloc_fst] at hp ⊢
    obtain ⟨s, -, -, -, hs, hm, -⟩ := malloc_found hp
    rw [List.map_cons, grantedRun, hs, hm, pageOf_block]
    rfl
  granted h n hp := by
    change (kzalloc n h).1 ≠ 0 at hp
    show _ ∧ (kzalloc n h).1 % _ = 0 ∧ (kzalloc n h).1 + _ ≤ _
    rw [kzalloc_fst] at hp ⊢
    obtain ⟨s, hin, hpos, -, -, hm, -⟩ := malloc_found hp
    rw [hm]
    unfold kheapEntryCount kernelHeapSize at hin
    unfold kernelHeapBase pageSize
    unfold blocksOf at *
    unfold kernelHbSize at *
    omega
  live_kfree h p := by
    show (release (h.heap.blockOf (u32 p)) h.blocks).map pagesOf = release _ (h.blocks.map pagesOf)
    rw [release]
    exact map_filter_eq_release (fun r hr ↦ not_congr (h.page_mem_iff (u32_lt p) hr).symm)

theorem kzalloc_marks {s t : Arena (KHeap whole)} {n p : ℕ} (h : Memory.kzalloc n s = .ok (p, t))
    (hp : p ≠ 0) : ∃ i, i + blocksOf (u32 n) ≤ kheapEntryCount ∧ 0 < blocksOf (u32 n) ∧
      FreeAt s.heap.heap.entryTable ⟨i, blocksOf (u32 n)⟩ ∧ p = kernelHeapBase + i * kernelHbSize ∧
      t.heap.heap.entryTable =
        markBlocksTaken s.heap.heap.entryTable i (i + blocksOf (u32 n) - 1) ∧
      t.heap.blocks = ⟨i, blocksOf (u32 n)⟩ :: s.heap.blocks := by
  simp only [Memory.kzalloc, Except.ok.injEq, Prod.mk.injEq] at h
  obtain ⟨hfst, rfl⟩ := h
  have hne : (kzalloc n s.heap).1 ≠ 0 := fun h0 ↦ hp (hfst.symm.trans h0)
  have hne' := kzalloc_fst s.heap n ▸ hne
  obtain ⟨i, hin, hpos, hf, hb, hm, he⟩ := malloc_found hne'
  refine ⟨i, hin, hpos, hf, ?_, ?_, ?_⟩
  · exact hfst.symm.trans ((kzalloc_fst s.heap n).trans hm)
  · show (kzalloc n s.heap).2.heap.entryTable = _
    rw [kzalloc_heap, he]
  · show (kzalloc n s.heap).2.blocks = _
    rw [kzalloc_blocks hne, grantedRun, hb]

theorem live_inside {s : Arena (KHeap whole)} {r : Run} (hr : r ∈ s.live) :
    r.first + r.size ≤ pageOf (kernelHeapBase + kernelHeapSize) := by
  obtain ⟨q, hq, rfl⟩ := List.mem_map.mp hr
  have hin := s.heap.layout.inside q hq
  rw [s.heap.count_eq] at hin
  unfold kheapEntryCount kernelHbSize at hin
  unfold pagesOf pageOf pageSize kernelHeapBase
  unfold kernelHeapSize at *
  dsimp only
  omega

theorem live_above {s : Arena (KHeap whole)} {r : Run} (hr : r ∈ s.live) :
    pageOf kernelHeapBase ≤ r.first := by
  obtain ⟨q, -, rfl⟩ := List.mem_map.mp hr
  exact Nat.le_add_right _ _

theorem kzalloc_free {s t : Arena (KHeap whole)} {n p j : ℕ} (h : Memory.kzalloc n s = .ok (p, t))
    (hj : t.heap.heap.entryTable.entries j = heapBlockEntryFree) :
    s.heap.heap.entryTable.entries j = heapBlockEntryFree := by
  by_cases hp : p = 0
  · subst hp
    rwa [arena_null h] at hj
  · obtain ⟨i, -, hpos, hf, -, ht, -⟩ := kzalloc_marks h hp
    rw [ht, markBlocksTaken_entries _ hpos] at hj
    split at hj
    · exact hf j ‹_›
    · exact hj

theorem kept_marked {s t u : Arena (KHeap whole)} {n p : ℕ} (h : Memory.kzalloc n s = .ok (p, t))
    (hp : p ≠ 0) (hl : (⟨pageOf p, blocksOf (u32 n)⟩ : Run) ∈ u.live) :
    ∃ i < kheapEntryCount, s.heap.heap.entryTable.entries i = heapBlockEntryFree ∧
      u.heap.heap.entryTable.entries i ≠ heapBlockEntryFree := by
  obtain ⟨i, hin, hpos, hf, rfl, -, -⟩ := kzalloc_marks h hp
  refine ⟨i, by omega, hf i (Run.first_mem hpos), ?_⟩
  obtain ⟨q, hq, he⟩ := List.mem_map.mp hl
  rw [pageOf_block] at he
  have hfirst : i ∈ q := by
    rw [← mem_pagesOf, he]
    exact Run.first_mem hpos
  exact u.heap.layout.taken hq hfirst

theorem blockOf_grant (h : KHeap whole) {i p : ℕ} (hi : i < kheapEntryCount)
    (hp : p = kernelHeapBase + i * kernelHbSize) : h.heap.blockOf (u32 p) = i := by
  have haddr := h.block_address hi
  rw [h.base_eq, ← hp] at haddr
  rw [haddr, hp]
  exact h.blockOf_block hi

theorem kfree_kzalloc {s t : Arena (KHeap true)} {n p : ℕ} (h : Memory.kzalloc n s = .ok (p, t))
    (hp : p ≠ 0) (j : ℕ) : (kfree p t.heap).heap.entryTable.entries j =
      s.heap.heap.entryTable.entries j := by
  obtain ⟨i, hin, hpos, hf, hpi, ht, hb⟩ := kzalloc_marks h hp
  have hblock := t.heap.blockOf_grant (i := i) (by omega) hpi
  have hsep := t.heap.layout.separate
  have hheap : (kfree p t.heap).heap.entryTable =
      releaseWhole t.heap.heap.entryTable t.heap.blocks (t.heap.heap.blockOf (u32 p)) := rfl
  have hself : (⟨i, blocksOf (u32 n)⟩ : Run) ∈ t.heap.blocks := hb ▸ List.mem_cons_self
  have hmem : (∃ r ∈ t.heap.blocks, i ∈ r ∧ j ∈ r) ↔ j ∈ (⟨i, blocksOf (u32 n)⟩ : Run) := by
    constructor
    · rintro ⟨r, hr, hir, hjr⟩
      exact hsep.eq_of_mem hr hself hir (Run.first_mem hpos) ▸ hjr
    · exact fun hj ↦ ⟨_, hself, Run.first_mem hpos, hj⟩
  rw [hheap, hblock, releaseWhole]
  dsimp only
  by_cases hj : j ∈ (⟨i, blocksOf (u32 n)⟩ : Run)
  · rw [if_pos (hmem.mpr hj), hf j hj]
  · rw [if_neg (mt hmem.mp hj), ht, markBlocksTaken_entries _ hpos, if_neg hj]

theorem heap_ext {h k : Heap} (he : ∀ j, h.entryTable.entries j = k.entryTable.entries j)
    (hn : h.entryTable.numEntries = k.entryTable.numEntries) (hb : h.heapBase = k.heapBase) :
    h = k := by
  obtain ⟨⟨e, n⟩, b⟩ := h
  obtain ⟨⟨e', n'⟩, b'⟩ := k
  obtain rfl : e = e' := funext he
  obtain rfl : n = n' := hn
  obtain rfl : b = b' := hb
  rfl

theorem kfree_kzalloc_one {s t : Arena (KHeap false)} {n p : ℕ}
    (h : Memory.kzalloc n s = .ok (p, t)) (hp : p ≠ 0) (hone : blocksOf (u32 n) = 1) :
    (kfree p t.heap).heap = s.heap.heap := by
  obtain ⟨i, hin, hpos, hf, hpi, ht, -⟩ := kzalloc_marks h hp
  have hblock := t.heap.blockOf_grant (i := i) (by omega) hpi
  have hheap : (kfree p t.heap).heap = free t.heap.heap (u32 p) := rfl
  have hcount := t.heap.count_eq
  rw [ht] at hcount
  refine heap_ext (fun j ↦ ?_) ?_ ?_
  · rw [hheap, free, hblock, freeBlocks_entries, ht, hcount, markBlocksTaken_entries _ hpos]
    rw [hone] at hf hin ⊢
    by_cases hj : j = i
    · subst hj
      rw [if_pos ⟨rfl, by omega⟩, hf j (Run.first_mem Nat.one_pos)]
    · rw [if_neg (fun hc ↦ hj hc.1), if_neg]
      rw [Run.mem_mk]
      omega
  · exact (kfree p t.heap).count_eq.trans s.heap.count_eq.symm
  · exact (kfree p t.heap).base_eq.trans s.heap.base_eq.symm

/-- From block `m` on the heap is free, and `n` more blocks fit there. -/
def Room (h : KHeap whole) (n : ℕ) : Prop :=
  ∃ m, m + n ≤ kheapEntryCount ∧
    ∀ i, m ≤ i → i < kheapEntryCount → h.heap.entryTable.entries i = heapBlockEntryFree

theorem room_kzalloc (h : KHeap whole) (n k : ℕ) (hn : 0 < u32 n)
    (hr : h.Room (blocksOf (u32 n) + k)) : (kzalloc n h).1 ≠ 0 ∧ (kzalloc n h).2.Room k := by
  obtain ⟨m, hm, hfree⟩ := hr
  have hat : FreeAt h.heap.entryTable ⟨m, blocksOf (u32 n)⟩ := fun j hj ↦
    hfree j hj.1 (by have := hj.2; simp only at this; omega)
  rw [kzalloc_fst, Room, kzalloc_heap]
  rcases h.malloc_cases n with ⟨-, h0 | hno⟩ | ⟨s, hin, hpos, hf, hleast, he⟩
  · omega
  · exact absurd hat (hno m (by omega))
  · have hsm : s ≤ m := by
      by_contra hc
      exact hleast m (by omega) hat
    rw [he]
    refine ⟨by unfold kernelHeapBase; omega, m + blocksOf (u32 n), by omega, fun i h₁ h₂ ↦ ?_⟩
    show (markBlocksTaken h.heap.entryTable s _).entries i = _
    rw [markBlocksTaken_entries _ hpos, if_neg (by rw [Run.mem_mk]; omega)]
    exact hfree i (by omega) h₂

theorem room_null (h : KHeap whole) (n k : ℕ) (hp : (kzalloc n h).1 = 0) (hr : h.Room k) :
    (kzalloc n h).2.Room k := by
  rw [kzalloc_fst] at hp
  rwa [Room, kzalloc_heap, malloc_null hp]

theorem freeHeap_free {h : KHeap whole} {p i : ℕ}
    (hi : h.heap.entryTable.entries i = heapBlockEntryFree) :
    (h.freeHeap p).entryTable.entries i = heapBlockEntryFree := by
  unfold freeHeap
  split
  · show (if _ then _ else _) = _
    rw [hi, ite_self]
  · rw [free, freeBlocks_entries, hi, ite_self]

instance : RoomyAllocator (KHeap whole) where
  Room := Room
  room_kzalloc := room_kzalloc
  room_null := room_null
  room_kfree h p k hr := by
    obtain ⟨m, hm, hfree⟩ := hr
    exact ⟨m, hm, fun i h₁ h₂ ↦ freeHeap_free (hfree i h₁ h₂)⟩
  room_mono h k l hkl hr := by
    obtain ⟨m, hm, hfree⟩ := hr
    exact ⟨m, by omega, hfree⟩

/-- The heap `kheap_init` makes over a table of arbitrary bytes. -/
def init (entries : ℕ → UInt8) : KHeap whole where
  heap := ⟨⟨fun i ↦ if i < kheapEntryCount then heapBlockEntryFree else entries i,
    kheapEntryCount⟩, kernelHeapBase⟩
  blocks := []
  log := []
  base_eq := rfl
  count_eq := rfl
  layout := .nil _

theorem createHeap_init (entries : ℕ → UInt8) :
    createHeap kernelHeapBase (kernelHeapBase + kernelHeapSize) ⟨entries, kheapEntryCount⟩ =
      .ok (init entries : KHeap whole).heap := by
  have hcount : kheapEntryCount = ofInt32 (Int.tdiv (toInt32
      (subU32 (kernelHeapBase + kernelHeapSize) kernelHeapBase)) kernelHbSize) := by decide
  have hv : validateHeapTable kernelHeapBase (kernelHeapBase + kernelHeapSize)
      ⟨entries, kheapEntryCount⟩ = true := beq_iff_eq.mpr hcount
  unfold createHeap
  rw [if_neg (by decide), if_neg (not_not.mpr hv)]
  rfl

theorem init_room (entries : ℕ → UInt8) : Room (init entries : KHeap whole) kheapEntryCount :=
  ⟨0, by omega, fun _ _ hi ↦ if_pos hi⟩

end KHeap

def freshArena (whole : Bool) : Arena (KHeap whole) := ⟨KHeap.init (fun _ ↦ 0), fun _ ↦ 0⟩

theorem freshArena_room (whole : Bool) {n : ℕ} (h : n ≤ kheapEntryCount) :
    (freshArena whole).HasRoom n :=
  Arena.HasRoom.mono (KHeap.init_room fun _ ↦ 0) h

end GammaOS.Memory
