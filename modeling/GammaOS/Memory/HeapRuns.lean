import GammaOS.Memory.HeapLayout

namespace GammaOS.Memory

open Foundation

structure Allocation where
  base : ℕ
  size : ℕ
deriving DecidableEq

def Heap.runOf (h : Heap) (a : Allocation) : Run := ⟨h.blockOf a.base, blocksOf a.size⟩

/-- The runs of calls of `malloc`, with any size, and of `free`, on live bases,
that start at `h₀`. `made` lists every call that took blocks, also one whose
blocks start at address 0, which its caller sees as a failure. `live` lists the
allocations returned and not freed since. -/
inductive Runs (h₀ : Heap) : List Allocation → Heap → List Allocation → Prop
  | start : Runs h₀ [] h₀ []
  | alloc {made live : List Allocation} {h h' : Heap} {size p : ℕ} (hr : Runs h₀ made h live)
      (hs : size < 2 ^ 32) (hm : malloc h size = (p, h')) (hp : p ≠ 0) :
      Runs h₀ (⟨p, size⟩ :: made) h' (⟨p, size⟩ :: live)
  | refused {made live : List Allocation} {h : Heap} {size : ℕ} (hr : Runs h₀ made h live)
      (hs : size < 2 ^ 32) (hm : malloc h size = (0, h)) : Runs h₀ made h live
  | lost {made live : List Allocation} {h h' : Heap} {size : ℕ} (hr : Runs h₀ made h live)
      (hs : size < 2 ^ 32) (hm : malloc h size = (0, h')) (hne : h' ≠ h) :
      Runs h₀ (⟨0, size⟩ :: made) h' live
  | free {made live : List Allocation} {h : Heap} {a : Allocation} (hr : Runs h₀ made h live)
      (ha : a ∈ live) :
      Runs h₀ made (free h a.base) (live.filter (fun b ↦ decide (b.base ≠ a.base)))

/-- The live allocations of a heap lie in disjoint runs of marked blocks
inside the heap. Addresses are counted modulo `2 ^ 32`, as the code does, and
as plain numbers when the heap does not wrap. -/
structure NonOverlapping (h : Heap) (live : List Allocation) : Prop where
  disjoint : live.Pairwise (fun a b ↦ (h.runOf a).Apart (h.runOf b))
  address : ∀ a ∈ live, a.base = u32 (h.heapBase + (h.runOf a).first * kernelHbSize)
  inside : ∀ a ∈ live, (h.runOf a).first + (h.runOf a).size ≤ h.entryTable.numEntries
  inside_plain : h.heapBase + kernelHbSize * h.entryTable.numEntries ≤ 2 ^ 32 → ∀ a ∈ live,
    h.heapBase ≤ a.base ∧ a.base + kernelHbSize * blocksOf a.size ≤
      h.heapBase + kernelHbSize * h.entryTable.numEntries
  marked : ∀ a ∈ live, ∀ i ∈ h.runOf a, h.entryTable.entries i &&& heapBlockEntryTaken ≠ 0

structure Tracks (h₀ h : Heap) (live : List Allocation) : Prop where
  base_eq : h.heapBase = h₀.heapBase
  entries_eq : h.entryTable.numEntries = h₀.entryTable.numEntries
  layout : Layout h.entryTable (live.map h.runOf)
  address : ∀ a ∈ live, a.base = u32 (h.heapBase + (h.runOf a).first * kernelHbSize)

variable {h₀ h h' : Heap} {made live : List Allocation}

theorem runOf_congr (hb : h'.heapBase = h.heapBase) : h'.runOf = h.runOf := by
  funext a
  rw [Heap.runOf, Heap.runOf, Heap.blockOf, Heap.blockOf, hb]

theorem runOf_first (h : Heap) (a : Allocation) : (h.runOf a).first = h.blockOf a.base := rfl

theorem Tracks.eq_of_base (ht : Tracks h₀ h live) {a b : Allocation} (ha : a ∈ live)
    (hb : b ∈ live) (hab : (h.runOf b).first ∈ h.runOf a) : a.base = b.base := by
  have hb' := List.mem_map_of_mem (f := h.runOf) hb
  have he := ht.layout.separate.eq_of_mem (List.mem_map_of_mem ha) hb' hab
    (Run.first_mem (ht.layout.nonempty _ hb'))
  rw [ht.address a ha, ht.address b hb, he]

theorem Tracks.alloc (hN : h₀.entryTable.numEntries < 2 ^ 20) (hB : h₀.heapBase < 2 ^ 32)
    (ht : Tracks h₀ h live) {size p : ℕ} (hs : size < 2 ^ 32) (hm : malloc h size = (p, h'))
    (hp : p ≠ 0) : Tracks h₀ h' (⟨p, size⟩ :: live) := by
  have hN' : h.entryTable.numEntries < 2 ^ 20 := ht.entries_eq ▸ hN
  cases malloc_step hN' hs hm with
  | refused => exact absurd rfl hp
  | found s hin hpos hf =>
    have hrun : h.runOf ⟨u32 (h.heapBase + s * kernelHbSize), size⟩ = ⟨s, blocksOf size⟩ := by
      rw [Heap.runOf, blockOf_address (ht.base_eq ▸ hB) hN' (by omega)]
    have hbase : ∀ t : HbTable, ({ h with entryTable := t } : Heap).runOf = h.runOf :=
      fun _ ↦ runOf_congr rfl
    refine ⟨ht.base_eq, ?_, ?_, ?_⟩
    · rw [markBlocksTaken_numEntries, ht.entries_eq]
    · rw [hbase, List.map_cons, hrun]
      exact ht.layout.mark hpos hin hf
    · rw [hbase]
      intro a ha
      rcases List.mem_cons.mp ha with rfl | ha
      · rw [hrun]
      · exact ht.address a ha

theorem Tracks.refused (hN : h₀.entryTable.numEntries < 2 ^ 20) (ht : Tracks h₀ h live) {size : ℕ}
    (hs : size < 2 ^ 32) (hm : malloc h size = (0, h')) : Tracks h₀ h' live := by
  have hN' : h.entryTable.numEntries < 2 ^ 20 := ht.entries_eq ▸ hN
  generalize hp : (0 : ℕ) = p at hm
  cases malloc_step hN' hs hm with
  | refused => exact ht
  | found s hin hpos hf =>
    -- the marked blocks start at address 0, so no caller holds them
    have hl := ht.layout.mark hpos hin hf
    have hbase : ∀ t : HbTable, ({ h with entryTable := t } : Heap).runOf = h.runOf :=
      fun _ ↦ runOf_congr rfl
    refine ⟨ht.base_eq, ?_, ?_, ?_⟩
    · rw [markBlocksTaken_numEntries, ht.entries_eq]
    · rw [hbase]
      exact ⟨ht.layout.separate, ht.layout.nonempty,
        fun r hr ↦ hl.inside r (List.mem_cons_of_mem _ hr),
        fun r hr ↦ hl.encoded r (List.mem_cons_of_mem _ hr)⟩
    · rw [hbase]
      exact ht.address

theorem Tracks.mem_runOf_iff (ht : Tracks h₀ h live) {a b : Allocation} (ha : a ∈ live)
    (hb : b ∈ live) : h.blockOf a.base ∈ h.runOf b ↔ b.base = a.base := by
  constructor
  · exact ht.eq_of_base hb ha
  · intro hba
    rw [← hba, ← runOf_first]
    exact Run.first_mem (ht.layout.nonempty _ (List.mem_map_of_mem hb))

theorem Tracks.map_free (ht : Tracks h₀ h live) {a : Allocation} (ha : a ∈ live) :
    (live.filter (fun b ↦ decide (b.base ≠ a.base))).map h.runOf =
      release (h.blockOf a.base) (live.map h.runOf) := by
  apply map_filter_eq_release
  intro b hb
  exact (not_congr (ht.mem_runOf_iff ha hb)).symm

theorem Tracks.freeBlocks (ht : Tracks h₀ h live) (b : ℕ) {rest : List Allocation}
    (hmap : rest.map h.runOf = release b (live.map h.runOf)) (hsub : ∀ a ∈ rest, a ∈ live) :
    Tracks h₀ (freeBlocks h b) rest := by
  have hbase : (Memory.freeBlocks h b).runOf = h.runOf := runOf_congr rfl
  refine ⟨ht.base_eq, ?_, ?_, ?_⟩
  · exact (freeBlocks_numEntries h b).trans ht.entries_eq
  · rw [hbase, hmap]
    exact ht.layout.freeBlocks b
  · rw [hbase]
    exact fun a ha ↦ ht.address a (hsub a ha)

theorem Tracks.free (ht : Tracks h₀ h live) {a : Allocation} (ha : a ∈ live) :
    Tracks h₀ (free h a.base) (live.filter (fun b ↦ decide (b.base ≠ a.base))) := by
  rw [Memory.free]
  exact ht.freeBlocks _ (ht.map_free ha) (fun b hb ↦ List.mem_of_mem_filter hb)

theorem Runs.tracks (hN : h₀.entryTable.numEntries < 2 ^ 20) (hB : h₀.heapBase < 2 ^ 32)
    (hr : Runs h₀ made h live) : Tracks h₀ h live := by
  induction hr with
  | start => exact ⟨rfl, rfl, .nil _, fun _ hm ↦ nomatch hm⟩
  | alloc _ hs hm hp ih => exact ih.alloc hN hB hs hm hp
  | refused _ hs hm ih => exact ih.refused hN hs hm
  | lost _ hs hm _ ih => exact ih.refused hN hs hm
  | free _ ha ih => exact ih.free ha

theorem Tracks.nonOverlapping (ht : Tracks h₀ h live) : NonOverlapping h live where
  disjoint := List.pairwise_map.mp ht.layout.separate
  address := ht.address
  inside := fun a ha ↦ ht.layout.inside _ (List.mem_map_of_mem ha)
  inside_plain := by
    intro hw a ha
    have hin := ht.layout.inside _ (List.mem_map_of_mem (f := h.runOf) ha)
    have hpos := ht.layout.nonempty _ (List.mem_map_of_mem (f := h.runOf) ha)
    have hsize : (h.runOf a).size = blocksOf a.size := rfl
    rw [hsize] at hin hpos
    have hadd := ht.address a ha
    unfold kernelHbSize at hadd hw ⊢
    rw [u32_of_lt (by omega)] at hadd
    omega
  marked := by
    intro a ha i hi
    rw [ht.layout.encoded _ (List.mem_map_of_mem ha) i hi]
    exact entryOf_taken _ _

theorem createHeap_ok {saddr eaddr : ℕ} {t : HbTable} (hc : createHeap saddr eaddr t = .ok h₀) :
    h₀.heapBase = saddr ∧ h₀.entryTable.numEntries = t.numEntries ∧
      (∀ i < t.numEntries, h₀.entryTable.entries i = heapBlockEntryFree) ∧
      t.numEntries = ofInt32 (Int.tdiv (toInt32 (subU32 eaddr saddr)) kernelHbSize) := by
  unfold createHeap at hc
  split at hc
  · cases hc
  · split at hc
    · cases hc
    · rename_i hv
      cases hc
      refine ⟨rfl, rfl, fun i hi ↦ if_pos hi, ?_⟩
      simpa [validateHeapTable] using hv

/-- After any run of allocations and frees, no two live allocations overlap,
and every live allocation lies inside the heap with all its blocks marked. -/
theorem heap_nonOverlapping {saddr eaddr : ℕ} {t : HbTable} (hs : saddr < 2 ^ 32)
    (hn : t.numEntries < 2 ^ 20) (hc : createHeap saddr eaddr t = .ok h₀)
    (hr : Runs h₀ made h live) : NonOverlapping h live := by
  obtain ⟨hb, he, _, _⟩ := createHeap_ok hc
  have hN : h₀.entryTable.numEntries < 2 ^ 20 := he ▸ hn
  exact (hr.tracks hN (hb ▸ hs)).nonOverlapping

def fourBlocks : Heap := ⟨⟨fun i ↦ if i < 4 then heapBlockEntryFree else 1, 4⟩, 4096⟩

theorem createHeap_fourBlocks : createHeap 4096 20480 ⟨fun _ ↦ 1, 4⟩ = .ok fourBlocks := rfl

theorem fourBlocks_run :
    Runs fourBlocks [⟨12288, 1⟩, ⟨4096, 8192⟩] (malloc (malloc fourBlocks 8192).2 1).2
      [⟨12288, 1⟩, ⟨4096, 8192⟩] :=
  .alloc (.alloc .start (by decide) rfl (by decide)) (by decide) rfl (by decide)

theorem heap_nonOverlapping_fourBlocks :
    NonOverlapping (malloc (malloc fourBlocks 8192).2 1).2 [⟨12288, 1⟩, ⟨4096, 8192⟩] :=
  heap_nonOverlapping (by decide) (by decide) createHeap_fourBlocks fourBlocks_run

end GammaOS.Memory
