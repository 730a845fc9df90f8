import GammaOS.Memory.HeapRuns

namespace GammaOS.Memory

open Foundation

variable {h₀ h h' : Heap} {made live : List Allocation}

def FreesExactly (h : Heap) (a : Allocation) : Prop :=
  ∀ i < h.entryTable.numEntries, (free h a.base).entryTable.entries i =
    if i ∈ h.runOf a then heapBlockEntryFree else h.entryTable.entries i

/-- The allocations that `free` gives back in full. -/
def Returnable (a : Allocation) : Prop := a.base ≠ 0 ∧ blocksOf a.size = 1

def AllFree (h : Heap) : Prop :=
  ∀ i < h.entryTable.numEntries, h.entryTable.entries i = heapBlockEntryFree

def Leaked (h : Heap) (live : List Allocation) (i : ℕ) : Prop :=
  i < h.entryTable.numEntries ∧ h.entryTable.entries i ≠ heapBlockEntryFree ∧
    ∀ b ∈ live, i ∉ h.runOf b

def NoLeak (h : Heap) (live : List Allocation) : Prop := Covered h.entryTable (live.map h.runOf)

theorem free_entries {p b : ℕ} (hb : h.blockOf p = b) (i : ℕ) :
    (free h p).entryTable.entries i =
      if i = b ∧ b < h.entryTable.numEntries then heapBlockEntryFree
      else h.entryTable.entries i := by
  rw [free, hb]
  exact freeBlocks_entries h b i

theorem free_runOf (h : Heap) (p : ℕ) : (free h p).runOf = h.runOf := by
  have hb : (free h p).heapBase = h.heapBase := by rw [free, freeBlocks]
  exact runOf_congr hb

theorem free_numEntries (h : Heap) (p : ℕ) :
    (free h p).entryTable.numEntries = h.entryTable.numEntries := by
  rw [free]
  exact freeBlocks_numEntries _ _

theorem runOf_size (h : Heap) (a : Allocation) : (h.runOf a).size = blocksOf a.size := rfl

theorem Tracks.run_pos (ht : Tracks h₀ h live) {a : Allocation} (ha : a ∈ live) :
    0 < (h.runOf a).size := ht.layout.nonempty _ (List.mem_map_of_mem ha)

theorem Tracks.run_inside (ht : Tracks h₀ h live) {a : Allocation} (ha : a ∈ live) :
    (h.runOf a).first + (h.runOf a).size ≤ h.entryTable.numEntries :=
  ht.layout.inside _ (List.mem_map_of_mem ha)

theorem free_run_entries (h : Heap) (a : Allocation) (i : ℕ) :
    (free h a.base).entryTable.entries i =
      if i = (h.runOf a).first ∧ (h.runOf a).first < h.entryTable.numEntries
      then heapBlockEntryFree else h.entryTable.entries i := by
  have hb := runOf_first h a
  generalize (h.runOf a).first = b at hb ⊢
  rw [free_entries hb.symm]

/-- The first block of a live allocation is the only one that `free` clears. -/
theorem Tracks.freesExactly_iff (ht : Tracks h₀ h live) {a : Allocation} (ha : a ∈ live) :
    FreesExactly h a ↔ blocksOf a.size = 1 := by
  have hpos := ht.run_pos ha
  have hin := ht.run_inside ha
  have htaken : ∀ j ∈ h.runOf a, h.entryTable.entries j ≠ heapBlockEntryFree :=
    fun j hj ↦ ht.layout.taken (List.mem_map_of_mem ha) hj
  have hfree := free_run_entries h a
  rw [FreesExactly, ← runOf_size h a]
  generalize h.runOf a = r at hpos hin htaken hfree ⊢
  constructor
  · intro hf
    by_contra hne
    have hmem : r.first + 1 ∈ r := ⟨by omega, by omega⟩
    have he := hf (r.first + 1) (by omega)
    rw [hfree, if_neg (by omega), if_pos hmem] at he
    exact htaken _ hmem he
  · intro hone i hi
    rw [hfree]
    refine if_congr ?_ rfl rfl
    rw [Run.mem_iff, hone]
    omega

theorem Tracks.malloc_cases (hN : h₀.entryTable.numEntries < 2 ^ 20) (hB : h₀.heapBase < 2 ^ 32)
    (ht : Tracks h₀ h live) {size p : ℕ} (hs : size < 2 ^ 32) (hm : malloc h size = (p, h')) :
    (p = 0 ∧ h' = h) ∨ ∃ s, 0 < blocksOf size ∧
      s + blocksOf size ≤ h.entryTable.numEntries ∧ FreeAt h.entryTable ⟨s, blocksOf size⟩ ∧
      h'.runOf = h.runOf ∧ h.runOf ⟨p, size⟩ = ⟨s, blocksOf size⟩ ∧
      h'.entryTable = markBlocksTaken h.entryTable s (s + blocksOf size - 1) := by
  have hN' : h.entryTable.numEntries < 2 ^ 20 := ht.entries_eq ▸ hN
  cases malloc_step hN' hs hm with
  | refused => exact Or.inl ⟨rfl, rfl⟩
  | found s hin hpos hf =>
    refine Or.inr ⟨s, hpos, hin, hf, runOf_congr rfl, ?_, rfl⟩
    rw [Heap.runOf, blockOf_address (ht.base_eq ▸ hB) hN' (by omega)]

theorem Leaked.malloc {i s k : ℕ} (hl : Leaked h live i) (hk : 0 < k)
    (hf : FreeAt h.entryTable ⟨s, k⟩) (hr : h'.runOf = h.runOf)
    (ht : h'.entryTable = markBlocksTaken h.entryTable s (s + k - 1)) {made : List Allocation}
    (hmade : ∀ b ∈ made, b ∈ live ∨ h.runOf b = ⟨s, k⟩) : Leaked h' made i := by
  have hn : i ∉ (⟨s, k⟩ : Run) := fun hi ↦ hl.2.1 (hf i hi)
  refine ⟨by rw [ht, markBlocksTaken_numEntries]; exact hl.1, ?_, fun b hb ↦ ?_⟩
  · rw [ht, markBlocksTaken_entries _ hk, if_neg hn]
    exact hl.2.1
  · rw [hr]
    rcases hmade b hb with hb | hb
    · exact hl.2.2 b hb
    · rw [hb]
      exact hn

theorem Leaked.released {i : ℕ} (hl : Leaked h live i) {a : Allocation} (ha : a ∈ live)
    (hpos : 0 < (h.runOf a).size) :
    Leaked (Memory.free h a.base) (live.filter (fun b ↦ decide (b.base ≠ a.base))) i := by
  refine ⟨by rw [free_numEntries]; exact hl.1, ?_, fun b hb ↦ ?_⟩
  · rw [free_run_entries, if_neg]
    · exact hl.2.1
    · intro he
      exact hl.2.2 a ha (he.1 ▸ Run.first_mem hpos)
  · rw [free_runOf]
    exact hl.2.2 b (List.mem_of_mem_filter hb)

theorem Tracks.free_leaks (ht : Tracks h₀ h live) {a : Allocation} (ha : a ∈ live)
    (hone : blocksOf a.size ≠ 1) :
    ∃ i, Leaked (Memory.free h a.base) (live.filter (fun b ↦ decide (b.base ≠ a.base))) i := by
  have hpos := ht.run_pos ha
  have hin := ht.run_inside ha
  have hmap := ht.map_free ha
  have htaken : ∀ j ∈ h.runOf a, h.entryTable.entries j ≠ heapBlockEntryFree :=
    fun j hj ↦ ht.layout.taken (List.mem_map_of_mem ha) hj
  rw [← runOf_size h a] at hone
  have hmem : (h.runOf a).first + 1 ∈ h.runOf a := by
    generalize h.runOf a = r at *
    exact ⟨by omega, by omega⟩
  refine ⟨(h.runOf a).first + 1, ?_, ?_, fun b hb ↦ ?_⟩
  · rw [free_numEntries]
    generalize h.runOf a = r at *
    omega
  · rw [free_run_entries, if_neg (fun he ↦ absurd he.1 (Nat.succ_ne_self _))]
    exact htaken _ hmem
  · rw [free_runOf]
    intro hb'
    obtain ⟨hb, hne⟩ := List.mem_filter.mp hb
    have he := ht.layout.separate.eq_of_mem (List.mem_map_of_mem ha) (List.mem_map_of_mem hb)
      hmem hb'
    refine of_decide_eq_true hne ?_
    rw [ht.address a ha, ht.address b hb, he]

theorem Tracks.size_eq (ht : Tracks h₀ h live) {a b : Allocation} (ha : a ∈ live) (hb : b ∈ live)
    (hab : b.base = a.base) : blocksOf b.size = blocksOf a.size := by
  have hfirst := (ht.mem_runOf_iff ha hb).mpr hab
  rw [← runOf_first] at hfirst
  have he := ht.layout.separate.eq_of_mem (List.mem_map_of_mem hb) (List.mem_map_of_mem ha) hfirst
    (Run.first_mem (ht.run_pos ha))
  rw [← runOf_size h b, he, runOf_size]

theorem NoLeak.released (hn : NoLeak h live) (ht : Tracks h₀ h live) {a : Allocation} (ha : a ∈ live)
    (hone : blocksOf a.size = 1) :
    NoLeak (Memory.free h a.base) (live.filter (fun b ↦ decide (b.base ≠ a.base))) := by
  intro j hj he
  rw [free_numEntries] at hj
  have hin := ht.run_inside ha
  have hmem := Run.mem_iff (r := h.runOf a) (i := j)
  have hsize := runOf_size h a
  have hrun : h.runOf a ∈ live.map h.runOf := List.mem_map_of_mem ha
  have hpos := ht.run_pos ha
  rw [free_run_entries] at he
  rw [free_runOf, ht.map_free ha, ← runOf_first]
  generalize h.runOf a = r at *
  obtain ⟨s, hs, hjs⟩ := hn j hj (fun h0 ↦ he (by rw [h0, ite_self]))
  refine ⟨s, mem_release.mpr ⟨hs, fun hrs ↦ he (if_pos ?_)⟩, hjs⟩
  have hrs := ht.layout.separate.eq_of_mem hs hrun hrs (Run.first_mem hpos)
  have := hmem.mp (hrs ▸ hjs)
  omega

/-- What a run has done with its allocations: some are not returnable and a
block is leaked, or no block is and those not live are returnable. -/
def Accounted (h : Heap) (made live : List Allocation) : Prop :=
  ((∃ i, Leaked h live i) ∧ ∃ a ∈ made, ¬ Returnable a) ∨
    (NoLeak h live ∧ ∀ a ∈ made, a ∈ live ∨ Returnable a)

theorem Runs.live_sub_made (hr : Runs h₀ made h live) : ∀ a ∈ live, a ∈ made ∧ a.base ≠ 0 := by
  induction hr with
  | start => exact fun _ hm ↦ nomatch hm
  | alloc _ _ _ hp ih =>
    intro a ha
    rcases List.mem_cons.mp ha with rfl | ha
    · exact ⟨List.mem_cons_self, hp⟩
    · exact ⟨List.mem_cons_of_mem _ (ih a ha).1, (ih a ha).2⟩
  | refused _ _ _ ih => exact ih
  | lost _ _ _ _ ih => exact fun a ha ↦ ⟨List.mem_cons_of_mem _ (ih a ha).1, (ih a ha).2⟩
  | free _ _ ih => exact fun a ha ↦ ih a (List.mem_of_mem_filter ha)

theorem Runs.accounted (hN : h₀.entryTable.numEntries < 2 ^ 20) (hB : h₀.heapBase < 2 ^ 32)
    (hfree : AllFree h₀) (hr : Runs h₀ made h live) : Accounted h made live := by
  induction hr with
  | start => exact Or.inr ⟨fun i hi he ↦ absurd (hfree i hi) he, fun _ hm ↦ nomatch hm⟩
  | refused _ _ _ ih => exact ih
  | alloc hr hs hm hp ih =>
    rcases (hr.tracks hN hB).malloc_cases hN hB hs hm with ⟨rfl, -⟩ |
      ⟨s, hk, hin, hf, hrun, hthis, ht⟩
    · exact absurd rfl hp
    rcases ih with ⟨⟨i, hi⟩, a, ha, hbad⟩ | ⟨hno, hall⟩
    · refine Or.inl ⟨⟨i, hi.malloc hk hf hrun ht (fun b hb ↦ ?_)⟩, a, List.mem_cons_of_mem _ ha, hbad⟩
      rcases List.mem_cons.mp hb with rfl | hb
      · exact Or.inr hthis
      · exact Or.inl hb
    · refine Or.inr ⟨?_, fun a ha ↦ ?_⟩
      · rw [NoLeak, ht, hrun, List.map_cons, hthis]
        exact Covered.mark hno hk
      · rcases List.mem_cons.mp ha with rfl | ha
        · exact Or.inl List.mem_cons_self
        · exact (hall a ha).imp_left (List.mem_cons_of_mem _)
  | @lost made live h h' size hr hs hm hne ih =>
    rcases (hr.tracks hN hB).malloc_cases hN hB hs hm with ⟨-, he⟩ | ⟨s, hk, hin, hf, hrun, hthis, ht⟩
    · exact absurd he hne
    have hmem : s ∈ (⟨s, blocksOf size⟩ : Run) := Run.first_mem hk
    refine Or.inl ⟨⟨s, ?_, ?_, fun b hb ↦ ?_⟩, _, List.mem_cons_self, fun hret ↦ hret.1 rfl⟩
    · rw [ht, markBlocksTaken_numEntries]
      omega
    · rw [ht, markBlocksTaken_entries _ hk, if_pos hmem]
      exact entryOf_ne_free _ _
    · rw [hrun]
      intro hsb
      exact (hr.tracks hN hB).layout.taken (List.mem_map_of_mem hb) hsb (hf s hmem)
  | @free made live h a hr ha ih =>
    have ht := hr.tracks hN hB
    rcases ih with ⟨⟨i, hi⟩, hbad⟩ | ⟨hno, hall⟩
    · exact Or.inl ⟨⟨i, hi.released ha (ht.run_pos ha)⟩, hbad⟩
    · by_cases hone : blocksOf a.size = 1
      · refine Or.inr ⟨hno.released ht ha hone, fun b hb ↦ ?_⟩
        rcases hall b hb with hlive | hret
        · by_cases hbase : b.base = a.base
          · refine Or.inr ⟨(hr.live_sub_made b hlive).2, ?_⟩
            rw [ht.size_eq ha hlive hbase, hone]
          · exact Or.inl (List.mem_filter.mpr ⟨hlive, decide_eq_true hbase⟩)
        · exact Or.inr hret
      · exact Or.inl ⟨ht.free_leaks ha hone, a, (hr.live_sub_made a ha).1, fun hret ↦ hone hret.2⟩

/-- `free` undoes `malloc` exactly for the allocations of one block, and a run
that has freed everything has an empty table exactly when all its allocations
were of one block and none was at address 0. -/
theorem free_undoes_malloc_iff {saddr eaddr : ℕ} {t : HbTable} (hs : saddr < 2 ^ 32)
    (hn : t.numEntries < 2 ^ 20) (hc : createHeap saddr eaddr t = .ok h₀)
    (hr : Runs h₀ made h live) :
    (∀ a ∈ live, FreesExactly h a ↔ blocksOf a.size = 1) ∧
      (live = [] → (AllFree h ↔ ∀ a ∈ made, Returnable a)) := by
  obtain ⟨hb, he, hfree, _⟩ := createHeap_ok hc
  have hN : h₀.entryTable.numEntries < 2 ^ 20 := he ▸ hn
  have hB : h₀.heapBase < 2 ^ 32 := hb ▸ hs
  refine ⟨fun a ha ↦ (hr.tracks hN hB).freesExactly_iff ha, ?_⟩
  rintro rfl
  rcases hr.accounted hN hB (fun i hi ↦ hfree i (he ▸ hi)) with ⟨⟨i, hi⟩, a, ha, hbad⟩ | ⟨hno, hall⟩
  · exact ⟨fun haf ↦ absurd (haf i hi.1) hi.2.1, fun hret ↦ absurd (hret a ha) hbad⟩
  · refine ⟨fun _ a ha ↦ (hall a ha).resolve_left (fun hm ↦ nomatch hm), fun _ i hi ↦ ?_⟩
    by_contra hne
    obtain ⟨r, hr, -⟩ := hno i hi hne
    cases hr

theorem free_undoes_malloc_iff_fourBlocks :
    (∀ a ∈ [(⟨12288, 1⟩ : Allocation), ⟨4096, 8192⟩],
      FreesExactly (malloc (malloc fourBlocks 8192).2 1).2 a ↔ blocksOf a.size = 1) ∧
    ([(⟨12288, 1⟩ : Allocation), ⟨4096, 8192⟩] = [] →
      (AllFree (malloc (malloc fourBlocks 8192).2 1).2 ↔
        ∀ a ∈ [(⟨12288, 1⟩ : Allocation), ⟨4096, 8192⟩], Returnable a)) :=
  free_undoes_malloc_iff (by decide) (by decide) createHeap_fourBlocks fourBlocks_run

/-- Freeing an allocation of two blocks leaves its second block marked, with
nothing live any more. -/
theorem free_two_blocks_leaks :
    createHeap 4096 20480 ⟨fun _ ↦ 1, 4⟩ = .ok fourBlocks ∧
      ∃ h a, Runs fourBlocks [a] h [a] ∧ ¬ FreesExactly h a ∧
      Runs fourBlocks [a] (free h a.base) [] ∧ ¬ AllFree (free h a.base) := by
  have hr : Runs fourBlocks [⟨4096, 8192⟩] (malloc fourBlocks 8192).2 [⟨4096, 8192⟩] :=
    .alloc .start (by decide) rfl (by decide)
  refine ⟨createHeap_fourBlocks, _, _, hr, fun hf ↦ ?_, .free hr List.mem_cons_self, fun hf ↦ ?_⟩
  · exact absurd (hf 1 (by decide)) (by decide)
  · exact absurd (hf 1 (by decide)) (by decide)

end GammaOS.Memory
