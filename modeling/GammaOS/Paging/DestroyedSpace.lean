import GammaOS.Memory.SingleBlocks
import GammaOS.Paging.SpaceFrame
import Mathlib.Data.List.Nodup
import Mathlib.Data.List.Perm.Subperm

namespace GammaOS.Paging

open Foundation Foundation.Program Memory

section Addresses

variable {m : ByteMemory} {S : Space}

theorem mapPages_holds {flags : ℕ} : ∀ n vaddr paddr (m : ByteMemory), Holds m S →
    vaddr < 2 ^ 32 → Holds (mapPages S.vspace flags n vaddr paddr m) S := by
  intro n
  induction n with
  | zero => exact fun _ _ _ h _ ↦ h
  | succ n ih =>
    intro vaddr paddr m h hv
    rw [mapPages, h.pd_eq]
    exact ih _ _ _ (h.mapVaddrToVal_holds hv) (u32_lt _)

theorem MapCall.run_holds {c : MapCall} (hv : c.vaddr < 2 ^ 32) (h : Holds m S) :
    Holds (c.run S.vspace m) S := by
  unfold MapCall.run pagingMapRange
  split
  · exact h
  · split
    · exact h
    · exact mapPages_holds _ _ _ m h hv

theorem runCalls_holds (h : Holds m S) {calls : List MapCall}
    (hv : ∀ c ∈ calls, c.vaddr < 2 ^ 32) : Holds (runCalls S.vspace calls m) S := by
  induction calls with
  | nil => exact h
  | cons c calls ih =>
    apply MapCall.run_holds (hv c List.mem_cons_self)
    exact ih (fun d hd ↦ hv d (List.mem_cons_of_mem c hd))

/-- The three levels above the tables are different pages: one that was its own
directory would be its own first table. -/
theorem Holds.heads_ne (h : Holds m S) :
    S.vspace ≠ S.pd ∧ S.vspace ≠ S.directory ∧ S.pd ≠ S.directory := by
  have hzero : 0 < pageDirEntries := by decide
  have hmask : S.pd &&& 0xfffff000 = S.pd := by
    have hal := h.sound.pd_aligned
    rw [and_mask h.pd_lt]
    unfold pageSize at *
    omega
  have hload : m.load32 S.directory ≠ S.pd := by
    intro he
    have ht := h.table_eq 0 hzero
    rw [tableOf, Nat.mul_zero, Nat.add_zero, he, hmask] at ht
    exact (h.sound.table_ne 0 hzero).2.1 ht.symm
  have hpd : S.pd ≠ S.directory := by
    intro he
    have hd := h.directory_eq
    rw [he] at hload hd
    exact hload hd
  refine ⟨fun he ↦ ?_, fun he ↦ ?_, hpd⟩
  · have hp := h.pd_eq
    rw [he, h.directory_eq] at hp
    exact hpd hp.symm
  · rw [← he] at hload
    exact hload h.pd_eq

def Space.freed (S : Space) : List ℕ :=
  (List.range pageDirEntries).map S.table ++ [S.pd, S.vspace]

theorem Space.runs_perm : S.runs.Perm ((S.directory :: S.freed).map pageRun) := by
  have htables : (List.range pageDirEntries).map (fun i ↦ pageRun (S.table i)) =
      ((List.range pageDirEntries).map S.table).map pageRun := by
    rw [List.map_map, Function.comp_def]
  rw [Space.runs, Space.freed, htables, List.map_cons, List.map_append]
  generalize ((List.range pageDirEntries).map S.table).map pageRun = tables
  refine (List.Perm.cons _ (List.Perm.swap _ _ _)).trans ((List.Perm.swap _ _ _).trans ?_)
  refine List.Perm.cons _ ((List.Perm.swap _ _ _).trans ?_)
  have hcomm : ([pageRun S.pd, pageRun S.vspace] ++ tables).Perm
      (tables ++ [pageRun S.pd, pageRun S.vspace]) := List.perm_append_comm
  exact hcomm

theorem Space.runs_length : S.runs.length = 1027 := by
  simp [Space.runs, pageDirEntries]

theorem Holds.addresses_aligned (h : Holds m S) :
    ∀ a ∈ S.directory :: S.freed, a % pageSize = 0 := by
  simp only [Space.freed, List.mem_cons, List.mem_append, List.mem_map, List.mem_range,
    List.not_mem_nil, or_false]
  rintro a (rfl | ⟨i, hi, rfl⟩ | rfl | rfl)
  · exact h.sound.directory_aligned
  · exact h.sound.table_aligned i hi
  · exact h.sound.pd_aligned
  · exact h.sound.vspace_aligned

theorem Holds.addresses_nodup (h : Holds m S) : (S.directory :: S.freed).Nodup := by
  obtain ⟨hvp, hvd, hpd⟩ := h.heads_ne
  have htables : ((List.range pageDirEntries).map S.table).Nodup :=
    List.Nodup.map_on (fun i hi j hj ↦ h.sound.table_inj i (List.mem_range.mp hi) j
      (List.mem_range.mp hj)) List.nodup_range
  have hne := fun i hi ↦ h.sound.table_ne i (List.mem_range.mp hi)
  refine List.nodup_cons.mpr ⟨?_, List.nodup_append.mpr ⟨htables, ?_, ?_⟩⟩
  · simp only [Space.freed, List.mem_append, List.mem_map, List.mem_cons, List.not_mem_nil,
      or_false]
    rintro (⟨i, hi, he⟩ | he | he)
    · exact (hne i hi).2.2 he
    · exact hpd he.symm
    · exact hvd he.symm
  · simpa using hvp.symm
  · simp only [List.mem_map, List.mem_cons, List.not_mem_nil, or_false]
    rintro a ⟨i, hi, rfl⟩ b (rfl | rfl)
    · exact (hne i hi).2.1
    · exact (hne i hi).1

end Addresses

section Create

variable {whole : Bool} {h : KHeap whole}

theorem onMem_took (f : ByteMemory → ByteMemory) (k : ℕ) :
    Triple (TookMany h k) (onMem f) (fun _ ↦ TookMany h k) :=
  .modify (fun _ hs ↦ hs)

theorem newTables_took (directory flags : ℕ) : ∀ n k i,
    Triple (TookMany h k) (newTables directory flags n i) (fun _ ↦ TookMany h (k + n)) := by
  intro n
  induction n with
  | zero => exact fun _ _ ↦ .pure (fun _ hs ↦ hs)
  | succ n ih =>
    intro k i
    have hk : k + (n + 1) = k + 1 + n := by omega
    rw [hk]
    refine (kzallocUnchecked_took blocksOf_table k).bind (fun table ↦ ?_)
    exact (onMem_took _ _).bind (fun _ ↦ ih (k + 1) (i + 1))

theorem createVirtualAddressSpace_took (flags : ℕ) :
    Triple (TookMany h 0) (createVirtualAddressSpace flags) (fun _ ↦ TookMany h 1027) := by
  have hpd : Triple (TookMany h 1) (newPageDirectory flags) (fun _ ↦ TookMany h 1027) := by
    refine (kzallocUnchecked_took (by decide) 1).bind (fun directory ↦ ?_)
    refine (newTables_took directory flags pageDirEntries 2 0).bind (fun _ ↦ ?_)
    refine (kzallocUnchecked_took (by decide) 1026).bind (fun pd ↦ ?_)
    exact (onMem_took _ _).bind (fun _ ↦ .pure (fun _ hs ↦ hs))
  refine (kzallocUnchecked_took (by decide) 0).bind (fun vspace ↦ hpd.bind (fun pd ↦ ?_))
  exact (onMem_took _ _).bind (fun _ ↦ .pure (fun _ hs ↦ hs))

end Create

section Destroy

variable {h : KHeap false} {m : ByteMemory} {S : Space}

theorem freeTables_heap (hm : Holds m S) : ∀ n k (h : KHeap false), k + n ≤ pageDirEntries →
    freeTables S.vspace n k ⟨h, m⟩ = .ok ((), ⟨freeAll ((List.range' k n).map S.table) h, m⟩) := by
  intro n
  induction n with
  | zero => exact fun _ _ _ ↦ rfl
  | succ n ih =>
    intro k h hk
    have haddr : tableOf m (m.load32 (m.load32 S.vspace)) k = S.table k := by
      rw [hm.pd_eq, hm.directory_eq, hm.table_eq k (by omega)]
    have hfree : kfree (S.table k) (⟨h, m⟩ : Arena (KHeap false)) =
        .ok ((), ⟨KHeap.kfree (S.table k) h, m⟩) := rfl
    rw [freeTables, bind_run_ok (gets_run _ _), haddr, bind_run_ok hfree, ih _ _ (by omega)]
    rw [List.range'_succ, List.map_cons, freeAll_cons]

theorem destroyVirtualAddressSpace_heap (hm : Holds m S) (h : KHeap false) :
    destroyVirtualAddressSpace S.vspace ⟨h, m⟩ = .ok ((), ⟨freeAll S.freed h, m⟩) := by
  have hrun := freeTables_heap hm pageDirEntries 0 h (Nat.zero_add _).le
  rw [Space.freed, freeAll_append, List.range_eq_range']
  generalize freeAll ((List.range' 0 pageDirEntries).map S.table) h = k at hrun ⊢
  rw [destroyVirtualAddressSpace, bind_run_ok hrun, bind_run_ok (gets_run _ _), hm.pd_eq]
  rfl

end Destroy

section Counted

theorem perm_blockIndex {as is : List ℕ}
    (h : (as.map pageRun).Perm ((is.map blockAt).map KHeap.pagesOf)) :
    is.Perm (as.map blockIndex) := by
  have hpages : KHeap.pagesOf = fun r ↦ ⟨pageOf kernelHeapBase + r.first, r.size⟩ := rfl
  have hindex : blockIndex = fun p ↦ pageOf p - pageOf kernelHeapBase := rfl
  rw [hpages] at h
  rw [hindex]
  generalize pageOf kernelHeapBase = b at h ⊢
  have hmap := h.symm.map (fun r ↦ r.first - b)
  rw [List.map_map, List.map_map, List.map_map] at hmap
  simpa [Function.comp_def, blockAt, pageRun] using hmap

variable {s s' : Arena (KHeap false)} {flags p : ℕ} {S : Space} {is : List ℕ}

theorem SpaceMade.runs_took (hS : SpaceMade s s' flags S) (ht : Took s.heap s'.heap is)
    (hlen : is.length = 1027) : S.runs.Perm ((is.map blockAt).map KHeap.pagesOf) := by
  have hnodup : S.runs.Nodup := by
    refine Space.runs_perm.nodup_iff.mpr (List.Nodup.map_on ?_ hS.holds.addresses_nodup)
    intro a ha b hb he
    exact pageOf_inj (hS.holds.addresses_aligned a ha) (hS.holds.addresses_aligned b hb)
      (congrArg Run.first he)
  have hsub : S.runs ⊆ (is.map blockAt).map KHeap.pagesOf := by
    intro r hr
    have hlive := hS.runs_live r hr
    rw [ht.live, List.mem_append] at hlive
    refine hlive.resolve_right (fun hold ↦ ?_)
    obtain ⟨a, -, rfl⟩ := List.mem_map.mp (Space.runs_perm.mem_iff.mp hr)
    have hfirst : pageOf a ∈ pageRun a := mem_pageRun.mpr rfl
    exact hS.runs_fresh _ hr _ hold _ hfirst hfirst
  refine (List.subperm_of_subset hnodup hsub).perm_of_length_le ?_
  rw [List.length_map, List.length_map, hlen, Space.runs_length]

theorem SpaceMade.took_perm (hS : SpaceMade s s' flags S) (ht : Took s.heap s'.heap is)
    (hlen : is.length = 1027) : is.Perm ((S.directory :: S.freed).map blockIndex) :=
  perm_blockIndex (Space.runs_perm.symm.trans (hS.runs_took ht hlen))

theorem SpaceMade.blockAddress_index (hS : SpaceMade s s' flags S)
    (ht : Took s.heap s'.heap is) (hlen : is.length = 1027) {a : ℕ}
    (ha : a ∈ S.directory :: S.freed) : blockAddress (blockIndex a) = a := by
  have hruns := Space.runs_perm.symm.trans (hS.runs_took ht hlen)
  obtain ⟨r, hr, he⟩ := List.mem_map.mp (hruns.mem_iff.mp (List.mem_map_of_mem ha))
  obtain ⟨i, -, rfl⟩ := List.mem_map.mp hr
  have hpage : pageOf (blockAddress i) = pageOf a := by
    rw [blockAddress, KHeap.pageOf_block]
    exact congrArg Run.first he
  have hal : blockAddress i % pageSize = 0 := by
    unfold blockAddress kernelHeapBase kernelHbSize pageSize
    omega
  obtain rfl := pageOf_inj hal (hS.holds.addresses_aligned a ha) hpage
  rw [blockIndex_address]

end Counted

/-- What was handed out between `h` and `h₁` has come back in `h₂`, each run once,
and nothing else has: the table is as it was. -/
structure Restored (h h₁ h₂ : KHeap false) : Prop where
  freed : ∃ taken given : List Run, h₁.log = taken.map .took ++ h.log ∧
    h₂.log = given.map (fun r ↦ .gave (some r)) ++ h₁.log ∧ taken.Perm given
  table : ∀ i < kheapEntryCount, h₂.heap.entryTable.entries i = h.heap.entryTable.entries i

/-- What was handed out between `h` and `h₁` has come back in `h₂`, each run once,
except for block `d`: of the table its entry alone is not as it was. -/
structure LeaksBlock (h h₁ h₂ : KHeap false) (d : ℕ) : Prop where
  freed : ∃ taken given : List Run, h₁.log = taken.map .took ++ h.log ∧
    h₂.log = given.map (fun r ↦ .gave (some r)) ++ h₁.log ∧ taken.Perm (blockAt d :: given)
  block_lt : d < kheapEntryCount
  was_free : h.heap.entryTable.entries d = heapBlockEntryFree
  taken : h₂.heap.entryTable.entries d ≠ heapBlockEntryFree
  others : ∀ j ≠ d, h₂.heap.entryTable.entries j = h.heap.entryTable.entries j

theorem LeaksBlock.not_restored {h h₁ h₂ : KHeap false} {d : ℕ} (hl : LeaksBlock h h₁ h₂ d) :
    ¬ Restored h h₁ h₂ :=
  fun hr ↦ hl.taken ((hr.table d hl.block_lt).trans hl.was_free)

section Leak

variable {s s' : Arena (KHeap false)} {flags p : ℕ} {calls : List MapCall}

theorem SpaceMade.leaks {S : Space} {is : List ℕ} (hS : SpaceMade s s' flags S)
    (ht : Took s.heap s'.heap is) (hlen : is.length = 1027) :
    LeaksBlock s.heap s'.heap (freeAll S.freed s'.heap) (blockIndex S.directory) := by
  have hperm := hS.took_perm ht hlen
  have haddr : ((S.directory :: S.freed).map blockIndex).map blockAddress =
      S.directory :: S.freed := by
    rw [List.map_map]
    exact (List.map_congr_left (fun a ha ↦ hS.blockAddress_index ht hlen ha)).trans (List.map_id' _)
  have hnodup : ((S.directory :: S.freed).map blockIndex).Nodup := by
    apply List.Nodup.of_map blockAddress
    rw [haddr]
    exact hS.holds.addresses_nodup
  rw [List.map_cons] at haddr hperm hnodup
  obtain ⟨hnew, hnodup⟩ := List.nodup_cons.mp hnodup
  have hblocks : ∀ i ∈ blockIndex S.directory :: S.freed.map blockIndex,
      blockAt i ∈ s'.heap.blocks := fun i hi ↦ ht.mem_blocks (hperm.mem_iff.mpr hi)
  have hd := hblocks _ List.mem_cons_self
  have g := freeAll_gave (S.freed.map blockIndex) s'.heap hnodup
    (fun i hi ↦ hblocks i (List.mem_cons_of_mem _ hi))
  rw [(List.cons.inj haddr).2] at g
  rw [← List.mem_reverse] at hnew
  refine ⟨⟨_, _, ht.log, g.log, ?_⟩, block_lt hd, ?_, ?_, fun j hj ↦ ?_⟩
  · refine (hperm.map blockAt).trans (List.Perm.cons _ ?_)
    exact (List.reverse_perm _).symm.map blockAt
  · exact ht.free _ (hperm.mem_iff.mpr List.mem_cons_self)
  · rw [g.entries _ hnew]
    exact s'.heap.layout.taken hd (mem_blockAt.mpr rfl)
  · by_cases hjs : j ∈ (S.freed.map blockIndex).reverse
    · have hj' : j ∈ is := hperm.mem_iff.mpr (List.mem_cons_of_mem _ (List.mem_reverse.mp hjs))
      rw [g.cleared j hjs, ht.free j hj']
    · rw [g.entries j hjs, ht.entries j]
      intro hji
      rcases List.mem_cons.mp (hperm.mem_iff.mp hji) with he | hmem
      · exact hj he
      · exact hjs (List.mem_reverse.mpr hmem)

/-- Behind any calls of `paging_map_range` the destruction of a space frees its
page tables, its `struct page_directory` and itself, once each, and leaves the
array of directory entries. -/
theorem destroyVirtualAddressSpace_leaks (hfl : flags < 2 ^ 8)
    (h : createVirtualAddressSpace flags s = .ok (p, s')) (hv : ∀ c ∈ calls, c.vaddr < 2 ^ 32) :
    ∃ S b, S.vspace = p ∧ Holds s'.mem S ∧
      destroyVirtualAddressSpace p { s' with mem := runCalls p calls s'.mem } = .ok ((), b) ∧
      LeaksBlock s.heap s'.heap b.heap (blockIndex S.directory) := by
  obtain ⟨S, rfl, hS⟩ := createVirtualAddressSpace_made hfl h
  have htook : TookMany s.heap 0 s := ⟨[], rfl, .refl s.heap⟩
  obtain ⟨is, hlen, ht⟩ := createVirtualAddressSpace_took flags s htook _ _ h
  have hrun := destroyVirtualAddressSpace_heap (runCalls_holds hS.holds hv) s'.heap
  have hleaks := hS.leaks ht hlen
  generalize freeAll S.freed s'.heap = k at hrun hleaks
  exact ⟨S, _, rfl, hS.holds, hrun, hleaks⟩

/-- No space gives back all that its creation took. -/
theorem destroyed_space_never_restored (hfl : flags < 2 ^ 8)
    (h : createVirtualAddressSpace flags s = .ok (p, s')) (hv : ∀ c ∈ calls, c.vaddr < 2 ^ 32) :
    ∃ b, destroyVirtualAddressSpace p { s' with mem := runCalls p calls s'.mem } = .ok ((), b) ∧
      ¬ Restored s.heap s'.heap b.heap := by
  obtain ⟨S, b, -, -, hrun, hl⟩ := destroyVirtualAddressSpace_leaks hfl h hv
  exact ⟨b, hrun, hl.not_restored⟩

end Leak

theorem fresh_space : ∃ p s',
    createVirtualAddressSpace (pagePresent ||| pageUserAccess) (freshArena false) = .ok (p, s') := by
  obtain ⟨p, s', h, -⟩ := createVirtualAddressSpace_total (pagePresent ||| pageUserAccess) 0
    (freshArena false) (freshArena_room false (by decide))
  exact ⟨p, s', h⟩

theorem destroyed_space_never_restored_fresh : ∃ p s',
    createVirtualAddressSpace (pagePresent ||| pageUserAccess) (freshArena false) = .ok (p, s') ∧
      ∃ b, destroyVirtualAddressSpace p
          { s' with mem := runCalls p [⟨0x40000000, 0x1000, 0x3000, 7⟩] s'.mem } = .ok ((), b) ∧
        ¬ Restored (freshArena false).heap s'.heap b.heap := by
  obtain ⟨p, s', h⟩ := fresh_space
  exact ⟨p, s', h, destroyed_space_never_restored (by decide) h (by simp)⟩

theorem fresh_space_leaks : ∃ p s' b,
    createVirtualAddressSpace (pagePresent ||| pageUserAccess) (freshArena false) = .ok (p, s') ∧
      destroyVirtualAddressSpace p s' = .ok ((), b) ∧
      ¬ Restored (freshArena false).heap s'.heap b.heap := by
  obtain ⟨p, s', h⟩ := fresh_space
  have hv : ∀ c ∈ ([] : List MapCall), c.vaddr < 2 ^ 32 := fun _ hc ↦ (List.not_mem_nil hc).elim
  obtain ⟨S, b, -, -, hrun, hl⟩ := destroyVirtualAddressSpace_leaks (by decide) h hv
  exact ⟨p, s', b, h, hrun, hl.not_restored⟩

end GammaOS.Paging
