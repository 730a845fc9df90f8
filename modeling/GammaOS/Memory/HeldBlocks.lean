import GammaOS.Memory.Blocks
import GammaOS.Memory.KernelHeap

namespace GammaOS.Memory

open Foundation

/-- The blocks of the list are allocated, at different addresses, and apart
from the runs of `rs`, which are allocated too. -/
structure HeldBlocks {σ : Type} [Allocator σ] (s : Arena σ) (rs : List Run)
    (held : List (ℕ × ℕ)) : Prop where
  live : ∀ r ∈ rs, r ∈ s.live
  block : ∀ b ∈ held, Block s b.1 b.2
  off : ∀ b ∈ held, ∀ r ∈ rs, (blockRun b.1 b.2).Apart r
  bases : (held.map Prod.fst).Nodup

section Lawful

variable {σ : Type} [Allocator σ] [LawfulAllocator σ] {s t : Arena σ} {rs : List Run}
  {held held' : List (ℕ × ℕ)} {p q n k : ℕ}

theorem Block.apart_of_ne (h : Block s p n) (h' : Block s q k) (hne : p ≠ q) :
    (blockRun p n).Apart (blockRun q k) := by
  refine (LawfulAllocator.separate s.heap).apart_of_ne h.live h'.live (fun heq ↦ hne ?_)
  have hpage : pageOf p = pageOf q := congrArg Run.first heq
  have hp := h.aligned
  have hq := h'.aligned
  unfold pageOf pageSize at hpage
  unfold pageSize at hp hq
  omega

namespace HeldBlocks

omit [LawfulAllocator σ] in
theorem nil (h : ∀ r ∈ rs, r ∈ s.live) : HeldBlocks s rs [] where
  live := h
  block _ hb := nomatch hb
  off _ hb := nomatch hb
  bases := List.nodup_nil

omit [LawfulAllocator σ] in
theorem perm (h : HeldBlocks s rs held) (hp : held.Perm held') : HeldBlocks s rs held' where
  live := h.live
  block b hb := h.block b (hp.mem_iff.mpr hb)
  off b hb := h.off b (hp.mem_iff.mpr hb)
  bases := (hp.map Prod.fst).nodup_iff.mp h.bases

omit [LawfulAllocator σ] in
theorem congr (h : HeldBlocks s rs held) (hl : t.live = s.live) : HeldBlocks t rs held where
  live r hr := hl ▸ h.live r hr
  block b hb := (h.block b hb).keep (hl ▸ (h.block b hb).live)
  off := h.off
  bases := h.bases

theorem take (h : HeldBlocks s rs held) (hk : kzalloc n s = .ok (p, t)) (hp : p ≠ 0) :
    HeldBlocks t rs ((p, n) :: held) := by
  obtain ⟨hblock, htaken⟩ := kzalloc_taken hk hp
  have hgrows := kzalloc_grows hk
  have hfresh := htaken.fresh _ (List.mem_singleton_self _)
  refine ⟨fun r hr ↦ (hgrows r (h.live r hr)).live, List.forall_mem_cons.mpr
    ⟨hblock, fun b hb ↦ (h.block b hb).keep (hgrows _ (h.block b hb).live).live⟩,
    List.forall_mem_cons.mpr ⟨fun r hr ↦ hfresh r (h.live r hr), h.off⟩,
    List.nodup_cons.mpr ⟨fun hmem ↦ ?_, h.bases⟩⟩
  obtain ⟨b, hb, hbp⟩ := List.mem_map.mp hmem
  have hpage : pageOf (u32 p) ∈ blockRun b.1 b.2 := hbp ▸ (h.block b hb).page_mem
  exact hfresh _ (h.block b hb).live _ hblock.page_mem hpage

theorem refuse (h : HeldBlocks s rs held) (hk : kzalloc n s = .ok (0, t)) :
    HeldBlocks t rs held := h.congr (kzalloc_null hk).1

theorem give (h : HeldBlocks s rs held) (hq : (q, n) ∈ held) (hk : kfree q s = .ok ((), t)) :
    HeldBlocks t rs (held.filter (fun b ↦ decide (b.1 ≠ q))) := by
  have hblock : Block s q n := h.block _ hq
  have hlive : t.live = release (pageOf (u32 q)) s.live := (live_kfree hk).1
  have hsub : (held.filter (fun b ↦ decide (b.1 ≠ q))).Sublist held := List.filter_sublist
  refine ⟨fun r hr ↦ ?_, fun b hb ↦ ?_, fun b hb ↦ h.off b (hsub.subset hb),
    (hsub.map Prod.fst).nodup h.bases⟩
  · rw [hlive]
    exact mem_release.mpr ⟨h.live r hr, hblock.off (h.off _ hq r hr)⟩
  · obtain ⟨hb, hne⟩ := List.mem_filter.mp hb
    have hb' := h.block b hb
    refine hb'.keep ?_
    rw [hlive]
    exact mem_release.mpr ⟨hb'.live,
      hblock.off (hblock.apart_of_ne hb' (of_decide_eq_true hne).symm)⟩

theorem free_null (h : HeldBlocks s rs held) (hk : kfree 0 s = .ok ((), t)) :
    HeldBlocks t rs held := by
  refine h.congr ?_
  rw [(live_kfree hk).1, release, List.filter_eq_self]
  exact fun r hr ↦ decide_eq_true (off_zero hr)

end HeldBlocks

end Lawful

section Heap

variable {whole : Bool} {s : Arena (KHeap whole)} {p n : ℕ}

theorem Block.khRun (h : Block s p n) : ∃ r ∈ s.heap.blocks,
    p = kernelHeapBase + r.first * kernelHbSize ∧ s.heap.heap.blockOf p = r.first ∧
      r.size = blocksOf (u32 n) ∧ r.first + r.size ≤ kheapEntryCount := by
  obtain ⟨r, hr, hrun⟩ := List.mem_map.mp h.live
  have hin := s.heap.layout.inside r hr
  have hpos := s.heap.layout.nonempty r hr
  rw [s.heap.count_eq] at hin
  have hfirst : pageOf kernelHeapBase + r.first = pageOf p := congrArg Run.first hrun
  have hp : p = kernelHeapBase + r.first * kernelHbSize := by
    have hal := h.aligned
    unfold pageOf kernelHeapBase pageSize at hfirst
    unfold pageSize at hal
    unfold kernelHeapBase kernelHbSize
    omega
  refine ⟨r, hr, hp, ?_, congrArg Run.size hrun, hin⟩
  rw [hp]
  exact s.heap.blockOf_block (by omega)

theorem Block.inside_heap (h : Block s p n) : kernelHeapBase ≤ p ∧
    p + pageSize * blocksOf (u32 n) ≤ kernelHeapBase + kernelHeapSize := by
  obtain ⟨r, -, hp, -, hsize, hin⟩ := h.khRun
  rw [hp, ← hsize]
  unfold kheapEntryCount kernelHeapSize at hin
  unfold kernelHeapSize pageSize
  unfold kernelHbSize at *
  omega

theorem Block.marked (h : Block s p n) {i : ℕ} (hi : i < blocksOf (u32 n)) :
    s.heap.heap.entryTable.entries (s.heap.heap.blockOf p + i) &&& heapBlockEntryTaken ≠ 0 := by
  obtain ⟨r, hr, -, hfirst, hsize, -⟩ := h.khRun
  rw [hfirst, s.heap.layout.encoded r hr _ ⟨Nat.le_add_right _ _, by omega⟩]
  exact entryOf_taken _ _

end Heap

end GammaOS.Memory
