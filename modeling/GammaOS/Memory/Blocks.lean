import GammaOS.Memory.Arena

namespace GammaOS.Memory

open Foundation

variable {σ : Type} [Allocator σ] {s t u : Arena σ} {p n : ℕ} {q r : Run} {rs rs' : List Run}

def blockRun (p n : ℕ) : Run := ⟨pageOf p, blocksOf (u32 n)⟩

structure Block (s : Arena σ) (p n : ℕ) : Prop where
  pos : 0 < u32 n
  aligned : p % pageSize = 0
  inside : p + pageSize * blocksOf (u32 n) ≤ 2 ^ 32
  live : blockRun p n ∈ s.live

theorem Granted.block (g : Granted s n p t) : Block t p n :=
  ⟨g.pos, g.aligned, g.inside, g.live_eq ▸ List.mem_cons_self⟩

theorem Block.keep (h : Block s p n) (hl : blockRun p n ∈ t.live) : Block t p n :=
  ⟨h.pos, h.aligned, h.inside, hl⟩

theorem blocksOf_pos (h : 0 < n) : 0 < blocksOf n := by
  have hle := lt_blocksOf n
  unfold pageSize at hle
  omega

theorem Block.lt (h : Block s p n) : p < 2 ^ 32 := by
  have hpos := blocksOf_pos h.pos
  have hin := h.inside
  unfold pageSize at hin
  omega

theorem Block.page_mem (h : Block s p n) : pageOf (u32 p) ∈ blockRun p n := by
  rw [u32_of_lt h.lt]
  exact Run.first_mem (blocksOf_pos h.pos)

theorem Block.off (h : Block s p n) (hap : (blockRun p n).Apart r) : Off r p :=
  hap _ h.page_mem

theorem Block.byte_mem (h : Block s p n) {i : ℕ} (h₁ : p ≤ i)
    (h₂ : i < p + pageSize * blocksOf (u32 n)) : pageOf i ∈ blockRun p n := by
  have hal := h.aligned
  rw [blockRun, Run.mem_mk]
  unfold pageOf
  unfold pageSize at hal h₂ ⊢
  omega

theorem Block.asked_mem (h : Block s p n) (hn : n < 2 ^ 32) {i : ℕ} (h₁ : p ≤ i)
    (h₂ : i < p + n) : pageOf i ∈ blockRun p n := by
  have hle := lt_blocksOf (u32 n)
  refine h.byte_mem h₁ ?_
  rw [u32_of_lt hn] at hle ⊢
  omega

/-- The runs of the list are live in `t`, and share nothing with what is live in `s`. -/
structure Taken (s t : Arena σ) (rs : List Run) : Prop where
  live : ∀ r ∈ rs, r ∈ t.live
  fresh : ∀ r ∈ rs, ∀ q ∈ s.live, r.Apart q

def Grows (s t : Arena σ) : Prop := ∀ r ∈ s.live, Kept r s t

theorem Grows.refl (s : Arena σ) : Grows s s := fun _ hr ↦ Kept.refl hr

theorem Kept.trans (h : Kept r s t) (h' : Kept r t u) : Kept r s u :=
  ⟨h'.live, fun i hi ↦ (h'.bytes i hi).trans (h.bytes i hi)⟩

theorem Grows.trans (h : Grows s t) (h' : Grows t u) : Grows s u :=
  fun r hr ↦ (h r hr).trans (h' r (h r hr).live)

theorem Taken.append (h : Taken s t rs) (h' : Taken t u rs') (hg : Grows s t)
    (hk : ∀ r ∈ rs, Kept r t u) : Taken s u (rs' ++ rs) where
  live r hr := (List.mem_append.mp hr).elim (h'.live r) (fun hr ↦ (hk r hr).live)
  fresh r hr q hq := (List.mem_append.mp hr).elim (fun hr ↦ h'.fresh r hr q (hg q hq).live)
    (fun hr ↦ h.fresh r hr q hq)

theorem Taken.after (h : Taken t u rs) (hg : Grows s t) : Taken s u rs :=
  ⟨h.live, fun r hr q hq ↦ h.fresh r hr q (hg q hq).live⟩

theorem Taken.mono (h : Taken s t rs) (hl : ∀ r ∈ rs, r ∈ u.live) : Taken s u rs :=
  ⟨hl, h.fresh⟩

theorem Taken.subset (h : Taken s t rs) (hs : rs' ⊆ rs) : Taken s t rs' :=
  ⟨fun r hr ↦ h.live r (hs hr), fun r hr ↦ h.fresh r (hs hr)⟩

theorem Taken.ne {k : ℕ} (h : Taken s t rs) (hr : blockRun p n ∈ rs) (hp : Block t p n)
    (hk : Block s k n) : k ≠ p := by
  rintro rfl
  exact h.fresh _ hr _ hk.live _ hp.page_mem hk.page_mem

section Lawful

variable [LawfulAllocator σ]

theorem Block.ne_zero (h : Block s p n) : p ≠ 0 := by
  rintro rfl
  have hpos : 0 < pageOf 0 := LawfulAllocator.positive _ _ h.live
  exact absurd hpos (by decide)

theorem kzalloc_grows (h : kzalloc n s = .ok (p, t)) : Grows s t :=
  fun _ hr ↦ (kzalloc_kept n s (Kept.refl hr) p t h).1

theorem kzalloc_taken (h : kzalloc n s = .ok (p, t)) (hp : p ≠ 0) :
    Block t p n ∧ Taken s t [blockRun p n] := by
  have g := kzalloc_granted h hp
  refine ⟨g.block, ⟨?_, ?_⟩⟩
  · exact List.forall_mem_singleton.mpr g.block.live
  · exact List.forall_mem_singleton.mpr g.apart

end Lawful

end GammaOS.Memory
