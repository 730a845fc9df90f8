import GammaOS.Memory.Blocks
import GammaOS.Memory.KernelHeap

namespace GammaOS.Memory

open Foundation Foundation.Program

/-- Pages that no request is granted from on a heap that is `safe`, and that
stay so until a pointer into them is freed. -/
structure Region (σ : Type) [Allocator σ] where
  pages : ℕ → Prop
  safe : σ → Prop
  kzalloc_safe : ∀ (h : σ) (n : ℕ), safe h → safe (Allocator.kzalloc n h).2
  kfree_safe : ∀ (h : σ) (p : ℕ), safe h → ¬ pages (pageOf (u32 p)) → safe (Allocator.kfree p h)
  apart : ∀ (h : σ) (n : ℕ), safe h → (Allocator.kzalloc n h).1 ≠ 0 →
    ∀ j ∈ blockRun (Allocator.kzalloc n h).1 n, ¬ pages j

variable {σ : Type} [Allocator σ] {s t u : Arena σ} {W W' : ℕ → Prop} {r : Run} {n p : ℕ}

def Fresh (s : Arena σ) (r : Run) : Prop :=
  ∀ R : Region σ, R.safe s.heap → ∀ j ∈ r, ¬ R.pages j

/-- What was protected still is, and only its bytes in `W` have changed. -/
structure Spares (W : ℕ → Prop) (s t : Arena σ) : Prop where
  safe : ∀ R : Region σ, R.safe s.heap → R.safe t.heap
  bytes : ∀ R : Region σ, R.safe s.heap → ∀ i, R.pages (pageOf i) → ¬ W i → t.mem i = s.mem i

theorem Spares.refl (W : ℕ → Prop) (s : Arena σ) : Spares W s s :=
  ⟨fun _ h ↦ h, fun _ _ _ _ _ ↦ rfl⟩

theorem Spares.fresh (h : Spares W s t) (hr : Fresh t r) : Fresh s r :=
  fun R hR ↦ hr R (h.safe R hR)

theorem Spares.mono {V : ℕ → Prop} (h : Spares W s t) (hV : ∀ i, W i → V i) : Spares V s t :=
  ⟨h.safe, fun R hR i hi hw ↦ h.bytes R hR i hi (fun hw' ↦ hw (hV i hw'))⟩

theorem Spares.trans (h : Spares W s t) (h' : Spares W' t u)
    (hW : ∀ i, W' i → W i ∨ ∃ r, Fresh s r ∧ pageOf i ∈ r) : Spares W s u where
  safe R hR := h'.safe R (h.safe R hR)
  bytes R hR i hi hw := by
    rw [h'.bytes R (h.safe R hR) i hi, h.bytes R hR i hi hw]
    intro hw'
    rcases hW i hw' with hw' | ⟨r, hr, hm⟩
    · exact hw hw'
    · exact hr R hR _ hm hi

theorem Spares.store (h : Spares W s t) {m : ByteMemory}
    (hm : ∀ i, m i = t.mem i ∨ W i ∨ ∃ r, Fresh s r ∧ pageOf i ∈ r) : Spares W s ⟨t.heap, m⟩ where
  safe := h.safe
  bytes R hR i hi hw := by
    rcases hm i with he | hw' | ⟨r, hr, hmem⟩
    · exact he.trans (h.bytes R hR i hi hw)
    · exact absurd hw' hw
    · exact absurd hi (hr R hR _ hmem)

theorem Spares.free (h : Spares W s t) (hr : Fresh s r) (hp : pageOf (u32 p) ∈ r) :
    Spares W s ⟨Allocator.kfree p t.heap, t.mem⟩ where
  safe R hR := R.kfree_safe t.heap p (h.safe R hR) (hr R hR _ hp)
  bytes := h.bytes

theorem kzalloc_fresh (h : kzalloc n s = .ok (p, t)) (hp : p ≠ 0) : Fresh s (blockRun p n) := by
  cases h
  exact fun R hR ↦ R.apart s.heap n hR hp

theorem kzalloc_spares (W : ℕ → Prop) [LawfulAllocator σ] (h : kzalloc n s = .ok (p, t)) :
    Spares W s t where
  safe R hR := by
    cases h
    exact R.kzalloc_safe s.heap n hR
  bytes R hR i hi _ := by
    by_cases hp : p = 0
    · subst hp
      rw [(kzalloc_null h).2]
    · have g := kzalloc_granted h hp
      refine g.outside i ?_
      by_contra hc
      exact kzalloc_fresh h hp R hR _ (g.page_mem (by omega) (by omega)) hi

section Lawful

variable [LawfulAllocator σ]

def Region.live (r : Run) : Region σ where
  pages j := j ∈ r
  safe h := r ∈ Allocator.live h
  kzalloc_safe h n hr := by
    by_cases hp : (Allocator.kzalloc n h).1 = 0
    · rwa [LawfulAllocator.live_null h n hp]
    · rw [LawfulAllocator.live_granted h n hp]
      exact List.mem_cons_of_mem _ hr
  kfree_safe h p hr hp := by
    rw [LawfulAllocator.live_kfree]
    exact mem_release.mpr ⟨hr, hp⟩
  apart h n hr hp j hj hj' := by
    have hsep := LawfulAllocator.separate (Allocator.kzalloc n h).2
    rw [LawfulAllocator.live_granted h n hp] at hsep
    exact (List.pairwise_cons.mp hsep).1 r hr j hj hj'

end Lawful

theorem KHeap.kzalloc_not_outside {whole : Bool} {h : KHeap whole}
    (hp : (Allocator.kzalloc n h).1 ≠ 0) {j : ℕ} (hj : j ∈ blockRun (Allocator.kzalloc n h).1 n) :
    ¬ (j < pageOf kernelHeapBase ∨ pageOf (kernelHeapBase + kernelHeapSize) ≤ j) := by
  obtain ⟨hle, hin⟩ := KHeap.kzalloc_inside (s := ⟨h, fun _ ↦ 0⟩) (n := n) rfl hp
  have hal := (LawfulAllocator.granted h n hp).2.1
  generalize (Allocator.kzalloc n h).1 = p at *
  rw [blockRun, Run.mem_mk] at hj
  unfold kernelHeapBase kernelHeapSize at *
  unfold pageOf pageSize at *
  omega

def KHeap.outside (whole : Bool) : Region (KHeap whole) where
  pages j := j < pageOf kernelHeapBase ∨ pageOf (kernelHeapBase + kernelHeapSize) ≤ j
  safe _ := True
  kzalloc_safe _ _ _ := trivial
  kfree_safe _ _ _ _ := trivial
  apart _ _ _ hp _ hj := KHeap.kzalloc_not_outside hp hj

end GammaOS.Memory
