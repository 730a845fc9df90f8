import GammaOS.Foundation.ByteMemory
import GammaOS.Foundation.Program
import GammaOS.Memory.HeapLayout

namespace GammaOS.Memory

open Foundation

def pageSize : ℕ := 4096

def pageOf (a : ℕ) : ℕ := a / pageSize

/-- What stops the kernel: an access through a null pointer, to an object that
has been freed or outside an array, a division by zero, `kpanic`, or a loop
that does not end. -/
inductive Fault
  | nullDeref
  | dangling
  | outOfBounds
  | divideError
  | panic
  | loop
deriving DecidableEq, Repr

/-- A kernel heap. `live` is a ghost: the runs of pages handed out and not given back. -/
class Allocator (σ : Type) where
  kzalloc : ℕ → σ → ℕ × σ
  kfree : ℕ → σ → σ
  live : σ → List Run

class LawfulAllocator (σ : Type) [Allocator σ] : Prop where
  separate : ∀ h : σ, Separate (Allocator.live h)
  positive : ∀ h : σ, ∀ r ∈ Allocator.live h, 0 < r.first
  live_null : ∀ (h : σ) (n : ℕ), (Allocator.kzalloc n h).1 = 0 →
    Allocator.live (Allocator.kzalloc n h).2 = Allocator.live h
  live_granted : ∀ (h : σ) (n : ℕ), (Allocator.kzalloc n h).1 ≠ 0 →
    Allocator.live (Allocator.kzalloc n h).2 =
      ⟨pageOf (Allocator.kzalloc n h).1, blocksOf (u32 n)⟩ :: Allocator.live h
  granted : ∀ (h : σ) (n : ℕ), (Allocator.kzalloc n h).1 ≠ 0 →
    0 < u32 n ∧ (Allocator.kzalloc n h).1 % pageSize = 0 ∧
      (Allocator.kzalloc n h).1 + pageSize * blocksOf (u32 n) ≤ 2 ^ 32
  live_kfree : ∀ (h : σ) (p : ℕ),
    Allocator.live (Allocator.kfree p h) = release (pageOf (u32 p)) (Allocator.live h)

/-- An allocator that says when it has room: requests for `n` blocks in all succeed. -/
class RoomyAllocator (σ : Type) [Allocator σ] where
  Room : σ → ℕ → Prop
  room_kzalloc : ∀ (h : σ) (n k : ℕ), 0 < u32 n → Room h (blocksOf (u32 n) + k) →
    (Allocator.kzalloc n h).1 ≠ 0 ∧ Room (Allocator.kzalloc n h).2 k
  room_null : ∀ (h : σ) (n k : ℕ), (Allocator.kzalloc n h).1 = 0 → Room h k →
    Room (Allocator.kzalloc n h).2 k
  room_kfree : ∀ (h : σ) (p k : ℕ), Room h k → Room (Allocator.kfree p h) k
  room_mono : ∀ (h : σ) (k l : ℕ), k ≤ l → Room h l → Room h k

structure Arena (σ : Type) where
  heap : σ
  mem : ByteMemory

abbrev ArenaM (σ : Type) := Program Fault (Arena σ)

variable {σ : Type} [Allocator σ]

def kzalloc (n : ℕ) : ArenaM σ ℕ := fun s ↦
  let p := (Allocator.kzalloc n s.heap).1
  .ok (p, ⟨(Allocator.kzalloc n s.heap).2, if p = 0 then s.mem else s.mem.fill p (u32 n) 0⟩)

/-- `kzalloc` without the zeros. -/
def kmalloc (n : ℕ) : ArenaM σ ℕ := fun s ↦
  .ok ((Allocator.kzalloc n s.heap).1, { s with heap := (Allocator.kzalloc n s.heap).2 })

def kfree (p : ℕ) : ArenaM σ Unit :=
  Program.modifyState (fun s ↦ { s with heap := Allocator.kfree p s.heap })

/-- A `kzalloc` whose result the caller uses without a check: a failure
becomes the fault of its first use. -/
def kzallocUnchecked (n : ℕ) : ArenaM σ ℕ := do
  let p ← kzalloc n
  Program.require (p ≠ 0) Fault.nullDeref
  pure p

def Arena.live (s : Arena σ) : List Run := Allocator.live s.heap

structure Granted (s : Arena σ) (n p : ℕ) (s' : Arena σ) : Prop where
  pos : 0 < u32 n
  ne_zero : p ≠ 0
  aligned : p % pageSize = 0
  inside : p + pageSize * blocksOf (u32 n) ≤ 2 ^ 32
  live_eq : s'.live = ⟨pageOf p, blocksOf (u32 n)⟩ :: s.live
  apart : ∀ r ∈ s.live, (⟨pageOf p, blocksOf (u32 n)⟩ : Run).Apart r
  zeroed : ∀ i, p ≤ i → i < p + u32 n → s'.mem i = 0
  outside : ∀ i, i < p ∨ p + u32 n ≤ i → s'.mem i = s.mem i

theorem lt_blocksOf (n : ℕ) : n ≤ pageSize * blocksOf n := by
  unfold pageSize blocksOf kernelHbSize
  omega

theorem blocksOf_one {n : ℕ} (h : 0 < n) (hn : n ≤ pageSize) : blocksOf (u32 n) = 1 := by
  unfold pageSize at hn
  rw [u32_of_lt (by omega)]
  unfold blocksOf kernelHbSize
  omega

def Off (r : Run) (p : ℕ) : Prop := pageOf (u32 p) ∉ r

structure Kept (r : Run) (s₀ s : Arena σ) : Prop where
  live : r ∈ s.live
  bytes : ∀ i, pageOf i ∈ r → s.mem i = s₀.mem i

theorem Kept.refl {r : Run} {s : Arena σ} (h : r ∈ s.live) : Kept r s s := ⟨h, fun _ _ ↦ rfl⟩

def Clear (r : Run) (p n : ℕ) : Prop := ∀ i, pageOf i ∈ r → i < p ∨ p + n ≤ i

theorem Clear.mono {r : Run} {p n k : ℕ} (h : Clear r p n) (hk : k ≤ n) : Clear r p k :=
  fun i hi ↦ (h i hi).imp_right (fun hle ↦ by omega)

theorem Kept.write {r : Run} {s₀ s : Arena σ} {p : ℕ} {bytes : List UInt8} (h : Kept r s₀ s)
    (hc : Clear r p bytes.length) : Kept r s₀ { s with mem := s.mem.writeBytes p bytes } :=
  ⟨h.live, fun i hi ↦ (ByteMemory.writeBytes_outside (hc i hi)).trans (h.bytes i hi)⟩

theorem kzallocUnchecked_eq_ok {s s' : Arena σ} {n p : ℕ} :
    kzallocUnchecked n s = .ok (p, s') ↔ kzalloc n s = .ok (p, s') ∧ p ≠ 0 := by
  unfold kzallocUnchecked
  constructor
  · intro h
    obtain ⟨a, t, h₁, h₂⟩ := Program.bind_eq_ok.mp h
    obtain ⟨_, u, h₃, h₄⟩ := Program.bind_eq_ok.mp h₂
    obtain ⟨hne, rfl⟩ := Program.require_eq_ok.mp h₃
    cases h₄
    exact ⟨h₁, hne⟩
  · rintro ⟨h, hne⟩
    rw [Program.bind_run_ok h, Program.bind_run_ok (Program.require_run hne)]
    rfl

theorem Granted.page_mem {s s' : Arena σ} {n p i : ℕ} (g : Granted s n p s') (h₁ : p ≤ i)
    (h₂ : i < p + u32 n) : pageOf i ∈ (⟨pageOf p, blocksOf (u32 n)⟩ : Run) := by
  have hal := g.aligned
  have hle := lt_blocksOf (u32 n)
  rw [Run.mem_mk]
  unfold pageOf
  unfold pageSize at hal hle ⊢
  omega

theorem Granted.kept {s₀ s s' : Arena σ} {n p : ℕ} {r : Run} (g : Granted s n p s')
    (hk : Kept r s₀ s) : Kept r s₀ s' ∧ Off r p := by
  refine ⟨⟨?_, fun i hi ↦ ?_⟩, ?_⟩
  · rw [g.live_eq]
    exact List.mem_cons_of_mem _ hk.live
  · rw [g.outside, hk.bytes i hi]
    by_contra hc
    exact g.apart r hk.live _ (g.page_mem (by omega) (by omega)) hi
  · have hpos := g.pos
    have hin := g.inside
    have hle := lt_blocksOf (u32 n)
    rw [Off, u32_of_lt (by omega)]
    refine g.apart r hk.live _ (Run.first_mem ?_)
    unfold pageSize at hle
    show 0 < blocksOf (u32 n)
    omega

theorem Granted.clear {s s' : Arena σ} {n p : ℕ} {r : Run} (g : Granted s n p s')
    (hr : r ∈ s.live) : Clear r p (pageSize * blocksOf (u32 n)) := by
  intro i hi
  by_contra hc
  refine g.apart r hr _ ?_ hi
  have hal := g.aligned
  rw [Run.mem_mk]
  unfold pageOf
  unfold pageSize at hal hc ⊢
  omega

/-- What a heap can still grant, measured by requests for one block. -/
structure BlockRoom (R : ℕ → Arena σ → Prop) : Prop where
  grant : ∀ {n : ℕ}, blocksOf (u32 n) = 1 → ∀ k,
    Program.Total (R (k + 1)) (kzalloc n) (fun p s ↦ p ≠ 0 ∧ R k s)
  mem : ∀ {k : ℕ} {s : Arena σ} (m : ByteMemory), R k s → R k { s with mem := m }

theorem BlockRoom.kzallocUnchecked {R : ℕ → Arena σ → Prop} (hR : BlockRoom R) {n : ℕ}
    (hn : blocksOf (u32 n) = 1) (k : ℕ) :
    Program.Total (R (k + 1)) (kzallocUnchecked n) (fun p s ↦ p ≠ 0 ∧ R k s) :=
  (hR.grant hn k).bind (fun p ↦
    (Program.Total.require (Q := fun _ s ↦ p ≠ 0 ∧ R k s) (fun _ h ↦ ⟨h.1, h⟩)).bind
      (fun _ ↦ .pure (fun _ h ↦ h)))

section Lawful

variable [LawfulAllocator σ]

theorem kzalloc_null {s s' : Arena σ} {n : ℕ} (h : kzalloc n s = .ok (0, s')) :
    s'.live = s.live ∧ s'.mem = s.mem := by
  simp only [kzalloc, Except.ok.injEq, Prod.mk.injEq] at h
  obtain ⟨hp, rfl⟩ := h
  exact ⟨LawfulAllocator.live_null _ _ hp, if_pos hp⟩

theorem kzalloc_granted {s s' : Arena σ} {n p : ℕ} (h : kzalloc n s = .ok (p, s')) (hp : p ≠ 0) :
    Granted s n p s' := by
  simp only [kzalloc, Except.ok.injEq, Prod.mk.injEq] at h
  obtain ⟨rfl, rfl⟩ := h
  obtain ⟨hpos, hal, hin⟩ := LawfulAllocator.granted _ _ hp
  have hlive := LawfulAllocator.live_granted _ _ hp
  have hsep := LawfulAllocator.separate (Allocator.kzalloc n s.heap).2
  rw [hlive] at hsep
  refine ⟨hpos, hp, hal, hin, hlive, (List.pairwise_cons.mp hsep).1, fun i h₁ h₂ ↦ ?_,
    fun i hi ↦ ?_⟩
  · simp only [if_neg hp]
    exact if_pos ⟨h₁, h₂⟩
  · simp only [if_neg hp]
    exact ByteMemory.fill_outside hi

theorem kzalloc_none {n : ℕ} (hn : u32 n = 0) (s : Arena σ) : ∃ s', kzalloc n s = .ok (0, s') := by
  have hp : (Allocator.kzalloc n s.heap).1 = 0 := by
    by_contra hne
    have := (LawfulAllocator.granted s.heap n hne).1
    omega
  exact ⟨_, by simp only [kzalloc, hp]; rfl⟩

theorem off_zero {s : Arena σ} {r : Run} (h : r ∈ s.live) : Off r 0 := by
  have hpos := LawfulAllocator.positive _ _ h
  intro hm
  have := (Run.mem_iff.mp hm).1
  simp [pageOf, u32] at this
  omega

theorem kzalloc_kept {s₀ : Arena σ} {r : Run} (n : ℕ) :
    Program.Triple (Kept r s₀) (kzalloc n) (fun p s ↦ Kept r s₀ s ∧ Off r p) := by
  intro s hk p s' h
  by_cases hp : p = 0
  · subst hp
    obtain ⟨hl, hm⟩ := kzalloc_null h
    refine ⟨⟨hl ▸ hk.live, fun i hi ↦ ?_⟩, off_zero hk.live⟩
    rw [hm, hk.bytes i hi]
  · exact (kzalloc_granted h hp).kept hk

theorem kzallocUnchecked_kept {s₀ : Arena σ} {r : Run} (n : ℕ) :
    Program.Triple (Kept r s₀) (kzallocUnchecked n) (fun p s ↦ Kept r s₀ s ∧ Off r p) := by
  intro s hk p s' h
  exact kzalloc_kept n s hk p s' (kzallocUnchecked_eq_ok.mp h).1

theorem kzalloc_clear {s₀ : Arena σ} {r : Run} (n : ℕ) :
    Program.Triple (Kept r s₀) (kzalloc n) (fun p s ↦ Kept r s₀ s ∧ Off r p ∧
      (p ≠ 0 → Clear r p (pageSize * blocksOf (u32 n)))) := by
  intro s hk p s' h
  obtain ⟨hk', ho⟩ := kzalloc_kept n s hk p s' h
  exact ⟨hk', ho, fun hp ↦ (kzalloc_granted h hp).clear hk.live⟩

theorem live_kfree {s s' : Arena σ} {p : ℕ} (h : kfree p s = .ok ((), s')) :
    s'.live = release (pageOf (u32 p)) s.live ∧ s'.mem = s.mem := by
  cases h
  exact ⟨LawfulAllocator.live_kfree _ _, rfl⟩

theorem kfree_kept {s₀ : Arena σ} {r : Run} {p : ℕ} (hp : Off r p) :
    Program.Triple (Kept r s₀) (kfree p) (fun _ s ↦ Kept r s₀ s) := by
  intro s hk _ s' h
  obtain ⟨hl, hm⟩ := live_kfree h
  refine ⟨?_, fun i hi ↦ ?_⟩
  · rw [hl]
    exact mem_release.mpr ⟨hk.live, hp⟩
  · rw [hm, hk.bytes i hi]

end Lawful

section Roomy

variable [RoomyAllocator σ]

def Arena.HasRoom (k : ℕ) (s : Arena σ) : Prop := RoomyAllocator.Room s.heap k

theorem kzalloc_total {n : ℕ} (hn : 0 < u32 n) (k : ℕ) :
    Program.Total (Arena.HasRoom (σ := σ) (blocksOf (u32 n) + k)) (kzalloc n)
      (fun p s ↦ p ≠ 0 ∧ s.HasRoom k) := by
  intro s hs
  obtain ⟨hp, hr⟩ := RoomyAllocator.room_kzalloc s.heap n k hn hs
  exact ⟨_, _, rfl, hp, hr⟩

theorem kzallocNone_total [LawfulAllocator σ] {n : ℕ} (hn : u32 n = 0) (k : ℕ) :
    Program.Total (Arena.HasRoom (σ := σ) k) (kzalloc n) (fun p s ↦ p = 0 ∧ s.HasRoom k) := by
  intro s hs
  obtain ⟨s', h⟩ := kzalloc_none hn s
  have hp := congrArg Prod.fst (Except.ok.inj h)
  exact ⟨_, _, rfl, hp, RoomyAllocator.room_null s.heap n k hp hs⟩

theorem kzallocBlocks_total {n j : ℕ} (hn : blocksOf (u32 n) = j) (hj : 0 < j) (k : ℕ) :
    Program.Total (Arena.HasRoom (σ := σ) (k + j)) (kzalloc n) (fun p s ↦ p ≠ 0 ∧ s.HasRoom k) := by
  have hpos : 0 < u32 n := by
    by_contra hc
    have hzero : blocksOf 0 = 0 := by decide
    rw [Nat.eq_zero_of_not_pos hc, hzero] at hn
    omega
  have h := kzalloc_total (σ := σ) hpos k
  rwa [hn, Nat.add_comm] at h

theorem kzallocOne_total {n : ℕ} (hn : blocksOf (u32 n) = 1) (k : ℕ) :
    Program.Total (Arena.HasRoom (σ := σ) (k + 1)) (kzalloc n) (fun p s ↦ p ≠ 0 ∧ s.HasRoom k) :=
  kzallocBlocks_total hn Nat.one_pos k

theorem hasRoom_blocks : BlockRoom (Arena.HasRoom (σ := σ)) := ⟨kzallocOne_total, fun _ h ↦ h⟩

theorem kzallocUncheckedOne_total {n : ℕ} (hn : blocksOf (u32 n) = 1) (k : ℕ) :
    Program.Total (Arena.HasRoom (σ := σ) (k + 1)) (kzallocUnchecked n)
      (fun p s ↦ p ≠ 0 ∧ s.HasRoom k) :=
  hasRoom_blocks.kzallocUnchecked hn k

theorem kfree_total (p k : ℕ) :
    Program.Total (Arena.HasRoom (σ := σ) k) (kfree p) (fun _ s ↦ s.HasRoom k) :=
  .modify (fun s h ↦ RoomyAllocator.room_kfree s.heap p k h)

theorem Arena.HasRoom.mono {s : Arena σ} {j k : ℕ} (h : s.HasRoom k) (hj : j ≤ k) : s.HasRoom j :=
  RoomyAllocator.room_mono s.heap j k hj h

end Roomy

end GammaOS.Memory
