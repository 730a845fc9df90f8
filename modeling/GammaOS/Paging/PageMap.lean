import GammaOS.Memory.KernelHeap
import GammaOS.Paging.NewSpace

namespace GammaOS.Paging

open Foundation Memory

/-- What an address space is for: an entry for each page-aligned address. -/
abbrev PageMap := ℕ → ℕ

structure MapCall where
  vaddr : ℕ
  paddr : ℕ
  endaddr : ℕ
  flags : ℕ

structure MapCall.Valid (c : MapCall) : Prop where
  vaddr_lt : c.vaddr < 2 ^ 32
  paddr_lt : c.paddr < 2 ^ 32
  endaddr_lt : c.endaddr < 2 ^ 32
  flags_lt : c.flags < pageSize

/-- The calls that map their range: the others are refused. -/
structure MapCall.Accepted (c : MapCall) : Prop where
  vaddr_aligned : c.vaddr % pageSize = 0
  paddr_aligned : c.paddr % pageSize = 0
  endaddr_aligned : c.endaddr % pageSize = 0
  ordered : c.paddr ≤ c.endaddr

instance (c : MapCall) : Decidable c.Accepted :=
  decidable_of_iff (c.vaddr % pageSize = 0 ∧ c.paddr % pageSize = 0 ∧ c.endaddr % pageSize = 0 ∧
    c.paddr ≤ c.endaddr)
    ⟨fun ⟨h₁, h₂, h₃, h₄⟩ ↦ ⟨h₁, h₂, h₃, h₄⟩, fun ⟨h₁, h₂, h₃, h₄⟩ ↦ ⟨h₁, h₂, h₃, h₄⟩⟩

/-- The range of a call, counted from its `vaddr` modulo `2 ^ 32`, covers `v`. -/
def MapCall.Covers (c : MapCall) (v : ℕ) : Prop := subU32 v c.vaddr < c.endaddr - c.paddr

instance (c : MapCall) (v : ℕ) : Decidable (c.Covers v) :=
  inferInstanceAs (Decidable (_ < _))

def MapCall.valueAt (c : MapCall) (v : ℕ) : ℕ := (c.paddr + subU32 v c.vaddr) ||| c.flags

def PageMap.mapRange (f : PageMap) (c : MapCall) : PageMap := fun v ↦
  if c.Accepted ∧ c.Covers v then c.valueAt v else f v

/-- The value of the latest accepted call that covers `v`, else `v` itself
with the flags of the space. The latest call is the first of the list. -/
def PageMap.reference (flags : ℕ) : List MapCall → PageMap
  | [] => fun v ↦ v ||| flags
  | c :: calls => (PageMap.reference flags calls).mapRange c

def MapCall.run (vspace : ℕ) (c : MapCall) (m : ByteMemory) : ByteMemory :=
  (pagingMapRange m vspace c.vaddr c.paddr c.endaddr c.flags).2

/-- Runs a list of calls, the last of the list first. -/
def runCalls (vspace : ℕ) : List MapCall → ByteMemory → ByteMemory
  | [], m => m
  | c :: calls, m => c.run vspace (runCalls vspace calls m)

theorem subU32_of_le {a b : ℕ} (h : b ≤ a) (ha : a < 2 ^ 32) : subU32 a b = a - b := by
  unfold subU32 u32
  omega

theorem subU32_of_lt {a b : ℕ} (h : a < b) (hb : b < 2 ^ 32) : subU32 a b = a + 2 ^ 32 - b := by
  unfold subU32 u32
  omega

theorem subU32_self {a : ℕ} (ha : a < 2 ^ 32) : subU32 a a = 0 := by
  rw [subU32_of_le (Nat.le_refl _) ha, Nat.sub_self]

theorem u32_next {a : ℕ} (ha : a < 2 ^ 32) (haa : a % pageSize = 0) :
    (a + pageSize < 2 ^ 32 ∧ u32 (a + pageSize) = a + pageSize) ∨
      (a + pageSize = 2 ^ 32 ∧ u32 (a + pageSize) = 0) := by
  unfold u32 pageSize at *
  omega

/-- Seen from the next page, every other page is one page nearer. -/
theorem subU32_next {v a : ℕ} (hv : v < 2 ^ 32) (ha : a < 2 ^ 32) (hva : v % pageSize = 0)
    (haa : a % pageSize = 0) (hne : v ≠ a) :
    subU32 v (u32 (a + pageSize)) + pageSize = subU32 v a := by
  have hu := u32_next ha haa
  unfold pageSize at *
  rcases Nat.lt_or_gt_of_ne hne with hlt | hgt
  · rw [subU32_of_lt hlt ha]
    rcases hu with ⟨htop, hu⟩ | ⟨htop, hu⟩
    · rw [hu, subU32_of_lt (by omega) htop]
      omega
    · rw [hu, subU32_of_le (by omega) hv]
      omega
  · rw [subU32_of_le (by omega) hv]
    rcases hu with ⟨htop, hu⟩ | ⟨htop, hu⟩
    · rw [hu, subU32_of_le (by omega) hv]
      omega
    · omega

theorem subU32_before {a : ℕ} (ha : a < 2 ^ 32) (haa : a % pageSize = 0) :
    subU32 a (u32 (a + pageSize)) = 2 ^ 32 - pageSize := by
  have hu := u32_next ha haa
  unfold pageSize at *
  rcases hu with ⟨hlt, hu⟩ | ⟨htop, hu⟩
  · rw [hu, subU32_of_lt (by omega) hlt]
    omega
  · rw [hu, subU32_of_le (by omega) ha]
    omega

variable {m : ByteMemory} {S : Space}

theorem mapPages_entries {flags : ℕ} (hfl : flags < pageSize) :
    ∀ n vaddr paddr (m : ByteMemory), Holds m S → vaddr < 2 ^ 32 → vaddr % pageSize = 0 →
      paddr + n * pageSize < 2 ^ 32 →
      Holds (mapPages S.vspace flags n vaddr paddr m) S ∧
        ∀ v < 2 ^ 32, v % pageSize = 0 →
          entries (mapPages S.vspace flags n vaddr paddr m) S v =
            if subU32 v vaddr < n * pageSize then (paddr + subU32 v vaddr) ||| flags
            else entries m S v := by
  intro n
  induction n with
  | zero =>
    intro vaddr paddr m h _ _ _
    exact ⟨h, fun v _ _ ↦ by rw [if_neg (by omega)]; rfl⟩
  | succ n ih =>
    intro vaddr paddr m h hv ha hp
    have hval : paddr ||| flags < 2 ^ 32 := by
      unfold pageSize at hfl
      exact Nat.or_lt_two_pow (by omega) (by omega)
    have hpn : u32 (paddr + pageSize) + n * pageSize < 2 ^ 32 := by
      rw [Nat.add_mul] at hp
      unfold u32
      unfold pageSize at *
      omega
    have hvn : u32 (vaddr + pageSize) % pageSize = 0 := by
      unfold u32
      unfold pageSize at *
      omega
    obtain ⟨hh, he⟩ := ih (u32 (vaddr + pageSize)) (u32 (paddr + pageSize))
      (m.store32 (S.slot vaddr) (paddr ||| flags)) (h.store hv) (u32_lt _) hvn hpn
    rw [mapPages, h.pd_eq, h.map_eq hv ha]
    refine ⟨hh, fun w hw hwa ↦ ?_⟩
    rw [he w hw hwa, h.entries_store hv hw ha hwa hval]
    by_cases hwv : w = vaddr
    · subst hwv
      rw [subU32_before hv ha, subU32_self hv, if_neg, if_pos rfl, if_pos, Nat.add_zero]
      · unfold pageSize
        omega
      · unfold pageSize at *
        omega
    · have hnext := subU32_next hw hv hwa ha hwv
      rw [if_neg hwv]
      rw [← hnext]
      generalize subU32 w (u32 (vaddr + pageSize)) = d
      rw [Nat.add_mul] at hp
      by_cases hd : d < n * pageSize
      · rw [if_pos hd, if_pos (by rw [Nat.add_mul]; omega)]
        rw [u32_of_lt (by omega), Nat.add_assoc, Nat.add_comm d]
      · rw [if_neg hd, if_neg (by rw [Nat.add_mul]; omega)]

theorem MapCall.refused {c : MapCall} (h : ¬ c.Accepted) (vspace : ℕ) (m : ByteMemory) :
    pagingMapRange m vspace c.vaddr c.paddr c.endaddr c.flags =
      (-(errProcessMappingFailed : ℤ), m) := by
  unfold pagingMapRange
  by_cases h₁ : addressPageAligned c.vaddr ∧ addressPageAligned c.paddr ∧
      addressPageAligned c.endaddr
  · rw [if_neg (not_not.mpr h₁), if_pos]
    simp only [addressPageAligned, beq_iff_eq] at h₁
    by_contra hc
    exact h ⟨h₁.1, h₁.2.1, h₁.2.2, by omega⟩
  · rw [if_pos h₁]

theorem MapCall.accepted {c : MapCall} (h : c.Accepted) (vspace : ℕ) (m : ByteMemory) :
    pagingMapRange m vspace c.vaddr c.paddr c.endaddr c.flags =
      ((success : ℤ), mapPages vspace c.flags ((c.endaddr - c.paddr) / pageSize) c.vaddr c.paddr
        m) := by
  unfold pagingMapRange
  rw [if_neg, if_neg (by have := h.ordered; omega)]
  simp [addressPageAligned, h.vaddr_aligned, h.paddr_aligned, h.endaddr_aligned]

/-- One call of `paging_map_range` does to the page tables what its
specification does to the flat map. -/
theorem MapCall.run_entries {c : MapCall} (hc : c.Valid) (h : Holds m S) :
    Holds (c.run S.vspace m) S ∧ ∀ v < 2 ^ 32, v % pageSize = 0 →
      entries (c.run S.vspace m) S v = PageMap.mapRange (entries m S) c v := by
  unfold MapCall.run PageMap.mapRange
  by_cases hac : c.Accepted
  · rw [c.accepted hac]
    have hle : (c.endaddr - c.paddr) / pageSize * pageSize = c.endaddr - c.paddr := by
      have h₁ := hac.paddr_aligned
      have h₂ := hac.endaddr_aligned
      have h₃ := hac.ordered
      unfold pageSize at *
      omega
    have := hac.ordered
    have := hc.endaddr_lt
    obtain ⟨hh, he⟩ := mapPages_entries (S := S) hc.flags_lt ((c.endaddr - c.paddr) / pageSize)
      c.vaddr c.paddr m h hc.vaddr_lt hac.vaddr_aligned (by omega)
    refine ⟨hh, fun v hv hva ↦ ?_⟩
    rw [he v hv hva, hle]
    exact if_congr (by simp only [hac, true_and, MapCall.Covers]) rfl rfl
  · rw [c.refused hac]
    exact ⟨h, fun v _ _ ↦ by rw [if_neg (fun hh ↦ hac hh.1)]⟩

structure MapCall.Maps (c : MapCall) (m : ByteMemory) (S : Space) (v : ℕ) : Prop where
  accepted : c.Accepted
  covers : c.Covers v
  entry : entries m S v = c.valueAt v

theorem MapCall.run_maps {c : MapCall} (hc : c.Valid) (h : Holds m S) {v : ℕ} (hv : v < 2 ^ 32)
    (hva : v % pageSize = 0) :
    entries (c.run S.vspace m) S v = entries m S v ∨ c.Maps (c.run S.vspace m) S v := by
  have he := (c.run_entries hc h).2 v hv hva
  rw [PageMap.mapRange] at he
  split at he
  · rename_i hcov
    exact Or.inr ⟨hcov.1, hcov.2, he⟩
  · exact Or.inl he

theorem runCalls_entries {flags : ℕ} (h : Holds m S)
    (h₀ : ∀ v < 2 ^ 32, v % pageSize = 0 → entries m S v = v ||| flags) (calls : List MapCall)
    (hc : ∀ c ∈ calls, c.Valid) :
    Holds (runCalls S.vspace calls m) S ∧ ∀ v < 2 ^ 32, v % pageSize = 0 →
      entries (runCalls S.vspace calls m) S v = PageMap.reference flags calls v := by
  induction calls with
  | nil => exact ⟨h, h₀⟩
  | cons c calls ih =>
    obtain ⟨hh, he⟩ := ih (fun d hd ↦ hc d (List.mem_cons_of_mem _ hd))
    obtain ⟨hh', he'⟩ := c.run_entries (hc c List.mem_cons_self) hh
    refine ⟨hh', fun v hv hva ↦ ?_⟩
    rw [runCalls, he' v hv hva, PageMap.reference, PageMap.mapRange, PageMap.mapRange, he v hv hva]

theorem MapCall.result (c : MapCall) (vspace : ℕ) (m : ByteMemory) :
    ((pagingMapRange m vspace c.vaddr c.paddr c.endaddr c.flags).1 = success ↔ c.Accepted) ∧
      (¬ c.Accepted → (pagingMapRange m vspace c.vaddr c.paddr c.endaddr c.flags).1 < 0 ∧
        (pagingMapRange m vspace c.vaddr c.paddr c.endaddr c.flags).2 = m) := by
  by_cases hac : c.Accepted
  · rw [c.accepted hac]
    exact ⟨iff_of_true rfl hac, fun h ↦ absurd hac h⟩
  · have hneg : -(errProcessMappingFailed : ℤ) < 0 := by decide
    have hne : -(errProcessMappingFailed : ℤ) ≠ success := by decide
    rw [c.refused hac]
    exact ⟨iff_of_false hne hac, fun _ ↦ ⟨hneg, rfl⟩⟩

/-- An address space is made whenever the heap has room for it. After any calls
of `paging_map_range` its entries are those of the reference map, and a call
fails, and changes nothing, exactly when its arguments are misaligned or out of order. -/
theorem pageMap_agrees {σ : Type} [Allocator σ] [LawfulAllocator σ] [RoomyAllocator σ]
    {flags : ℕ} (hfl : flags < 2 ^ 8) {s : Arena σ} (hroom : s.HasRoom 1027) :
    ∃ vspace s', createVirtualAddressSpace flags s = .ok (vspace, s') ∧
      ∀ calls : List MapCall, (∀ c ∈ calls, c.Valid) →
        (∀ v < 2 ^ 32, v % pageSize = 0 →
          pagingVirtToPhy (runCalls vspace calls s'.mem) vspace v =
            some (PageMap.reference flags calls v)) ∧
        ∀ c : MapCall,
          ((pagingMapRange (runCalls vspace calls s'.mem) vspace c.vaddr c.paddr c.endaddr
            c.flags).1 = success ↔ c.Accepted) ∧
          (¬ c.Accepted →
            (pagingMapRange (runCalls vspace calls s'.mem) vspace c.vaddr c.paddr c.endaddr
              c.flags).1 < 0 ∧
            c.run vspace (runCalls vspace calls s'.mem) = runCalls vspace calls s'.mem) := by
  obtain ⟨vspace, s', h, -⟩ := createVirtualAddressSpace_total flags 0 s hroom
  obtain ⟨S, rfl, hS⟩ := createVirtualAddressSpace_made hfl h
  refine ⟨S.vspace, s', h, fun calls hcalls ↦ ⟨fun v hv ha ↦ ?_, fun c ↦ c.result _ _⟩⟩
  obtain ⟨hh, he⟩ := runCalls_entries hS.holds hS.identity calls hcalls
  rw [hh.virtToPhy_eq hv ha, he v hv ha]

theorem pageMap_agrees_kheap :
    ∃ vspace s', createVirtualAddressSpace (pagePresent ||| pageUserAccess)
        (⟨KHeap.init (fun _ ↦ 0), fun _ ↦ 0⟩ : Arena (KHeap false)) = .ok (vspace, s') ∧
      ∀ calls : List MapCall, (∀ c ∈ calls, c.Valid) →
        (∀ v < 2 ^ 32, v % pageSize = 0 →
          pagingVirtToPhy (runCalls vspace calls s'.mem) vspace v =
            some (PageMap.reference (pagePresent ||| pageUserAccess) calls v)) ∧
        ∀ c : MapCall,
          ((pagingMapRange (runCalls vspace calls s'.mem) vspace c.vaddr c.paddr c.endaddr
            c.flags).1 = success ↔ c.Accepted) ∧
          (¬ c.Accepted →
            (pagingMapRange (runCalls vspace calls s'.mem) vspace c.vaddr c.paddr c.endaddr
              c.flags).1 < 0 ∧
            c.run vspace (runCalls vspace calls s'.mem) = runCalls vspace calls s'.mem) :=
  pageMap_agrees (by decide) (RoomyAllocator.room_mono _ _ _ (by decide) (KHeap.init_room _))

end GammaOS.Paging
