import GammaOS.Paging.SpaceFrame
import Mathlib.Data.List.Induction

namespace GammaOS.Paging

open Foundation Memory

/-- Makes calls of `paging_map_range` in order, up to the first that is refused. -/
def mapCalls (vspace : ℕ) : List MapCall → ByteMemory → Bool × ByteMemory
  | [], m => (true, m)
  | c :: calls, m =>
    if c.Accepted then mapCalls vspace calls (c.run vspace m) else (false, m)

def PageMap.mapAll (f : PageMap) (calls : List MapCall) : PageMap := calls.foldl PageMap.mapRange f

def translate (m : ByteMemory) (S : Space) (va : ℕ) : ℕ :=
  (entries m S (pagingAlignToPageLower va) &&& 0xfffff000) + va % pageSize

def PageHas (m : ByteMemory) (S : Space) (va flag : ℕ) : Prop :=
  entries m S (pagingAlignToPageLower va) &&& flag ≠ 0

variable {m : ByteMemory} {S : Space} {f : PageMap} {calls : List MapCall} {c : MapCall} {v x a : ℕ}

theorem alignToPageLower_eq (a : ℕ) : pagingAlignToPageLower a = a - a % pageSize := by
  unfold pagingAlignToPageLower
  split <;> omega

theorem alignToPageLower_aligned (a : ℕ) : pagingAlignToPageLower a % pageSize = 0 := by
  rw [alignToPageLower_eq]
  unfold pageSize
  omega

theorem alignToPageLower_le (a : ℕ) : pagingAlignToPageLower a ≤ a := by
  rw [alignToPageLower_eq]
  omega

theorem alignToPageLower_of_aligned (h : a % pageSize = 0) : pagingAlignToPageLower a = a := by
  rw [alignToPageLower_eq, h, Nat.sub_zero]

theorem alignToPageUpper_lt (h : a < 2 ^ 32) : pagingAlignToPageUpper a < 2 ^ 32 := by
  unfold pagingAlignToPageUpper
  split
  · exact u32_lt _
  · exact h

theorem alignToPageUpper_aligned (a : ℕ) : pagingAlignToPageUpper a % pageSize = 0 := by
  unfold pagingAlignToPageUpper u32 pageSize
  split <;> omega

theorem alignToPageUpper_of_aligned (h : a % pageSize = 0) : pagingAlignToPageUpper a = a :=
  if_neg (not_not.mpr h)

/-- An address in the last page is rounded up to 0; the others as one expects. -/
theorem alignToPageUpper_eq (h : (a + (pageSize - 1)) / pageSize * pageSize < 2 ^ 32) :
    pagingAlignToPageUpper a = (a + (pageSize - 1)) / pageSize * pageSize := by
  unfold pagingAlignToPageUpper u32
  unfold pageSize at *
  split <;> omega

theorem MapCall.Accepted.page (h : c.Accepted) (hva : v % pageSize = 0) :
    (c.paddr + subU32 v c.vaddr) % pageSize = 0 := by
  have h₁ := h.vaddr_aligned
  have h₂ := h.paddr_aligned
  unfold subU32 u32
  unfold pageSize at *
  omega

theorem mapAll_cons : f.mapAll (c :: calls) = (f.mapRange c).mapAll calls := rfl

theorem mapAll_append {calls' : List MapCall} :
    f.mapAll (calls ++ calls') = (f.mapAll calls).mapAll calls' :=
  List.foldl_append

theorem mapAll_eq (hx : f v = x ∨ ∃ c ∈ calls, c.Accepted ∧ c.Covers v)
    (hall : ∀ c ∈ calls, c.Accepted → c.Covers v → c.valueAt v = x) : f.mapAll calls v = x := by
  induction calls generalizing f with
  | nil =>
    rcases hx with hx | ⟨c, hc, -⟩
    · exact hx
    · cases hc
  | cons c calls ih =>
    rw [mapAll_cons]
    refine ih ?_ (fun d hd ↦ hall d (List.mem_cons_of_mem c hd))
    by_cases hc : c.Accepted ∧ c.Covers v
    · rw [PageMap.mapRange, if_pos hc]
      exact Or.inl (hall c List.mem_cons_self hc.1 hc.2)
    · rw [PageMap.mapRange, if_neg hc]
      refine hx.imp_right ?_
      rintro ⟨d, hd, hcov⟩
      exact ⟨d, (List.mem_cons.mp hd).resolve_left (fun he ↦ hc (he ▸ hcov)), hcov⟩

theorem mapAll_induct {P : ℕ → Prop} (h : P (f v))
    (hall : ∀ c ∈ calls, c.Accepted → c.Covers v → P (c.valueAt v)) : P (f.mapAll calls v) := by
  induction calls generalizing f with
  | nil => exact h
  | cons c calls ih =>
    refine ih ?_ (fun d hd ↦ hall d (List.mem_cons_of_mem c hd))
    rw [PageMap.mapRange]
    by_cases hc : c.Accepted ∧ c.Covers v
    · rw [if_pos hc]
      exact hall c List.mem_cons_self hc.1 hc.2
    · rwa [if_neg hc]

def CoversLast (calls : List MapCall) (c : MapCall) (v : ℕ) : Prop :=
  ∃ l r, calls = l ++ c :: r ∧ c.Covers v ∧ ∀ d ∈ r, ¬ d.Covers v

theorem CoversLast.mem (h : CoversLast calls c v) : c ∈ calls := by
  obtain ⟨l, r, rfl, -, -⟩ := h
  exact List.mem_append_right l List.mem_cons_self

theorem CoversLast.append (h : CoversLast calls c v) {d : MapCall} (hd : ¬ d.Covers v) :
    CoversLast (calls ++ [d]) c v := by
  obtain ⟨l, r, rfl, hc, hr⟩ := h
  refine ⟨l, r ++ [d], by simp, hc, fun e he ↦ ?_⟩
  rcases List.mem_append.mp he with he | he
  · exact hr e he
  · exact List.mem_singleton.mp he ▸ hd

/-- Behind calls that are all accepted a page is as it was, or as the last call
that covers it makes it. -/
theorem mapAll_last {P : ℕ → Prop} (h : P (f v)) (hacc : ∀ c ∈ calls, c.Accepted)
    (hall : ∀ c, CoversLast calls c v → P (c.valueAt v)) : P (f.mapAll calls v) := by
  induction calls using List.reverseRecOn with
  | nil => exact h
  | append_singleton calls d ih =>
    rw [mapAll_append]
    change P ((f.mapAll calls).mapRange d v)
    rw [PageMap.mapRange]
    by_cases hd : d.Covers v
    · rw [if_pos ⟨hacc d (List.mem_append_right _ List.mem_cons_self), hd⟩]
      refine hall d ⟨calls, [], rfl, hd, ?_⟩
      intro c hc
      cases hc
    · rw [if_neg (fun hc ↦ hd hc.2)]
      exact ih (fun c hc ↦ hacc c (List.mem_append_left _ hc)) (fun c hc ↦ hall c (hc.append hd))

theorem mapAll_outside (h : ∀ c ∈ calls, ¬ c.Covers v) : f.mapAll calls v = f v :=
  mapAll_eq (Or.inl rfl) (fun c hc _ hcov ↦ absurd hcov (h c hc))

theorem mapAll_congr {g : PageMap} (h : f v = g v) : f.mapAll calls v = g.mapAll calls v := by
  induction calls generalizing f g with
  | nil => exact h
  | cons d calls ih =>
    refine ih ?_
    rw [PageMap.mapRange, PageMap.mapRange, h]

theorem mapCalls_holds (h : Holds m S) (hv : ∀ c ∈ calls, c.Valid) :
    Holds (mapCalls S.vspace calls m).2 S ∧
      ∀ i, S.OffTables i → (mapCalls S.vspace calls m).2 i = m i := by
  induction calls generalizing m with
  | nil => exact ⟨h, fun _ _ ↦ rfl⟩
  | cons c calls ih =>
    have hc := hv c List.mem_cons_self
    rw [mapCalls]
    split
    · obtain ⟨h₁, h₂⟩ := ih (c.run_entries hc h).1 (fun d hd ↦ hv d (List.mem_cons_of_mem c hd))
      exact ⟨h₁, fun i hi ↦ (h₂ i hi).trans (c.run_outside hc h hi)⟩
    · exact ⟨h, fun _ _ ↦ rfl⟩

theorem mapCalls_append {vspace : ℕ} {calls' : List MapCall} :
    mapCalls vspace (calls ++ calls') m =
      if (mapCalls vspace calls m).1 then mapCalls vspace calls' (mapCalls vspace calls m).2
      else (false, (mapCalls vspace calls m).2) := by
  induction calls generalizing m with
  | nil => rfl
  | cons c calls ih =>
    rw [List.cons_append, mapCalls, mapCalls]
    by_cases hc : c.Accepted
    · rw [if_pos hc, if_pos hc, ih]
    · rw [if_neg hc, if_neg hc]
      rfl

theorem mapCalls_accepted : (mapCalls S.vspace calls m).1 = true ↔ ∀ c ∈ calls, c.Accepted := by
  induction calls generalizing m with
  | nil => simp [mapCalls]
  | cons c calls ih =>
    rw [mapCalls, List.forall_mem_cons]
    by_cases hc : c.Accepted
    · rw [if_pos hc, ih]
      exact ⟨fun h ↦ ⟨hc, h⟩, fun h ↦ h.2⟩
    · rw [if_neg hc]
      exact iff_of_false Bool.false_ne_true (fun h ↦ hc h.1)

theorem mapCalls_entries (h : Holds m S) (hv : ∀ c ∈ calls, c.Valid)
    (hok : (mapCalls S.vspace calls m).1 = true) : ∀ v < 2 ^ 32, v % pageSize = 0 →
      entries (mapCalls S.vspace calls m).2 S v = PageMap.mapAll (entries m S) calls v := by
  induction calls generalizing m with
  | nil => exact fun _ _ _ ↦ rfl
  | cons c calls ih =>
    have hacc := (mapCalls_accepted.mp hok) c List.mem_cons_self
    rw [mapCalls, if_pos hacc] at hok
    obtain ⟨h₁, h₂⟩ := c.run_entries (hv c List.mem_cons_self) h
    intro v hlt ha
    rw [mapCalls, if_pos hacc, ih h₁ (fun d hd ↦ hv d (List.mem_cons_of_mem c hd)) hok v hlt ha,
      mapAll_cons]
    exact mapAll_congr (h₂ v hlt ha)

/-- What the page tables hold of a page behind the calls, also when one is refused. -/
theorem mapCalls_maps (h : Holds m S) (hvalid : ∀ c ∈ calls, c.Valid) (hv : v < 2 ^ 32)
    (hva : v % pageSize = 0) :
    entries (mapCalls S.vspace calls m).2 S v = entries m S v ∨
      ∃ c ∈ calls, c.Maps (mapCalls S.vspace calls m).2 S v := by
  induction calls generalizing m with
  | nil => exact Or.inl rfl
  | cons c calls ih =>
    have hc := hvalid c List.mem_cons_self
    rw [mapCalls]
    by_cases hacc : c.Accepted
    · rw [if_pos hacc]
      have hrest := ih (c.run_entries hc h).1 (fun d hd ↦ hvalid d (List.mem_cons_of_mem c hd))
      rcases hrest with hsame | ⟨d, hd, hmaps⟩
      · rcases c.run_maps hc h hv hva with hold | ⟨-, hcov, he⟩
        · exact Or.inl (hsame.trans hold)
        · exact Or.inr ⟨c, List.mem_cons_self, hacc, hcov, hsame.trans he⟩
      · exact Or.inr ⟨d, List.mem_cons_of_mem c hd, hmaps⟩
    · rw [if_neg hacc]
      exact Or.inl rfl

theorem translate_of_entry {pa flags : ℕ} (h : entries m S (pagingAlignToPageLower v) = pa ||| flags)
    (hpa : pa % pageSize = 0) (hin : pa + pageSize ≤ 2 ^ 32) (hfl : flags < pageSize) :
    translate m S v = pa + v % pageSize := by
  rw [translate, h, mask_entry hpa hin hfl]

theorem flag_of_page {pa flags bit : ℕ} (hpa : pa % pageSize = 0) (hb : bit < pageSize) :
    (pa ||| flags) &&& bit = flags &&& bit := by
  have hzero : pa &&& bit = 0 := by
    have h : pa = pa / 2 ^ 12 * 2 ^ 12 := by
      unfold pageSize at hpa
      omega
    unfold pageSize at hb
    rw [h, ← Nat.shiftLeft_eq]
    refine Nat.eq_of_testBit_eq (fun i ↦ ?_)
    rw [Nat.testBit_and, Nat.testBit_shiftLeft, Nat.zero_testBit]
    by_cases hi : i ≥ 12
    · have : bit.testBit i = false :=
        Nat.testBit_lt_two_pow (Nat.lt_of_lt_of_le hb (Nat.pow_le_pow_right Nat.two_pos hi))
      rw [this, Bool.and_false]
    · simp [hi]
  rw [Nat.and_or_distrib_right, hzero, Nat.zero_or]

end GammaOS.Paging
