import GammaOS.Paging.PageMap

namespace GammaOS.Paging

open Foundation Foundation.Program Memory

variable {σ : Type} [Allocator σ] {m m' : ByteMemory} {S : Space} {i : ℕ}

def Space.OffTables (S : Space) (i : ℕ) : Prop :=
  ∀ k < pageDirEntries, pageOf i ≠ pageOf (S.table k)

theorem Holds.store_outside (h : Holds m S) {v val : ℕ} (hv : v < 2 ^ 32) (hi : S.OffTables i) :
    m.store32 (S.slot v) val i = m i := by
  refine ByteMemory.store32_outside ?_
  by_contra hc
  exact hi _ (dirIndex_lt hv) (h.sound.slot_page hv (by omega) (by omega))

theorem mapPages_outside {flags : ℕ} (hi : S.OffTables i) :
    ∀ n vaddr paddr (m : ByteMemory), Holds m S → vaddr < 2 ^ 32 → vaddr % pageSize = 0 →
      mapPages S.vspace flags n vaddr paddr m i = m i := by
  intro n
  induction n with
  | zero => intro vaddr paddr m _ _ _; rfl
  | succ n ih =>
    intro vaddr paddr m h hv ha
    have hvn : u32 (vaddr + pageSize) % pageSize = 0 := by
      unfold u32
      unfold pageSize at *
      omega
    rw [mapPages, h.pd_eq, h.map_eq hv ha, ih _ _ _ (h.store hv) (u32_lt _) hvn]
    exact h.store_outside hv hi

theorem MapCall.run_outside {c : MapCall} (hc : c.Valid) (h : Holds m S) (hi : S.OffTables i) :
    c.run S.vspace m i = m i := by
  unfold MapCall.run
  by_cases hac : c.Accepted
  · rw [c.accepted hac]
    exact mapPages_outside hi _ _ _ m h hc.vaddr_lt hac.vaddr_aligned
  · rw [c.refused hac]

theorem Holds.mapVaddrToVal_holds (h : Holds m S) {v val : ℕ} (hv : v < 2 ^ 32) :
    Holds (mapVaddrToVal m S.pd v val).2 S := by
  by_cases ha : v % pageSize = 0
  · rw [h.map_eq hv ha]
    exact h.store hv
  · have hno : getPageIndices v = none := if_neg (by simpa [addressPageAligned] using ha)
    rw [mapVaddrToVal, hno]
    exact h

theorem Holds.mapVaddrToVal_outside (h : Holds m S) {v val : ℕ} (hv : v < 2 ^ 32)
    (hi : S.OffTables i) : (mapVaddrToVal m S.pd v val).2 i = m i := by
  by_cases ha : v % pageSize = 0
  · rw [h.map_eq hv ha]
    exact h.store_outside hv hi
  · have hno : getPageIndices v = none := if_neg (by simpa [addressPageAligned] using ha)
    rw [mapVaddrToVal, hno]

theorem Space.table_run {k : ℕ} (hk : k < pageDirEntries) : pageRun (S.table k) ∈ S.runs := by
  simp only [Space.runs, List.mem_cons, List.mem_map, List.mem_range]
  exact Or.inr (Or.inr (Or.inr ⟨k, hk, rfl⟩))

theorem Space.vspace_run : pageRun S.vspace ∈ S.runs := List.mem_cons_self

theorem Space.pd_run : pageRun S.pd ∈ S.runs := List.mem_cons_of_mem _ List.mem_cons_self

theorem Space.directory_run : pageRun S.directory ∈ S.runs :=
  List.mem_cons_of_mem _ (List.mem_cons_of_mem _ List.mem_cons_self)

theorem Space.offTables_of_apart {r : Run} (h : ∀ q ∈ S.runs, q.Apart r) (hi : pageOf i ∈ r) :
    S.OffTables i :=
  fun _ hk ↦ apart_page (h _ (Space.table_run hk)) hi

theorem Holds.frame (h : Holds m S)
    (hb : ∀ r ∈ S.runs, ∀ i, pageOf i ∈ r → m' i = m i) :
    Holds m' S ∧ ∀ v < 2 ^ 32, entries m' S v = entries m S v := by
  refine ⟨h.congr ?_, fun v hv ↦ ?_⟩
  · rintro i (hi | hi | hi)
    · exact hb _ Space.vspace_run i (mem_pageRun.mpr hi)
    · exact hb _ Space.pd_run i (mem_pageRun.mpr hi)
    · exact hb _ Space.directory_run i (mem_pageRun.mpr hi)
  · exact ByteMemory.load32_congr (fun i h₁ h₂ ↦ hb _ (Space.table_run (dirIndex_lt hv)) i
      (mem_pageRun.mpr (h.sound.slot_page hv h₁ h₂)))

theorem Holds.pd_lt (h : Holds m S) : S.pd < 2 ^ 32 := h.pd_eq ▸ ByteMemory.load32_lt _ _

theorem off_of_apart {p : ℕ} {r : Run} (hp : p < 2 ^ 32) (h : (pageRun p).Apart r) : Off r p := by
  rw [Off, u32_of_lt hp]
  exact h _ (mem_pageRun.mpr rfl)

theorem kfree_mem {m : ByteMemory} {p : ℕ} :
    Triple (fun s : Arena σ ↦ s.mem = m) (kfree p) (fun _ s ↦ s.mem = m) :=
  .modify (fun _ h ↦ h)

theorem freeTables_mem {vspace : ℕ} {m : ByteMemory} : ∀ n k,
    Triple (fun s : Arena σ ↦ s.mem = m) (freeTables vspace n k) (fun _ s ↦ s.mem = m) := by
  intro n
  induction n with
  | zero => exact fun k ↦ .pure (fun s hs ↦ hs)
  | succ n ih =>
    intro k
    refine Triple.read (fun _ ↦ ?_)
    exact (kfree_mem.weaken (fun _ h ↦ h.1) (fun _ _ h ↦ h)).bind (fun _ ↦ ih (k + 1))

theorem destroyVirtualAddressSpace_mem {vspace : ℕ} {m : ByteMemory} :
    Triple (fun s : Arena σ ↦ s.mem = m) (destroyVirtualAddressSpace vspace)
      (fun _ s ↦ s.mem = m) := by
  refine (freeTables_mem pageDirEntries 0).bind (fun _ ↦ ?_)
  refine Triple.read (fun _ ↦ ?_)
  exact (kfree_mem.weaken (fun _ h ↦ h.1) (fun _ _ h ↦ h)).bind (fun _ ↦ kfree_mem)

theorem freeTables_runs (vspace : ℕ) : ∀ n k (s : Arena σ),
    ∃ b, freeTables vspace n k s = .ok ((), b) := by
  intro n
  induction n with
  | zero => exact fun _ s ↦ ⟨s, rfl⟩
  | succ n ih =>
    intro k s
    let addr := tableOf s.mem (s.mem.load32 (s.mem.load32 vspace)) k
    let s₁ : Arena σ := { s with heap := Allocator.kfree addr s.heap }
    have hfree : kfree addr s = .ok ((), s₁) := rfl
    obtain ⟨b, hb⟩ := ih (k + 1) s₁
    refine ⟨b, ?_⟩
    rw [freeTables, bind_run_ok (gets_run _ _), bind_run_ok hfree, hb]

theorem destroyVirtualAddressSpace_runs (vspace : ℕ) (s : Arena σ) :
    ∃ b, destroyVirtualAddressSpace vspace s = .ok ((), b) := by
  obtain ⟨b, hb⟩ := freeTables_runs vspace pageDirEntries 0 s
  let b₁ : Arena σ := { b with heap := Allocator.kfree (b.mem.load32 vspace) b.heap }
  have hfree : kfree (b.mem.load32 vspace) b = .ok ((), b₁) := rfl
  have hlast : kfree vspace b₁ = .ok ((), { b₁ with heap := Allocator.kfree vspace b₁.heap }) := rfl
  refine ⟨{ b₁ with heap := Allocator.kfree vspace b₁.heap }, ?_⟩
  rw [destroyVirtualAddressSpace, bind_run_ok hb, bind_run_ok (gets_run _ _), bind_run_ok hfree,
    hlast]

section Destroy

variable [LawfulAllocator σ] {r : Run} {s₀ : Arena σ}

theorem freeTables_kept (hap : ∀ q ∈ S.runs, q.Apart r) (m : ByteMemory) (h : Holds m S) :
    ∀ n k, k + n ≤ pageDirEntries →
      Triple (fun s : Arena σ ↦ Kept r s₀ s ∧ s.mem = m) (freeTables S.vspace n k)
        (fun _ s ↦ Kept r s₀ s ∧ s.mem = m) := by
  intro n
  induction n with
  | zero => intro k _; exact .pure (fun s hs ↦ hs)
  | succ n ih =>
    intro k hk s ⟨hs, hm⟩ x s' hr
    obtain ⟨m', s₁, h₁, hr⟩ := bind_eq_ok.mp hr
    cases h₁
    obtain ⟨_, s₂, h₂, hr⟩ := bind_eq_ok.mp hr
    have hlt : S.table k < 2 ^ 32 := by
      have := h.sound.table_inside k (by omega)
      unfold pageSize at this
      omega
    rw [hm, h.pd_eq, h.directory_eq, h.table_eq k (by omega)] at h₂
    have hoff := off_of_apart hlt (hap _ (Space.table_run (show k < pageDirEntries by omega)))
    have hm₂ := (live_kfree h₂).2
    exact ih (k + 1) (by omega) s₂ ⟨kfree_kept hoff s hs _ _ h₂, hm₂.trans hm⟩ _ _ hr

theorem destroyVirtualAddressSpace_kept (hap : ∀ q ∈ S.runs, q.Apart r) (hv : S.vspace < 2 ^ 32)
    (m : ByteMemory) (h : Holds m S) :
    Triple (fun s : Arena σ ↦ Kept r s₀ s ∧ s.mem = m) (destroyVirtualAddressSpace S.vspace)
      (fun _ s ↦ Kept r s₀ s ∧ s.mem = m) := by
  refine (freeTables_kept hap m h pageDirEntries 0 (by omega)).bind (fun _ ↦ ?_)
  intro s ⟨hs, hm⟩ x s' hr
  obtain ⟨m', s₁, h₁, hr⟩ := bind_eq_ok.mp hr
  cases h₁
  obtain ⟨_, s₂, h₂, hr⟩ := bind_eq_ok.mp hr
  rw [hm, h.pd_eq] at h₂
  have hs₂ := kfree_kept (off_of_apart h.pd_lt (hap _ Space.pd_run)) s hs _ _ h₂
  have hs' := kfree_kept (off_of_apart hv (hap _ Space.vspace_run)) s₂ hs₂ _ _ hr
  exact ⟨hs', (live_kfree hr).2.trans ((live_kfree h₂).2.trans hm)⟩

end Destroy

end GammaOS.Paging
