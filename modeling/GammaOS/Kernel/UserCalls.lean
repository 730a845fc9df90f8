import GammaOS.Kernel.LiveProcess

namespace GammaOS.Kernel

open Function Foundation Foundation.Program Memory Paging Fs Loader

section Entries

variable {σ δ : Type} [Allocator σ] [LawfulAllocator σ] {s s' : KernelState σ δ} {p : Process}
  {t : Task} {S : Space} {rs : List Run} {own kernel : List (ℕ × ℕ)} {size base addr ret : ℕ}

/-- What `process_malloc` does to memory: it keeps what is apart from the
address space, whose entries change where the call of the mapping covers them. -/
theorem Owns.malloc_memory (h : Owns s p t S rs own kernel)
    (hr : processMalloc size s = .ok (base, s')) :
    (∀ r ∈ s.arena.live, (∀ q ∈ S.runs, q.Apart r) → Kept r s.arena s'.arena) ∧
      ∀ v < 2 ^ 32, v % pageSize = 0 → entries s'.arena.mem S v = entries s.arena.mem S v ∨
        (p.allocationOf 0 ≠ none ∧ (mallocCall base size).Maps s'.arena.mem S v) := by
  obtain ⟨p', -, hp', hr⟩ := processMalloc_eq_ok.mp hr
  cases h.running.at_process.symm.trans hp'
  rcases hr with ⟨-, -, rfl⟩ | ⟨i, t', b, hslot, -, ht', hb, rfl⟩
  · exact ⟨fun r hr _ ↦ Kept.refl hr, fun _ _ _ ↦ Or.inl rfl⟩
  cases h.running.at_task.symm.trans ht'
  have hgrows := kzalloc_grows hb
  obtain ⟨hS, he⟩ := Holds.grows h.running.holds h.running.live hgrows
  have hlt : base < 2 ^ 32 := by
    by_cases hne : base = 0
    · rw [hne]
      exact Nat.two_pow_pos 32
    · exact (kzalloc_taken hb hne).1.lt
  have hmem : (s.afterMalloc p t i base size b).arena =
      { b with mem := (mallocCall base size).run S.vspace b.mem } := by
    rw [h.running.space]
    rfl
  rw [hmem]
  refine ⟨fun r hr hap ↦ (hgrows r hr).trans
    (run_kept (mallocCall_valid hlt) hS (hgrows r hr).live hap), fun v hv hva ↦ ?_⟩
  rcases (mallocCall base size).run_maps (mallocCall_valid hlt) hS hv hva with hold | hnew
  · exact Or.inl (hold.trans (he v hv))
  · exact Or.inr ⟨by rw [hslot]; exact Option.some_ne_none i, hnew⟩

theorem Owns.free_memory (h : Owns s p t S rs own kernel) (hr : processFree addr s = .ok (ret, s')) :
    (∀ r ∈ s.arena.live, (∀ q ∈ S.runs, q.Apart r) → (∀ b ∈ own, (blockRun b.1 b.2).Apart r) →
      Kept r s.arena s'.arena) ∧
      ∀ v < 2 ^ 32, v % pageSize = 0 → entries s'.arena.mem S v = entries s.arena.mem S v ∨
        ∃ i, p.allocationOf addr = some i ∧ p.memAllocationsSize i ≠ 0 ∧
          (freeCall addr (p.memAllocationsSize i)).Maps s'.arena.mem S v := by
  obtain ⟨p', -, hp', hr⟩ := processFree_eq_ok.mp hr
  cases h.running.at_process.symm.trans hp'
  rcases hr with ⟨-, -, rfl⟩ | ⟨i, t', hslot, hsize, -, ht', -, rfl⟩
  · exact ⟨fun r hr _ _ ↦ Kept.refl hr, fun _ _ _ ↦ Or.inl rfl⟩
  cases h.running.at_task.symm.trans ht'
  obtain ⟨hi, haddr⟩ := allocationOf_some hslot
  have hmem : (s.afterFree p t i addr).arena = freed addr { s.arena with
      mem := (freeCall addr (p.memAllocationsSize i)).run S.vspace s.arena.mem } := by
    rw [h.running.space]
    rfl
  have hlt : addr < 2 ^ 32 := by
    by_cases ha : addr = 0
    · rw [ha]
      exact Nat.two_pow_pos 32
    · exact haddr ▸ (h.own_block (h.listed hi (haddr ▸ ha))).lt
  have hval : (freeCall addr (p.memAllocationsSize i)).Valid := freeCall_valid hlt
  rw [hmem]
  refine ⟨fun r hr hap hown ↦ ?_, fun v hv hva ↦ ?_⟩
  · have hoff : Off r addr := by
      by_cases ha : addr = 0
      · rw [ha]
        exact off_zero hr
      · have hmem := h.listed hi (haddr ▸ ha)
        exact haddr ▸ (h.own_block hmem).off (hown _ hmem)
    exact kfree_kept hoff _ (run_kept hval h.running.holds hr hap) () _ rfl
  · rcases MapCall.run_maps hval h.running.holds hv hva with hold | hnew
    · exact Or.inl hold
    · exact Or.inr ⟨i, hslot, hsize, hnew⟩

end Entries

variable {σ : Type} [Allocator σ] [LawfulAllocator σ] {s s' : KernelState σ Fat16Files}
  {c size base addr ret : ℕ} {x : Process} {t : Task} {g : Holding} {hold : ℕ → Holding}

structure CallStep (s s' : KernelState σ Fat16Files) (hold : ℕ → Holding) (c : ℕ) (x : Process)
    (table : (ℕ → ℕ) × (ℕ → ℕ)) (own : List (ℕ × ℕ)) : Prop where
  step : ProcessStep s s' hold c ⟨(hold c).space, own⟩
  processes : s'.processes = update s.processes c (some (x.withTable table))
  processList : s'.processList = s.processList
  currentProcess : s'.currentProcess = s.currentProcess
  taskList : s'.taskList = s.taskList

omit [LawfulAllocator σ] in
theorem TableStep.callStep {own : List (ℕ × ℕ)} {table : (ℕ → ℕ) × (ℕ → ℕ)} (h : KernelInv s hold)
    (hl : LiveProcess s c x t (hold c)) (hc : s.currentProcess = c) (ht : TableStep s s' x table)
    (ho : Owns s' (x.withTable table) t (hold c).space (x.runs c (hold c).space) own [])
    (hkept : ∀ r ∈ s.arena.live, (∀ q ∈ x.owned c (hold c), q.Apart r) → Kept r s.arena s'.arena)
    (hfresh : ∀ b ∈ own, b ∈ (hold c).own ∨ ∀ q ∈ s.arena.live, (blockRun b.1 b.2).Apart q) :
    CallStep s s' hold c x table own := by
  obtain ⟨b, hs'⟩ := ht.state
  have hprocesses := ht.processes
  rw [hc] at hprocesses
  have hlist : s'.processList = s.processList := by rw [hs']; rfl
  have htasks : s'.taskList = s.taskList := by rw [hs']; rfl
  have hself := hl.of_owns (by rw [hprocesses, update_self]) ho
  refine ⟨h.stepSelf hl.at_process (by rw [hs']; rfl) hlist hprocesses rfl (fun u ↦ by rw [htasks])
    (fun p z hp hz r hr ↦ ?_) hself (fun r hr ↦ ?_), hprocesses, hlist, by rw [hs']; rfl, htasks⟩
  · obtain ⟨u, hu⟩ := h.live p z hz
    exact hkept r (hu.owned_live r hr)
      (fun q hq ↦ h.apart hl.at_process hz (Ne.symm hp) q hq r hr)
  · rcases List.mem_append.mp hr with hr | hr
    · exact Or.inl (List.mem_append_left _ hr)
    · obtain ⟨b, hb, rfl⟩ := List.mem_map.mp hr
      exact (hfresh b hb).imp_left Process.own_owned

theorem KernelInv.malloc (h : KernelInv s hold) (hl : LiveProcess s c x t (hold c))
    (hc : s.currentProcess = c) (hs : size < 2 ^ 32) (hr : processMalloc size s = .ok (base, s')) :
    ∃ table, CallStep s s' hold c x table
      (if base = 0 then (hold c).own else (base, size) :: (hold c).own) := by
  have ho := hl.owns hc
  obtain ⟨hkept, -⟩ := ho.malloc_memory hr
  have hkept' : ∀ r ∈ s.arena.live, (∀ q ∈ x.owned c (hold c), q.Apart r) →
      Kept r s.arena s'.arena :=
    fun r hr hap ↦ hkept r hr (fun q hq ↦ hap q (Process.space_owned hq))
  by_cases hne : base = 0
  · subst hne
    obtain ⟨table, ht, ho'⟩ := ho.refused hr
    rw [if_pos rfl]
    exact ⟨table, ht.callStep h hl hc ho' hkept' (fun b hb ↦ Or.inl hb)⟩
  · obtain ⟨table, ht, ho'⟩ := ho.malloc hs hr hne
    rw [if_neg hne]
    refine ⟨table, ht.callStep h hl hc ho' hkept'
      (List.forall_mem_cons.mpr ⟨Or.inr ?_, fun b hb ↦ Or.inl hb⟩)⟩
    obtain ⟨p', -, hp', hr⟩ := processMalloc_eq_ok.mp hr
    rcases hr with ⟨-, h0, -⟩ | ⟨_, _, _, -, -, -, hb, -⟩
    · exact absurd h0 hne
    · exact (kzalloc_taken hb hne).2.fresh _ (List.mem_singleton_self _)

theorem KernelInv.free (h : KernelInv s hold) (hl : LiveProcess s c x t (hold c))
    (hc : s.currentProcess = c) (hr : processFree addr s = .ok (ret, s')) :
    ∃ table, CallStep s s' hold c x table
      ((hold c).own.filter (fun b ↦ decide (b.1 ≠ addr))) := by
  have ho := hl.owns hc
  obtain ⟨hkept, -⟩ := ho.free_memory hr
  obtain ⟨table, ht, ho'⟩ := ho.free hr
  refine ⟨table, ht.callStep h hl hc ho' (fun r hr hap ↦ hkept r hr
    (fun q hq ↦ hap q (Process.space_owned hq)) (fun b hb ↦ hap _ (Process.own_owned hb)))
    (fun b hb ↦ Or.inl (List.mem_of_mem_filter hb))⟩

end GammaOS.Kernel
