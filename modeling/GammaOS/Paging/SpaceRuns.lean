import GammaOS.Paging.SpaceFrame

namespace GammaOS.Paging

open Foundation Foundation.Program Memory

variable {σ : Type} [Allocator σ] {s s' : Arena σ} {S T : Space} {Ss : List Space} {p : ℕ}

inductive SpaceOp
  | mapRange (c : MapCall)
  | mapVaddr (vaddr val : ℕ)
  | destroy

def SpaceOp.Valid : SpaceOp → Prop
  | mapRange c => c.Valid
  | mapVaddr vaddr val => vaddr < 2 ^ 32 ∧ val < 2 ^ 32
  | destroy => True

def SpaceOp.run (p : ℕ) : SpaceOp → ArenaM σ Unit
  | mapRange c => onMem (c.run p)
  | mapVaddr vaddr val => onMem (fun m ↦ (mapVaddrToVal m (m.load32 p) vaddr val).2)
  | destroy => destroyVirtualAddressSpace p

def SpaceOp.after (p : ℕ) (live : List ℕ) : SpaceOp → List ℕ
  | destroy => live.erase p
  | _ => live

/-- The runs of the four operations on any number of address spaces, every
allocation succeeding, with the addresses of the spaces that are live. -/
inductive SpaceRuns : Arena σ → List ℕ → Prop
  | start (s : Arena σ) : SpaceRuns s []
  | create {s s' : Arena σ} {live : List ℕ} {flags p : ℕ} : SpaceRuns s live → flags < 2 ^ 8 →
      createVirtualAddressSpace flags s = .ok (p, s') → SpaceRuns s' (p :: live)
  | step {s s' : Arena σ} {live : List ℕ} {p : ℕ} (op : SpaceOp) : SpaceRuns s live → p ∈ live →
      op.Valid → op.run p s = .ok ((), s') → SpaceRuns s' (op.after p live)

def Space.Apart (S T : Space) : Prop := ∀ q ∈ S.runs, ∀ r ∈ T.runs, q.Apart r

instance : Std.Symm Space.Apart := ⟨fun _ _ h q hq r hr ↦ (h r hr q hq).symm⟩

theorem Space.Apart.ne (h : S.Apart T) : S.vspace ≠ T.vspace := by
  intro he
  have := h _ Space.vspace_run _ Space.vspace_run
  rw [he] at this
  exact pageRun_apart.mp this rfl

def Space.Unchanged (T : Space) (m m' : ByteMemory) : Prop :=
  Holds m' T ∧ ∀ v < 2 ^ 32, entries m' T v = entries m T v

theorem Space.Unchanged.virtToPhy {m m' : ByteMemory} (h : T.Unchanged m m') (hm : Holds m T)
    {v : ℕ} (hv : v < 2 ^ 32) (ha : v % pageSize = 0) :
    pagingVirtToPhy m' T.vspace v = pagingVirtToPhy m T.vspace v := by
  rw [h.1.virtToPhy_eq hv ha, hm.virtToPhy_eq hv ha, h.2 v hv]

structure SpacesApart (s : Arena σ) (Ss : List Space) : Prop where
  holds : ∀ S ∈ Ss, Holds s.mem S
  vspace_lt : ∀ S ∈ Ss, S.vspace < 2 ^ 32
  live : ∀ S ∈ Ss, ∀ r ∈ S.runs, r ∈ s.live
  apart : Ss.Pairwise Space.Apart

theorem SpacesApart.apart_of_ne (h : SpacesApart s Ss) (hS : S ∈ Ss) (hT : T ∈ Ss)
    (hne : S.vspace ≠ T.vspace) : S.Apart T :=
  h.apart.forall hS hT (fun he ↦ hne (congrArg Space.vspace he))

theorem SpacesApart.keep (h : SpacesApart s Ss) {Ts : List Space} (hsub : Ts.Sublist Ss)
    (hk : ∀ S ∈ Ts, ∀ r ∈ S.runs, Kept r s s') :
    SpacesApart s' Ts ∧ ∀ S ∈ Ts, S.Unchanged s.mem s'.mem := by
  have hf := fun S hS ↦ (h.holds S (hsub.subset hS)).frame (fun r hr ↦ (hk S hS r hr).bytes)
  exact ⟨⟨fun S hS ↦ (hf S hS).1, fun S hS ↦ h.vspace_lt S (hsub.subset hS),
    fun S hS r hr ↦ (hk S hS r hr).live, h.apart.sublist hsub⟩, hf⟩

theorem createVirtualAddressSpace_lt [LawfulAllocator σ] {flags : ℕ}
    (h : createVirtualAddressSpace flags s = .ok (p, s')) : p < 2 ^ 32 := by
  obtain ⟨pd, s₁, s₂, ⟨h₁, hp⟩, -, -⟩ := createVirtualAddressSpace_cases h
  have g := kzalloc_granted h₁ hp
  have hin := g.inside
  have hpos := g.pos
  have hle := lt_blocksOf (u32 4)
  omega

theorem SpacesApart.create [LawfulAllocator σ] (h : SpacesApart s Ss) {flags : ℕ}
    (hfl : flags < 2 ^ 8) (hc : createVirtualAddressSpace flags s = .ok (p, s')) :
    (∃ S, S.vspace = p ∧ SpacesApart s' (S :: Ss)) ∧
      ∀ T ∈ Ss, T.Unchanged s.mem s'.mem := by
  obtain ⟨S, rfl, hS⟩ := createVirtualAddressSpace_made hfl hc
  obtain ⟨h', he⟩ := h.keep (List.Sublist.refl Ss) (fun T hT r hr ↦ hS.kept r (h.live T hT r hr))
  have hnew : ∀ T ∈ Ss, S.Apart T := fun T hT q hq r hr ↦ hS.runs_fresh q hq r (h.live T hT r hr)
  refine ⟨⟨S, rfl, ?_, ?_, ?_, List.pairwise_cons.mpr ⟨hnew, h'.apart⟩⟩, he⟩
  · exact List.forall_mem_cons.mpr ⟨hS.holds, h'.holds⟩
  · exact List.forall_mem_cons.mpr ⟨createVirtualAddressSpace_lt hc, h'.vspace_lt⟩
  · exact List.forall_mem_cons.mpr ⟨hS.runs_live, h'.live⟩

theorem SpacesApart.write (h : SpacesApart s Ss) (hS : S ∈ Ss) {m : ByteMemory}
    (hh : Holds m S) (ho : ∀ i, S.OffTables i → m i = s.mem i) :
    SpacesApart { s with mem := m } Ss ∧
      ∀ T ∈ Ss, T.vspace ≠ S.vspace → T.Unchanged s.mem m := by
  have hframe : ∀ T ∈ Ss, T.vspace ≠ S.vspace → T.Unchanged s.mem m := by
    intro T hT hne
    refine (h.holds T hT).frame (fun r hr i hi ↦ ho i ?_)
    exact Space.offTables_of_apart (fun q hq ↦ h.apart_of_ne hS hT hne.symm q hq r hr) hi
  refine ⟨⟨fun T hT ↦ ?_, h.vspace_lt, h.live, h.apart⟩, hframe⟩
  by_cases hTS : T = S
  · rw [hTS]
    exact hh
  · exact (hframe T hT (h.apart.forall hT hS hTS).ne).1

theorem map_vspace_erase (hS : S ∈ Ss) (hap : Ss.Pairwise Space.Apart) :
    ∃ Ts : List Space, Ts.Sublist Ss ∧ Ts.map Space.vspace = (Ss.map Space.vspace).erase S.vspace ∧
      ∀ T ∈ Ts, T.vspace ≠ S.vspace := by
  induction Ss with
  | nil => cases hS
  | cons U Us ih =>
    obtain ⟨hU, hUs⟩ := List.pairwise_cons.mp hap
    by_cases hUS : U.vspace = S.vspace
    · refine ⟨Us, List.sublist_cons_self U Us, ?_, fun T hT ↦ hUS ▸ (hU T hT).ne.symm⟩
      rw [List.map_cons, hUS, List.erase_cons_head]
    · have hS' : S ∈ Us := (List.mem_cons.mp hS).resolve_left
        (fun he ↦ hUS (congrArg Space.vspace he.symm))
      obtain ⟨Ts, h₁, h₂, h₃⟩ := ih hS' hUs
      refine ⟨U :: Ts, h₁.cons_cons U, ?_, List.forall_mem_cons.mpr ⟨hUS, h₃⟩⟩
      rw [List.map_cons, List.map_cons, h₂, List.erase_cons_tail (by simpa using hUS)]

theorem SpacesApart.step [LawfulAllocator σ] (h : SpacesApart s Ss) (hS : S ∈ Ss) {op : SpaceOp}
    (hv : op.Valid) (hr : op.run S.vspace s = .ok ((), s')) :
    (∃ Ts, Ts.map Space.vspace = op.after S.vspace (Ss.map Space.vspace) ∧ SpacesApart s' Ts) ∧
      ∀ T ∈ Ss, T.vspace ≠ S.vspace → T.Unchanged s.mem s'.mem := by
  have hh := h.holds S hS
  cases op with
  | mapRange c =>
    cases hr
    obtain ⟨h₁, h₂⟩ := h.write hS (c.run_entries hv hh).1 (fun i hi ↦ c.run_outside hv hh hi)
    exact ⟨⟨Ss, rfl, h₁⟩, h₂⟩
  | mapVaddr vaddr val =>
    have he : s' = { s with mem := (mapVaddrToVal s.mem S.pd vaddr val).2 } := by
      have hr' : onMem (fun m ↦ (mapVaddrToVal m (m.load32 S.vspace) vaddr val).2) s =
        .ok ((), s') := hr
      rw [← hh.pd_eq]
      exact onMem_eq_ok.mp hr'
    subst he
    obtain ⟨h₁, h₂⟩ := h.write hS (@Holds.mapVaddrToVal_holds _ _ hh _ val hv.1)
      (fun i hi ↦ hh.mapVaddrToVal_outside hv.1 hi)
    exact ⟨⟨Ss, rfl, h₁⟩, h₂⟩
  | destroy =>
    simp only [SpaceOp.run] at hr
    obtain ⟨Ts, hsub, hmap, hne⟩ := map_vspace_erase hS h.apart
    have hkept : ∀ T ∈ Ts, ∀ r ∈ T.runs, Kept r s s' := by
      intro T hT r hr'
      have hap := h.apart_of_ne hS (hsub.subset hT) (hne T hT).symm
      exact (destroyVirtualAddressSpace_kept (fun q hq ↦ hap q hq r hr') (h.vspace_lt S hS) s.mem hh
        s ⟨Kept.refl (h.live T (hsub.subset hT) r hr'), rfl⟩ _ _ hr).1
    have hmem := destroyVirtualAddressSpace_mem s rfl _ _ hr
    refine ⟨⟨Ts, hmap, (h.keep hsub hkept).1⟩, fun T hT _ ↦ ?_⟩
    rw [hmem]
    exact ⟨h.holds T hT, fun _ _ ↦ rfl⟩

theorem SpaceRuns.spaces [LawfulAllocator σ] {live : List ℕ} (h : SpaceRuns s live) :
    ∃ Ss, Ss.map Space.vspace = live ∧ SpacesApart s Ss := by
  induction h with
  | start s =>
    exact ⟨[], rfl, by simp, by simp, by simp, List.Pairwise.nil⟩
  | create _ hfl hc ih =>
    obtain ⟨Ss, rfl, hSs⟩ := ih
    obtain ⟨⟨S, rfl, hS⟩, -⟩ := hSs.create hfl hc
    exact ⟨S :: Ss, rfl, hS⟩
  | step op _ hp hv hr ih =>
    obtain ⟨Ss, rfl, hSs⟩ := ih
    obtain ⟨S, hS, rfl⟩ := List.mem_map.mp hp
    exact (hSs.step hS hv hr).1

/-- After any run, an operation on a live space, or the creation of another one,
leaves the translation of every page by every other live space as it was. -/
theorem spaces_do_not_interfere [LawfulAllocator σ] {live : List ℕ} (h : SpaceRuns s live) :
    (∀ flags p s', flags < 2 ^ 8 → createVirtualAddressSpace flags s = .ok (p, s') →
      ∀ q ∈ live, ∀ v < 2 ^ 32, v % pageSize = 0 →
        pagingVirtToPhy s'.mem q v = pagingVirtToPhy s.mem q v) ∧
      ∀ (op : SpaceOp) p s', p ∈ live → op.Valid → op.run p s = .ok ((), s') →
        ∀ q ∈ live, q ≠ p → ∀ v < 2 ^ 32, v % pageSize = 0 →
          pagingVirtToPhy s'.mem q v = pagingVirtToPhy s.mem q v := by
  obtain ⟨Ss, rfl, hSs⟩ := h.spaces
  constructor
  · intro flags p s' hfl hc q hq v hv ha
    obtain ⟨T, hT, rfl⟩ := List.mem_map.mp hq
    exact ((hSs.create hfl hc).2 T hT).virtToPhy (hSs.holds T hT) hv ha
  · intro op p s' hp hv hr q hq hqp v hlt ha
    obtain ⟨S, hS, rfl⟩ := List.mem_map.mp hp
    obtain ⟨T, hT, rfl⟩ := List.mem_map.mp hq
    exact ((hSs.step hS hv hr).2 T hT hqp).virtToPhy (hSs.holds T hT) hlt ha

theorem SpaceRuns.ne [LawfulAllocator σ] {q : ℕ} (h : SpaceRuns s [q, p]) : p ≠ q := by
  obtain ⟨Ss, hmap, hSs⟩ := h.spaces
  obtain ⟨T, Ts, rfl, rfl, hTs⟩ := List.map_eq_cons_iff.mp hmap
  obtain ⟨S, _, rfl, rfl, -⟩ := List.map_eq_cons_iff.mp hTs
  exact ((List.pairwise_cons.mp hSs.apart).1 S List.mem_cons_self).ne.symm

theorem twoSpaces : ∃ (s : Arena (KHeap false)) (p q : ℕ), SpaceRuns s [q, p] := by
  have hroom : Arena.HasRoom (1027 + 1027)
      (⟨KHeap.init (fun _ ↦ 0), fun _ ↦ 0⟩ : Arena (KHeap false)) :=
    RoomyAllocator.room_mono _ _ _ (by decide) (KHeap.init_room _)
  obtain ⟨p, s₁, h₁, -, hr₁⟩ := createVirtualAddressSpace_total 5 1027 _ hroom
  obtain ⟨q, s₂, h₂, -⟩ := createVirtualAddressSpace_total 5 0 s₁ hr₁
  exact ⟨s₂, p, q, .create (.create (.start _) (by decide) h₁) (by decide) h₂⟩

theorem spaces_do_not_interfere_two : ∃ (s : Arena (KHeap false)) (p q : ℕ),
    SpaceRuns s [q, p] ∧ p ≠ q ∧ ∀ (op : SpaceOp) s', op.Valid → op.run q s = .ok ((), s') →
      ∀ v < 2 ^ 32, v % pageSize = 0 →
        pagingVirtToPhy s'.mem p v = pagingVirtToPhy s.mem p v := by
  obtain ⟨s, p, q, h⟩ := twoSpaces
  exact ⟨s, p, q, h, h.ne, fun op s' hv hr ↦
    (spaces_do_not_interfere h).2 op q s' (by simp) hv hr p (by simp) h.ne⟩

end GammaOS.Paging
