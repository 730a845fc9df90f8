import GammaOS.Paging.MapCalls
import GammaOS.Paging.SpaceFrame

namespace GammaOS.Paging

open Foundation Memory

def leafOf (entry v : ℕ) : Option ℕ :=
  if entry &&& pagePresent = 0 then none else some ((entry &&& 0xfffff000) + v % pageSize)

/-- The physical address that the processor finds for `v` with the directory at
`directory` loaded, none for a page fault. The kernel runs on level 0 and without
write protection, so the other flags of an entry do not matter to it. -/
def pageWalk (m : ByteMemory) (directory v : ℕ) : Option ℕ :=
  if m.load32 (directory + 4 * (v / 2 ^ 22)) &&& pagePresent = 0 then none
  else leafOf (m.load32 (tableOf m directory (v / 2 ^ 22) + 4 * (v % 2 ^ 22 / pageSize))) v

def Present (m : ByteMemory) (directory : ℕ) : Prop :=
  ∀ i < pageDirEntries, m.load32 (directory + 4 * i) &&& pagePresent ≠ 0

variable {m m' : ByteMemory} {S : Space} {v w val : ℕ}

theorem Holds.pageWalk_eq (h : Holds m S) (hp : Present m S.directory) (hv : v < 2 ^ 32) :
    pageWalk m S.directory v = leafOf (entries m S v) v := by
  rw [pageWalk, if_neg (hp _ (dirIndex_lt hv)), h.table_eq _ (dirIndex_lt hv), entries, Space.slot]

theorem Space.slot_page (S : Space) (v : ℕ) : S.slot (v / pageSize * pageSize) = S.slot v := by
  unfold Space.slot pageSize
  rw [show v / 4096 * 4096 / 2 ^ 22 = v / 2 ^ 22 by omega,
    show v / 4096 * 4096 % 2 ^ 22 / 4096 = v % 2 ^ 22 / 4096 by omega]

theorem directory_page {directory i j : ℕ} (hd : directory % pageSize = 0) (hi : i < pageDirEntries)
    (h₁ : directory + 4 * i ≤ j) (h₂ : j < directory + 4 * i + 4) : pageOf j = pageOf directory := by
  refine pageOf_window hd (by omega) ?_
  unfold pageDirEntries at hi
  unfold pageSize
  omega

theorem present_congr {directory : ℕ} (hp : Present m directory) (hd : directory % pageSize = 0)
    (hb : ∀ i, pageOf i = pageOf directory → m' i = m i) : Present m' directory := by
  intro i hi
  rw [ByteMemory.load32_congr (fun k h₁ h₂ ↦ hb k (directory_page hd hi h₁ h₂))]
  exact hp i hi

theorem Holds.present_congr (h : Holds m S) (hp : Present m S.directory)
    (hb : ∀ i, pageOf i = pageOf S.directory → m' i = m i) : Present m' S.directory :=
  Paging.present_congr hp h.sound.directory_aligned hb

theorem Holds.present_store (h : Holds m S) (hp : Present m S.directory) (hv : v < 2 ^ 32) :
    Present (m.store32 (S.slot v) val) S.directory := by
  refine h.present_congr hp (fun i hi ↦ h.store_outside hv (fun k hk he ↦ ?_))
  exact (h.sound.table_ne k hk).2.2
    (pageOf_inj (h.sound.table_aligned k hk) h.sound.directory_aligned (he.symm.trans hi))

theorem Holds.pageWalk_frame (h : Holds m S) (hp : Present m S.directory)
    (hb : ∀ r ∈ S.runs, ∀ i, pageOf i ∈ r → m' i = m i) (hv : v < 2 ^ 32) :
    pageWalk m' S.directory v = pageWalk m S.directory v := by
  obtain ⟨h', he⟩ := h.frame hb
  have hp' := h.present_congr hp (fun i hi ↦ hb _ Space.directory_run i (mem_pageRun.mpr hi))
  rw [h'.pageWalk_eq hp' hv, h.pageWalk_eq hp hv, he v hv]

theorem Holds.pageWalk_store (h : Holds m S) (hp : Present m S.directory) (hv : v < 2 ^ 32)
    (hw : w < 2 ^ 32) (hwa : w % pageSize = 0) (hval : val < 2 ^ 32) :
    pageWalk (m.store32 (S.slot w) val) S.directory v =
      if pageOf v = pageOf w then leafOf val v else pageWalk m S.directory v := by
  have hpage : v / pageSize * pageSize < 2 ^ 32 := Nat.lt_of_le_of_lt (Nat.div_mul_le_self v _) hv
  have hstore : entries (m.store32 (S.slot w) val) S (v / pageSize * pageSize) = _ :=
    h.entries_store hw hpage hwa (Nat.mul_mod_left _ _) hval
  rw [entries, entries, Space.slot_page] at hstore
  rw [(h.store hw).pageWalk_eq (h.present_store hp hw) hv, h.pageWalk_eq hp hv, entries, hstore]
  have hiff : v / pageSize * pageSize = w ↔ pageOf v = pageOf w := by
    unfold pageOf
    unfold pageSize at *
    omega
  by_cases he : pageOf v = pageOf w
  · rw [if_pos he, if_pos (hiff.mpr he)]
  · rw [if_neg he, if_neg (fun hc ↦ he (hiff.mp hc)), entries]

theorem leafOf_page {flags : ℕ} (hw : w % pageSize = 0) (hlt : w + pageSize ≤ 2 ^ 32)
    (hfl : flags < pageSize) (hp : flags &&& pagePresent ≠ 0) :
    leafOf (w ||| flags) v = some (w + v % pageSize) := by
  have hflag : (w ||| flags) &&& pagePresent ≠ 0 := by
    rwa [flag_of_page hw (by decide)]
  rw [leafOf, if_neg hflag, mask_entry hw hlt hfl]

theorem Holds.pageWalk_identity (h : Holds m S) (hp : Present m S.directory) {flags : ℕ}
    (hfl : flags < pageSize) (hf : flags &&& pagePresent ≠ 0)
    (he : ∀ v < 2 ^ 32, v % pageSize = 0 → entries m S v = v ||| flags) (hv : v < 2 ^ 32) :
    pageWalk m S.directory v = some v := by
  have hpage : v / pageSize * pageSize + pageSize ≤ 2 ^ 32 := by
    unfold pageSize
    omega
  have hent := he (v / pageSize * pageSize)
    (Nat.lt_of_lt_of_le (Nat.lt_add_of_pos_right (by decide)) hpage) (Nat.mul_mod_left _ _)
  rw [entries, Space.slot_page] at hent
  rw [h.pageWalk_eq hp hv, entries, hent, leafOf_page (Nat.mul_mod_left _ _) hpage hfl hf,
    Nat.div_add_mod']

section Created

variable {σ : Type} [Allocator σ] {s s' : Arena σ} {directory flags pd p i : ℕ}

theorem newTables_present [LawfulAllocator σ] (hd : directory % pageSize = 0) (hfl : flags < 2 ^ 8)
    (hf : flags &&& pagePresent ≠ 0) : ∀ n k (s s' : Arena σ), k + n = pageDirEntries →
      pageRun directory ∈ s.live → newTables directory flags n k s = .ok ((), s') →
        ∀ i, k ≤ i → i < pageDirEntries → s'.mem.load32 (directory + 4 * i) &&& pagePresent ≠ 0 := by
  intro n
  induction n with
  | zero =>
    intro k s s' hk _ _ i h₁ h₂
    omega
  | succ n ih =>
    intro k s s' hk hdir h i h₁ h₂
    obtain ⟨p, s₁, hp, h⟩ := Program.bind_eq_ok.mp h
    obtain ⟨_, s₂, hs₂, h⟩ := Program.bind_eq_ok.mp h
    obtain ⟨hp, hp0⟩ := kzallocUnchecked_eq_ok.mp hp
    obtain ⟨hal, hin, hlive, -⟩ := granted_page (kzalloc_granted hp hp0) blocksOf_table
    have hdir₁ : pageRun directory ∈ s₁.live := by
      rw [hlive]
      exact List.mem_cons_of_mem _ hdir
    obtain rfl := onMem_eq_ok.mp hs₂
    have hrest := ih (k + 1) ⟨s₁.heap, newTableMem directory flags k p s₁.mem⟩ s' (by omega) hdir₁ h
    rcases Nat.eq_or_lt_of_le h₁ with rfl | hlt
    · -- the rest of the loop keeps the entry of this turn
      obtain ⟨t, ht⟩ := newTables_made hd hfl n (k + 1)
        ⟨s₁.heap, newTableMem directory flags k p s₁.mem⟩ s' (by omega) hdir₁ h
      have hflags : flags ||| pageWriteAccess < pageSize :=
        Nat.lt_trans (Nat.or_lt_two_pow hfl (by decide)) (by decide)
      have hval : p ||| flags ||| pageWriteAccess < 2 ^ 32 := by
        rw [Nat.or_assoc, or_eq_add hal hflags]
        omega
      rw [ByteMemory.load32_congr (fun j hj₁ hj₂ ↦ ht.bytes j
        ⟨_, hdir₁, mem_pageRun.mpr (directory_page hd h₂ hj₁ hj₂)⟩ (by omega))]
      change ((newTableMem directory flags k p s₁.mem).load32 (directory + 4 * k)) &&& _ ≠ 0
      rw [newTableMem, ByteMemory.load32_store32_self hval, Nat.or_assoc,
        flag_of_page hal (by decide), Nat.and_or_distrib_right]
      exact fun hc ↦ hf (Nat.or_eq_zero_iff.mp hc).1
    · exact hrest i hlt h₂

theorem newPageDirectory_present [LawfulAllocator σ] (hfl : flags < 2 ^ 8)
    (hf : flags &&& pagePresent ≠ 0) (h : newPageDirectory flags s = .ok (pd, s')) :
    Present s'.mem (s'.mem.load32 pd) := by
  obtain ⟨directory, s₁, s₂, s₃, ⟨h₁, hd⟩, h₂, ⟨h₃, hq⟩, rfl⟩ := newPageDirectory_cases h
  obtain ⟨hdal, hdin, hl₁, -⟩ := granted_page (kzalloc_granted h₁ hd) (by decide)
  obtain ⟨hpal, -, -, hf₃, ho₃⟩ := granted_page (kzalloc_granted h₃ hq) (by decide)
  have hdl : pageRun directory ∈ s₁.live := by
    rw [hl₁]
    exact List.mem_cons_self
  obtain ⟨t, ht⟩ := newTables_made hdal hfl pageDirEntries 0 s₁ s₂ (Nat.zero_add _) hdl h₂
  have hne : pageOf directory ≠ pageOf pd := (pageRun_apart.mp (hf₃ _ (ht.live _ hdl))).symm
  have hpres : Present s₂.mem directory := fun i hi ↦
    newTables_present hdal hfl hf pageDirEntries 0 s₁ s₂ (Nat.zero_add _) hdl h₂ i (Nat.zero_le i) hi
  change Present (s₃.mem.store32 pd directory) ((s₃.mem.store32 pd directory).load32 pd)
  rw [ByteMemory.load32_store32_self (by unfold pageSize at hdin; omega)]
  refine present_congr hpres hdal (fun i hi ↦ ?_)
  rw [store32_page hpal (hi ▸ hne), ho₃ i (hi ▸ hne)]

theorem createVirtualAddressSpace_present [LawfulAllocator σ] (hfl : flags < 2 ^ 8)
    (hf : flags &&& pagePresent ≠ 0) (h : createVirtualAddressSpace flags s = .ok (p, s')) :
    Present s'.mem (s'.mem.load32 (s'.mem.load32 p)) := by
  obtain ⟨pd, s₁, s₂, ⟨h₁, hp⟩, h₂, rfl⟩ := createVirtualAddressSpace_cases h
  obtain ⟨hpal, -, hl₁, -⟩ := granted_page (kzalloc_granted h₁ hp) (by decide)
  have hpl : pageRun p ∈ s₁.live := by
    rw [hl₁]
    exact List.mem_cons_self
  have hpres := newPageDirectory_present hfl hf h₂
  obtain ⟨directory, t, hd⟩ := newPageDirectory_made hfl h₂
  have hpd : pageOf pd ≠ pageOf p := pageRun_apart.mp (hd.fresh _ hpl).1
  have hdir : pageOf directory ≠ pageOf p := pageRun_apart.mp (hd.fresh _ hpl).2
  have hload : (s₂.mem.store32 p pd).load32 pd = directory := by
    refine (ByteMemory.load32_congr (fun i h₁ h₂ ↦ store32_page hpal ?_)).trans hd.directory_eq
    rw [pageOf_window hd.pd_aligned h₁ (by unfold pageSize; omega)]
    exact hpd
  change Present (s₂.mem.store32 p pd) ((s₂.mem.store32 p pd).load32 ((s₂.mem.store32 p pd).load32 p))
  rw [ByteMemory.load32_store32_self hd.pd_lt, hload]
  rw [hd.directory_eq] at hpres
  exact present_congr hpres hd.directory_aligned (fun i hi ↦ store32_page hpal (hi ▸ hdir))

end Created

end GammaOS.Paging
