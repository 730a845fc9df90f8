import GammaOS.Paging.AddressSpace

namespace GammaOS.Paging

open Foundation Memory

theorem or_eq_add {a b : ℕ} (ha : a % pageSize = 0) (hb : b < pageSize) : a ||| b = a + b := by
  have h : a = 2 ^ 12 * (a / 2 ^ 12) := by
    unfold pageSize at ha
    omega
  rw [h, Nat.two_pow_add_eq_or_of_lt hb]

theorem and_mask {a : ℕ} (ha : a < 2 ^ 32) : a &&& 0xfffff000 = a / pageSize * pageSize := by
  have hm : 0xfffff000 = (2 ^ 20 - 1) <<< 12 := by decide
  have hr : a / pageSize * pageSize = (a >>> 12) <<< 12 := by
    rw [Nat.shiftLeft_eq, Nat.shiftRight_eq_div_pow]
    rfl
  rw [hr, hm]
  apply Nat.eq_of_testBit_eq
  intro i
  simp only [Nat.testBit_and, Nat.testBit_shiftLeft, Nat.testBit_shiftRight,
    Nat.testBit_two_pow_sub_one]
  by_cases hi : 12 ≤ i
  · by_cases hi' : i - 12 < 20
    · simp [hi, hi']
    · have hlt : a < 2 ^ i := Nat.lt_of_lt_of_le ha (Nat.pow_le_pow_right (by decide) (by omega))
      simp [hi', Nat.testBit_lt_two_pow hlt, Nat.add_sub_cancel' hi]
  · simp [hi]

theorem mask_entry {p f : ℕ} (hp : p % pageSize = 0) (hlt : p + pageSize ≤ 2 ^ 32)
    (hf : f < pageSize) : (p ||| f) &&& 0xfffff000 = p := by
  rw [or_eq_add hp hf]
  unfold pageSize at *
  rw [and_mask (by omega)]
  unfold pageSize
  omega

theorem fillTable_outside (table offset flags : ℕ) :
    ∀ n k (m : ByteMemory) i, i < table + 4 * k ∨ table + 4 * (k + n) ≤ i →
      fillTable table offset flags n k m i = m i := by
  intro n
  induction n with
  | zero => intros; rfl
  | succ n ih =>
    intro k m i hi
    rw [fillTable, ih _ _ _ (by omega), ByteMemory.store32_outside (by omega)]

theorem fillTable_entry {table offset flags : ℕ} (ho : offset + 2 ^ 22 ≤ 2 ^ 32)
    (hf : flags < 2 ^ 32) : ∀ n k (m : ByteMemory), k + n ≤ pageTableEntries →
      ∀ j, k ≤ j → j < k + n →
        (fillTable table offset flags n k m).load32 (table + 4 * j) =
          (offset + j * pageSize) ||| flags := by
  intro n
  induction n with
  | zero => intro k m _ j h₁ h₂; omega
  | succ n ih =>
    intro k m hk j h₁ h₂
    rw [fillTable]
    by_cases hj : j = k
    · subst hj
      have hlt : (offset + j * pageSize) ||| flags < 2 ^ 32 := by
        unfold pageTableEntries at hk
        unfold pageSize
        exact Nat.or_lt_two_pow (by omega) hf
      rw [ByteMemory.load32_congr (fun i _ _ ↦ fillTable_outside _ _ _ _ _ _ i (by omega)),
        ByteMemory.load32_store32_self hlt]
    · exact ih (k + 1) _ (by omega) j (by omega) (by omega)

variable {σ : Type}

theorem onMem_eq_ok {f : ByteMemory → ByteMemory} {s s' : Arena σ} {u : Unit} :
    onMem f s = .ok (u, s') ↔ s' = { s with mem := f s.mem } := by
  constructor
  · intro h
    cases h
    rfl
  · rintro rfl
    rfl

theorem blocksOf_table : blocksOf (u32 (4 * pageTableEntries)) = 1 := by decide

def pageRun (p : ℕ) : Run := ⟨pageOf p, 1⟩

theorem mem_pageRun {p i : ℕ} : i ∈ pageRun p ↔ i = pageOf p := by
  rw [pageRun, Run.mem_mk]
  omega

theorem pageRun_apart {p q : ℕ} : (pageRun p).Apart (pageRun q) ↔ pageOf p ≠ pageOf q := by
  constructor
  · intro h he
    exact h (pageOf p) (mem_pageRun.mpr rfl) (mem_pageRun.mpr he)
  · intro h i hi hj
    exact h ((mem_pageRun.mp hi).symm.trans (mem_pageRun.mp hj))

theorem pageOf_window {p i : ℕ} (hp : p % pageSize = 0) (h₁ : p ≤ i) (h₂ : i < p + pageSize) :
    pageOf i = pageOf p := by
  unfold pageOf
  unfold pageSize at *
  omega

theorem newTableMem_outside {m : ByteMemory} {directory flags k p i : ℕ}
    (h₁ : i < p ∨ p + pageSize ≤ i)
    (h₂ : i < directory + 4 * k ∨ directory + 4 * k + 4 ≤ i) :
    newTableMem directory flags k p m i = m i := by
  unfold pageSize at h₁
  rw [newTableMem, ByteMemory.store32_outside h₂,
    fillTable_outside _ _ _ _ _ _ _ (by unfold pageTableEntries; omega)]

variable [Allocator σ]

def Holding (s : Arena σ) (i : ℕ) : Prop := ∃ r ∈ s.live, pageOf i ∈ r

/-- Entry `i` of the directory leads to the table `t`, fresh since `s`, which
maps its addresses to themselves. -/
structure TableAt (s s' : Arena σ) (directory flags i t : ℕ) : Prop where
  aligned : t % pageSize = 0
  inside : t + pageSize ≤ 2 ^ 32
  table_eq : tableOf s'.mem directory i = t
  entry : ∀ j < pageTableEntries,
    s'.mem.load32 (t + 4 * j) = (i * 2 ^ 22 + j * pageSize) ||| flags
  live : pageRun t ∈ s'.live
  fresh : ∀ r ∈ s.live, (pageRun t).Apart r

/-- What the loop of `new_page_directory` leaves after making the entries from `k` on. -/
structure TablesMade (s s' : Arena σ) (directory flags k : ℕ) (t : ℕ → ℕ) : Prop where
  live : ∀ r ∈ s.live, r ∈ s'.live
  bytes : ∀ i, Holding s i → i < directory + 4 * k ∨ directory + pageSize ≤ i → s'.mem i = s.mem i
  table : ∀ i, k ≤ i → i < pageDirEntries → TableAt s s' directory flags i (t i)
  distinct : ∀ i j, k ≤ i → i < j → j < pageDirEntries → t i ≠ t j

section NewTable

variable {s s₁ : Arena σ} {directory flags k p : ℕ}

theorem granted_page {n : ℕ} (g : Granted s n p s₁) (hn : blocksOf (u32 n) = 1) :
    p % pageSize = 0 ∧ p + pageSize ≤ 2 ^ 32 ∧ s₁.live = pageRun p :: s.live ∧
      (∀ r ∈ s.live, (pageRun p).Apart r) ∧ ∀ i, pageOf i ≠ pageOf p → s₁.mem i = s.mem i := by
  have hl := g.live_eq
  have ha := g.apart
  have hi := g.inside
  have hle := lt_blocksOf (u32 n)
  rw [hn] at hl ha hi hle
  refine ⟨g.aligned, hi, hl, ha, fun i hne ↦ g.outside i ?_⟩
  by_contra hc
  exact hne (pageOf_window g.aligned (by omega) (by omega))

theorem newTable_bytes (g : Granted s (4 * pageTableEntries) p s₁) {i : ℕ} (hi : Holding s i)
    (hw : i < directory + 4 * k ∨ directory + 4 * k + 4 ≤ i) :
    newTableMem directory flags k p s₁.mem i = s.mem i := by
  obtain ⟨hal, -, -, hap, hout⟩ := granted_page g blocksOf_table
  have hne : pageOf i ≠ pageOf p := by
    obtain ⟨r, hr, hir⟩ := hi
    exact fun he ↦ hap r hr _ (mem_pageRun.mpr he) hir
  rw [newTableMem_outside ?_ hw, hout i hne]
  by_contra hc
  exact hne (pageOf_window hal (by omega) (by omega))

theorem newTable_tableAt (g : Granted s (4 * pageTableEntries) p s₁) (hk : k < pageDirEntries)
    (hd : directory % pageSize = 0) (hdir : pageRun directory ∈ s.live) (hfl : flags < 2 ^ 8) :
    TableAt s ⟨s₁.heap, newTableMem directory flags k p s₁.mem⟩ directory flags k p := by
  obtain ⟨hal, hin, hlive, hap, hout⟩ := granted_page g blocksOf_table
  have hne : pageOf p ≠ pageOf directory := pageRun_apart.mp (hap _ hdir)
  have hval : p ||| flags ||| pageWriteAccess = p ||| (flags ||| pageWriteAccess) :=
    Nat.or_assoc _ _ _
  have hf : flags ||| pageWriteAccess < pageSize :=
    Nat.lt_trans (Nat.or_lt_two_pow hfl (by decide)) (by decide)
  have hlt : p ||| (flags ||| pageWriteAccess) < 2 ^ 32 := by
    rw [or_eq_add hal hf]
    omega
  refine ⟨hal, hin, ?_, fun j hj ↦ ?_, ?_, hap⟩
  · rw [tableOf, newTableMem, hval, ByteMemory.load32_store32_self hlt, mask_entry hal hin hf]
  · have hoff : k * (pageTableEntries * pageSize) + 2 ^ 22 ≤ 2 ^ 32 := by
      unfold pageTableEntries pageSize
      unfold pageDirEntries at hk
      omega
    have hfill := @fillTable_entry p _ _ hoff (Nat.lt_trans hfl (by decide))
      pageTableEntries 0 s₁.mem (by omega) j (by omega) (by omega)
    rw [newTableMem, ByteMemory.load32_store32_other, hfill]
    · unfold pageTableEntries pageSize
      rfl
    · unfold pageOf at hne
      unfold pageTableEntries at hj
      unfold pageDirEntries at hk
      unfold pageSize at *
      omega
  · show pageRun p ∈ s₁.live
    rw [hlive]
    exact List.mem_cons_self

end NewTable

theorem TableAt.persist {s s₁ s' : Arena σ} {directory flags k p : ℕ} {t : ℕ → ℕ}
    (h : TableAt s s₁ directory flags k p) (hk : k < pageDirEntries)
    (hd : directory % pageSize = 0) (hdir : pageRun directory ∈ s₁.live)
    (hne : pageOf p ≠ pageOf directory)
    (ht : TablesMade s₁ s' directory flags (k + 1) t) : TableAt s s' directory flags k p := by
  have hwin : ∀ {q i : ℕ}, q % pageSize = 0 → pageRun q ∈ s₁.live → q ≤ i → i < q + pageSize →
      Holding s₁ i := fun hq hr h₁ h₂ ↦ ⟨_, hr, mem_pageRun.mpr (pageOf_window hq h₁ h₂)⟩
  have hal := h.aligned
  unfold pageDirEntries at hk
  refine ⟨h.aligned, h.inside, ?_, fun j hj ↦ ?_, ht.live _ h.live, h.fresh⟩
  · rw [← h.table_eq, tableOf, tableOf]
    rw [ByteMemory.load32_congr (fun i h₁ h₂ ↦ ht.bytes i
      (hwin hd hdir (by omega) (by unfold pageSize; omega)) (Or.inl (by omega)))]
  · rw [← h.entry j hj]
    unfold pageTableEntries at hj
    refine ByteMemory.load32_congr (fun i h₁ h₂ ↦ ht.bytes i
      (hwin h.aligned h.live (by omega) (by unfold pageSize; omega)) ?_)
    unfold pageOf at hne
    unfold pageSize at *
    omega

theorem newTables_made [LawfulAllocator σ] {directory flags : ℕ} (hd : directory % pageSize = 0)
    (hfl : flags < 2 ^ 8) :
    ∀ n k (s s' : Arena σ), k + n = pageDirEntries → pageRun directory ∈ s.live →
      newTables directory flags n k s = .ok ((), s') →
        ∃ t, TablesMade s s' directory flags k t := by
  intro n
  induction n with
  | zero =>
    intro k s s' hk _ h
    cases h
    exact ⟨fun _ ↦ 0, fun _ hr ↦ hr, fun _ _ _ ↦ rfl, fun i h₁ h₂ ↦ by omega,
      fun i j h₁ h₂ h₃ ↦ by omega⟩
  | succ n ih =>
    intro k s s' hk hdir h
    obtain ⟨p, s₁, h₁, h⟩ := Program.bind_eq_ok.mp h
    obtain ⟨_, s₂, h₂, h⟩ := Program.bind_eq_ok.mp h
    obtain ⟨h₁, hp⟩ := kzallocUnchecked_eq_ok.mp h₁
    have g := kzalloc_granted h₁ hp
    obtain rfl := onMem_eq_ok.mp h₂
    obtain ⟨hal, hin, hlive, hap, hout⟩ := granted_page g blocksOf_table
    have hlive₃ : ∀ r ∈ s.live,
        r ∈ (⟨s₁.heap, newTableMem directory flags k p s₁.mem⟩ : Arena σ).live := by
      intro r hr
      show r ∈ s₁.live
      rw [hlive]
      exact List.mem_cons_of_mem _ hr
    obtain ⟨t, ht⟩ := ih (k + 1) ⟨s₁.heap, newTableMem directory flags k p s₁.mem⟩ s' (by omega)
      (hlive₃ _ hdir) h
    have hTable := newTable_tableAt (k := k) g (by omega) hd hdir hfl
    have hne : pageOf p ≠ pageOf directory := pageRun_apart.mp (hap _ hdir)
    refine ⟨fun i ↦ if i = k then p else t i, fun r hr ↦ ht.live r (hlive₃ r hr), ?_, ?_, ?_⟩
    · rintro i ⟨r, hr, hir⟩ hw
      rw [ht.bytes i ⟨r, hlive₃ r hr, hir⟩ (by omega)]
      refine newTable_bytes g ⟨r, hr, hir⟩ ?_
      unfold pageDirEntries at hk
      unfold pageSize at hw
      omega
    · intro i hi hi'
      by_cases hik : i = k
      · subst hik
        simp only [if_true]
        exact hTable.persist hi' hd (hlive₃ _ hdir) hne ht
      · simp only [if_neg hik]
        have := ht.table i (by omega) hi'
        exact ⟨this.aligned, this.inside, this.table_eq, this.entry, this.live,
          fun r hr ↦ this.fresh r (hlive₃ r hr)⟩
    · intro i j hi hij hj
      by_cases hik : i = k
      · subst hik
        simp only [if_true, if_neg (show ¬ j = i by omega)]
        intro he
        exact pageRun_apart.mp ((ht.table j (by omega) hj).fresh _ hTable.live) (by rw [he])
      · simp only [if_neg hik, if_neg (show ¬ j = k by omega)]
        exact ht.distinct i j (by omega) hij hj

def Space.runs (S : Space) : List Run :=
  pageRun S.vspace :: pageRun S.pd :: pageRun S.directory ::
    (List.range pageDirEntries).map (fun i ↦ pageRun (S.table i))

/-- What `create_virtual_address_space` makes: a space that maps every page to
itself, on fresh pages. -/
structure SpaceMade (s s' : Arena σ) (flags : ℕ) (S : Space) : Prop where
  holds : Holds s'.mem S
  identity : ∀ v < 2 ^ 32, v % pageSize = 0 → entries s'.mem S v = v ||| flags
  kept : ∀ r ∈ s.live, Kept r s s'
  runs_live : ∀ r ∈ S.runs, r ∈ s'.live
  runs_fresh : ∀ r ∈ S.runs, ∀ q ∈ s.live, r.Apart q

theorem Space.runs_forall {S : Space} {P : Run → Prop} (h₁ : P (pageRun S.vspace))
    (h₂ : P (pageRun S.pd)) (h₃ : P (pageRun S.directory))
    (h₄ : ∀ i < pageDirEntries, P (pageRun (S.table i))) : ∀ r ∈ S.runs, P r := by
  intro r hr
  simp only [Space.runs, List.mem_cons, List.mem_map, List.mem_range] at hr
  rcases hr with rfl | rfl | rfl | ⟨i, hi, rfl⟩
  · exact h₁
  · exact h₂
  · exact h₃
  · exact h₄ i hi

theorem store32_page {m : ByteMemory} {p v i : ℕ} (hp : p % pageSize = 0)
    (hi : pageOf i ≠ pageOf p) : m.store32 p v i = m i := by
  refine ByteMemory.store32_outside ?_
  by_contra hc
  exact hi (pageOf_window hp (by omega) (by unfold pageSize; omega))

structure DirectoryMade (s s' : Arena σ) (flags pd directory : ℕ) (t : ℕ → ℕ) : Prop where
  pd_aligned : pd % pageSize = 0
  directory_aligned : directory % pageSize = 0
  directory_eq : s'.mem.load32 pd = directory
  pd_lt : pd < 2 ^ 32
  table : ∀ i < pageDirEntries, TableAt s s' directory flags i (t i)
  table_ne : ∀ i < pageDirEntries, pageOf (t i) ≠ pageOf pd ∧ pageOf (t i) ≠ pageOf directory
  distinct : ∀ i j, i < j → j < pageDirEntries → t i ≠ t j
  kept : ∀ r ∈ s.live, Kept r s s'
  live : pageRun pd ∈ s'.live ∧ pageRun directory ∈ s'.live
  fresh : ∀ r ∈ s.live, (pageRun pd).Apart r ∧ (pageRun directory).Apart r

theorem TableAt.congr {s₀ s u : Arena σ} {directory flags i t : ℕ}
    (h : TableAt s₀ s directory flags i t) (hi : i < pageDirEntries) (hd : directory % pageSize = 0)
    (hlive : ∀ r ∈ s.live, r ∈ u.live)
    (hbytes : ∀ j, pageOf j = pageOf t ∨ pageOf j = pageOf directory → u.mem j = s.mem j) :
    TableAt s₀ u directory flags i t := by
  have hal := h.aligned
  unfold pageOf at hbytes
  unfold pageDirEntries at hi
  refine ⟨h.aligned, h.inside, ?_, fun j hj ↦ ?_, hlive _ h.live, h.fresh⟩
  · rw [← h.table_eq, tableOf, tableOf]
    unfold pageSize at hd hbytes
    rw [ByteMemory.load32_congr (fun j h₁ h₂ ↦ hbytes j (Or.inr (by omega)))]
  · rw [← h.entry j hj]
    unfold pageTableEntries at hj
    unfold pageSize at hal hbytes
    exact ByteMemory.load32_congr (fun k h₁ h₂ ↦ hbytes k (Or.inl (by omega)))

theorem apart_page {r : Run} {p i : ℕ} (h : (pageRun p).Apart r) (hi : pageOf i ∈ r) :
    pageOf i ≠ pageOf p :=
  fun he ↦ h _ (mem_pageRun.mpr he) hi

theorem newPageDirectory_cases {flags pd : ℕ} {s s' : Arena σ}
    (h : newPageDirectory flags s = .ok (pd, s')) :
    ∃ directory s₁ s₂ s₃, (kzalloc (4 * pageDirEntries) s = .ok (directory, s₁) ∧ directory ≠ 0) ∧
      newTables directory flags pageDirEntries 0 s₁ = .ok ((), s₂) ∧
      (kzalloc 4 s₂ = .ok (pd, s₃) ∧ pd ≠ 0) ∧
      s' = { s₃ with mem := s₃.mem.store32 pd directory } := by
  obtain ⟨directory, s₁, h₁, h⟩ := Program.bind_eq_ok.mp h
  obtain ⟨_, s₂, h₂, h⟩ := Program.bind_eq_ok.mp h
  obtain ⟨q, s₃, h₃, h⟩ := Program.bind_eq_ok.mp h
  obtain ⟨_, s₄, h₄, h⟩ := Program.bind_eq_ok.mp h
  cases h
  exact ⟨directory, s₁, s₂, s₃, kzallocUnchecked_eq_ok.mp h₁, h₂, kzallocUnchecked_eq_ok.mp h₃,
    onMem_eq_ok.mp h₄⟩

theorem newPageDirectory_made [LawfulAllocator σ] {flags pd : ℕ} {s s' : Arena σ}
    (hfl : flags < 2 ^ 8) (h : newPageDirectory flags s = .ok (pd, s')) :
    ∃ directory t, DirectoryMade s s' flags pd directory t := by
  obtain ⟨directory, s₁, s₂, s₃, ⟨h₁, hd⟩, h₂, ⟨h₃, hq⟩, rfl⟩ := newPageDirectory_cases h
  obtain ⟨hdal, hdin, hl₁, hf₁, ho₁⟩ := granted_page (kzalloc_granted h₁ hd) (by decide)
  obtain ⟨hpal, hpin, hl₃, hf₃, ho₃⟩ := granted_page (kzalloc_granted h₃ hq) (by decide)
  have hdl : pageRun directory ∈ s₁.live := by
    rw [hl₁]
    exact List.mem_cons_self
  have hsub₁ : ∀ r ∈ s.live, r ∈ s₁.live := by
    intro r hr
    rw [hl₁]
    exact List.mem_cons_of_mem _ hr
  have hsub₃ : ∀ r ∈ s₂.live, r ∈ s₃.live := by
    intro r hr
    rw [hl₃]
    exact List.mem_cons_of_mem _ hr
  obtain ⟨t, ht⟩ := newTables_made hdal hfl pageDirEntries 0 s₁ s₂ (Nat.zero_add _) hdl h₂
  have hout : ∀ i, pageOf i ≠ pageOf pd → s₃.mem.store32 pd directory i = s₂.mem i := by
    intro i hi
    rw [store32_page hpal hi, ho₃ i hi]
  have hdirne : pageOf directory ≠ pageOf pd := (pageRun_apart.mp (hf₃ _ (ht.live _ hdl))).symm
  have htne : ∀ i < pageDirEntries, pageOf (t i) ≠ pageOf pd := fun i hi ↦
    (pageRun_apart.mp (hf₃ _ (ht.table i (Nat.zero_le _) hi).live)).symm
  refine ⟨directory, t, hpal, hdal, ?_, ?_, fun i hi ↦ ?_, fun i hi ↦ ⟨htne i hi, ?_⟩, ?_, ?_, ?_, ?_⟩
  · exact ByteMemory.load32_store32_self (by unfold pageSize at hdin; omega)
  · unfold pageSize at hpin
    omega
  · have hti := ht.table i (Nat.zero_le _) hi
    have hti' := hti.congr (u := ⟨s₃.heap, s₃.mem.store32 pd directory⟩) hi hdal hsub₃ (by
      rintro j (hj | hj)
      · exact hout j (hj ▸ htne i hi)
      · exact hout j (hj ▸ hdirne))
    exact ⟨hti'.aligned, hti'.inside, hti'.table_eq, hti'.entry, hti'.live,
      fun r hr ↦ hti.fresh r (hsub₁ r hr)⟩
  · exact pageRun_apart.mp ((ht.table i (Nat.zero_le _) hi).fresh _ hdl)
  · exact fun i j hij hj ↦ ht.distinct i j (Nat.zero_le _) hij hj
  · intro r hr
    refine ⟨hsub₃ r (ht.live r (hsub₁ r hr)), fun i hi ↦ ?_⟩
    have hi₁ : pageOf i ≠ pageOf directory := apart_page (hf₁ r hr) hi
    show s₃.mem.store32 pd directory i = s.mem i
    rw [hout i (apart_page (hf₃ r (ht.live r (hsub₁ r hr))) hi),
      ht.bytes i ⟨r, hsub₁ r hr, hi⟩ ?_, ho₁ i hi₁]
    by_contra hc
    exact hi₁ (pageOf_window hdal (by omega) (by omega))
  · refine ⟨?_, hsub₃ _ (ht.live _ hdl)⟩
    show pageRun pd ∈ s₃.live
    rw [hl₃]
    exact List.mem_cons_self
  · exact fun r hr ↦ ⟨hf₃ r (ht.live r (hsub₁ r hr)), hf₁ r hr⟩

theorem entry_value {v flags : ℕ} (ha : v % pageSize = 0) :
    (v / 2 ^ 22 * 2 ^ 22 + v % 2 ^ 22 / pageSize * pageSize) ||| flags = v ||| flags := by
  have : v / 2 ^ 22 * 2 ^ 22 + v % 2 ^ 22 / pageSize * pageSize = v := by
    unfold pageSize at *
    omega
  rw [this]

theorem createVirtualAddressSpace_cases {flags p : ℕ} {s s' : Arena σ}
    (h : createVirtualAddressSpace flags s = .ok (p, s')) :
    ∃ pd s₁ s₂, (kzalloc 4 s = .ok (p, s₁) ∧ p ≠ 0) ∧ newPageDirectory flags s₁ = .ok (pd, s₂) ∧
      s' = { s₂ with mem := s₂.mem.store32 p pd } := by
  obtain ⟨q, s₁, h₁, h⟩ := Program.bind_eq_ok.mp h
  obtain ⟨pd, s₂, h₂, h⟩ := Program.bind_eq_ok.mp h
  obtain ⟨_, s₃, h₃, h⟩ := Program.bind_eq_ok.mp h
  cases h
  exact ⟨pd, s₁, s₂, kzallocUnchecked_eq_ok.mp h₁, h₂, onMem_eq_ok.mp h₃⟩

theorem createVirtualAddressSpace_made [LawfulAllocator σ] {flags p : ℕ} {s s' : Arena σ}
    (hfl : flags < 2 ^ 8) (h : createVirtualAddressSpace flags s = .ok (p, s')) :
    ∃ S : Space, S.vspace = p ∧ SpaceMade s s' flags S := by
  obtain ⟨pd, s₁, s₂, ⟨h₁, hp⟩, h₂, rfl⟩ := createVirtualAddressSpace_cases h
  obtain ⟨hpal, hpin, hl₁, hf₁, ho₁⟩ := granted_page (kzalloc_granted h₁ hp) (by decide)
  obtain ⟨directory, t, hd⟩ := newPageDirectory_made hfl h₂
  have hpl : pageRun p ∈ s₁.live := by
    rw [hl₁]
    exact List.mem_cons_self
  have hsub₁ : ∀ r ∈ s.live, r ∈ s₁.live := by
    intro r hr
    rw [hl₁]
    exact List.mem_cons_of_mem _ hr
  have hpd : pageOf pd ≠ pageOf p := pageRun_apart.mp (hd.fresh _ hpl).1
  have hdir : pageOf directory ≠ pageOf p := pageRun_apart.mp (hd.fresh _ hpl).2
  have htab : ∀ i < pageDirEntries, pageOf (t i) ≠ pageOf p := fun i hi ↦
    pageRun_apart.mp ((hd.table i hi).fresh _ hpl)
  have hout : ∀ i, pageOf i ≠ pageOf p → s₂.mem.store32 p pd i = s₂.mem i :=
    fun i hi ↦ store32_page hpal hi
  have hkeep : ∀ i < pageDirEntries,
      TableAt s₁ ⟨s₂.heap, s₂.mem.store32 p pd⟩ directory flags i (t i) := fun i hi ↦
    (hd.table i hi).congr hi hd.directory_aligned (fun _ hr ↦ hr) (by
      rintro j (hj | hj)
      · exact hout j (hj ▸ htab i hi)
      · exact hout j (hj ▸ hdir))
  have hinj : ∀ i < pageDirEntries, ∀ j < pageDirEntries, t i = t j → i = j := by
    intro i hi j hj he
    by_contra hne
    rcases Nat.lt_or_gt_of_ne hne with hlt | hgt
    · exact hd.distinct i j hlt hj he
    · exact hd.distinct j i hgt hi he.symm
  let S : Space := ⟨p, pd, directory, t⟩
  have hsound : S.Sound :=
    ⟨hpal, hd.pd_aligned, hd.directory_aligned, fun i hi ↦ (hkeep i hi).aligned,
      fun i hi ↦ (hkeep i hi).inside, fun i hi ↦ ⟨fun he ↦ htab i hi (congrArg pageOf he),
        fun he ↦ (hd.table_ne i hi).1 (congrArg pageOf he),
        fun he ↦ (hd.table_ne i hi).2 (congrArg pageOf he)⟩, hinj⟩
  refine ⟨S, rfl, ⟨hsound, ?_, ?_, fun i hi ↦ (hkeep i hi).table_eq⟩, ?_, ?_, ?_, ?_⟩
  · exact ByteMemory.load32_store32_self hd.pd_lt
  · refine (ByteMemory.load32_congr
      (fun i (h₁ : pd ≤ i) (h₂ : i < pd + 4) ↦ hout i ?_)).trans hd.directory_eq
    rw [pageOf_window hd.pd_aligned h₁ (by unfold pageSize; omega)]
    exact hpd
  · intro v hv ha
    have hj : v % 2 ^ 22 / pageSize < pageTableEntries := by
      unfold pageSize pageTableEntries
      omega
    rw [← entry_value ha, ← (hkeep _ (dirIndex_lt hv)).entry _ hj]
    rfl
  · intro r hr
    have hk := hd.kept r (hsub₁ r hr)
    refine ⟨hk.live, fun i hi ↦ ?_⟩
    have hne := apart_page (hf₁ r hr) hi
    show s₂.mem.store32 p pd i = s.mem i
    rw [hout i hne, hk.bytes i hi, ho₁ i hne]
  · exact S.runs_forall (hd.kept _ hpl).live hd.live.1 hd.live.2 (fun i hi ↦ (hkeep i hi).live)
  · exact S.runs_forall (fun q hq ↦ hf₁ q hq) (fun q hq ↦ (hd.fresh q (hsub₁ q hq)).1)
      (fun q hq ↦ (hd.fresh q (hsub₁ q hq)).2)
      (fun i hi q hq ↦ (hd.table i hi).fresh q (hsub₁ q hq))

section Room

variable {R : ℕ → Arena σ → Prop}

theorem onMem_room (hR : BlockRoom R) (f : ByteMemory → ByteMemory) (p k : ℕ) :
    Program.Total (fun s ↦ p ≠ 0 ∧ R k s) (onMem f) (fun _ s ↦ p ≠ 0 ∧ R k s) :=
  .modify (fun _ h ↦ ⟨h.1, hR.mem _ h.2⟩)

theorem newTables_room (hR : BlockRoom R) (directory flags k : ℕ) :
    ∀ n i, Program.Total (R (k + n)) (newTables directory flags n i) (fun _ s ↦ R k s) := by
  intro n
  induction n with
  | zero => exact fun i ↦ .pure (fun _ h ↦ h)
  | succ n ih =>
    intro i
    refine (hR.kzallocUnchecked blocksOf_table (k + n)).bind (fun p ↦ ?_)
    exact ((onMem_room hR _ p _).weaken (fun _ h ↦ h) (fun _ _ h ↦ h.2)).bind (fun _ ↦ ih (i + 1))

/-- An address space takes 1027 blocks, one with each request. -/
theorem createVirtualAddressSpace_room (hR : BlockRoom R) (flags k : ℕ) :
    Program.Total (R (k + 1027)) (createVirtualAddressSpace flags) (fun p s ↦ p ≠ 0 ∧ R k s) := by
  have hpd : Program.Total (R (k + 1026)) (newPageDirectory flags) (fun p s ↦ p ≠ 0 ∧ R k s) := by
    refine (hR.kzallocUnchecked (by decide) (k + 1025)).bind (fun directory ↦ ?_)
    refine ((newTables_room hR directory flags (k + 1) pageDirEntries 0).weaken (fun _ h ↦ h.2)
      (fun _ _ h ↦ h)).bind (fun _ ↦ ?_)
    refine (hR.kzallocUnchecked (by decide) k).bind (fun pd ↦ ?_)
    exact (onMem_room hR _ pd k).bind (fun _ ↦ .pure (fun _ h ↦ h))
  refine (hR.kzallocUnchecked (by decide) (k + 1026)).bind (fun vspace ↦ ?_)
  have hpd' : Program.Total (fun s ↦ vspace ≠ 0 ∧ R (k + 1026) s) (newPageDirectory flags)
      (fun _ s ↦ vspace ≠ 0 ∧ R k s) := by
    intro s hs
    obtain ⟨a, t, h, ht⟩ := hpd s hs.2
    exact ⟨a, t, h, hs.1, ht.2⟩
  refine hpd'.bind (fun pd ↦ ?_)
  exact (onMem_room hR _ vspace k).bind (fun _ ↦ .pure (fun _ h ↦ h))

theorem createVirtualAddressSpace_total [RoomyAllocator σ] (flags k : ℕ) :
    Program.Total (Arena.HasRoom (σ := σ) (k + 1027)) (createVirtualAddressSpace flags)
      (fun p s ↦ p ≠ 0 ∧ s.HasRoom k) :=
  createVirtualAddressSpace_room hasRoom_blocks flags k

end Room

end GammaOS.Paging
