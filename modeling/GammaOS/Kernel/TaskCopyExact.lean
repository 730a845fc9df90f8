import GammaOS.Kernel.TaskCopy
import GammaOS.Kernel.UserMalloc
import GammaOS.Memory.KernelHeap
import GammaOS.Paging.SpaceRuns

namespace GammaOS.Kernel

open Function Foundation Foundation.Program ByteMemory Memory Paging Fs Loader

variable {m m₁ : ByteMemory} {S K : Space} {addr addrInKern size n base task : ℕ} {f : ℕ → ℕ}
  {whole : Bool} {δ : Type} {s : KernelState (KHeap whole) δ} {t : Task} {a : Arena (KHeap whole)}

structure BlockApart (addr addrInKern size n base : ℕ) (f : ℕ → ℕ) : Prop where
  page : ∀ i ≤ n, i < size → pageOf (u32 (addr + i)) ≠ pageOf base
  source : ∀ i ≤ n, i < size → pageOf (f i) ≠ pageOf base
  target : ∀ i < n, pageOf (u32 (addrInKern + i)) ≠ pageOf base

/-- They keep clear of the entry of the task for the block, and of the two
address spaces, as well. -/
structure CopyApart (S K : Space) (addr addrInKern size n base : ℕ) (f : ℕ → ℕ) : Prop
    extends BlockApart addr addrInKern size n base f where
  entry : ∀ i ≤ n, i < size → f i < S.slot base ∨ S.slot base + 4 ≤ f i
  task : ∀ i < n, ∀ r ∈ S.runs, pageOf (u32 (addrInKern + i)) ∉ r
  kernel : ∀ i < n, ∀ r ∈ K.runs, pageOf (u32 (addrInKern + i)) ∉ r

/-- The string has arrived, and nothing else has changed but the block, which is
free again. -/
structure CopiedExactly (s s' : KernelState (KHeap false) δ) (S : Space)
    (addrInKern n base : ℕ) (f : ℕ → ℕ) : Prop where
  string : ∀ i < n, s'.arena.mem (u32 (addrInKern + i)) = s.arena.mem (f i)
  rest : ∀ p, pageOf p ≠ pageOf base → (∀ i < n, p ≠ u32 (addrInKern + i)) →
    s'.arena.mem p = s.arena.mem p
  space : S.Unchanged s.arena.mem s'.arena.mem
  heap : s'.arena.heap.heap = s.arena.heap.heap
  directory : s'.currentPageDirectory = s.currentPageDirectory
  others : s' = s.setArena s'.arena

theorem FreshBlock.mapped_eq (h : FreshBlock m m₁ base size) {p : ℕ} (hp : pageOf p ≠ pageOf base)
    (he : p < S.slot base ∨ S.slot base + 4 ≤ p) : mappedMem m₁ S base p = m p := by
  rw [mappedMem, store32_outside he, h.other p hp]

theorem CopyApart.taskString (h : CopyApart S K addr addrInKern size n base f) (hS : Holds m S)
    (hp : Present m S.directory) (hfresh : FreshBlock m m₁ base size) (hoff : OffBlock S base)
    (hstr : TaskString m S addr size n f) : TaskString (mappedMem m₁ S base) S addr size n f := by
  obtain ⟨-, -, hwalk⟩ := mappedMem_holds hS hp hfresh hoff
  have hle := hstr.le
  have hbyte : ∀ i ≤ n, i < size → mappedMem m₁ S base (f i) = m (f i) :=
    fun i hi hlt ↦ hfresh.mapped_eq (h.source i hi hlt) (h.entry i hi hlt)
  refine ⟨hle, fun i hi hlt ↦ ?_, fun i hi ↦ ?_, fun hlt ↦ ?_⟩
  · rw [hwalk _ (u32_lt _), if_neg (h.page i hi hlt)]
    exact hstr.mapped i hi hlt
  · rw [hbyte i (Nat.le_of_lt hi) (by omega)]
    exact hstr.pos i hi
  · rw [hbyte n (Nat.le_refl n) hlt]
    exact hstr.stop hlt

theorem u32_window_inj {p n i j : ℕ} (hn : n ≤ pageSize) (hi : i < n) (hj : j < n)
    (h : u32 (p + i) = u32 (p + j)) : i = j := by
  unfold u32 at h
  unfold pageSize at hn
  omega

theorem copiedMem_other (hfresh : FreshBlock m m₁ base size) (hn : n ≤ size) {p : ℕ}
    (hp : pageOf p ≠ pageOf base) (hpi : ∀ i < n, p ≠ u32 (addrInKern + i)) :
    copiedMem m m₁ S base addrInKern n f p = m p := by
  rw [copiedMem, scatter_off hpi]
  exact sharedMem_other hfresh rfl hn hp

theorem copiedMem_string (h : CopyApart S K addr addrInKern size n base f)
    (hfresh : FreshBlock m m₁ base size) (hn : n ≤ size) {i : ℕ} (hi : i < n) :
    copiedMem m m₁ S base addrInKern n f (u32 (addrInKern + i)) = m (f i) := by
  have hinj : ∀ i < n, ∀ j < n, u32 (addrInKern + i) = u32 (addrInKern + j) → i = j :=
    fun i hi j hj ↦ u32_window_inj (Nat.le_trans hn hfresh.size_le) hi hj
  have hlt := Nat.lt_of_lt_of_le hi hn
  rw [← hfresh.mapped_eq (h.source i (Nat.le_of_lt hi) hlt) (h.entry i (Nat.le_of_lt hi) hlt), copiedMem]
  exact scatter_at (g := fun i ↦ u32 (addrInKern + i)) hinj hi

theorem copiedMem_unchanged (h : CopyApart S K addr addrInKern size n base f) (hS : Holds m S)
    (hfresh : FreshBlock m m₁ base size) (hoff : OffBlock S base) (hn : n ≤ size) :
    S.Unchanged m (copiedMem m m₁ S base addrInKern n f) :=
  hS.frame (fun r hr i hi ↦
    copiedMem_other hfresh hn (hoff r hr i hi) (fun j hj he ↦ h.task j hj r hr (he ▸ hi)))

/-- Copying a string out of a task is exact, and gives everything back. A size
of more than a page is refused. -/
theorem InMemory.copy_exact (s : KernelState (KHeap false) δ) (task addr addrInKern size : ℕ) :
    (pageSize < size → ∃ r < 0,
      InMemory.copyDataFromTaskToKernel task addr addrInKern size s = .ok (r, s)) ∧
    ∀ (t : Task) (S K : Space) (base : ℕ) (a : Arena (KHeap false)) (n : ℕ) (f : ℕ → ℕ),
      CopySpaces s t S K → task ≠ 0 → s.taskList.tasks task = some t → size ≤ pageSize →
      kzalloc size s.arena = .ok (base, a) → base ≠ 0 → TaskString s.arena.mem S addr size n f →
      CopyApart S K addr addrInKern size n base f →
        ∃ s', InMemory.copyDataFromTaskToKernel task addr addrInKern size s = .ok ((n : ℤ), s') ∧
          CopiedExactly s s' S addrInKern n base f := by
  refine ⟨fun hsize ↦ ⟨-errInvarg, by decide, ?_⟩, ?_⟩
  · rw [InMemory.copyDataFromTaskToKernel, if_pos hsize]
    rfl
  intro t S K base a n f h htask ht hsize halloc hbase hstr hap
  obtain ⟨hone, hfresh, hoff⟩ := freshBlock_of_kzalloc hsize halloc hbase
  have hoffS : OffBlock S base := fun r hr ↦ hoff r (h.live r hr)
  have hle := hstr.le
  have hrun := InMemory.copy_run h htask ht hsize halloc hbase
    (hap.taskString h.holds h.present hfresh hoffS hstr) hap.source ⟨hap.target, hap.kernel⟩
  have hheap := KHeap.kfree_kzalloc_one halloc hbase hone
  have hspace := copiedMem_unchanged hap h.holds hfresh hoffS hle
  refine ⟨_, hrun, ?_, ?_, ?_, ?_, ?_, ?_⟩
  · exact fun i hi ↦ copiedMem_string hap hfresh hle hi
  · exact fun p hp hpi ↦ copiedMem_other hfresh hle hp hpi
  · exact hspace
  · exact hheap
  · exact setArena_currentPageDirectory _ _
  · rfl

def copyKernel (b : Arena (KHeap false)) (S K : Space) : KernelState (KHeap false) Unit :=
  { idleKernel b S.vspace with kernelSpace := K.vspace, currentPageDirectory := K.pd }

structure CopyReady (s : KernelState (KHeap false) Unit) (t : Task) (S K : Space)
    (size base buffer : ℕ) (a : Arena (KHeap false)) : Prop where
  spaces : CopySpaces s t S K
  task_eq : s.taskList.tasks 2 = some t
  granted : kzalloc size s.arena = .ok (base, a)
  base_ne : base ≠ 0
  identity : ∀ v < 2 ^ 32, v % pageSize = 0 →
    entries s.arena.mem S v = v ||| (pagePresent ||| pageUserAccess)
  aligned : buffer % pageSize = 0
  inside : buffer + pageSize ≤ 2 ^ 32
  live : pageRun buffer ∈ s.arena.live
  task_apart : ∀ r ∈ S.runs, r.Apart (pageRun buffer)
  kernel_apart : ∀ r ∈ K.runs, r.Apart (pageRun buffer)

theorem copyReady (size : ℕ) (hpos : 0 < size) (hsize : size ≤ pageSize) :
    ∃ s t S K base buffer a, CopyReady s t S K size base buffer a := by
  have hone := blocksOf_one hpos hsize
  obtain ⟨buffer, b₁, h₁, hb, hr₁⟩ := kzallocOne_total blocksOf_table (1 + 1027 + 1027)
    (freshArena false) (freshArena_room false (by decide))
  obtain ⟨hal, hin, hlive, -⟩ := granted_page (kzalloc_granted h₁ hb) blocksOf_table
  obtain ⟨k, b₂, h₂, -, hr₂⟩ := createVirtualAddressSpace_total
    (pagePresent ||| pageWriteAccess ||| pageUserAccess) (1 + 1027) b₁ hr₁
  obtain ⟨v, b₃, h₃, -, hr₃⟩ := createVirtualAddressSpace_total (pagePresent ||| pageUserAccess) 1 b₂ hr₂
  obtain ⟨base, a, h₄, hbase, -⟩ := kzallocOne_total hone 0 b₃ hr₃
  obtain ⟨K, rfl, hK⟩ := createVirtualAddressSpace_made (by decide) h₂
  obtain ⟨S, rfl, hS⟩ := createVirtualAddressSpace_made (by decide) h₃
  have hbuf₁ : pageRun buffer ∈ b₁.live := by
    rw [hlive]
    exact List.mem_cons_self
  have hbuf₂ := (hK.kept _ hbuf₁).live
  have hkeep : ∀ r ∈ K.runs, ∀ i, pageOf i ∈ r → b₃.mem i = b₂.mem i :=
    fun r hr ↦ (hS.kept r (hK.runs_live r hr)).bytes
  obtain ⟨hK₃, heK⟩ := hK.holds.frame hkeep
  have hpK : Present b₃.mem K.directory := by
    have hp := createVirtualAddressSpace_present (by decide) (by decide) h₂
    rw [hK.holds.pd_eq, hK.holds.directory_eq] at hp
    exact hK.holds.present_congr hp
      (fun i hi ↦ hkeep _ Space.directory_run i (mem_pageRun.mpr hi))
  have hpS : Present b₃.mem S.directory := by
    have hp := createVirtualAddressSpace_present (by decide) (by decide) h₃
    rwa [hS.holds.pd_eq, hS.holds.directory_eq] at hp
  have hidK : ∀ w < 2 ^ 32, pageWalk b₃.mem K.directory w = some w := fun w hw ↦
    hK₃.pageWalk_identity hpK (by decide) (by decide)
      (fun u hu hua ↦ (heK u hu).trans (hK.identity u hu hua)) hw
  refine ⟨copyKernel b₃ S K, _, S, K, base, buffer, a, ⟨?_, rfl, h₄, hbase, hS.identity, hal, hin,
    (hS.kept _ hbuf₂).live, fun r hr ↦ hS.runs_fresh r hr _ hbuf₂,
    fun r hr ↦ hK.runs_fresh r hr _ hbuf₁⟩⟩
  exact ⟨rfl, hS.holds, hpS, hS.runs_live, rfl, hK₃, hpK,
    fun r hr ↦ (hS.kept r (hK.runs_live r hr)).live, hidK, rfl,
    fun q hq r hr ↦ hS.runs_fresh q hq r (hK.runs_live r hr)⟩

section Ready

variable {s : KernelState (KHeap false) Unit} {t : Task} {buffer k v : ℕ} {a : Arena (KHeap false)}

theorem CopyReady.slot_byte (h : CopyReady s t S K size base buffer a) (hv : v < 2 ^ 32)
    (hva : v % pageSize = 0) (hk : k < 4) :
    u32 (S.slot v + k) = S.slot v + k ∧
      pageWalk s.arena.mem S.directory (S.slot v + k) = some (S.slot v + k) ∧
      (∃ r ∈ S.runs, pageOf (S.slot v + k) ∈ r) ∧
      s.arena.mem (S.slot v + k) = UInt8.ofNat ((v ||| (pagePresent ||| pageUserAccess)) / 256 ^ k) := by
  have hS := h.spaces.holds
  have hlt : S.slot v + k < 2 ^ 32 := by
    have h₁ := (hS.sound.slot_inside hv).2
    have h₂ := hS.sound.table_inside _ (dirIndex_lt hv)
    omega
  refine ⟨u32_of_lt hlt, ?_, ⟨_, Space.table_run (dirIndex_lt hv), mem_pageRun.mpr ?_⟩, ?_⟩
  · exact hS.pageWalk_identity h.spaces.present (by decide) (by decide) h.identity hlt
  · exact hS.sound.slot_page hv (Nat.le_add_right _ _) (Nat.add_lt_add_left hk _)
  · exact (byte_eq hk).trans (by rw [← h.identity v hv hva, entries])

theorem CopyReady.fresh (h : CopyReady s t S K size base buffer a) (hsize : size ≤ pageSize) :
    FreshBlock s.arena.mem a.mem base size ∧ OffBlock S base ∧
      ∀ i < pageSize, u32 (buffer + i) = buffer + i ∧ pageOf (buffer + i) ≠ pageOf base ∧
        (∀ r ∈ S.runs, pageOf (buffer + i) ∉ r) ∧ ∀ r ∈ K.runs, pageOf (buffer + i) ∉ r := by
  obtain ⟨-, hfresh, hoff⟩ := freshBlock_of_kzalloc hsize h.granted h.base_ne
  have hin := h.inside
  refine ⟨hfresh, fun r hr ↦ hoff r (h.spaces.live r hr), fun i hi ↦ ?_⟩
  have hpage : pageOf (buffer + i) ∈ pageRun buffer :=
    mem_pageRun.mpr (pageOf_window h.aligned (Nat.le_add_right _ _) (by omega))
  exact ⟨u32_of_lt (by omega), hoff _ h.live _ hpage,
    fun r hr hc ↦ h.task_apart r hr _ hc hpage, fun r hr hc ↦ h.kernel_apart r hr _ hc hpage⟩

theorem InMemory.copy_exact_flags : ∃ (s s' : KernelState (KHeap false) Unit) (S : Space)
    (base addr addrInKern : ℕ) (f : ℕ → ℕ),
    InMemory.copyDataFromTaskToKernel 2 addr addrInKern 16 s = .ok (((1 : ℕ) : ℤ), s') ∧
      CopiedExactly s s' S addrInKern 1 base f ∧
      ∃ r < 0, InMemory.copyDataFromTaskToKernel 2 addr addrInKern 8192 s = .ok (r, s) := by
  obtain ⟨s, t, S, K, base, buffer, a, h⟩ := copyReady 16 (by decide) (by decide)
  obtain ⟨hfresh, hoff, hbuf⟩ := h.fresh (by decide)
  have hbyte : ∀ k ≤ 1, _ := fun k hk ↦ h.slot_byte (v := 0) (k := k) (by decide) (by decide) (by omega)
  have hstr : TaskString s.arena.mem S (S.slot 0) 16 1 (fun i ↦ S.slot 0 + i) := by
    refine ⟨by decide, fun i hi _ ↦ ?_, fun i hi ↦ ?_, fun _ ↦ ?_⟩
    · rw [(hbyte i hi).1]
      exact (hbyte i hi).2.1
    · obtain rfl : i = 0 := by omega
      rw [(hbyte 0 (by decide)).2.2.2]
      decide
    · rw [(hbyte 1 (by decide)).2.2.2]
      decide
  have hpage : ∀ k ≤ 1, pageOf (S.slot 0 + k) ≠ pageOf base := fun k hk ↦ by
    obtain ⟨r, hr, hi⟩ := (hbyte k hk).2.2.1
    exact hoff r hr _ hi
  have hap : CopyApart S K (S.slot 0) buffer 16 1 base (fun i ↦ S.slot 0 + i) := by
    refine ⟨⟨fun i hi _ ↦ ?_, fun i hi _ ↦ hpage i hi, fun i hi ↦ ?_⟩, fun i hi _ ↦ ?_,
      fun i hi ↦ ?_, fun i hi ↦ ?_⟩
    · rw [(hbyte i hi).1]
      exact hpage i hi
    · rw [(hbuf i (by unfold pageSize; omega)).1]
      exact (hbuf i (by unfold pageSize; omega)).2.1
    · have := h.spaces.holds.sound.slot_apart (v := 0) (by decide) hfresh.base_lt (by decide)
        hfresh.aligned h.base_ne.symm
      omega
    · rw [(hbuf i (by unfold pageSize; omega)).1]
      exact (hbuf i (by unfold pageSize; omega)).2.2.1
    · rw [(hbuf i (by unfold pageSize; omega)).1]
      exact (hbuf i (by unfold pageSize; omega)).2.2.2
  obtain ⟨s', hrun, hexact⟩ := (InMemory.copy_exact s 2 (S.slot 0) buffer 16).2 t S K base a 1 _
    h.spaces (by decide) h.task_eq (by decide) h.granted h.base_ne hstr hap
  exact ⟨s, s', S, base, S.slot 0, buffer, _, hrun, hexact,
    (InMemory.copy_exact s 2 (S.slot 0) buffer 8192).1 (by decide)⟩

theorem CopyReady.copy_byte (h : CopyReady s t S K 1 base buffer a) {p target : ℕ} {b : UInt8}
    (hp : pageWalk s.arena.mem S.directory p = some p) (hu : u32 p = p)
    (hpr : ∃ r ∈ S.runs, pageOf p ∈ r) (hne : s.arena.mem p ≠ 0) (hb : mappedMem a.mem S base p = b)
    (hb0 : b ≠ 0) (htu : u32 target = target) (htb : pageOf target ≠ pageOf base)
    (htk : ∀ r ∈ K.runs, pageOf target ∉ r) :
    ∃ s', TaskString s.arena.mem S p 1 1 (fun i ↦ p + i) ∧ BlockApart p target 1 1 base (fun i ↦ p + i) ∧
      InMemory.copyDataFromTaskToKernel 2 p target 1 s = .ok (((1 : ℕ) : ℤ), s') ∧
      s'.arena.mem target = b := by
  obtain ⟨hfresh, hoff, -⟩ := h.fresh (by decide)
  obtain ⟨r, hr, hpr⟩ := hpr
  have hpage := hoff r hr p hpr
  obtain ⟨-, -, hwalk⟩ := mappedMem_holds h.spaces.holds h.spaces.present hfresh hoff
  have hwp : pageWalk (mappedMem a.mem S base) S.directory p = some p := by
    rw [hwalk p (hu ▸ u32_lt p), if_neg hpage, hp]
  have hone : ∀ {i}, i < 1 → i = 0 := fun h ↦ by omega
  have hap : BlockApart p target 1 1 base (fun i ↦ p + i) := by
    refine ⟨fun i _ hi ↦ ?_, fun i _ hi ↦ ?_, fun i hi ↦ ?_⟩ <;> obtain rfl := hone hi
    · rwa [Nat.add_zero, hu]
    · exact hpage
    · rwa [Nat.add_zero, htu]
  have hstr : ∀ m : ByteMemory, pageWalk m S.directory p = some p → m p ≠ 0 →
      TaskString m S p 1 1 (fun i ↦ p + i) := by
    intro m hm hmp
    refine ⟨Nat.le_refl 1, fun i _ hi ↦ ?_, fun i hi ↦ ?_, fun hlt ↦ absurd hlt (Nat.lt_irrefl 1)⟩ <;>
      obtain rfl := hone hi
    · rwa [Nat.add_zero, hu]
    · exact hmp
  have hrun := InMemory.copy_run (f := fun i ↦ p + i) h.spaces (by decide) h.task_eq (by decide)
    h.granted h.base_ne (hstr _ hwp (hb ▸ hb0)) hap.source
    ⟨hap.target, fun i hi r hr ↦ by obtain rfl := hone hi; rw [Nat.add_zero, htu]; exact htk r hr⟩
  refine ⟨_, hstr _ hp hne, hap, hrun, ?_⟩
  change copiedMem s.arena.mem a.mem S base target 1 (fun i ↦ p + i) target = b
  rw [copiedMem, scatter, scatter, Nat.add_zero, htu, update_self]
  exact hb

/-- The copy that reads the entry of the task for the block sees the flags of
the shared page, and the copy to a page table of the task changes its entries. -/
theorem copy_not_exact :
    (∃ (s s' : KernelState (KHeap false) Unit) (t : Task) (S K : Space) (base addr addrInKern : ℕ)
      (a : Arena (KHeap false)) (f : ℕ → ℕ), CopySpaces s t S K ∧ s.taskList.tasks 2 = some t ∧
      kzalloc 1 s.arena = .ok (base, a) ∧ base ≠ 0 ∧ TaskString s.arena.mem S addr 1 1 f ∧
      BlockApart addr addrInKern 1 1 base f ∧
      InMemory.copyDataFromTaskToKernel 2 addr addrInKern 1 s = .ok (((1 : ℕ) : ℤ), s') ∧
      s.arena.mem (f 0) = 5 ∧ s'.arena.mem (u32 addrInKern) = 7) ∧
    ∃ (s s' : KernelState (KHeap false) Unit) (t : Task) (S K : Space) (base addr addrInKern : ℕ)
      (a : Arena (KHeap false)) (f : ℕ → ℕ), CopySpaces s t S K ∧ s.taskList.tasks 2 = some t ∧
      kzalloc 1 s.arena = .ok (base, a) ∧ base ≠ 0 ∧ TaskString s.arena.mem S addr 1 1 f ∧
      BlockApart addr addrInKern 1 1 base f ∧
      InMemory.copyDataFromTaskToKernel 2 addr addrInKern 1 s = .ok (((1 : ℕ) : ℤ), s') ∧
      entries s'.arena.mem S 0 ≠ entries s.arena.mem S 0 := by
  obtain ⟨s, t, S, K, base, buffer, a, h⟩ := copyReady 1 (by decide) (by decide)
  obtain ⟨hfresh, hoff, hbuf⟩ := h.fresh (by decide)
  have hflags : ∀ v f, v % pageSize = 0 → f < 256 → UInt8.ofNat ((v ||| f) / 256 ^ 0) = UInt8.ofNat f := by
    intro v f hv hf
    have hadd := or_eq_add hv (show f < pageSize by unfold pageSize; omega)
    unfold pageSize at hv
    refine UInt8.toNat_inj.mp ?_
    rw [hadd, UInt8.toNat_ofNat', UInt8.toNat_ofNat']
    omega
  refine ⟨?_, ?_⟩
  · obtain ⟨hu, hw, hr, hbyte⟩ := h.slot_byte (k := 0) hfresh.base_lt hfresh.aligned (by decide)
    rw [hflags _ _ hfresh.aligned (by decide)] at hbyte
    obtain ⟨htu, htb, -, htk⟩ := hbuf 0 (by decide)
    have hb : mappedMem a.mem S base (S.slot base + 0) = 7 := by
      refine (byte_eq (by decide)).trans ?_
      rw [mappedMem, load32_store32_self hfresh.entry_lt, hflags _ _ hfresh.aligned (by decide)]
      decide
    obtain ⟨s', hstr, hap, hrun, hcopied⟩ := h.copy_byte hw hu hr (by rw [hbyte]; decide) hb (by decide) htu htb htk
    exact ⟨s, s', t, S, K, base, _, _, a, _, h.spaces, h.task_eq, h.granted, h.base_ne, hstr, hap, hrun,
      hbyte, by rw [htu]; exact hcopied⟩
  · have hzero : ∀ k < 4, _ := fun k hk ↦ h.slot_byte (v := 0) (k := k) (by decide) (by decide) hk
    obtain ⟨hu, hw, hr, hbyte⟩ := hzero 0 (by decide)
    obtain ⟨htu, -, ⟨r, hrun, htr⟩, htbyte⟩ := hzero 1 (by decide)
    have hslot := h.spaces.holds.sound.slot_apart (v := 0) (by decide) hfresh.base_lt (by decide)
      hfresh.aligned h.base_ne.symm
    obtain ⟨r₀, hr₀, hi₀⟩ := hr
    have hb := hfresh.mapped_eq (S := S) (hoff r₀ hr₀ _ hi₀) (by omega)
    obtain ⟨s', hstr, hap, hcopy, hcopied⟩ := h.copy_byte hw hu ⟨r₀, hr₀, hi₀⟩ (by rw [hbyte]; decide)
      hb (by rw [hbyte]; decide) htu (hoff r hrun _ htr)
      (fun q hq hc ↦ h.spaces.apart r hrun q hq _ htr hc)
    refine ⟨s, s', t, S, K, base, _, _, a, _, h.spaces, h.task_eq, h.granted, h.base_ne, hstr, hap, hcopy,
      fun he ↦ ?_⟩
    have hsame : s'.arena.mem (S.slot 0 + 1) = s.arena.mem (S.slot 0 + 1) := by
      have hbytes := congrArg (fun w ↦ UInt8.ofNat (w / 256 ^ 1)) he
      exact (byte_eq (by decide)).trans (hbytes.trans (byte_eq (by decide)).symm)
    rw [hcopied, hbyte, htbyte] at hsame
    exact absurd hsame (by decide)

end Ready

end GammaOS.Kernel
