import GammaOS.Foundation.MappedCopy
import GammaOS.Kernel.NewProcess
import GammaOS.Kernel.Syscall
import GammaOS.Memory.Blocks
import GammaOS.Paging.PageWalk

namespace GammaOS.Kernel

open Function Foundation Foundation.Program ByteMemory Memory Paging Fs Loader

section Source

variable {σ δ : Type}

/-- `strncpy` with the directory at `directory` loaded, none when it comes to a page
that is not present. -/
def strncpy (directory tgt src len : ℕ) (m : ByteMemory) : Option (ℕ × ByteMemory) :=
  copyMapped (fun m i ↦ pageWalk m directory (u32 (src + i)))
    (fun m i ↦ pageWalk m directory (u32 (tgt + i))) len 0 m

def strncpyLoaded (tgt src len : ℕ) : KernelM σ δ ℤ := fun s ↦
  match strncpy (s.arena.mem.load32 s.currentPageDirectory) tgt src len s.arena.mem with
  | none => .error .dangling
  | some (written, m) => .ok ((written : ℤ), s.setArena { s.arena with mem := m })

/-- `copy_data_from_task_to_kernel` on the bytes of the memory: `addrInTask` is read
through the pages of the task and `addrInKern` is written through those of the
kernel. The kernel's code, its stack and its own structures are taken to be where
they are in both of them. -/
def InMemory.copyDataFromTaskToKernel [Allocator σ] (task addrInTask addrInKern size : ℕ) :
    KernelM σ δ ℤ := do
  if size > pageSize then pure (-errInvarg)
  else do
    let sharedMemBase ← onHeap (kzalloc size)
    if sharedMemBase = 0 then pure (-errMallocFail)
    else do
      let t ← onTasks (taskAt task)
      let m ← gets (fun s ↦ s.arena.mem)
      let oldPtEntry := (pagingVirtToPhy m t.taskSpace sharedMemBase).getD 0
      onHeap (onMem (fun m ↦ (mapVaddrToVal m (m.load32 t.taskSpace) sharedMemBase
        (sharedMemBase ||| (pagePresent ||| pageWriteAccess ||| pageUserAccess))).2))
      loadPageDirectory t.taskSpace
      let _ ← strncpyLoaded sharedMemBase addrInTask size
      changeToKernelPageDirectory
      onHeap (onMem (fun m ↦
        (mapVaddrToVal m (m.load32 t.taskSpace) sharedMemBase oldPtEntry).2))
      let bytesWritten ← strncpyLoaded addrInKern sharedMemBase size
      onHeap (kfree sharedMemBase)
      pure bytesWritten

end Source

def sharedFlags : ℕ := pagePresent ||| pageWriteAccess ||| pageUserAccess

/-- What the task sees from `addr` on: `n` bytes that are not zero, at the physical
addresses `f 0`, `f 1`, ..., and behind them a zero, or the end of the size. -/
structure TaskString (m : ByteMemory) (S : Space) (addr size n : ℕ) (f : ℕ → ℕ) : Prop where
  le : n ≤ size
  mapped : ∀ i ≤ n, i < size → pageWalk m S.directory (u32 (addr + i)) = some (f i)
  pos : ∀ i < n, m (f i) ≠ 0
  stop : n < size → m (f n) = 0

variable {m m₁ : ByteMemory} {S K : Space} {addr size n base old : ℕ} {f : ℕ → ℕ}

structure FreshBlock (m m₁ : ByteMemory) (base size : ℕ) : Prop where
  aligned : base % pageSize = 0
  inside : base + pageSize ≤ 2 ^ 32
  size_le : size ≤ pageSize
  zero : ∀ i < size, m₁ (base + i) = 0
  other : ∀ a, pageOf a ≠ pageOf base → m₁ a = m a

def OffBlock (S : Space) (base : ℕ) : Prop := ∀ r ∈ S.runs, ∀ i, pageOf i ∈ r → pageOf i ≠ pageOf base

theorem FreshBlock.place (h : FreshBlock m m₁ base size) {i : ℕ} (hi : i < size) :
    pageOf (base + i) = pageOf base ∧ u32 (base + i) = base + i ∧ (base + i) % pageSize = i := by
  have hal := h.aligned
  have hin := h.inside
  have hle := h.size_le
  refine ⟨pageOf_window hal (Nat.le_add_right _ _) (by omega), u32_of_lt (by omega), ?_⟩
  unfold pageSize at *
  omega

theorem FreshBlock.base_lt (h : FreshBlock m m₁ base size) : base < 2 ^ 32 := by
  have := h.inside
  unfold pageSize at this
  omega

theorem FreshBlock.entry_lt (h : FreshBlock m m₁ base size) : base ||| sharedFlags < 2 ^ 32 := by
  have hin := h.inside
  rw [or_eq_add h.aligned (by decide)]
  unfold pageSize at hin
  exact Nat.lt_of_lt_of_le (Nat.add_lt_add_left (by decide : sharedFlags < 4096) base) hin

def mappedMem (m₁ : ByteMemory) (S : Space) (base : ℕ) : ByteMemory :=
  m₁.store32 (S.slot base) (base ||| sharedFlags)

theorem mappedMem_holds (hS : Holds m S) (hp : Present m S.directory)
    (hfresh : FreshBlock m m₁ base size) (hoff : OffBlock S base) :
    Holds (mappedMem m₁ S base) S ∧ Present (mappedMem m₁ S base) S.directory ∧
      ∀ v < 2 ^ 32, pageWalk (mappedMem m₁ S base) S.directory v =
        if pageOf v = pageOf base then leafOf (base ||| sharedFlags) v
        else pageWalk m S.directory v := by
  have hbase := hfresh.base_lt
  have hframe : ∀ r ∈ S.runs, ∀ i, pageOf i ∈ r → m₁ i = m i :=
    fun r hr i hi ↦ hfresh.other i (hoff r hr i hi)
  obtain ⟨hS₁, -⟩ := hS.frame hframe
  have hp₁ := hS.present_congr hp
    (fun i hi ↦ hframe _ Space.directory_run i (mem_pageRun.mpr hi))
  refine ⟨hS₁.store hbase, hS₁.present_store hp₁ hbase, fun v hv ↦ ?_⟩
  rw [mappedMem, hS₁.pageWalk_store hp₁ hv hbase hfresh.aligned hfresh.entry_lt,
    hS.pageWalk_frame hp hframe hv]

theorem strncpy_from_task (hS : Holds m S) (hp : Present m S.directory)
    (hfresh : FreshBlock m m₁ base size) (hoff : OffBlock S base)
    (hstr : TaskString (mappedMem m₁ S base) S addr size n f)
    (hsrc : ∀ i ≤ n, i < size → pageOf (f i) ≠ pageOf base) :
    strncpy S.directory base addr size (mappedMem m₁ S base) =
      some (n, scatter (fun i ↦ base + i) (fun i ↦ mappedMem m₁ S base (f i)) n
        (mappedMem m₁ S base)) := by
  obtain ⟨hS₂, hp₂, hwalk₂⟩ := mappedMem_holds hS hp hfresh hoff
  have hwalk : ∀ k ≤ n, ∀ v < 2 ^ 32,
      pageWalk (scatter (fun i ↦ base + i) (fun i ↦ mappedMem m₁ S base (f i)) k
        (mappedMem m₁ S base)) S.directory v = pageWalk (mappedMem m₁ S base) S.directory v := by
    intro k hk v hv
    refine hS₂.pageWalk_frame hp₂ (fun r hr i hi ↦ scatter_off (fun j hj he ↦ hoff r hr i hi ?_)) hv
    have hle := hstr.le
    rw [he, (hfresh.place (by omega)).1]
  have hle := hstr.le
  refine copyMapped_run (f := f) hle (fun k hk hlt ↦ ?_) (fun k hk hlt ↦ ?_) hstr.pos hstr.stop
    (fun k hk ↦ ?_)
  · rw [hwalk k hk _ (u32_lt _)]
    exact hstr.mapped k hk hlt
  · exact scatter_off (fun j hj he ↦ hsrc k hk hlt (by rw [he, (hfresh.place (by omega)).1]))
  · obtain ⟨hpage, hu, hmod⟩ := hfresh.place (show k < size by omega)
    rw [hwalk k (Nat.le_of_lt hk) _ (u32_lt _), hwalk₂ _ (u32_lt _), hu, if_pos hpage,
      leafOf_page hfresh.aligned hfresh.inside (by decide) (by decide), hmod]

/-- The memory behind the copy into the block, with the entry of the task put back. -/
def sharedMem (m₁ : ByteMemory) (S : Space) (base old n : ℕ) (b : ℕ → UInt8) : ByteMemory :=
  (scatter (fun i ↦ base + i) b n (mappedMem m₁ S base)).store32 (S.slot base) old

theorem sharedMem_other (hfresh : FreshBlock m m₁ base size) (hold : entries m S base = old)
    (hn : n ≤ size) {b : ℕ → UInt8} {a : ℕ} (ha : pageOf a ≠ pageOf base) : sharedMem m₁ S base old n b a = m a := by
  by_cases hslot : S.slot base ≤ a ∧ a < S.slot base + 4
  · rw [sharedMem, ← hold, entries]
    exact store32_load32 hslot.1 hslot.2
  · rw [sharedMem, store32_outside (by omega), scatter_off (fun i hi he ↦ ha ?_),
      mappedMem, store32_outside (by omega), hfresh.other a ha]
    rw [he, (hfresh.place (by omega)).1]

theorem sharedMem_block (hS : Holds m S) (hfresh : FreshBlock m m₁ base size)
    (hoff : OffBlock S base) {b : ℕ → UInt8} {i : ℕ} (hi : i < size) :
    sharedMem m₁ S base old n b (base + i) = if i < n then b i else 0 := by
  have hbase := hfresh.base_lt
  have hpage := (hfresh.place hi).1
  have hslot : base + i < S.slot base ∨ S.slot base + 4 ≤ base + i := by
    by_contra hc
    have htable := hS.sound.slot_page hbase (i := base + i) (by omega) (by omega)
    exact hoff _ (Space.table_run (dirIndex_lt hbase)) (base + i) (mem_pageRun.mpr htable) hpage
  rw [sharedMem, store32_outside hslot]
  by_cases hin : i < n
  · rw [if_pos hin]
    exact scatter_at (g := fun i ↦ base + i) (fun i _ j _ h ↦ Nat.add_left_cancel h) hin
  · rw [if_neg hin, scatter_off (fun j hj he ↦ by omega), mappedMem, store32_outside hslot,
      hfresh.zero i hi]

structure TargetApart (K : Space) (addrInKern n base : ℕ) : Prop where
  block : ∀ i < n, pageOf (u32 (addrInKern + i)) ≠ pageOf base
  kernel : ∀ i < n, ∀ r ∈ K.runs, pageOf (u32 (addrInKern + i)) ∉ r

theorem strncpy_to_kernel {addrInKern : ℕ} {m₄ : ByteMemory} {b : ℕ → UInt8} (hK : Holds m K)
    (hp : Present m K.directory) (hid : ∀ v < 2 ^ 32, pageWalk m K.directory v = some v)
    (hfresh : FreshBlock m m₁ base size) (hn : n ≤ size)
    (hm₄ : ∀ r ∈ K.runs, ∀ i, pageOf i ∈ r → m₄ i = m i)
    (hblock : ∀ i < size, m₄ (base + i) = if i < n then b i else 0) (hpos : ∀ i < n, b i ≠ 0)
    (hstop : n < size → b n = 0) (htgt : TargetApart K addrInKern n base) :
    strncpy K.directory addrInKern base size m₄ =
      some (n, scatter (fun i ↦ u32 (addrInKern + i)) b n m₄) := by
  have hwalk : ∀ k ≤ n, ∀ v < 2 ^ 32,
      pageWalk (scatter (fun i ↦ u32 (addrInKern + i)) b k m₄) K.directory v = some v := by
    intro k hk v hv
    rw [hK.pageWalk_frame hp (fun r hr i hi ↦ ?_) hv, hid v hv]
    rw [scatter_off (fun j hj he ↦ htgt.kernel j (by omega) r hr (by subst he; exact hi)), hm₄ r hr i hi]
  refine copyMapped_run (f := fun i ↦ base + i) hn (fun k hk hlt ↦ ?_) (fun k hk hlt ↦ ?_) hpos hstop
    (fun k hk ↦ hwalk k (by omega) _ (u32_lt _))
  · rw [hwalk k hk _ (u32_lt _), (hfresh.place hlt).2.1]
  · rw [scatter_off (fun j hj he ↦ htgt.block j (by omega) (by rw [← he, (hfresh.place hlt).1])),
      hblock k hlt]
    rcases Nat.eq_or_lt_of_le hk with rfl | hlt'
    · rw [if_neg (Nat.lt_irrefl k), hstop hlt]
    · rw [if_pos hlt']

variable {whole : Bool} {δ : Type} {s : KernelState (KHeap whole) δ} {t : Task}
  {task addrInKern : ℕ} {a : Arena (KHeap whole)}

/-- The task at `t` runs in the space `S`, and the kernel, in the space `K`, which
maps every address to itself, is in control. -/
structure CopySpaces (s : KernelState (KHeap whole) δ) (t : Task) (S K : Space) : Prop where
  space : S.vspace = t.taskSpace
  holds : Holds s.arena.mem S
  present : Present s.arena.mem S.directory
  live : ∀ r ∈ S.runs, r ∈ s.arena.live
  kernelSpace : K.vspace = s.kernelSpace
  kernelHolds : Holds s.arena.mem K
  kernelPresent : Present s.arena.mem K.directory
  kernelLive : ∀ r ∈ K.runs, r ∈ s.arena.live
  identity : ∀ v < 2 ^ 32, pageWalk s.arena.mem K.directory v = some v
  loaded : s.currentPageDirectory = K.pd
  apart : ∀ q ∈ S.runs, ∀ r ∈ K.runs, q.Apart r

theorem freshBlock_of_kzalloc (hsize : size ≤ pageSize) (halloc : kzalloc size s.arena = .ok (base, a))
    (hbase : base ≠ 0) : blocksOf (u32 size) = 1 ∧ FreshBlock s.arena.mem a.mem base size ∧
      ∀ r ∈ s.arena.live, ∀ i, pageOf i ∈ r → pageOf i ≠ pageOf base := by
  have g := kzalloc_granted halloc hbase
  have hu : u32 size = size := u32_of_lt (by unfold pageSize at hsize; omega)
  have hpos := g.pos
  rw [hu] at hpos
  have hone := blocksOf_one hpos hsize
  obtain ⟨hal, hin, -, hap, hout⟩ := granted_page g hone
  refine ⟨hone, ⟨hal, hin, hsize, fun i hi ↦ ?_, hout⟩, fun r hr i hi ↦ apart_page (hap r hr) hi⟩
  exact g.zeroed _ (Nat.le_add_right _ _) (by rw [hu]; omega)

/-- What the kernel finds on the way through a copy, when the copy into the block
has stored `b 0`, ..., `b (n - 1)`. -/
structure CopySteps (s : KernelState (KHeap whole) δ) (t : Task) (S K : Space) (base n : ℕ)
    (m₁ : ByteMemory) (b : ℕ → UInt8) (m₃ : ByteMemory) : Prop where
  old : (pagingVirtToPhy m₁ t.taskSpace base).getD 0 = entries s.arena.mem S base
  mapped : (mapVaddrToVal m₁ (m₁.load32 t.taskSpace) base (base ||| sharedFlags)).2 =
    mappedMem m₁ S base
  stored : scatter (fun i ↦ base + i) b n (mappedMem m₁ S base) = m₃
  restored : (mapVaddrToVal m₃ (m₃.load32 t.taskSpace) base (entries s.arena.mem S base)).2 =
    sharedMem m₁ S base (entries s.arena.mem S base) n b
  loaded : m₃.load32 s.kernelSpace = K.pd

theorem CopySpaces.steps (h : CopySpaces s t S K) (hsize : size ≤ pageSize)
    (halloc : kzalloc size s.arena = .ok (base, a)) (hbase : base ≠ 0) (hn : n ≤ size)
    (b : ℕ → UInt8) : CopySteps s t S K base n a.mem b
      (scatter (fun i ↦ base + i) b n (mappedMem a.mem S base)) := by
  obtain ⟨-, hfresh, hoff⟩ := freshBlock_of_kzalloc hsize halloc hbase
  have hlt := hfresh.base_lt
  have hal := hfresh.aligned
  have hoffS : OffBlock S base := fun r hr ↦ hoff r (h.live r hr)
  obtain ⟨hS₁, he₁⟩ := h.holds.frame (fun r hr i hi ↦ hfresh.other i (hoffS r hr i hi))
  obtain ⟨hS₂, -⟩ := mappedMem_holds h.holds h.present hfresh hoffS
  have hS₃ : Holds (scatter (fun i ↦ base + i) b n (mappedMem a.mem S base)) S := by
    refine (hS₂.frame (fun r hr i hi ↦ scatter_off (fun j hj he ↦ hoffS r hr i hi ?_))).1
    rw [he, (hfresh.place (by omega)).1]
  have hK₃ : Holds (scatter (fun i ↦ base + i) b n (mappedMem a.mem S base)) K := by
    refine (h.kernelHolds.frame (fun r hr i hi ↦ ?_)).1
    have hpage := hoff r (h.kernelLive r hr) i hi
    have hslot : S.OffTables i := Space.offTables_of_apart (fun q hq ↦ h.apart q hq r hr) hi
    rw [scatter_off, mappedMem, hS₁.store_outside hlt hslot, hfresh.other i hpage]
    rintro j hj rfl
    exact hpage (hfresh.place (by omega)).1
  refine ⟨?_, ?_, rfl, ?_, ?_⟩
  · rw [← h.space, hS₁.virtToPhy_eq hlt hal, he₁ base hlt]
    rfl
  · rw [← h.space, hS₁.pd_eq, hS₁.map_eq hlt hal, mappedMem]
  · rw [← h.space, hS₃.pd_eq, hS₃.map_eq hlt hal, sharedMem]
  · rw [← h.kernelSpace, hK₃.pd_eq]

theorem strncpyLoaded_run {k : KernelState (KHeap whole) δ} {directory tgt src len : ℕ}
    {m m' : ByteMemory} (hk : k.arena.mem = m) (hd : m.load32 k.currentPageDirectory = directory)
    (hcopy : strncpy directory tgt src len m = some (n, m')) :
    strncpyLoaded tgt src len k = .ok ((n : ℤ), k.setArena { k.arena with mem := m' }) := by
  subst hk hd
  rw [strncpyLoaded, hcopy]

theorem onHeap_mapped {m m' : ByteMemory} {k : KernelState (KHeap whole) δ} {vspace val : ℕ}
    (hk : k.arena = ⟨a.heap, m⟩) (h : (mapVaddrToVal m (m.load32 vspace) base val).2 = m') :
    onHeap (onMem (fun m ↦ (mapVaddrToVal m (m.load32 vspace) base val).2)) k =
      .ok ((), k.setArena ⟨a.heap, m'⟩) := by
  refine onHeap_eq_ok.mpr ⟨⟨a.heap, m'⟩, onMem_eq_ok.mpr ?_, rfl⟩
  rw [hk, ← h]

def copiedMem (m m₁ : ByteMemory) (S : Space) (base addrInKern n : ℕ) (f : ℕ → ℕ) : ByteMemory :=
  scatter (fun i ↦ u32 (addrInKern + i)) (fun i ↦ mappedMem m₁ S base (f i)) n
    (sharedMem m₁ S base (entries m S base) n (fun i ↦ mappedMem m₁ S base (f i)))

theorem InMemory.copy_run (h : CopySpaces s t S K) (htask : task ≠ 0)
    (ht : s.taskList.tasks task = some t) (hsize : size ≤ pageSize)
    (halloc : kzalloc size s.arena = .ok (base, a)) (hbase : base ≠ 0)
    (hstr : TaskString (mappedMem a.mem S base) S addr size n f)
    (hsrc : ∀ i ≤ n, i < size → pageOf (f i) ≠ pageOf base)
    (htgt : TargetApart K addrInKern n base) :
    InMemory.copyDataFromTaskToKernel task addr addrInKern size s =
      .ok ((n : ℤ), s.setArena (freed base
        { a with mem := copiedMem s.arena.mem a.mem S base addrInKern n f })) := by
  obtain ⟨-, hfresh, hoff⟩ := freshBlock_of_kzalloc hsize halloc hbase
  have hle := hstr.le
  have hoffS : OffBlock S base := fun r hr ↦ hoff r (h.live r hr)
  obtain ⟨hS₂, -⟩ := mappedMem_holds h.holds h.present hfresh hoffS
  have hcopy := strncpy_from_task h.holds h.present hfresh hoffS hstr hsrc
  rw [copiedMem]
  generalize hb : (fun i ↦ mappedMem a.mem S base (f i)) = b at hcopy ⊢
  have hpos : ∀ i < n, b i ≠ 0 := hb ▸ hstr.pos
  have hstop : n < size → b n = 0 := hb ▸ hstr.stop
  have hsteps := h.steps hsize halloc hbase hle b
  rw [hsteps.stored] at hcopy
  generalize scatter (fun i ↦ base + i) b n (mappedMem a.mem S base) = m₃ at hsteps hcopy
  obtain ⟨hold, hmap₂, -, hmap₄, hload⟩ := hsteps
  generalize mappedMem a.mem S base = m₂ at hS₂ hcopy hmap₂
  -- the copy out of the block goes through the pages of the kernel
  have hother : ∀ r ∈ s.arena.live, ∀ i, pageOf i ∈ r →
      sharedMem a.mem S base (entries s.arena.mem S base) n b i = s.arena.mem i :=
    fun r hr i hi ↦ sharedMem_other hfresh rfl hle (hoff r hr i hi)
  have hblock : ∀ i < size, sharedMem a.mem S base (entries s.arena.mem S base) n b (base + i) =
      if i < n then b i else 0 := fun i hi ↦ sharedMem_block h.holds hfresh hoffS hi
  generalize sharedMem a.mem S base (entries s.arena.mem S base) n b = m₄ at hmap₄ hother hblock ⊢
  have hcopy₂ := strncpy_to_kernel h.kernelHolds h.kernelPresent h.identity hfresh hle
    (fun r hr ↦ hother r (h.kernelLive r hr)) hblock hpos hstop htgt
  obtain ⟨hK₄, -⟩ := h.kernelHolds.frame (fun r hr ↦ hother r (h.kernelLive r hr))
  have htaskAt : onTasks (taskAt task) (s.setArena a) = .ok (t, s.setArena a) :=
    onTasks_taskAt_eq_ok.mpr ⟨htask, ht, rfl⟩
  rw [InMemory.copyDataFromTaskToKernel, if_neg (by omega)]
  refine (bind_run_ok (onHeap_eq_ok.mpr ⟨a, halloc, rfl⟩)).trans ?_
  rw [if_neg hbase]
  refine (bind_run_ok htaskAt).trans ?_
  refine (bind_run_ok (gets_run _ _)).trans ?_
  rw [setArena_arena, hold]
  refine (bind_run_ok (onHeap_mapped rfl hmap₂)).trans ?_
  refine (bind_run_ok (modifyState_run _ _)).trans ?_
  refine (bind_run_ok (strncpyLoaded_run rfl ?_ hcopy)).trans ?_
  · change m₂.load32 (m₂.load32 t.taskSpace) = S.directory
    rw [← h.space, hS₂.pd_eq, hS₂.directory_eq]
  refine (bind_run_ok (modifyState_run _ _)).trans ?_
  refine (bind_run_ok (onHeap_mapped rfl hmap₄)).trans ?_
  refine (bind_run_ok (strncpyLoaded_run rfl ?_ hcopy₂)).trans ?_
  · change m₄.load32 (m₃.load32 s.kernelSpace) = K.directory
    rw [hload, hK₄.directory_eq]
  refine (bind_run_ok (onHeap_eq_ok.mpr ⟨_, rfl, rfl⟩)).trans ?_
  -- the directory that was loaded before the call is loaded again
  change Except.ok ((n : ℤ), { s.setArena _ with currentPageDirectory := m₃.load32 s.kernelSpace }) = _
  rw [hload, ← h.loaded]
  rfl

theorem copyDataFromTaskToKernel_run (h : CopySpaces s t S K) (htask : task ≠ 0)
    (ht : s.taskList.tasks task = some t) (hsize : size ≤ pageSize)
    (halloc : kzalloc size s.arena = .ok (base, a)) (hbase : base ≠ 0) (hn : n ≤ size)
    (b : ℕ → UInt8) :
    Kernel.copyDataFromTaskToKernel task ((List.range n).map b) size s =
      .ok (((n : ℤ), (List.range n).map b), s.setArena (freed base
        { a with mem := sharedMem a.mem S base (entries s.arena.mem S base) n b })) := by
  obtain ⟨hold, hmap₂, -, hmap₄, hload⟩ := h.steps hsize halloc hbase hn b
  rw [scatter_window] at hmap₄ hload
  generalize sharedMem a.mem S base (entries s.arena.mem S base) n b = m₄ at hmap₄ ⊢
  have hlen : ((List.range n).map b).length = n := by rw [List.length_map, List.length_range]
  have htake : ((List.range n).map b).take size = (List.range n).map b :=
    List.take_of_length_le (by rwa [hlen])
  have htaskAt : onTasks (taskAt task) (s.setArena a) = .ok (t, s.setArena a) :=
    onTasks_taskAt_eq_ok.mpr ⟨htask, ht, rfl⟩
  rw [Kernel.copyDataFromTaskToKernel, if_neg (by omega), htake, hlen]
  refine (bind_run_ok (onHeap_eq_ok.mpr ⟨a, halloc, rfl⟩)).trans ?_
  rw [if_neg hbase]
  refine (bind_run_ok htaskAt).trans ?_
  refine (bind_run_ok (gets_run _ _)).trans ?_
  rw [setArena_arena, hold]
  refine (bind_run_ok (onHeap_mapped rfl hmap₂)).trans ?_
  generalize mappedMem a.mem S base = m₂ at hmap₄ hload ⊢
  generalize hm₃ : m₂.writeBytes base ((List.range n).map b) = m₃ at hmap₄ hload
  refine (bind_run_ok (modifyState_run _ _)).trans ?_
  refine (bind_run_ok (a := ()) (onHeap_eq_ok.mpr
    ⟨⟨a.heap, m₃⟩, onMem_eq_ok.mpr (by rw [← hm₃]; rfl), rfl⟩)).trans ?_
  refine (bind_run_ok (modifyState_run _ _)).trans ?_
  refine (bind_run_ok (onHeap_mapped rfl hmap₄)).trans ?_
  refine (bind_run_ok (onHeap_eq_ok.mpr ⟨_, rfl, rfl⟩)).trans ?_
  change Except.ok (((n : ℤ), (List.range n).map b), { s.setArena _ with
    currentPageDirectory := m₃.load32 s.kernelSpace }) = _
  rw [hload, ← h.loaded]
  rfl

/-- The copy on bytes does what `copyDataFromTaskToKernel` does on the list of
them, and stores them in the kernel. -/
theorem InMemory.copy_refines (h : CopySpaces s t S K) (htask : task ≠ 0)
    (ht : s.taskList.tasks task = some t) (hsize : size ≤ pageSize)
    (halloc : kzalloc size s.arena = .ok (base, a)) (hbase : base ≠ 0)
    (hstr : TaskString (mappedMem a.mem S base) S addr size n f)
    (hsrc : ∀ i ≤ n, i < size → pageOf (f i) ≠ pageOf base)
    (htgt : TargetApart K addrInKern n base) :
    ∃ (b : ℕ → UInt8) (u : Arena (KHeap whole)),
      Kernel.copyDataFromTaskToKernel task ((List.range n).map b) size s =
        .ok (((n : ℤ), (List.range n).map b), s.setArena u) ∧
      InMemory.copyDataFromTaskToKernel task addr addrInKern size s =
        .ok ((n : ℤ), s.setArena
          { u with mem := scatter (fun i ↦ u32 (addrInKern + i)) b n u.mem }) :=
  ⟨_, _, copyDataFromTaskToKernel_run h htask ht hsize halloc hbase hstr.le _,
    InMemory.copy_run h htask ht hsize halloc hbase hstr hsrc htgt⟩

end GammaOS.Kernel
