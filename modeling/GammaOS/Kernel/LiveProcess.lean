import GammaOS.Foundation.Ledger
import GammaOS.Kernel.AllocationTable

namespace GammaOS.Kernel

open Function Foundation Foundation.Program Memory Paging Fs Loader

/-- What a process holds besides its own blocks: an address space, and allocations. -/
structure Holding where
  space : Space
  own : List (ℕ × ℕ)

def Process.withKeys (x : Process) (k : KeyboardBuffer) : Process := { x with keyboardBuf := k }

def Process.owned (x : Process) (p : ℕ) (g : Holding) : List Run :=
  x.runs p g.space ++ g.own.map (fun b ↦ blockRun b.1 b.2)

variable {σ : Type} [Allocator σ] {s s' s₁ : KernelState σ Fat16Files} {p c : ℕ} {x y : Process}
  {t : Task} {S : Space} {g : Holding} {hold : ℕ → Holding} {r : Run} {env : ProcessEnv}
  {filename : List UInt8}

/-- The process at `p` is complete: its task, its address space, and its blocks
and allocations are in place. -/
structure LiveProcess (s : KernelState σ Fat16Files) (p : ℕ) (x : Process) (t : Task) (g : Holding) :
    Prop where
  at_process : s.processes p = some x
  at_task : s.taskList.tasks x.task = some t
  process_eq : t.process = p
  space : g.space.vspace = t.taskSpace
  vspace_lt : g.space.vspace < 2 ^ 32
  holds : Holds s.arena.mem g.space
  block : ∀ b ∈ x.blocks p, Block s.arena b.1 b.2
  slots : SlotTable processMaxProcessMemAllocations x.recorded g.own
  sizes : ∀ b ∈ g.own, b.2 < 2 ^ 32
  held : HeldBlocks s.arena (x.runs p g.space) g.own

theorem Process.self_mem (x : Process) (p : ℕ) : (p, processSize) ∈ x.blocks p := List.mem_cons_self

theorem Process.task_mem (x : Process) (p : ℕ) : (x.task, taskSize) ∈ x.blocks p :=
  List.mem_cons_of_mem _ (List.mem_cons_of_mem _ List.mem_cons_self)

theorem Process.block_owned {b : ℕ × ℕ} (hb : b ∈ x.blocks p) : blockRun b.1 b.2 ∈ x.owned p g :=
  List.mem_append_left _ (List.mem_append_left _ (List.mem_map_of_mem hb))

theorem Process.space_owned (hr : r ∈ g.space.runs) : r ∈ x.owned p g :=
  List.mem_append_left _ (List.mem_append_right _ hr)

theorem Process.own_owned {b : ℕ × ℕ} (hb : b ∈ g.own) : blockRun b.1 b.2 ∈ x.owned p g :=
  List.mem_append_right _ (List.mem_map_of_mem hb)

namespace LiveProcess

theorem owned_live (h : LiveProcess s p x t g) : ∀ r ∈ x.owned p g, r ∈ s.arena.live := by
  intro r hr
  rcases List.mem_append.mp hr with hr | hr
  · exact h.held.live r hr
  · obtain ⟨b, hb, rfl⟩ := List.mem_map.mp hr
    exact (h.held.block b hb).live

theorem keepKeys (h : LiveProcess s p x t g) {k : KeyboardBuffer}
    (hp : s'.processes p = some (x.withKeys k))
    (ht : s'.taskList.placeAt x.task = s.taskList.placeAt x.task)
    (hk : ∀ r ∈ x.owned p g, Kept r s.arena s'.arena) :
    ∃ t', LiveProcess s' p (x.withKeys k) t' g ∧
      ∀ v < 2 ^ 32, entries s'.arena.mem g.space v = entries s.arena.mem g.space v := by
  obtain ⟨t', ht', hspace, hproc⟩ := placeAt_eq_some (ht.trans (placeAt_of_some h.at_task))
  obtain ⟨hh, he⟩ := h.holds.frame (fun r hr ↦ (hk r (Process.space_owned hr)).bytes)
  refine ⟨t', ⟨hp, ht', hproc.trans h.process_eq, h.space.trans hspace.symm,
    h.vspace_lt, hh, fun b hb ↦ (h.block b hb).keep (hk _ (Process.block_owned hb)).live, h.slots,
    h.sizes, ⟨fun r hr ↦ (hk r (List.mem_append_left _ hr)).live, fun b hb ↦ ?_, h.held.off,
    h.held.bases⟩⟩, he⟩
  exact (h.held.block b hb).keep (hk _ (Process.own_owned hb)).live

theorem keep (h : LiveProcess s p x t g) (hp : s'.processes p = s.processes p)
    (ht : s'.taskList.placeAt x.task = s.taskList.placeAt x.task)
    (hk : ∀ r ∈ x.owned p g, Kept r s.arena s'.arena) :
    ∃ t', LiveProcess s' p x t' g ∧
      ∀ v < 2 ^ 32, entries s'.arena.mem g.space v = entries s.arena.mem g.space v :=
  h.keepKeys (k := x.keyboardBuf) (hp.trans h.at_process) ht hk

variable [LawfulAllocator σ]

theorem ne_zero (h : LiveProcess s p x t g) : p ≠ 0 := (h.block _ (x.self_mem p)).ne_zero

theorem task_ne (h : LiveProcess s p x t g) : x.task ≠ 0 := (h.block _ (x.task_mem p)).ne_zero

theorem owns (h : LiveProcess s p x t g) (hc : s.currentProcess = p) :
    Owns s x t g.space (x.runs p g.space) g.own [] where
  running :=
    { current_ne := hc ▸ h.ne_zero
      at_process := hc ▸ h.at_process
      task_ne := h.task_ne
      at_task := h.at_task
      space := h.space
      holds := h.holds
      live := fun r hr ↦ h.held.live r (List.mem_append_right _ hr) }
  covers := List.subset_append_right _ _
  slots := h.slots
  sizes := h.sizes
  held := (List.append_nil g.own).symm ▸ h.held

omit [LawfulAllocator σ] in
theorem of_owns (h : LiveProcess s p x t g) {table : (ℕ → ℕ) × (ℕ → ℕ)} {own : List (ℕ × ℕ)}
    (hp : s'.processes p = some (x.withTable table))
    (ho : Owns s' (x.withTable table) t g.space (x.runs p g.space) own []) :
    LiveProcess s' p (x.withTable table) t ⟨g.space, own⟩ where
  at_process := hp
  at_task := ho.running.at_task
  process_eq := h.process_eq
  space := h.space
  vspace_lt := h.vspace_lt
  holds := ho.running.holds
  block b hb := (h.block b hb).keep
    (ho.held.live _ (List.mem_append_left _ (List.mem_map_of_mem hb)))
  slots := ho.slots
  sizes := ho.sizes
  held := List.append_nil own ▸ ho.held

omit [LawfulAllocator σ] in
theorem task_ne_of_apart {q : ℕ} {u : Task} {f : Holding} (h : LiveProcess s p x t g)
    (h' : LiveProcess s q y u f) (hap : ∀ r ∈ x.owned p g, ∀ r' ∈ y.owned q f, r.Apart r') :
    x.task ≠ y.task := by
  intro heq
  have hx := h.block _ (x.task_mem p)
  have hy := h'.block _ (y.task_mem q)
  have hmem := hy.page_mem
  dsimp only at hmem
  rw [← heq] at hmem
  refine hap _ (Process.block_owned (x.task_mem p)) _ (Process.block_owned (y.task_mem q)) _
    hx.page_mem ?_
  dsimp only
  rw [← heq]
  exact hmem

end LiveProcess

def ownedAt (s : KernelState σ Fat16Files) (hold : ℕ → Holding) (p : ℕ) : List Run :=
  (s.processes p).elim [] (fun x ↦ x.owned p (hold p))

omit [Allocator σ] in
theorem ownedAt_some (h : s.processes p = some x) : ownedAt s hold p = x.owned p (hold p) := by
  rw [ownedAt, h]
  rfl

/-- What the kernel keeps of its processes: each is complete, no two share
memory, and `process_list` lists them under their numbers. -/
structure KernelInv (s : KernelState σ Fat16Files) (hold : ℕ → Holding) : Prop where
  mounted : Fat16Mounted s.vfs
  live : ∀ p x, s.processes p = some x → ∃ t, LiveProcess s p x t (hold p)
  ledger : Ledger (ownedAt s hold) s.arena.live
  listed : ∀ p x, s.processes p = some x →
    x.pid < processMaxProcesses ∧ s.processList x.pid = p
  slots : ∀ i < processMaxProcesses, s.processList i ≠ 0 →
    ∃ x, s.processes (s.processList i) = some x ∧ x.pid = i

/-- A step that concerns the process at `c` alone: the others are kept, it is
complete or gone, and its memory is what it was or has been taken afresh. -/
structure ProcessStep (s s' : KernelState σ Fat16Files) (hold : ℕ → Holding) (c : ℕ) (g : Holding) :
    Prop where
  disks : s'.vfs.disks = s.vfs.disks
  others : ∀ p ≠ c, s'.processes p = s.processes p
  tasks : ∀ p x, p ≠ c → s.processes p = some x →
    s'.taskList.placeAt x.task = s.taskList.placeAt x.task
  kept : ∀ p x, p ≠ c → s.processes p = some x → ∀ r ∈ x.owned p (hold p),
    Kept r s.arena s'.arena
  self : ∀ x, s'.processes c = some x → ∃ t, LiveProcess s' c x t g
  fresh : ∀ x, s'.processes c = some x → ∀ r ∈ x.owned c g,
    r ∈ ownedAt s hold c ∨ ∀ q ∈ s.arena.live, r.Apart q
  listed : ∀ p x, s'.processes p = some x → x.pid < processMaxProcesses ∧ s'.processList x.pid = p
  slots : ∀ i < processMaxProcesses, s'.processList i ≠ 0 →
    ∃ x, s'.processes (s'.processList i) = some x ∧ x.pid = i

namespace KernelInv

theorem mounted_congr (h : Fat16Mounted s.vfs) (hd : s'.vfs.disks = s.vfs.disks) :
    Fat16Mounted s'.vfs :=
  fun drive fs hfs ↦ h drive fs (hd ▸ hfs)

theorem step (h : KernelInv s hold) (hs : ProcessStep s s' hold c g) :
    KernelInv s' (update hold c g) := by
  have hlive : ∀ p x, s'.processes p = some x → ∃ t, LiveProcess s' p x t (update hold c g p) := by
    intro p x hx
    by_cases hp : p = c
    · subst hp
      rw [update_self]
      exact hs.self x hx
    · rw [update_of_ne hp]
      rw [hs.others p hp] at hx
      obtain ⟨t, ht⟩ := h.live p x hx
      obtain ⟨t', ht', -⟩ := ht.keep (hs.others p hp) (hs.tasks p x hp hx) (hs.kept p x hp hx)
      exact ⟨t', ht'⟩
  have hsame : ∀ p ≠ c, ownedAt s' (update hold c g) p = ownedAt s hold p := by
    intro p hp
    rw [ownedAt, ownedAt, hs.others p hp, update_of_ne hp]
  refine ⟨mounted_congr h.mounted hs.disks, hlive,
    h.ledger.replace hsame (fun p r hr ↦ ?_) (fun r hr p hp q hq ↦ ?_), hs.listed, hs.slots⟩
  · cases hx : s'.processes p with
    | none =>
      rw [ownedAt, hx] at hr
      exact absurd hr List.not_mem_nil
    | some x =>
      obtain ⟨t, ht⟩ := hlive p x hx
      rw [ownedAt_some hx] at hr
      exact ht.owned_live r hr
  · cases hx : s'.processes c with
    | none =>
      rw [ownedAt, hx] at hr
      exact absurd hr List.not_mem_nil
    | some x =>
      rw [ownedAt_some hx, update_self] at hr
      rcases hs.fresh x hx r hr with hold' | hnew
      · exact h.ledger.apart c p (Ne.symm hp) r hold' q hq
      · exact hnew q (h.ledger.live p q hq)

theorem stepSelf (h : KernelInv s hold) (hx : s.processes c = some x)
    (hdisks : s'.vfs.disks = s.vfs.disks) (hlist : s'.processList = s.processList)
    (hprocesses : s'.processes = update s.processes c (some y)) (hpid : y.pid = x.pid)
    (htasks : ∀ u, s'.taskList.placeAt u = s.taskList.placeAt u)
    (hkept : ∀ p z, p ≠ c → s.processes p = some z → ∀ r ∈ z.owned p (hold p),
      Kept r s.arena s'.arena)
    (hself : LiveProcess s' c y t g)
    (hfresh : ∀ r ∈ y.owned c g, r ∈ x.owned c (hold c) ∨ ∀ q ∈ s.arena.live, r.Apart q) :
    ProcessStep s s' hold c g := by
  have hy : s'.processes c = some y := by rw [hprocesses, update_self]
  have hothers : ∀ p ≠ c, s'.processes p = s.processes p := fun p hp ↦ by
    rw [hprocesses, update_of_ne hp]
  refine ⟨hdisks, hothers, fun p z _ _ ↦ htasks _, hkept, fun z hz ↦ ?_, fun z hz r hr ↦ ?_,
    fun p z hz ↦ ?_, fun i hi hne ↦ ?_⟩
  · cases hy.symm.trans hz
    exact ⟨t, hself⟩
  · cases hy.symm.trans hz
    rw [ownedAt_some hx]
    exact hfresh r hr
  · rw [hlist]
    by_cases hp : p = c
    · subst hp
      cases hy.symm.trans hz
      rw [hpid]
      exact h.listed p x hx
    · rw [hothers p hp] at hz
      exact h.listed p z hz
  · rw [hlist] at hne ⊢
    obtain ⟨z, hz, hzi⟩ := h.slots i hi hne
    by_cases hp : s.processList i = c
    · rw [hp] at hz ⊢
      cases hx.symm.trans hz
      exact ⟨y, hy, hpid.trans hzi⟩
    · exact ⟨z, (hothers _ hp).trans hz, hzi⟩

theorem apart (h : KernelInv s hold) (hx : s.processes p = some x) (hy : s.processes c = some y)
    (hne : p ≠ c) : ∀ r ∈ x.owned p (hold p), ∀ q ∈ y.owned c (hold c), r.Apart q := by
  intro r hr q hq
  rw [← ownedAt_some hx] at hr
  rw [← ownedAt_some hy] at hq
  exact h.ledger.apart p c hne r hr q hq

theorem of_pid (h : KernelInv s hold) (hx : s.processes p = some x) (hy : s.processes c = some y)
    (hpid : x.pid = y.pid) : p = c := by
  rw [← (h.listed p x hx).2, ← (h.listed c y hy).2, hpid]

end KernelInv

end GammaOS.Kernel
