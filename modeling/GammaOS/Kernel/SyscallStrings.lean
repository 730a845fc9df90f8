import GammaOS.Display.Screen
import GammaOS.Kernel.Syscall
import GammaOS.Kernel.TaskCopyExact
import Mathlib.Data.List.OfFn

namespace GammaOS.Kernel

open Function Foundation Foundation.Program Memory Paging Fs Loader Display

variable {σ δ : Type} [Allocator σ]

/-- The local buffer of a system call, which held `old`, behind the copy of its
argument. The status of the copy is not looked at. -/
def copyArgument (size : ℕ) (data : List UInt8) (old : Fin size → UInt8) :
    KernelM σ δ (List UInt8) := do
  let task ← currentTask
  let _ ← taskAccessStack task 0
  let task ← currentTask
  let (_, copied) ← copyDataFromTaskToKernel task data size
  pure (copied ++ (List.ofFn old).drop copied.length)

/-- `__0x80_PRINT` with what its local buffer holds: the call of `kputs`, which may
not look for the end of the string behind the buffer. -/
def print0x80 (data : List UInt8) (old : Fin printBufferSize → UInt8) :
    KernelM σ δ PrintCall := do
  let argInKernelSpace ← copyArgument printBufferSize data old
  require (0 ∈ argInKernelSpace) Fault.outOfBounds
  pure (.kputs argInKernelSpace)

/-- The file name that `__0x80_EXEC` passes to `process_new`, which may not look for
its end behind the local buffer. -/
def exec0x80 (data : List UInt8) (old : Fin fsMaxPathLength → UInt8) :
    KernelM σ δ (List UInt8) := do
  let filenameInKernel ← copyArgument fsMaxPathLength data old
  require (0 ∈ filenameInKernel) Fault.outOfBounds
  pure (cString filenameInKernel)

def CopyRefused (size : ℕ) (s : KernelState σ δ) : Prop := (Allocator.kzalloc size s.arena.heap).1 = 0

instance (size : ℕ) (s : KernelState σ δ) : Decidable (CopyRefused size s) :=
  inferInstanceAs (Decidable (_ = 0))

/-- The buffer holds a zero where the string of the task ends. Where the copy is
refused it holds that string. -/
def Terminated (size : ℕ) (data : List UInt8) (old : Fin size → UInt8) (s : KernelState σ δ) : Prop :=
  if CopyRefused size s then 0 ∈ List.ofFn old ∧ cString (List.ofFn old) = data.take (size - 1)
  else ∃ h : data.length < size, old ⟨data.length, h⟩ = 0

variable {s s' : KernelState σ δ} {t : Task} {size : ℕ} {data : List UInt8} {old : Fin size → UInt8}

def copiedOf (size : ℕ) (data : List UInt8) (s : KernelState σ δ) : List UInt8 :=
  if CopyRefused size s then [] else data.take size

theorem copyDataFromTaskToKernel_copied (data : List UInt8) {task : ℕ} (hsize : size ≤ pageSize)
    (htask : task ≠ 0) (ht : s.taskList.tasks task = some t) : ∃ r s',
      copyDataFromTaskToKernel task data size s = .ok ((r, copiedOf size data s), s') := by
  obtain ⟨base, a, ha, hbase⟩ : ∃ base a, kzalloc size s.arena = .ok (base, a) ∧
      (CopyRefused size s ↔ base = 0) := ⟨_, _, rfl, Iff.rfl⟩
  have halloc : onHeap (kzalloc size) s = .ok (base, s.setArena a) := onHeap_eq_ok.mpr ⟨a, ha, rfl⟩
  have htaskAt : onTasks (taskAt task) (s.setArena a) = .ok (t, s.setArena a) :=
    onTasks_taskAt_eq_ok.mpr ⟨htask, ht, rfl⟩
  unfold copyDataFromTaskToKernel copiedOf
  rw [if_neg (by omega), bind_run_ok halloc]
  by_cases hp : base = 0
  · rw [if_pos hp, if_pos (hbase.mpr hp)]
    exact ⟨_, _, rfl⟩
  · rw [if_neg hp, if_neg (fun hc ↦ hp (hbase.mp hc)), bind_run_ok htaskAt]
    exact ⟨_, _, rfl⟩

theorem copyArgument_copy {r : ℤ} {copied : List UInt8} (h0 : s.taskList.curTask ≠ 0)
    (ht : s.taskList.tasks s.taskList.curTask = some t)
    (h : copyDataFromTaskToKernel s.taskList.curTask data size
      { s with currentPageDirectory := s.arena.mem.load32 s.kernelSpace } = .ok ((r, copied), s')) :
    copyArgument size data old s = .ok (copied ++ (List.ofFn old).drop copied.length, s') := by
  refine (bind_run_ok (m := currentTask) rfl).trans ?_
  refine (bind_run_ok (taskAccessStack_total h0 ht)).trans ?_
  refine (bind_run_ok (m := currentTask) rfl).trans ?_
  exact (bind_run_ok h).trans rfl

theorem copyArgument_run (data : List UInt8) (hsize : size ≤ pageSize) (h0 : s.taskList.curTask ≠ 0)
    (ht : s.taskList.tasks s.taskList.curTask = some t) (old : Fin size → UInt8) :
    ∃ s', copyArgument size data old s =
      .ok (copiedOf size data s ++ (List.ofFn old).drop (copiedOf size data s).length, s') := by
  obtain ⟨r, s', hcopy⟩ := copyDataFromTaskToKernel_copied data
    (s := { s with currentPageDirectory := s.arena.mem.load32 s.kernelSpace }) hsize h0 ht
  exact ⟨s', copyArgument_copy h0 ht hcopy⟩

theorem cString_append {l r : List UInt8} (h : 0 ∉ l) : cString (l ++ r) = l ++ cString r :=
  List.takeWhile_append_of_pos (fun _ hc ↦ decide_eq_true (fun he ↦ h (he ▸ hc)))

theorem cString_nil_iff {c : UInt8} {r : List UInt8} : cString (c :: r) = [] ↔ c = 0 := by
  simp [cString, List.takeWhile_cons]

theorem buffer_iff (hd : 0 ∉ data) (old : Fin size → UInt8) (s : KernelState σ δ) :
    (0 ∈ copiedOf size data s ++ (List.ofFn old).drop (copiedOf size data s).length ∧
      cString (copiedOf size data s ++ (List.ofFn old).drop (copiedOf size data s).length) =
        data.take (size - 1)) ↔ Terminated size data old s := by
  unfold copiedOf Terminated
  by_cases hr : CopyRefused size s
  · simp only [if_pos hr, List.nil_append, List.length_nil, List.drop_zero]
  simp only [if_neg hr]
  by_cases hlt : data.length < size
  · have hold : (List.ofFn old).drop data.length =
        old ⟨data.length, hlt⟩ :: (List.ofFn old).drop (data.length + 1) := by
      rw [List.drop_eq_getElem_cons (by simpa using hlt), List.getElem_ofFn]
    rw [List.take_of_length_le (Nat.le_of_lt hlt), List.take_of_length_le (Nat.le_sub_one_of_lt hlt), hold,
      cString_append hd, List.append_right_eq_self, cString_nil_iff]
    constructor
    · exact fun h ↦ ⟨hlt, h.2⟩
    · exact fun ⟨_, h⟩ ↦ ⟨by simp [h], h⟩
  · -- the buffer is full, and has no zero
    have hdrop : (List.ofFn old).drop (data.take size).length = [] := by
      rw [List.drop_eq_nil_iff, List.length_ofFn, List.length_take]
      omega
    rw [hdrop, List.append_nil]
    exact iff_of_false (fun h ↦ hd (List.mem_of_mem_take h.1)) (fun h ↦ hlt h.1)

theorem print0x80_run {old : Fin printBufferSize → UInt8} {buffer : List UInt8}
    (h : copyArgument printBufferSize data old s = .ok (buffer, s')) (hzero : 0 ∈ buffer) :
    print0x80 data old s = .ok (.kputs buffer, s') :=
  (bind_run_ok h).trans ((bind_run_ok (require_run hzero)).trans rfl)

theorem exec0x80_run {old : Fin fsMaxPathLength → UInt8} {buffer : List UInt8}
    (h : copyArgument fsMaxPathLength data old s = .ok (buffer, s')) (hzero : 0 ∈ buffer) :
    exec0x80 data old s = .ok (cString buffer, s') :=
  (bind_run_ok h).trans ((bind_run_ok (require_run hzero)).trans rfl)

theorem print0x80_iff (h0 : s.taskList.curTask ≠ 0)
    (ht : s.taskList.tasks s.taskList.curTask = some t) (hd : 0 ∉ data)
    (old : Fin printBufferSize → UInt8) :
    (∃ call s', print0x80 data old s = .ok (call, s') ∧
      call.chars = (data.take (printBufferSize - 1)).map .char) ↔
        Terminated printBufferSize data old s := by
  obtain ⟨s', hrun⟩ := copyArgument_run data (by decide) h0 ht old
  rw [← buffer_iff hd old s]
  constructor
  · rintro ⟨call, s₁, h, hc⟩
    rw [print0x80, bind_run_ok hrun] at h
    obtain ⟨_, s₂, h₁, h⟩ := bind_eq_ok.mp h
    obtain ⟨hzero, rfl⟩ := require_eq_ok.mp h₁
    cases h
    exact ⟨hzero, List.map_injective_iff.mpr (fun _ _ ↦ Printed.char.inj) hc⟩
  · rintro ⟨hzero, hc⟩
    exact ⟨_, s', print0x80_run hrun hzero, congrArg (List.map Printed.char) hc⟩

theorem exec0x80_iff (h0 : s.taskList.curTask ≠ 0)
    (ht : s.taskList.tasks s.taskList.curTask = some t) (hd : 0 ∉ data)
    (old : Fin fsMaxPathLength → UInt8) :
    (∃ s', exec0x80 data old s = .ok (data.take (fsMaxPathLength - 1), s')) ↔
      Terminated fsMaxPathLength data old s := by
  obtain ⟨s', hrun⟩ := copyArgument_run data (by decide) h0 ht old
  rw [← buffer_iff hd old s]
  constructor
  · rintro ⟨s₁, h⟩
    rw [exec0x80, bind_run_ok hrun] at h
    obtain ⟨_, s₂, h₁, h⟩ := bind_eq_ok.mp h
    obtain ⟨hzero, rfl⟩ := require_eq_ok.mp h₁
    exact ⟨hzero, (Prod.mk.inj (Except.ok.inj h)).1⟩
  · rintro ⟨hzero, hc⟩
    exact ⟨s', hc ▸ exec0x80_run hrun hzero⟩

/-- `execFilename` names the same file when it is given the old bytes behind the string. -/
theorem exec0x80_execFilename (h0 : s.taskList.curTask ≠ 0)
    (ht : s.taskList.tasks s.taskList.curTask = some t) (hd : 0 ∉ data)
    {old : Fin fsMaxPathLength → UInt8} {name : List UInt8} (h : exec0x80 data old s = .ok (name, s')) :
    execFilename data (cString ((List.ofFn old).drop (copiedOf fsMaxPathLength data s).length)) s =
      .ok (name, s') := by
  obtain ⟨r, s₁, hcopy⟩ := copyDataFromTaskToKernel_copied data
    (s := { s with currentPageDirectory := s.arena.mem.load32 s.kernelSpace })
    (by decide : fsMaxPathLength ≤ pageSize) h0 ht
  have hno : 0 ∉ copiedOf fsMaxPathLength data s := by
    unfold copiedOf
    split
    · exact List.not_mem_nil
    · exact fun hc ↦ hd (List.mem_of_mem_take hc)
  rw [exec0x80, bind_run_ok (copyArgument_copy h0 ht hcopy)] at h
  obtain ⟨_, s₂, h₁, h⟩ := bind_eq_ok.mp h
  obtain ⟨-, rfl⟩ := require_eq_ok.mp h₁
  obtain ⟨rfl, rfl⟩ := Prod.mk.inj (Except.ok.inj h)
  refine (bind_run_ok (m := currentTask) rfl).trans ?_
  refine (bind_run_ok (taskAccessStack_total h0 ht)).trans ?_
  rw [bind_run_ok hcopy]
  exact congrArg (fun name ↦ Except.ok (name, s₁)) (cString_append hno).symm

theorem CopiedExactly.buffer {δ : Type} {s s' : KernelState (KHeap false) δ} {S : Space}
    {addrInKern n base : ℕ} {f : ℕ → ℕ} (h : CopiedExactly s s' S addrInKern n base f) (hn : n ≤ size)
    (hsize : size ≤ pageSize) (hoff : ∀ i < size, pageOf (u32 (addrInKern + i)) ≠ pageOf base) :
    List.ofFn (fun i : Fin size ↦ s'.arena.mem (u32 (addrInKern + i))) =
      (List.range n).map (fun i ↦ s.arena.mem (f i)) ++
        (List.ofFn (fun i : Fin size ↦ s.arena.mem (u32 (addrInKern + i)))).drop n := by
  refine List.ext_getElem (by simp; omega) (fun i h₁ h₂ ↦ ?_)
  rw [List.length_ofFn] at h₁
  rw [List.getElem_ofFn]
  by_cases hi : i < n
  · rw [List.getElem_append_left (by simpa using hi), List.getElem_map, List.getElem_range]
    exact h.string i hi
  · rw [List.getElem_append_right (by simpa using hi), List.getElem_drop, List.getElem_ofFn]
    simp only [List.length_map, List.length_range, Nat.add_sub_cancel' (Nat.le_of_not_lt hi)]
    refine h.rest _ (hoff i h₁) (fun j hj he ↦ ?_)
    exact hi (u32_window_inj hsize h₁ (by omega) he ▸ hj)

def PrintsAlike (data : List UInt8) (old₁ old₂ : Fin printBufferSize → UInt8)
    (s : KernelState σ δ) : Prop :=
  ∃ call₁ call₂ s₁ s₂, print0x80 data old₁ s = .ok (call₁, s₁) ∧ print0x80 data old₂ s = .ok (call₂, s₂) ∧
    call₁.chars = call₂.chars ∧ call₁.chars = (data.take (printBufferSize - 1)).map .char

def PassesAlike (data : List UInt8) (old₁ old₂ : Fin fsMaxPathLength → UInt8)
    (s : KernelState σ δ) : Prop :=
  ∃ name₁ name₂ s₁ s₂, exec0x80 data old₁ s = .ok (name₁, s₁) ∧ exec0x80 data old₂ s = .ok (name₂, s₂) ∧
    name₁ = name₂ ∧ name₁ = data.take (fsMaxPathLength - 1) ∧ name₁.length < fsMaxPathLength

theorem copyArgument_length {buffer : List UInt8} (hsize : size ≤ pageSize)
    (h0 : s.taskList.curTask ≠ 0) (ht : s.taskList.tasks s.taskList.curTask = some t)
    (h : copyArgument size data old s = .ok (buffer, s')) : buffer.length = size := by
  obtain ⟨s₁, hrun⟩ := copyArgument_run data hsize h0 ht old
  cases hrun.symm.trans h
  have hle : (copiedOf size data s).length ≤ size := by
    unfold copiedOf
    split
    · exact Nat.zero_le _
    · exact List.length_take_le _ _
  rw [List.length_append, List.length_drop, List.length_ofFn]
  omega

/-- What a string of a task comes to does not depend on the old bytes of the local
buffer exactly when these hold a zero where it ends, or it itself where nothing
is copied. The copy stays in the buffer. -/
theorem syscall_strings_iff (h0 : s.taskList.curTask ≠ 0)
    (ht : s.taskList.tasks s.taskList.curTask = some t) (hd : 0 ∉ data) :
    (∀ old₁ old₂, PrintsAlike data old₁ old₂ s ↔
      Terminated printBufferSize data old₁ s ∧ Terminated printBufferSize data old₂ s) ∧
    (∀ old₁ old₂, PassesAlike data old₁ old₂ s ↔
      Terminated fsMaxPathLength data old₁ s ∧ Terminated fsMaxPathLength data old₂ s) ∧
    ∀ (size : ℕ) (old : Fin size → UInt8) (buffer : List UInt8) (s' : KernelState σ δ),
      size ≤ pageSize → copyArgument size data old s = .ok (buffer, s') → buffer.length = size := by
  refine ⟨fun old₁ old₂ ↦ ?_, fun old₁ old₂ ↦ ?_, fun size old buffer s' hsize h ↦
    copyArgument_length hsize h0 ht h⟩
  · rw [← print0x80_iff h0 ht hd old₁, ← print0x80_iff h0 ht hd old₂]
    constructor
    · rintro ⟨c₁, c₂, s₁, s₂, h₁, h₂, he, hc⟩
      exact ⟨⟨c₁, s₁, h₁, hc⟩, c₂, s₂, h₂, he.symm.trans hc⟩
    · rintro ⟨⟨c₁, s₁, h₁, hc₁⟩, c₂, s₂, h₂, hc₂⟩
      exact ⟨c₁, c₂, s₁, s₂, h₁, h₂, hc₁.trans hc₂.symm, hc₁⟩
  · rw [← exec0x80_iff h0 ht hd old₁, ← exec0x80_iff h0 ht hd old₂]
    constructor
    · rintro ⟨_, _, s₁, s₂, h₁, h₂, rfl, rfl, -⟩
      exact ⟨⟨s₁, h₁⟩, s₂, h₂⟩
    · rintro ⟨⟨s₁, h₁⟩, s₂, h₂⟩
      refine ⟨_, _, s₁, s₂, h₁, h₂, rfl, rfl, ?_⟩
      rw [List.length_take]
      exact Nat.lt_of_le_of_lt (Nat.min_le_left _ _) (by decide)

def callingKernel : KernelState (KHeap false) Unit :=
  { idleKernel (freshArena false) 0 with
    taskList := { (idleKernel (freshArena false) 0).taskList with curTask := 2 } }

theorem callingKernel_granted {size : ℕ} (hpos : 0 < size) (hsize : size ≤ pageSize) :
    ¬ CopyRefused size callingKernel := by
  obtain ⟨p, a, h, hp, -⟩ := kzallocOne_total (blocksOf_one hpos hsize) 0 (freshArena false)
    (freshArena_room false (by decide))
  exact fun hc ↦ hp ((Prod.mk.inj (Except.ok.inj h)).1.symm.trans hc)

theorem syscall_strings_iff_calling : PrintsAlike [97] (fun _ ↦ 0) (fun _ ↦ 0) callingKernel ∧
    PassesAlike [97] (fun _ ↦ 0) (fun _ ↦ 0) callingKernel := by
  have hterm : ∀ size, 1 < size → size ≤ pageSize →
      Terminated size [97] (fun _ ↦ 0) callingKernel := by
    intro size hpos hsize
    rw [Terminated, if_neg (callingKernel_granted (by omega) hsize)]
    exact ⟨hpos, rfl⟩
  obtain ⟨hprint, hexec, -⟩ := syscall_strings_iff (s := callingKernel)
    (by decide) rfl (by decide : 0 ∉ ([97] : List UInt8))
  have h₁ := hterm printBufferSize (by decide) (by decide)
  have h₂ := hterm fsMaxPathLength (by decide) (by decide)
  exact ⟨(hprint _ _).mpr ⟨h₁, h₁⟩, (hexec _ _).mpr ⟨h₂, h₂⟩⟩

def staleBytes (size : ℕ) : Fin size → UInt8 := fun i ↦ if i.val = 1 then 98 else 0

theorem copyArgument_calling (size : ℕ) (hsize : size ≤ pageSize) (hpos : 2 < size) :
    ∃ r₁ r₂ s₁ s₂, copyArgument size [97] (fun _ ↦ 0) callingKernel = .ok (97 :: 0 :: r₁, s₁) ∧
      copyArgument size [97] (staleBytes size) callingKernel = .ok (97 :: 98 :: 0 :: r₂, s₂) := by
  have hcopied : copiedOf size [97] callingKernel = [97] := by
    rw [copiedOf, if_neg (callingKernel_granted (by omega) hsize),
      List.take_of_length_le (Nat.le_of_lt (Nat.lt_of_succ_lt hpos))]
  obtain ⟨s₁, h₁⟩ := copyArgument_run (s := callingKernel) [97] hsize (by decide) rfl
    (fun _ : Fin size ↦ 0)
  obtain ⟨s₂, h₂⟩ := copyArgument_run (s := callingKernel) [97] hsize (by decide) rfl
    (staleBytes size)
  rw [hcopied] at h₁ h₂
  obtain ⟨k, rfl⟩ := Nat.exists_eq_add_of_le' hpos
  refine ⟨List.replicate (k + 1) 0, List.ofFn (fun _ : Fin k ↦ 0), s₁, s₂, h₁.trans ?_, h₂.trans ?_⟩
  · simp [List.ofFn_succ, List.replicate_succ]
  · simp [List.ofFn_succ, staleBytes]

/-- The same string comes to two: a byte of an earlier string follows it. -/
theorem stale_bytes_delivered :
    (∃ call₁ call₂ s₁ s₂, print0x80 [97] (fun _ ↦ 0) callingKernel = .ok (call₁, s₁) ∧
      print0x80 [97] (staleBytes printBufferSize) callingKernel = .ok (call₂, s₂) ∧
      call₁.chars = [.char 97] ∧ call₂.chars = [.char 97, .char 98]) ∧
    ∃ s₁ s₂, exec0x80 [97] (fun _ ↦ 0) callingKernel = .ok ([97], s₁) ∧
      exec0x80 [97] (staleBytes fsMaxPathLength) callingKernel = .ok ([97, 98], s₂) := by
  obtain ⟨_, _, s₁, s₂, h₁, h₂⟩ := copyArgument_calling printBufferSize (by decide) (by decide)
  obtain ⟨_, _, s₃, s₄, h₃, h₄⟩ := copyArgument_calling fsMaxPathLength (by decide) (by decide)
  exact ⟨⟨_, _, s₁, s₂, print0x80_run h₁ (by simp), print0x80_run h₂ (by simp), rfl, rfl⟩,
    s₃, s₄, exec0x80_run h₃ (by simp), exec0x80_run h₄ (by simp)⟩

end GammaOS.Kernel
