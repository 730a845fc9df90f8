import GammaOS.Fs.Fat16Laws
import GammaOS.Memory.Blocks

namespace GammaOS.Fs

open Function Foundation Foundation.Program Memory

section State

variable {σ δ α : Type} {s t : Vfs σ δ} {fd x : ℤ}

theorem openAt_congr (h : t.fdList = s.fdList) (fd : ℤ) : t.openAt fd = s.openAt fd := by
  rw [Vfs.openAt, Vfs.openAt, h]

theorem onHeapDrive_eq_ok {m : ArenaM σ α} {y : α} (h : onDrive (onArena m) s = .ok (y, t)) :
    ∃ b, m s.drive.arena = .ok (y, b) ∧ t = { s with drive := { s.drive with arena := b } } := by
  obtain ⟨d, hd, rfl⟩ := onDrive_eq_ok.mp h
  obtain ⟨b, hb, rfl⟩ := onArena_eq_ok.mp hd
  exact ⟨b, hb, rfl⟩

theorem delegates_none {call : FileDescriptor σ δ → DriveM σ δ α} (h : Delegates s fd x t call)
    (ho : s.openAt fd = none) : t = s := by
  rw [Delegates, ho] at h
  exact h.2

theorem delegates_some {call : FileDescriptor σ δ → DriveM σ δ α} (h : Delegates s fd x t call)
    {d : FileDescriptor σ δ} (ho : s.openAt fd = some d) :
    ∃ y u, call d s.drive = .ok (y, u) ∧ t = { s with drive := u } := by
  rw [Delegates, ho] at h
  obtain ⟨y, u, hy, -, rfl⟩ := h
  exact ⟨y, u, hy, rfl⟩

theorem handleAt_bind {h : ℕ} {k : Fat16FileDescriptor → DriveM σ Fat16Files α}
    {d d' : Drive σ Fat16Files} {y : α} (hr : (handleAt h >>= k) d = .ok (y, d')) :
    ∃ f, d.files h = some f ∧ k f d = .ok (y, d') := by
  obtain ⟨f, d₁, h₁, hr⟩ := bind_eq_ok.mp hr
  obtain ⟨hf, rfl⟩ := handleAt_eq_ok.mp h₁
  exact ⟨f, hf, hr⟩

end State

variable {σ α : Type} [Allocator σ] {s t : Vfs σ Fat16Files} {fd x : ℤ} {r : Run} {s₀ : Arena σ}
  {v : Fat16Volume} {alien : ByteMemory} {a a' : Arena σ}

def Fat16Mounted (s : Vfs σ Fat16Files) : Prop :=
  ∀ drive fs, s.disks drive = some fs → ∃ v, fs = fat16 v

def FdOff (r : Run) (fd : ℤ) (s : Vfs σ Fat16Files) : Prop :=
  ∀ d, s.openAt fd = some d →
    (∃ v, d.fs = fat16 v) ∧ HandleOff r d.fsFileDescriptor s.drive.files

def Fat16Unit.SizeOk (u : Fat16Unit) : Prop :=
  ∀ p file, u.content = .file (some (p, file)) → file.size < 2 ^ 32

structure Opened (s : Vfs σ Fat16Files) (fd : ℤ) : Prop where
  fat16 : ∀ d, s.openAt fd = some d → ∃ v, d.fs = fat16 v
  size : ∀ d, s.openAt fd = some d → ∀ f, s.drive.files d.fsFileDescriptor = some f →
    f.unit.SizeOk
  held : ∀ d, s.openAt fd = some d → ∀ f, s.drive.files d.fsFileDescriptor = some f →
    ∀ a ∈ d.fsFileDescriptor :: f.unit.blocks, Held s.drive.arena a

theorem FdOff.onHeap (h : FdOff r fd s) {m : ArenaM σ α} {y : α}
    (hm : onDrive (onArena m) s = .ok (y, t)) : FdOff r fd t := by
  obtain ⟨b, -, rfl⟩ := onHeapDrive_eq_ok hm
  exact h

theorem Opened.onHeap (h : Opened s fd) {m : ArenaM σ α} {y : α}
    (hm : onDrive (onArena m) s = .ok (y, t))
    (hl : ∀ q ∈ s.drive.arena.live, q ∈ t.drive.arena.live) : Opened t fd := by
  obtain ⟨b, -, rfl⟩ := onHeapDrive_eq_ok hm
  exact ⟨h.fat16, h.size, fun d hd f hf a ha ↦ (h.held d hd f hf a ha).mono hl⟩

theorem fileAt_size (dir : Fat16Directory) (alien : ByteMemory) (i : ℕ) :
    (dir.fileAt alien i).size < 2 ^ 32 :=
  ByteMemory.load32_lt _ _

theorem fat16NewFatUnitForDirectoryUnit_size {file : Fat16File} {unit : Option Fat16Unit}
    (hs : file.size < 2 ^ 32) (h : fat16NewFatUnitForDirectoryUnit v file a = .ok (unit, a')) :
    ∀ u ∈ unit, u.SizeOk := by
  obtain ⟨p, s₁, h₁, h⟩ := bind_eq_ok.mp h
  split at h
  · cases h
    rintro u ⟨⟩
  split at h
  · obtain ⟨dir, s₂, h₂, h⟩ := bind_eq_ok.mp h
    cases h
    rintro u ⟨⟩ q f hf
    cases hf
  · obtain ⟨copy, s₂, h₂, h⟩ := bind_eq_ok.mp h
    cases h
    rintro u ⟨⟩ q f hf
    obtain ⟨c, s₃, h₃, h₂⟩ := bind_eq_ok.mp h₂
    split at h₂ <;> cases h₂ <;> cases hf
    exact hs

theorem findUnitLoop_size {dir : Fat16Directory} {unitStr : Option UnitStr} :
    ∀ n dirUnit (unit unit' : Option Fat16Unit) (a a' : Arena σ), (∀ u ∈ unit, u.SizeOk) →
      findUnitLoop v alien dir unitStr n dirUnit unit a = .ok (unit', a') →
      ∀ u ∈ unit', u.SizeOk := by
  intro n
  induction n with
  | zero =>
    intro dirUnit unit unit' a a' hu h
    cases h
    exact hu
  | succ n ih =>
    intro dirUnit unit unit' a a' hu h
    cases unitStr with
    | none => cases h
    | some str =>
      rw [findUnitLoop] at h
      split at h
      · obtain ⟨unit₁, s₁, h₁, h⟩ := bind_eq_ok.mp h
        exact ih _ _ _ _ _ (fat16NewFatUnitForDirectoryUnit_size (fileAt_size _ _ _) h₁) h
      · exact ih _ _ _ _ _ hu h

theorem fat16FindUnitInDirectory_size {dir : Fat16Directory} {unitStr : Option UnitStr}
    {unit : Option Fat16Unit} (h : fat16FindUnitInDirectory v alien dir unitStr a = .ok (unit, a')) :
    ∀ u ∈ unit, u.SizeOk :=
  findUnitLoop_size _ _ none _ _ _ (by rintro u ⟨⟩) h

theorem getUnitLoop_size : ∀ (rest : List UnitStr) (unit unit' : Option Fat16Unit)
    (a a' : Arena σ), (∀ u ∈ unit, u.SizeOk) →
    getUnitLoop v alien rest unit a = .ok (unit', a') → ∀ u ∈ unit', u.SizeOk := by
  intro rest
  induction rest with
  | nil =>
    intro unit unit' a a' hu h
    cases h
    exact hu
  | cons next rest ih =>
    intro unit unit' a a' hu h
    rcases unit with _ | ⟨addr, (_ | ⟨p, dir⟩) | file⟩
    · cases h
    · cases h
    · obtain ⟨unit₁, s₁, h₁, h⟩ := bind_eq_ok.mp h
      exact ih _ _ _ _ (fat16FindUnitInDirectory_size h₁) h
    · cases h
      rintro u ⟨⟩

theorem fat16GetUnit_size {path : Path} {unit : Option Fat16Unit}
    (h : fat16GetUnit v alien path a = .ok (unit, a')) : ∀ u ∈ unit, u.SizeOk := by
  obtain ⟨root, s₁, h₁, h⟩ := bind_eq_ok.mp h
  have hr := fat16FindUnitInDirectory_size h₁
  cases root with
  | none =>
    cases h
    rintro u ⟨⟩
  | some root => exact getUnitLoop_size _ _ _ _ _ hr h

theorem Opened.stat (h : Opened s fd) (hfd : IsInt32 fd) {st : Option FileStat}
    (hr : vfsFstat fd s = .ok ((x, st), t)) : t = s ∧ ∀ f ∈ st, f.size < 2 ^ 32 := by
  rw [vfsFstat, getFileDescriptor_bind hfd] at hr
  cases hd : s.openAt fd with
  | none =>
    rw [hd] at hr
    cases hr
    exact ⟨rfl, by rintro f ⟨⟩⟩
  | some d =>
    rw [hd] at hr
    obtain ⟨⟨y, st'⟩, s₁, h₁, hr⟩ := bind_eq_ok.mp hr
    cases hr
    obtain ⟨u, hu, rfl⟩ := onDrive_eq_ok.mp h₁
    obtain ⟨v, hv⟩ := h.fat16 d hd
    rw [hv] at hu
    have hstate : u = s.drive := fat16Stat_state hu
    obtain ⟨f, hf, hu⟩ := handleAt_bind hu
    refine ⟨by rw [hstate], ?_⟩
    have hsize := h.size d hd f hf
    obtain ⟨⟨addr, dir | file⟩, pos⟩ := f
    · cases hu
      rintro f ⟨⟩
    · rcases file with _ | ⟨p, file⟩ <;> cases hu
      rintro f ⟨⟩
      exact hsize p file rfl

theorem read_state (h : ∀ d, s.openAt fd = some d → ∃ v, d.fs = Fs.fat16 v) (hfd : IsInt32 fd)
    {dest size nmemb : ℕ} (hr : vfsFread dest size nmemb fd s = .ok (x, t)) :
    t.drive.files = s.drive.files ∧ t.drive.arena.heap = s.drive.arena.heap ∧
      t.fdList = s.fdList ∧ t.disks = s.disks := by
  have hdel := vfsFread_delegates hfd hr
  cases hd : s.openAt fd with
  | none =>
    rw [delegates_none hdel hd]
    exact ⟨rfl, rfl, rfl, rfl⟩
  | some d =>
    obtain ⟨y, u, hy, rfl⟩ := delegates_some hdel hd
    obtain ⟨v, hv⟩ := h d hd
    rw [hv] at hy
    exact ⟨(fat16Read_files hy).1, (fat16Read_files hy).2, rfl, rfl⟩

theorem FdOff.read (h : FdOff r fd s) (hfd : IsInt32 fd) {dest size nmemb : ℕ}
    (hr : vfsFread dest size nmemb fd s = .ok (x, t)) : FdOff r fd t := by
  obtain ⟨hfiles, -, hlist, -⟩ := read_state (fun d hd ↦ (h d hd).1) hfd hr
  intro d hd
  rw [openAt_congr hlist] at hd
  rw [hfiles]
  exact h d hd

theorem Opened.read (h : Opened s fd) (hfd : IsInt32 fd) {dest size nmemb : ℕ}
    (hr : vfsFread dest size nmemb fd s = .ok (x, t)) : Opened t fd := by
  obtain ⟨hfiles, hheap, hlist, -⟩ := read_state h.fat16 hfd hr
  have ho := openAt_congr hlist fd
  have hlive : t.drive.arena.live = s.drive.arena.live := congrArg Allocator.live hheap
  refine ⟨fun d hd ↦ h.fat16 d (ho ▸ hd), fun d hd f hf ↦ ?_, fun d hd f hf a ha ↦ ?_⟩
  · rw [hfiles] at hf
    exact h.size d (ho ▸ hd) f hf
  · rw [hfiles] at hf
    exact (h.held d (ho ▸ hd) f hf a ha).mono (fun q hq ↦ by rwa [hlive])

section Lawful

variable [LawfulAllocator σ]

omit [LawfulAllocator σ] in
theorem read_kept (h : ∀ d, s.openAt fd = some d → ∃ v, d.fs = Fs.fat16 v) (hfd : IsInt32 fd)
    {dest size : ℕ} (hlt : dest < 2 ^ 32) (hle : dest + size ≤ 2 ^ 32) (hc : Clear r dest size)
    (hr : vfsFread dest size 1 fd s = .ok (x, t)) (hk : Kept r s₀ s.drive.arena) :
    Kept r s₀ t.drive.arena := by
  have hdel := vfsFread_delegates hfd hr
  cases hd : s.openAt fd with
  | none =>
    rw [delegates_none hdel hd]
    exact hk
  | some d =>
    obtain ⟨y, u, hy, rfl⟩ := delegates_some hdel hd
    obtain ⟨v, hv⟩ := h d hd
    rw [hv] at hy
    obtain ⟨f, -, hy⟩ := handleAt_bind hy
    obtain ⟨⟨addr, dir | file⟩, pos⟩ := f
    · cases hy
      exact hk
    · rcases file with _ | ⟨p, file⟩
      · cases hy
      · obtain ⟨_, u₁, h₁, hy⟩ := bind_eq_ok.mp hy
        obtain ⟨b, hb, rfl⟩ := onArena_eq_ok.mp h₁
        cases hy
        rw [← Nat.mul_one size] at hle hc
        exact readMembers_kept 1 _ _ _ hlt hle hc _ hk _ _ hb

theorem fclose_kept (ho : FdOff r fd s) (hfd : IsInt32 fd) (hr : vfsFclose fd s = .ok (x, t))
    (hk : Kept r s₀ s.drive.arena) : Kept r s₀ t.drive.arena := by
  have hc := vfsFclose_cases hfd hr
  cases hd : s.openAt fd with
  | none =>
    rw [hd] at hc
    rw [hc.2]
    exact hk
  | some d =>
    rw [hd] at hc
    obtain ⟨y, u, hy, rfl⟩ := hc
    obtain ⟨⟨v, hv⟩, hoff⟩ := ho d hd
    rw [hv] at hy
    exact fat16Close_kept _ ⟨hk, hoff⟩ _ _ hy

omit [LawfulAllocator σ] in
theorem Held.off {p : ℕ} (h : Held a p) (hap : ∀ q ∈ a.live, r.Apart q) (hr : 0 < r.first) :
    Off r p := by
  rcases h with rfl | ⟨q, hq, hm⟩
  · intro hm
    have hle := (Run.mem_iff.mp hm).1
    simp [pageOf, u32] at hle
    omega
  · exact fun hm' ↦ hap q hq _ hm' hm

omit [LawfulAllocator σ] in
theorem Opened.off (h : Opened s fd) (hap : ∀ q ∈ s.drive.arena.live, r.Apart q)
    (hr : 0 < r.first) : FdOff r fd s := by
  refine fun d hd ↦ ⟨h.fat16 d hd, fun f hf ↦ ?_⟩
  have hoff := fun b hb ↦ (h.held d hd f hf b hb).off hap hr
  exact ⟨hoff _ List.mem_cons_self, unitOff_iff.mpr (fun b hb ↦ hoff b (List.mem_cons_of_mem _ hb))⟩

variable {filename : List UInt8} {mode : UInt8}

omit [LawfulAllocator σ] in
theorem fopen_disks (h : vfsFopen alien filename mode s = .ok (x, t)) : t.disks = s.disks := by
  cases vfsFopen_result h <;> rfl

theorem fopen_parsed (hm : Fat16Mounted s) (h : vfsFopen alien filename mode s = .ok (x, t))
    (hmode : mode ≠ modeInvalid) :
    ∃ path a, parsePath alien filename s.drive.arena = .ok (some path, a) ∧
      ∀ (r : Run) (s₀ : Arena σ), Kept r s₀ a →
        Kept r s₀ t.drive.arena ∧ (0 ≤ x → FdOff r x t) := by
  cases vfsFopen_result h with
  | badMode hmode' _ => exact absurd hmode' hmode
  | badDrive hp hneg => exact ⟨_, _, hp, fun r s₀ hk ↦ ⟨hk, fun hx ↦ by omega⟩⟩
  | refused hp hfs ho _ hneg =>
    obtain ⟨v, rfl⟩ := hm _ _ hfs
    exact ⟨_, _, hp, fun r s₀ hk ↦ ⟨(fat16Open_kept _ _ _ hk _ _ ho).1, fun hx ↦ by omega⟩⟩
  | opened hp hfs ho hne hi hz =>
    obtain ⟨v, rfl⟩ := hm _ _ hfs
    refine ⟨_, _, hp, fun r s₀ hk ↦ ?_⟩
    obtain ⟨hk₁, hoff⟩ := fat16Open_kept _ _ _ hk _ _ ho
    refine ⟨(kzallocUnchecked_kept _ _ hk₁ _ _ hz).1, fun _ d hd ↦ ?_⟩
    obtain ⟨-, -, hd⟩ := openAt_some hd
    rw [Int.toNat_natCast] at hd
    cases (update_self _ _ _).symm.trans hd
    exact ⟨⟨v, rfl⟩, hoff hne⟩

theorem fopen_kept (hm : Fat16Mounted s) (h : vfsFopen alien filename mode s = .ok (x, t))
    (hk : Kept r s₀ s.drive.arena) : Kept r s₀ t.drive.arena ∧ (0 ≤ x → FdOff r x t) := by
  by_cases hmode : mode = modeInvalid
  · rw [vfsFopen, if_pos hmode] at h
    cases h
    exact ⟨hk, fun hx ↦ absurd hx (by decide)⟩
  · obtain ⟨path, a, hp, hkeep⟩ := fopen_parsed hm h hmode
    exact hkeep r s₀ (parsePath_kept _ hk _ _ hp)

theorem fopen_opened (hm : Fat16Mounted s) (h : vfsFopen alien filename mode s = .ok (x, t))
    (hx : 0 ≤ x) : IsInt32 x ∧ Opened t x := by
  cases vfsFopen_result h with
  | badMode _ hneg => omega
  | badDrive hp hneg => omega
  | refused hp hfs ho _ hneg => omega
  | @opened path a b fs handle p index u hp hfs ho hne hi hz =>
    obtain ⟨v, rfl⟩ := hm _ _ hfs
    have hlt := (freeIndex_some hi).1
    unfold fsTotalFileDescriptors at hlt
    refine ⟨⟨by omega, by omega⟩, ?_⟩
    have hd : ∀ d, Vfs.openAt { s.setFd index (some ⟨index, Fs.fat16 v, handle⟩) with
        drive := { u with arena := b } } (index : ℤ) = some d → d = ⟨index, Fs.fat16 v, handle⟩ := by
      intro d hd
      obtain ⟨-, -, hd⟩ := openAt_some hd
      rw [Int.toNat_natCast] at hd
      cases (update_self _ _ _).symm.trans hd
      rfl
    obtain ⟨h0, -⟩ | ⟨-, unit, c, hz', hu, hf⟩ := fat16Open_cases ho
    · exact absurd h0 hne
    have hunit : ∀ f, u.files handle = some f → f = ⟨unit, 0⟩ := by
      intro f hf'
      rw [hf, update_self] at hf'
      exact (Option.some.inj hf').symm
    refine ⟨fun d hd' ↦ ⟨v, by rw [hd d hd']⟩, fun d hd' f hf' ↦ ?_, fun d hd' f hf' k hk ↦ ?_⟩
    · rw [hd d hd'] at hf'
      rw [hunit f hf']
      exact fat16GetUnit_size hu unit rfl
    · rw [hd d hd'] at hf' hk
      rw [hunit f hf'] at hk
      refine Held.mono ?_ (kzallocUnchecked_live hz)
      rcases List.mem_cons.mp hk with rfl | hk
      · exact (kzalloc_held (kzallocUnchecked_eq_ok.mp hz').1).mono
          (fun q hq ↦ (fat16GetUnit_kept path c (Kept.refl hq) _ _ hu).1.live)
      · exact fat16GetUnit_held hu unit rfl k hk

end Lawful

end GammaOS.Fs
