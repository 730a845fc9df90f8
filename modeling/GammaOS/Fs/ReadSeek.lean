import GammaOS.Fs.Fat16Laws

namespace GammaOS.Fs

open Function Foundation Foundation.Program Memory

inductive FileOp
  | seekSet (offset : ℕ)
  | seekCur (offset : ℕ)
  | read (dest size nmemb : ℕ)

variable {σ δ : Type} [Allocator σ]

def FileOp.run (fd : ℤ) : FileOp → VfsM σ δ ℤ
  | seekSet offset => vfsFseek fd offset Fs.seekSet
  | seekCur offset => vfsFseek fd offset Fs.seekCur
  | read dest size nmemb => vfsFread dest size nmemb fd

def runHistory (fd : ℤ) : List FileOp → VfsM σ δ Unit
  | [] => pure ()
  | op :: h => do
    runHistory fd h
    let _ ← op.run fd

/-- The position of the protocol behind a history that starts with the open:
a seek sets or advances it, and a read advances it by what it reads. -/
def position : List FileOp → ℕ
  | [] => 0
  | .seekSet offset :: _ => offset
  | .seekCur offset :: h => position h + offset
  | .read _ size nmemb :: h => position h + size * nmemb

def FileOp.Valid : FileOp → Prop
  | seekSet _ => True
  | seekCur _ => True
  | read dest size nmemb => dest < 2 ^ 32 ∧ dest + size * nmemb ≤ 2 ^ 32

def Inside (fileSize : ℕ) : List FileOp → Prop
  | [] => True
  | op :: h => Inside fileSize h ∧ position (op :: h) ≤ fileSize ∧ op.Valid

/-- No byte has been read since the last `SEEK_SET` (or the open), and no seek
since was by the whole size: `file_position` is where the protocol is. -/
def InStep (fileSize : ℕ) : List FileOp → Prop
  | [] => True
  | .seekSet offset :: _ => offset < fileSize
  | .seekCur offset :: h => InStep fileSize h ∧ offset < fileSize
  | .read _ size nmemb :: h => InStep fileSize h ∧ size * nmemb = 0

/-- A read that takes a byte finds the position in step, and each of its
members lies near the start of the file. -/
def FileOp.Safe (pd : Fat16PrivateData) (cs : List ℕ) (fileSize : ℕ) (h : List FileOp) :
    FileOp → Prop
  | seekSet _ => True
  | seekCur _ => True
  | read _ size nmemb => size * nmemb = 0 ∨
      (InStep fileSize h ∧ ∀ j < nmemb, NearStart pd cs (position h + size * j) size)

def SafeHistory (pd : Fat16PrivateData) (cs : List ℕ) (fileSize : ℕ) : List FileOp → Prop
  | [] => True
  | op :: h => SafeHistory pd cs fileSize h ∧ op.Safe pd cs fileSize h

def FileOp.Delivers (v : Fat16Volume) (cs : List ℕ) (h : List FileOp) (mem : ByteMemory) :
    FileOp → Prop
  | seekSet _ => True
  | seekCur _ => True
  | read dest size nmemb => ∀ i < size * nmemb,
      mem (dest + i) = chainByte v.disk v.pd cs (position h + i)

def OnFile (v : Fat16Volume) (f : Fat16File) (fd : ℤ) (pos : ℕ) (s : Vfs σ Fat16Files) : Prop :=
  ∃ d addr p, s.openAt fd = some d ∧ d.fs = fat16 v ∧
    s.drive.files d.fsFileDescriptor = some ⟨⟨addr, .file (some (p, f))⟩, pos⟩

variable {v : Fat16Volume} {f : Fat16File} {fd : ℤ} {pos fileSize : ℕ} {cs : List ℕ}
  {pd : Fat16PrivateData} {s s' : Vfs σ Fat16Files}

omit [Allocator σ] in
theorem openAt_isInt32 {s : Vfs σ δ} {d : FileDescriptor σ δ} (h : s.openAt fd = some d) :
    0 ≤ fd ∧ fd < fsTotalFileDescriptors ∧ IsInt32 fd := by
  unfold Vfs.openAt at h
  split at h
  · rename_i hfd
    have := hfd.2
    unfold fsTotalFileDescriptors at this
    exact ⟨hfd.1, hfd.2, by unfold IsInt32; omega⟩
  · cases h

section Delegate

variable {s : Vfs σ δ} {d : FileDescriptor σ δ} {u : Drive σ δ} {x : ℤ}

omit [Allocator σ]

theorem vfsFread_run (h : s.openAt fd = some d) {dest size nmemb : ℕ}
    (hop : d.fs.fsRead d.fsFileDescriptor size nmemb dest s.drive = .ok (x, u)) :
    vfsFread dest size nmemb fd s = .ok ((success : ℤ), { s with drive := u }) := by
  obtain ⟨h₀, h₁, h₂⟩ := openAt_isInt32 h
  rw [vfsFread, if_neg (by omega), getFileDescriptor_bind h₂, h]
  exact bind_run_ok (onDrive_eq_ok.mpr ⟨u, hop, rfl⟩)

theorem vfsFseek_run (h : s.openAt fd = some d) {offset whence : ℕ}
    (hop : d.fs.fsSeek d.fsFileDescriptor offset whence s.drive = .ok (x, u)) :
    vfsFseek fd offset whence s = .ok ((success : ℤ), { s with drive := u }) := by
  rw [vfsFseek, getFileDescriptor_bind (openAt_isInt32 h).2.2, h]
  exact bind_run_ok (onDrive_eq_ok.mpr ⟨u, hop, rfl⟩)

theorem vfsFstat_run (h : s.openAt fd = some d) {st : Option FileStat}
    (hop : d.fs.fsStat d.fsFileDescriptor s.drive = .ok ((x, st), u)) :
    vfsFstat fd s = .ok (((success : ℤ), st), { s with drive := u }) := by
  rw [vfsFstat, getFileDescriptor_bind (openAt_isInt32 h).2.2, h]
  exact bind_run_ok (onDrive_eq_ok.mpr ⟨u, hop, rfl⟩)

end Delegate

omit [Allocator σ] in
theorem readMembers_delivers {size : ℕ} (hf : StoredFile v.disk v.pd cs fileSize)
    (hfirst : f.firstCluster = cs.headD 0) :
    ∀ n offset out members (a : Arena σ), out < 2 ^ 32 → out + size * n ≤ 2 ^ 32 →
      offset + size * n < 2 ^ 32 →
      (∀ j < n, size = 0 ∨ NearStart v.pd cs (offset + size * j) size) →
      ∃ a', readMembers v f size n offset out members a = .ok (members + n, a') ∧
        (∀ i < size * n, a'.mem (out + i) = chainByte v.disk v.pd cs (offset + i)) ∧
        ∀ i, i < out → a'.mem i = a.mem i := by
  intro n
  induction n with
  | zero =>
    intro offset out members a _ _ _ _
    exact ⟨a, rfl, fun i hi ↦ by omega, fun _ _ ↦ rfl⟩
  | succ n ih =>
    intro offset out members a hlt hle hoff hnear
    have hmul : size * (n + 1) = size + size * n := by rw [Nat.mul_succ, Nat.add_comm]
    have hread := hf.readsBack (hnear 0 (by omega))
    rw [Nat.mul_zero, Nat.add_zero] at hread
    unfold ReadsBack at hread
    rw [← hfirst] at hread
    generalize hb : (List.range size).map (fun i ↦ chainByte v.disk v.pd cs (offset + i)) = bytes
      at hread
    have hlen : bytes.length = size := by rw [← hb, List.length_map, List.length_range]
    have hu : u32 (offset + size) = offset + size := u32_of_lt (by omega)
    have hstep : readMembers v f size (n + 1) offset out members a =
        readMembers v f size n (offset + size) (u32 (out + size)) (members + 1)
          { a with mem := a.mem.writeBytes out bytes } := by
      rw [readMembers_ok hread, hu]
    have hnext : ∀ j < n, size = 0 ∨ NearStart v.pd cs (offset + size + size * j) size := by
      intro j hj
      have h := hnear (j + 1) (by omega)
      rwa [Nat.mul_succ, Nat.add_comm (size * j), ← Nat.add_assoc] at h
    have hwritten : ∀ i < size, a.mem.writeBytes out bytes (out + i) =
        chainByte v.disk v.pd cs (offset + i) := by
      intro i hi
      rw [ByteMemory.writeBytes_inside (by omega), ← hb,
        List.getD_eq_getElem?_getD, List.getElem?_map, List.getElem?_range hi]
      rfl
    have hbefore : ∀ i < out, a.mem.writeBytes out bytes i = a.mem i :=
      fun i hi ↦ ByteMemory.writeBytes_outside (Or.inl hi)
    rw [hstep]
    by_cases htop : out + size < 2 ^ 32
    · rw [u32_of_lt htop]
      obtain ⟨a', h₁, h₂, h₃⟩ := ih (offset + size) (out + size) (members + 1)
        { a with mem := a.mem.writeBytes out bytes } htop (by omega) (by omega) hnext
      rw [Nat.add_right_comm, Nat.add_assoc] at h₁
      refine ⟨a', h₁, fun i hi ↦ ?_, fun i hi ↦ ?_⟩
      · by_cases hin : i < size
        · exact (h₃ (out + i) (by omega)).trans (hwritten i hin)
        · have h := h₂ (i - size) (by omega)
          rwa [show out + size + (i - size) = out + i by omega,
            show offset + size + (i - size) = offset + i by omega] at h
      · exact (h₃ i (by omega)).trans (hbefore i hi)
    · have hn : n = 0 := by
        rcases Nat.eq_zero_or_pos n with hn | hn
        · exact hn
        · have := Nat.mul_le_mul_left size hn
          omega
      subst hn
      exact ⟨_, rfl, fun i hi ↦ hwritten i (by omega), hbefore⟩

theorem OnFile.read {dest size nmemb : ℕ} (h : OnFile v f fd pos s)
    (hf : StoredFile v.disk v.pd cs fileSize) (hfirst : f.firstCluster = cs.headD 0)
    (hdest : dest < 2 ^ 32) (hend : dest + size * nmemb ≤ 2 ^ 32) (hpos : pos + size * nmemb < 2 ^ 32)
    (hnear : ∀ j < nmemb, size = 0 ∨ NearStart v.pd cs (pos + size * j) size) :
    ∃ s', vfsFread dest size nmemb fd s = .ok ((success : ℤ), s') ∧ OnFile v f fd pos s' ∧
      ∀ i < size * nmemb, s'.drive.arena.mem (dest + i) = chainByte v.disk v.pd cs (pos + i) := by
  obtain ⟨⟨index, fs, handle⟩, addr, p, hd, rfl, hh⟩ := h
  obtain ⟨a, ha, hmem, -⟩ := readMembers_delivers hf hfirst nmemb pos dest 0 s.drive.arena hdest hend
    hpos hnear
  have hread : fat16Read v handle size nmemb dest s.drive =
      .ok (toInt32 (0 + nmemb), { s.drive with arena := a }) := by
    refine (bind_run_ok (handleAt_eq_ok.mpr ⟨hh, rfl⟩)).trans ?_
    exact bind_run_ok (onArena_eq_ok.mpr ⟨a, ha, rfl⟩)
  exact ⟨_, vfsFread_run hd hread, ⟨_, addr, p, hd, rfl, hh⟩, hmem⟩

def seekTo (fileSize pos offset whence : ℕ) : ℕ :=
  if fileSize ≤ offset then pos
  else if whence = seekSet then offset
  else if whence = seekCur then u32 (pos + offset)
  else pos

theorem OnFile.seek {offset whence : ℕ} (h : OnFile v f fd pos s) :
    ∃ s', vfsFseek fd offset whence s = .ok ((success : ℤ), s') ∧
      OnFile v f fd (seekTo f.size pos offset whence) s' := by
  obtain ⟨⟨index, fs, handle⟩, addr, p, hd, rfl, hh⟩ := h
  have hself := update_eq_self handle s.drive.files
  rw [hh] at hself
  have hseek : ∃ x, fat16Seek handle offset whence s.drive = .ok (x, { s.drive with
      files := update s.drive.files handle
        (some ⟨⟨addr, .file (some (p, f))⟩, seekTo f.size pos offset whence⟩) }) := by
    rw [fat16Seek, bind_run_ok (handleAt_eq_ok.mpr ⟨hh, rfl⟩)]
    unfold seekTo
    by_cases h₃ : f.size ≤ offset
    · simp only [if_pos h₃, hself]
      exact ⟨_, rfl⟩
    simp only [if_neg h₃]
    by_cases h₄ : whence = seekSet
    · simp only [if_pos h₄]
      exact ⟨_, rfl⟩
    simp only [if_neg h₄]
    by_cases h₅ : whence = seekCur
    · simp only [if_pos h₅]
      exact ⟨_, rfl⟩
    simp only [if_neg h₅, hself]
    split <;> exact ⟨_, rfl⟩
  obtain ⟨x, hx⟩ := hseek
  generalize hm : update s.drive.files handle _ = moved at hx
  exact ⟨_, vfsFseek_run hd hx, _, addr, p, hd, rfl,
    (congrFun hm.symm handle).trans (update_self _ _ _)⟩

def Tracks (fileSize : ℕ) (h : List FileOp) (pos : ℕ) : Prop :=
  pos < 2 ^ 32 ∧ (InStep fileSize h → pos = position h)

/-- One call on an open file: it returns, a safe read delivers the bytes of the
file, and `file_position` stays with the protocol as long as the calls are in step. -/
theorem OnFile.step {h : List FileOp} {op : FileOp} (hs : OnFile v f fd pos s)
    (hf : StoredFile v.disk v.pd cs f.size) (hfirst : f.firstCluster = cs.headD 0)
    (hsize : f.size < 2 ^ 32) (ht : Tracks f.size h pos) (hin : Inside f.size (op :: h))
    (hsafe : op.Safe v.pd cs f.size h) :
    ∃ s' pos', op.run fd s = .ok ((success : ℤ), s') ∧ op.Delivers v cs h s'.drive.arena.mem ∧
      OnFile v f fd pos' s' ∧ Tracks f.size (op :: h) pos' := by
  obtain ⟨hpos, hstep⟩ := ht
  obtain ⟨-, hend, hvalid⟩ := hin
  cases op with
  | seekSet offset =>
    obtain ⟨s', hr, hs'⟩ := @OnFile.seek _ _ _ _ _ _ _ offset seekSet hs
    refine ⟨s', _, hr, trivial, hs', ?_, fun hlt ↦ ?_⟩
    · unfold seekTo
      split
      · exact hpos
      · simp only [if_true]
        omega
    · unfold InStep at hlt
      rw [seekTo, if_neg (by omega), if_pos rfl]
      rfl
  | seekCur offset =>
    obtain ⟨s', hr, hs'⟩ := @OnFile.seek _ _ _ _ _ _ _ offset seekCur hs
    refine ⟨s', _, hr, trivial, hs', ?_, fun hin ↦ ?_⟩
    · unfold seekTo
      split
      · exact hpos
      · exact u32_lt _
    · obtain ⟨hin, hlt⟩ := hin
      unfold position at hend ⊢
      rw [seekTo, if_neg (by omega), if_neg (by decide), if_pos rfl, hstep hin,
        u32_of_lt (by omega)]
  | read dest size nmemb =>
    obtain ⟨hdest, htop⟩ := hvalid
    unfold position at hend
    have hclose : size * nmemb = 0 ∨ InStep f.size h ∧
        ∀ j < nmemb, NearStart v.pd cs (position h + size * j) size := hsafe
    have hnear : ∀ j < nmemb, size = 0 ∨ NearStart v.pd cs (pos + size * j) size := by
      intro j hj
      rcases hclose with h₀ | ⟨hin, hn⟩
      · rcases Nat.mul_eq_zero.mp h₀ with h₀ | h₀
        · exact Or.inl h₀
        · omega
      · rw [hstep hin]
        exact Or.inr (hn j hj)
    have hlt : pos + size * nmemb < 2 ^ 32 := by
      rcases hclose with h₀ | ⟨hin, -⟩
      · omega
      · rw [hstep hin]
        omega
    obtain ⟨s', hr, hs', hmem⟩ := hs.read hf hfirst hdest htop hlt hnear
    refine ⟨s', pos, hr, fun i hi ↦ ?_, hs', hpos, fun hin ↦ ?_⟩
    · rcases hclose with h₀ | ⟨hin, -⟩
      · omega
      · rw [hmem i hi, hstep hin]
    · obtain ⟨hin, h₀⟩ := hin
      rw [position, h₀, Nat.add_zero, hstep hin]

theorem OnFile.history (hs : OnFile v f fd 0 s) (hf : StoredFile v.disk v.pd cs f.size)
    (hfirst : f.firstCluster = cs.headD 0) (hsize : f.size < 2 ^ 32) {h : List FileOp}
    (hin : Inside f.size h) (hsafe : SafeHistory v.pd cs f.size h) :
    ∃ s' pos, runHistory fd h s = .ok ((), s') ∧ OnFile v f fd pos s' ∧ Tracks f.size h pos := by
  induction h with
  | nil => exact ⟨s, 0, rfl, hs, by omega, fun _ ↦ rfl⟩
  | cons op h ih =>
    obtain ⟨s₁, pos₁, hr₁, hs₁, ht₁⟩ := ih hin.1 hsafe.1
    obtain ⟨s₂, pos₂, hr₂, -, hs₂, ht₂⟩ := hs₁.step hf hfirst hsize ht₁ hin hsafe.2
    refine ⟨s₂, pos₂, ?_, hs₂, ht₂⟩
    rw [runHistory, bind_run_ok hr₁]
    exact bind_run_ok hr₂

theorem vfsFopen_position {alien : ByteMemory} {filename : List UInt8} {mode : UInt8}
    (h : vfsFopen alien filename mode s = .ok (fd, s')) (hs : OnFile v f fd pos s') : pos = 0 := by
  obtain ⟨⟨index, fs, handle⟩, addr, p, hd, rfl, hh⟩ := hs
  obtain ⟨path, a, fs, handle', t, -, -, ho, hne, hd', hfiles⟩ :=
    vfsFopen_opened h (openAt_isInt32 hd).1
  cases hd.symm.trans hd'
  rcases fat16Open_cases ho with ⟨h0, -⟩ | ⟨-, unit, a', -, -, hupdate⟩
  · exact absurd h0 hne
  · have hh' : s'.drive.files handle = _ := hh
    rw [hfiles, hupdate, update_self] at hh'
    cases hh'
    rfl

/-- In every run of safe calls on a regular file that `vfs_fopen` has opened,
each call returns and each read delivers the bytes of the file at the position. -/
theorem reads_follow_position {alien : ByteMemory} {filename : List UInt8} {mode : UInt8}
    {h : List FileOp} {op : FileOp} (hopen : vfsFopen alien filename mode s = .ok (fd, s'))
    (hreg : OnFile v f fd pos s') (hf : StoredFile v.disk v.pd cs f.size)
    (hfirst : f.firstCluster = cs.headD 0) (hsize : f.size < 2 ^ 32)
    (hin : Inside f.size (op :: h)) (hsafe : SafeHistory v.pd cs f.size (op :: h)) :
    ∃ s₁ s₂, runHistory fd h s' = .ok ((), s₁) ∧ op.run fd s₁ = .ok ((success : ℤ), s₂) ∧
      op.Delivers v cs h s₂.drive.arena.mem := by
  cases vfsFopen_position hopen hreg
  obtain ⟨s₁, pos₁, hr₁, hs₁, ht₁⟩ := hreg.history hf hfirst hsize hin.1 hsafe.1
  obtain ⟨s₂, -, hr₂, hd, -, -⟩ := hs₁.step hf hfirst hsize ht₁ hin hsafe.2
  exact ⟨s₁, s₂, hr₁, hr₂, hd⟩

theorem shortVolume_stored : StoredFile shortVolume.disk shortVolume.pd [2] 2 where
  clusters_pos := by decide
  clusters_lt := by decide
  chain := ⟨⟨by decide, by decide⟩, by decide⟩
  long := by decide

def regularFile (fd : ℤ) (s : Vfs σ Fat16Files) : Option (Fat16File × ℕ) :=
  (s.openAt fd).bind (fun d ↦ (s.drive.files d.fsFileDescriptor).bind (fun h ↦
    match h.unit.content with
    | .file (some (_, f)) => some (f, h.filePosition)
    | _ => none))

omit [Allocator σ] in
theorem regularFile_eq_some (h : regularFile fd s = some (f, pos)) :
    ∃ d addr p, s.openAt fd = some d ∧
      s.drive.files d.fsFileDescriptor = some ⟨⟨addr, .file (some (p, f))⟩, pos⟩ := by
  obtain ⟨d, hd, h⟩ := Option.bind_eq_some_iff.mp h
  obtain ⟨⟨⟨addr, content⟩, pos'⟩, hh, h⟩ := Option.bind_eq_some_iff.mp h
  dsimp only at h
  split at h <;> cases h
  exact ⟨d, addr, _, hd, hh⟩

theorem shortVolume_opened : ∃ (s : Vfs (KHeap false) Fat16Files) (f : Fat16File),
    vfsFopen (fun _ ↦ 0) [65, 58, 47, 70] modeRead (mountedVfs shortVolume) = .ok (0, s) ∧
      OnFile shortVolume f 0 0 s ∧ f.size = 2 ∧ f.firstCluster = 2 := by
  have hrun : passes (vfsFopen (fun _ ↦ 0) [65, 58, 47, 70] modeRead) (mountedVfs shortVolume)
      (fun r s ↦ decide (r = 0 ∧ (regularFile 0 s).map (fun x ↦ (x.1.size, x.1.firstCluster, x.2)) =
        some (2, 2, 0))) = true := by decide +kernel
  obtain ⟨r, s, hopen, htest⟩ := of_passes hrun
  obtain ⟨rfl, hfile⟩ := of_decide_eq_true htest
  obtain ⟨⟨f, pos⟩, hreg, he⟩ := Option.map_eq_some_iff.mp hfile
  simp only [Prod.mk.injEq] at he
  obtain ⟨hsize, hfirst, rfl⟩ := he
  obtain ⟨d, addr, p, hd, hh⟩ := regularFile_eq_some hreg
  obtain ⟨path, a, fs, handle, t, -, hfs, -, -, hd', -⟩ := vfsFopen_opened hopen (Int.le_refl 0)
  have hdisk := mountedVfs_disks hfs
  cases hd.symm.trans hd'
  exact ⟨s, f, hopen, ⟨_, addr, p, hd, hdisk, hh⟩, hsize, hfirst⟩

theorem reads_follow_position_short : ∃ (s s₁ s₂ : Vfs (KHeap false) Fat16Files),
    vfsFopen (fun _ ↦ 0) [65, 58, 47, 70] modeRead (mountedVfs shortVolume) = .ok (0, s) ∧
      runHistory 0 [.seekCur 1] s = .ok ((), s₁) ∧
      (FileOp.read 0x2000 1 1).run 0 s₁ = .ok ((success : ℤ), s₂) ∧
      (FileOp.read 0x2000 1 1).Delivers shortVolume [2] [.seekCur 1] s₂.drive.arena.mem := by
  obtain ⟨s, f, hopen, hreg, hsize, hfirst⟩ := shortVolume_opened
  have hstored : StoredFile shortVolume.disk shortVolume.pd [2] f.size := by
    rw [hsize]
    exact shortVolume_stored
  obtain ⟨s₁, s₂, h₁, h₂, h₃⟩ := @reads_follow_position _ _ _ _ _ _ _ _ _ _ _ _ [.seekCur 1]
    (.read 0x2000 1 1) hopen hreg hstored hfirst (by omega)
    (by simp [Inside, position, FileOp.Valid, hsize])
    (by
      simp only [SafeHistory, FileOp.Safe, InStep, position, hsize, NearStart]
      decide)
  exact ⟨s, s₁, s₂, hopen, h₁, h₂, h₃⟩

/-- The second of two reads of a byte delivers the first byte of the file again. -/
theorem consecutive_reads_repeat : ∃ (s s₁ s₂ : Vfs (KHeap false) Fat16Files) (f : Fat16File),
    vfsFopen (fun _ ↦ 0) [65, 58, 47, 70] modeRead (mountedVfs shortVolume) = .ok (0, s) ∧
      OnFile shortVolume f 0 0 s ∧ StoredFile shortVolume.disk shortVolume.pd [2] f.size ∧
      f.firstCluster = 2 ∧ Inside f.size [.read 0x2001 1 1, .read 0x2000 1 1] ∧
      runHistory 0 [.read 0x2000 1 1] s = .ok ((), s₁) ∧
      (FileOp.read 0x2001 1 1).run 0 s₁ = .ok ((success : ℤ), s₂) ∧
      ¬ (FileOp.read 0x2001 1 1).Delivers shortVolume [2] [.read 0x2000 1 1]
        s₂.drive.arena.mem := by
  obtain ⟨s, f, hopen, hreg, hsize, hfirst⟩ := shortVolume_opened
  have hstored : StoredFile shortVolume.disk shortVolume.pd [2] f.size := by
    rw [hsize]
    exact shortVolume_stored
  obtain ⟨s₁, h₁, hreg₁, -⟩ := @OnFile.read _ _ _ _ _ _ _ _ _ 0x2000 1 1 hreg hstored hfirst
    (by decide) (by decide) (by decide) (by unfold NearStart; decide)
  obtain ⟨s₂, h₂, -, hmem⟩ := @OnFile.read _ _ _ _ _ _ _ _ _ 0x2001 1 1 hreg₁ hstored hfirst
    (by decide) (by decide) (by decide) (by unfold NearStart; decide)
  refine ⟨s, s₁, s₂, f, hopen, hreg, hstored, hfirst,
    by simp [Inside, position, FileOp.Valid, hsize], ?_, h₂, fun hd ↦ ?_⟩
  · exact bind_run_ok h₁
  · have h := hd 0 (by decide)
    rw [hmem 0 (by decide)] at h
    revert h
    decide

end GammaOS.Fs
