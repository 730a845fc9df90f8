import GammaOS.Fs.DiskStream
import GammaOS.Fs.Fat16Frame
import GammaOS.Fs.Fat16ReadBack
import GammaOS.Memory.KernelHeap

namespace GammaOS.Fs

open Foundation Foundation.Program Memory

abbrev ByteStores := List (ℕ × UInt8)

def placed : ℕ → List UInt8 → ByteStores
  | _, [] => []
  | p, c :: cs => (p, c) :: placed (u32 (p + 1)) cs

def storeAll (stores : ByteStores) (m : ByteMemory) : ByteMemory :=
  stores.foldl (fun m store ↦ Function.update m store.1 store.2) m

namespace Into

/-! The reads with the pointers that they store through. -/

/-- The loop that copies `n` bytes of a sector, from place `index` on. It
returns the pointer behind them, too. -/
def copyLoop (tempBuffer : ℕ → UInt8) : ℕ → ℕ → ℕ → ByteStores × ℕ
  | 0, _, readBuffer => ([], readBuffer)
  | n + 1, index, readBuffer =>
    let rest := copyLoop tempBuffer n (index + 1) (u32 (readBuffer + 1))
    ((readBuffer, tempBuffer index) :: rest.1, rest.2)

def streamReadLoop (disk : Disk) : ℕ → ℕ → ℕ → ℕ → Except Fault ByteStores
  | 0, _, _, _ => .error .loop
  | fuel + 1, pos, readBuffer, bytesToRead =>
    let sector := pos / sectorSizeInBytes
    let sectorOffset := pos % sectorSizeInBytes
    let isOverflowing := u32 (sectorOffset + bytesToRead) ≥ sectorSizeInBytes
    let here := if isOverflowing then sectorSizeInBytes - sectorOffset else bytesToRead
    let copied := copyLoop (fun i ↦ disk sector (sectorOffset + i)) here 0 readBuffer
    if isOverflowing then do
      let rest ← streamReadLoop disk fuel (u32 (pos + here)) copied.2 (bytesToRead - here)
      pure (copied.1 ++ rest)
    else pure copied.1

def diskStreamRead (disk : Disk) (pos readBuffer bytesToRead : ℕ) : Except Fault ByteStores :=
  streamReadLoop disk (bytesToRead + 1) pos readBuffer bytesToRead

def fat16ReadLoop (disk : Disk) (pd : Fat16PrivateData) (firstCluster : ℕ) :
    ℕ → ℕ → ℕ → ℕ → Except Fault (ℤ × ByteStores)
  | 0, _, _, _ => .error .loop
  | fuel + 1, offset, size, out => do
    let cluster ← fat16GetClusterFromOffset disk pd firstCluster offset
    let currentCluster := ofInt32 cluster
    if (currentCluster : ℤ) < 0 then pure (-errInvarg, [])
    else
      let firstSector := fat16ClusterToSector pd currentCluster
      let positionInSector := u32 (firstSector * sectorSize + offset)
      let sizeReadable := if size > pd.clusterSize then pd.clusterSize else size
      let stores ← diskStreamRead disk positionInSector out sizeReadable
      if size - sizeReadable > 0 then do
        let rest ← fat16ReadLoop disk pd firstCluster fuel (u32 (offset + sizeReadable))
          (size - sizeReadable) (u32 (out + sizeReadable))
        pure ((success : ℤ), stores ++ rest.2)
      else pure ((success : ℤ), stores)

def fat16ReadFromDisk (disk : Disk) (pd : Fat16PrivateData) (firstCluster offset size out : ℕ) :
    Except Fault (ℤ × ByteStores) :=
  fat16ReadLoop disk pd firstCluster (size + 1) offset size out

def readMembers (v : Fat16Volume) (file : Fat16File) (size : ℕ) :
    ℕ → ℕ → ℕ → ℕ → Except Fault (ℕ × ByteStores)
  | 0, _, _, membersReadSuccessfully => pure (membersReadSuccessfully, [])
  | n + 1, offset, out, membersReadSuccessfully => do
    let member ← fat16ReadFromDisk v.disk v.pd file.firstCluster offset size out
    if member.1 < 0 then pure (membersReadSuccessfully, member.2)
    else do
      let rest ← readMembers v file size n (u32 (offset + size)) (u32 (out + size))
        (membersReadSuccessfully + 1)
      pure (rest.1, member.2 ++ rest.2)

end Into

section Placed

variable {p : ℕ} {a b : List UInt8}

theorem placed_append (hp : p < 2 ^ 32) :
    placed p (a ++ b) = placed p a ++ placed (u32 (p + a.length)) b := by
  induction a generalizing p with
  | nil =>
    rw [List.length_nil, Nat.add_zero, u32_of_lt hp]
    rfl
  | cons c cs ih =>
    rw [List.cons_append, placed, ih (u32_lt _), u32_add, List.length_cons, placed,
      List.cons_append, Nat.add_assoc, Nat.add_comm 1]

theorem placed_fst (hp : p < 2 ^ 32) :
    (placed p a).map Prod.fst = (List.range a.length).map (fun i ↦ u32 (p + i)) := by
  induction a generalizing p with
  | nil => rfl
  | cons c cs ih =>
    rw [placed, List.map_cons, ih (u32_lt _), List.length_cons, List.range_succ_eq_map,
      List.map_cons, List.map_map, show u32 (p + 0) = p from u32_of_lt hp]
    refine congrArg (p :: ·) (List.map_congr_left (fun i _ ↦ ?_))
    rw [u32_add, Function.comp_apply, Nat.succ_eq_add_one, Nat.add_assoc, Nat.add_comm 1]

theorem storeAll_placed (h : p + a.length ≤ 2 ^ 32) (m : ByteMemory) :
    storeAll (placed p a) m = m.writeBytes p a := by
  induction a generalizing p m with
  | nil =>
    funext i
    rw [ByteMemory.writeBytes_outside (by rw [List.length_nil]; omega)]
    rfl
  | cons c cs ih =>
    rw [List.length_cons] at h
    have hrest : placed (u32 (p + 1)) cs = placed (p + 1) cs := by
      cases cs with
      | nil => rfl
      | cons d ds =>
        rw [List.length_cons] at h
        rw [u32_of_lt (by omega)]
    rw [placed, hrest]
    refine (ih (by omega) (Function.update m p c)).trans (funext fun i ↦ ?_)
    unfold ByteMemory.writeBytes
    rw [List.length_cons]
    by_cases hi : i = p
    · subst hi
      rw [if_neg (by omega), if_pos (by omega), Function.update_self, Nat.sub_self]
      rfl
    · rw [Function.update_of_ne hi]
      by_cases hin : p + 1 ≤ i ∧ i < p + 1 + cs.length
      · rw [if_pos hin, if_pos (by omega), show i - p = i - (p + 1) + 1 by omega,
          List.getD_cons_succ]
      · rw [if_neg hin, if_neg (by omega)]

theorem storeAll_append (s t : ByteStores) (m : ByteMemory) :
    storeAll (s ++ t) m = storeAll t (storeAll s m) :=
  List.foldl_append

end Placed

variable {disk : Disk} {pd : Fat16PrivateData} {firstCluster : ℕ} {v : Fat16Volume}
  {file : Fat16File}

theorem copyLoop_eq (tempBuffer : ℕ → UInt8) : ∀ n index p, p < 2 ^ 32 →
    Into.copyLoop tempBuffer n index p =
      (placed p ((List.range n).map (fun i ↦ tempBuffer (index + i))), u32 (p + n)) := by
  intro n
  induction n with
  | zero =>
    intro index p hp
    rw [Into.copyLoop, Nat.add_zero, u32_of_lt hp]
    rfl
  | succ n ih =>
    intro index p hp
    rw [Into.copyLoop, ih _ _ (u32_lt _), List.range_succ_eq_map, List.map_cons, List.map_map,
      placed, u32_add]
    have hmap : (fun i ↦ tempBuffer (index + 1 + i)) =
        (fun i ↦ tempBuffer (index + i)) ∘ Nat.succ := by
      funext i
      rw [Function.comp_apply, Nat.succ_eq_add_one, Nat.add_assoc, Nat.add_comm 1]
    rw [hmap, Nat.add_assoc, Nat.add_comm 1]
    rfl

theorem streamReadInto_eq : ∀ fuel pos p n, n < fuel → p < 2 ^ 32 →
    Into.streamReadLoop disk fuel pos p n =
      .ok (placed p (streamReadLoop disk fuel pos n).bytes) := by
  intro fuel
  induction fuel with
  | zero => intro pos p n h; omega
  | succ fuel ih =>
    intro pos p n hn hp
    have hoff : pos % sectorSizeInBytes < sectorSizeInBytes := Nat.mod_lt _ (by decide)
    simp only [Into.streamReadLoop, streamReadLoop, copyLoop_eq _ _ _ _ hp, Nat.zero_add]
    by_cases hov : u32 (pos % sectorSizeInBytes + n) ≥ sectorSizeInBytes
    · have hle : sectorSizeInBytes - pos % sectorSizeInBytes ≤ n := by
        unfold u32 at hov
        unfold sectorSizeInBytes at *
        omega
      simp only [if_pos hov]
      rw [ih _ _ _ (by omega) (u32_lt _), placed_append hp, List.length_map, List.length_range]
      rfl
    · simp only [if_neg hov]
      rfl

theorem diskStreamReadInto_eq {pos p n : ℕ} (hp : p < 2 ^ 32) :
    Into.diskStreamRead disk pos p n = .ok (placed p (diskStreamRead disk pos n).bytes) :=
  streamReadInto_eq _ pos p n (Nat.lt_succ_self n) hp

theorem fat16ReadInto_eq : ∀ fuel offset size out {status : ℤ} {bytes : List UInt8}, out < 2 ^ 32 →
    fat16ReadLoop disk pd firstCluster fuel offset size = .ok (status, bytes) →
    Into.fat16ReadLoop disk pd firstCluster fuel offset size out =
      .ok (status, placed out bytes) := by
  intro fuel
  induction fuel with
  | zero => intro offset size out status bytes _ h; cases h
  | succ fuel ih =>
    intro offset size out status bytes hout h
    rw [fat16ReadLoop] at h
    cases hc : fat16GetClusterFromOffset disk pd firstCluster offset with
    | error e => simp [hc, bind, Except.bind] at h
    | ok c =>
      simp only [hc, bind, Except.bind, pure, Except.pure, if_neg (not_ofInt32_neg c)] at h
      rw [Into.fat16ReadLoop]
      simp only [hc, diskStreamReadInto_eq hout]
      simp only [bind, Except.bind, pure, Except.pure, if_neg (not_ofInt32_neg c)]
      generalize (if size > pd.clusterSize then pd.clusterSize else size) = k at h ⊢
      by_cases hmore : size - k > 0
      · rw [if_pos hmore] at h ⊢
        cases hr : fat16ReadLoop disk pd firstCluster fuel (u32 (offset + k)) (size - k) with
        | error e => simp [hr] at h
        | ok rest =>
          simp only [hr, Except.ok.injEq, Prod.mk.injEq] at h
          obtain ⟨rfl, rfl⟩ := h
          rw [ih _ _ _ (u32_lt (out + k)) hr, placed_append hout, diskStreamRead_length]
      · rw [if_neg hmore, Except.ok.injEq, Prod.mk.injEq] at h ⊢
        obtain ⟨rfl, rfl⟩ := h
        exact ⟨rfl, rfl⟩

theorem readMembersInto_eq (hpos : v.pd.clusterSize ≠ 0) (size : ℕ) :
    ∀ n offset out members, out < 2 ^ 32 → ∃ stores,
      Into.readMembers v file size n offset out members = .ok (members + n, stores) ∧
      stores.map Prod.fst = (List.range (size * n)).map (fun i ↦ u32 (out + i)) ∧
      (out + size * n ≤ 2 ^ 32 → ∀ {σ : Type} (s : Arena σ),
        readMembers v file size n offset out members s =
          .ok (members + n, { s with mem := storeAll stores s.mem })) := by
  intro n
  induction n with
  | zero => exact fun offset out members _ ↦ ⟨[], rfl, rfl, fun _ _ _ ↦ rfl⟩
  | succ n ih =>
    intro offset out members hout
    obtain ⟨bytes, hbytes, hlen⟩ := @fat16ReadFromDisk_total v.disk v.pd file.firstCluster hpos
      offset size
    obtain ⟨stores, hrun, haddr, hstored⟩ := ih (u32 (offset + size)) (u32 (out + size))
      (members + 1) (u32_lt _)
    have hmember := fat16ReadInto_eq _ offset size out hout hbytes
    have hcount : members + 1 + n = members + (n + 1) := by omega
    rw [hcount] at hrun hstored
    refine ⟨placed out bytes ++ stores, ?_, ?_, fun htop σ s ↦ ?_⟩
    · rw [Into.readMembers, Into.fat16ReadFromDisk]
      simp only [hmember, hrun]
      rfl
    · rw [List.map_append, placed_fst hout, haddr, hlen, Nat.mul_succ, Nat.add_comm (size * n),
        List.range_add, List.map_append, List.map_map]
      refine congrArg _ (List.map_congr_left (fun i _ ↦ ?_))
      rw [u32_add, Function.comp_apply, Nat.add_assoc]
    · rw [Nat.mul_succ] at htop
      have hfirst := storeAll_placed (p := out) (a := bytes) (by omega) s.mem
      have hnext : u32 (out + size) + size * n ≤ 2 ^ 32 := by
        unfold u32
        omega
      rw [readMembers_ok hbytes, storeAll_append, hfirst]
      exact hstored hnext _

/-- A read of a file on a volume whose clusters have a size returns the number
of its members. It stores a byte at each address of the caller's buffer, one
after the other, and none anywhere else. -/
theorem fat16Read_bounded {σ : Type} [Allocator σ] {handle size nmemb out addr q position : ℕ}
    {s : Drive σ Fat16Files} (hclusters : 1 ≤ v.pd.header.sectorsPerCluster)
    (hfd : s.files handle = some ⟨⟨addr, .file (some (q, file))⟩, position⟩)
    (hn : nmemb < 2 ^ 31) (hsize : size * nmemb < 2 ^ 32) (hout : out < 2 ^ 32) :
    ∃ stores, Into.readMembers v file size nmemb position out 0 = .ok (nmemb, stores) ∧
      stores.map Prod.fst = (List.range (size * nmemb)).map (fun i ↦ u32 (out + i)) ∧
      (stores.map Prod.fst).Nodup ∧
      (out + size * nmemb ≤ 2 ^ 32 → fat16Read v handle size nmemb out s =
        .ok ((nmemb : ℤ), { s with
          arena := { s.arena with mem := storeAll stores s.arena.mem } })) := by
  have hpos : v.pd.clusterSize ≠ 0 := by
    unfold Fat16PrivateData.clusterSize sectorSize
    omega
  obtain ⟨stores, hrun, haddr, hstored⟩ := @readMembersInto_eq v file hpos size nmemb position
    out 0 hout
  rw [Nat.zero_add] at hrun hstored
  refine ⟨stores, hrun, haddr, ?_, fun htop ↦ ?_⟩
  · rw [haddr]
    refine List.nodup_range.map_on (fun i hi j hj h ↦ ?_)
    have hi' := List.mem_range.mp hi
    have hj' := List.mem_range.mp hj
    unfold u32 at h
    omega
  · have hmembers := hstored htop s.arena
    have hint : toInt32 nmemb = (nmemb : ℤ) := by
      rw [toInt32, u32_of_lt (by omega), if_pos hn]
    have hhandle : handleAt handle s = .ok (⟨⟨addr, .file (some (q, file))⟩, position⟩, s) := by
      rw [handleAt, hfd]
    rw [fat16Read, bind_run_ok hhandle]
    refine (bind_run_ok (onPart_eq_ok.mpr ⟨_, hmembers, rfl⟩)).trans ?_
    rw [hint]
    rfl

def cyclicVolume : Fat16Volume := ⟨fun _ _ ↦ 2, smallVolume⟩

def cyclicFile : Fat16File := ⟨[], [], 0, 0, 2, 900⟩

def cyclicDrive : Drive (KHeap false) Fat16Files where
  arena := ⟨KHeap.init (fun _ ↦ 0), fun _ ↦ 0⟩
  files p := if p = 8 then some ⟨⟨16, .file (some (24, cyclicFile))⟩, 700⟩ else none

theorem fat16Read_bounded_cyclic :
    ∃ stores, Into.readMembers cyclicVolume cyclicFile 600 3 700 0x2000 0 = .ok (3, stores) ∧
      stores.map Prod.fst = (List.range (600 * 3)).map (fun i ↦ u32 (0x2000 + i)) ∧
      (stores.map Prod.fst).Nodup ∧
      (0x2000 + 600 * 3 ≤ 2 ^ 32 → fat16Read cyclicVolume 8 600 3 0x2000 cyclicDrive =
        .ok (((3 : ℕ) : ℤ), { cyclicDrive with
          arena := { cyclicDrive.arena with mem := storeAll stores cyclicDrive.arena.mem } })) :=
  fat16Read_bounded (by decide) rfl (by decide) (by decide) (by decide)

end GammaOS.Fs
