import GammaOS.Foundation.AtaDrive
import GammaOS.Foundation.ByteMemory
import GammaOS.Foundation.Program
import GammaOS.Fs.DiskStream
import GammaOS.Memory.Arena

namespace GammaOS.Fs

open Foundation Foundation.Program Memory AtaDrive

abbrev PortM := Program Fault AtaDrive

def insb (port : ℕ) : PortM ℕ := fun d ↦ .ok (d.in8 port)

def insw (port : ℕ) : PortM ℕ := fun d ↦ .ok (d.in16 port)

def outb (port val : ℕ) : PortM Unit := fun d ↦ .ok ((), d.out8 port (u8 val))

def readSectorsWithRetry : ℕ := 0x20

def sectorBufferRequiresServicing : ℕ := 0b00001000

/-- The wait until the drive has the data, with a bound on its turns. -/
def ataWait : ℕ → PortM Unit
  | 0 => fault .loop
  | fuel + 1 => do
    let status ← insb 0x1F7
    if status &&& sectorBufferRequiresServicing ≠ 0 then pure () else ataWait fuel

def ataReadWords : ℕ → PortM (List UInt8)
  | 0 => pure []
  | n + 1 => do
    let data ← insw 0x1F0
    let rest ← ataReadWords n
    pure (UInt8.ofNat data :: UInt8.ofNat (data / 2 ^ 8) :: rest)

def ataReadSector (fuel : ℕ) : PortM (List UInt8) := do
  ataWait fuel
  ataReadWords (sectorSizeInBytes / 2)

def ataReadSectors (fuel : ℕ) : ℕ → PortM (List UInt8)
  | 0 => pure []
  | sectors + 1 => do
    let bytes ← ataReadSector fuel
    let rest ← ataReadSectors fuel sectors
    pure (bytes ++ rest)

def ataRequest (lba sectorCount : ℕ) : PortM Unit := do
  outb 0x1F6 (lba / 2 ^ 24 ||| 0xE0)
  outb 0x1F2 sectorCount
  outb 0x1F3 (lba &&& 0xff)
  outb 0x1F4 (lba / 2 ^ 8 % 2 ^ 16)
  outb 0x1F5 (lba / 2 ^ 16 % 2 ^ 16)
  outb 0x1F7 readSectorsWithRetry

/-- The bytes that `ata_lba_read_sector` stores to its buffer. -/
def ataLbaReadSector (fuel lba sectorCount : ℕ) : PortM (List UInt8) := do
  ataRequest lba sectorCount
  ataReadSectors fuel sectorCount

/-- `disk_stream_read` on the ports: the bytes, and where it leaves the stream. The
buffer for a sector holds nothing beyond it. -/
def portStreamRead (fuel : ℕ) : ℕ → ℕ → ℕ → PortM (List UInt8 × ℕ)
  | 0, pos, _ => pure ([], pos)
  | turns + 1, pos, bytesToRead => do
    let sector := pos / sectorSizeInBytes
    let sectorOffset := pos % sectorSizeInBytes
    let isOverflowing := u32 (sectorOffset + bytesToRead) ≥ sectorSizeInBytes
    let here := if isOverflowing then sectorSizeInBytes - sectorOffset else bytesToRead
    let tempBuffer ← ataLbaReadSector fuel sector 1
    let bytes := (List.range here).map (fun index ↦ tempBuffer.getD (sectorOffset + index) 0)
    if isOverflowing then do
      let (rest, pos) ← portStreamRead fuel turns (u32 (pos + here)) (bytesToRead - here)
      pure (bytes ++ rest, pos)
    else pure (bytes, u32 (pos + here))

variable {d d' : AtaDrive} {lba n pos fuel : ℕ} {disk : Disk}

theorem insb_run (port : ℕ) (d : AtaDrive) : insb port d = .ok (d.in8 port) := rfl

theorem insw_run (port : ℕ) (d : AtaDrive) : insw port d = .ok (d.in16 port) := rfl

theorem ataWait_run (hl : d.left ≠ 0) :
    ∀ fuel, d.busy < fuel → ataWait fuel d = .ok ((), { d with busy := 0 }) := by
  intro fuel
  induction fuel generalizing d with
  | zero => exact fun h ↦ absurd h (Nat.not_lt_zero _)
  | succ fuel ih =>
    intro hlt
    by_cases hb : d.busy = 0
    · refine (bind_run_ok ((insb_run _ d).trans (congrArg _ (in8_ready hl hb)))).trans ?_
      rw [if_pos (by decide), ← hb]
      rfl
    · refine (bind_run_ok ((insb_run _ d).trans (congrArg _ (in8_busy hl hb)))).trans ?_
      rw [if_neg (by decide)]
      exact ih (d := { d with busy := d.busy - 1 }) hl (by show d.busy - 1 < fuel; omega)

def sectorBytes (disk : Disk) (sector start len : ℕ) : List UInt8 :=
  (List.range len).map (fun i ↦ disk sector (start + i))

theorem sectorBytes_succ (sector start len : ℕ) : sectorBytes disk sector start (len + 1) =
    disk sector start :: sectorBytes disk sector (start + 1) len := by
  rw [sectorBytes, List.range_succ_eq_map, List.map_cons, List.map_map]
  refine congrArg _ (List.map_congr_left (fun i _ ↦ ?_))
  rw [Function.comp_apply, Nat.succ_eq_add_one, Nat.add_assoc, Nat.add_comm 1]

theorem wordAt_bytes (d : AtaDrive) : UInt8.ofNat d.wordAt = d.contents d.lba (2 * d.word) ∧
    UInt8.ofNat (d.wordAt / 2 ^ 8) = d.contents d.lba (2 * d.word + 1) := by
  have h₁ := (d.contents d.lba (2 * d.word)).toNat_lt
  have h₂ := (d.contents d.lba (2 * d.word + 1)).toNat_lt
  unfold wordAt
  constructor
  · apply UInt8.toNat_inj.mp
    rw [UInt8.toNat_ofNat']
    omega
  · apply UInt8.toNat_inj.mp
    rw [UInt8.toNat_ofNat']
    omega

theorem ataReadWords_run (n : ℕ) : ∀ d : AtaDrive, d.left ≠ 0 → d.busy = 0 →
    d.word + (n + 1) = wordsPerSector →
      ataReadWords (n + 1) d =
        .ok (sectorBytes d.contents d.lba (2 * d.word) (2 * (n + 1)), d.sectorDone) := by
  induction n with
  | zero =>
    intro d hl hb hw
    refine (bind_run_ok ((insw_run _ d).trans (congrArg _ (in16_data hl hb)))).trans ?_
    obtain ⟨h₁, h₂⟩ := wordAt_bytes d
    rw [nextWord, if_neg (by omega), h₁, h₂]
    rfl
  | succ n ih =>
    intro d hl hb hw
    refine (bind_run_ok ((insw_run _ d).trans (congrArg _ (in16_data hl hb)))).trans ?_
    obtain ⟨h₁, h₂⟩ := wordAt_bytes d
    rw [nextWord, if_pos (by omega), h₁, h₂]
    refine (bind_run_ok (ih { d with word := d.word + 1 } hl hb
      (by show d.word + 1 + _ = _; omega))).trans ?_
    rw [show 2 * (n + 1 + 1) = 2 * (n + 1) + 1 + 1 by omega, sectorBytes_succ, sectorBytes_succ]
    rfl

theorem ataReadWords_sector (hl : d.left ≠ 0) (hb : d.busy = 0) (hw : d.word = 0) :
    ataReadWords (sectorSizeInBytes / 2) d =
      .ok (sectorBytes d.contents d.lba 0 sectorSizeInBytes, d.sectorDone) := by
  have hrun := ataReadWords_run 255 d hl hb (by rw [hw]; rfl)
  rwa [hw] at hrun

theorem ataReadSector_run (hl : d.left ≠ 0) (hw : d.word = 0) (hfuel : d.busy < fuel) :
    ataReadSector fuel d = .ok (sectorBytes d.contents d.lba 0 sectorSizeInBytes,
      AtaDrive.sectorDone { d with busy := 0 }) := by
  rw [ataReadSector, bind_run_ok (ataWait_run hl fuel hfuel)]
  exact ataReadWords_sector (d := { d with busy := 0 }) hl rfl hw

theorem ataReadSectors_run (n : ℕ) : ∀ (d : AtaDrive) (lba : ℕ), d.Loaded lba n →
    ∃ k d', d.Delivers (List.range' lba n) d' ∧ ∀ fuel ≥ k, ataReadSectors fuel n d =
      .ok ((List.range' lba n).flatMap
        (fun sector ↦ sectorBytes d.contents sector 0 sectorSizeInBytes), d') := by
  induction n with
  | zero => exact fun d lba h ↦ ⟨0, d, .refl d, fun fuel _ ↦ rfl⟩
  | succ n ih =>
    intro d lba h
    have hl : d.left ≠ 0 := by
      rw [h.left_eq]
      exact Nat.succ_ne_zero n
    obtain ⟨k, d', hd, hk⟩ := ih _ _ h.ready.sectorDone
    have hone : d.Delivers [lba] (AtaDrive.sectorDone { d with busy := 0 }) :=
      h.lba_eq ▸ ⟨rfl, rfl, rfl⟩
    refine ⟨max k (d.busy + 1), d', by rw [List.range'_succ]; exact hone.trans hd,
      fun fuel hfuel ↦ ?_⟩
    have hsector := ataReadSector_run hl h.word_eq (le_of_max_le_right hfuel)
    rw [ataReadSectors, bind_run_ok hsector, bind_run_ok (hk fuel (le_of_max_le_left hfuel)),
      pure_run, List.range'_succ, List.flatMap_cons, h.lba_eq]
    rfl

theorem ataRequest_run (hlba : lba < 2 ^ 28) (hn : 0 < n) (hn' : n < 256) (d : AtaDrive) :
    ∃ d', ataRequest lba n d = .ok ((), d') ∧ d'.Loaded lba n ∧ d.Delivers [] d' := by
  have hdevice : u8 (lba / 2 ^ 24 ||| 0xE0) = lba / 2 ^ 24 + 0xE0 := by
    have hhead : lba / 2 ^ 24 < 16 := by omega
    generalize lba / 2 ^ 24 = k at hhead ⊢
    revert k
    decide
  have hlow : u8 (lba &&& 0xff) = lba % 256 := by
    rw [Nat.and_two_pow_sub_one_eq_mod lba 8]
    unfold u8
    omega
  have hmid : u8 (lba / 2 ^ 8 % 2 ^ 16) = lba / 2 ^ 8 % 256 := by
    unfold u8
    omega
  have hhigh : u8 (lba / 2 ^ 16 % 2 ^ 16) = lba / 2 ^ 16 % 256 := by
    unfold u8
    omega
  have hcount : u8 n = n := Nat.mod_eq_of_lt hn'
  obtain ⟨hloaded, hd⟩ := command_loaded (d := { d with
    device := u8 (lba / 2 ^ 24 ||| 0xE0)
    count := u8 n
    low := u8 (lba &&& 0xff)
    mid := u8 (lba / 2 ^ 8 % 2 ^ 16)
    high := u8 (lba / 2 ^ 16 % 2 ^ 16) }) hlba hn hdevice hhigh hmid hlow hcount
  exact ⟨_, rfl, hloaded, hd.contents, hd.delay, hd.delivered⟩

theorem ataLbaReadSector_run (hlba : lba < 2 ^ 28) (hn : 0 < n) (hn' : n < 256) (d : AtaDrive) :
    ∃ k d', d.Delivers (List.range' lba n) d' ∧ ∀ fuel ≥ k, ataLbaReadSector fuel lba n d =
      .ok ((List.range' lba n).flatMap
        (fun sector ↦ sectorBytes d.contents sector 0 sectorSizeInBytes), d') := by
  obtain ⟨d₁, hrequest, hloaded, hd₁⟩ := ataRequest_run hlba hn hn' d
  obtain ⟨k, d', hd, hk⟩ := ataReadSectors_run n d₁ lba hloaded
  refine ⟨k, d', hd₁.trans hd, fun fuel hfuel ↦ ?_⟩
  rw [ataLbaReadSector, bind_run_ok hrequest, hk fuel hfuel, hd₁.contents]

theorem sectorBytes_getD {sector i : ℕ} (hi : i < sectorSizeInBytes) :
    (sectorBytes disk sector 0 sectorSizeInBytes).getD i 0 = disk sector i := by
  rw [List.getD_eq_getElem?_getD, sectorBytes, List.getElem?_map, List.getElem?_range hi]
  show disk sector (0 + i) = _
  rw [Nat.zero_add]

theorem sectorBytes_byteAt (sector : ℕ) : sectorBytes disk sector 0 sectorSizeInBytes =
    (List.range sectorSizeInBytes).map (fun i ↦ disk.byteAt (sectorSizeInBytes * sector + i)) := by
  refine List.map_congr_left (fun i hi ↦ ?_)
  have := List.mem_range.mp hi
  unfold Disk.byteAt
  unfold sectorSizeInBytes at *
  congr 1 <;> omega

theorem sectors_byteAt (n : ℕ) : ∀ lba, (List.range' lba n).flatMap
    (fun sector ↦ sectorBytes disk sector 0 sectorSizeInBytes) =
    (List.range (sectorSizeInBytes * n)).map (fun i ↦ disk.byteAt (sectorSizeInBytes * lba + i)) := by
  induction n with
  | zero => exact fun lba ↦ rfl
  | succ n ih =>
    intro lba
    have hlen : sectorSizeInBytes * (n + 1) = sectorSizeInBytes * n + sectorSizeInBytes := rfl
    rw [List.range'_succ, List.flatMap_cons, ih, sectorBytes_byteAt, hlen,
      range_split _ (Nat.le_add_left sectorSizeInBytes _), Nat.add_sub_cancel]
    refine congrArg _ (List.map_congr_left (fun i _ ↦ ?_))
    rw [Nat.mul_succ, Nat.add_assoc]

theorem portStreamRead_loop (turns : ℕ) : ∀ (pos n : ℕ) (d : AtaDrive), pos < 2 ^ 32 →
    pos % sectorSizeInBytes + n < 2 ^ 32 → ∃ k d',
      d.Delivers (streamReadLoop d.contents turns pos n).sectors d' ∧
      ∀ fuel ≥ k, portStreamRead fuel turns pos n d =
        .ok (((streamReadLoop d.contents turns pos n).bytes,
          (streamReadLoop d.contents turns pos n).pos), d') := by
  induction turns with
  | zero => exact fun pos n d _ _ ↦ ⟨0, d, .refl d, fun fuel _ ↦ rfl⟩
  | succ turns ih =>
    intro pos n d hpos hn
    have hoff : pos % sectorSizeInBytes < sectorSizeInBytes := Nat.mod_lt _ (by decide)
    have hlba : pos / sectorSizeInBytes < 2 ^ 28 := by
      unfold sectorSizeInBytes
      omega
    obtain ⟨k, d₁, hd₁, hk⟩ := ataLbaReadSector_run hlba Nat.one_pos (by decide) d
    have hbytes : ∀ here, pos % sectorSizeInBytes + here ≤ sectorSizeInBytes →
        (List.range here).map (fun index ↦ ((List.range' (pos / sectorSizeInBytes) 1).flatMap
          (fun sector ↦ sectorBytes d.contents sector 0 sectorSizeInBytes)).getD
          (pos % sectorSizeInBytes + index) 0) =
        (List.range here).map (fun index ↦
          d.contents (pos / sectorSizeInBytes) (pos % sectorSizeInBytes + index)) := by
      intro here hhere
      refine List.map_congr_left (fun i hi ↦ ?_)
      have := List.mem_range.mp hi
      rw [List.range'_one, List.flatMap_singleton, sectorBytes_getD (by omega)]
    simp only [portStreamRead, streamReadLoop]
    rw [u32_of_lt hn]
    by_cases hov : pos % sectorSizeInBytes + n ≥ sectorSizeInBytes
    · simp only [if_pos hov]
      generalize hhere : sectorSizeInBytes - pos % sectorSizeInBytes = here
      -- the stream goes on at the start of a sector
      have hnext : u32 (pos + here) % sectorSizeInBytes + (n - here) < 2 ^ 32 := by
        unfold u32
        unfold sectorSizeInBytes at *
        omega
      obtain ⟨k', d', hd', hk'⟩ := ih (u32 (pos + here)) (n - here) d₁ (u32_lt _) hnext
      rw [hd₁.contents] at hd' hk'
      refine ⟨max k k', d', hd₁.trans hd', fun fuel hfuel ↦ ?_⟩
      rw [bind_run_ok (hk fuel (le_of_max_le_left hfuel)),
        bind_run_ok (hk' fuel (le_of_max_le_right hfuel)), hbytes here (by omega)]
      rfl
    · simp only [if_neg hov]
      refine ⟨k, d₁, hd₁, fun fuel hfuel ↦ ?_⟩
      rw [bind_run_ok (hk fuel hfuel), hbytes n (by omega)]
      rfl

/-- The stream of a disk, read from the ports of a drive, however long that is busy
each time: the bytes, the position behind them and the sectors that are asked for
are those of the disk. -/
theorem portStreamRead_refines (d : AtaDrive) (hpos : pos < 2 ^ 32)
    (hn : pos % sectorSizeInBytes + n < 2 ^ 32) : ∃ k d',
      d.Delivers (diskStreamRead d.contents pos n).sectors d' ∧
      ∀ fuel ≥ k, portStreamRead fuel (n + 1) pos n d =
        .ok (((diskStreamRead d.contents pos n).bytes, (diskStreamRead d.contents pos n).pos), d') :=
  portStreamRead_loop (n + 1) pos n d hpos hn

def slowDrive : AtaDrive :=
  ⟨fun sector i ↦ UInt8.ofNat (sector + i), fun n ↦ n + 3, [], 0, 0, 0, 0, 0, 0, 0, 0, 0⟩

theorem portStreamRead_refines_slow : ∃ k d', slowDrive.Delivers [0, 1] d' ∧
    ∀ fuel ≥ k, portStreamRead fuel 5 510 4 slowDrive = .ok (([254, 255, 1, 2], 514), d') :=
  portStreamRead_refines slowDrive (by decide : 510 < 2 ^ 32)
    (by decide : 510 % sectorSizeInBytes + 4 < 2 ^ 32)

end GammaOS.Fs
