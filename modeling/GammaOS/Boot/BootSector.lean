import GammaOS.Foundation.ByteString
import GammaOS.Fs.AtaRead

namespace GammaOS.Boot

open Foundation Foundation.Program ByteMemory Memory Fs

/-- Programs of the boot sector beside the drive and the memory. -/
abbrev BootM := Program Fault (AtaDrive × ByteMemory)

variable {α : Type}

def onDrive (m : PortM α) : BootM α := onPart Prod.fst (fun d s ↦ (d, s.2)) m

def storeBytes (a : ℕ) (bytes : List UInt8) : BootM Unit :=
  modifyState (fun s ↦ (s.1, s.2.writeBytes a bytes))

def repInsw : ℕ → ℕ → BootM Unit
  | 0, _ => pure ()
  | ecx + 1, edi => do
    let data ← onDrive (insw 0x1F0)
    storeBytes edi [UInt8.ofNat data, UInt8.ofNat (data / 2 ^ 8)]
    repInsw ecx (u32 (edi + 2))

def readSector (fuel edi : ℕ) : BootM Unit := do
  onDrive (ataWait fuel)
  repInsw 256 edi

/-- `push` where the stack ends at `esp`. -/
def push (esp v : ℕ) : BootM Unit := modifyState (fun s ↦ (s.1, s.2.store32 (subU32 esp 4) v))

def pop (esp : ℕ) : BootM ℕ := gets (fun s ↦ s.2.load32 esp)

/-- The loop over the sectors with a bound on its turns. The counter is on the
stack while a sector is read. -/
def nextSector (fuel esp : ℕ) : ℕ → ℕ → ℕ → BootM Unit
  | 0, _, _ => fault .loop
  | turns + 1, ecx, edi => do
    push esp ecx
    readSector fuel edi
    let ecx ← pop (subU32 esp 4)
    if subU32 ecx 1 = 0 then pure ()
    else nextSector fuel esp turns (subU32 ecx 1) (u32 (edi + sectorSizeInBytes))

/-- Returns the address to which `ret` goes. -/
def ataLbaRead (fuel esp eax ecx edi : ℕ) : BootM ℕ := do
  onDrive (do
    outb 0x1F6 (eax / 2 ^ 24 ||| 0xE0)
    outb 0x1F2 ecx
    outb 0x1F3 eax
    outb 0x1F4 (eax / 2 ^ 8)
    outb 0x1F5 (eax / 2 ^ 16)
    outb 0x1F7 0x20)
  nextSector fuel esp (2 ^ 32) ecx edi
  pop esp

/-- `load32` up to its jump into the kernel. `afterCall` is the address of that
jump, and the stack ends where the boot sector begins. -/
def load32 (fuel : ℕ) (afterCall : UInt32) : BootM ℕ := do
  push 0x7C00 afterCall.toNat
  ataLbaRead fuel 0x7BFC 1 100 0x0100000

variable {d d' : AtaDrive} {m : ByteMemory} {bytes : List UInt8} {n edi fuel lba : ℕ}

theorem onDrive_run {p : PortM α} {a : α} (h : p d = .ok (a, d')) :
    onDrive p (d, m) = .ok (a, (d', m)) := onPart_eq_ok.mpr ⟨d', h, rfl⟩

theorem repInsw_run : ∀ n (edi : ℕ) (d : AtaDrive) (m : ByteMemory) (bytes : List UInt8),
    ataReadWords n d = .ok (bytes, d') → edi + 2 * n < 2 ^ 32 →
      repInsw n edi (d, m) = .ok ((), (d', m.writeBytes edi bytes)) ∧ bytes.length = 2 * n := by
  intro n
  induction n with
  | zero =>
    intro edi d m bytes h _
    cases h
    exact ⟨by rw [writeBytes_nil]; rfl, rfl⟩
  | succ n ih =>
    intro edi d m bytes h hlt
    obtain ⟨data, d₁, h₁, h⟩ := bind_eq_ok.mp h
    obtain ⟨rest, d₂, h₂, h⟩ := bind_eq_ok.mp h
    cases h
    obtain ⟨hrun, hlen⟩ := ih (edi + 2) d₁
      (m.writeBytes edi [UInt8.ofNat data, UInt8.ofNat (data / 2 ^ 8)]) rest h₂ (by omega)
    refine ⟨?_, by rw [List.length_cons, List.length_cons, hlen]; omega⟩
    rw [repInsw, bind_run_ok (onDrive_run h₁)]
    refine (bind_run_ok (m := storeBytes _ _) rfl).trans ?_
    rw [u32_of_lt (by omega)]
    refine hrun.trans ?_
    exact congrArg (fun m ↦ Except.ok ((), (d', m))) (writeBytes_writeBytes _ _ [_, _] rest)

theorem readSector_run (h : ataReadSector fuel d = .ok (bytes, d'))
    (hedi : edi + sectorSizeInBytes < 2 ^ 32) :
    readSector fuel edi (d, m) = .ok ((), (d', m.writeBytes edi bytes)) ∧
      bytes.length = sectorSizeInBytes := by
  obtain ⟨_, d₁, h₁, h⟩ := bind_eq_ok.mp h
  obtain ⟨hrun, hlen⟩ := repInsw_run (sectorSizeInBytes / 2) edi d₁ m bytes h hedi
  refine ⟨?_, hlen⟩
  rw [readSector, bind_run_ok (onDrive_run h₁)]
  exact hrun

/-- The bytes are at `edi`, and nothing else has changed but the word below `esp`. -/
structure Filled (m : ByteMemory) (esp edi : ℕ) (bytes : List UInt8) (m' : ByteMemory) : Prop where
  inside : ∀ i < bytes.length, m' (edi + i) = bytes.getD i 0
  outside : ∀ a, a < esp - 4 ∨ esp ≤ a → a < edi ∨ edi + bytes.length ≤ a → m' a = m a

theorem Filled.append {m₁ m₂ : ByteMemory} {first rest : List UInt8} {esp : ℕ} (hesp : esp ≤ edi)
    (h₁ : Filled m esp edi first m₁) (h₂ : Filled m₁ esp (edi + first.length) rest m₂) :
    Filled m esp edi (first ++ rest) m₂ := by
  refine ⟨fun i hi ↦ ?_, fun a ha hout ↦ ?_⟩
  · rw [List.length_append] at hi
    rw [List.getD_eq_getElem?_getD]
    by_cases hfirst : i < first.length
    · rw [h₂.outside _ (by omega) (by omega), h₁.inside i hfirst, List.getElem?_append_left hfirst,
        List.getD_eq_getElem?_getD]
    · rw [List.getElem?_append_right (by omega), ← List.getD_eq_getElem?_getD,
        ← h₂.inside _ (by omega)]
      congr 1
      omega
  · rw [List.length_append] at hout
    rw [h₂.outside a ha (by omega), h₁.outside a ha (by omega)]

theorem nextSector_turn {ecx esp : ℕ} (h : ataReadSector fuel d = .ok (bytes, d'))
    (hecx : ecx < 2 ^ 32) (hlow : 4 ≤ esp) (hesp : esp ≤ edi)
    (hedi : edi + sectorSizeInBytes < 2 ^ 32) (turns : ℕ) :
    ∃ m', Filled m esp edi bytes m' ∧ nextSector fuel esp (turns + 1) ecx edi (d, m) =
      (if subU32 ecx 1 = 0 then pure ()
        else nextSector fuel esp turns (subU32 ecx 1) (edi + sectorSizeInBytes)) (d', m') := by
  have hbelow : subU32 esp 4 = esp - 4 := by
    unfold subU32 u32
    omega
  obtain ⟨hrun, -⟩ := readSector_run (m := m.store32 (esp - 4) ecx) h hedi
  have hword : ByteMemory.load32 ((m.store32 (esp - 4) ecx).writeBytes edi bytes) (esp - 4) = ecx :=
    (load32_congr (fun i h₁ h₂ ↦ writeBytes_outside (by omega))).trans (load32_store32_self hecx)
  refine ⟨(m.store32 (esp - 4) ecx).writeBytes edi bytes, ⟨fun i hi ↦ writeBytes_inside hi,
    fun a ha hout ↦ ?_⟩, ?_⟩
  · rw [writeBytes_outside hout, store32_outside (by omega)]
  rw [nextSector, hbelow]
  refine (bind_run_ok (modifyState_run _ _)).trans ?_
  rw [hbelow]
  refine (bind_run_ok hrun).trans ?_
  refine (bind_run_ok (gets_run _ _)).trans ?_
  rw [hword, u32_of_lt (by omega)]

theorem nextSector_run {esp : ℕ} (hlow : 4 ≤ esp) : ∀ n turns (edi : ℕ) (d : AtaDrive)
    (m : ByteMemory) (bytes : List UInt8), ataReadSectors fuel (n + 1) d = .ok (bytes, d') →
      esp ≤ edi → edi + sectorSizeInBytes * (n + 1) < 2 ^ 32 → n < turns →
      ∃ m', Filled m esp edi bytes m' ∧
        nextSector fuel esp turns (n + 1) edi (d, m) = .ok ((), (d', m')) := by
  intro n
  induction n with
  | zero =>
    intro turns edi d m bytes h hesp hlt hturns
    obtain ⟨turns, rfl⟩ := Nat.exists_eq_succ_of_ne_zero (Nat.ne_zero_of_lt hturns)
    obtain ⟨first, d₁, h₁, h⟩ := bind_eq_ok.mp h
    cases h
    obtain ⟨m', hfilled, hrun⟩ := nextSector_turn (m := m) h₁ (by decide : 1 < 2 ^ 32) hlow hesp hlt turns
    rw [List.append_nil]
    exact ⟨m', hfilled, hrun⟩
  | succ n ih =>
    intro turns edi d m bytes h hesp hlt hturns
    obtain ⟨turns, rfl⟩ := Nat.exists_eq_succ_of_ne_zero (Nat.ne_zero_of_lt hturns)
    obtain ⟨first, d₁, h₁, h⟩ := bind_eq_ok.mp h
    obtain ⟨rest, d₂, h₂, h⟩ := bind_eq_ok.mp h
    cases h
    rw [Nat.mul_succ] at hlt
    have hlen := (readSector_run (m := m) h₁ (show edi + sectorSizeInBytes < 2 ^ 32 by omega)).2
    have hecx : n + 1 + 1 < 2 ^ 32 := by
      unfold sectorSizeInBytes at hlt
      omega
    have hcount : subU32 (n + 1 + 1) 1 = n + 1 := by
      unfold subU32 u32
      omega
    obtain ⟨m₁, hfilled, hturn⟩ := nextSector_turn (m := m) h₁ hecx hlow hesp (by omega) turns
    obtain ⟨m₂, hrest, hrun⟩ := ih turns (edi + sectorSizeInBytes) d₁ m₁ rest h₂ (by omega) (by omega)
      (by omega)
    refine ⟨m₂, hfilled.append hesp (by rwa [hlen]), ?_⟩
    rw [hturn, hcount, if_neg (Nat.succ_ne_zero n)]
    exact hrun

theorem outb_congr {port val val' : ℕ} (h : u8 val = u8 val') : outb port val = outb port val' := by
  unfold outb
  rw [h]

/-- The boot sector and the driver of the kernel give the same command. -/
theorem ataLbaRead_eq (fuel esp eax ecx edi : ℕ) : ataLbaRead fuel esp eax ecx edi = (do
    onDrive (ataRequest eax ecx)
    nextSector fuel esp (2 ^ 32) ecx edi
    pop esp) := by
  have hlow : u8 eax = u8 (eax &&& 0xff) := by
    rw [Nat.and_two_pow_sub_one_eq_mod eax 8]
    unfold u8
    omega
  have hmid : u8 (eax / 2 ^ 8) = u8 (eax / 2 ^ 8 % 2 ^ 16) := by
    unfold u8
    omega
  have hhigh : u8 (eax / 2 ^ 16) = u8 (eax / 2 ^ 16 % 2 ^ 16) := by
    unfold u8
    omega
  rw [ataLbaRead, ataRequest, outb_congr hlow, outb_congr hmid, outb_congr hhigh]
  rfl

theorem ataLbaRead_run (lba edi esp : ℕ) (hlba : lba < 2 ^ 28) (hn : 0 < n) (hn' : n < 256)
    (hlow : 4 ≤ esp) (hesp : esp + 4 ≤ edi) (hedi : edi + sectorSizeInBytes * n < 2 ^ 32)
    (d : AtaDrive) (m : ByteMemory) :
    ∃ k d', d.Delivers (List.range' lba n) d' ∧ ∀ fuel ≥ k, ∃ m',
      Filled m esp edi ((List.range (sectorSizeInBytes * n)).map
        (fun i ↦ Disk.byteAt d.contents (sectorSizeInBytes * lba + i))) m' ∧
      ataLbaRead fuel esp lba n edi (d, m) = .ok (ByteMemory.load32 m esp, (d', m')) := by
  obtain ⟨d₁, hrequest, hloaded, hd₁⟩ := ataRequest_run hlba hn hn' d
  obtain ⟨k, d', hd, hk⟩ := ataReadSectors_run n d₁ lba hloaded
  obtain ⟨n, rfl⟩ := Nat.exists_eq_succ_of_ne_zero (Nat.ne_of_gt hn)
  refine ⟨k, d', hd₁.trans hd, fun fuel hfuel ↦ ?_⟩
  obtain ⟨m', hfilled, hrun⟩ := nextSector_run hlow n (2 ^ 32) edi d₁ m _ (hk fuel hfuel)
    (by omega) hedi (by omega)
  rw [sectors_byteAt, hd₁.contents] at hfilled
  refine ⟨m', hfilled, ?_⟩
  rw [ataLbaRead_eq, bind_run_ok (onDrive_run hrequest), bind_run_ok hrun, pop, gets_run,
    load32_congr (fun i h₁ h₂ ↦ hfilled.outside i (by omega) (by omega))]

/-- The boot sector brings the hundred sectors behind it to the place where the
kernel is entered, however long the drive takes, and returns to the jump there. It
stores nowhere else but to the two words of its stack. -/
theorem load32_loads (afterCall : UInt32) (d : AtaDrive) (m : ByteMemory) :
    ∃ k d', d.Delivers (List.range' 1 100) d' ∧ ∀ fuel ≥ k, ∃ m',
      load32 fuel afterCall (d, m) = .ok (afterCall.toNat, (d', m')) ∧
      (∀ i < 100 * sectorSizeInBytes,
        m' (0x100000 + i) = Disk.byteAt d.contents (sectorSizeInBytes + i)) ∧
      ∀ a, a < 0x7BF8 ∨ (0x7C00 ≤ a ∧ a < 0x100000) ∨ 0x100000 + 100 * sectorSizeInBytes ≤ a →
        m' a = m a := by
  obtain ⟨k, d', hd, hk⟩ := ataLbaRead_run 1 0x100000 0x7BFC (n := 100) (by decide) (by decide)
    (by decide) (by decide) (by decide) (by decide) d (m.store32 0x7BFC afterCall.toNat)
  refine ⟨k, d', hd, fun fuel hfuel ↦ ?_⟩
  obtain ⟨m', hfilled, hrun⟩ := hk fuel hfuel
  have hlen : ((List.range (sectorSizeInBytes * 100)).map
      (fun i ↦ Disk.byteAt d.contents (sectorSizeInBytes * 1 + i))).length =
        100 * sectorSizeInBytes := by
    rw [List.length_map, List.length_range, Nat.mul_comm]
  rw [load32_store32_self afterCall.toNat_lt] at hrun
  refine ⟨m', (bind_run_ok (modifyState_run _ _)).trans hrun, fun i hi ↦ ?_, fun a ha ↦ ?_⟩
  · rw [hfilled.inside i (by rwa [hlen]), List.getD_eq_getElem?_getD, List.getElem?_map,
      List.getElem?_range (by rwa [Nat.mul_comm])]
    rfl
  · rw [hfilled.outside a (by omega) (by rw [hlen]; omega), store32_outside (by omega)]

end GammaOS.Boot
