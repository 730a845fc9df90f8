import GammaOS.Foundation.ByteMemory
import GammaOS.Machine
import Mathlib.Data.List.Range

namespace GammaOS.Loader

open Foundation

def taskDefaultStart : ℕ := 0x400000

def elfMagicNumber : List UInt8 := [0x7F, 0x45, 0x4C, 0x46]
def eiClass : ℕ := 4
def eiData : ℕ := 5
def elfclass32 : UInt8 := 1
def elfdata2lsb : UInt8 := 1
def etExec : ℕ := 2
def ptLoad : ℕ := 1
def pfW : ℕ := 2

def ehdrSize : ℕ := 52
def phdrSize : ℕ := 32

/-- `Elf32_Ehdr`: the fields the loader uses. Offsets are kept as unsigned values. -/
structure Elf32Ehdr where
  eIdent : List UInt8
  eType : ℕ
  eEntry : ℕ
  ePhoff : ℕ
  eShoff : ℕ
  ePhnum : ℕ
deriving DecidableEq

def Elf32Ehdr.ofBytes (b : ByteMemory) (a : ℕ) : Elf32Ehdr where
  eIdent := (List.range 16).map (fun i ↦ b (a + i))
  eType := b.load16 (a + 16)
  eEntry := b.load32 (a + 24)
  ePhoff := b.load32 (a + 28)
  eShoff := b.load32 (a + 32)
  ePhnum := b.load16 (a + 44)

structure Elf32Phdr where
  pType : ℕ
  pOffset : ℕ
  pVaddr : ℕ
  pFilesz : ℕ
  pMemsz : ℕ
  pFlags : ℕ
deriving DecidableEq

def Elf32Phdr.ofBytes (b : ByteMemory) (a : ℕ) : Elf32Phdr where
  pType := b.load32 a
  pOffset := b.load32 (a + 4)
  pVaddr := b.load32 (a + 8)
  pFilesz := b.load32 (a + 16)
  pMemsz := b.load32 (a + 20)
  pFlags := b.load32 (a + 24)

/-- `ELF_FILE`, with its address. `fileSize` is a ghost: how many bytes of the
file lie at `data`. -/
structure ElfFile where
  addr : ℕ
  data : ℕ
  fileSize : ℕ
  vbase : ℕ
  vend : ℕ
  pbase : ℕ
  pend : ℕ
deriving DecidableEq

/-- What a read of the loader sees: the bytes of the file in its buffer, and
what `alien` says elsewhere. -/
def ElfFile.view (file : ElfFile) (alien m : ByteMemory) : ByteMemory := fun a ↦
  if file.data ≤ a ∧ a < file.data + file.fileSize then m a else alien a

def elfGetEhdr (b : ByteMemory) (file : ElfFile) : Elf32Ehdr := .ofBytes b file.data

def phdrAddr (b : ByteMemory) (file : ElfFile) (index : ℕ) : ℕ :=
  u32 (file.data + (elfGetEhdr b file).ePhoff + phdrSize * index)

def elfGetPhdr (b : ByteMemory) (file : ElfFile) (index : ℕ) : Elf32Phdr :=
  .ofBytes b (phdrAddr b file index)

def elfValidateSignature (hdr : Elf32Ehdr) : Bool := hdr.eIdent.take 4 == elfMagicNumber

def elfValidateClass32 (hdr : Elf32Ehdr) : Bool := hdr.eIdent.getD eiClass 0 == elfclass32

def elfValidateLittleEndian (hdr : Elf32Ehdr) : Bool := hdr.eIdent.getD eiData 0 == elfdata2lsb

def elfValidateExecutable (hdr : Elf32Ehdr) : Bool :=
  hdr.eType == etExec && decide (hdr.eEntry ≥ taskDefaultStart)

def elfValidatePhdr (hdr : Elf32Ehdr) : Bool := hdr.ePhoff != 0

def elfValidateShdr (hdr : Elf32Ehdr) : Bool := hdr.eShoff != 0

def elfVerdict (hdr : Elf32Ehdr) : ℤ :=
  if elfValidateSignature hdr && elfValidateClass32 hdr && elfValidateExecutable hdr &&
      elfValidateLittleEndian hdr && elfValidatePhdr hdr && elfValidateShdr hdr
  then success else -errInvalidElfFile

/-- The status is computed, and dropped: the function ends in `return 0`. -/
def elfValidateElfFile (b : ByteMemory) (file : ElfFile) : ℤ :=
  let _verdict := elfVerdict (elfGetEhdr b file)
  0

structure HeaderTest (hdr : Elf32Ehdr) : Prop where
  signature : hdr.eIdent.take 4 = elfMagicNumber
  class32 : hdr.eIdent.getD eiClass 0 = elfclass32
  littleEndian : hdr.eIdent.getD eiData 0 = elfdata2lsb
  exec : hdr.eType = etExec
  entry : taskDefaultStart ≤ hdr.eEntry
  phoff : hdr.ePhoff ≠ 0
  shoff : hdr.eShoff ≠ 0

variable {hdr : Elf32Ehdr} {b m m' alien alien' : ByteMemory} {file : ElfFile} {n a : ℕ}

theorem elfVerdict_eq_success : elfVerdict hdr = success ↔ HeaderTest hdr := by
  have hne : -(errInvalidElfFile : ℤ) ≠ success := by decide
  unfold elfVerdict
  constructor
  · intro h
    by_contra hc
    rw [if_neg] at h
    · exact hne h
    · intro ht
      simp only [elfValidateSignature, elfValidateClass32, elfValidateExecutable,
        elfValidateLittleEndian, elfValidatePhdr, elfValidateShdr, Bool.and_eq_true, beq_iff_eq,
        decide_eq_true_eq, bne_iff_ne] at ht
      obtain ⟨⟨⟨⟨⟨h₁, h₂⟩, h₃, h₄⟩, h₅⟩, h₆⟩, h₇⟩ := ht
      exact hc ⟨h₁, h₂, h₅, h₃, h₄, h₆, h₇⟩
  · intro h
    rw [if_pos]
    simp only [elfValidateSignature, elfValidateClass32, elfValidateExecutable,
      elfValidateLittleEndian, elfValidatePhdr, elfValidateShdr, Bool.and_eq_true, beq_iff_eq,
      decide_eq_true_eq, bne_iff_ne]
    exact ⟨⟨⟨⟨⟨h.signature, h.class32⟩, h.exec, h.entry⟩, h.littleEndian⟩, h.phoff⟩, h.shoff⟩

instance (hdr : Elf32Ehdr) : Decidable (HeaderTest hdr) :=
  decidable_of_iff _ elfVerdict_eq_success

theorem ePhnum_lt : (elfGetEhdr b file).ePhnum < 2 ^ 16 := ByteMemory.load16_lt _ _

theorem view_inside (h₁ : file.data ≤ a) (h₂ : a < file.data + file.fileSize) :
    file.view alien m a = m a :=
  if_pos ⟨h₁, h₂⟩

theorem view_congr (hm : ∀ a, file.data ≤ a → a < file.data + file.fileSize → m' a = m a)
    (h₁ : file.data ≤ a) (h₂ : a < file.data + file.fileSize) :
    file.view alien' m' a = file.view alien m a := by
  rw [view_inside h₁ h₂, view_inside h₁ h₂, hm a h₁ h₂]

theorem ofBytes_ehdr_congr {b b' : ByteMemory} {a' : ℕ}
    (h : ∀ i < ehdrSize, b' (a' + i) = b (a + i)) :
    Elf32Ehdr.ofBytes b' a' = Elf32Ehdr.ofBytes b a := by
  unfold ehdrSize at h
  have h16 : ∀ k ≤ 50, b'.load16 (a' + k) = b.load16 (a + k) := by
    intro k hk
    rw [ByteMemory.load16, ByteMemory.load16, h k (by omega), Nat.add_assoc, h (k + 1) (by omega)]
    rfl
  have h32 : ∀ k ≤ 48, b'.load32 (a' + k) = b.load32 (a + k) := by
    intro k hk
    rw [ByteMemory.load32, ByteMemory.load32, h16 k (by omega), Nat.add_assoc,
      h16 (k + 2) (by omega)]
    rfl
  have hident : (List.range 16).map (fun i ↦ b' (a' + i)) = (List.range 16).map (fun i ↦ b (a + i)) :=
    List.map_congr_left (fun i hi ↦ h i (by have := List.mem_range.mp hi; omega))
  rw [Elf32Ehdr.ofBytes, Elf32Ehdr.ofBytes, hident, h16 16 (by omega), h32 24 (by omega),
    h32 28 (by omega), h32 32 (by omega), h16 44 (by omega)]

theorem ofBytes_phdr_congr {b b' : ByteMemory} {a' : ℕ}
    (h : ∀ i < phdrSize, b' (a' + i) = b (a + i)) :
    Elf32Phdr.ofBytes b' a' = Elf32Phdr.ofBytes b a := by
  unfold phdrSize at h
  have h16 : ∀ k ≤ 30, b'.load16 (a' + k) = b.load16 (a + k) := by
    intro k hk
    rw [ByteMemory.load16, ByteMemory.load16, h k (by omega), Nat.add_assoc, h (k + 1) (by omega)]
    rfl
  have h32 : ∀ k ≤ 28, b'.load32 (a' + k) = b.load32 (a + k) := by
    intro k hk
    rw [ByteMemory.load32, ByteMemory.load32, h16 k (by omega), Nat.add_assoc,
      h16 (k + 2) (by omega)]
    rfl
  rw [Elf32Phdr.ofBytes, Elf32Phdr.ofBytes, ← Nat.add_zero a, ← Nat.add_zero a', h32 0 (by omega),
    Nat.add_zero, Nat.add_zero, h32 4 (by omega), h32 8 (by omega), h32 16 (by omega),
    h32 20 (by omega), h32 24 (by omega)]

structure TableInside (b : ByteMemory) (file : ElfFile) : Prop where
  ehdr : ehdrSize ≤ file.fileSize
  table : (elfGetEhdr b file).ePhoff + phdrSize * (elfGetEhdr b file).ePhnum ≤ file.fileSize

theorem elfGetEhdr_congr (h : ehdrSize ≤ file.fileSize)
    (hm : ∀ a, file.data ≤ a → a < file.data + file.fileSize → m' a = m a) :
    elfGetEhdr (file.view alien' m') file = elfGetEhdr (file.view alien m) file :=
  ofBytes_ehdr_congr (fun _ hi ↦ view_congr hm (Nat.le_add_right _ _) (by omega))

theorem phdrAddr_inside (h : TableInside b file) (hlt : file.data + file.fileSize ≤ 2 ^ 32)
    (hn : n < (elfGetEhdr b file).ePhnum) :
    phdrAddr b file n = file.data + (elfGetEhdr b file).ePhoff + phdrSize * n ∧
      phdrAddr b file n + phdrSize ≤ file.data + file.fileSize := by
  have hle := Nat.mul_le_mul_left phdrSize hn
  rw [Nat.mul_succ] at hle
  have htable := h.table
  have heq : phdrAddr b file n = file.data + (elfGetEhdr b file).ePhoff + phdrSize * n :=
    u32_of_lt (by unfold phdrSize at *; omega)
  exact ⟨heq, by omega⟩

theorem elfGetPhdr_congr (h : TableInside (file.view alien m) file)
    (hlt : file.data + file.fileSize ≤ 2 ^ 32)
    (hm : ∀ a, file.data ≤ a → a < file.data + file.fileSize → m' a = m a)
    (hn : n < (elfGetEhdr (file.view alien m) file).ePhnum) :
    elfGetPhdr (file.view alien' m') file n = elfGetPhdr (file.view alien m) file n := by
  have hehdr := @elfGetEhdr_congr m m' alien alien' file h.ehdr hm
  have haddr : phdrAddr (file.view alien' m') file n = phdrAddr (file.view alien m) file n := by
    rw [phdrAddr, phdrAddr, hehdr]
  obtain ⟨heq, hin⟩ := phdrAddr_inside h hlt hn
  rw [elfGetPhdr, elfGetPhdr, haddr]
  exact ofBytes_phdr_congr (fun i hi ↦ view_congr hm (by omega) (by omega))

end GammaOS.Loader
