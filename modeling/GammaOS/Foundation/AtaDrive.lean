import Mathlib.Algebra.Order.Group.Nat
import Mathlib.Data.List.Range
import Mathlib.Tactic.Common

namespace GammaOS.Foundation

/-- The first ATA drive of a channel, which reads its sectors by programmed input.
It answers with `contents`. Before the sector that it delivers as number `n` is
there, its status is busy for `delay n` reads. -/
structure AtaDrive where
  contents : ℕ → ℕ → UInt8
  delay : ℕ → ℕ
  delivered : List ℕ
  device : ℕ
  count : ℕ
  low : ℕ
  mid : ℕ
  high : ℕ
  /-- The sector that is being delivered, and how many are left with it. -/
  lba : ℕ
  left : ℕ
  busy : ℕ
  word : ℕ

namespace AtaDrive

def wordsPerSector : ℕ := 256

def dataPort : ℕ := 0x1F0

def commandPort : ℕ := 0x1F7

def wordAt (d : AtaDrive) : ℕ :=
  (d.contents d.lba (2 * d.word)).toNat + 2 ^ 8 * (d.contents d.lba (2 * d.word + 1)).toNat

def sectorDone (d : AtaDrive) : AtaDrive :=
  { d with
    delivered := d.delivered ++ [d.lba]
    lba := d.lba + 1
    left := d.left - 1
    busy := d.delay (d.delivered.length + 1)
    word := 0 }

def nextWord (d : AtaDrive) : AtaDrive :=
  if d.word + 1 < wordsPerSector then { d with word := d.word + 1 } else d.sectorDone

/-- An `in` of a byte: the status tells whether data is ready, no data is
requested, or the drive is busy. -/
def in8 (port : ℕ) (d : AtaDrive) : ℕ × AtaDrive :=
  if port = commandPort then
    if d.left = 0 then (0x50, d)
    else if d.busy = 0 then (0x58, d)
    else (0x80, { d with busy := d.busy - 1 })
  else (0xFF, d)

def in16 (port : ℕ) (d : AtaDrive) : ℕ × AtaDrive :=
  if port = dataPort ∧ d.left ≠ 0 ∧ d.busy = 0 then (d.wordAt, d.nextWord) else (0xFFFF, d)

/-- The address that the registers hold, in the mode for block addresses. -/
def address (d : AtaDrive) : ℕ :=
  d.device % 2 ^ 4 * 2 ^ 24 + d.high * 2 ^ 16 + d.mid * 2 ^ 8 + d.low

/-- READ SECTORS, when the device register has the mode for block addresses and this drive. -/
def command (v : ℕ) (d : AtaDrive) : AtaDrive :=
  if v = 0x20 ∧ d.device &&& 0x50 = 0x40 then
    { d with
      lba := d.address
      left := if d.count = 0 then 256 else d.count
      busy := d.delay d.delivered.length
      word := 0 }
  else d

def out8 (port v : ℕ) (d : AtaDrive) : AtaDrive :=
  if port = 0x1F2 then { d with count := v }
  else if port = 0x1F3 then { d with low := v }
  else if port = 0x1F4 then { d with mid := v }
  else if port = 0x1F5 then { d with high := v }
  else if port = 0x1F6 then { d with device := v }
  else if port = commandPort then d.command v
  else d

structure Loaded (d : AtaDrive) (lba n : ℕ) : Prop where
  lba_eq : d.lba = lba
  left_eq : d.left = n
  word_eq : d.word = 0

/-- From `d` to `d'` the drive has delivered the sectors, and nothing else has changed
that a reader can see. -/
structure Delivers (d : AtaDrive) (sectors : List ℕ) (d' : AtaDrive) : Prop where
  contents : d'.contents = d.contents
  delay : d'.delay = d.delay
  delivered : d'.delivered = d.delivered ++ sectors

variable {d d' d'' : AtaDrive} {lba n : ℕ} {l l' : List ℕ}

theorem Delivers.refl (d : AtaDrive) : Delivers d [] d := ⟨rfl, rfl, (List.append_nil _).symm⟩

theorem Delivers.trans (h : Delivers d l d') (h' : Delivers d' l' d'') : Delivers d (l ++ l') d'' where
  contents := h'.contents.trans h.contents
  delay := h'.delay.trans h.delay
  delivered := by rw [h'.delivered, h.delivered, List.append_assoc]

theorem Loaded.sectorDone (h : d.Loaded lba (n + 1)) : d.sectorDone.Loaded (lba + 1) n where
  lba_eq := congrArg (· + 1) h.lba_eq
  left_eq := congrArg (· - 1) h.left_eq
  word_eq := rfl

theorem Loaded.ready (h : d.Loaded lba n) : Loaded { d with busy := 0 } lba n :=
  ⟨h.lba_eq, h.left_eq, h.word_eq⟩

theorem in8_ready (hl : d.left ≠ 0) (hb : d.busy = 0) : d.in8 commandPort = (0x58, d) := by
  rw [in8, if_pos rfl, if_neg hl, if_pos hb]

theorem in8_busy (hl : d.left ≠ 0) (hb : d.busy ≠ 0) :
    d.in8 commandPort = (0x80, { d with busy := d.busy - 1 }) := by
  rw [in8, if_pos rfl, if_neg hl, if_neg hb]

theorem in16_data (hl : d.left ≠ 0) (hb : d.busy = 0) : d.in16 dataPort = (d.wordAt, d.nextWord) :=
  if_pos ⟨rfl, hl, hb⟩

theorem command_loaded (hlba : lba < 2 ^ 28) (hn : 0 < n)
    (hdevice : d.device = lba / 2 ^ 24 + 0xE0) (hhigh : d.high = lba / 2 ^ 16 % 256)
    (hmid : d.mid = lba / 2 ^ 8 % 256) (hlow : d.low = lba % 256) (hcount : d.count = n) :
    (d.command 0x20).Loaded lba n ∧ Delivers d [] (d.command 0x20) := by
  have hmode : d.device &&& 0x50 = 0x40 := by
    have hhead : lba / 2 ^ 24 < 16 := by omega
    rw [hdevice]
    generalize lba / 2 ^ 24 = k at hhead ⊢
    revert k
    decide
  rw [command, if_pos ⟨rfl, hmode⟩]
  refine ⟨⟨?_, ?_, rfl⟩, rfl, rfl, (List.append_nil _).symm⟩
  · show d.address = lba
    rw [address, hdevice, hhigh, hmid, hlow]
    omega
  · show (if d.count = 0 then 256 else d.count) = n
    rw [hcount, if_neg (Nat.ne_of_gt hn)]

end AtaDrive

end GammaOS.Foundation
