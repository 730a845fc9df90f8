import GammaOS.Memory.Arena
import Mathlib.Logic.Function.Basic
import Mathlib.Tactic.IntervalCases

namespace GammaOS.Segments

open Function Foundation Memory

structure GdtStructured where
  base : ℕ
  limit : ℕ
  attrubutes : UInt8
  base_lt : base < 2 ^ 32
  limit_lt : limit < 2 ^ 32

def setByte (m : ByteMemory) (a v : ℕ) : ByteMemory := update m a (UInt8.ofNat v)

def orByte (m : ByteMemory) (a v : ℕ) : ByteMemory := update m a (m a ||| UInt8.ofNat v)

/-- The stores of `gdt_unstructure` behind its test, with the limit and the
flags that the test of the limit leaves. -/
def gdtStore (m : ByteMemory) (target base limit flags : ℕ) (attrubutes : UInt8) : ByteMemory :=
  let m := setByte m (target + 6) flags
  let m := setByte m target (limit &&& 0xFF)
  let m := setByte m (target + 1) ((limit >>> 8) &&& 0xFF)
  let m := orByte m (target + 6) ((limit >>> 16) &&& 0x0F)
  let m := setByte m (target + 2) (base &&& 0xFF)
  let m := setByte m (target + 3) ((base >>> 8) &&& 0xFF)
  let m := setByte m (target + 4) ((base >>> 16) &&& 0xFF)
  let m := setByte m (target + 7) ((base >>> 24) &&& 0xFF)
  update m (target + 5) attrubutes

def gdtUnstructure (m : ByteMemory) (target : ℕ) (source : GdtStructured) :
    Except Fault ByteMemory :=
  if source.limit &&& 0xFFF00000 ≠ 0 then .error .panic
  else if source.limit > 0xFFFF then
    .ok (gdtStore m target source.base (source.limit >>> 12) 0xC0 source.attrubutes)
  else .ok (gdtStore m target source.base source.limit 0x40 source.attrubutes)

def gdtLoop (gdt : ℕ) (gdtS : ℕ → GdtStructured) : ℕ → ℕ → ByteMemory → Except Fault ByteMemory
  | 0, _, m => .ok m
  | n + 1, entry, m =>
    match gdtUnstructure m (gdt + 8 * entry) (gdtS entry) with
    | .error e => .error e
    | .ok m => gdtLoop gdt gdtS n (entry + 1) m

def getGdtFromStructured (gdt : ℕ) (gdtS : ℕ → GdtStructured) (gdtEntries : ℕ) (m : ByteMemory) :
    Except Fault ByteMemory :=
  gdtLoop gdt gdtS gdtEntries 0 m

/-- A segment descriptor as the processor reads it. -/
structure Descriptor where
  base : ℕ
  limit : ℕ
  access : UInt8
  pageGranular : Bool

def Descriptor.decode (m : ByteMemory) (a : ℕ) : Descriptor where
  base := (m (a + 2)).toNat + 2 ^ 8 * (m (a + 3)).toNat + 2 ^ 16 * (m (a + 4)).toNat +
    2 ^ 24 * (m (a + 7)).toNat
  limit := (m a).toNat + 2 ^ 8 * (m (a + 1)).toNat + 2 ^ 16 * ((m (a + 6)).toNat % 2 ^ 4)
  access := m (a + 5)
  pageGranular := (m (a + 6)).toNat / 2 ^ 7 % 2 == 1

/-- The last offset in the segment: with page granularity the limit counts pages. -/
def Descriptor.effectiveLimit (d : Descriptor) : ℕ :=
  if d.pageGranular then 2 ^ 12 * d.limit + 0xFFF else d.limit

def Descriptor.Contains (d : Descriptor) (a : ℕ) : Prop :=
  d.base ≤ a ∧ a ≤ d.base + d.effectiveLimit

structure Decodes (d : Descriptor) (source : GdtStructured) : Prop where
  base : d.base = source.base
  access : d.access = source.attrubutes
  small : source.limit ≤ 0xFFFF → d.effectiveLimit = source.limit
  large : 0xFFFF < source.limit → d.pageGranular = true ∧ d.effectiveLimit = source.limit ||| 0xFFF

variable {m : ByteMemory} {target base limit flags gdt : ℕ} {attrubutes : UInt8}
  {source : GdtStructured} {gdtS : ℕ → GdtStructured}

theorem low8 (v : ℕ) : v &&& 0xFF = v % 2 ^ 8 := Nat.and_two_pow_sub_one_eq_mod v 8

theorem low4 (v : ℕ) : v &&& 0x0F = v % 2 ^ 4 := Nat.and_two_pow_sub_one_eq_mod v 4

theorem setByte_outside {a i v : ℕ} (hi : i ≠ a) : setByte m a v i = m i := update_of_ne hi _ _

theorem orByte_outside {a i v : ℕ} (hi : i ≠ a) : orByte m a v i = m i := update_of_ne hi _ _

theorem gdtStore_outside {i : ℕ} (hi : i < target ∨ target + 8 ≤ i) :
    gdtStore m target base limit flags attrubutes i = m i := by
  unfold gdtStore
  rw [update_of_ne (by omega), setByte_outside (by omega), setByte_outside (by omega),
    setByte_outside (by omega), setByte_outside (by omega), orByte_outside (by omega),
    setByte_outside (by omega), setByte_outside (by omega), setByte_outside (by omega)]

def gdtByte (base limit flags : ℕ) (attrubutes : UInt8) : ℕ → UInt8
  | 0 => UInt8.ofNat (limit &&& 0xFF)
  | 1 => UInt8.ofNat ((limit >>> 8) &&& 0xFF)
  | 2 => UInt8.ofNat (base &&& 0xFF)
  | 3 => UInt8.ofNat ((base >>> 8) &&& 0xFF)
  | 4 => UInt8.ofNat ((base >>> 16) &&& 0xFF)
  | 5 => attrubutes
  | 6 => UInt8.ofNat flags ||| UInt8.ofNat ((limit >>> 16) &&& 0x0F)
  | _ => UInt8.ofNat ((base >>> 24) &&& 0xFF)

theorem gdtStore_inside {k : ℕ} (hk : k < 8) :
    gdtStore m target base limit flags attrubutes (target + k) =
      gdtByte base limit flags attrubutes k := by
  interval_cases k <;> simp [gdtStore, gdtByte, setByte, orByte]

theorem Descriptor.decode_congr {m' : ByteMemory} {a : ℕ} (h : ∀ k < 8, m' (a + k) = m (a + k)) :
    Descriptor.decode m' a = Descriptor.decode m a := by
  have h₀ := h 0 (by decide)
  rw [Nat.add_zero] at h₀
  unfold Descriptor.decode
  rw [h₀, h 1 (by decide), h 2 (by decide), h 3 (by decide), h 4 (by decide), h 5 (by decide),
    h 6 (by decide), h 7 (by decide)]

theorem flags_toNat {f : ℕ} (hf : f < 2 ^ 4) (v : ℕ) :
    (UInt8.ofNat (2 ^ 4 * f) ||| UInt8.ofNat (v &&& 0x0F)).toNat = 2 ^ 4 * f + v % 2 ^ 4 := by
  have hv : v % 2 ^ 4 < 2 ^ 4 := Nat.mod_lt v (by decide)
  rw [UInt8.toNat_or, UInt8.toNat_ofNat', UInt8.toNat_ofNat', low4, Nat.mod_eq_of_lt (by omega),
    Nat.mod_eq_of_lt (a := v % 2 ^ 4) (by omega), Nat.two_pow_add_eq_or_of_lt hv]

/-- The bytes of a descriptor are read as they were written: the flags are the
high four bits of their byte. -/
theorem decode_gdtStore {f : ℕ} (hf : f < 2 ^ 4) (hbase : base < 2 ^ 32) (hlimit : limit < 2 ^ 20) :
    Descriptor.decode (gdtStore m target base limit (2 ^ 4 * f) attrubutes) target =
      ⟨base, limit, attrubutes, f / 2 ^ 3 == 1⟩ := by
  have h₀ := @gdtStore_inside m target base limit (2 ^ 4 * f) attrubutes 0 (by decide)
  rw [Nat.add_zero] at h₀
  rw [Descriptor.decode, h₀]
  repeat rw [gdtStore_inside (by decide)]
  simp only [gdtByte]
  rw [flags_toNat hf]
  simp only [UInt8.toNat_ofNat', low8, Nat.shiftRight_eq_div_pow, Descriptor.mk.injEq, true_and]
  refine ⟨by omega, by omega, ?_⟩
  have hbit : (2 ^ 4 * f + limit / 2 ^ 16 % 2 ^ 4) / 2 ^ 7 % 2 = f / 2 ^ 3 := by omega
  rw [hbit]

theorem and_high (h : limit < 2 ^ 20) : limit &&& 0xFFF00000 = 0 := by
  have hhigh : 0xFFF00000 = 2 ^ 20 * 0xFFF := by decide
  refine Nat.eq_of_testBit_eq (fun i ↦ ?_)
  rw [hhigh, Nat.testBit_and, Nat.testBit_two_pow_mul, Nat.zero_testBit]
  by_cases hi : 20 ≤ i
  · rw [Nat.testBit_lt_two_pow (Nat.lt_of_lt_of_le h (Nat.pow_le_pow_right (by decide) hi)),
      Bool.false_and]
  · rw [decide_eq_false hi, Bool.false_and, Bool.and_false]

theorem pages_limit (limit : ℕ) : 2 ^ 12 * (limit >>> 12) + 0xFFF = limit ||| 0xFFF := by
  have hlow : 0xFFF = 2 ^ 12 - 1 := by decide
  rw [Nat.two_pow_add_eq_or_of_lt (by decide)]
  refine Nat.eq_of_testBit_eq (fun i ↦ ?_)
  rw [hlow, Nat.testBit_or, Nat.testBit_or, Nat.testBit_two_pow_mul, Nat.testBit_two_pow_sub_one,
    Nat.testBit_shiftRight]
  by_cases hi : 12 ≤ i
  · rw [decide_eq_true hi, Bool.true_and, Nat.add_sub_cancel' hi]
  · rw [decide_eq_true (Nat.lt_of_not_le hi), Bool.or_true, Bool.or_true]

theorem gdtUnstructure_decodes (m : ByteMemory) (target : ℕ) (h : source.limit < 2 ^ 20) :
    ∃ m', gdtUnstructure m target source = .ok m' ∧
      Decodes (.decode m' target) source ∧
      ∀ i, (i < target ∨ target + 8 ≤ i) → m' i = m i := by
  rw [gdtUnstructure, if_neg (not_not.mpr (and_high h))]
  by_cases hlarge : source.limit > 0xFFFF
  · rw [if_pos hlarge]
    refine ⟨_, rfl, ?_, fun i hi ↦ gdtStore_outside hi⟩
    have hpages : source.limit >>> 12 < 2 ^ 20 :=
      Nat.lt_of_le_of_lt (Nat.shiftRight_le source.limit 12) h
    rw [show (0xC0 : ℕ) = 2 ^ 4 * 0xC by decide, decode_gdtStore (by decide) source.base_lt hpages]
    exact ⟨rfl, rfl, fun hs ↦ by omega, fun _ ↦ ⟨rfl, pages_limit source.limit⟩⟩
  · rw [if_neg hlarge]
    refine ⟨_, rfl, ?_, fun i hi ↦ gdtStore_outside hi⟩
    rw [show (0x40 : ℕ) = 2 ^ 4 * 0x4 by decide, decode_gdtStore (by decide) source.base_lt h]
    exact ⟨rfl, rfl, fun _ ↦ rfl, fun hl ↦ absurd hl hlarge⟩

theorem gdtLoop_decodes (gdt : ℕ) : ∀ n entry (m : ByteMemory),
    (∀ i, entry ≤ i → i < entry + n → (gdtS i).limit < 2 ^ 20) →
    ∃ m', gdtLoop gdt gdtS n entry m = .ok m' ∧
      (∀ i, entry ≤ i → i < entry + n → Decodes (.decode m' (gdt + 8 * i)) (gdtS i)) ∧
      ∀ i < gdt + 8 * entry, m' i = m i := by
  intro n
  induction n with
  | zero => exact fun entry m _ ↦ ⟨m, rfl, fun i h₁ h₂ ↦ by omega, fun i _ ↦ rfl⟩
  | succ n ih =>
    intro entry m h
    obtain ⟨m₁, hm₁, hdec, hout⟩ :=
      gdtUnstructure_decodes m (gdt + 8 * entry) (h entry (Nat.le_refl _) (by omega))
    obtain ⟨m', hm', hrest, hkeep⟩ := ih (entry + 1) m₁ (fun i h₁ h₂ ↦ h i (by omega) (by omega))
    rw [gdtLoop, hm₁]
    refine ⟨m', hm', fun i h₁ h₂ ↦ ?_, fun i hi ↦ (hkeep i (by omega)).trans (hout i (by omega))⟩
    rcases Nat.eq_or_lt_of_le h₁ with rfl | hlt
    · -- the turns behind write to higher addresses
      have hsame : ∀ k < 8, m' (gdt + 8 * entry + k) = m₁ (gdt + 8 * entry + k) :=
        fun k hk ↦ hkeep _ (by omega)
      rwa [Descriptor.decode_congr hsame]
    · exact hrest i hlt (by omega)

/-- Whatever the table held before, the processor reads in its entries what
was asked for. -/
theorem gdt_decodes (gdt gdtEntries : ℕ) (gdtS : ℕ → GdtStructured) (m : ByteMemory)
    (h : ∀ i < gdtEntries, (gdtS i).limit < 2 ^ 20) :
    ∃ m', getGdtFromStructured gdt gdtS gdtEntries m = .ok m' ∧
      ∀ i < gdtEntries, Decodes (.decode m' (gdt + 8 * i)) (gdtS i) := by
  obtain ⟨m', hm', hdec, -⟩ := gdtLoop_decodes gdt gdtEntries 0 m (fun i _ hi ↦ h i (by omega))
  exact ⟨m', hm', fun i hi ↦ hdec i (Nat.zero_le i) (by omega)⟩

def gdtEntries : ℕ := 6

def tssSize : ℕ := 100

/-- `_gdt_s`, with the address of the task state segment. -/
def kernelGdtS (tss : ℕ) (htss : tss < 2 ^ 32) : ℕ → GdtStructured
  | 1 => ⟨0, 0x000FFFFF, 0x9a, by decide, by decide⟩
  | 2 => ⟨0, 0x000FFFFF, 0x92, by decide, by decide⟩
  | 3 => ⟨0, 0x000FFFFF, 0xf8, by decide, by decide⟩
  | 4 => ⟨0, 0x000FFFFF, 0xf2, by decide, by decide⟩
  | 5 => ⟨tss, tssSize, 0xe9, htss, by decide⟩
  | _ => ⟨0, 0, 0, by decide, by decide⟩

theorem kernelGdtS_limit {tss : ℕ} (htss : tss < 2 ^ 32) {i : ℕ} (hi : i < gdtEntries) :
    (kernelGdtS tss htss i).limit < 2 ^ 20 := by
  unfold gdtEntries at hi
  interval_cases i <;> simp [kernelGdtS, tssSize]

theorem gdt_decodes_kernel :
    ∃ m', getGdtFromStructured 0 (kernelGdtS 0x9000 (by decide)) gdtEntries (fun _ ↦ 0xFF) = .ok m' ∧
      ∀ i < gdtEntries, Decodes (.decode m' (0 + 8 * i)) (kernelGdtS 0x9000 (by decide) i) :=
  gdt_decodes 0 gdtEntries _ _ (fun _ ↦ kernelGdtS_limit (by decide))

end GammaOS.Segments
