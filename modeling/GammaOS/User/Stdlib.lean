import GammaOS.Foundation.ByteString
import GammaOS.Foundation.Decimal
import GammaOS.Machine

namespace GammaOS.User

open Function Foundation ByteMemory

/-- `malloc` gives the address of a block of the size, and changes the memory. -/
abbrev Malloc := ℕ → ByteMemory → ℕ × ByteMemory

/-- The loop of `itoa` that counts digits. -/
def countDigits (digits : ℕ) (temp : ℤ) : ℕ :=
  if 0 < temp then countDigits (digits + 1) (temp.tdiv 10) else digits
termination_by temp.toNat
decreasing_by
  rw [Int.tdiv_eq_ediv_of_nonneg (by omega)]
  omega

/-- The loop of `itoa` that stores digits, of which `k` are left. -/
def storeDigits (numA : ℕ) : ℕ → ℤ → ByteMemory → ByteMemory
  | 0, _, m => m
  | k + 1, num, m =>
    storeDigits numA k (num.tdiv 10) (update m (numA + k) (UInt8.ofInt (48 + num.tmod 10)))

def itoa (malloc : Malloc) (num : ℤ) (m : ByteMemory) : ℕ × ByteMemory :=
  let block := malloc 15 m
  (block.1, storeDigits block.1 (countDigits 0 num) num block.2)

variable {malloc : Malloc} {m : ByteMemory} {n digits numA : ℕ} {num : ℤ}

theorem countDigits_of_nonpos (h : num ≤ 0) : countDigits digits num = digits := by
  rw [countDigits, if_neg (by omega)]

theorem countDigits_natCast (hn : 0 < n) :
    countDigits digits n = digits + (natDecimal n).length := by
  induction n using Nat.strongRecOn generalizing digits with
  | _ n ih =>
    have hdiv : (n : ℤ).tdiv 10 = ((n / 10 : ℕ) : ℤ) := (Int.ofNat_tdiv n 10).symm
    rw [countDigits, if_pos (by omega), hdiv]
    rcases Nat.lt_or_ge n 10 with h | h
    · rw [natDecimal_of_lt h, countDigits_of_nonpos (by omega), List.length_singleton]
    · rw [natDecimal_of_le h, ih _ (by omega) (by omega), List.length_append, List.length_singleton]
      omega

theorem storeDigits_natCast (hn : 0 < n) :
    storeDigits numA (natDecimal n).length n m = m.writeBytes numA (natDecimal n) := by
  induction n using Nat.strongRecOn generalizing m with
  | _ n ih =>
    have hdiv : (n : ℤ).tdiv 10 = ((n / 10 : ℕ) : ℤ) := (Int.ofNat_tdiv n 10).symm
    have hbyte : UInt8.ofInt (48 + (n : ℤ).tmod 10) = digitByte (n % 10) := by
      rw [show (n : ℤ).tmod 10 = ((n % 10 : ℕ) : ℤ) from (Int.ofNat_tmod n 10).symm, UInt8.ofInt,
        digitByte]
      refine UInt8.toNat_inj.mp ?_
      rw [UInt8.toNat_ofNat', UInt8.toNat_ofNat']
      omega
    rcases Nat.lt_or_ge n 10 with h | h
    · have hstore := writeBytes_update (a := numA) m [] (digitByte n)
      rw [natDecimal_of_lt h, List.length_singleton, storeDigits, storeDigits, hbyte,
        Nat.mod_eq_of_lt h, ← writeBytes_nil (update m _ _) numA]
      exact hstore
    · rw [natDecimal_of_le h, List.length_append, List.length_singleton, storeDigits, hdiv, hbyte,
        ih _ (by omega) (by omega), writeBytes_update]

theorem itoa_of_nonpos (h : num ≤ 0) : itoa malloc num m = malloc 15 m := by
  rw [itoa, countDigits_of_nonpos h, storeDigits]

theorem itoa_natCast (hn : 0 < n) : itoa malloc n m =
    ((malloc 15 m).1, (malloc 15 m).2.writeBytes (malloc 15 m).1 (natDecimal n)) := by
  rw [itoa, countDigits_natCast hn, Nat.zero_add, storeDigits_natCast hn]

def itoaText (num : ℤ) : List UInt8 := if 0 < num then decimal num else []

theorem itoaText_natCast (hn : 0 < n) : itoaText n = natDecimal n := by
  rw [itoaText, if_pos (by omega), decimal_natCast]

theorem itoaText_length_le (hlt : num < 2 ^ 31) : (itoaText num).length ≤ 10 := by
  by_cases h : 0 < num
  · obtain ⟨n, rfl⟩ := Int.eq_ofNat_of_zero_le (Int.le_of_lt h)
    rw [itoaText_natCast (by omega)]
    exact natDecimal_length_le (by decide) (by omega)
  · rw [itoaText, if_neg h]
    exact Nat.zero_le _

def Zeroed (malloc : Malloc) (size : ℕ) (m : ByteMemory) : Prop :=
  ∀ i < size, (malloc size m).2 ((malloc size m).1 + i) = 0

theorem itoa_run (hlt : num < 2 ^ 31) (hz : Zeroed malloc 15 m) :
    IsString (itoa malloc num m).2 (itoa malloc num m).1 (itoaText num) ∧
      ∀ i, i < (malloc 15 m).1 ∨ (malloc 15 m).1 + 15 ≤ i →
        (itoa malloc num m).2 i = (malloc 15 m).2 i := by
  have hlen := itoaText_length_le hlt
  by_cases h : 0 < num
  · obtain ⟨n, rfl⟩ := Int.eq_ofNat_of_zero_le (Int.le_of_lt h)
    rw [itoaText_natCast (by omega)] at hlen ⊢
    rw [itoa_natCast (by omega)]
    dsimp only
    refine ⟨⟨fun i hi ↦ ?_, natDecimal_no_zero n⟩, fun i hi ↦ writeBytes_outside (by omega)⟩
    rcases Nat.eq_or_lt_of_le hi with rfl | hi
    · rw [writeBytes_outside (by omega), hz _ (by omega), List.getD_eq_getElem?_getD,
        List.getElem?_eq_none (Nat.le_refl _), Option.getD_none]
    · exact writeBytes_inside hi
  · rw [itoa_of_nonpos (by omega), itoaText, if_neg h]
    refine ⟨⟨fun i hi ↦ ?_, List.not_mem_nil⟩, fun _ _ ↦ rfl⟩
    rw [List.length_nil] at hi
    rw [hz i (by omega)]
    rfl

theorem itoa_nonpos (hn : num ≤ 0) (hz : Zeroed malloc 15 m) :
    ¬ IsString (itoa malloc num m).2 (itoa malloc num m).1 (decimal num) := by
  have hlt : num < 2 ^ 31 := by omega
  obtain ⟨hstr, -⟩ := itoa_run hlt hz
  rw [itoaText, if_neg (by omega)] at hstr
  exact fun h ↦ decimal_ne_nil num (h.unique hstr)

/-- `itoa` is right on the positive numbers, and on no other. -/
theorem itoa_iff (hlt : num < 2 ^ 31) (hz : Zeroed malloc 15 m) :
    IsString (itoa malloc num m).2 (itoa malloc num m).1 (decimal num) ∧
      (decimal num).length < 15 ↔ 0 < num := by
  refine ⟨fun h ↦ ?_, fun h ↦ ?_⟩
  · by_contra hneg
    exact itoa_nonpos (by omega) hz h.1
  · obtain ⟨hstr, -⟩ := itoa_run hlt hz
    have hlen := itoaText_length_le hlt
    rw [itoaText, if_pos h] at hstr hlen
    exact ⟨hstr, by omega⟩

def mallocAt (a : ℕ) : Malloc := fun size m ↦ (a, m.fill a size 0)

theorem mallocAt_zeroed (a size : ℕ) (m : ByteMemory) : Zeroed (mallocAt a) size m :=
  fun i hi ↦ if_pos ⟨Nat.le_add_right a i, Nat.add_lt_add_left hi a⟩

theorem itoa_iff_answer :
    IsString (itoa (mallocAt 0x1400000) 42 (fun _ ↦ 0)).2 (itoa (mallocAt 0x1400000) 42 (fun _ ↦ 0)).1
      (decimal 42) :=
  ((itoa_iff (by decide : (42 : ℤ) < 2 ^ 31) (mallocAt_zeroed 0x1400000 15 _)).mpr (by decide)).1

/-- Zero has no digits, and neither has the minimum. -/
theorem itoa_empty :
    ¬ IsString (itoa (mallocAt 0x1400000) 0 (fun _ ↦ 0)).2
        (itoa (mallocAt 0x1400000) 0 (fun _ ↦ 0)).1 (decimal 0) ∧
      ¬ IsString (itoa (mallocAt 0x1400000) (-2 ^ 31) (fun _ ↦ 0)).2
        (itoa (mallocAt 0x1400000) (-2 ^ 31) (fun _ ↦ 0)).1 (decimal (-2 ^ 31)) :=
  ⟨itoa_nonpos (by decide) (mallocAt_zeroed 0x1400000 15 _),
    itoa_nonpos (by decide) (mallocAt_zeroed 0x1400000 15 _)⟩

end GammaOS.User
