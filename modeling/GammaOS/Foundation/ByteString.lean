import GammaOS.Foundation.ByteMemory
import Mathlib.Data.List.TakeWhile
import Mathlib.Logic.Function.Basic

namespace GammaOS.Foundation.ByteMemory

open Function

structure IsString (m : ByteMemory) (a : ℕ) (str : List UInt8) : Prop where
  bytes : ∀ i ≤ str.length, m (a + i) = str.getD i 0
  no_zero : 0 ∉ str

def countLoop (p : UInt8 → Bool) (m : ByteMemory) (a : ℕ) : ℕ → ℕ → Option ℕ
  | 0, _ => none
  | fuel + 1, i => if p (m (a + i)) then countLoop p m a fuel (i + 1) else some i

/-- Copies bytes one by one while they pass the test, for at most `fuel` turns.
It returns the memory and the number of bytes. -/
def copyLoop (p : UInt8 → Bool) (tgt src : ℕ) : ℕ → ℕ → ByteMemory → Option (ByteMemory × ℕ)
  | 0, _, _ => none
  | fuel + 1, i, m =>
    if p (m (src + i)) then copyLoop p tgt src fuel (i + 1) (update m (tgt + i) (m (src + i)))
    else some (m, i)

variable {m m' : ByteMemory} {a b n fuel tgt src : ℕ} {str : List UInt8} {p : UInt8 → Bool}

theorem IsString.congr (h : IsString m a str) (he : ∀ i ≤ str.length, m' (b + i) = m (a + i)) :
    IsString m' b str :=
  ⟨fun i hi ↦ (he i hi).trans (h.bytes i hi), h.no_zero⟩

theorem IsString.drop (h : IsString m a str) (hn : n ≤ str.length) :
    IsString m (a + n) (str.drop n) where
  bytes i hi := by
    rw [List.length_drop] at hi
    rw [Nat.add_assoc, h.bytes (n + i) (by omega), List.getD_eq_getElem?_getD,
      List.getD_eq_getElem?_getD, List.getElem?_drop]
  no_zero hm := h.no_zero (List.mem_of_mem_drop hm)

theorem IsString.zero (h : IsString m a str) : m (a + str.length) = 0 := by
  rw [h.bytes _ (Nat.le_refl _), List.getD_eq_getElem?_getD, List.getElem?_eq_none (Nat.le_refl _),
    Option.getD_none]

theorem IsString.tail {c : UInt8} (h : IsString m a (c :: str)) :
    m a = c ∧ c ≠ 0 ∧ IsString m (a + 1) str := by
  refine ⟨h.bytes 0 (Nat.zero_le _), fun hc ↦ h.no_zero (hc ▸ List.mem_cons_self), ?_⟩
  exact h.drop (n := 1) (Nat.succ_le_succ (Nat.zero_le _))

theorem IsString.takeWhile (h : IsString m a str) (hp : p 0 = false) :
    (∀ i < (str.takeWhile p).length, p (m (a + i)) = true) ∧
      p (m (a + (str.takeWhile p).length)) = false := by
  induction str generalizing a with
  | nil => exact ⟨fun i hi ↦ absurd hi (Nat.not_lt_zero i), by rw [← hp]; exact congrArg p h.zero⟩
  | cons c str ih =>
    obtain ⟨hc, -, htail⟩ := h.tail
    by_cases hpc : p c = true
    · obtain ⟨hall, hstop⟩ := ih htail
      rw [List.takeWhile_cons_of_pos hpc, List.length_cons]
      refine ⟨fun i hi ↦ ?_, by rwa [Nat.add_comm _ 1, ← Nat.add_assoc]⟩
      cases i with
      | zero => rwa [Nat.add_zero, hc]
      | succ i =>
        rw [Nat.add_comm i, ← Nat.add_assoc]
        exact hall i (Nat.lt_of_succ_lt_succ hi)
    · rw [List.takeWhile_cons_of_neg hpc]
      refine ⟨fun i hi ↦ absurd hi (Nat.not_lt_zero i), ?_⟩
      rw [← hc] at hpc
      exact Bool.eq_false_iff.mpr hpc

theorem countLoop_eq : ∀ fuel i, i ≤ n → n < i + fuel → (∀ j, i ≤ j → j < n → p (m (a + j)) = true) →
    p (m (a + n)) = false → countLoop p m a fuel i = some n := by
  intro fuel
  induction fuel with
  | zero => intro i h₁ h₂; omega
  | succ fuel ih =>
    intro i h₁ h₂ hall hstop
    rw [countLoop]
    rcases Nat.eq_or_lt_of_le h₁ with rfl | hlt
    · rw [if_neg (by rw [hstop]; exact Bool.false_ne_true)]
    · rw [if_pos (hall i (Nat.le_refl i) hlt)]
      exact ih (i + 1) hlt (by omega) (fun j h₃ h₄ ↦ hall j (by omega) h₄) hstop

theorem IsString.count (h : IsString m a str) (hp : p 0 = false) (hfuel : str.length < fuel) :
    countLoop p m a fuel 0 = some (str.takeWhile p).length := by
  obtain ⟨hall, hstop⟩ := h.takeWhile hp
  have hle := (List.takeWhile_sublist p (l := str)).length_le
  exact countLoop_eq fuel 0 (Nat.zero_le _) (by omega) (fun j _ ↦ hall j) hstop

theorem writeBytes_concat (bytes : List UInt8) (c : UInt8) :
    update (m.writeBytes a bytes) (a + bytes.length) c = m.writeBytes a (bytes ++ [c]) := by
  funext i
  rcases Nat.lt_trichotomy i (a + bytes.length) with hlt | rfl | hlt
  · rw [update_of_ne (Nat.ne_of_lt hlt)]
    by_cases ha : a ≤ i
    · obtain ⟨j, rfl⟩ := Nat.exists_eq_add_of_le ha
      rw [writeBytes_inside (by omega), writeBytes_inside (by rw [List.length_append]; omega),
        List.getD_eq_getElem?_getD, List.getD_eq_getElem?_getD, List.getElem?_append_left (by omega)]
    · rw [writeBytes_outside (by omega), writeBytes_outside (by omega)]
  · rw [update_self, writeBytes_inside (by simp), List.getD_eq_getElem?_getD,
      List.getElem?_append_right (Nat.le_refl _), Nat.sub_self]
    rfl
  · rw [update_of_ne (Nat.ne_of_gt hlt), writeBytes_outside (by omega),
      writeBytes_outside (by rw [List.length_append, List.length_singleton]; omega)]

theorem writeBytes_nil (m : ByteMemory) (a : ℕ) : m.writeBytes a [] = m :=
  funext fun i ↦ writeBytes_outside (by rw [List.length_nil]; omega)

theorem writeBytes_update (m : ByteMemory) (bytes : List UInt8) (c : UInt8) :
    writeBytes (update m (a + bytes.length) c) a bytes = m.writeBytes a (bytes ++ [c]) := by
  rw [← writeBytes_concat]
  funext i
  by_cases hi : a ≤ i ∧ i < a + bytes.length
  · rw [update_of_ne (by omega), writeBytes, writeBytes, if_pos hi, if_pos hi]
  · rw [writeBytes_outside (by omega)]
    by_cases he : i = a + bytes.length
    · rw [he, update_self, update_self]
    · rw [update_of_ne he, update_of_ne he, writeBytes_outside (by omega)]

theorem writeBytes_append_left {bytes rest : List UInt8} {i : ℕ} (h : i < bytes.length) :
    m.writeBytes a (bytes ++ rest) (a + i) = m.writeBytes a bytes (a + i) := by
  rw [writeBytes_inside (by rw [List.length_append]; omega), writeBytes_inside h,
    List.getD_eq_getElem?_getD, List.getD_eq_getElem?_getD, List.getElem?_append_left h]

theorem writeBytes_writeBytes (m : ByteMemory) (a : ℕ) (bytes rest : List UInt8) :
    (m.writeBytes a bytes).writeBytes (a + bytes.length) rest = m.writeBytes a (bytes ++ rest) := by
  funext i
  by_cases hi : a + bytes.length ≤ i ∧ i < a + bytes.length + rest.length
  · obtain ⟨j, rfl⟩ := Nat.exists_eq_add_of_le hi.1
    have hj : bytes.length + j < (bytes ++ rest).length := by
      rw [List.length_append]
      omega
    have hplace : a + bytes.length + j = a + (bytes.length + j) := Nat.add_assoc _ _ _
    rw [writeBytes_inside (by omega), hplace, writeBytes_inside hj, List.getD_eq_getElem?_getD,
      List.getD_eq_getElem?_getD, List.getElem?_append_right (by omega), Nat.add_sub_cancel_left]
  · rw [writeBytes_outside (by omega)]
    by_cases hb : a ≤ i ∧ i < a + bytes.length
    · obtain ⟨j, rfl⟩ := Nat.exists_eq_add_of_le hb.1
      rw [writeBytes_append_left (by omega)]
    · rw [writeBytes_outside (by omega), writeBytes_outside (by rw [List.length_append]; omega)]

theorem store32_eq_writeBytes (m : ByteMemory) (a v : ℕ) : m.store32 a v = m.writeBytes a
    [UInt8.ofNat v, UInt8.ofNat (v / 256), UInt8.ofNat (v / 256 ^ 2), UInt8.ofNat (v / 256 ^ 3)] := by
  funext i
  by_cases hi : a ≤ i ∧ i < a + 4
  · obtain ⟨j, rfl⟩ := Nat.exists_eq_add_of_le hi.1
    have hj : j < 4 := by omega
    rw [store32, if_pos hi, Nat.add_sub_cancel_left, writeBytes_inside hj]
    interval_cases j
    · rw [pow_zero, Nat.div_one]
      rfl
    · rw [pow_one]
      rfl
    · rfl
    · rfl
  · rw [store32_outside (by omega), writeBytes_outside (by simp only [List.length_cons, List.length_nil]; omega)]

theorem writeBytes_store32 (m : ByteMemory) (v : ℕ) (bytes : List UInt8) (h : 3 ≤ bytes.length) :
    writeBytes (m.store32 a v) (a + 1) bytes = m.writeBytes a (UInt8.ofNat v :: bytes) := by
  funext i
  rcases Nat.lt_trichotomy i a with hlt | rfl | hlt
  · rw [writeBytes_outside (by omega), store32_outside (by omega), writeBytes_outside (by omega)]
  · rw [writeBytes_outside (by omega), store32, if_pos (by omega), writeBytes,
      if_pos (by rw [List.length_cons]; omega), Nat.sub_self, pow_zero, Nat.div_one]
    rfl
  · obtain ⟨j, rfl⟩ := Nat.exists_eq_add_of_le hlt
    by_cases hj : j < bytes.length
    · have hplace : a + 1 + j = a + (j + 1) := by omega
      rw [writeBytes_inside hj]
      refine Eq.symm (Eq.trans (congrArg _ hplace) ?_)
      exact writeBytes_inside (Nat.succ_lt_succ hj)
    · rw [writeBytes_outside (by omega), store32_outside (by omega),
        writeBytes_outside (by rw [List.length_cons]; omega)]

theorem IsString.unique {str' : List UInt8} (h : IsString m a str) (h' : IsString m a str') :
    str = str' := by
  induction str generalizing a str' with
  | nil =>
    cases str' with
    | nil => rfl
    | cons c str' =>
      obtain ⟨hc, hne, -⟩ := h'.tail
      exact absurd (hc.symm.trans h.zero) hne
  | cons c str ih =>
    obtain ⟨hc, hne, htail⟩ := h.tail
    cases str' with
    | nil => exact absurd (hc.symm.trans h'.zero) hne
    | cons c' str' =>
      obtain ⟨hc', -, htail'⟩ := h'.tail
      rw [hc.symm.trans hc', ih htail htail']

theorem copyLoop_eq {bytes : List UInt8} (hn : bytes.length = n)
    (happ : tgt + n ≤ src ∨ src + n < tgt) (hb : ∀ j < n, m (src + j) = bytes.getD j 0)
    (hall : ∀ j < n, p (m (src + j)) = true) (hstop : p (m (src + n)) = false) :
    ∀ fuel i, i ≤ n → n < i + fuel →
      copyLoop p tgt src fuel i (m.writeBytes tgt (bytes.take i)) =
        some (m.writeBytes tgt bytes, n) := by
  intro fuel
  induction fuel with
  | zero => intro i h₁ h₂; omega
  | succ fuel ih =>
    intro i h₁ h₂
    have hlen : (bytes.take i).length = i := by
      rw [List.length_take]
      omega
    have hread : m.writeBytes tgt (bytes.take i) (src + i) = m (src + i) :=
      writeBytes_outside (by omega)
    rw [copyLoop, hread]
    rcases Nat.eq_or_lt_of_le h₁ with rfl | hlt
    · rw [if_neg (by rw [hstop]; exact Bool.false_ne_true), List.take_of_length_le (Nat.le_of_eq hn)]
    · have hstep := @writeBytes_concat m tgt (bytes.take i) (m (src + i))
      have htake : bytes.take i ++ [m (src + i)] = bytes.take (i + 1) := by
        have hget : bytes.getD i 0 = bytes[i] := by
          rw [List.getD_eq_getElem?_getD, List.getElem?_eq_getElem (by omega), Option.getD_some]
        rw [hb i hlt, hget]
        exact List.take_append_getElem (by omega)
      rw [hlen, htake] at hstep
      rw [if_pos (hall i hlt), hstep]
      exact ih (i + 1) hlt (by omega)

theorem IsString.copy (tgt fuel : ℕ) (h : IsString m src str) (hp : p 0 = false)
    (happ : tgt + (str.takeWhile p).length ≤ src ∨ src + (str.takeWhile p).length < tgt)
    (hfuel : str.length < fuel) :
    copyLoop p tgt src fuel 0 m =
      some (m.writeBytes tgt (str.takeWhile p), (str.takeWhile p).length) := by
  obtain ⟨hall, hstop⟩ := h.takeWhile hp
  have hle := (List.takeWhile_sublist p (l := str)).length_le
  have hempty : m.writeBytes tgt ((str.takeWhile p).take 0) = m := by
    rw [List.take_zero, writeBytes_nil]
  have hrun := copyLoop_eq (m := m) (p := p) rfl happ (fun j hj ↦ ?_) hall hstop fuel 0
    (Nat.zero_le _)
    (by omega)
  · rwa [hempty] at hrun
  · obtain ⟨rest, hrest⟩ := List.takeWhile_prefix p (l := str)
    have hget : str[j]? = (str.takeWhile p)[j]? :=
      (congrArg (fun l ↦ l[j]?) hrest.symm).trans (List.getElem?_append_left hj)
    rw [h.bytes j (by omega), List.getD_eq_getElem?_getD, List.getD_eq_getElem?_getD, hget]

theorem IsString.takeWhile_self (h : IsString m a str) :
    str.takeWhile (fun c ↦ decide (c ≠ 0)) = str := by
  refine List.takeWhile_eq_self_iff.mpr (fun c hc ↦ decide_eq_true (fun h0 ↦ ?_))
  exact h.no_zero (h0 ▸ hc)

theorem IsString.written (m : ByteMemory) (a : ℕ) (h : 0 ∉ str) :
    IsString (m.writeBytes a (str ++ [0])) a str where
  bytes i hi := by
    rw [writeBytes_inside (by rw [List.length_append, List.length_singleton]; omega),
      List.getD_eq_getElem?_getD, List.getD_eq_getElem?_getD]
    rcases Nat.eq_or_lt_of_le hi with rfl | hlt
    · rw [List.getElem?_append_right (Nat.le_refl _), List.getElem?_eq_none (Nat.le_refl _),
        Nat.sub_self]
      rfl
    · rw [List.getElem?_append_left hlt]
  no_zero := h

end GammaOS.Foundation.ByteMemory
