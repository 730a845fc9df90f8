import GammaOS.Fs.Fat16
import Mathlib.Data.List.TakeWhile

namespace GammaOS.Fs

open Foundation Memory

def lowerCase (c : UInt8) : UInt8 := if 65 ≤ c ∧ c ≤ 90 then c + 32 else c

/-- A name field of an entry: the text, and spaces up to the end of the field. -/
structure PaddedField (field : List UInt8) (size : ℕ) (text : List UInt8) : Prop where
  eq : field = text ++ List.replicate (size - text.length) 0x20
  short : text.length ≤ size
  clean : ∀ c ∈ text, c ≠ 0 ∧ c ≠ 0x20

def dottedName (base ext : List UInt8) : List UInt8 := base ++ if ext = [] then [] else 46 :: ext

namespace NameBuffer

/-! The name functions with their reads of a field and their writes to the
caller's buffer: outside of its bounds either of them stops the run. -/

def load (field : List UInt8) (i : ℕ) : Except Fault UInt8 :=
  match field[i]? with
  | none => .error .outOfBounds
  | some c => .ok c

def store (buffer : List UInt8) (i : ℕ) (c : UInt8) : Except Fault (List UInt8) :=
  if i < buffer.length then .ok (buffer.set i c) else .error .outOfBounds

/-- The loop of `fat16_to_proper_string` with a bound on its turns: `out` and
`counter` are its places in the buffer and in the field. -/
def toProperStringLoop (field : List UInt8) (size : ℕ) :
    ℕ → List UInt8 → ℕ → ℕ → Except Fault (List UInt8 × ℕ)
  | 0, _, _, _ => .error .loop
  | fuel + 1, buffer, out, counter => do
    let c ← load field counter
    if c ≠ 0 ∧ c ≠ 0x20 then do
      let buffer ← store buffer out c
      if counter + 1 ≥ size then do
        let buffer ← store buffer (out + 1) 0
        pure (buffer, out + 1)
      else toProperStringLoop field size fuel buffer (out + 1) (counter + 1)
    else if c = 0x20 then do
      let buffer ← store buffer out 0
      pure (buffer, out)
    else pure (buffer, out)

def fat16ToProperString (field : List UInt8) (size : ℕ) (buffer : List UInt8) (out : ℕ) :
    Except Fault (List UInt8 × ℕ) :=
  toProperStringLoop field size (size + 1) buffer out 0

def fat16GetFullRelativeName (f : Fat16File) (length : ℕ) : Except Fault (List UInt8) := do
  let (buffer, out) ← fat16ToProperString f.name 8 (List.replicate length 0) 0
  let c ← load f.extention 0
  if c ≠ 0 ∧ c ≠ 0x20 then do
    let buffer ← store buffer out 46
    let (buffer, _) ← fat16ToProperString f.extention 3 buffer (out + 1)
    pure buffer
  else pure buffer

end NameBuffer

namespace NameBuffer

theorem load_eq {field : List UInt8} {i : ℕ} (h : i < field.length) :
    load field i = .ok field[i] := by
  rw [load, List.getElem?_eq_getElem h]

theorem store_next (pre : List UInt8) {k : ℕ} (hk : 0 < k) (c : UInt8) :
    store (pre ++ List.replicate k 0) pre.length c =
      .ok (pre ++ [c] ++ List.replicate (k - 1) 0) := by
  obtain ⟨k, rfl⟩ := Nat.exists_eq_succ_of_ne_zero (Nat.ne_of_gt hk)
  rw [store, if_pos (by simp), List.set_append_right _ _ (Nat.le_refl _), Nat.sub_self,
    List.replicate_succ, List.set_cons_zero]
  simp

theorem store_zero (pre : List UInt8) {k : ℕ} (hk : 0 < k) :
    store (pre ++ List.replicate k 0) pre.length 0 = .ok (pre ++ List.replicate k 0) := by
  rw [store_next pre hk]
  obtain ⟨k, rfl⟩ := Nat.exists_eq_succ_of_ne_zero (Nat.ne_of_gt hk)
  simp [List.replicate_succ]

end NameBuffer

open NameBuffer

theorem properString_stop {c : UInt8} {field : List UInt8} (hc : ¬ (c ≠ 0 ∧ c ≠ 0x20)) :
    fat16ToProperString (c :: field) = [] :=
  List.takeWhile_cons_of_neg (fun h ↦ hc (of_decide_eq_true h))

theorem properString_cons {c : UInt8} {field : List UInt8} (hc : c ≠ 0 ∧ c ≠ 0x20) :
    fat16ToProperString (c :: field) = c :: fat16ToProperString field :=
  List.takeWhile_cons_of_pos (decide_eq_true hc)

theorem toProperStringLoop_eq {field : List UInt8} :
    ∀ fuel pre k counter, counter < field.length → field.length - counter < fuel →
      (fat16ToProperString (field.drop counter)).length < k →
      toProperStringLoop field field.length fuel (pre ++ List.replicate k 0) pre.length counter =
        .ok (pre ++ fat16ToProperString (field.drop counter) ++
            List.replicate (k - (fat16ToProperString (field.drop counter)).length) 0,
          pre.length + (fat16ToProperString (field.drop counter)).length) := by
  intro fuel
  induction fuel with
  | zero => intro pre k counter _ h; omega
  | succ fuel ih =>
    intro pre k counter hlt hfuel hk
    have hdrop := List.drop_eq_getElem_cons hlt
    rw [toProperStringLoop, load_eq hlt]
    by_cases hc : field[counter] ≠ 0 ∧ field[counter] ≠ 0x20
    · rw [hdrop, properString_cons hc] at hk ⊢
      rw [List.length_cons] at hk
      have hnext : (pre ++ [field[counter]]).length = pre.length + 1 := List.length_append
      simp only [bind, Except.bind, pure, Except.pure, if_pos hc,
        store_next pre (Nat.zero_lt_of_lt hk)]
      by_cases hend : counter + 1 ≥ field.length
      · have hnil : field.drop (counter + 1) = [] := List.drop_eq_nil_of_le hend
        have hzero := store_zero (pre ++ [field[counter]]) (k := k - 1) (by omega)
        rw [hnext] at hzero
        rw [if_pos hend, hzero, hnil]
        rfl
      · have hrest := ih (pre ++ [field[counter]]) (k - 1) (counter + 1) (by omega) (by omega)
          (by omega)
        rw [hnext] at hrest
        rw [if_neg hend, hrest, List.length_cons, List.append_assoc pre, Nat.sub_sub,
          Nat.add_comm 1, Nat.add_assoc, Nat.add_comm 1]
        rfl
    · rw [hdrop, properString_stop hc] at hk ⊢
      simp only [bind, Except.bind, pure, Except.pure, if_neg hc, List.append_nil,
        List.length_nil, Nat.sub_zero, Nat.add_zero]
      by_cases h20 : field[counter] = 0x20
      · rw [if_pos h20, store_zero pre (Nat.zero_lt_of_lt hk)]
      · rw [if_neg h20]

theorem properString_length (field : List UInt8) :
    (fat16ToProperString field).length ≤ field.length :=
  (List.takeWhile_sublist _).length_le

/-- The name is written to the caller's buffer, with zeros behind it, and
nothing is read or written outside of the fields and of the buffer. -/
theorem nameBuffer_eq {f : Fat16File} (hname : f.name.length = 8) (hext : f.extention.length = 3)
    {length : ℕ} (hlen : 12 < length) :
    NameBuffer.fat16GetFullRelativeName f length =
      .ok (fat16GetFullRelativeName f ++
        List.replicate (length - (fat16GetFullRelativeName f).length) 0) := by
  have hbase := properString_length f.name
  have hbase' := @toProperStringLoop_eq f.name 9 [] length 0 (by omega) (by omega)
    (by rw [List.drop_zero]; omega)
  rw [hname, List.drop_zero, List.nil_append, List.nil_append, List.length_nil, Nat.zero_add]
    at hbase'
  have hzero : 0 < f.extention.length := by omega
  have hhead : f.extention.headD 0 = f.extention[0] := by
    rw [List.headD_eq_head?_getD, List.head?_eq_getElem?, List.getElem?_eq_getElem hzero]
    rfl
  rw [NameBuffer.fat16GetFullRelativeName, NameBuffer.fat16ToProperString, hbase',
    fat16GetFullRelativeName, hhead, load_eq hzero]
  simp only [bind, Except.bind, pure, Except.pure]
  generalize fat16ToProperString f.name = base at *
  by_cases hc : f.extention[0] ≠ 0 ∧ f.extention[0] ≠ 0x20
  · have htext := properString_length f.extention
    have hdot : (base ++ [46]).length = base.length + 1 := List.length_append
    have hext' := @toProperStringLoop_eq f.extention 4 (base ++ [46]) (length - base.length - 1) 0
      (by omega) (by omega) (by rw [List.drop_zero]; omega)
    rw [hext, List.drop_zero, hdot] at hext'
    rw [if_pos hc, if_pos hc, store_next base (by omega)]
    simp only [NameBuffer.fat16ToProperString, hext']
    rw [List.append_assoc base [46], List.length_append, List.length_cons, Nat.sub_sub, Nat.sub_sub,
      Nat.add_comm 1]
    rfl
  · rw [if_neg hc, if_neg hc, List.append_nil]

theorem tolower_eq_iff {a b : UInt8} : tolower a = tolower b ↔ lowerCase a = lowerCase b := by
  have ha := a.toNat_lt
  have hb := b.toNat_lt
  simp only [tolower, lowerCase, ← UInt8.toNat_inj, UInt8.le_iff_toNat_le]
  split_ifs
  all_goals simp only [UInt8.toNat_add, UInt8.reduceToNat] at *
  all_goals omega

theorem lowerCase_eq_zero {c : UInt8} : lowerCase c = 0 ↔ c = 0 := by
  have hc := c.toNat_lt
  simp only [lowerCase, ← UInt8.toNat_inj, UInt8.le_iff_toNat_le]
  split_ifs
  all_goals simp only [UInt8.toNat_add, UInt8.reduceToNat] at *
  all_goals omega

theorem strncmpLoop_eq_zero {s₁ s₂ : ByteMemory} : ∀ n i,
    strncmpLoop s₁ s₂ n i = 0 ↔ ∀ j, i ≤ j → j < i + n → tolower (s₁ j) = tolower (s₂ j) := by
  intro n
  induction n with
  | zero =>
    intro i
    exact iff_of_true rfl (fun j h₁ h₂ ↦ by omega)
  | succ n ih =>
    intro i
    rw [strncmpLoop]
    by_cases hc : tolower (s₁ i) = tolower (s₂ i)
    · rw [if_pos hc, ih (i + 1)]
      refine ⟨fun h j h₁ h₂ ↦ ?_, fun h j h₁ h₂ ↦ h j (by omega) (by omega)⟩
      rcases Nat.eq_or_lt_of_le h₁ with rfl | hlt
      · exact hc
      · exact h j hlt (by omega)
    · rw [if_neg hc]
      refine iff_of_false ?_ (fun h ↦ hc (h i (Nat.le_refl i) (by omega)))
      split <;> decide

theorem strncmp_zeroPadded {a b : List UInt8} {n : ℕ} (ha : a.length ≤ n) (hb : b.length ≤ n)
    (ha₀ : 0 ∉ a) (hb₀ : 0 ∉ b) :
    strncmp (zeroPadded a) (zeroPadded b) n = 0 ↔ a.map lowerCase = b.map lowerCase := by
  have hpad : ∀ (l : List UInt8) j, lowerCase (zeroPadded l j) = ((l.map lowerCase)[j]?).getD 0 := by
    intro l j
    rw [zeroPadded, List.getD_eq_getElem?_getD, List.getElem?_map]
    cases l[j]? <;> rfl
  have hzero : ∀ {l : List UInt8} {j : ℕ}, 0 ∉ l → j < l.length →
      ((l.map lowerCase)[j]?).getD 0 ≠ 0 := by
    intro l j hl hj h
    rw [← hpad, lowerCase_eq_zero, zeroPadded, List.getD_eq_getElem?_getD,
      List.getElem?_eq_getElem hj, Option.getD_some] at h
    exact hl (h ▸ List.getElem_mem hj)
  rw [strncmp, strncmpLoop_eq_zero]
  simp only [tolower_eq_iff, hpad]
  refine ⟨fun h ↦ ?_, fun h j _ _ ↦ by rw [h]⟩
  have hlen : a.length = b.length := by
    by_contra hne
    rcases Nat.lt_or_gt_of_ne hne with hlt | hlt
    · have he := h a.length (Nat.zero_le _) (by omega)
      rw [List.getElem?_eq_none (by rw [List.length_map]), Option.getD_none] at he
      exact hzero hb₀ hlt he.symm
    · have he := h b.length (Nat.zero_le _) (by omega)
      rw [List.getElem?_eq_none (l := b.map lowerCase) (by rw [List.length_map]),
        Option.getD_none] at he
      exact hzero ha₀ hlt he
  refine List.ext_getElem (by rw [List.length_map, List.length_map, hlen]) (fun j h₁ h₂ ↦ ?_)
  rw [List.length_map] at h₁
  have he := h j (Nat.zero_le _) (by omega)
  rwa [List.getElem?_eq_getElem (by rwa [List.length_map]), List.getElem?_eq_getElem h₂,
    Option.getD_some, Option.getD_some] at he

theorem properString_no_zero (field : List UInt8) : 0 ∉ fat16ToProperString field := by
  intro h
  rw [fat16ToProperString] at h
  exact absurd (List.mem_takeWhile_imp h) (by decide)

theorem fullName_no_zero (f : Fat16File) : 0 ∉ fat16GetFullRelativeName f := by
  rw [fat16GetFullRelativeName, List.mem_append, not_or]
  refine ⟨properString_no_zero _, ?_⟩
  split
  · rw [List.mem_cons, not_or]
    exact ⟨by decide, properString_no_zero _⟩
  · exact List.not_mem_nil

theorem fullName_length {f : Fat16File} (hname : f.name.length = 8) (hext : f.extention.length = 3) :
    (fat16GetFullRelativeName f).length ≤ 12 := by
  have h₁ := properString_length f.name
  have h₂ := properString_length f.extention
  rw [fat16GetFullRelativeName, List.length_append]
  split
  · rw [List.length_cons]
    omega
  · rw [List.length_nil]
    omega

def HasName (f : Fat16File) (u : List UInt8) : Prop :=
  (fat16GetFullRelativeName f).map lowerCase = u.map lowerCase

theorem sameName_iff {f : Fat16File} (hname : f.name.length = 8) (hext : f.extention.length = 3)
    {u : List UInt8} (hu : u.length ≤ fsMaxPathUnitLength) (hu₀ : 0 ∉ u) :
    sameName f u = true ↔ HasName f u := by
  have hlen := fullName_length hname hext
  rw [sameName, beq_iff_eq, HasName]
  exact strncmp_zeroPadded (by unfold fsMaxPathUnitLength; omega) hu (fullName_no_zero f) hu₀

theorem PaddedField.length {field text : List UInt8} {size : ℕ} (h : PaddedField field size text) :
    field.length = size := by
  have hs := h.short
  rw [h.eq, List.length_append, List.length_replicate]
  omega

theorem PaddedField.text_eq {field text : List UInt8} {size : ℕ} (h : PaddedField field size text) :
    fat16ToProperString field = text := by
  rw [h.eq, fat16ToProperString,
    List.takeWhile_append_of_pos (fun c hc ↦ decide_eq_true (h.clean c hc))]
  cases size - text.length with
  | zero => exact List.append_nil text
  | succ k => exact List.append_nil text

theorem fullName_eq {f : Fat16File} {base ext : List UInt8} (hb : PaddedField f.name 8 base)
    (he : PaddedField f.extention 3 ext) : fat16GetFullRelativeName f = dottedName base ext := by
  have hhead : f.extention.headD 0 ≠ 0 ∧ f.extention.headD 0 ≠ 0x20 ↔ ext ≠ [] := by
    rw [he.eq]
    cases ext with
    | nil => simp [List.replicate_succ]
    | cons c cs => simpa using he.clean c List.mem_cons_self
  rw [fat16GetFullRelativeName, dottedName, hb.text_eq, he.text_eq]
  by_cases h : ext = []
  · rw [if_neg (fun hc ↦ hhead.mp hc h), if_pos h]
  · rw [if_pos (hhead.mpr h), if_neg h]

/-- An entry is taken for a path unit exactly when its name is the unit, up to
letter case. The name is built inside the fields of the entry and the buffer. -/
theorem name_match_exact {f : Fat16File} {base ext u : List UInt8}
    (hb : PaddedField f.name 8 base) (he : PaddedField f.extention 3 ext)
    (hu : u.length < fsMaxPathUnitLength) (hu₀ : 0 ∉ u) :
    ∃ buffer, NameBuffer.fat16GetFullRelativeName f fsMaxPathUnitLength = .ok buffer ∧
      buffer.length = fsMaxPathUnitLength ∧
      (strncmp (zeroPadded buffer) (zeroPadded u) fsMaxPathUnitLength = 0 ↔
        u.map lowerCase = (dottedName base ext).map lowerCase) := by
  have hbuffer := nameBuffer_eq hb.length he.length (by decide : 12 < fsMaxPathUnitLength)
  have hname := fullName_length hb.length he.length
  have hsame := sameName_iff hb.length he.length (Nat.le_of_lt hu) hu₀
  rw [HasName, sameName, beq_iff_eq, fullName_eq hb he] at hsame
  rw [fullName_eq hb he] at hbuffer hname
  have hpad : ∀ k, zeroPadded (dottedName base ext ++ List.replicate k 0) =
      zeroPadded (dottedName base ext) := by
    intro k
    funext i
    rw [zeroPadded, zeroPadded, List.getD_eq_getElem?_getD, List.getD_eq_getElem?_getD,
      List.getElem?_append]
    split
    · rfl
    · rw [List.getElem?_eq_none (l := dottedName base ext) (by omega), List.getElem?_replicate]
      split <;> rfl
  refine ⟨_, hbuffer, ?_, ?_⟩
  · rw [List.length_append, List.length_replicate]
    unfold fsMaxPathUnitLength
    omega
  · rw [hpad, hsame]
    exact eq_comm

def objectEntry : Fat16File :=
  ⟨[77, 65, 73, 78, 0x20, 0x20, 0x20, 0x20], [79, 0x20, 0x20], 0x20, 0, 2, 1⟩

theorem name_match_exact_object : ∃ buffer,
    NameBuffer.fat16GetFullRelativeName objectEntry fsMaxPathUnitLength = .ok buffer ∧
      buffer.length = fsMaxPathUnitLength ∧
      (strncmp (zeroPadded buffer) (zeroPadded [109, 97, 105, 110, 46, 111]) fsMaxPathUnitLength = 0 ↔
        [109, 97, 105, 110, 46, 111].map lowerCase =
        (dottedName [77, 65, 73, 78] [79]).map lowerCase) :=
  name_match_exact ⟨rfl, by decide, by decide +kernel⟩ ⟨rfl, by decide, by decide +kernel⟩ (by decide)
    (by decide)

end GammaOS.Fs
