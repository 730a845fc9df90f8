import Mathlib.Data.List.Basic
import Mathlib.Data.List.Pairwise

namespace GammaOS.Foundation

/-- The consecutive cells `first, …, first + size - 1` of an indexed store. -/
structure Run where
  first : ℕ
  size : ℕ
deriving DecidableEq

namespace Run

instance : Membership ℕ Run := ⟨fun r i ↦ r.first ≤ i ∧ i < r.first + r.size⟩

theorem mem_iff {r : Run} {i : ℕ} : i ∈ r ↔ r.first ≤ i ∧ i < r.first + r.size := Iff.rfl

theorem mem_mk {f k i : ℕ} : i ∈ (⟨f, k⟩ : Run) ↔ f ≤ i ∧ i < f + k := Iff.rfl

instance (r : Run) (i : ℕ) : Decidable (i ∈ r) :=
  inferInstanceAs (Decidable (r.first ≤ i ∧ i < r.first + r.size))

theorem first_mem {r : Run} (h : 0 < r.size) : r.first ∈ r := ⟨Nat.le_refl _, by omega⟩

def Apart (r s : Run) : Prop := ∀ i, i ∈ r → i ∉ s

theorem Apart.symm {r s : Run} (h : Apart r s) : Apart s r := fun i hs hr ↦ h i hr hs

end Run

def Separate (l : List Run) : Prop := l.Pairwise Run.Apart

namespace Separate

theorem nil : Separate [] := List.Pairwise.nil

theorem cons {r : Run} {l : List Run} (h : ∀ s ∈ l, r.Apart s) (hl : Separate l) :
    Separate (r :: l) := List.pairwise_cons.mpr ⟨h, hl⟩

theorem filter {l : List Run} (p : Run → Bool) (h : Separate l) : Separate (l.filter p) :=
  List.Pairwise.filter p h

theorem eq_of_mem {l : List Run} (h : Separate l) {r s : Run} (hr : r ∈ l) (hs : s ∈ l)
    {i : ℕ} (hi : i ∈ r) (hj : i ∈ s) : r = s := by
  induction l with
  | nil => cases hr
  | cons t l ih =>
    obtain ⟨ht, hl⟩ := List.pairwise_cons.mp h
    rcases List.mem_cons.mp hr with hrt | hr <;> rcases List.mem_cons.mp hs with hst | hs
    · rw [hrt, hst]
    · exact absurd hj (ht s hs i (hrt ▸ hi))
    · exact absurd hi (ht r hr i (hst ▸ hj))
    · exact ih hl hr hs

theorem apart_of_ne {l : List Run} (h : Separate l) {r s : Run} (hr : r ∈ l) (hs : s ∈ l)
    (hne : r ≠ s) : r.Apart s :=
  fun _ hi hj ↦ hne (h.eq_of_mem hr hs hi hj)

end Separate

def release (i : ℕ) (l : List Run) : List Run := l.filter (fun r ↦ decide (i ∉ r))

@[simp] theorem mem_release {i : ℕ} {l : List Run} {r : Run} :
    r ∈ release i l ↔ r ∈ l ∧ i ∉ r := by
  simp [release]

theorem release_separate {l : List Run} (h : Separate l) (i : ℕ) : Separate (release i l) :=
  h.filter _

theorem map_filter_eq_release {α : Type} {f : α → Run} {l : List α} {i : ℕ} {p : α → Prop}
    [DecidablePred p] (h : ∀ b ∈ l, p b ↔ i ∉ f b) :
    (l.filter (fun b ↦ decide (p b))).map f = release i (l.map f) := by
  rw [release, List.filter_map]
  refine congrArg _ (List.filter_congr (fun b hb ↦ ?_))
  exact decide_eq_decide.mpr (h b hb)

end GammaOS.Foundation
