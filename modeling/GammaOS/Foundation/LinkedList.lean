import Mathlib.Data.List.Basic
import Mathlib.Logic.Function.Basic

namespace GammaOS.Foundation

variable {α : Type} {next prev next' prev' : α → α}

/-- The nodes of the list are linked both ways, between a node `before` the
first and a node `after` the last. -/
def Linked (next prev : α → α) : α → List α → α → Prop
  | _, [], _ => True
  | before, a :: l, after => prev a = before ∧ next a = l.headD after ∧ Linked next prev a l after

theorem getLastD_append_cons (l r : List α) (c d : α) :
    (l ++ c :: r).getLastD d = r.getLastD c := by
  induction l generalizing d with
  | nil => exact List.getLastD_cons
  | cons a l ih => rw [List.cons_append, List.getLastD_cons, ih]

theorem getLastD_mem (r : List α) (c : α) : r.getLastD c ∈ c :: r := by
  induction r generalizing c with
  | nil => exact List.mem_cons_self
  | cons a r ih =>
    rw [List.getLastD_cons]
    exact List.mem_cons_of_mem _ (ih a)

namespace Linked

theorem append {l₁ l₂ : List α} {before after : α} :
    Linked next prev before (l₁ ++ l₂) after ↔
      Linked next prev before l₁ (l₂.headD after) ∧
        Linked next prev (l₁.getLastD before) l₂ after := by
  induction l₁ generalizing before with
  | nil => simp [Linked]
  | cons a l₁ ih =>
    have hh : (l₁ ++ l₂).headD after = l₁.headD (l₂.headD after) := by cases l₁ <;> simp
    have hl : (a :: l₁).getLastD before = l₁.getLastD a := List.getLastD_cons
    rw [List.cons_append, Linked, Linked, ih, hh, hl]
    simp only [and_assoc]

theorem congr {l : List α} {before after : α} (h : Linked next prev before l after)
    (hn : ∀ a ∈ l, next' a = next a) (hp : ∀ a ∈ l, prev' a = prev a) :
    Linked next' prev' before l after := by
  induction l generalizing before with
  | nil => trivial
  | cons a l ih =>
    obtain ⟨h₁, h₂, h₃⟩ := h
    exact ⟨(hp a List.mem_cons_self).trans h₁, (hn a List.mem_cons_self).trans h₂,
      ih h₃ (fun b hb ↦ hn b (List.mem_cons_of_mem _ hb))
        (fun b hb ↦ hp b (List.mem_cons_of_mem _ hb))⟩

theorem push {l : List α} {a t before after : α}
    (h : Linked next prev before (l ++ [a]) after) (ht : t ∉ l ++ [a]) (hnd : (l ++ [a]).Nodup)
    (hn : ∀ b, b ≠ a → b ≠ t → next' b = next b) (hp : ∀ b, b ≠ t → prev' b = prev b)
    (hna : next' a = t) (hpt : prev' t = a) (hnt : next' t = after) :
    Linked next' prev' before (l ++ [a, t]) after := by
  rw [append] at h
  obtain ⟨h₁, h₂, -, -⟩ := h
  have hta : t ≠ a := fun he ↦ ht (by simp [he])
  have hl : ∀ b ∈ l, b ≠ a ∧ b ≠ t := by
    intro b hb
    exact ⟨(List.nodup_append.mp hnd).2.2 b hb a List.mem_cons_self,
      fun he ↦ ht (by simp [← he, hb])⟩
  rw [append]
  refine ⟨h₁.congr (fun b hb ↦ hn b (hl b hb).1 (hl b hb).2) (fun b hb ↦ hp b (hl b hb).2), ?_⟩
  exact ⟨(hp a hta.symm).trans h₂, hna, hpt, hnt, trivial⟩

theorem unlink {l₁ l₂ : List α} {a t c before after : α}
    (h : Linked next prev before (l₁ ++ a :: t :: c :: l₂) after)
    (hnd : (l₁ ++ a :: t :: c :: l₂).Nodup)
    (hn : ∀ b, b ≠ a → b ≠ t → next' b = next b) (hp : ∀ b, b ≠ c → b ≠ t → prev' b = prev b)
    (hna : next' a = next t) (hpc : prev' c = prev t) :
    Linked next' prev' before (l₁ ++ a :: c :: l₂) after := by
  rw [append] at h ⊢
  obtain ⟨h₁, h₂, h₃, h₄, h₅, h₆, h₇, h₈⟩ := h
  simp only [List.nodup_append, List.nodup_cons, List.mem_cons, not_or] at hnd
  obtain ⟨-, ⟨⟨hat, hac, hal⟩, ⟨htc, htl⟩, hcl, -⟩, hdis⟩ := hnd
  have ht₁ : ∀ b ∈ l₁, b ≠ t := fun b hb ↦ hdis b hb t (Or.inr (Or.inl rfl))
  have ht₂ : ∀ b ∈ l₂, b ≠ t := fun b hb he ↦ htl (he ▸ hb)
  refine ⟨h₁.congr (fun b hb ↦ hn b (hdis b hb a (Or.inl rfl)) (ht₁ b hb))
    (fun b hb ↦ hp b (hdis b hb c (Or.inr (Or.inr (Or.inl rfl)))) (ht₁ b hb)), ?_, ?_, ?_, ?_, ?_⟩
  · exact (hp a hac hat).trans h₂
  · exact hna.trans h₅
  · exact hpc.trans h₄
  · exact (hn c (Ne.symm hac) (Ne.symm htc)).trans h₇
  · exact h₈.congr (fun b hb ↦ hn b (fun he ↦ hal (he ▸ hb)) (ht₂ b hb))
      (fun b hb ↦ hp b (fun he ↦ hcl (he ▸ hb)) (ht₂ b hb))

end Linked

end GammaOS.Foundation
