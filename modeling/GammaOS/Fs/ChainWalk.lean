import GammaOS.Fs.Fat16ReadBack
import Mathlib.Logic.Function.Iterate

namespace GammaOS.Fs

open Memory

variable {getEntry : ℕ → ℕ} {clusterSize cluster offset k e : ℕ}

def Stops (entry : ℕ) : Prop :=
  (entry = 0xFF8 ∨ entry = 0xFFF) ∨ entry = fat16BadSector ∨ (entry = 0xFF0 ∨ entry = 0xFF6) ∨
    entry = 0

instance : DecidablePred Stops := fun _ ↦ inferInstanceAs (Decidable (_ ∨ _ ∨ _ ∨ _))

/-- One of the first `k` entries that are followed from the cluster satisfies `P`. -/
def OneFollowed (getEntry : ℕ → ℕ) (k cluster : ℕ) (P : ℕ → Prop) : Prop :=
  ∃ i < k, P (getEntry^[i + 1] cluster)

/-- What the walk is for: the cluster behind `k` entries, or a negative value
when one of them is not the number of a data cluster. -/
structure WalkRight (getEntry : ℕ → ℕ) (k cluster : ℕ) (r : ℤ) : Prop where
  reached : ¬ OneFollowed getEntry k cluster (fun e ↦ ¬ DataCluster e) →
    r = (getEntry^[k] cluster : ℤ)
  stopped : OneFollowed getEntry k cluster (fun e ↦ ¬ DataCluster e) → r < 0

theorem oneFollowed_zero {P : ℕ → Prop} : ¬ OneFollowed getEntry 0 cluster P :=
  fun ⟨_, hi, _⟩ ↦ absurd hi (Nat.not_lt_zero _)

theorem oneFollowed_succ {P : ℕ → Prop} : OneFollowed getEntry (k + 1) cluster P ↔
    P (getEntry cluster) ∨ OneFollowed getEntry k (getEntry cluster) P := by
  constructor
  · rintro ⟨i, hi, h⟩
    cases i with
    | zero => exact Or.inl h
    | succ i => exact Or.inr ⟨i, by omega, h⟩
  · rintro (h | ⟨i, hi, h⟩)
    · exact ⟨0, Nat.succ_pos k, h⟩
    · exact ⟨i + 1, Nat.succ_lt_succ hi, h⟩

theorem fat16FollowChain_succ (getEntry : ℕ → ℕ) (k cluster : ℕ) :
    fat16FollowChain getEntry (k + 1) cluster =
      if Stops (getEntry cluster) then (-errInvarg : ℤ)
      else fat16FollowChain getEntry k (getEntry cluster) := by
  rw [fat16FollowChain]
  by_cases h₁ : getEntry cluster = 0xFF8 ∨ getEntry cluster = 0xFFF
  · have hs : Stops (getEntry cluster) := Or.inl h₁
    rw [if_pos h₁, if_pos hs]
  by_cases h₂ : getEntry cluster = fat16BadSector
  · have hs : Stops (getEntry cluster) := Or.inr (Or.inl h₂)
    rw [if_neg h₁, if_pos h₂, if_pos hs]
  by_cases h₃ : getEntry cluster = 0xFF0 ∨ getEntry cluster = 0xFF6
  · have hs : Stops (getEntry cluster) := Or.inr (Or.inr (Or.inl h₃))
    rw [if_neg h₁, if_neg h₂, if_pos h₃, if_pos hs]
  by_cases h₄ : getEntry cluster = 0
  · have hs : Stops (getEntry cluster) := Or.inr (Or.inr (Or.inr h₄))
    rw [if_neg h₁, if_neg h₂, if_neg h₃, if_pos h₄, if_pos hs]
  · have hs : ¬ Stops (getEntry cluster) := by
      rintro (h | h | h | h)
      · exact h₁ h
      · exact h₂ h
      · exact h₃ h
      · exact h₄ h
    rw [if_neg h₁, if_neg h₂, if_neg h₃, if_neg h₄, if_neg hs]

theorem fat16FollowChain_stopped :
    ∀ k cluster, OneFollowed getEntry k cluster Stops →
      fat16FollowChain getEntry k cluster = -errInvarg := by
  intro k
  induction k with
  | zero => exact fun cluster h ↦ absurd h oneFollowed_zero
  | succ k ih =>
    intro cluster h
    rw [fat16FollowChain_succ]
    by_cases hs : Stops (getEntry cluster)
    · exact if_pos hs
    · rw [if_neg hs]
      exact ih _ ((oneFollowed_succ.mp h).resolve_left hs)

theorem fat16FollowChain_reached :
    ∀ k cluster, ¬ OneFollowed getEntry k cluster Stops →
      fat16FollowChain getEntry k cluster = toInt32 (getEntry^[k] cluster) := by
  intro k
  induction k with
  | zero => exact fun _ _ ↦ rfl
  | succ k ih =>
    intro cluster h
    obtain ⟨hs, hrest⟩ := not_or.mp (oneFollowed_succ.not.mp h)
    rw [fat16FollowChain_succ, if_neg hs, ih _ hrest]
    rfl

theorem iterate_lt (h : ∀ c, getEntry c < 2 ^ 16) (hk : k ≠ 0) :
    getEntry^[k] cluster < 2 ^ 16 := by
  obtain ⟨n, rfl⟩ := Nat.exists_eq_succ_of_ne_zero hk
  rw [Function.iterate_succ_apply']
  exact h _

theorem walkRight_iff (h16 : ∀ c, getEntry c < 2 ^ 16) (hc : cluster < 2 ^ 32) :
    WalkRight getEntry k cluster (fat16FollowChain getEntry k cluster) ↔
      (k = 0 → cluster < 2 ^ 31) ∧ (OneFollowed getEntry k cluster (fun e ↦ ¬ DataCluster e) ↔
        OneFollowed getEntry k cluster Stops) := by
  have hneg : (-errInvarg : ℤ) < 0 := by decide
  have hint : ∀ n < 2 ^ 31, toInt32 n = (n : ℤ) := by
    intro n hn
    rw [toInt32, u32_of_lt (by omega), if_pos hn]
  constructor
  · rintro ⟨hreached, hstopped⟩
    refine ⟨fun h0 ↦ ?_, fun ha ↦ ?_, fun hb ↦ ?_⟩
    · subst h0
      have he : toInt32 cluster = (cluster : ℤ) := hreached oneFollowed_zero
      by_contra hlt
      rw [toInt32, u32_of_lt hc, if_neg hlt] at he
      omega
    · by_contra hb
      have hr := hstopped ha
      have hk : k ≠ 0 := by
        rintro rfl
        exact oneFollowed_zero ha
      have hlt := @iterate_lt getEntry cluster k h16 hk
      rw [fat16FollowChain_reached k cluster hb, hint _ (by omega)] at hr
      omega
    · by_contra ha
      have hr := hreached ha
      rw [fat16FollowChain_stopped k cluster hb] at hr
      omega
  · rintro ⟨h0, hab⟩
    refine ⟨fun ha ↦ ?_, fun ha ↦ ?_⟩
    · rw [fat16FollowChain_reached k cluster (fun hb ↦ ha (hab.mpr hb))]
      refine hint _ ?_
      by_cases hk : k = 0
      · subst hk
        exact h0 rfl
      · have hlt := @iterate_lt getEntry cluster k h16 hk
        omega
    · rw [fat16FollowChain_stopped k cluster (hab.mp ha)]
      exact hneg

/-- The walk is right when the entries it is stopped by are there exactly when
one of the entries is not a data cluster. -/
theorem clusterFromOffset_iff (h16 : ∀ c, getEntry c < 2 ^ 16) (hc : cluster < 2 ^ 32) :
    (∃ r, fat16ClusterFromOffset getEntry clusterSize cluster offset = .ok r ∧
      WalkRight getEntry (offset / clusterSize) cluster r) ↔
    clusterSize ≠ 0 ∧ (offset / clusterSize = 0 → cluster < 2 ^ 31) ∧
      (OneFollowed getEntry (offset / clusterSize) cluster (fun e ↦ ¬ DataCluster e) ↔
        OneFollowed getEntry (offset / clusterSize) cluster Stops) := by
  rw [← walkRight_iff h16 hc, fat16ClusterFromOffset]
  by_cases hs : clusterSize = 0
  · rw [if_pos hs]
    refine iff_of_false ?_ (fun h ↦ h.1 hs)
    rintro ⟨r, h, -⟩
    cases h
  · rw [if_neg hs]
    constructor
    · rintro ⟨r, h, hr⟩
      cases h
      exact ⟨hs, hr⟩
    · rintro ⟨-, hr⟩
      exact ⟨_, rfl, hr⟩

theorem clusterFromOffset_iff_loop :
    ∃ r, fat16ClusterFromOffset (fun _ ↦ 3) 512 2 2048 = .ok r ∧ WalkRight (fun _ ↦ 3) 4 2 r := by
  have hno : ∀ P : ℕ → Prop, ¬ P 3 → ¬ OneFollowed (fun _ ↦ 3) 4 2 P := by
    rintro P hP ⟨i, -, h⟩
    rw [Function.iterate_succ_apply'] at h
    exact hP h
  refine (clusterFromOffset_iff (fun _ ↦ by decide) (by decide)).mpr ⟨by decide, by decide, ?_⟩
  exact iff_of_false (hno _ (fun h ↦ h ⟨by decide, by decide⟩)) (hno _ (by decide))

def markedDisk : Disk := fun sector i ↦
  if sector = 4 then (if i = 0 then 0xF8 else 0xFF) else 0

/-- The end mark of a chain is taken for a cluster. -/
theorem end_mark_followed :
    fat16GetEntry markedDisk smallVolume 2 = 0xFFF8 ∧
      fat16GetClusterFromOffset markedDisk smallVolume 2 512 = .ok 0xFFF8 ∧
      ¬ WalkRight (fat16GetEntry markedDisk smallVolume) 1 2 0xFFF8 := by
  have hentry : fat16GetEntry markedDisk smallVolume 2 = 0xFFF8 := by decide
  refine ⟨hentry, by decide, fun h ↦ ?_⟩
  have hneg := h.stopped ⟨0, Nat.one_pos, fun hd ↦ ?_⟩
  · exact absurd hneg (by decide)
  · have hle : fat16GetEntry markedDisk smallVolume 2 ≤ 0xFFEF := hd.2
    rw [hentry] at hle
    exact absurd hle (by decide)

end GammaOS.Fs
