import Mathlib.Tactic

namespace HiStar.Lib

open Function

variable {ι : Type} [DecidableEq ι] {S : Finset ι} {D : ℤ} {v w : ι → ℤ} {i j c : ι}

/-- The values of the elements of `S` lie less than `D` apart. -/
def Spread (S : Finset ι) (D : ℤ) (v : ι → ℤ) : Prop := ∀ i ∈ S, ∀ j ∈ S, v i - v j < D

structure Raise (S : Finset ι) (D : ℤ) (c : ι) (v w : ι → ℤ) : Prop where
  mem : c ∈ S
  least : ∀ i ∈ S, v c ≤ v i
  lt : v c < w c
  below : w c < v c + D
  other : ∀ i, i ≠ c → w i = v i

namespace Raise

theorem spread (h : Raise S D c v w) (hs : Spread S D v) : Spread S D w := by
  intro i hi j hj
  have hlt := h.lt
  have hbelow := h.below
  by_cases hic : i = c
  · by_cases hjc : j = c
    · rw [hic, hjc]
      omega
    · rw [hic, h.other j hjc]
      have := h.least j hj
      omega
  · by_cases hjc : j = c
    · rw [hjc, h.other i hic]
      have := hs i hi c h.mem
      omega
    · rw [h.other i hic, h.other j hjc]
      exact hs i hi j hj

end Raise

/-- How far the elements of `S` are below `V`, in total. -/
def slack (S : Finset ι) (V : ℤ) (v : ι → ℤ) : ℕ := ∑ i ∈ S, (V + 1 - v i).toNat

theorem Raise.slack_lt (h : Raise S D c v w) (hi : i ∈ S) : slack S (v i) w < slack S (v i) v := by
  refine Finset.sum_lt_sum (fun j _ ↦ ?_) ⟨c, h.mem, ?_⟩
  · by_cases hj : j = c
    · have := h.lt
      rw [hj]
      omega
    · rw [h.other j hj]
  · have := h.lt
    have := h.least i hi
    omega

theorem raised_infinitely_often {v : ℕ → ι → ℤ} {cur : ℕ → ι}
    (h : ∀ n, Raise S D (cur n) (v n) (v (n + 1))) (hi : i ∈ S) (N : ℕ) : ∃ n, N ≤ n ∧ cur n = i := by
  by_contra hno
  push Not at hno
  -- as long as `i` is not raised, all that is raised lies at or below its value
  have hconst : ∀ k, v (N + k) i = v N i := by
    intro k
    induction k with
    | zero => rfl
    | succ k ih =>
      rw [← Nat.add_assoc, (h (N + k)).other i (hno (N + k) (Nat.le_add_right N k)).symm, ih]
  have hanti : StrictAnti fun k ↦ slack S (v N i) (v (N + k)) := by
    refine strictAnti_nat_of_succ_lt fun k ↦ ?_
    have := (h (N + k)).slack_lt hi
    rwa [hconst] at this
  exact not_strictAnti_of_wellFoundedLT _ hanti

end HiStar.Lib
