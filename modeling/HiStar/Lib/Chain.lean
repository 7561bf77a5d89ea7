import Mathlib.Tactic

namespace HiStar.Lib

variable {α : Type} {F : Nat → Finset α} {B : Finset α}

/-- A chain of finite sets in which a step that adds nothing is the last that
could. -/
structure GrowingChain (F : Nat → Finset α) : Prop where
  mono : ∀ n, F n ⊆ F (n + 1)
  settled : ∀ n, F n = F (n + 1) → F (n + 1) = F (n + 2)

theorem GrowingChain.const (h : GrowingChain F) {n m : Nat} (heq : F n = F (n + 1)) (hnm : n ≤ m) :
    F m = F n ∧ F m = F (m + 1) := by
  induction m, hnm using Nat.le_induction with
  | base => exact ⟨rfl, heq⟩
  | succ m _ ih => exact ⟨ih.2.symm.trans ih.1, h.settled m ih.2⟩

theorem GrowingChain.card_or_settled (h : GrowingChain F) (n : Nat) :
    (F 0).card + n ≤ (F n).card ∨ ∃ m, m < n ∧ F m = F (m + 1) := by
  induction n with
  | zero => exact .inl le_rfl
  | succ n ih =>
    rcases ih with hcard | ⟨m, hm, heq⟩
    · by_cases heq : F n = F (n + 1)
      · exact .inr ⟨n, Nat.lt_succ_self n, heq⟩
      · have := Finset.card_lt_card ((h.mono n).ssubset_of_ne heq)
        exact .inl (by omega)
    · exact .inr ⟨m, hm.trans (Nat.lt_succ_self n), heq⟩

theorem GrowingChain.stable (h : GrowingChain F) (hB : ∀ n, F n ⊆ B) {N : Nat}
    (hN : B.card ≤ (F 0).card + N) {n : Nat} (hn : N ≤ n) : F n = F N := by
  have hset : F N = F (N + 1) := by
    rcases h.card_or_settled (N + 1) with hcard | ⟨m, hm, heq⟩
    · have := Finset.card_le_card (hB (N + 1))
      omega
    · exact (h.const heq (Nat.lt_succ_iff.mp hm)).2
  exact (h.const hset hn).1

end HiStar.Lib
