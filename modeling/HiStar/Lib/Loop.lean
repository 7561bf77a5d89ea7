import Mathlib.Tactic

namespace HiStar.Lib

variable {ε α : Type}

def forFrom (f : Nat → Except ε Unit) : Nat → Nat → Except ε Unit
  | _, 0 => .ok ()
  | i, n + 1 =>
    match f i with
    | .ok () => forFrom f (i + 1) n
    | .error e => .error e

variable {i n : Nat} {f : Nat → α → Except ε α} {I : Nat → α → Prop} {a : α}

theorem forFrom_ok {f : Nat → Except ε Unit} :
    forFrom f i n = .ok () ↔ ∀ j, i ≤ j → j < i + n → f j = .ok () := by
  induction n generalizing i with
  | zero => simp only [forFrom, true_iff]; omega
  | succ n ih =>
    simp only [forFrom]
    constructor
    · intro h j hij hj
      cases hf : f i with
      | error e => simp [hf] at h
      | ok u =>
        simp only [hf] at h
        rcases Nat.eq_or_lt_of_le hij with rfl | hlt
        · exact hf
        · exact ih.mp h j hlt (by omega)
    · intro h
      rw [h i le_rfl (by omega)]
      exact ih.mpr (fun j hij hj ↦ h j (by omega) (by omega))

def foldFrom (f : Nat → α → Except ε α) : Nat → Nat → α → Except ε α
  | _, 0, a => .ok a
  | i, n + 1, a =>
    match f i a with
    | .ok b => foldFrom f (i + 1) n b
    | .error e => .error e

theorem foldFrom_inv {b : α}
    (hstep : ∀ j c d, i ≤ j → j < i + n → I j c → f j c = .ok d → I (j + 1) d)
    (ha : I i a) (h : foldFrom f i n a = .ok b) : I (i + n) b := by
  induction n generalizing i a with
  | zero => cases h; exact ha
  | succ n ih =>
    simp only [foldFrom] at h
    cases hf : f i a with
    | error e => simp [hf] at h
    | ok c =>
      simp only [hf] at h
      have hc := hstep i a c le_rfl (by omega) ha hf
      have hb := ih (fun j c d hij hj ↦ hstep j c d (by omega) (by omega)) hc h
      rwa [show i + (n + 1) = i + 1 + n by omega]

theorem foldFrom_congr {g : Nat → α → Except ε α}
    (hstep : ∀ j c, i ≤ j → j < i + n → I j c → f j c = g j c ∧ ∀ d, g j c = .ok d → I (j + 1) d)
    (ha : I i a) : foldFrom f i n a = foldFrom g i n a := by
  induction n generalizing i a with
  | zero => rfl
  | succ n ih =>
    obtain ⟨heq, hnext⟩ := hstep i a le_rfl (by omega) ha
    simp only [foldFrom, heq]
    cases hg : g i a with
    | error e => rfl
    | ok b => exact ih (fun j c hij hj ↦ hstep j c (by omega) (by omega)) (hnext b hg)

theorem foldFrom_succeeds
    (hstep : ∀ j c, i ≤ j → j < i + n → I j c → ∃ d, f j c = .ok d ∧ I (j + 1) d)
    (ha : I i a) : ∃ b, foldFrom f i n a = .ok b := by
  induction n generalizing i a with
  | zero => exact ⟨a, rfl⟩
  | succ n ih =>
    obtain ⟨d, hd, hI⟩ := hstep i a le_rfl (by omega) ha
    obtain ⟨b, hb⟩ := ih (fun j c hij hj ↦ hstep j c (by omega) (by omega)) hI
    exact ⟨b, by simp only [foldFrom, hd, hb]⟩

/-- The first index from `i` on, among `n`, that satisfies `p`. -/
def findFrom (p : Nat → Bool) : Nat → Nat → Option Nat
  | _, 0 => none
  | i, n + 1 => if p i then some i else findFrom p (i + 1) n

theorem findFrom_some {p : Nat → Bool} {j : Nat} (h : findFrom p i n = some j) :
    i ≤ j ∧ j < i + n ∧ p j = true ∧ ∀ k, i ≤ k → k < j → p k = false := by
  induction n generalizing i with
  | zero => simp [findFrom] at h
  | succ n ih =>
    simp only [findFrom] at h
    split at h
    next hp =>
      cases h
      exact ⟨le_rfl, by omega, hp, fun k h1 h2 ↦ by omega⟩
    next hp =>
      obtain ⟨h1, h2, h3, h4⟩ := ih h
      refine ⟨by omega, by omega, h3, fun k hk hkj ↦ ?_⟩
      rcases Nat.eq_or_lt_of_le hk with rfl | hlt
      · simpa using hp
      · exact h4 k hlt hkj

theorem findFrom_none {p : Nat → Bool} (h : findFrom p i n = none) :
    ∀ j, i ≤ j → j < i + n → p j = false := by
  induction n generalizing i with
  | zero => intro j h1 h2; omega
  | succ n ih =>
    simp only [findFrom] at h
    split at h
    next => cases h
    next hp =>
      intro j hij hj
      rcases Nat.eq_or_lt_of_le hij with rfl | hlt
      · simpa using hp
      · exact ih h j hlt (by omega)

end HiStar.Lib
