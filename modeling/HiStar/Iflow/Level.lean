import Mathlib.Tactic

namespace HiStar.Iflow

def lbLevelStar : Nat := 4

def lbLevelUndef : Nat := 5

def labelLeqStarloFn (a b : Nat) : Bool :=
  if a = lbLevelStar then true
  else if b = lbLevelStar then false
  else decide (a ≤ b)

def labelLeqStarhiFn (a b : Nat) : Bool :=
  if b = lbLevelStar then true
  else if a = lbLevelStar then false
  else decide (a ≤ b)

/-- The two orders on levels: one puts the star below every level, the other
above. -/
inductive LevelComparator
  | starlo
  | starhi
  deriving DecidableEq

namespace LevelComparator

/-- The entry of the `cmp` table, true when the C code stores 0. -/
def cmp : LevelComparator → Nat → Nat → Bool
  | starlo => labelLeqStarloFn
  | starhi => labelLeqStarhiFn

def max (c : LevelComparator) (a b : Nat) : Nat := if c.cmp a b then b else a

variable (c : LevelComparator) {a b : Nat}

theorem cmp_refl (a : Nat) : c.cmp a a = true := by
  cases c <;> simp [cmp, labelLeqStarloFn, labelLeqStarhiFn]

theorem cmp_starlo_iff (ha : a ≠ lbLevelStar) :
    starlo.cmp a b = true ↔ b ≠ lbLevelStar ∧ a ≤ b := by
  simp only [cmp, labelLeqStarloFn, ha, ↓reduceIte]
  split_ifs with hb <;> simp [hb]

theorem cmp_starhi_iff (hb : b ≠ lbLevelStar) :
    starhi.cmp a b = true ↔ a ≠ lbLevelStar ∧ a ≤ b := by
  simp only [cmp, labelLeqStarhiFn, hb, ↓reduceIte]
  split_ifs with ha <;> simp [ha]

theorem le_max (ha : a ≠ lbLevelStar) (hb : b ≠ lbLevelStar) : a ≤ c.max a b ∧ b ≤ c.max a b := by
  cases c <;>
    simp only [max, cmp, labelLeqStarloFn, labelLeqStarhiFn, ha, hb, ↓reduceIte,
      decide_eq_true_eq] <;> split_ifs with h <;> omega

theorem cmp_starlo_eq : starlo.cmp a b = true ↔ a = 4 ∨ b ≠ 4 ∧ a ≤ b := by
  by_cases h1 : a = 4 <;> by_cases h2 : b = 4 <;> simp [cmp, labelLeqStarloFn, lbLevelStar, h1, h2]

theorem cmp_starhi_eq : starhi.cmp a b = true ↔ b = 4 ∨ a ≠ 4 ∧ a ≤ b := by
  by_cases h1 : a = 4 <;> by_cases h2 : b = 4 <;> simp [cmp, labelLeqStarhiFn, lbLevelStar, h1, h2]

theorem cmp_total (a b : Nat) : c.cmp a b = true ∨ c.cmp b a = true := by
  cases c <;> simp only [cmp_starlo_eq, cmp_starhi_eq] <;> omega

theorem cmp_trans {x y z : Nat} (h1 : c.cmp x y = true)
    (h2 : c.cmp y z = true) : c.cmp x z = true := by
  cases c <;> simp only [cmp_starlo_eq, cmp_starhi_eq] at * <;> omega

theorem cmp_antisymm {x y : Nat} (h1 : c.cmp x y = true) (h2 : c.cmp y x = true) : x = y := by
  cases c <;> simp only [cmp_starlo_eq, cmp_starhi_eq] at * <;> omega

theorem max_mem (a b : Nat) : c.max a b = a ∨ c.max a b = b := by
  unfold max
  split_ifs
  · exact Or.inr rfl
  · exact Or.inl rfl

theorem cmp_max (a b : Nat) : c.cmp a (c.max a b) = true ∧ c.cmp b (c.max a b) = true := by
  unfold max
  split_ifs with h
  · exact ⟨h, c.cmp_refl b⟩
  · exact ⟨c.cmp_refl a, (c.cmp_total a b).resolve_left h⟩

theorem max_cmp {u : Nat} (ha : c.cmp a u = true)
    (hb : c.cmp b u = true) : c.cmp (c.max a b) u = true := by
  rcases c.max_mem a b with h | h <;> rw [h] <;> assumption

theorem eq_max {m : Nat} (ha : c.cmp a m = true) (hb : c.cmp b m = true)
    (hm : ∀ u, c.cmp a u = true → c.cmp b u = true → c.cmp m u = true) : m = c.max a b :=
  c.cmp_antisymm (hm _ (c.cmp_max a b).1 (c.cmp_max a b).2) (c.max_cmp ha hb)

theorem max_comm (a b : Nat) : c.max a b = c.max b a :=
  c.eq_max (c.cmp_max a b).2 (c.cmp_max a b).1 fun _ hb ha ↦ c.max_cmp ha hb

theorem max_assoc (x y z : Nat) : c.max (c.max x y) z = c.max x (c.max y z) := by
  have hxy := c.cmp_max x y
  have hxyz := c.cmp_max (c.max x y) z
  refine c.eq_max (c.cmp_trans hxy.1 hxyz.1) (c.max_cmp (c.cmp_trans hxy.2 hxyz.1) hxyz.2) ?_
  intro u hx hyz
  have hy := c.cmp_trans (c.cmp_max y z).1 hyz
  exact c.max_cmp (c.max_cmp hx hy) (c.cmp_trans (c.cmp_max y z).2 hyz)

theorem max_self (a : Nat) : c.max a a = a := by
  rcases c.max_mem a a with h | h <;> exact h

theorem max_ne_star (ha : a ≠ lbLevelStar) (hb : b ≠ lbLevelStar) : c.max a b ≠ lbLevelStar := by
  rcases c.max_mem a b with h | h <;> rw [h] <;> assumption

theorem max_le {n : Nat} (c : LevelComparator) (ha : a ≤ n) (hb : b ≤ n) : c.max a b ≤ n := by
  rcases c.max_mem a b with h | h <;> rw [h] <;> assumption

theorem max_starhi_eq_zero (h : starhi.max a b = 0) : a = 0 ∧ b = 0 := by
  by_cases hb : b = lbLevelStar
  · simp [max, cmp, labelLeqStarhiFn, hb, lbLevelStar] at h
  by_cases ha : a = lbLevelStar
  · simp only [max, cmp, labelLeqStarhiFn, hb, ha, ↓reduceIte, Bool.false_eq_true] at h
    exact absurd h (by decide)
  have := le_max starhi ha hb
  omega

end LevelComparator

end HiStar.Iflow
