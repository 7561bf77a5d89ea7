import HiStar.Pagetree.Mem

namespace HiStar.Pagetree

open Lib Function

variable {α : Type} {s : Mem α} {pt i j n m : Nat} {path : List Nat}

/-- A place in a page tree. The slots that lead to a place below an indirect
entry are listed from the last one back to the first. -/
inductive Pos
  | direct (i : Nat)
  | node (i : Nat) (path : List Nat)
  deriving DecidableEq

namespace Pos

def child : Pos → Nat → Pos
  | direct i, _ => direct i
  | node i path, j => node i (j :: path)

def Inner : Pos → Prop
  | direct _ => False
  | node i path => path.length ≤ i

def Bounded : Pos → Prop
  | direct i => i < pagetreeDirectPages
  | node i path => i < pagetreeIndirects ∧ ∀ j ∈ path, j < pagetreeEntriesPerPage

def Leaf : Pos → Prop
  | direct _ => True
  | node i path => path.length = i + 1

theorem Leaf.not_inner {π : Pos} (h : π.Leaf) : ¬ π.Inner := by
  cases π with
  | direct i => exact fun h ↦ h
  | node i path =>
    intro hi
    unfold Leaf at h
    unfold Inner at hi
    omega

theorem child_ne (π : Pos) (hi : π.Inner) : child π j ≠ π := by
  cases π with
  | direct => exact hi.elim
  | node i path =>
    intro h
    injection h with _ h
    exact absurd (congrArg List.length h) (by simp)

end Pos

/-- The slots of page `m` of a tree with `level` further levels, after those in
`path`. -/
def pathOf : Nat → Nat → List Nat → List Nat
  | 0, m, path => m :: path
  | level + 1, m, path => pathOf level (m % pagetreeEntriesPerPage ^ (level + 1))
      (m / pagetreeEntriesPerPage ^ (level + 1) :: path)

variable {level : Nat}

theorem pathOf_inj {path' : List Nat}
    (h : pathOf level n path = pathOf level m path') : n = m ∧ path = path' := by
  induction level generalizing n m path path' with
  | zero =>
    injection h with h1 h2
    exact ⟨h1, h2⟩
  | succ level ih =>
    obtain ⟨hmod, hrest⟩ := ih h
    injection hrest with hdiv hpath
    refine ⟨?_, hpath⟩
    rw [← Nat.div_add_mod n (pagetreeEntriesPerPage ^ (level + 1)), hdiv, hmod, Nat.div_add_mod]

theorem pathOf_length : (pathOf level n path).length = level + 1 + path.length := by
  induction level generalizing n path with
  | zero => simp [pathOf, Nat.add_comm]
  | succ level ih =>
    rw [pathOf, ih, List.length_cons]
    omega

theorem slot_lt (h : n < pagetreeEntriesPerPage ^ (level + 1 + 1)) :
    n / pagetreeEntriesPerPage ^ (level + 1) < pagetreeEntriesPerPage := by
  rw [Nat.div_lt_iff_lt_mul (Nat.pow_pos (by decide))]
  rwa [pow_succ, Nat.mul_comm] at h

theorem pathOf_lt (h : n < pagetreeEntriesPerPage ^ (level + 1))
    (hp : ∀ j ∈ path, j < pagetreeEntriesPerPage) :
    ∀ j ∈ pathOf level n path, j < pagetreeEntriesPerPage := by
  induction level generalizing n path with
  | zero =>
    intro j hj
    rcases List.mem_cons.mp hj with rfl | hj
    · simpa using h
    · exact hp j hj
  | succ level ih =>
    refine ih (Nat.mod_lt _ (Nat.pow_pos (by decide))) fun j hj ↦ ?_
    rcases List.mem_cons.mp hj with rfl | hj
    · exact slot_lt h
    · exact hp j hj

/-- The place of a page behind the indirect entries from `i` on. -/
def placeFrom : Nat → Nat → Nat → Option Pos
  | 0, _, _ => none
  | k + 1, i, m =>
    if m < pagetreeEntriesPerPage ^ (i + 1) then some (.node i (pathOf i m []))
    else placeFrom k (i + 1) (m - pagetreeEntriesPerPage ^ (i + 1))

def place (n : Nat) : Option Pos :=
  if n < pagetreeDirectPages then some (.direct n)
  else placeFrom pagetreeIndirects 0 (n - pagetreeDirectPages)

theorem placeFrom_some {k : Nat} {π : Pos} (h : placeFrom k i m = some π) :
    ∃ i' m', i ≤ i' ∧ i' < i + k ∧ m' < pagetreeEntriesPerPage ^ (i' + 1) ∧
      π = .node i' (pathOf i' m' []) ∧
      m = m' + ∑ j ∈ Finset.Ico i i', pagetreeEntriesPerPage ^ (j + 1) := by
  induction k generalizing i m with
  | zero => cases h
  | succ k ih =>
    unfold placeFrom at h
    split at h
    next hlt =>
      cases h
      exact ⟨i, m, le_rfl, by omega, hlt, rfl, by simp⟩
    next hge =>
      obtain ⟨i', m', h1, h2, h3, h4, h5⟩ := ih h
      refine ⟨i', m', by omega, by omega, h3, h4, ?_⟩
      rw [Finset.sum_eq_sum_Ico_succ_bot (by omega)]
      omega

theorem place_bounded {π : Pos} (h : place n = some π) : π.Bounded ∧ π.Leaf := by
  unfold place at h
  split at h
  next hn =>
    cases h
    exact ⟨hn, trivial⟩
  next =>
    obtain ⟨i, m, -, hi, hm, rfl, -⟩ := placeFrom_some h
    exact ⟨⟨by simpa using hi, pathOf_lt hm (by simp)⟩, by
      rw [Pos.Leaf, pathOf_length, List.length_nil, Nat.add_zero]⟩

theorem place_inj {π : Pos} (hn : place n = some π) (hm : place m = some π) : n = m := by
  unfold place at hn hm
  split at hn <;> split at hm
  · cases hn
    cases hm
    rfl
  · cases hn
    obtain ⟨i, m', -, -, -, h, -⟩ := placeFrom_some hm
    cases h
  · cases hm
    obtain ⟨i, m', -, -, -, h, -⟩ := placeFrom_some hn
    cases h
  · obtain ⟨i, n', -, -, -, rfl, h1⟩ := placeFrom_some hn
    obtain ⟨i', m', -, -, -, h2, h3⟩ := placeFrom_some hm
    injection h2 with h4 h5
    subst h4
    obtain ⟨rfl, -⟩ := pathOf_inj h5
    omega

theorem placeFrom_eq_none {k : Nat} : placeFrom k i m = none ↔
    ∑ j ∈ Finset.Ico i (i + k), pagetreeEntriesPerPage ^ (j + 1) ≤ m := by
  induction k generalizing i m with
  | zero => simp [placeFrom]
  | succ k ih =>
    rw [Finset.sum_eq_sum_Ico_succ_bot (by omega), show i + (k + 1) = i + 1 + k by omega]
    unfold placeFrom
    split
    next hlt =>
      simp only [reduceCtorEq, false_iff, not_le]
      omega
    next hge =>
      rw [ih]
      omega

theorem pagetreeMaxpages_eq : pagetreeMaxpages = pagetreeDirectPages +
    ∑ j ∈ Finset.Ico 0 (0 + pagetreeIndirects), pagetreeEntriesPerPage ^ (j + 1) := by
  decide

theorem place_eq_none : place n = none ↔ pagetreeMaxpages ≤ n := by
  rw [pagetreeMaxpages_eq]
  unfold place
  split
  next hlt =>
    simp only [reduceCtorEq, false_iff, not_le]
    omega
  next hge =>
    rw [placeFrom_eq_none]
    omega

namespace Mem

/-- The page at a place below the `i`-th indirect entry of a tree, or 0. -/
def node (s : Mem α) (pt i : Nat) : List Nat → Nat
  | [] => s.page (.indirect pt i)
  | j :: path => if s.node pt i path = 0 then 0 else s.page (.entry (s.node pt i path) j)

def pageAt (s : Mem α) (pt : Nat) : Pos → Nat
  | .direct i => s.page (.direct pt i)
  | .node i path => s.node pt i path

theorem pageAt_node (s : Mem α) : s.pageAt pt (.node i path) = s.node pt i path := rfl

def entAt (s : Mem α) (pt : Nat) : Pos → Ent
  | .direct i => .direct pt i
  | .node i [] => .indirect pt i
  | .node i (j :: path) => .entry (s.node pt i path) j

end Mem

end HiStar.Pagetree
