import Mathlib.Tactic
import Mathlib.Algebra.BigOperators.Group.Finset.Basic
import Mathlib.Algebra.BigOperators.Group.Multiset.Basic

namespace HiStar.Lib

variable {ι : Type} {w w' : ι → Nat} {m : Multiset ι} {x y z : ι}

def load (w : ι → Nat) (m : Multiset ι) : Nat := (m.map w).sum

@[simp] theorem load_zero : load w (0 : Multiset ι) = 0 := rfl

@[simp] theorem load_cons (y : ι) : load w (y ::ₘ m) = w y + load w m := by simp [load]

theorem load_congr (h : ∀ y ∈ m, w' y = w y) : load w' m = load w m := by
  unfold load
  rw [Multiset.map_congr rfl h]

theorem le_load (hy : y ∈ m) : w y ≤ load w m := by
  obtain ⟨t, rfl⟩ := Multiset.exists_cons_of_mem hy
  rw [load_cons]
  omega

variable [DecidableEq ι] {s : Finset ι} {held held' : ι → Multiset ι}

def refCount (s : Finset ι) (held : ι → Multiset ι) (y : ι) : Nat := ∑ x ∈ s, (held x).count y

theorem refCount_congr (h : ∀ a ∈ s, held' a = held a) (y : ι) :
    refCount s held' y = refCount s held y :=
  Finset.sum_congr rfl fun a ha ↦ by rw [h a ha]

theorem count_le_refCount (hx : x ∈ s) (y : ι) : (held x).count y ≤ refCount s held y :=
  Finset.single_le_sum (f := fun a ↦ (held a).count y) (fun _ _ ↦ Nat.zero_le _) hx

theorem refCount_pos (hx : x ∈ s) (hy : y ∈ held x) : 0 < refCount s held y :=
  (Multiset.count_pos.mpr hy).trans_le (count_le_refCount hx y)

theorem refCount_cons (hx : x ∈ s) (hh : held' x = y ::ₘ held x)
    (hf : ∀ a, a ≠ x → held' a = held a) (z : ι) :
    refCount s held' z = refCount s held z + if z = y then 1 else 0 := by
  unfold refCount
  rw [← Finset.add_sum_erase s _ hx, ← Finset.add_sum_erase s (fun a ↦ (held a).count z) hx, hh,
    Finset.sum_congr rfl fun a ha ↦ by rw [hf a (Finset.ne_of_mem_erase ha)],
    Multiset.count_cons]
  omega

theorem refCount_insert (hx : x ∉ s) (hh : held' x = 0) (hf : ∀ a ∈ s, held' a = held a) (z : ι) :
    refCount (insert x s) held' z = refCount s held z := by
  unfold refCount
  rw [Finset.sum_insert hx, hh, Multiset.count_zero, Nat.zero_add]
  exact Finset.sum_congr rfl fun a ha ↦ by rw [hf a ha]

theorem refCount_erase (hx : x ∈ s) (hh : held x = 0) (z : ι) :
    refCount (s.erase x) held z = refCount s held z := by
  unfold refCount
  rw [← Finset.add_sum_erase s _ hx, hh, Multiset.count_zero, Nat.zero_add]

theorem count_of_refCount_one (h : refCount s held y = 1) (hx : x ∈ s) (hy : y ∈ held x)
    (hz : z ∈ s) : (held z).count y = if z = x then 1 else 0 := by
  have hx1 := Multiset.count_pos.mpr hy
  unfold refCount at h
  by_cases hzx : z = x
  · subst hzx
    have hle : (held z).count y ≤ ∑ x ∈ s, (held x).count y := count_le_refCount hz y
    rw [if_pos rfl]
    omega
  · have hz' : z ∈ s.erase x := Finset.mem_erase.mpr ⟨hzx, hz⟩
    rw [← Finset.add_sum_erase s _ hx] at h
    have := Finset.single_le_sum (f := fun a ↦ (held a).count y) (fun _ _ ↦ Nat.zero_le _) hz'
    rw [if_neg hzx]
    omega

theorem load_reweight (hf : ∀ z, z ≠ y → w' z = w z) :
    load w' m + m.count y * w y = load w m + m.count y * w' y := by
  induction m using Multiset.induction with
  | empty => simp
  | cons a m ih =>
    rw [load_cons, load_cons, Multiset.count_cons]
    by_cases ha : y = a
    · subst ha
      rw [if_pos rfl, Nat.add_mul, Nat.add_mul]
      omega
    · rw [hf a (Ne.symm ha), if_neg ha, Nat.add_zero]
      omega

theorem load_add_weight {n : Nat} (hy : w' y = w y + n) (hf : ∀ z, z ≠ y → w' z = w z) :
    load w' m = load w m + n * m.count y := by
  have h := load_reweight (m := m) hf
  rw [hy, Nat.mul_add] at h
  rw [Nat.mul_comm n]
  omega

end HiStar.Lib
