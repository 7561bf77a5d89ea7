import Mathlib.Tactic
import Mathlib.Logic.Relation

namespace HiStar.Lib

variable {ι : Type} {parent parent' : ι → Option ι} {x y p : ι}

def Above (parent : ι → Option ι) : ι → ι → Prop :=
  Relation.ReflTransGen fun a b ↦ parent a = some b

def Grounded (parent : ι → Option ι) (x : ι) : Prop := Acc (fun p a ↦ parent a = some p) x

theorem Above.head (hp : parent x = some p) (h : Above parent p y) : Above parent x y :=
  Relation.ReflTransGen.head hp h

theorem above_iff : Above parent x y ↔ x = y ∨ ∃ p, parent x = some p ∧ Above parent p y := by
  constructor
  · intro h
    rcases Relation.ReflTransGen.cases_head h with rfl | h
    · exact .inl rfl
    · exact .inr h
  · rintro (rfl | ⟨p, hp, h⟩)
    · exact .refl
    · exact h.head hp

namespace Grounded

theorem intro (h : ∀ p, parent x = some p → Grounded parent p) : Grounded parent x := Acc.intro x h

theorem up (h : Grounded parent x) (hp : parent x = some p) : Grounded parent p := Acc.inv h hp

theorem of_above (h : Grounded parent x) (ha : Above parent x y) : Grounded parent y := by
  induction ha with
  | refl => exact h
  | tail _ hp ih => exact ih.up hp

theorem not_above (h : Grounded parent x) (hp : parent x = some p) : ¬ Above parent p x := by
  induction h generalizing p with
  | intro x _ ih =>
    intro ha
    rcases above_iff.mp ha with rfl | ⟨q, hq, hqx⟩
    · exact ih p hp hp .refl
    · exact ih p hp hq (hqx.tail hp)

theorem cut (h : Grounded parent x) (hc : ∀ a p, parent' a = some p → parent a = some p) :
    Grounded parent' x :=
  Subrelation.accessible (fun hp ↦ hc _ _ hp) h

theorem of_not_above (h : Grounded parent x) (hy : ¬ Above parent x y)
    (hf : ∀ a, a ≠ y → parent' a = parent a) : Grounded parent' x := by
  induction h with
  | intro x _ ih =>
    refine .intro fun p hp ↦ ?_
    have hxy : x ≠ y := fun he ↦ hy (he ▸ .refl)
    rw [hf x hxy] at hp
    exact ih p hp fun ha ↦ hy (ha.head hp)

theorem relink {d : ι} (hd : Grounded parent d) (hy : ¬ Above parent d y)
    (hf : ∀ a, a ≠ y → parent' a = parent a) (hyd : parent' y = some d)
    (h : Grounded parent x) : Grounded parent' x := by
  have hy' : Grounded parent' y := by
    refine .intro fun p hp ↦ ?_
    rw [hyd, Option.some.injEq] at hp
    exact hp ▸ hd.of_not_above hy hf
  induction h with
  | intro x _ ih =>
    by_cases hxy : x = y
    · exact hxy ▸ hy'
    · refine .intro fun p hp ↦ ?_
      rw [hf x hxy] at hp
      exact ih p hp

end Grounded

end HiStar.Lib
