import HiStar.Iflow.LabelOps

namespace HiStar.Iflow

open Function LevelComparator

/-- A thread or gate as the label calls see it: a level for every category in
the tracking label and in the clearance. -/
structure Principal where
  tracking : Nat → Nat
  clearance : Nat → Nat

def Leq (c : LevelComparator) (f g : Nat → Nat) : Prop := ∀ h, c.cmp (f h) (g h) = true

/-- The labels that a call by the principal `cur` can put on a thread or gate
when the principals of the system are `v`. New categories are other than `h`. -/
inductive Grants (h : Nat) (v : Nat → Option Principal) (cur : Principal) : Principal → Prop
  | setLabel (l : Nat → Nat) (h1 : Leq .starlo cur.tracking l) (h2 : Leq .starlo l cur.clearance) :
      Grants h v cur ⟨l, cur.clearance⟩
  | setClearance (c : Nat → Nat) (h1 : Leq .starlo cur.tracking c)
      (h2 : Leq .starhi c fun g ↦ starhi.max (cur.clearance g) (cur.tracking g)) :
      Grants h v cur ⟨cur.tracking, c⟩
  | newCategory (n : Nat) (hn : n ≠ h) :
      Grants h v cur ⟨update cur.tracking n lbLevelStar, update cur.clearance n 3⟩
  | create (p : Principal) (h1 : Leq .starlo cur.tracking p.tracking)
      (h2 : Leq .starlo p.tracking p.clearance) (h3 : Leq .starlo p.clearance cur.clearance) :
      Grants h v cur p
  | enter (i : Nat) (g p : Principal) (hg : v i = some g)
      (h1 : Leq .starlo (fun a ↦ starhi.max (g.tracking a) (cur.tracking a)) p.tracking)
      (h2 : Leq .starlo p.tracking p.clearance)
      (h3 : ∀ a, g.clearance a ≠ lbLevelStar → cur.clearance a ≠ lbLevelStar →
        starhi.cmp (p.clearance a) (starlo.max (g.clearance a) (cur.clearance a)) = true) :
      Grants h v cur p
  | start (p : Principal) (h1 : Leq .starlo cur.tracking p.tracking)
      (h2 : Leq .starlo p.tracking p.clearance) (h3 : Leq .starhi p.clearance cur.clearance) :
      Grants h v cur p

structure Bounded (h lo hi : Nat) (p : Principal) : Prop where
  not_star : p.tracking h ≠ lbLevelStar
  lower : lo ≤ p.tracking h
  upper : p.clearance h ≤ hi

theorem clearance_ne_star {p : Principal} {h : Nat} (hs : p.tracking h ≠ lbLevelStar)
    (hc : Leq .starlo p.tracking p.clearance) : p.clearance h ≠ lbLevelStar :=
  ((cmp_starlo_iff hs).mp (hc h)).1

theorem raise_not_star {a b lo : Nat} (ha : a ≠ lbLevelStar) (hlo : lo ≤ a)
    (hab : starlo.cmp a b = true) : b ≠ lbLevelStar ∧ lo ≤ b := by
  obtain ⟨hb, hle⟩ := (cmp_starlo_iff ha).mp hab
  exact ⟨hb, hlo.trans hle⟩

theorem Grants.tracking_leq_clearance {h : Nat} {v : Nat → Option Principal} {cur p : Principal}
    (hcur : Leq .starlo cur.tracking cur.clearance) (hp : Grants h v cur p) :
    Leq .starlo p.tracking p.clearance := by
  cases hp with
  | setLabel l _ h2 => exact h2
  | setClearance c h1 _ => exact h1
  | newCategory n _ =>
    intro g
    by_cases hg : g = n
    · subst hg
      simp [LevelComparator.cmp, labelLeqStarloFn]
    · simpa [hg] using hcur g
  | create _ _ h2 _ => exact h2
  | enter _ _ _ _ _ h2 _ => exact h2
  | start _ _ h2 _ => exact h2

theorem Grants.bounded {h lo hi : Nat} {v : Nat → Option Principal} {cur p : Principal}
    (hv : ∀ i q, v i = some q → Bounded h lo hi q ∧ Leq .starlo q.tracking q.clearance)
    (hcur : Bounded h lo hi cur) (hle : Leq .starlo cur.tracking cur.clearance)
    (hp : Grants h v cur p) : Bounded h lo hi p := by
  have hcs := clearance_ne_star hcur.not_star hle
  cases hp with
  | setLabel l h1 _ =>
    obtain ⟨h3, h4⟩ := raise_not_star hcur.not_star hcur.lower (h1 h)
    exact ⟨h3, h4, hcur.upper⟩
  | setClearance c h1 h2 =>
    refine ⟨hcur.not_star, hcur.lower, ?_⟩
    have htr := ((cmp_starlo_iff hcur.not_star).mp (hle h)).2
    have hc := ((cmp_starhi_iff (max_ne_star starhi hcs hcur.not_star)).mp (h2 h)).2
    exact hc.trans (starhi.max_le hcur.upper (htr.trans hcur.upper))
  | newCategory n hn =>
    refine ⟨?_, ?_, ?_⟩ <;> simp only [update_apply, Ne.symm hn, ↓reduceIte]
    · exact hcur.not_star
    · exact hcur.lower
    · exact hcur.upper
  | create _ h1 h2 h3 =>
    obtain ⟨hs, hl⟩ := raise_not_star hcur.not_star hcur.lower (h1 h)
    have hps := clearance_ne_star hs h2
    exact ⟨hs, hl, ((cmp_starlo_iff hps).mp (h3 h)).2.trans hcur.upper⟩
  | enter i g _ hg h1 h2 h3 =>
    obtain ⟨hgb, hgle⟩ := hv i g hg
    have hgs := clearance_ne_star hgb.not_star hgle
    have hmax := le_max starhi hgb.not_star hcur.not_star
    obtain ⟨hs, hl⟩ := raise_not_star (max_ne_star starhi hgb.not_star hcur.not_star)
      (hcur.lower.trans hmax.2) (h1 h)
    have hc := ((cmp_starhi_iff (max_ne_star starlo hgs hcs)).mp (h3 h hgs hcs)).2
    exact ⟨hs, hl, hc.trans (starlo.max_le hgb.upper hcur.upper)⟩
  | start _ h1 h2 h3 =>
    obtain ⟨hs, hl⟩ := raise_not_star hcur.not_star hcur.lower (h1 h)
    exact ⟨hs, hl, ((cmp_starhi_iff hcs).mp (h3 h)).2.trans hcur.upper⟩

end HiStar.Iflow
