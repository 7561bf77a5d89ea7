import HiStar.Iflow.LargeLabel

namespace HiStar.Iflow

open Lib LevelComparator

abbrev BuiltFit : Label → Prop := Built SlotsFit EntriesFit

/-- What handle 0 reads after `label_set` has given it the level `lv`: the code of
level 0 is that of an empty slot. -/
def zeroLevel (lv dflt : Nat) : Nat := if lv = 0 then dflt else lv

section Levels

variable {leq : LevelComparator} {a0 b0 c0 ad bd cd : Nat}

theorem starlo_max_eq (x y : Nat) : starlo.max x y = if x = 4 ∨ y ≠ 4 ∧ x ≤ y then y else x := by
  simp only [LevelComparator.max, cmp_starlo_eq]

/-- The empty slot for the maximum 0 of the levels `a0` and `b0` has the level of
the default, and a third label tells the difference: its own level would have
prevailed, or its default would have raised the slot further. -/
def SpoilsAt (leq : LevelComparator) (a0 ad b0 bd c0 cd : Nat) : Prop :=
  leq.max a0 b0 = 0 ∧ leq.max ad bd ≠ 0 ∧
    ((c0 = 0 ∨ c0 = lbLevelStar) ∧ cd ≠ lbLevelStar ∧ leq.max ad bd < cd ∨
      0 < c0 ∧ c0 < leq.max ad bd)

theorem starlo_zero_assoc (ha : a0 = 0 → ad = 0) (hb : b0 = 0 → bd = 0) (hc : c0 = 0 → cd = 0)
    (ha0 : a0 ≤ 4) (hb0 : b0 ≤ 4) (hc0 : c0 ≤ 4) (had : ad ≤ 4) (hbd : bd ≤ 4) (hcd : cd ≤ 4) :
    zeroLevel (starlo.max (zeroLevel (starlo.max a0 b0) (starlo.max ad bd)) c0)
        (starlo.max (starlo.max ad bd) cd) =
      zeroLevel (starlo.max a0 (zeroLevel (starlo.max b0 c0) (starlo.max bd cd)))
        (starlo.max ad (starlo.max bd cd)) ↔
      ¬ SpoilsAt starlo a0 ad b0 bd c0 cd ∧ ¬ SpoilsAt starlo b0 bd c0 cd a0 ad := by
  simp only [zeroLevel, SpoilsAt, starlo_max_eq, lbLevelStar]
  grind

theorem max_starhi_zero (ha : a0 = 0 → ad = 0) (hb : b0 = 0 → bd = 0)
    (hm : starhi.max a0 b0 = 0) : starhi.max ad bd = 0 := by
  obtain ⟨h1, h2⟩ := max_starhi_eq_zero hm
  rw [ha h1, hb h2]
  rfl

/-- With the star above every level the maximum is 0 for two zeros only, and
those are defaults. -/
theorem zeroLevel_starhi (ha : a0 = 0 → ad = 0) (hb : b0 = 0 → bd = 0) :
    zeroLevel (starhi.max a0 b0) (starhi.max ad bd) = starhi.max a0 b0 := by
  unfold zeroLevel
  split_ifs with h
  · rw [h, max_starhi_zero ha hb h]
  · rfl

theorem zero_assoc (ha : a0 = 0 → ad = 0) (hb : b0 = 0 → bd = 0) (hc : c0 = 0 → cd = 0)
    (ha0 : a0 ≤ 4) (hb0 : b0 ≤ 4) (hc0 : c0 ≤ 4) (had : ad ≤ 4) (hbd : bd ≤ 4) (hcd : cd ≤ 4) :
    zeroLevel (leq.max (zeroLevel (leq.max a0 b0) (leq.max ad bd)) c0)
        (leq.max (leq.max ad bd) cd) =
      zeroLevel (leq.max a0 (zeroLevel (leq.max b0 c0) (leq.max bd cd)))
        (leq.max ad (leq.max bd cd)) ↔
      ¬ SpoilsAt leq a0 ad b0 bd c0 cd ∧ ¬ SpoilsAt leq b0 bd c0 cd a0 ad := by
  cases leq with
  | starlo => exact starlo_zero_assoc ha hb hc ha0 hb0 hc0 had hbd hcd
  | starhi =>
    have hab := max_starhi_zero ha hb
    have hbc := max_starhi_zero hb hc
    rw [zeroLevel_starhi ha hb, zeroLevel_starhi hb hc, zeroLevel_starhi hab hc,
      zeroLevel_starhi ha hbc, starhi.max_assoc]
    exact iff_of_true rfl ⟨fun h ↦ h.2.1 (hab h.1), fun h ↦ h.2.1 (hbc h.1)⟩

/-- Where the default replaces the maximum 0, one operand has level and default
0, so that the star is not the new level. -/
theorem raised_starlo (ha : a0 = 0 → ad = 0) (hb : b0 = 0 → bd = 0) (hm : leq.max a0 b0 = 0)
    (hd : 1 < leq.max ad bd) :
    leq = starlo ∧ leq.max ad bd ≠ lbLevelStar ∧ (a0 = 0 ∨ a0 = lbLevelStar) ∧
      (b0 = 0 ∨ b0 = lbLevelStar) := by
  cases leq with
  | starlo =>
    simp only [starlo_max_eq, lbLevelStar] at *
    grind
  | starhi =>
    rw [max_starhi_zero ha hb hm] at hd
    omega

end Levels

/-- `d` has the levels that `label_max` gives its result. -/
structure MaxOf (leq : LevelComparator) (a b d : Label) : Prop where
  wf : WellFormed d
  handles : d.handles ⊆ a.handles ∪ b.handles
  nent : d.lbNent ≤ (a.handles ∪ b.handles).card
  defLevel : d.lbDefLevel = leq.max a.lbDefLevel b.lbDefLevel
  level : ∀ h, h ≠ 0 → labelGetLevel d h = leq.max (labelGetLevel a h) (labelGetLevel b h)
  zero : labelGetLevel d 0 =
    zeroLevel (leq.max (labelGetLevel a 0) (labelGetLevel b 0)) d.lbDefLevel

section

variable {env : MemEnv} {a b c d : Label} {leq : LevelComparator}

theorem labelMax32_maxOf (leq : LevelComparator) (henv : env.NoFailure) (ha : WellFormed a)
    (hb : WellFormed b) (hS : (a.handles ∪ b.handles).card ≤ 2 ^ 31) :
    ∃ d, labelMax32 env a b leq = .ok d ∧ MaxOf leq a b d := by
  rw [labelMax32_eq ha hb hS]
  obtain ⟨d, hok⟩ := labelMax_succeeds leq henv ha hb
  have hg := labelMax_spans ha hb hok
  have hlev := labelMax_level ha hb hok
  refine ⟨d, hok, hg.wf, hg.handles, hg.nent, (hlev 0).2.1, fun h h0 ↦ ?_, ?_⟩
  · rw [(hlev h).2.2, if_neg fun he ↦ h0 he.1]
  · rw [(hlev 0).2.2, (hlev 0).2.1]
    simp only [true_and, zeroLevel]

theorem compare_iff (ha : WellFormed a) (hb : WellFormed b) (hna : a.lbNent ≤ 2 ^ 31)
    (hnb : b.lbNent ≤ 2 ^ 31) : labelCompareAll a b leq = .ok () ↔
      ∀ h, leq.cmp (labelGetLevel a h) (labelGetLevel b h) = true :=
  ⟨fun h ↦ labelCompareAll_sound h,
    fun h ↦ labelCompareAll_complete ha hb (by omega) fun g _ ↦ h g⟩

structure IsJoin (leq : LevelComparator) (a b d : Label) : Prop where
  left : labelCompareAll a d leq = .ok ()
  right : labelCompareAll b d leq = .ok ()
  least : ∀ u, BuiltFit u → labelCompareAll a u leq = .ok () → labelCompareAll b u leq = .ok () →
    labelCompareAll d u leq = .ok ()

def SameLevels (l l' : Label) : Prop := ∀ h, labelGetLevel l h = labelGetLevel l' h

/-- The maximum 0 at handle 0 becomes a default of the result that is not the
least level above it. -/
def Raised (leq : LevelComparator) (a b : Label) : Prop :=
  leq.max (labelGetLevel a 0) (labelGetLevel b 0) = 0 ∧ 1 < leq.max a.lbDefLevel b.lbDefLevel

def Spoils (leq : LevelComparator) (a b c : Label) : Prop :=
  SpoilsAt leq (labelGetLevel a 0) a.lbDefLevel (labelGetLevel b 0) b.lbDefLevel
    (labelGetLevel c 0) c.lbDefLevel

theorem MaxOf.comm {d' : Label} (hd : MaxOf leq a b d) (hd' : MaxOf leq b a d') : SameLevels d d' := by
  intro h
  by_cases h0 : h = 0
  · rw [h0, hd.zero, hd'.zero, hd.defLevel, hd'.defLevel, leq.max_comm b.lbDefLevel,
      leq.max_comm (labelGetLevel b 0)]
  · rw [hd.level h h0, hd'.level h h0, leq.max_comm]

theorem MaxOf.idem (hd : MaxOf leq a a d) : SameLevels d a := by
  intro h
  by_cases h0 : h = 0
  · rw [h0, hd.zero, hd.defLevel, leq.max_self, leq.max_self, zeroLevel]
    split_ifs with hz
    · rw [hz, defLevel_of_level_zero hz]
    · rfl
  · rw [hd.level h h0, leq.max_self]

theorem MaxOf.assoc_iff {ab bc d' : Label} (ha : WellFormed a) (hb : WellFormed b)
    (hc : WellFormed c) (hab : MaxOf leq a b ab) (hbc : MaxOf leq b c bc) (hd : MaxOf leq ab c d)
    (hd' : MaxOf leq a bc d') : SameLevels d d' ↔ ¬ Spoils leq a b c ∧ ¬ Spoils leq b c a := by
  have hzero : labelGetLevel d 0 = labelGetLevel d' 0 ↔
      ¬ Spoils leq a b c ∧ ¬ Spoils leq b c a := by
    rw [hd.zero, hd'.zero, hd.defLevel, hd'.defLevel, hab.zero, hbc.zero, hab.defLevel,
      hbc.defLevel]
    exact zero_assoc defLevel_of_level_zero defLevel_of_level_zero defLevel_of_level_zero
      (level_le ha 0) (level_le hb 0) (level_le hc 0) ha.defLevel_le hb.defLevel_le hc.defLevel_le
  refine ⟨fun h ↦ hzero.mp (h 0), fun hcond h ↦ ?_⟩
  by_cases h0 : h = 0
  · rw [h0]
    exact hzero.mpr hcond
  · rw [hd.level h h0, hd'.level h h0, hab.level h h0, hbc.level h h0, leq.max_assoc]

/-- The result reads at handle 0 at least the maximum, also where the default
stands in for it. -/
theorem MaxOf.cmp_le (hd : MaxOf leq a b d) (h : Nat) :
    leq.cmp (leq.max (labelGetLevel a h) (labelGetLevel b h)) (labelGetLevel d h) = true := by
  by_cases h0 : h = 0
  · subst h0
    rw [hd.zero, zeroLevel]
    split_ifs with hm
    · rw [hm, hd.defLevel]
      cases leq with
      | starlo =>
        have ha := @defLevel_of_level_zero a
        have hb := @defLevel_of_level_zero b
        rw [cmp_starlo_eq]
        simp only [starlo_max_eq] at *
        grind
      | starhi =>
        rw [max_starhi_zero defLevel_of_level_zero defLevel_of_level_zero hm]
        rfl
    · exact leq.cmp_refl _
  · rw [hd.level h h0]
    exact leq.cmp_refl _

/-- The label that is 1 at handle 0 and 3 at every other one. -/
theorem exists_low_bound : ∃ u, BuiltFit u ∧ ∀ h, labelGetLevel u h = if h = 0 then 1 else 3 := by
  obtain ⟨u, hu⟩ : ∃ u, labelSet32 plentyEnv (labelAlloc 3) 0 1 = .ok u := ⟨_, rfl⟩
  have hfit : SlotsFit (labelAlloc 3) 0 := by
    show numLbEntInline + 0 * numLbEntPerPage < 2 ^ 31
    decide
  have hwf : WellFormed (labelAlloc 3) := labelAlloc_wf (by decide)
  refine ⟨u, .set (.alloc (by decide)) hfit (by decide) (by decide) hu, fun h ↦ ?_⟩
  rw [labelSet32_eq hfit hwf.fits] at hu
  rw [(labelSet_spec hwf (by decide) (by decide) hu).2.2 h]
  rfl

theorem not_isJoin_of_raised (ha : WellFormed a) (hb : WellFormed b) (hna : a.lbNent ≤ 2 ^ 31)
    (hnb : b.lbNent ≤ 2 ^ 31) (hd : MaxOf leq a b d) (hr : Raised leq a b) :
    ¬ IsJoin leq a b d := by
  intro hj
  obtain ⟨rfl, hstar, ha0, hb0⟩ :=
    raised_starlo defLevel_of_level_zero defLevel_of_level_zero hr.1 hr.2
  obtain ⟨u, hu, hlev⟩ := exists_low_bound
  obtain ⟨hwu, hnu⟩ := hu.wellFormed (fun _ _ h ↦ h) fun _ _ h ↦ h
  have hbound : ∀ {l : Label}, WellFormed l → l.lbNent ≤ 2 ^ 31 →
      labelGetLevel l 0 = 0 ∨ labelGetLevel l 0 = lbLevelStar →
      labelCompareAll l u .starlo = .ok () := by
    intro l hl hn hl0
    rw [compare_iff hl hwu hn hnu]
    intro h
    have hle := level_le hl h
    rw [cmp_starlo_eq, hlev]
    simp only [lbLevelStar] at hle hl0
    split_ifs with h0
    · rw [h0]
      omega
    · omega
  have hdu := labelCompareAll_sound (hj.least u hu (hbound ha hna ha0) (hbound hb hnb hb0)) 0
  rw [cmp_starlo_eq, hlev, hd.zero, hr.1, hd.defLevel] at hdu
  have hgt := hr.2
  simp only [zeroLevel, lbLevelStar, ↓reduceIte] at hdu hstar
  omega

/-- A bound that reads 0 at handle 0 has default 0, and then so have both labels
below it; otherwise it reads at least 1 there. -/
theorem default_le_bound {u : Label} (hm : leq.max (labelGetLevel a 0) (labelGetLevel b 0) = 0)
    (hr : ¬ Raised leq a b) (hu : leq.cmp 0 (labelGetLevel u 0) = true)
    (had : leq.cmp a.lbDefLevel u.lbDefLevel = true)
    (hbd : leq.cmp b.lbDefLevel u.lbDefLevel = true) :
    leq.cmp (leq.max a.lbDefLevel b.lbDefLevel) (labelGetLevel u 0) = true := by
  have hle : leq.max a.lbDefLevel b.lbDefLevel ≤ 1 := by
    by_contra hlt
    exact hr ⟨hm, by omega⟩
  have hdef := leq.max_cmp had hbd
  by_cases hD : leq.max a.lbDefLevel b.lbDefLevel = 0
  · rwa [hD]
  have hD1 : leq.max a.lbDefLevel b.lbDefLevel = 1 := by omega
  rw [hD1] at hdef ⊢
  have hu0 : labelGetLevel u 0 ≠ 0 := fun h0 ↦ by
    rw [defLevel_of_level_zero h0] at hdef
    cases leq <;> cases hdef
  cases leq with
  | starlo =>
    rw [cmp_starlo_eq] at hu ⊢
    omega
  | starhi =>
    rw [cmp_starhi_eq] at hu ⊢
    omega

theorem isJoin_of_not_raised (ha : WellFormed a) (hb : WellFormed b) (hna : a.lbNent ≤ 2 ^ 31)
    (hnb : b.lbNent ≤ 2 ^ 31) (hd : MaxOf leq a b d) (hnd : d.lbNent ≤ 2 ^ 31)
    (hr : ¬ Raised leq a b) : IsJoin leq a b d := by
  refine ⟨?_, ?_, fun u hu hau hbu ↦ ?_⟩
  · rw [compare_iff ha hd.wf hna hnd]
    exact fun h ↦ leq.cmp_trans (leq.cmp_max _ _).1 (hd.cmp_le h)
  · rw [compare_iff hb hd.wf hnb hnd]
    exact fun h ↦ leq.cmp_trans (leq.cmp_max _ _).2 (hd.cmp_le h)
  obtain ⟨hwu, hnu⟩ := hu.wellFormed (fun _ _ h ↦ h) fun _ _ h ↦ h
  have had := labelCompareAll_defLevel hau
  have hbd := labelCompareAll_defLevel hbu
  rw [compare_iff ha hwu hna hnu] at hau
  rw [compare_iff hb hwu hnb hnu] at hbu
  rw [compare_iff hd.wf hwu hnd hnu]
  intro h
  have hmax := leq.max_cmp (hau h) (hbu h)
  by_cases h0 : h = 0
  · subst h0
    rw [hd.zero, zeroLevel]
    split_ifs with hm
    · rw [hm] at hmax
      rw [hd.defLevel]
      exact default_le_bound hm hr hmax had hbd
    · exact hmax
  · rw [hd.level h h0]
    exact hmax

/-- `label_max` computes the least upper bound and is an idempotent, commutative
and associative operation on the labels `a`, `b` and `c`, exactly when no maximum
0 at handle 0 is replaced by a default that shows: none above 1 for `a` and `b`,
and none that the third label tells apart. -/
theorem label_max_join (henv : env.NoFailure) (ha : BuiltFit a) (hb : BuiltFit b) (hc : BuiltFit c)
    (hS : (a.handles ∪ b.handles ∪ c.handles).card ≤ 2 ^ 31) :
    ((∃ d, labelMax32 env a b leq = .ok d ∧
      (∀ h, h ≠ 0 → labelGetLevel d h = leq.max (labelGetLevel a h) (labelGetLevel b h)) ∧
      IsJoin leq a b d) ∧
    (∃ d d', labelMax32 env a b leq = .ok d ∧ labelMax32 env b a leq = .ok d' ∧ SameLevels d d') ∧
    (∃ ab bc d d', labelMax32 env a b leq = .ok ab ∧ labelMax32 env ab c leq = .ok d ∧
      labelMax32 env b c leq = .ok bc ∧ labelMax32 env a bc leq = .ok d' ∧ SameLevels d d') ∧
    ∃ d, labelMax32 env a a leq = .ok d ∧ SameLevels d a) ↔
      ¬ Raised leq a b ∧ ¬ Spoils leq a b c ∧ ¬ Spoils leq b c a := by
  obtain ⟨hwa, hna⟩ := ha.wellFormed (fun _ _ h ↦ h) fun _ _ h ↦ h
  obtain ⟨hwb, hnb⟩ := hb.wellFormed (fun _ _ h ↦ h) fun _ _ h ↦ h
  obtain ⟨hwc, -⟩ := hc.wellFormed (fun _ _ h ↦ h) fun _ _ h ↦ h
  have hfit : ∀ {T : Finset Nat}, T ⊆ a.handles ∪ b.handles ∪ c.handles → T.card ≤ 2 ^ 31 :=
    fun hT ↦ (Finset.card_le_card hT).trans hS
  have hA : a.handles ⊆ a.handles ∪ b.handles ∪ c.handles :=
    Finset.subset_union_left.trans Finset.subset_union_left
  have hsub : b.handles ∪ c.handles ⊆ a.handles ∪ b.handles ∪ c.handles :=
    Finset.union_subset_union_left Finset.subset_union_right
  obtain ⟨ab, hab, hmab⟩ := labelMax32_maxOf leq henv hwa hwb (hfit Finset.subset_union_left)
  obtain ⟨ba, hba, hmba⟩ := labelMax32_maxOf leq henv hwb hwa
    (hfit (Finset.union_comm b.handles a.handles ▸ Finset.subset_union_left))
  obtain ⟨bc, hbc, hmbc⟩ := labelMax32_maxOf leq henv hwb hwc (hfit hsub)
  obtain ⟨aa, haa, hmaa⟩ := labelMax32_maxOf leq henv hwa hwa
    (hfit (Finset.union_subset hA hA))
  obtain ⟨x, hx, hmx⟩ := labelMax32_maxOf leq henv hmab.wf hwc
    (hfit (Finset.union_subset_union_left hmab.handles))
  obtain ⟨y, hy, hmy⟩ := labelMax32_maxOf leq henv hwa hmbc.wf
    (hfit (Finset.union_assoc a.handles _ _ ▸ Finset.union_subset_union_right hmbc.handles))
  have hassoc := MaxOf.assoc_iff hwa hwb hwc hmab hmbc hmx hmy
  constructor
  · rintro ⟨⟨d, hd, -, hjoin⟩, -, ⟨ab', bc', d₁, d₂, h1, h2, h3, h4, hsame⟩, -⟩
    cases hab.symm.trans hd
    cases hab.symm.trans h1
    cases hbc.symm.trans h3
    cases hx.symm.trans h2
    cases hy.symm.trans h4
    exact ⟨fun hr ↦ not_isJoin_of_raised hwa hwb hna hnb hmab hr hjoin, hassoc.mp hsame⟩
  · rintro ⟨hr, hspoil⟩
    have hnab : ab.lbNent ≤ 2 ^ 31 := hmab.nent.trans (hfit Finset.subset_union_left)
    exact ⟨⟨ab, hab, hmab.level, isJoin_of_not_raised hwa hwb hna hnb hmab hnab hr⟩,
      ⟨ab, ba, hab, hba, hmab.comm hmba⟩, ⟨ab, bc, x, y, hab, hx, hbc, hy, hassoc.mpr hspoil⟩,
      aa, haa, hmaa.idem⟩

end

/-- Three labels with entries, one of them for handle 0. -/
theorem label_max_join_entries : ∃ a b c, labelSet32 plentyEnv (labelAlloc 1) 0 3 = .ok a ∧
    labelSet32 plentyEnv (labelAlloc 2) 5 4 = .ok b ∧
    labelSet32 plentyEnv (labelAlloc 0) 7 3 = .ok c ∧
    (((∃ d, labelMax32 plentyEnv a b .starlo = .ok d ∧
      (∀ h, h ≠ 0 → labelGetLevel d h = starlo.max (labelGetLevel a h) (labelGetLevel b h)) ∧
      IsJoin .starlo a b d) ∧
    (∃ d d', labelMax32 plentyEnv a b .starlo = .ok d ∧ labelMax32 plentyEnv b a .starlo = .ok d' ∧
      SameLevels d d') ∧
    (∃ ab bc d d', labelMax32 plentyEnv a b .starlo = .ok ab ∧
      labelMax32 plentyEnv ab c .starlo = .ok d ∧ labelMax32 plentyEnv b c .starlo = .ok bc ∧
      labelMax32 plentyEnv a bc .starlo = .ok d' ∧ SameLevels d d') ∧
    ∃ d, labelMax32 plentyEnv a a .starlo = .ok d ∧ SameLevels d a) ↔
      ¬ Raised .starlo a b ∧ ¬ Spoils .starlo a b c ∧ ¬ Spoils .starlo b c a) ∧
    ¬ Raised .starlo a b ∧ ¬ Spoils .starlo a b c ∧ ¬ Spoils .starlo b c a := by
  have hset : ∀ (d h lv : Nat) {l : Label}, d ≤ lbLevelStar → h < 2 ^ 61 → lv ≤ lbLevelStar →
      labelSet32 plentyEnv (labelAlloc d) h lv = .ok l → BuiltFit l :=
    fun _ _ _ _ hd hh hlv hok ↦ .set (.alloc hd) (show numLbEntInline + 0 * numLbEntPerPage < 2 ^ 31 by
      decide) hh hlv hok
  exact ⟨_, _, _, rfl, rfl, rfl, label_max_join plentyEnv_noFailure
      (hset 1 0 3 (by decide) (by decide) (by decide) rfl)
      (hset 2 5 4 (by decide) (by decide) (by decide) rfl)
      (hset 0 7 3 (by decide) (by decide) (by decide) rfl) (by decide),
    by unfold Raised; decide, by unfold Spoils SpoilsAt; decide,
    by unfold Spoils SpoilsAt; decide⟩

/-- The level 0 at handle 0 has the code of an empty slot. The maximum of a
star there and the default 0 falls back to the default 3 of the result, which is
above the bound 1. -/
theorem label_max_not_least : ∃ a u d, BuiltAny a ∧ BuiltAny (labelAlloc 0) ∧ BuiltAny u ∧
    labelMax32 plentyEnv a (labelAlloc 0) .starlo = .ok d ∧
    labelCompareAll a u .starlo = .ok () ∧ labelCompareAll (labelAlloc 0) u .starlo = .ok () ∧
    labelCompareAll d u .starlo = .error .label := by
  have hset : ∀ lv, lv ≤ lbLevelStar → ∀ l, labelSet32 plentyEnv (labelAlloc 3) 0 lv = .ok l →
      BuiltAny l :=
    fun lv hlv l hok ↦ .set (.alloc (by decide)) trivial (by decide) hlv hok
  exact ⟨_, _, _, hset 4 le_rfl _ rfl, .alloc (by decide), hset 1 (by decide) _ rfl, rfl, rfl, rfl,
    rfl⟩

end HiStar.Iflow
