import HiStar.Iflow.Compare

namespace HiStar.Iflow

open Lib

variable {l : Label} {h i n : Nat}

/-- A search that comes by nothing but used slots of other handles below
`2 ^ 31` ends without a slot, whatever lies above. -/
theorem labelSetScan32_neg {s : Int} (hs : s < 0) (hn : i + n < 2 ^ 32)
    (hlow : ∀ j, i ≤ j → j < i + n → j < 2 ^ 31 → l.slot j ≠ 0 ∧ slotHas l h j = false) :
    labelSetScan32 l h i n s < 0 := by
  induction n generalizing i s with
  | zero => exact hs
  | succ n ih =>
    have hrest : ∀ j, i + 1 ≤ j → j < i + 1 + n → j < 2 ^ 31 →
        l.slot j ≠ 0 ∧ slotHas l h j = false :=
      fun j h1 h2 ↦ hlow j (by omega) (by omega)
    simp only [labelSetScan32]
    by_cases hi : i < 2 ^ 31
    · obtain ⟨h1, h2⟩ := hlow i le_rfl (by omega) hi
      simp only [h1, h2, false_and, ↓reduceIte, Bool.false_eq_true]
      exact ih hs (by omega) hrest
    · have hneg : toInt32 i < 0 := toInt32_neg (by omega) (by omega)
      split
      · exact ih hneg (by omega) hrest
      · split
        · exact hneg
        · exact ih hs (by omega) hrest

/-- Handles 1, 2, ... fill the first slots; the pages are as `label_set` grows
them. -/
structure Filled (n : Nat) (l : Label) : Prop where
  defLevel : l.lbDefLevel = 1
  nent : l.lbNent = n
  nslots_ge : n ≤ labelNslots l
  nslots_le : labelNslots l ≤ n + 512
  slot : ∀ i, l.slot i = if i < n then lbCode (i + 1) 2 else 0

abbrev BuiltAny : Label → Prop := Built (fun _ _ ↦ True) fun _ _ ↦ True

theorem labelNslots_addPage (l : Label) : labelNslots l.addPage = labelNslots l + 512 := by
  simp only [labelNslots, Label.addPage, numLbEntPerPage]
  omega

theorem labelNslots_mod (l : Label) : labelNslots l % 512 = 32 := by
  simp only [labelNslots, numLbEntInline, numLbEntPerPage]
  omega

theorem low_code (hi : i < 2 ^ 31) :
    lbCode (i + 1) 2 ≠ 0 ∧ lbHandle (lbCode (i + 1) 2) = i + 1 ∧ lbLevel (lbCode (i + 1) 2) = 2 := by
  have hlt : i + 1 < 2 ^ 61 := by omega
  refine ⟨?_, lbHandle_code hlt 2, lbLevel_code hlt 2⟩
  rw [Ne, lbCode_eq_zero hlt]
  omega

theorem slotHas_eq_false (hne : lbHandle (l.slot i) ≠ h) : slotHas l h i = false := by
  simp [slotHas, hne]

theorem Filled.scan_neg (hl : Filled n l) (hn : n ≤ 2 ^ 31) (hh : n < h) :
    labelSetScan32 l h 0 l.lbNent (-1) < 0 := by
  refine labelSetScan32_neg (by decide) (by rw [hl.nent]; omega) fun j _ hj _ ↦ ?_
  rw [hl.nent, Nat.zero_add] at hj
  obtain ⟨h1, h2, -⟩ := low_code (i := j) (by omega)
  have hs : l.slot j = lbCode (j + 1) 2 := by rw [hl.slot, if_pos hj]
  exact ⟨hs ▸ h1, slotHas_eq_false (by rw [hs]; omega)⟩

theorem addPage_slot_of_zero (hz : ∀ j, labelNslots l ≤ j → l.slot j = 0) (i : Nat) :
    l.addPage.slot i = l.slot i := by
  rw [slot_addPage]
  split_ifs with h
  · exact (hz i h.1).symm
  · rfl

theorem Filled.put {l' : Label} (hd : l.lbDefLevel = 1) (hent : l.lbNent = n)
    (hge : n < labelNslots l) (hle : labelNslots l ≤ n + 512)
    (hs : ∀ i, l.slot i = if i < n then lbCode (i + 1) 2 else 0)
    (hok : labelPut plentyEnv l n (n + 1) 2 = .ok l') : Filled (n + 1) l' := by
  obtain ⟨h1, h2, h3, h4⟩ := labelPut_ok hok
  have hns : labelNslots l' = labelNslots l := by simp only [labelNslots, h2]
  refine ⟨h1.trans hd, by omega, by omega, by omega, fun i ↦ ?_⟩
  rw [h4, hd]
  rcases Nat.lt_trichotomy i n with hlt | rfl | hgt
  · simp [hs, hlt, hlt.ne, Nat.lt_succ_of_lt hlt]
  · simp
  · simp [hs, hgt.ne', show ¬ i < n by omega, show ¬ i < n + 1 by omega]

theorem labelSet32_grow {lv : Nat} (hscan : labelSetScan32 l h 0 l.lbNent (-1) < 0)
    (hnext : l.lbNent < labelNslots l → toInt32 l.lbNent < 0) (hlt : labelNslots l < 2 ^ 32) :
    labelSet32 plentyEnv l h lv = labelPut plentyEnv l.addPage (labelNslots l) h lv := by
  have hneg : (if labelSetScan32 l h 0 l.lbNent (-1) < 0 ∧ l.lbNent < labelNslots l then
      toInt32 l.lbNent else labelSetScan32 l h 0 l.lbNent (-1)) < 0 := by
    split
    next hc => exact hnext hc.2
    next => exact hscan
  simp only [labelSet32, Nat.mod_eq_of_lt hlt, hneg, ↓reduceIte]
  rfl

theorem Filled.step (hl : Filled n l) (hn : n < 2 ^ 31) :
    ∃ l', labelSet32 plentyEnv l (n + 1) 2 = .ok l' ∧ Filled (n + 1) l' := by
  have hscan := hl.scan_neg hn.le (Nat.lt_succ_self n)
  have h1 := hl.nslots_ge
  have h2 := hl.nslots_le
  have hmod : labelNslots l % 2 ^ 32 = labelNslots l := Nat.mod_eq_of_lt (by omega)
  by_cases hlt : n < labelNslots l
  · obtain ⟨l', hok⟩ := labelPut_succeeds plentyEnv_noFailure l n (n + 1) 2
      (.inl (by simp [hl.slot]))
    refine ⟨l', ?_, Filled.put hl.defLevel hl.nent hlt h2 hl.slot hok⟩
    have hpos : ¬ ((n : Int) < 0) := by omega
    simp only [labelSet32, hmod, hl.nent, hlt, hl.nent ▸ hscan, and_self, ↓reduceIte,
      toInt32_of_lt hn, hpos, Int.toNat_natCast, hok]
  · have heq : labelNslots l = n := by omega
    have hz : ∀ j, labelNslots l ≤ j → l.slot j = 0 := fun j hj ↦ by
      rw [hl.slot, if_neg (by omega)]
    have hs : ∀ i, l.addPage.slot i = if i < n then lbCode (i + 1) 2 else 0 := fun i ↦ by
      rw [addPage_slot_of_zero hz, hl.slot]
    obtain ⟨l', hok⟩ := labelPut_succeeds plentyEnv_noFailure l.addPage n (n + 1) 2
      (.inl (by simp [hs]))
    have hp := labelNslots_addPage l
    refine ⟨l', ?_, Filled.put (l := l.addPage) hl.defLevel hl.nent (by omega) (by omega) hs hok⟩
    have hent := hl.nent
    rw [labelSet32_grow hscan (by omega) (by omega), heq, hok]

theorem exists_filled (hn : n ≤ 2 ^ 31) : ∃ l, BuiltAny l ∧ Filled n l := by
  induction n with
  | zero =>
    refine ⟨labelAlloc 1, .alloc (by decide), rfl, rfl, Nat.zero_le _, by decide, fun i ↦ ?_⟩
    simp [labelAlloc_slot]
  | succ n ih =>
    obtain ⟨l, hb, hl⟩ := ih (by omega)
    obtain ⟨l', hok, hl'⟩ := hl.step (by omega)
    exact ⟨l', .set hb trivial (by omega) (by decide) hok, hl'⟩

theorem labelCompareAll_ent {l1 l2 : Label} {c : LevelComparator}
    (h : labelCompareAll l1 l2 c = .ok ()) (hi : i < l1.lbNent) (hne : l1.slot i ≠ 0) :
    c.cmp (lbLevel (l1.slot i)) (labelGetLevel l2 (lbHandle (l1.slot i))) = true := by
  unfold labelCompareAll at h
  split at h
  · cases h
  next h1 =>
    exact labelCompareEnt_ok (forFrom_ok.mp h1 i (Nat.zero_le _) (by omega))
      (slotHas_iff.mpr ⟨hne, rfl⟩)

/-- The low slots are taken by other handles than `g`, those past the pages are
empty. -/
structure Large (g : Nat) (l : Label) : Prop where
  defLevel : l.lbDefLevel = 1
  nent_ge : 2 ^ 31 ≤ l.lbNent
  nent_le : l.lbNent ≤ labelNslots l
  low : ∀ i, i < 2 ^ 31 → l.slot i = lbCode (i + 1) 2
  tail : ∀ i, labelNslots l ≤ i → l.slot i = 0
  handle : 2 ^ 31 < g

theorem Large.low_used {g : Nat} (hl : Large g l) (hi : i < 2 ^ 31) :
    l.slot i ≠ 0 ∧ lbHandle (l.slot i) = i + 1 ∧ lbLevel (l.slot i) = 2 := by
  rw [hl.low i hi]
  exact low_code hi

theorem Large.set {g : Nat} (hl : Large g l) (lv : Nat) (hlv : lv ≠ 1)
    (hns : labelNslots l + 512 < 2 ^ 32) :
    ∃ l', labelSet32 plentyEnv l g lv = .ok l' ∧ Large g l' ∧ l'.lbNent = labelNslots l + 1 ∧
      labelNslots l' = labelNslots l + 512 ∧
      ∀ i, l'.slot i = if i = labelNslots l then lbCode g lv else l.slot i := by
  have h1 := hl.nent_ge
  have h2 := hl.nent_le
  have hg := hl.handle
  have hs := addPage_slot_of_zero hl.tail
  obtain ⟨l', hok⟩ := labelPut_succeeds plentyEnv_noFailure l.addPage (labelNslots l) g lv
    (.inl (by rw [hs, hl.tail _ le_rfl]))
  have hscan : labelSetScan32 l g 0 l.lbNent (-1) < 0 := by
    refine labelSetScan32_neg (by decide) (by omega) fun j _ _ hj ↦ ?_
    obtain ⟨h3, h4, -⟩ := hl.low_used hj
    exact ⟨h3, slotHas_eq_false (by omega)⟩
  obtain ⟨hd', hp', hn', hs'⟩ := labelPut_ok hok
  have hdef : l.addPage.lbDefLevel = 1 := hl.defLevel
  have hent : l.addPage.lbNent = l.lbNent := rfl
  have hns' : labelNslots l' = labelNslots l + 512 := by
    rw [← labelNslots_addPage l]
    simp only [labelNslots, hp']
  have hslot : ∀ i, l'.slot i = if i = labelNslots l then lbCode g lv else l.slot i := fun i ↦ by
    rw [hs', hs, hdef, if_neg hlv]
  refine ⟨l', ?_, ⟨hd'.trans hdef, by omega, by omega, fun i hi ↦ ?_, fun i hi ↦ ?_, hg⟩, by omega,
    hns', hslot⟩
  · rw [labelSet32_grow hscan (fun _ ↦ toInt32_neg h1 (by omega)) (by omega), hok]
  · rw [hslot, if_neg (by omega), hl.low i hi]
  · rw [hslot, if_neg (by omega), hl.tail i (by omega)]

theorem exists_doubled : ∃ l, BuiltAny l ∧ Large (2 ^ 31 + 1) l ∧ l.lbNent = 2 ^ 31 + 545 ∧
    ∀ i, l.slot i = if i = 2 ^ 31 + 544 then lbCode (2 ^ 31 + 1) 3
      else if i = 2 ^ 31 + 32 then lbCode (2 ^ 31 + 1) 0
      else if i < 2 ^ 31 then lbCode (i + 1) 2 else 0 := by
  obtain ⟨l, hb, hl⟩ := exists_filled (n := 2 ^ 31) le_rfl
  have h1 := hl.nslots_ge
  have h2 := hl.nslots_le
  have h3 := labelNslots_mod l
  have hent := hl.nent
  have hns : labelNslots l = 2 ^ 31 + 32 := by omega
  have hlarge : Large (2 ^ 31 + 1) l :=
    ⟨hl.defLevel, by omega, by omega, fun i hi ↦ by rw [hl.slot, if_pos hi],
      fun i hi ↦ by rw [hl.slot, if_neg (by omega)], by omega⟩
  obtain ⟨l₁, hok₁, hl₁, -, hns₁, hs₁⟩ := hlarge.set 0 (by decide) (by omega)
  obtain ⟨l₂, hok₂, hl₂, hn₂, -, hs₂⟩ := hl₁.set 3 (by decide) (by omega)
  refine ⟨l₂, ?_, hl₂, by omega, fun i ↦ ?_⟩
  · exact .set (.set hb trivial (by omega) (by decide) hok₁) trivial (by omega) (by decide) hok₂
  · rw [hs₂, hs₁, hl.slot, hns₁, hns]

/-- A label of `2 ^ 31 + 2` entries that is below the default label 2 at every
handle and does not compare as such: the second entry of the last handle is
visited by `label_compare` and not by `label_get_level`. -/
theorem large_label_not_decided : ∃ l1 l2, BuiltAny l1 ∧ BuiltAny l2 ∧
    (∀ h, h < 2 ^ 61 →
      LevelComparator.starlo.cmp (labelGetLevel l1 h) (labelGetLevel l2 h) = true) ∧
    labelCompareAll l1 l2 .starlo ≠ .ok () := by
  obtain ⟨l, hb, hl, hent, hs⟩ := exists_doubled
  have hg : 2 ^ 31 + 1 < 2 ^ 61 := by decide
  have hfirst : l.slot (2 ^ 31 + 32) = lbCode (2 ^ 31 + 1) 0 := by simp [hs]
  have hlast : l.slot (2 ^ 31 + 544) = lbCode (2 ^ 31 + 1) 3 := by simp [hs]
  have hne : ∀ lv, lbCode (2 ^ 31 + 1) lv ≠ 0 := fun lv ↦ by
    rw [Ne, lbCode_eq_zero hg]
    omega
  refine ⟨l, labelAlloc 2, hb, .alloc (by decide), fun h _ ↦ ?_, fun hok ↦ ?_⟩
  · rw [labelAlloc_level]
    suffices hle : labelGetLevel l h = 0 ∨ labelGetLevel l h = 1 ∨ labelGetLevel l h = 2 by
      rcases hle with he | he | he <;> rw [he] <;> decide
    unfold labelGetLevel
    cases hf : findFrom (slotHas l h) 0 l.lbNent with
    | none => exact .inr (.inl hl.defLevel)
    | some i =>
      obtain ⟨-, hi, hhas, hbefore⟩ := findFrom_some hf
      obtain ⟨hnz, hh⟩ := slotHas_iff.mp hhas
      simp only
      by_cases hlow : i < 2 ^ 31
      · exact .inr (.inr (hl.low_used hlow).2.2)
      by_cases hmid : i = 2 ^ 31 + 32
      · rw [hmid, hfirst, lbLevel_code hg]
        exact .inl rfl
      by_cases htop : i = 2 ^ 31 + 544
      · -- the earlier entry of the same handle would have been found first
        rw [htop, hlast, lbHandle_code hg] at hh
        have := hbefore (2 ^ 31 + 32) (by omega) (by omega)
        rw [← hh, Bool.eq_false_iff, Ne, slotHas_iff, hfirst, lbHandle_code hg] at this
        exact absurd ⟨hne 0, rfl⟩ this
      · rw [hs, if_neg htop, if_neg hmid, if_neg hlow] at hnz
        exact absurd rfl hnz
  · have hcmp := labelCompareAll_ent hok (i := 2 ^ 31 + 544) (by omega) (hlast ▸ hne 3)
    rw [hlast, lbLevel_code hg, lbHandle_code hg, labelAlloc_level] at hcmp
    exact absurd hcmp (by decide)

end HiStar.Iflow
