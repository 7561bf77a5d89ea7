import HiStar.Iflow.Label

namespace HiStar.Iflow

open Lib Function

/-- The search of `label_set`: the slot of the handle if it has one, else the
first empty slot. -/
def labelSetScan (l : Label) (handle : Nat) : Nat → Nat → Option Nat → Option Nat
  | _, 0, slotIdx => slotIdx
  | i, n + 1, slotIdx =>
    if l.slot i = 0 ∧ slotIdx = none then labelSetScan l handle (i + 1) n (some i)
    else if slotHas l handle i then some i
    else labelSetScan l handle (i + 1) n slotIdx

def Label.extend (l : Label) (slotnum : Nat) : Label :=
  if slotnum ≥ l.lbNent then { l with lbNent := slotnum + 1 } else l

theorem extend_fields (l : Label) (i : Nat) :
    (l.extend i).lbDefLevel = l.lbDefLevel ∧ (l.extend i).npages = l.npages ∧
    (l.extend i).lbNent = max l.lbNent (i + 1) ∧ ∀ j, (l.extend i).slot j = l.slot j := by
  unfold Label.extend
  split_ifs with hi
  · exact ⟨rfl, rfl, by simp only; omega, fun j ↦ rfl⟩
  · exact ⟨rfl, rfl, by omega, fun j ↦ rfl⟩

def labelGetSlotpWrite (env : MemEnv) (l : Label) (slotnum : Nat) : Except Errno Label :=
  if slotnum < numLbEntInline then .ok (l.extend slotnum)
  else
    match env.kobjectGetPage ((slotnum - numLbEntInline) / numLbEntPerPage) with
    | .ok () => .ok (l.extend slotnum)
    | .error e => .error e

variable {env : MemEnv} {l l' : Label} {i h : Nat}

theorem labelGetSlotpWrite_ok (h : labelGetSlotpWrite env l i = .ok l') : l' = l.extend i := by
  unfold labelGetSlotpWrite at h
  split at h
  · exact (Except.ok.inj h).symm
  · split at h
    · exact (Except.ok.inj h).symm
    · cases h

def labelPut (env : MemEnv) (l : Label) (slotIdx handle level : Nat) : Except Errno Label :=
  match labelGetSlotpWrite env l slotIdx with
  | .error e => .error e
  | .ok l' =>
    if l'.slot slotIdx = 0 ∨ lbHandle (l'.slot slotIdx) = handle then
      .ok (l'.setSlot slotIdx (if level = l.lbDefLevel then 0 else lbCode handle level))
    else .error .panic

def labelSet (env : MemEnv) (l : Label) (handle level : Nat) : Except Errno Label :=
  match labelSetScan l handle 0 l.lbNent none with
  | some slotIdx => labelPut env l slotIdx handle level
  | none =>
    if l.lbNent < labelNslots l then labelPut env l l.lbNent handle level
    else
      match env.kobjectSetNbytes (l.npages + 1) with
      | .ok () => labelPut env l.addPage (labelNslots l) handle level
      | .error e => .error e

theorem labelSetScan_spec {n : Nat} (idx : Option Nat) :
    (∃ j, i ≤ j ∧ j < i + n ∧ labelSetScan l h i n idx = some j ∧ slotHas l h j = true) ∨
    ((∀ j, i ≤ j → j < i + n → slotHas l h j = false) ∧
      (labelSetScan l h i n idx = idx ∨
        ∃ j, i ≤ j ∧ j < i + n ∧ l.slot j = 0 ∧ labelSetScan l h i n idx = some j)) := by
  induction n generalizing i idx with
  | zero => exact Or.inr ⟨fun j h1 h2 ↦ by omega, Or.inl rfl⟩
  | succ n ih =>
    simp only [labelSetScan]
    by_cases h0 : l.slot i = 0 ∧ idx = none
    · rw [if_pos h0]
      have hi : slotHas l h i = false := by simp [slotHas, h0.1]
      rcases ih (i := i + 1) (some i) with ⟨j, h1, h2, h3, h4⟩ | ⟨hn, hres⟩
      · exact Or.inl ⟨j, by omega, by omega, h3, h4⟩
      · refine Or.inr ⟨fun j hj hjn ↦ ?_, Or.inr ?_⟩
        · rcases Nat.eq_or_lt_of_le hj with rfl | hlt
          · exact hi
          · exact hn j hlt (by omega)
        · rcases hres with hres | ⟨j, h1, h2, h3, h4⟩
          · exact ⟨i, le_rfl, by omega, h0.1, hres⟩
          · exact ⟨j, by omega, by omega, h3, h4⟩
    · rw [if_neg h0]
      by_cases hs : slotHas l h i = true
      · rw [if_pos hs]
        exact Or.inl ⟨i, le_rfl, by omega, rfl, hs⟩
      · rw [if_neg hs]
        rcases ih (i := i + 1) idx with ⟨j, h1, h2, h3, h4⟩ | ⟨hn, hres⟩
        · exact Or.inl ⟨j, by omega, by omega, h3, h4⟩
        · refine Or.inr ⟨fun j hj hjn ↦ ?_, ?_⟩
          · rcases Nat.eq_or_lt_of_le hj with rfl | hlt
            · simpa using hs
            · exact hn j hlt (by omega)
          · rcases hres with hres | ⟨j, h1, h2, h3, h4⟩
            · exact Or.inl hres
            · exact Or.inr ⟨j, by omega, by omega, h3, h4⟩

theorem labelPut_ok {lv : Nat} (hok : labelPut env l i h lv = .ok l') :
    l'.lbDefLevel = l.lbDefLevel ∧ l'.npages = l.npages ∧ l'.lbNent = max l.lbNent (i + 1) ∧
    ∀ j, l'.slot j = if j = i then (if lv = l.lbDefLevel then 0 else lbCode h lv) else l.slot j := by
  obtain ⟨h1, h2, h3, h4⟩ := extend_fields l i
  unfold labelPut at hok
  cases hg : labelGetSlotpWrite env l i with
  | error e => simp [hg] at hok
  | ok l₁ =>
    rw [← labelGetSlotpWrite_ok hg] at h1 h2 h3 h4
    simp only [hg] at hok
    split at hok
    · cases hok
      refine ⟨by simp [h1], by simp [h2], by simp [h3], fun j ↦ ?_⟩
      rw [slot_setSlot, h4]
    · cases hok

section Put

variable {env : MemEnv} {l l' : Label} {i h lv : Nat}

theorem put_slotHas (hh : h < 2 ^ 61) (hi : l.slot i = 0 ∨ lbHandle (l.slot i) = h)
    (hother : ∀ j, j < l.lbNent → j ≠ i → slotHas l h j = false)
    (hslot : ∀ j, l'.slot j = if j = i then (if lv = l.lbDefLevel then 0 else lbCode h lv)
      else l.slot j) (g j : Nat) (hj : j < l.lbNent ∨ j = i) :
    slotHas l' g j = if g = h then decide (j = i ∧ lv ≠ l.lbDefLevel ∧ (h ≠ 0 ∨ lv ≠ 0))
      else slotHas l g j := by
  by_cases hji : j = i
  · subst hji
    by_cases hd : lv = l.lbDefLevel
    · by_cases hg : g = h
      · simp [slotHas, hslot, hd, hg]
      · rcases hi with hz | hz
        · simp [slotHas, hslot, hd, hg, hz]
        · simp [slotHas, hslot, hd, hg, hz, Ne.symm hg]
    · have hv : l'.slot j = lbCode h lv := by simp [hslot, hd]
      by_cases hg : g = h
      · subst hg
        simp only [slotHas, hv, lbHandle_code hh, ↓reduceIte, decide_true, Bool.and_true, true_and]
        rw [decide_eq_decide, Ne, lbCode_eq_zero hh]
        simp only [ne_eq, hd, not_false_eq_true, true_and]
        omega
      · rcases hi with hz | hz
        · simp [slotHas, hv, lbHandle_code hh, hg, Ne.symm hg, hz]
        · simp [slotHas, hv, lbHandle_code hh, hg, Ne.symm hg, hz]
  · have hjl : j < l.lbNent := hj.resolve_right hji
    have hv : l'.slot j = l.slot j := by simp [hslot, hji]
    by_cases hg : g = h
    · subst hg
      have ho := hother j hjl hji
      simp only [slotHas, hv, hji, ↓reduceIte, false_and, decide_false] at ho ⊢
      exact ho
    · simp [slotHas, hv, hg]

theorem labelPut_old (hin : i ≤ l.lbNent) (hok : labelPut env l i h lv = .ok l') (j : Nat)
    (hj : j < l'.lbNent) : j < l.lbNent ∨ j = i := by
  rw [(labelPut_ok hok).2.2.1] at hj
  omega

variable (hl : WellFormed l) (hh : h < 2 ^ 61) (hlv : lv ≤ lbLevelStar)
    (hin : i ≤ l.lbNent) (hfit : i < labelNslots l)
    (hi : l.slot i = 0 ∨ lbHandle (l.slot i) = h)
    (hother : ∀ j, j < l.lbNent → j ≠ i → slotHas l h j = false)
    (hok : labelPut env l i h lv = .ok l')

include hl hh hlv hin hfit hi hother hok

theorem labelPut_wf : WellFormed l' := by
  obtain ⟨hd, hp, hn, hslot⟩ := labelPut_ok hok
  have hhas := put_slotHas hh hi hother hslot
  have hlt := labelPut_old hin hok
  constructor
  · have hf := hl.fits
    rw [hn, labelNslots, hp]
    unfold labelNslots at hf hfit
    omega
  · rw [hd]
    exact hl.defLevel_le
  · intro j hj hne
    by_cases hji : j = i
    · rw [hslot, if_pos hji] at hne ⊢
      split_ifs at hne ⊢ with hdl
      · exact absurd rfl hne
      · rw [lbLevel_code hh]
        exact hlv
    · rw [hslot, if_neg hji] at hne ⊢
      exact hl.level_le j ((hlt j hj).resolve_right hji) hne
  · -- a handle with two slots would be `h`, which has slot `i` only, or was already there twice
    intro j k hj hk hnj hnk heq
    have hsj : slotHas l' (lbHandle (l'.slot j)) j = true := slotHas_iff.mpr ⟨hnj, rfl⟩
    have hsk : slotHas l' (lbHandle (l'.slot j)) k = true := slotHas_iff.mpr ⟨hnk, heq.symm⟩
    rw [hhas _ _ (hlt j hj)] at hsj
    rw [hhas _ _ (hlt k hk)] at hsk
    split_ifs at hsj hsk with hg
    · simp only [decide_eq_true_eq] at hsj hsk
      exact hsj.1.trans hsk.1.symm
    · obtain ⟨hnj', hej⟩ := slotHas_iff.mp hsj
      obtain ⟨hnk', hek⟩ := slotHas_iff.mp hsk
      have hjl : j < l.lbNent := by
        by_contra hge
        exact hnj' (hl.tail j (by omega))
      have hkl : k < l.lbNent := by
        by_contra hge
        exact hnk' (hl.tail k (by omega))
      exact hl.distinct j k hjl hkl hnj' hnk' (hej.trans hek.symm)
  · intro j hj
    rw [hn] at hj
    rw [hslot, if_neg (by omega)]
    exact hl.tail j (by omega)

theorem labelPut_level (g : Nat) : labelGetLevel l' g =
      if g = h then (if h = 0 ∧ lv = 0 then l.lbDefLevel else lv) else labelGetLevel l g := by
  have hl' := labelPut_wf hl hh hlv hin hfit hi hother hok
  obtain ⟨hd, hp, hn, hslot⟩ := labelPut_ok hok
  have hhas := put_slotHas hh hi hother hslot
  have hlt := labelPut_old hin hok
  by_cases hg : g = h
  · rw [if_pos hg]
    by_cases hv : lv ≠ l.lbDefLevel ∧ (h ≠ 0 ∨ lv ≠ 0)
    · have hs : slotHas l' g i = true := by
        rw [hhas g i (Or.inr rfl), if_pos hg]
        exact decide_eq_true ⟨rfl, hv⟩
      rw [level_of_slot hl' (by rw [hn]; omega) hs, hslot]
      rw [if_pos rfl, if_neg hv.1, lbLevel_code hh, if_neg (by omega)]
    · have hs : ∀ j, j < l'.lbNent → slotHas l' g j = false := by
        intro j hj
        rw [hhas g j (hlt j hj), if_pos hg]
        exact decide_eq_false fun h' ↦ hv h'.2
      rw [level_of_no_slot hs, hd]
      split_ifs with hz
      · rfl
      · by_contra hne
        exact hv ⟨fun h' ↦ hne h'.symm, by omega⟩
  · rw [if_neg hg]
    rcases level_cases l g with ⟨j, hj, hs, he⟩ | ⟨hnone, he⟩
    · have hs' : slotHas l' g j = true := by rw [hhas g j (Or.inl hj), if_neg hg]; exact hs
      have hji : j ≠ i := by
        rintro rfl
        obtain ⟨hne, hgh⟩ := slotHas_iff.mp hs
        rcases hi with hz | hz
        · exact hne hz
        · exact hg (hgh.symm.trans hz)
      rw [level_of_slot hl' (by rw [hn]; omega) hs', he, hslot, if_neg hji]
    · have hs : ∀ j, j < l'.lbNent → slotHas l' g j = false := by
        intro j hj
        rw [hhas g j (hlt j hj), if_neg hg]
        by_cases hjl : j < l.lbNent
        · exact hnone j hjl
        · simp [slotHas, hl.tail j (by omega)]
      rw [level_of_no_slot hs, he, hd]

end Put

theorem addPage_slot (hl : WellFormed l) (i : Nat) : l.addPage.slot i = l.slot i := by
  rw [slot_addPage]
  split_ifs with h
  · exact (hl.tail i (hl.fits.trans h.1)).symm
  · rfl

theorem addPage_level (hl : WellFormed l) (h : Nat) :
    labelGetLevel l.addPage h = labelGetLevel l h := by
  have hs : slotHas l.addPage h = slotHas l h := by
    funext i
    simp only [slotHas, addPage_slot hl]
  simp only [labelGetLevel, hs, addPage_slot hl]
  rfl

theorem addPage_wf (hl : WellFormed l) : WellFormed l.addPage := by
  have hs := addPage_slot hl
  have hn : labelNslots l ≤ labelNslots l.addPage := by
    simp only [labelNslots, Label.addPage, numLbEntPerPage]
    omega
  refine ⟨hl.fits.trans hn, hl.defLevel_le, ?_, ?_, ?_⟩
  · intro i hi hne
    rw [hs] at hne ⊢
    exact hl.level_le i hi hne
  · intro i j hi hj hni hnj he
    simp only [hs] at hni hnj he
    exact hl.distinct i j hi hj hni hnj he
  · intro i hi
    rw [hs]
    exact hl.tail i hi

/-- `label_set` changes the level of its handle and no other. Level 0 at handle
0 is the one pair it cannot store. -/
theorem labelSet_spec {lv : Nat} (hl : WellFormed l)
    (hh : h < 2 ^ 61) (hlv : lv ≤ lbLevelStar) (hok : labelSet env l h lv = .ok l') :
    WellFormed l' ∧ l'.lbDefLevel = l.lbDefLevel ∧ ∀ g, labelGetLevel l' g =
      if g = h then (if h = 0 ∧ lv = 0 then l.lbDefLevel else lv) else labelGetLevel l g := by
  have hput : ∀ (l₁ : Label) (i : Nat), WellFormed l₁ → i ≤ l₁.lbNent → i < labelNslots l₁ →
      (l₁.slot i = 0 ∨ lbHandle (l₁.slot i) = h) →
      (∀ j, j < l₁.lbNent → j ≠ i → slotHas l₁ h j = false) →
      labelPut env l₁ i h lv = .ok l' →
      WellFormed l' ∧ l'.lbDefLevel = l₁.lbDefLevel ∧ ∀ g, labelGetLevel l' g =
        if g = h then (if h = 0 ∧ lv = 0 then l₁.lbDefLevel else lv) else labelGetLevel l₁ g :=
    fun l₁ i h1 h2 h3 h4 h5 h6 ↦ ⟨labelPut_wf h1 hh hlv h2 h3 h4 h5 h6, (labelPut_ok h6).1,
      labelPut_level h1 hh hlv h2 h3 h4 h5 h6⟩
  have hfits := hl.fits
  unfold labelSet at hok
  rcases labelSetScan_spec (l := l) (h := h) (i := 0) (n := l.lbNent) none with
    ⟨i, -, hi, hs, hhas⟩ | ⟨hnone, hs⟩
  · rw [hs] at hok
    obtain ⟨hne, heq⟩ := slotHas_iff.mp hhas
    refine hput l i hl (by omega) (by omega) (Or.inr heq) ?_ hok
    intro j hj hji
    by_contra hc
    obtain ⟨hnej, heqj⟩ := slotHas_iff.mp (by simpa using hc)
    exact hji (hl.distinct j i hj (by omega) hnej hne (heqj.trans heq.symm))
  · have hother : ∀ i j, j < l.lbNent → j ≠ i → slotHas l h j = false :=
      fun i j hj _ ↦ hnone j (Nat.zero_le _) (by omega)
    rcases hs with hs | ⟨i, -, hi, hz, hs⟩
    · simp only [hs] at hok
      split at hok
      next hlt => exact hput l l.lbNent hl le_rfl hlt (Or.inl (hl.tail _ le_rfl)) (hother _) hok
      next hge =>
        have hnent : labelNslots l = l.lbNent := by omega
        cases hg : env.kobjectSetNbytes (l.npages + 1) with
        | error e => simp [hg] at hok
        | ok u =>
          simp only [hg] at hok
          have hlt : labelNslots l < labelNslots l.addPage := by
            simp only [labelNslots, Label.addPage, numLbEntPerPage]
            omega
          obtain ⟨h1, h2, h3⟩ := hput l.addPage (labelNslots l) (addPage_wf hl) hnent.le hlt
            (Or.inl (by rw [addPage_slot hl, hnent]; exact hl.tail _ le_rfl))
            (fun j hj hji ↦ by
              have hj' := hother (labelNslots l) j hj hji
              simpa only [slotHas, addPage_slot hl] using hj') hok
          exact ⟨h1, h2, fun g ↦ by rw [h3, addPage_level hl]; rfl⟩
    · rw [hs] at hok
      exact hput l i hl (by omega) (by omega) (Or.inl hz) (hother i) hok

end HiStar.Iflow
