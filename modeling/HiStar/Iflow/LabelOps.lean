import HiStar.Iflow.LabelSet

namespace HiStar.Iflow

open Lib

def labelCopy (env : MemEnv) (src : Label) : Except Errno Label :=
  match env.kobjectCopyPages with
  | .ok () => .ok { labelAlloc lbLevelUndef with
      lbDefLevel := src.lbDefLevel, lbNent := src.lbNent, lbEnt := src.lbEnt,
      npages := src.npages, lpEnt := src.lpEnt }
  | .error e => .error e

variable {env : MemEnv}

theorem labelCopy_ok {l l' : Label} (h : labelCopy env l = .ok l') : l' = l := by
  unfold labelCopy at h
  split at h
  · exact (Except.ok.inj h).symm
  · cases h

structure ULabel where
  ulDefault : Nat
  ulEnt : List Nat

def ulabelSetAll (env : MemEnv) : List Nat → Label → Except Errno Label
  | [], l => .ok l
  | ulVal :: rest, l =>
    if lbLevel ulVal > lbLevelStar then .error .inval
    else
      match labelSet env l (lbHandle ulVal) (lbLevel ulVal) with
      | .ok l' => ulabelSetAll env rest l'
      | .error e => .error e

/-- One entry of the first operand against the level of the second, or the
other way round; `f` is the row or column of the comparison table. -/
def labelCompareEnt (l : Label) (f : Nat → Nat → Bool) (i : Nat) : Except Errno Unit :=
  match labelGetSlotpRead l i with
  | .error e => .error e
  | .ok ent =>
    if ent = 0 then .ok ()
    else if f (lbHandle ent) (lbLevel ent) then .ok () else .error .label

def labelCompareAll (l1 l2 : Label) (c : LevelComparator) : Except Errno Unit :=
  match forFrom (labelCompareEnt l1 fun h lv1 ↦ c.cmp lv1 (labelGetLevel l2 h)) 0 l1.lbNent with
  | .error e => .error e
  | .ok () =>
    match forFrom (labelCompareEnt l2 fun h lv2 ↦ c.cmp (labelGetLevel l1 h) lv2) 0 l2.lbNent with
    | .error e => .error e
    | .ok () => if c.cmp l1.lbDefLevel l2.lbDefLevel then .ok () else .error .label

theorem labelCompareEnt_ok {l : Label} {f : Nat → Nat → Bool} {i h : Nat}
    (hok : labelCompareEnt l f i = .ok ()) (hs : slotHas l h i = true) :
    f h (lbLevel (l.slot i)) = true := by
  obtain ⟨hne, hh⟩ := slotHas_iff.mp hs
  unfold labelCompareEnt labelGetSlotpRead at hok
  split at hok
  next => cases hok
  next ent he =>
    split at he
    · cases he
      rw [if_neg hne] at hok
      split at hok
      next hf => rwa [hh] at hf
      next => cases hok
    · cases he

def Below (c : LevelComparator) (l1 l2 : Label) : Prop :=
  ∀ h, c.cmp (labelGetLevel l1 h) (labelGetLevel l2 h) = true

theorem labelCompareAll_sound {l1 l2 : Label} {c : LevelComparator}
    (h : labelCompareAll l1 l2 c = .ok ()) : Below c l1 l2 := by
  unfold labelCompareAll at h
  split at h
  · cases h
  next h1 =>
    split at h
    · cases h
    next h2 =>
      split at h
      next hd =>
        intro g
        rcases level_cases l1 g with ⟨i, hi, hs, he⟩ | ⟨hn, he⟩
        · rw [he]
          exact labelCompareEnt_ok (forFrom_ok.mp h1 i (Nat.zero_le _) (by omega)) hs
        · rcases level_cases l2 g with ⟨j, hj, hs, he2⟩ | ⟨hn2, he2⟩
          · rw [he2]
            exact labelCompareEnt_ok (f := fun h lv2 ↦ c.cmp (labelGetLevel l1 h) lv2)
              (forFrom_ok.mp h2 j (Nat.zero_le _) (by omega)) hs
          · rw [he, he2]
            exact hd
      next => cases h

theorem labelCompareAll_defLevel {l1 l2 : Label} {c : LevelComparator}
    (h : labelCompareAll l1 l2 c = .ok ()) : c.cmp l1.lbDefLevel l2.lbDefLevel = true := by
  unfold labelCompareAll at h
  split at h
  · cases h
  · split at h
    · cases h
    · split at h
      next hd => exact hd
      next => cases h

def labelMaxFrom (env : MemEnv) (src : Label) (f : Nat → Nat → Nat) (dst : Label) :
    Except Errno Label :=
  foldFrom (fun i dst ↦
    match labelGetSlotpRead src i with
    | .error e => .error e
    | .ok ent =>
      if ent = 0 then .ok dst
      else labelSet env dst (lbHandle ent) (f (lbHandle ent) (lbLevel ent))) 0 src.lbNent dst

def labelMax (env : MemEnv) (a b : Label) (leq : LevelComparator) : Except Errno Label :=
  match labelMaxFrom env a (fun h alv ↦ leq.max alv (labelGetLevel b h))
      (labelAlloc (leq.max a.lbDefLevel b.lbDefLevel)) with
  | .error e => .error e
  | .ok dst => labelMaxFrom env b (fun h blv ↦ leq.max (labelGetLevel a h) blv) dst

/-- Each loop gives the handles of its operand their maximum and leaves the
others alone. The level 0 of handle 0 is the exception: it can only be had as
the default. -/
theorem labelMaxFrom_spec {src dst dst' : Label} {f : Nat → Nat → Nat}
    {m : Nat → Nat} (hsrc : WellFormed src) (hdst : WellFormed dst)
    (hm : ∀ h, m h ≤ lbLevelStar) (hf : ∀ h, f h (labelGetLevel src h) = m h)
    (hok : labelMaxFrom env src f dst = .ok dst') (g : Nat) :
    WellFormed dst' ∧ dst'.lbDefLevel = dst.lbDefLevel ∧
    (labelGetLevel dst' g = (if g = 0 ∧ m g = 0 then dst.lbDefLevel else m g) ∨
      (labelGetLevel dst' g = labelGetLevel dst g ∧
        ∀ i, i < src.lbNent → slotHas src g i = false)) := by
  have key := foldFrom_inv (I := fun j d ↦ WellFormed d ∧ d.lbDefLevel = dst.lbDefLevel ∧
    (labelGetLevel d g = (if g = 0 ∧ m g = 0 then dst.lbDefLevel else m g) ∨
      (labelGetLevel d g = labelGetLevel dst g ∧ ∀ i, i < j → slotHas src g i = false))) ?_
    ⟨hdst, rfl, Or.inr ⟨rfl, fun i hi ↦ absurd hi (Nat.not_lt_zero i)⟩⟩ hok
  · simpa only [Nat.zero_add] using key
  · rintro j c d - hj ⟨hwf, hdef, hlev⟩ hstep
    have hfits := hsrc.fits
    simp only [labelGetSlotpRead, show j < labelNslots src by omega, ↓reduceIte] at hstep
    split at hstep
    next hz =>
      cases hstep
      refine ⟨hwf, hdef, hlev.imp id fun hl ↦ ⟨hl.1, fun i hi ↦ ?_⟩⟩
      rcases Nat.lt_succ_iff_lt_or_eq.mp hi with hlt | rfl
      · exact hl.2 i hlt
      · simp [slotHas, hz]
    next hne =>
      have hs : slotHas src (lbHandle (src.slot j)) j = true := slotHas_iff.mpr ⟨hne, rfl⟩
      rw [← level_of_slot hsrc (by omega) hs, hf] at hstep
      obtain ⟨hwf', hdef', hlev'⟩ := labelSet_spec hwf (lbHandle_lt _) (hm _) hstep
      refine ⟨hwf', hdef'.trans hdef, ?_⟩
      rw [hlev']
      by_cases hgh : g = lbHandle (src.slot j)
      · left
        rw [if_pos hgh, ← hgh, hdef]
      · rw [if_neg hgh]
        refine hlev.imp id fun hl ↦ ⟨hl.1, fun i hi ↦ ?_⟩
        rcases Nat.lt_succ_iff_lt_or_eq.mp hi with hlt | rfl
        · exact hl.2 i hlt
        · simp [slotHas, Ne.symm hgh]

theorem labelMax_level {a b d : Label} {leq : LevelComparator} (ha : WellFormed a)
    (hb : WellFormed b) (hok : labelMax env a b leq = .ok d) (g : Nat) :
    WellFormed d ∧ d.lbDefLevel = leq.max a.lbDefLevel b.lbDefLevel ∧
      labelGetLevel d g = if g = 0 ∧ leq.max (labelGetLevel a g) (labelGetLevel b g) = 0
        then leq.max a.lbDefLevel b.lbDefLevel
        else leq.max (labelGetLevel a g) (labelGetLevel b g) := by
  unfold labelMax at hok
  split at hok
  · cases hok
  next d₁ h1 =>
    let m := fun h ↦ leq.max (labelGetLevel a h) (labelGetLevel b h)
    have hm : ∀ h, m h ≤ lbLevelStar := fun h ↦ leq.max_le (level_le ha h) (level_le hb h)
    have hd := labelAlloc_wf (leq.max_le ha.defLevel_le hb.defLevel_le)
    obtain ⟨hw1, hd1, hl1⟩ := labelMaxFrom_spec (m := m) ha hd hm (fun h ↦ rfl) h1 g
    obtain ⟨hw2, hd2, hl2⟩ := labelMaxFrom_spec (m := m) hb hw1 hm (fun h ↦ rfl) hok g
    refine ⟨hw2, hd2.trans hd1, ?_⟩
    rcases hl2 with hl2 | ⟨hl2, hnb⟩
    · rw [hl2, hd1]
      rfl
    · rcases hl1 with hl1 | ⟨hl1, hna⟩
      · exact hl2.trans hl1
      · -- neither operand has an entry for the handle: its maximum is that of the defaults
        rw [hl2, hl1, labelAlloc_level, level_of_no_slot hna, level_of_no_slot hnb, ite_self]

theorem labelMax_spec {a b d : Label} {leq : LevelComparator} (ha : WellFormed a)
    (hb : WellFormed b) (hok : labelMax env a b leq = .ok d) :
    WellFormed d ∧ ∀ g, (g = 0 → leq.max (labelGetLevel a g) (labelGetLevel b g) = 0 →
        leq.max a.lbDefLevel b.lbDefLevel = 0) →
      labelGetLevel d g = leq.max (labelGetLevel a g) (labelGetLevel b g) := by
  refine ⟨(labelMax_level ha hb hok 0).1, fun g hg ↦ ?_⟩
  rw [(labelMax_level ha hb hok g).2.2]
  split_ifs with h
  · rw [hg h.1 h.2, h.2]
  · rfl

end HiStar.Iflow
