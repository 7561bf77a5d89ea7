import HiStar.Iflow.SlotIndex

namespace HiStar.Iflow

open Lib

/-- The memory does not hold a label of `2 ^ 31` slots. -/
def MemEnv.Small (env : MemEnv) : Prop :=
  ∀ n, 2 ^ 31 ≤ numLbEntInline + n * numLbEntPerPage → ∃ e, env.kobjectSetNbytes n = .error e

/-- A label whose slots are all found by their 32-bit index. -/
structure Fits (l : Label) : Prop where
  wf : WellFormed l
  small : labelNslots l < 2 ^ 31

theorem fits_alloc {d : Nat} (hd : d ≤ lbLevelStar) : Fits (labelAlloc d) :=
  ⟨labelAlloc_wf hd, by simp [labelNslots, labelAlloc, numLbEntInline]⟩

section Fits

variable {env : MemEnv} {l l' : Label} {h lv : Nat}

theorem Fits.labelSet32_eq (hl : Fits l) : labelSet32 env l h lv = labelSet env l h lv :=
  Iflow.labelSet32_eq hl.small hl.wf.fits

theorem labelSet_small (henv : env.Small) (hl : labelNslots l < 2 ^ 31)
    (hok : labelSet env l h lv = .ok l') : labelNslots l' < 2 ^ 31 := by
  unfold labelSet at hok
  split at hok
  · obtain ⟨-, hp, -⟩ := labelPut_ok hok
    simpa only [labelNslots, hp] using hl
  · split at hok
    · obtain ⟨-, hp, -⟩ := labelPut_ok hok
      simpa only [labelNslots, hp] using hl
    · split at hok
      next hgrow =>
        obtain ⟨-, hp, -⟩ := labelPut_ok hok
        by_contra hge
        obtain ⟨e, he⟩ := henv (l.npages + 1) (by
          simp only [labelNslots, hp, Label.addPage] at hge
          omega)
        rw [he] at hgrow
        cases hgrow
      next => cases hok

theorem Fits.labelSet32 (henv : env.Small) (hl : Fits l) (hh : h < 2 ^ 61) (hlv : lv ≤ lbLevelStar)
    (hok : labelSet32 env l h lv = .ok l') : Fits l' ∧ l'.lbDefLevel = l.lbDefLevel ∧
      ∀ g, labelGetLevel l' g =
        if g = h then (if h = 0 ∧ lv = 0 then l.lbDefLevel else lv) else labelGetLevel l g := by
  rw [hl.labelSet32_eq] at hok
  obtain ⟨hwf, hrest⟩ := labelSet_spec hl.wf hh hlv hok
  exact ⟨⟨hwf, labelSet_small henv hl.small hok⟩, hrest⟩

theorem Fits.ulabelSetAll32 {ents : List Nat} (henv : env.Small) (hl : Fits l)
    (hok : ulabelSetAll32 env ents l = .ok l') : Fits l' := by
  induction ents generalizing l with
  | nil =>
    cases hok
    exact hl
  | cons v rest ih =>
    simp only [Iflow.ulabelSetAll32] at hok
    split at hok
    next => cases hok
    next hlv =>
      split at hok
      next l₁ hs => exact ih (hl.labelSet32 henv (lbHandle_lt v) (by omega) hs).1 hok
      next => cases hok

end Fits

section Max

variable {env : MemEnv} {a b d : Label} {leq : LevelComparator}

/-- The loop does the same with either width, and its label fits. -/
theorem labelMaxFrom32_fits {src dst : Label} {f : Nat → Nat → Nat} (henv : env.Small)
    (hsrc : WellFormed src) (hdst : Fits dst)
    (hf : ∀ h lv, lv ≤ lbLevelStar → f h lv ≤ lbLevelStar) :
    labelMaxFrom32 env src f dst = labelMaxFrom env src f dst ∧
      ∀ d, labelMaxFrom env src f dst = .ok d → Fits d := by
  have hread (j : Nat) (hj : j < src.lbNent) : labelGetSlotpRead src j = .ok (src.slot j) := by
    have := hsrc.fits
    simp only [labelGetSlotpRead, show j < labelNslots src by omega, ↓reduceIte]
  have hset (j : Nat) (hj : j < src.lbNent) {c d : Label} (hc : Fits c) (hne : src.slot j ≠ 0)
      (hd : labelSet env c (lbHandle (src.slot j))
        (f (lbHandle (src.slot j)) (lbLevel (src.slot j))) = .ok d) : Fits d :=
    (hc.labelSet32 henv (lbHandle_lt _) (hf _ _ (hsrc.level_le j hj hne))
      (hc.labelSet32_eq.trans hd)).1
  refine ⟨foldFrom_congr (I := fun _ d ↦ Fits d) (fun j c _ hj hc ↦ ?_) hdst,
    fun d hd ↦ foldFrom_inv (I := fun _ d ↦ Fits d) (fun j c d _ hj hc hstep ↦ ?_) hdst hd⟩
  · simp only [hread j (by omega)]
    split
    · exact ⟨rfl, fun d hd ↦ by cases hd; exact hc⟩
    next hne => exact ⟨hc.labelSet32_eq, fun d hd ↦ hset j (by omega) hc hne hd⟩
  · simp only [hread j (by omega)] at hstep
    split at hstep
    · cases hstep
      exact hc
    next hne => exact hset j (by omega) hc hne hstep

theorem Fits.labelMax32 (henv : env.Small) (ha : WellFormed a) (hb : WellFormed b)
    (hok : labelMax32 env a b leq = .ok d) : Fits d ∧ labelMax env a b leq = .ok d := by
  have hd : Fits (labelAlloc (leq.max a.lbDefLevel b.lbDefLevel)) :=
    fits_alloc (leq.max_le ha.defLevel_le hb.defLevel_le)
  obtain ⟨he₁, hf₁⟩ := labelMaxFrom32_fits henv ha hd
    (f := fun h alv ↦ leq.max alv (labelGetLevel b h)) fun h lv hlv ↦
      leq.max_le hlv (level_le hb h)
  unfold Iflow.labelMax32 at hok
  rw [he₁] at hok
  split at hok
  next => cases hok
  next d₁ h1 =>
    obtain ⟨he₂, hf₂⟩ := labelMaxFrom32_fits henv hb (hf₁ d₁ h1)
      (f := fun h blv ↦ leq.max (labelGetLevel a h) blv) fun h lv hlv ↦ max_level_le leq ha h hlv
    rw [he₂] at hok
    refine ⟨hf₂ d hok, ?_⟩
    simp only [labelMax, h1, hok]

end Max

end HiStar.Iflow
