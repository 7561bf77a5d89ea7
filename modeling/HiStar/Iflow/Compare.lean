import HiStar.Iflow.SlotIndex

namespace HiStar.Iflow

open Lib

/-- The labels that the kernel builds, when every `label_set` meets `P` and
every `label_max` meets `Q`. -/
inductive Built (P : Label → Nat → Prop) (Q : Label → Label → Prop) : Label → Prop
  | alloc {d : Nat} (hd : d ≤ lbLevelStar) : Built P Q (labelAlloc d)
  | set {env : MemEnv} {l l' : Label} {h lv : Nat} (hl : Built P Q l) (hp : P l h)
      (hh : h < 2 ^ 61) (hlv : lv ≤ lbLevelStar) (hok : labelSet32 env l h lv = .ok l') :
      Built P Q l'
  | copy {env : MemEnv} {l l' : Label} (hl : Built P Q l) (hok : labelCopy env l = .ok l') :
      Built P Q l'
  | max {env : MemEnv} {a b d : Label} {leq : LevelComparator} (ha : Built P Q a)
      (hb : Built P Q b) (hq : Q a b) (hok : labelMax32 env a b leq = .ok d) : Built P Q d

def SlotsFit (l : Label) (_ : Nat) : Prop := labelNslots l < 2 ^ 31

def EntriesFit (a b : Label) : Prop := a.lbNent + b.lbNent + 512 < 2 ^ 31

theorem Built.wellFormed {P : Label → Nat → Prop} {Q : Label → Label → Prop} {l : Label}
    (h : Built P Q l) (hP : ∀ l h, P l h → SlotsFit l h) (hQ : ∀ a b, Q a b → EntriesFit a b) :
    WellFormed l ∧ l.lbNent ≤ 2 ^ 31 := by
  induction h with
  | alloc hd => exact ⟨labelAlloc_wf hd, Nat.zero_le _⟩
  | set _ hp hh hlv hok ih =>
    obtain ⟨hwf, -⟩ := ih
    have hfit := hP _ _ hp
    have hfits := hwf.fits
    simp only [SlotsFit] at hfit
    rw [labelSet32_eq hfit hfits] at hok
    obtain ⟨i, hi, -, hn, -⟩ := labelSet_slots hwf hok
    exact ⟨(labelSet_spec hwf hh hlv hok).1, by omega⟩
  | copy _ hok ih =>
    rw [labelCopy_ok hok]
    exact ih
  | @max _ a b _ _ _ _ hq hok iha ihb =>
    have hfit := hQ _ _ hq
    simp only [EntriesFit] at hfit
    have hcard := card_handles_union_le a b
    rw [labelMax32_eq iha.1 ihb.1 (hcard.trans (by omega))] at hok
    have hg := labelMax_spans iha.1 ihb.1 hok
    exact ⟨hg.wf, hg.nent.trans (hcard.trans (by omega))⟩

theorem exists_free_handle {S : Finset Nat} (hS : S.card < 2 ^ 61) : ∃ g, g < 2 ^ 61 ∧ g ∉ S := by
  have hcard : S.card < (Finset.range (2 ^ 61)).card := by simpa only [Finset.card_range] using hS
  obtain ⟨g, hg, hn⟩ := Finset.exists_mem_notMem_of_card_lt_card hcard
  exact ⟨g, Finset.mem_range.mp hg, hn⟩

theorem labelCompareEnt_complete {l : Label} {f : Nat → Nat → Bool} {i : Nat} (hl : WellFormed l)
    (hi : i < l.lbNent) (hf : ∀ h, h < 2 ^ 61 → f h (labelGetLevel l h) = true) :
    labelCompareEnt l f i = .ok () := by
  have hfits := hl.fits
  simp only [labelCompareEnt, labelGetSlotpRead, show i < labelNslots l by omega, ↓reduceIte]
  split
  · rfl
  next hne =>
    have hlev := level_of_slot hl hi (slotHas_iff.mpr ⟨hne, rfl⟩)
    rw [← hlev, hf _ (lbHandle_lt _)]
    rfl

/-- Where the labels are related at every handle, each of the three tests
succeeds; for the defaults that takes a handle neither label has an entry
for. -/
theorem labelCompareAll_complete {l1 l2 : Label} {c : LevelComparator} (h1 : WellFormed l1)
    (h2 : WellFormed l2) (hn : l1.lbNent + l2.lbNent < 2 ^ 61)
    (hall : ∀ h, h < 2 ^ 61 → c.cmp (labelGetLevel l1 h) (labelGetLevel l2 h) = true) :
    labelCompareAll l1 l2 c = .ok () := by
  obtain ⟨g, hg, hfree⟩ := exists_free_handle ((card_handles_union_le l1 l2).trans_lt hn)
  rw [Finset.notMem_union] at hfree
  have hdef := hall g hg
  rw [level_of_notMem_handles hfree.1, level_of_notMem_handles hfree.2] at hdef
  have hloop1 : forFrom (labelCompareEnt l1 fun h lv1 ↦ c.cmp lv1 (labelGetLevel l2 h)) 0 l1.lbNent =
      .ok () := by
    rw [forFrom_ok]
    intro j _ hj
    exact labelCompareEnt_complete h1 (by omega) hall
  have hloop2 : forFrom (labelCompareEnt l2 fun h lv2 ↦ c.cmp (labelGetLevel l1 h) lv2) 0 l2.lbNent =
      .ok () := by
    rw [forFrom_ok]
    intro j _ hj
    exact labelCompareEnt_complete h2 (by omega) hall
  simp only [labelCompareAll, hloop1, hloop2, hdef, ↓reduceIte]

/-- `label_compare` decides the pointwise order of labels whose slot numbers
fit. -/
theorem label_compare_decides {l1 l2 : Label} (c : LevelComparator)
    (h1 : Built SlotsFit EntriesFit l1) (h2 : Built SlotsFit EntriesFit l2) :
    labelCompareAll l1 l2 c = .ok () ↔
      ∀ h, h < 2 ^ 61 → c.cmp (labelGetLevel l1 h) (labelGetLevel l2 h) = true := by
  obtain ⟨hw1, hn1⟩ := h1.wellFormed (fun _ _ h ↦ h) fun _ _ h ↦ h
  obtain ⟨hw2, hn2⟩ := h2.wellFormed (fun _ _ h ↦ h) fun _ _ h ↦ h
  exact ⟨fun h g _ ↦ labelCompareAll_sound h g, labelCompareAll_complete hw1 hw2 (by omega)⟩

theorem label_compare_decides_entries : ∃ l1 l2, labelSet32 plentyEnv (labelAlloc 1) 5 3 = .ok l1 ∧
    labelSet32 plentyEnv (labelAlloc 2) 7 0 = .ok l2 ∧
    (labelCompareAll l1 l2 .starlo = .ok () ↔
      ∀ h, h < 2 ^ 61 → LevelComparator.starlo.cmp (labelGetLevel l1 h) (labelGetLevel l2 h) =
        true) := by
  obtain ⟨l1, h1⟩ : ∃ l, labelSet32 plentyEnv (labelAlloc 1) 5 3 = .ok l := ⟨_, rfl⟩
  obtain ⟨l2, h2⟩ : ∃ l, labelSet32 plentyEnv (labelAlloc 2) 7 0 = .ok l := ⟨_, rfl⟩
  have hfit : ∀ d h, SlotsFit (labelAlloc d) h := fun _ _ ↦ by
    show numLbEntInline + 0 * numLbEntPerPage < 2 ^ 31
    decide
  exact ⟨l1, l2, h1, h2, label_compare_decides .starlo
    (.set (.alloc (by decide)) (hfit 1 5) (by decide) (by decide) h1)
    (.set (.alloc (by decide)) (hfit 2 7) (by decide) (by decide) h2)⟩

end HiStar.Iflow
