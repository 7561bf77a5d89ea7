import HiStar.Iflow.Boundary
import HiStar.Iflow.Join
import HiStar.Userlabel.GateLabels

namespace HiStar.Userlabel

open Iflow Lib LevelComparator

/-- A label of the program that was read from the kernel. -/
structure ReadFrom (l : Label) (k : Iflow.Label) : Prop extends Corresponds l k where
  sound : Sound l
  default : l.ulDefault = k.lbDefLevel

def Label.toULabel (l : Label) : ULabel := ⟨l.ulDefault, l.ulEnt⟩

/-- The levels of a label of the kernel, and `none` for its default. -/
def kernelAt (k : Iflow.Label) : Option Nat → Nat
  | some h => labelGetLevel k h
  | none => k.lbDefLevel

/-- A label of the kernel that was set to the levels of `f`. It cannot tell level 0 at handle 0
from an empty slot. -/
structure Reads (k : Iflow.Label) (f : Option Nat → Nat) : Prop where
  wf : WellFormed k
  nent : k.lbNent ≤ 2 ^ 31
  level : ∀ h < 2 ^ 61, h ≠ 0 → labelGetLevel k h = f (some h)
  zero : labelGetLevel k 0 = zeroLevel (f (some 0)) (f none)

theorem forall_handle_iff {P : Nat → Prop} :
    (∀ h < 2 ^ 61, P h) ↔ P 0 ∧ ∀ h < 2 ^ 61, h ≠ 0 → P h := by
  constructor
  · exact fun h ↦ ⟨h 0 (by decide), fun g hg _ ↦ h g hg⟩
  · rintro ⟨h0, hpos⟩ h hh
    by_cases hz : h = 0
    · exact hz ▸ h0
    · exact hpos h hh hz

theorem Reads.compare_iff {a b : Iflow.Label} {f g : Option Nat → Nat} {cmp : LevelComparator}
    (ha : Reads a f) (hb : Reads b g) :
    labelCompareAll a b cmp = .ok () ↔
      cmp.cmp (zeroLevel (f (some 0)) (f none)) (zeroLevel (g (some 0)) (g none)) = true ∧
        ∀ h < 2 ^ 61, h ≠ 0 → cmp.cmp (f (some h)) (g (some h)) = true := by
  have hna := ha.nent
  have hnb := hb.nent
  rw [kernelCompare_iff ha.wf hb.wf (by omega), forall_handle_iff, ha.zero, hb.zero]
  exact and_congr_right fun _ ↦ forall₃_congr fun h hh h0 ↦ by
    rw [ha.level h hh h0, hb.level h hh h0]

variable {k : Iflow.Label} {l : Label}

theorem Reads.congr {f g : Option Nat → Nat} (hk : Reads k f)
    (hfg : ∀ p, (∀ h ∈ p, h < 2 ^ 61) → f p = g p) : Reads k g := by
  refine ⟨hk.wf, hk.nent, fun h hh h0 ↦ ?_, ?_⟩
  · rw [hk.level h hh h0, hfg (some h) fun _ hm ↦ Option.mem_some.mp hm ▸ hh]
  · rw [hk.zero, hfg (some 0) fun _ hm ↦ Option.mem_some.mp hm ▸ Nat.two_pow_pos 61,
      hfg none fun _ hm ↦ by cases hm]

theorem kernelAt_le (hk : WellFormed k) (p : Option Nat) : kernelAt k p ≤ lbLevelStar := by
  cases p with
  | none => exact hk.defLevel_le
  | some h => exact level_le hk h

theorem ReadFrom.levelAt (hl : ReadFrom l k) {p : Option Nat}
    (hp : ∀ h ∈ p, h < 2 ^ 61) : l.levelAt p = kernelAt k p := by
  cases p with
  | none => exact hl.default
  | some h => exact (hl.level h (hp h rfl)).symm

theorem reads_labelMax {env : MemEnv} {a b d : Iflow.Label} {leq : LevelComparator}
    (ha : WellFormed a) (hb : WellFormed b) (hfit : (a.handles ∪ b.handles).card ≤ 2 ^ 31)
    (hok : labelMax32 env a b leq = .ok d) :
    Reads d fun p ↦ leq.max (kernelAt a p) (kernelAt b p) := by
  rw [labelMax32_eq ha hb hfit] at hok
  have hspan := labelMax_spans ha hb hok
  refine ⟨hspan.wf, hspan.nent.trans hfit, fun h _ h0 ↦ ?_, ?_⟩
  · rw [(labelMax_level ha hb hok h).2.2, if_neg fun he ↦ h0 he.1]
    rfl
  · show _ = zeroLevel (leq.max (labelGetLevel a 0) (labelGetLevel b 0)) _
    rw [(labelMax_level ha hb hok 0).2.2]
    simp only [true_and, zeroLevel]
    rfl

theorem toULabel_level (hl : Sound l) (h : Nat) : l.toULabel.level h = l.get h := by
  unfold ULabel.level Label.toULabel
  cases hlast : lastEntry l.ulEnt h with
  | none =>
    refine (Ulabel.get_of_notMem fun hmem ↦ ?_).symm
    obtain ⟨e, he, heq⟩ := List.mem_map.mp hmem
    exact lastEntry_eq_none.mp hlast e he heq
  | some e =>
    obtain ⟨hmem, rfl⟩ := lastEntry_handle hlast
    exact (Ulabel.get_of_find (find?_of_mem hl.wf.distinct hmem)).symm

theorem reads_ulabel {user : UserEnv} {env : MemEnv} (hl : Sound l)
    (hfew : Few l) (hok : ulabelToLabel32 user env l.toULabel = .ok k) : Reads k l.levelAt := by
  have hfit : l.toULabel.handles.card ≤ 2 ^ 31 := hfew
  obtain ⟨hspan, -, hlev⟩ := ulabelToLabel32_level hfit hok
  refine ⟨hspan.wf, hspan.nent.trans hfew, fun h _ h0 ↦ ?_, ?_⟩
  · rw [hlev, toULabel_level hl, if_neg fun hlast ↦ h0 (lastEntry_handle hlast).2.symm]
    rfl
  · have hget := toULabel_level hl 0
    show _ = zeroLevel (l.get 0) l.ulDefault
    rw [hlev, hget, zeroLevel]
    unfold ULabel.level at hget
    by_cases hz : lastEntry l.toULabel.ulEnt 0 = some 0
    · rw [hz] at hget
      have h0 : l.get 0 = 0 := hget.symm
      rw [if_pos hz, if_pos h0]
      rfl
    · rw [if_neg hz]
      split_ifs with h0
      · -- level 0 at handle 0 without an entry is the default
        cases hlast : lastEntry l.toULabel.ulEnt 0 with
        | none =>
          rw [hlast] at hget
          exact hget.symm
        | some e =>
          rw [hlast] at hget
          have he : e = 0 := entry_eq_zero.mpr ⟨(lastEntry_handle hlast).2, hget.trans h0⟩
          exact absurd (he ▸ hlast) hz
      · rfl

/-- The clearance that `gate_compute_labels` asks for, from the levels of the gate's label,
the thread's label and the gate's clearance. -/
def clearOf (g t gc : Nat) : Nat :=
  if g = lbLevelStar ∧ t = lbLevelStar then 3 else Label.starTo 0 gc

def Admits (n gc : Nat) : Prop := n ≠ lbLevelStar → n ≤ Label.starTo 0 gc

section Levels

variable {g g0 gd t t0 td c gc gc0 gcd tc0 tcd n0 nd : Nat}

theorem newLevel_eq_star (hc : c < lbLevelStar) :
    newLevel g t c = lbLevelStar ↔ g = lbLevelStar := by
  simp only [newLevel, Label.starTo, LevelComparator.max, cmp_starhi_eq, lbLevelStar] at *
  grind

theorem newLevel_eq_zero :
    newLevel g t c = 0 ↔ g = 0 ∧ (t = 0 ∨ t = lbLevelStar) ∧ c = 0 := by
  simp only [newLevel, Label.starTo, LevelComparator.max, cmp_starhi_eq, lbLevelStar]
  grind

theorem clearLevel_eq_clearOf (hgc : gc ≤ lbLevelStar) (hc : c < lbLevelStar) :
    clearLevel (newLevel g t c) t gc = clearOf g t gc := by
  simp only [clearLevel_eq hgc, newLevel_eq_star hc, clearOf, Label.starTo]

/-- The first check at handle 0. A new label that is 0 there reads its default, which is not
the star because the gate's label has default 0 then. -/
theorem first_zero (hg : g0 = 0 → gd = 0) (ht : t0 = 0 → td = 0) {c0 cd : Nat}
    (hc0 : c0 < lbLevelStar) (hcd : cd < lbLevelStar) :
    starlo.cmp (zeroLevel (starhi.max g0 t0) (starhi.max gd td))
      (zeroLevel (newLevel g0 t0 c0) (newLevel gd td cd)) = true := by
  rw [zeroLevel_starhi hg ht]
  have hle := bound_le_newLevel (g := g0) (t := t0) hc0.ne
  have hstar := newLevel_eq_star (g := gd) (t := td) hcd
  have hzero := newLevel_eq_zero (g := g0) (t := t0) (c := c0)
  rw [zeroLevel]
  split_ifs with h0
  · simp only [LevelComparator.max, cmp_starhi_eq, cmp_starlo_eq, lbLevelStar] at *
    grind
  · exact hle

theorem third_zero (hgc : gc0 = 0 → gcd = 0) (htc : tc0 = 0 → tcd = 0) (hgc0 : gc0 ≤ 4)
    (hown0 : t0 = 4 → tc0 = 3) (hownd : td = 4 → tcd = 3) :
    starhi.cmp (zeroLevel (clearOf g0 t0 gc0) (clearOf gd td gcd))
        (zeroLevel (starlo.max gc0 tc0) (starlo.max gcd tcd)) = true ↔
      (clearOf g0 t0 gc0 = 0 → tc0 = 0 ∨ tc0 = lbLevelStar ∨ clearOf gd td gcd ≤ tc0) := by
  simp only [zeroLevel, clearOf, Label.starTo, starlo_max_eq, cmp_starhi_eq,
    lbLevelStar] at *
  grind

/-- The second check at handle 0, when the new label is below the gate's clearance at all
other handles and so in its default. -/
theorem second_zero (hg : g0 = 0 → gd = 0) (hgc : gc0 = 0 → gcd = 0)
    (hgate0 : starlo.cmp g0 gc0 = true) (hn0 : n0 = 4 ↔ g0 = 4) (hnd : nd = 4 ↔ gd = 4)
    (hz0 : n0 = 0 → g0 = 0) (hpass : Admits nd gcd) :
    (starlo.cmp (zeroLevel n0 nd) (zeroLevel (clearOf g0 t0 gc0) (clearOf gd td gcd)) = true ↔
        Admits n0 gc0) ↔
      ¬(n0 = 0 ∧ Label.starTo 0 gc0 ≠ 0 ∧ Label.starTo 0 gc0 < nd) := by
  simp only [Admits, zeroLevel, clearOf, Label.starTo, cmp_starlo_eq, lbLevelStar] at *
  grind

end Levels

section Enter

variable {gtLabel thLabel gtClear thClear : Iflow.Label} {cs : Option Label}

/-- The new label and the new clearance, from the labels that the kernel has. -/
def newAt (gtLabel thLabel : Iflow.Label) (cs : Option Label) (p : Option Nat) : Nat :=
  newLevel (kernelAt gtLabel p) (kernelAt thLabel p) (csLevel cs p)

def clearAt (gtLabel thLabel gtClear : Iflow.Label) (p : Option Nat) : Nat :=
  clearOf (kernelAt gtLabel p) (kernelAt thLabel p) (kernelAt gtClear p)

/-- A new clearance of level 0 at handle 0 is stored as an empty slot: its default has to be
within the thread's clearance as well. -/
def ClearKept (gtLabel thLabel gtClear thClear : Iflow.Label) : Prop :=
  clearAt gtLabel thLabel gtClear (some 0) = 0 →
    labelGetLevel thClear 0 = 0 ∨ labelGetLevel thClear 0 = lbLevelStar ∨
      clearAt gtLabel thLabel gtClear none ≤ labelGetLevel thClear 0

/-- A new label of level 0 at handle 0 is stored as an empty slot: its default exceeds the
gate's clearance there, and nowhere else. -/
def LabelRaised (gtLabel thLabel gtClear : Iflow.Label) (cs : Option Label) : Prop :=
  (newAt gtLabel thLabel cs (some 0) = 0 ∧ Label.starTo 0 (labelGetLevel gtClear 0) ≠ 0 ∧
    Label.starTo 0 (labelGetLevel gtClear 0) < newAt gtLabel thLabel cs none) ∧
  ∀ h < 2 ^ 61, h ≠ 0 → Admits (newAt gtLabel thLabel cs (some h)) (labelGetLevel gtClear h)

variable (hgc : WellFormed gtClear) (hstarless : ∀ p, csLevel cs p < lbLevelStar)

include hgc in
theorem third_check (hgate : ∀ h < 2 ^ 61, labelGetLevel thLabel h = lbLevelStar →
      labelGetLevel thClear h = 3)
    (hownd : thLabel.lbDefLevel = lbLevelStar → thClear.lbDefLevel = 3) :
    (starhi.cmp (zeroLevel (clearAt gtLabel thLabel gtClear (some 0))
          (clearAt gtLabel thLabel gtClear none))
        (zeroLevel (starlo.max (kernelAt gtClear (some 0)) (kernelAt thClear (some 0)))
          (starlo.max (kernelAt gtClear none) (kernelAt thClear none))) = true ∧
      ∀ h < 2 ^ 61, h ≠ 0 → starhi.cmp (clearAt gtLabel thLabel gtClear (some h))
        (starlo.max (kernelAt gtClear (some h)) (kernelAt thClear (some h))) = true) ↔
      ClearKept gtLabel thLabel gtClear thClear := by
  have hpos : ∀ h < 2 ^ 61, starhi.cmp (clearAt gtLabel thLabel gtClear (some h))
      (starlo.max (kernelAt gtClear (some h)) (kernelAt thClear (some h))) = true := by
    intro h hh
    have hle := level_le hgc h
    have hbound := clearLevel_le_bound (n := kernelAt gtLabel (some h)) hle (hgate h hh)
    rw [clearLevel_eq hle] at hbound
    exact hbound
  rw [and_iff_left fun h hh _ ↦ hpos h hh]
  exact third_zero defLevel_of_level_zero defLevel_of_level_zero (level_le hgc 0)
    (hgate 0 (by decide)) hownd

include hgc hstarless in
theorem second_check (hgate : starlo.cmp (labelGetLevel gtLabel 0) (labelGetLevel gtClear 0) = true)
    (hdefault : (∀ h < 2 ^ 61, h ≠ 0 →
        Admits (newAt gtLabel thLabel cs (some h)) (labelGetLevel gtClear h)) →
      Admits (newAt gtLabel thLabel cs none) gtClear.lbDefLevel) :
    ((starlo.cmp (zeroLevel (newAt gtLabel thLabel cs (some 0)) (newAt gtLabel thLabel cs none))
          (zeroLevel (clearAt gtLabel thLabel gtClear (some 0))
            (clearAt gtLabel thLabel gtClear none)) = true ∧
        ∀ h < 2 ^ 61, h ≠ 0 → starlo.cmp (newAt gtLabel thLabel cs (some h))
          (clearAt gtLabel thLabel gtClear (some h)) = true) ↔
      ∀ h < 2 ^ 61, Admits (newAt gtLabel thLabel cs (some h)) (labelGetLevel gtClear h)) ↔
      ¬ LabelRaised gtLabel thLabel gtClear cs := by
  have hpos : ∀ h, starlo.cmp (newAt gtLabel thLabel cs (some h))
      (clearAt gtLabel thLabel gtClear (some h)) = true ↔
      Admits (newAt gtLabel thLabel cs (some h)) (labelGetLevel gtClear h) := by
    intro h
    have hle : kernelAt gtClear (some h) ≤ lbLevelStar := level_le hgc h
    rw [newAt, clearAt, ← clearLevel_eq_clearOf hle (hstarless (some h))]
    exact newLevel_le_clearLevel hle
  simp only [hpos]
  rw [forall_handle_iff (P := fun h ↦
    Admits (newAt gtLabel thLabel cs (some h)) (labelGetLevel gtClear h))]
  by_cases hall : ∀ h < 2 ^ 61, h ≠ 0 →
      Admits (newAt gtLabel thLabel cs (some h)) (labelGetLevel gtClear h)
  · rw [and_iff_left hall, and_iff_left hall, LabelRaised, and_iff_left hall]
    exact second_zero defLevel_of_level_zero defLevel_of_level_zero hgate
      (newLevel_eq_star (hstarless _)) (newLevel_eq_star (hstarless _))
      (fun h0 ↦ (newLevel_eq_zero.mp h0).1) (hdefault hall)
  · exact iff_of_true (iff_of_false (fun h ↦ hall h.2) fun h ↦ hall h.2) fun h ↦ hall h.2

def csHandles : Option Label → Finset Nat
  | some l => l.handles.toFinset
  | none => ∅

theorem csLevel_of_notMem {h : Nat} (hh : h ∉ csHandles cs) :
    csLevel cs (some h) = csLevel cs none := by
  cases cs with
  | none => rfl
  | some l => exact Ulabel.get_of_notMem fun hm ↦ hh (List.mem_toFinset.mpr hm)

/-- Some category has the default level in all the labels of the call. -/
theorem exists_default_handle (hgt : gtLabel.lbNent < 2 ^ 32) (hth : thLabel.lbNent < 2 ^ 32)
    (hgc : gtClear.lbNent < 2 ^ 32) (htc : thClear.lbNent < 2 ^ 32)
    (hcs : ∀ l ∈ cs, l.ulEnt.length < 2 ^ 32) :
    ∃ g < 2 ^ 61, g ≠ 0 ∧ csLevel cs (some g) = csLevel cs none ∧
      ∀ k ∈ [gtLabel, thLabel, gtClear, thClear], labelGetLevel k g = k.lbDefLevel := by
  have hcard : (csHandles cs).card < 2 ^ 32 := by
    cases cs with
    | none => exact Nat.two_pow_pos 32
    | some l =>
      refine ((List.toFinset_card_le _).trans_eq ?_).trans_lt (hcs l rfl)
      exact List.length_map _
  have h1 := Finset.card_union_le {0} (csHandles cs)
  have h2 := Finset.card_union_le ({0} ∪ csHandles cs) (gtLabel.handles ∪ thLabel.handles)
  have h3 := Finset.card_union_le ({0} ∪ csHandles cs ∪ (gtLabel.handles ∪ thLabel.handles))
    (gtClear.handles ∪ thClear.handles)
  have h4 := card_handles_union_le gtLabel thLabel
  have h5 := card_handles_union_le gtClear thClear
  rw [Finset.card_singleton] at h1
  obtain ⟨g, hg, hfree⟩ := exists_free_handle (show ({0} ∪ csHandles cs ∪
    (gtLabel.handles ∪ thLabel.handles) ∪ (gtClear.handles ∪ thClear.handles)).card < 2 ^ 61 by
    omega)
  simp only [Finset.notMem_union, Finset.mem_singleton] at hfree
  obtain ⟨⟨⟨h0, hc⟩, hgt, hth⟩, hgc, htc⟩ := hfree
  refine ⟨g, hg, h0, csLevel_of_notMem hc, fun k hk ↦ level_of_notMem_handles ?_⟩
  simp only [List.mem_cons, List.not_mem_nil, or_false] at hk
  rcases hk with rfl | rfl | rfl | rfl <;> assumption

end Enter

/-- The labels that `gate_compute_labels` gives for a gate and a thread pass the first and the
third check of `sys_gate_enter`, and they pass the second exactly when the new label is below
the clearance of the gate without its stars, if and only if the empty slot that stands for
level 0 at handle 0 does no harm. -/
theorem gate_labels_admitted {mem : Heap} {user : UserEnv} {env : MemEnv}
    {gtLabel thLabel gtClear thClear : Iflow.Label} {cs : Option Label} {gl tl gc n c : Label}
    {labelBound clearBound newLabel newClear : Iflow.Label}
    (hgl : ReadFrom gl gtLabel) (htl : ReadFrom tl thLabel) (hgc : ReadFrom gc gtClear)
    (htc : WellFormed thClear) (hnent : thClear.lbNent < 2 ^ 32)
    (hfit : (gtLabel.handles ∪ thLabel.handles).card ≤ 2 ^ 31)
    (hfitc : (gtClear.handles ∪ thClear.handles).card ≤ 2 ^ 31)
    (hgate : ∀ h < 2 ^ 61, starlo.cmp (labelGetLevel gtLabel h) (labelGetLevel gtClear h) = true)
    (hown : ∀ h < 2 ^ 61, labelGetLevel thLabel h = lbLevelStar → labelGetLevel thClear h = 3)
    (hcs : ∀ l ∈ cs, Sound l ∧ l.ulDefault < lbLevelStar ∧ ∀ h, l.get h < lbLevelStar)
    (hrun : gateComputeLabels mem gl tl gc cs none none = .ok (n, c))
    (hlabel : labelMax32 env gtLabel thLabel .starhi = .ok labelBound)
    (hclear : labelMax32 env gtClear thClear .starlo = .ok clearBound)
    (hnew : ulabelToLabel32 user env n.toULabel = .ok newLabel)
    (hnewc : ulabelToLabel32 user env c.toULabel = .ok newClear) :
    (labelCompareAll labelBound newLabel .starlo = .ok () ∧
      labelCompareAll newClear clearBound .starhi = .ok () ∧
      (labelCompareAll newLabel newClear .starlo = .ok () ↔
        ∀ h < 2 ^ 61, n.get h ≠ lbLevelStar →
          n.get h ≤ Label.starTo 0 (labelGetLevel gtClear h))) ↔
      ClearKept gtLabel thLabel gtClear thClear ∧ ¬ LabelRaised gtLabel thLabel gtClear cs := by
  obtain ⟨⟨⟨hsn, hfn⟩, hatn⟩, ⟨hsc, hfc⟩, hatc⟩ :=
    gateComputeLabels_levelAt hgl.sound htl.sound hgc.sound (fun l hl ↦ (hcs l hl).1) hrun
  have hstarless : ∀ p, csLevel cs p < lbLevelStar := by
    intro p
    cases cs with
    | none => exact (by decide : 0 < lbLevelStar)
    | some l =>
      cases p with
      | none => exact (hcs l rfl).2.1
      | some h => exact (hcs l rfl).2.2 h
  have hnat : ∀ p, (∀ h ∈ p, h < 2 ^ 61) → n.levelAt p = newAt gtLabel thLabel cs p := by
    intro p hp
    rw [congrFun hatn p, newAt, hgl.levelAt hp, htl.levelAt hp]
  have hcat : ∀ p, (∀ h ∈ p, h < 2 ^ 61) → c.levelAt p = clearAt gtLabel thLabel gtClear p := by
    intro p hp
    rw [congrFun hatc p, clearAt, ← clearLevel_eq_clearOf (kernelAt_le hgc.wf p) (hstarless p),
      hnat p hp, htl.levelAt hp, hgc.levelAt hp]
    rfl
  have hkn := (reads_ulabel hsn hfn hnew).congr hnat
  have hkc := (reads_ulabel hsc hfc hnewc).congr hcat
  obtain ⟨g, hg, hg0, hgcs, hgdef⟩ := exists_default_handle hgl.nent htl.nent hgc.nent hnent
    fun l hl ↦ (hcs l hl).1.fits.length.trans_lt (hcs l hl).1.fits.size
  simp only [List.forall_mem_cons, List.not_mem_nil, IsEmpty.forall_iff, implies_true,
    and_true] at hgdef
  obtain ⟨hdgt, hdth, hdgc, hdtc⟩ := hgdef
  have hdefault : newAt gtLabel thLabel cs (some g) = newAt gtLabel thLabel cs none := by
    simp only [newAt, kernelAt, hdgt, hdth, hgcs]
  rw [(reads_labelMax hgl.wf htl.wf hfit hlabel).compare_iff hkn,
    hkc.compare_iff (reads_labelMax hgc.wf htc hfitc hclear), hkn.compare_iff hkc,
    and_iff_right ⟨first_zero defLevel_of_level_zero defLevel_of_level_zero (hstarless _)
      (hstarless _), fun _ _ _ ↦ bound_le_newLevel (hstarless _).ne⟩]
  refine and_congr (third_check hgc.wf hown fun hs ↦ ?_) ?_
  · rw [← hdtc]
    exact hown g hg (hdth.trans hs)
  · rw [← second_check hgc.wf hstarless (hgate 0 (by decide)) fun hall ↦
      hdefault ▸ hdgc ▸ hall g hg hg0]
    refine iff_congr Iff.rfl (forall₂_congr fun h hh ↦ ?_)
    rw [← hnat (some h) fun _ hm ↦ Option.mem_some.mp hm ▸ hh]
    rfl

section Examples

variable {d h lv : Nat} {l : Label} {k : Iflow.Label}

theorem readFrom_alloc (hd : d ≤ lbLevelStar) : ReadFrom (.new d) (labelAlloc d) :=
  ⟨⟨labelAlloc_wf hd, Nat.two_pow_pos 32, fun _ _ ↦ rfl⟩,
    (Built.new (hd.trans_lt (by decide))).sound, rfl⟩

theorem readFrom_set (hd : d ≤ lbLevelStar) (hh : h < 2 ^ 61) (hne : ¬(h = 0 ∧ lv = 0))
    (hlv : lv ≤ lbLevelStar) (hl : (Label.new d).set (fun _ ↦ true) h lv = .ok l)
    (hk : labelSet32 plentyEnv (labelAlloc d) h lv = .ok k) :
    ReadFrom l k ∧ k.lbDefLevel = d ∧ k.handles.card ≤ 1 ∧
      ∀ g, labelGetLevel k g = if g = h then lv else d := by
  have hfit : labelNslots (labelAlloc d) < 2 ^ 31 := by
    show numLbEntInline + 0 * numLbEntPerPage < 2 ^ 31
    decide
  rw [labelSet32_eq hfit (labelAlloc_wf hd).fits] at hk
  obtain ⟨hbuilt, hcorr, hdef, -⟩ := corresponds_set hd hh hne hlv hl hk
  obtain ⟨-, hkdef, hlev⟩ := labelSet_spec (labelAlloc_wf hd) hh hlv hk
  have hspan : Spans {h} k := (spans_alloc hd).labelSet (Finset.mem_singleton_self h) hh hlv hk
  refine ⟨⟨hcorr, hbuilt.sound, hdef.trans hkdef.symm⟩, hkdef,
    Finset.card_le_card hspan.handles, fun g ↦ ?_⟩
  rw [hlev, if_neg hne]
  rfl

theorem card_union_le_of_few {a b : Iflow.Label} (ha : a.handles.card ≤ 1)
    (hb : b.handles.card ≤ 1) : (a.handles ∪ b.handles).card ≤ 2 ^ 31 :=
  (Finset.card_union_le _ _).trans ((Nat.add_le_add ha hb).trans (by decide))

theorem ulabelSetAll_succeeds {env : MemEnv} {ents : List Nat} (henv : env.NoFailure)
    (hk : WellFormed k) (hents : ∀ e ∈ ents, lbLevel e ≤ lbLevelStar) :
    ∃ d, ulabelSetAll env ents k = .ok d := by
  induction ents generalizing k with
  | nil => exact ⟨k, rfl⟩
  | cons e ents ih =>
    obtain ⟨he, hents⟩ := List.forall_mem_cons.mp hents
    obtain ⟨k', hset⟩ := labelSet_succeeds henv hk (lbHandle e) (lbLevel e)
    obtain ⟨d, hd⟩ := ih (labelSet_spec hk (lbHandle_lt e) he hset).1 hents
    exact ⟨d, by simp only [ulabelSetAll, not_lt.mpr he, ↓reduceIte, hset, hd]⟩

theorem ulabelToLabel32_succeeds {ul : ULabel} (hd : ul.ulDefault ≤ lbLevelStar)
    (hents : ∀ e ∈ ul.ulEnt, lbLevel e ≤ lbLevelStar) (hfit : ul.handles.card ≤ 2 ^ 31) :
    ∃ k, ulabelToLabel32 openUser plentyEnv ul = .ok k := by
  obtain ⟨k, hk⟩ := ulabelSetAll_succeeds plentyEnv_noFailure (labelAlloc_wf hd) hents
  refine ⟨k, ?_⟩
  rw [← ulabelSetAll32_eq (spans_alloc hd) hfit fun e he ↦
    List.mem_toFinset.mpr (List.mem_map_of_mem he)] at hk
  show (if ul.ulDefault > lbLevelStar then _ else _) = _
  rw [if_neg (by omega)]
  exact hk

def starAtFive : Label := { ulSize := 8, ulDefault := 1, ulEnt := [lbCode 5 lbLevelStar] }

def taintAtSeven : Label := { ulSize := 8, ulDefault := 0, ulEnt := [lbCode 7 2] }

theorem shared_star_admitted : ∃ (k kc labelBound clearBound newLabel newClear : Iflow.Label)
    (n c : Label), labelSet32 plentyEnv (labelAlloc 1) 5 lbLevelStar = .ok k ∧
      labelSet32 plentyEnv (labelAlloc 2) 5 3 = .ok kc ∧
      gateComputeLabels (fun _ ↦ true) starAtFive starAtFive (.new 2) (some taintAtSeven) none
        none = .ok (n, c) ∧ n.get 5 = lbLevelStar ∧ n.get 7 = 2 ∧ c.get 5 = 3 ∧
      labelMax32 plentyEnv k k .starhi = .ok labelBound ∧
      labelMax32 plentyEnv (labelAlloc 2) kc .starlo = .ok clearBound ∧
      ulabelToLabel32 openUser plentyEnv n.toULabel = .ok newLabel ∧
      ulabelToLabel32 openUser plentyEnv c.toULabel = .ok newClear ∧
      (ClearKept k k (labelAlloc 2) kc ∧
        ¬ LabelRaised k k (labelAlloc 2) (some taintAtSeven)) ∧
      ((labelCompareAll labelBound newLabel .starlo = .ok () ∧
        labelCompareAll newClear clearBound .starhi = .ok () ∧
        (labelCompareAll newLabel newClear .starlo = .ok () ↔
          ∀ h < 2 ^ 61, n.get h ≠ lbLevelStar →
            n.get h ≤ Label.starTo 0 (labelGetLevel (labelAlloc 2) h))) ↔
        ClearKept k k (labelAlloc 2) kc ∧
          ¬ LabelRaised k k (labelAlloc 2) (some taintAtSeven)) := by
  let n : Label := { ulSize := 8, ulDefault := 1, ulEnt := [lbCode 5 4, lbCode 7 2] }
  let c : Label := { ulSize := 8, ulDefault := 2, ulEnt := [lbCode 5 3, lbCode 7 2] }
  have hrun : gateComputeLabels (fun _ ↦ true) starAtFive starAtFive (.new 2) (some taintAtSeven)
      none none = .ok (n, c) := by decide +kernel
  obtain ⟨k, hk⟩ : ∃ k, labelSet32 plentyEnv (labelAlloc 1) 5 lbLevelStar = .ok k := ⟨_, rfl⟩
  obtain ⟨kc, hkc⟩ : ∃ k, labelSet32 plentyEnv (labelAlloc 2) 5 3 = .ok k := ⟨_, rfl⟩
  obtain ⟨hstar, -, hck, hlk⟩ := readFrom_set (l := starAtFive) (by decide) (by decide)
    (by decide) (by decide) rfl hk
  obtain ⟨hrc, -, hcc, hlc⟩ :=
    readFrom_set (by decide) (by decide) (by decide) (by decide) rfl hkc
  have h2 := readFrom_alloc (by decide : 2 ≤ lbLevelStar)
  have hfit := card_union_le_of_few hck hck
  have hfitc : ((labelAlloc 2).handles ∪ kc.handles).card ≤ 2 ^ 31 :=
    card_union_le_of_few (Nat.zero_le 1) hcc
  have henv := plentyEnv_noFailure
  obtain ⟨bound, hbound, -⟩ := labelMax32_maxOf .starhi henv hstar.wf hstar.wf hfit
  obtain ⟨cbound, hcbound, -⟩ := labelMax32_maxOf .starlo henv h2.wf hrc.wf hfitc
  obtain ⟨kn, hkn⟩ : ∃ d, ulabelToLabel32 openUser plentyEnv n.toULabel = .ok d :=
    ulabelToLabel32_succeeds (by decide) (by decide) (by decide)
  obtain ⟨kn', hkn'⟩ : ∃ d, ulabelToLabel32 openUser plentyEnv c.toULabel = .ok d :=
    ulabelToLabel32_succeeds (by decide) (by decide) (by decide)
  have htaint : Sound taintAtSeven :=
    (@Built.set (fun _ ↦ true) (.new 0) _ 7 2 (.new (by decide)) (by decide) (by decide) rfl).sound
  refine ⟨k, kc, bound, cbound, kn, kn', n, c, hk, hkc, hrun, by decide, by decide, by decide,
    hbound, hcbound, hkn, hkn', ⟨?_, ?_⟩, gate_labels_admitted hstar hstar h2 hrc.wf hrc.nent hfit
      hfitc ?_ ?_ ?_ hrun hbound hcbound hkn hkn'⟩
  · intro h0
    have hclear : clearAt k k (labelAlloc 2) (some 0) = 2 := by
      simp only [clearAt, kernelAt, hlk]
      rfl
    rw [hclear] at h0
    cases h0
  · rintro ⟨⟨h0, -⟩, -⟩
    simp only [newAt, kernelAt, hlk] at h0
    exact absurd h0 (by decide)
  · intro h _
    rw [hlk, labelAlloc_level]
    split <;> decide
  · intro h _ hs
    rw [hlk] at hs
    split at hs
    · rename_i h5
      rw [hlc, if_pos h5]
    · exact absurd hs (by decide)
  · intro l hl
    cases hl
    refine ⟨htaint, by decide, fun h ↦ ?_⟩
    simp only [taintAtSeven, Label.get, Ulabel.get]
    by_cases h7 : h = 7
    · subst h7
      decide
    · have hnone : [lbCode 7 2].find? (fun e ↦ lbHandle e = h) = none := by
        rw [List.find?_eq_none]
        intro e he
        rw [List.mem_singleton.mp he]
        exact fun h' ↦ h7 (of_decide_eq_true h').symm
      rw [hnone]
      decide

/-- The star of the gate at handle 0 gives the new clearance level 0 there, which the kernel
reads as the default 2, above the clearance 1 of the thread. -/
theorem clearance_zero_refused : ∃ (gtLabel gtClear thClear clearBound newClear : Iflow.Label)
      (gl gc n c : Label),
    labelSet32 plentyEnv (labelAlloc 1) 0 lbLevelStar = .ok gtLabel ∧
      labelSet32 plentyEnv (labelAlloc 2) 0 lbLevelStar = .ok gtClear ∧
      labelSet32 plentyEnv (labelAlloc 2) 0 1 = .ok thClear ∧
      ReadFrom gl gtLabel ∧ ReadFrom (.new 1) (labelAlloc 1) ∧ ReadFrom gc gtClear ∧
      Below .starlo gtLabel gtClear ∧ Below .starlo (labelAlloc 1) thClear ∧
      (∀ h, labelGetLevel (labelAlloc 1) h ≠ lbLevelStar) ∧
      gateComputeLabels (fun _ ↦ true) gl (.new 1) gc none none none = .ok (n, c) ∧
      labelMax32 plentyEnv gtClear thClear .starlo = .ok clearBound ∧
      ulabelToLabel32 openUser plentyEnv c.toULabel = .ok newClear ∧
      labelCompareAll newClear clearBound .starhi ≠ .ok () := by
  obtain ⟨gtLabel, hgt⟩ : ∃ k, labelSet32 plentyEnv (labelAlloc 1) 0 lbLevelStar = .ok k := ⟨_, rfl⟩
  obtain ⟨gtClear, hgc⟩ : ∃ k, labelSet32 plentyEnv (labelAlloc 2) 0 lbLevelStar = .ok k := ⟨_, rfl⟩
  obtain ⟨thClear, htc⟩ : ∃ k, labelSet32 plentyEnv (labelAlloc 2) 0 1 = .ok k := ⟨_, rfl⟩
  let gl : Label := { ulSize := 8, ulDefault := 1, ulEnt := [lbCode 0 4] }
  let gc : Label := { ulSize := 8, ulDefault := 2, ulEnt := [lbCode 0 4] }
  let tc : Label := { ulSize := 8, ulDefault := 2, ulEnt := [lbCode 0 1] }
  let n : Label := { ulSize := 8, ulDefault := 1, ulEnt := [lbCode 0 4] }
  let c : Label := { ulSize := 8, ulDefault := 2, ulEnt := [lbCode 0 0] }
  have hrun : gateComputeLabels (fun _ ↦ true) gl (.new 1) gc none none none = .ok (n, c) := by
    decide +kernel
  obtain ⟨hrgl, -, -, hlgl⟩ :=
    readFrom_set (l := gl) (by decide) (by decide) (by decide) (by decide) rfl hgt
  obtain ⟨hrgc, hdgc, hcgc, hlgc⟩ :=
    readFrom_set (l := gc) (by decide) (by decide) (by decide) (by decide) rfl hgc
  obtain ⟨hrtc, hdtc, hctc, hltc⟩ :=
    readFrom_set (l := tc) (by decide) (by decide) (by decide) (by decide) rfl htc
  have h1 := readFrom_alloc (by decide : 1 ≤ lbLevelStar)
  have hfitc := card_union_le_of_few hcgc hctc
  obtain ⟨cbound, hcbound, -⟩ := labelMax32_maxOf .starlo plentyEnv_noFailure hrgc.wf hrtc.wf hfitc
  obtain ⟨kc, hkc⟩ : ∃ d, ulabelToLabel32 openUser plentyEnv c.toULabel = .ok d :=
    ulabelToLabel32_succeeds (by decide) (by decide) (by decide)
  obtain ⟨-, ⟨hsc, hfc⟩, -⟩ := gateComputeLabels_levelAt hrgl.sound h1.sound hrgc.sound
    (fun l hl ↦ by cases hl) hrun
  refine ⟨gtLabel, gtClear, thClear, cbound, kc, gl, gc, n, c, hgt, hgc, htc, hrgl, h1, hrgc,
    fun h ↦ ?_, fun h ↦ ?_, fun h ↦ ?_, hrun, hcbound, hkc, fun hok ↦ ?_⟩
  · rw [hlgl, hlgc]
    split <;> decide
  · rw [hltc, labelAlloc_level]
    split <;> decide
  · rw [labelAlloc_level]
    decide
  · have hzero := (((reads_ulabel hsc hfc hkc).compare_iff
      (reads_labelMax hrgc.wf hrtc.wf hfitc hcbound)).mp hok).1
    simp only [kernelAt, hlgc, hltc, hdgc, hdtc] at hzero
    exact absurd hzero (by decide)

end Examples

end HiStar.Userlabel
