import HiStar.Userlabel.Agree

namespace HiStar.Userlabel

open Iflow Lib LevelComparator

namespace Label

/-- Merge `other` into `l` by way of `tmp`, which is left behind. -/
def mergeVia (mem : Heap) (l other tmp : Label) (m : Nat → Nat → LevelComparator → Nat)
    (cmp : LevelComparator) : Except Thrown (Label × Label) := do
  let tmp ← l.merge mem other tmp m cmp
  let l ← l.assign mem tmp
  pure (l, tmp)

def mergeOpt (mem : Heap) (l : Label) (other : Option Label) (tmp : Label)
    (m : Nat → Nat → LevelComparator → Nat) (cmp : LevelComparator) :
    Except Thrown (Label × Label) :=
  match other with
  | some other => l.mergeVia mem other tmp m cmp
  | none => .ok (l, tmp)

end Label

/-- The clearance that `dr` asks for, if it is there. -/
def grantClear (mem : Heap) (dr : Option Label) (tgtLabel tgtClear tmp : Label) :
    Except Thrown (Label × Label) :=
  match dr with
  | some dr => do
    let tmp ← tgtClear.merge mem dr tmp Label.max .starlo
    let tgtClear ← tmp.merge mem tgtLabel tgtClear Label.max .starlo
    pure (tgtClear, tmp)
  | none => .ok (tgtClear, tmp)

def commonStar3 (mem : Heap) (tgtLabel threadLabel : Label) : Except Thrown Label := do
  let common ← tgtLabel.merge mem threadLabel (.new lbLevelUndef) Label.max .starlo
  let common ← common.transform mem (Label.nonstarTo 0)
  common.transform mem (Label.starTo 3)

/-- `gate_compute_labels`, from the labels that `obj_get_label`, `thread_cur_label` and
`gate_get_clearance` read. -/
def gateComputeLabels (mem : Heap) (gateLabel threadLabel gateClear : Label)
    (cs ds dr : Option Label) : Except Thrown (Label × Label) := do
  let (tgtLabel, tmp) ← gateLabel.mergeOpt mem ds (.new lbLevelUndef) Label.min .starlo
  let starless ← threadLabel.transform mem (Label.starTo 0)
  let (tgtLabel, tmp) ← tgtLabel.mergeVia mem starless tmp Label.max .starhi
  let (tgtLabel, tmp) ← tgtLabel.mergeOpt mem cs tmp Label.max .starhi
  let (tgtClear, tmp) ← grantClear mem dr tgtLabel gateClear tmp
  let common ← commonStar3 mem tgtLabel threadLabel
  let (tgtClear, _) ← tgtClear.mergeVia mem common tmp Label.max .starlo
  pure (tgtLabel, tgtClear)

def Label.levelAt (l : Label) : Option Nat → Nat
  | some h => l.get h
  | none => l.ulDefault

/-- A label with an array of its own. -/
structure Growing (l : Label) : Prop extends Fits l where
  dynamic : l.dynamic = true

def Few (l : Label) : Prop := l.handles.toFinset.card ≤ 2 ^ 31

section Steps

variable {mem : Heap} {l l' tmp tmp' a b : Label} {cmp : LevelComparator}

theorem growing_new (d : Nat) : Growing (.new d) := ⟨⟨le_rfl, Nat.two_pow_pos 32, fun _ ↦ .inl rfl⟩, rfl⟩

/-- The size of the array is doubled in 32 bits, so that it does not pass `2 ^ 31`. -/
theorem Growing.few (hl : Growing l) : Few l := by
  have hsize : l.ulSize ≤ 2 ^ 31 := by
    obtain h0 | ⟨k, hk, he⟩ := hl.doubled hl.dynamic
    · omega
    · rw [he]
      exact Nat.pow_le_pow_right (by decide) (by omega)
  have hlen : l.handles.length = l.ulEnt.length := List.length_map _
  exact (List.toFinset_card_le _).trans (hlen.trans_le (hl.length.trans hsize))

theorem assign_few {src : Label} (hsrc : Few src) (hok : l.assign mem src = .ok l') : Few l' := by
  have hsub := Label.setAll_handles_subset (fun _ hh ↦ Ulabel.handles_lt hh) hok
  refine (Finset.card_le_card fun g hg ↦ ?_).trans hsrc
  rw [List.mem_toFinset] at hg ⊢
  simpa [Label.reset, Ulabel.handles] using hsub hg

theorem levelAt_eq {f : Option Nat → Nat} (hdef : l.ulDefault = f none)
    (hget : l.get = fun h ↦ f (some h)) : l.levelAt = f := by
  funext p
  cases p with
  | none => exact hdef
  | some h => exact congrFun hget h

theorem max_word {x y : Nat} (hx : x < 8) (hy : y < 8) : Label.max x y cmp < 8 := by
  unfold Label.max
  split <;> assumption

theorem merge_levelAt (ha : Sound a) (hb : Sound b) (htmp : Growing tmp)
    (hok : a.merge mem b tmp Label.max cmp = .ok l') :
    Sound l' ∧ Growing l' ∧ l'.levelAt = fun p ↦ cmp.max (a.levelAt p) (b.levelAt p) := by
  obtain ⟨hs, hdef, hget⟩ := Sound.merge ha hb htmp.toFits (fun _ _ ↦ max_word) hok
  obtain ⟨l₁, h₁, h₂⟩ := except_bind_ok hok
  have hreset := Label.setAll_dynamic h₁
  have hdyn : l'.dynamic = tmp.dynamic := (Label.setAll_dynamic h₂).trans hreset
  exact ⟨hs, ⟨hs.fits, hdyn.trans htmp.dynamic⟩, levelAt_eq hdef hget⟩

theorem transform_levelAt {t : Nat → Nat} (hl : Sound l) (ht : ∀ x, x < 8 → t x < 8)
    (hok : l.transform mem t = .ok l') : Sound l' ∧ l'.levelAt = fun p ↦ t (l.levelAt p) := by
  obtain ⟨hs, hdef, hget⟩ := Sound.transform hl ht hok
  exact ⟨hs, levelAt_eq hdef hget⟩

theorem mergeVia_levelAt (ha : Sound a) (hb : Sound b) (htmp : Growing tmp)
    (hok : a.mergeVia mem b tmp Label.max cmp = .ok (l', tmp')) :
    (Sound l' ∧ Few l') ∧ Growing tmp' ∧
      l'.levelAt = fun p ↦ cmp.max (a.levelAt p) (b.levelAt p) := by
  obtain ⟨tmp₁, hmerge, hok⟩ := except_bind_ok hok
  obtain ⟨l₁, hassign, hok⟩ := except_bind_ok hok
  cases hok
  obtain ⟨htmp', hgrow, hat⟩ := merge_levelAt ha hb htmp hmerge
  obtain ⟨hs, hdef, hget⟩ := Sound.assign ha.fits htmp' hassign
  exact ⟨⟨hs, assign_few hgrow.few hassign⟩, hgrow, hat ▸ levelAt_eq hdef hget⟩

end Steps

def csLevel : Option Label → Option Nat → Nat
  | some cs, p => cs.levelAt p
  | none, _ => 0

/-- The target label, level by level: that of the gate, raised to those of the thread
without its stars and of the contamination. -/
def newLevel (g t c : Nat) : Nat := starhi.max (starhi.max g (Label.starTo 0 t)) c

def clearLevel (n t gc : Nat) : Nat :=
  starlo.max gc (Label.starTo 3 (Label.nonstarTo 0 (starlo.max n t)))

theorem starTo_word {arg x : Nat} (ha : arg < 8) (hx : x < 8) : Label.starTo arg x < 8 := by
  unfold Label.starTo
  split <;> assumption

theorem nonstarTo_word {arg x : Nat} (ha : arg < 8) (hx : x < 8) : Label.nonstarTo arg x < 8 := by
  unfold Label.nonstarTo
  split <;> assumption

theorem starhi_max_zero (x : Nat) : starhi.max x 0 = x := by
  unfold LevelComparator.max
  split
  · rename_i h
    rw [cmp_starhi_eq] at h
    omega
  · rfl

theorem mergeOpt_levelAt {mem : Heap} {a l' tmp tmp' : Label} {cs : Option Label}
    (ha : Sound a ∧ Few a) (hcs : ∀ l ∈ cs, Sound l) (htmp : Growing tmp)
    (hok : a.mergeOpt mem cs tmp Label.max .starhi = .ok (l', tmp')) :
    (Sound l' ∧ Few l') ∧ Growing tmp' ∧
      l'.levelAt = fun p ↦ starhi.max (a.levelAt p) (csLevel cs p) := by
  cases cs with
  | some l => exact mergeVia_levelAt ha.1 (hcs l rfl) htmp hok
  | none =>
    cases hok
    exact ⟨ha, htmp, funext fun p ↦ (starhi_max_zero _).symm⟩

theorem commonStar3_levelAt {mem : Heap} {n t common : Label} (hn : Sound n) (ht : Sound t)
    (hok : commonStar3 mem n t = .ok common) :
    Sound common ∧ common.levelAt = fun p ↦
      Label.starTo 3 (Label.nonstarTo 0 (starlo.max (n.levelAt p) (t.levelAt p))) := by
  obtain ⟨c₁, hmerge, hok⟩ := except_bind_ok hok
  obtain ⟨c₂, hnonstar, hstar⟩ := except_bind_ok hok
  obtain ⟨hs₁, -, hat₁⟩ := merge_levelAt hn ht (growing_new _) hmerge
  obtain ⟨hs₂, hat₂⟩ := transform_levelAt hs₁ (fun _ ↦ nonstarTo_word (by decide)) hnonstar
  obtain ⟨hs₃, hat₃⟩ := transform_levelAt hs₂ (fun _ ↦ starTo_word (by decide)) hstar
  rw [hat₃, hat₂, hat₁]
  exact ⟨hs₃, rfl⟩

theorem gateComputeLabels_levelAt {mem : Heap} {gl tl gc n c : Label} {cs : Option Label}
    (hgl : Sound gl) (htl : Sound tl) (hgc : Sound gc) (hcs : ∀ l ∈ cs, Sound l)
    (hok : gateComputeLabels mem gl tl gc cs none none = .ok (n, c)) :
    ((Sound n ∧ Few n) ∧
        n.levelAt = fun p ↦ newLevel (gl.levelAt p) (tl.levelAt p) (csLevel cs p)) ∧
      (Sound c ∧ Few c) ∧
        c.levelAt = fun p ↦ clearLevel (n.levelAt p) (tl.levelAt p) (gc.levelAt p) := by
  obtain ⟨⟨_, _⟩, hds, hok⟩ := except_bind_ok hok
  cases hds
  obtain ⟨starless, hstarless, hok⟩ := except_bind_ok hok
  obtain ⟨⟨n₁, tmp₁⟩, hthread, hok⟩ := except_bind_ok hok
  obtain ⟨⟨n₂, tmp₂⟩, hcont, hok⟩ := except_bind_ok hok
  obtain ⟨⟨_, _⟩, hdr, hok⟩ := except_bind_ok hok
  cases hdr
  obtain ⟨common, hcommon, hok⟩ := except_bind_ok hok
  obtain ⟨⟨c₁, tmp₃⟩, hclear, hok⟩ := except_bind_ok hok
  cases hok
  obtain ⟨hs₀, hat₀⟩ := transform_levelAt htl (fun _ ↦ starTo_word (by decide)) hstarless
  obtain ⟨hs₁, hf₁, hat₁⟩ := mergeVia_levelAt hgl hs₀ (growing_new _) hthread
  obtain ⟨hs₂, hf₂, hat₂⟩ := mergeOpt_levelAt hs₁ hcs hf₁ hcont
  obtain ⟨hs₃, hat₃⟩ := commonStar3_levelAt hs₂.1 htl hcommon
  obtain ⟨hs₄, -, hat₄⟩ := mergeVia_levelAt hgc hs₃ hf₂ hclear
  refine ⟨⟨hs₂, ?_⟩, hs₄, ?_⟩
  · rw [hat₂, hat₁, hat₀]
    rfl
  · rw [hat₄, hat₃]
    rfl

section Levels

variable {g t c n gc tc : Nat}

theorem bound_le_newLevel (hc : c ≠ lbLevelStar) :
    starlo.cmp (starhi.max g t) (newLevel g t c) = true := by
  by_cases hstar : starhi.max g t = lbLevelStar
  · exact cmp_starlo_eq.mpr (.inl hstar)
  · have hle := cmp_max starhi g t
    rw [cmp_starhi_iff hstar, cmp_starhi_iff hstar] at hle
    have hne := max_ne_star starhi hstar hc
    rw [newLevel, Label.starTo, if_neg hle.2.1, cmp_starlo_iff hstar]
    exact ⟨hne, (le_max starhi hstar hc).1⟩

theorem clearLevel_eq (hgc : gc ≤ lbLevelStar) :
    clearLevel n t gc = if n = lbLevelStar ∧ t = lbLevelStar then 3
      else if gc = lbLevelStar then 0 else gc := by
  have hstar : starlo.max n t = lbLevelStar ↔ n = lbLevelStar ∧ t = lbLevelStar := by
    constructor
    · intro h
      have hle := cmp_max starlo n t
      rw [h, cmp_starlo_eq, cmp_starlo_eq] at hle
      simp only [lbLevelStar] at hle ⊢
      omega
    · rintro ⟨rfl, rfl⟩
      exact max_self starlo _
  unfold clearLevel Label.starTo Label.nonstarTo
  by_cases hboth : n = lbLevelStar ∧ t = lbLevelStar
  · rw [hstar.mpr hboth]
    simp only [ne_eq, not_true_eq_false, hboth, and_self, ↓reduceIte]
    refine if_pos (cmp_starlo_eq.mpr ?_)
    simp only [lbLevelStar] at hgc
    omega
  · have hmax : starlo.max n t ≠ lbLevelStar := fun h ↦ hboth (hstar.mp h)
    simp only [hmax, hboth, ne_eq, not_false_eq_true, ↓reduceIte]
    rw [if_neg (by decide : ¬0 = lbLevelStar)]
    by_cases hgc4 : gc = lbLevelStar
    · rw [if_pos hgc4]
      exact if_pos (cmp_starlo_eq.mpr (.inl hgc4))
    · have hge := (le_max starlo hgc4 (by decide : 0 ≠ lbLevelStar)).1
      rw [if_neg hgc4]
      rcases max_mem starlo gc 0 with h | h
      · exact h
      · omega

theorem clearLevel_le_bound (hgc : gc ≤ lbLevelStar) (htc : t = lbLevelStar → tc = 3) :
    starhi.cmp (clearLevel n t gc) (starlo.max gc tc) = true := by
  have hle := cmp_max starlo gc tc
  rw [cmp_starlo_eq, cmp_starlo_eq] at hle
  rw [clearLevel_eq hgc, cmp_starhi_eq]
  split_ifs with hboth hstar
  · have := htc hboth.2
    omega
  · omega
  · simp only [lbLevelStar] at hgc hstar
    omega

theorem newLevel_le_clearLevel (hgc : gc ≤ lbLevelStar) :
    starlo.cmp n (clearLevel n t gc) = true ↔ (n ≠ lbLevelStar → n ≤ Label.starTo 0 gc) := by
  rw [clearLevel_eq hgc, Label.starTo]
  by_cases hn : n = lbLevelStar
  · exact iff_of_true (cmp_starlo_eq.mpr (.inl hn)) fun h ↦ absurd hn h
  · rw [cmp_starlo_iff hn, if_neg fun h ↦ hn h.1]
    split_ifs with hstar
    · exact ⟨fun h _ ↦ h.2, fun h ↦ ⟨by decide, h hn⟩⟩
    · exact ⟨fun h _ ↦ h.2, fun h ↦ ⟨hstar, h hn⟩⟩

end Levels

end HiStar.Userlabel
