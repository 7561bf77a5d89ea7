import HiStar.Iflow.LabelOps

namespace HiStar.Iflow

open Lib

def toInt32 (n : Nat) : Int :=
  if n % 2 ^ 32 < 2 ^ 31 then (n % 2 ^ 32 : Nat) else (n % 2 ^ 32 : Nat) - (2 ^ 32 : Nat)

variable {n h lv : Nat} {l : Label} {env : MemEnv}

theorem toInt32_of_lt (h : n < 2 ^ 31) : toInt32 n = n := by
  have hm : n % 2 ^ 32 = n := Nat.mod_eq_of_lt (by omega)
  simp only [toInt32, hm, h, ↓reduceIte]

theorem toInt32_neg (h1 : 2 ^ 31 ≤ n) (h2 : n < 2 ^ 32) : toInt32 n < 0 := by
  have hm : n % 2 ^ 32 = n := Nat.mod_eq_of_lt h2
  have hge : ¬ n < 2 ^ 31 := by omega
  simp only [toInt32, hm, hge, ↓reduceIte]
  omega

/-- The search of `label_set` with its `int32_t` result, -1 for none. -/
def labelSetScan32 (l : Label) (handle : Nat) : Nat → Nat → Int → Int
  | _, 0, slotIdx => slotIdx
  | i, n + 1, slotIdx =>
    if l.slot i = 0 ∧ slotIdx < 0 then labelSetScan32 l handle (i + 1) n (toInt32 i)
    else if slotHas l handle i then toInt32 i
    else labelSetScan32 l handle (i + 1) n slotIdx

/-- `label_set` with the widths of the C code, for labels of fewer than
`2 ^ 32` slots. -/
def labelSet32 (env : MemEnv) (l : Label) (handle level : Nat) : Except Errno Label :=
  let slotIdx := labelSetScan32 l handle 0 l.lbNent (-1)
  let nslots := labelNslots l % 2 ^ 32
  let slotIdx := if slotIdx < 0 ∧ l.lbNent < nslots then toInt32 l.lbNent else slotIdx
  if slotIdx < 0 then
    match env.kobjectSetNbytes (l.npages + 1) with
    | .ok () => labelPut env l.addPage nslots handle level
    | .error e => .error e
  else labelPut env l slotIdx.toNat handle level

def slotIdxOf : Option Nat → Int
  | some j => j
  | none => -1

theorem slotIdxOf_neg {idx : Option Nat} : slotIdxOf idx < 0 ↔ idx = none := by
  cases idx with
  | none => simp [slotIdxOf]
  | some j => simp [slotIdxOf]

theorem labelSetScan32_eq {i : Nat} (hn : i + n ≤ 2 ^ 31) (idx : Option Nat) :
    labelSetScan32 l h i n (slotIdxOf idx) = slotIdxOf (labelSetScan l h i n idx) := by
  induction n generalizing i idx with
  | zero => rfl
  | succ n ih =>
    simp only [labelSetScan32, labelSetScan, toInt32_of_lt (show i < 2 ^ 31 by omega),
      slotIdxOf_neg]
    by_cases h0 : l.slot i = 0 ∧ idx = none
    · simp only [h0, and_self, ↓reduceIte]
      exact ih (by omega) (some i)
    · simp only [h0, ↓reduceIte]
      by_cases hh : slotHas l h i = true
      · simp only [hh, ↓reduceIte, slotIdxOf]
      · simp only [hh]
        exact ih (by omega) idx

theorem labelSet32_eq_of_room (hn : l.lbNent ≤ 2 ^ 31) (hns : labelNslots l < 2 ^ 32)
    (hroom : labelSetScan l h 0 l.lbNent none = none → l.lbNent < 2 ^ 31) :
    labelSet32 env l h lv = labelSet env l h lv := by
  have hscan : labelSetScan32 l h 0 l.lbNent (-1) = slotIdxOf (labelSetScan l h 0 l.lbNent none) :=
    labelSetScan32_eq (by omega) none
  have hmod : labelNslots l % 2 ^ 32 = labelNslots l := Nat.mod_eq_of_lt hns
  unfold labelSet32 labelSet
  rw [hscan, hmod]
  cases hs : labelSetScan l h 0 l.lbNent none with
  | some j =>
    have hj : ¬ ((j : Int) < 0) := by omega
    simp only [slotIdxOf, hj, false_and, ↓reduceIte, Int.toNat_natCast]
  | none =>
    have hlast := hroom hs
    by_cases hlt : l.lbNent < labelNslots l
    · have h32 : toInt32 l.lbNent = l.lbNent := toInt32_of_lt hlast
      have hj : ¬ ((l.lbNent : Int) < 0) := by omega
      simp [slotIdxOf, hlt, h32, hj]
    · simp only [slotIdxOf, hlt, and_false, ↓reduceIte]
      cases env.kobjectSetNbytes (l.npages + 1) <;> rfl

theorem labelSet32_eq (hn : labelNslots l < 2 ^ 31)
    (hfits : l.lbNent ≤ labelNslots l) : labelSet32 env l h lv = labelSet env l h lv :=
  labelSet32_eq_of_room (by omega) (by omega) fun _ ↦ by omega

structure MemEnv.NoFailure (env : MemEnv) : Prop where
  setNbytes : ∀ n, env.kobjectSetNbytes n = .ok ()
  getPage : ∀ n, env.kobjectGetPage n = .ok ()

def plentyEnv : MemEnv := ⟨fun _ ↦ .ok (), fun _ ↦ .ok (), .ok (), .ok ()⟩

theorem plentyEnv_noFailure : plentyEnv.NoFailure := ⟨fun _ ↦ rfl, fun _ ↦ rfl⟩

theorem labelPut_succeeds (henv : env.NoFailure) (l : Label) (i h lv : Nat)
    (hi : l.slot i = 0 ∨ lbHandle (l.slot i) = h) : ∃ l', labelPut env l i h lv = .ok l' := by
  have hw : labelGetSlotpWrite env l i = .ok (l.extend i) := by
    unfold labelGetSlotpWrite
    split
    · rfl
    · rw [henv.getPage]
  rw [← (extend_fields l i).2.2.2 i] at hi
  refine ⟨(l.extend i).setSlot i (if lv = l.lbDefLevel then 0 else lbCode h lv), ?_⟩
  simp only [labelPut, hw, hi, ↓reduceIte]

theorem labelSet_succeeds (henv : env.NoFailure) (hl : WellFormed l)
    (h lv : Nat) : ∃ l', labelSet env l h lv = .ok l' := by
  unfold labelSet
  rcases labelSetScan_spec (l := l) (h := h) (i := 0) (n := l.lbNent) none with
    ⟨i, -, -, hs, hhas⟩ | ⟨-, hs | ⟨i, -, -, hz, hs⟩⟩
  · rw [hs]
    exact labelPut_succeeds henv _ _ _ _ (.inr (slotHas_iff.mp hhas).2)
  · rw [hs]
    simp only
    split
    · exact labelPut_succeeds henv _ _ _ _ (.inl (hl.tail _ le_rfl))
    · rw [henv.setNbytes]
      exact labelPut_succeeds henv _ _ _ _
        (.inl ((addPage_slot hl _).trans (hl.tail _ hl.fits)))
  · rw [hs]
    exact labelPut_succeeds henv _ _ _ _ (.inl hz)

def labelMaxFrom32 (env : MemEnv) (src : Label) (f : Nat → Nat → Nat) (dst : Label) :
    Except Errno Label :=
  foldFrom (fun i dst ↦
    match labelGetSlotpRead src i with
    | .error e => .error e
    | .ok ent =>
      if ent = 0 then .ok dst
      else labelSet32 env dst (lbHandle ent) (f (lbHandle ent) (lbLevel ent))) 0 src.lbNent dst

def labelMax32 (env : MemEnv) (a b : Label) (leq : LevelComparator) : Except Errno Label :=
  match labelMaxFrom32 env a (fun h alv ↦ leq.max alv (labelGetLevel b h))
      (labelAlloc (leq.max a.lbDefLevel b.lbDefLevel)) with
  | .error e => .error e
  | .ok dst => labelMaxFrom32 env b (fun h blv ↦ leq.max (labelGetLevel a h) blv) dst

def ulabelSetAll32 (env : MemEnv) : List Nat → Label → Except Errno Label
  | [], l => .ok l
  | ulVal :: rest, l =>
    if lbLevel ulVal > lbLevelStar then .error .inval
    else
      match labelSet32 env l (lbHandle ulVal) (lbLevel ulVal) with
      | .ok l' => ulabelSetAll32 env rest l'
      | .error e => .error e

theorem labelSetScan_full {i : Nat} (hs : labelSetScan l h i n none = none) :
    ∀ j, i ≤ j → j < i + n → l.slot j ≠ 0 ∧ slotHas l h j = false := by
  have hsome : ∀ {i n j : Nat}, labelSetScan l h i n (some j) ≠ none := by
    intro i n
    induction n generalizing i with
    | zero => exact fun he ↦ by cases he
    | succ n ih =>
      intro j
      simp only [labelSetScan, reduceCtorEq, and_false, ↓reduceIte]
      split
      · exact fun he ↦ by cases he
      · exact ih
  induction n generalizing i with
  | zero => exact fun j h1 h2 ↦ by omega
  | succ n ih =>
    simp only [labelSetScan, and_true] at hs
    split at hs
    · exact absurd hs hsome
    next hne =>
      split at hs
      · cases hs
      next hh =>
        intro j h1 h2
        rcases Nat.eq_or_lt_of_le h1 with rfl | hlt
        · exact ⟨hne, by simpa using hh⟩
        · exact ih hs j hlt (by omega)

/-- Where `label_set` writes: the slot that its search found, or the first one after those in
use. -/
theorem labelSet_slots {l' : Label} (hl : WellFormed l) (hok : labelSet env l h lv = .ok l') :
    ∃ i, i ≤ l.lbNent ∧ (i = l.lbNent → labelSetScan l h 0 l.lbNent none = none) ∧
      l'.lbNent = max l.lbNent (i + 1) ∧
      labelNslots l' ≤ max (labelNslots l) (l'.lbNent + 512) ∧
      ∀ j, l'.slot j = if j = i then (if lv = l.lbDefLevel then 0 else lbCode h lv) else l.slot j := by
  have hfits := hl.fits
  unfold labelSet at hok
  split at hok
  next i hs =>
    have hi : i < l.lbNent := by
      rcases labelSetScan_spec (l := l) (h := h) (i := 0) (n := l.lbNent) none with
        ⟨j, -, hj, he, -⟩ | ⟨-, he | ⟨j, -, hj, -, he⟩⟩ <;> rw [hs] at he <;> cases he <;> omega
    obtain ⟨-, hp, hn, hslot⟩ := labelPut_ok hok
    refine ⟨i, hi.le, by omega, hn, ?_, hslot⟩
    simp only [labelNslots, hp]
    omega
  next hs =>
    split at hok
    next hlt =>
      obtain ⟨-, hp, hn, hslot⟩ := labelPut_ok hok
      refine ⟨l.lbNent, le_rfl, fun _ ↦ hs, hn, ?_, hslot⟩
      simp only [labelNslots, hp]
      omega
    next hge =>
      split at hok
      next =>
        obtain ⟨-, hp, hn, hslot⟩ := labelPut_ok hok
        have he : labelNslots l = l.lbNent := by omega
        have hent : l.addPage.lbNent = l.lbNent := rfl
        refine ⟨l.lbNent, le_rfl, fun _ ↦ hs, by omega, ?_, fun j ↦ ?_⟩
        · have hadd : labelNslots l.addPage = labelNslots l + 512 := by
            simp only [labelNslots, Label.addPage, numLbEntPerPage]
            omega
          have hns : labelNslots l' = labelNslots l.addPage := by simp only [labelNslots, hp]
          omega
        · rw [hslot, addPage_slot hl, he]
          rfl
      next => cases hok

def Label.handles (l : Label) : Finset Nat :=
  ((Finset.range l.lbNent).filter fun i ↦ l.slot i ≠ 0).image fun i ↦ lbHandle (l.slot i)

theorem mem_handles : h ∈ l.handles ↔ ∃ i, i < l.lbNent ∧ slotHas l h i = true := by
  simp only [Label.handles, Finset.mem_image, Finset.mem_filter, Finset.mem_range, slotHas_iff,
    and_assoc]

theorem card_handles_le (l : Label) : l.handles.card ≤ l.lbNent :=
  Finset.card_image_le.trans ((Finset.card_filter_le _ _).trans (Finset.card_range _).le)

theorem level_of_notMem_handles (hh : h ∉ l.handles) : labelGetLevel l h = l.lbDefLevel :=
  level_of_no_slot fun i hi ↦ by
    by_contra hs
    exact hh (mem_handles.mpr ⟨i, hi, by simpa using hs⟩)

/-- A label that has grown from nothing by entries for the handles of `S`. -/
structure Spans (S : Finset Nat) (l : Label) : Prop where
  wf : WellFormed l
  handles : l.handles ⊆ S
  nent : l.lbNent ≤ S.card
  nslots : labelNslots l ≤ l.lbNent + 512

theorem spans_alloc {S : Finset Nat} {d : Nat} (hd : d ≤ lbLevelStar) : Spans S (labelAlloc d) where
  wf := labelAlloc_wf hd
  handles _ hh := by
    obtain ⟨i, hi, -⟩ := mem_handles.mp hh
    exact absurd hi (Nat.not_lt_zero i)
  nent := Nat.zero_le _
  nslots := by simp [labelNslots, labelAlloc, numLbEntInline]

namespace Spans

variable {env : MemEnv} {S : Finset Nat} {l l' : Label} {h lv : Nat}

/-- When the search finds neither the handle nor an empty slot, the slots in use have as many
handles, none of them the one looked for. -/
theorem room (hl : Spans S l) (hh : h ∈ S) (hfull : labelSetScan l h 0 l.lbNent none = none) :
    l.lbNent < S.card := by
  have hslots := labelSetScan_full hfull
  have hcard : l.handles.card = l.lbNent := by
    have hall : ((Finset.range l.lbNent).filter fun i ↦ l.slot i ≠ 0) = Finset.range l.lbNent :=
      Finset.filter_true_of_mem fun i hi ↦
        (hslots i (Nat.zero_le _) (by simpa using hi)).1
    rw [Label.handles, hall, Finset.card_image_of_injOn, Finset.card_range]
    intro i hi j hj he
    have hi' : i < l.lbNent := by simpa using hi
    have hj' : j < l.lbNent := by simpa using hj
    exact hl.wf.distinct i j hi' hj' (hslots i (Nat.zero_le _) (by omega)).1
      (hslots j (Nat.zero_le _) (by omega)).1 he
  have hnot : h ∉ l.handles := fun hm ↦ by
    obtain ⟨i, hi, hs⟩ := mem_handles.mp hm
    rw [(hslots i (Nat.zero_le _) (by omega)).2] at hs
    cases hs
  have hins := Finset.card_le_card (Finset.insert_subset hh hl.handles)
  rw [Finset.card_insert_of_notMem hnot, hcard] at hins
  omega

theorem labelSet32_eq (hl : Spans S l) (hS : S.card ≤ 2 ^ 31) (hh : h ∈ S) :
    labelSet32 env l h lv = labelSet env l h lv := by
  have h1 := hl.nent
  have h2 := hl.nslots
  exact labelSet32_eq_of_room (by omega) (by omega) fun hfull ↦
    (hl.room hh hfull).trans_le hS

theorem labelSet (hl : Spans S l) (hh : h ∈ S) (hlt : h < 2 ^ 61) (hlv : lv ≤ lbLevelStar)
    (hok : labelSet env l h lv = .ok l') : Spans S l' := by
  obtain ⟨i, hi, hfull, hn, hns, hslot⟩ := labelSet_slots hl.wf hok
  have hnent := hl.nent
  have hslots := hl.nslots
  refine ⟨(labelSet_spec hl.wf hlt hlv hok).1, fun g hg ↦ ?_, ?_, by omega⟩
  · obtain ⟨j, hj, hs⟩ := mem_handles.mp hg
    obtain ⟨hne, rfl⟩ := slotHas_iff.mp hs
    rw [hslot] at hne ⊢
    by_cases hji : j = i
    · rw [if_pos hji] at hne ⊢
      split at hne
      · exact absurd rfl hne
      next hd =>
        rw [if_neg hd, lbHandle_code hlt]
        exact hh
    · rw [if_neg hji] at hne ⊢
      refine hl.handles (mem_handles.mpr ⟨j, ?_, slotHas_iff.mpr ⟨hne, rfl⟩⟩)
      by_contra hge
      exact hne (hl.wf.tail j (by omega))
  · rcases Nat.eq_or_lt_of_le hi with he | hlt'
    · have := hl.room hh (hfull he)
      omega
    · omega

end Spans

section Max

variable {env : MemEnv} {src dst dst' : Label} {f : Nat → Nat → Nat} {S : Finset Nat}

theorem labelMaxFrom32_eq (hsrc : WellFormed src) (hS : S.card ≤ 2 ^ 31) (hsub : src.handles ⊆ S)
    (hdst : Spans S dst) (hf : ∀ h lv, lv ≤ lbLevelStar → f h lv ≤ lbLevelStar) :
    labelMaxFrom32 env src f dst = labelMaxFrom env src f dst := by
  refine foldFrom_congr (I := fun _ d ↦ Spans S d) (fun j c _ hj hc ↦ ?_) hdst
  have hread : labelGetSlotpRead src j = .ok (src.slot j) := by
    have := hsrc.fits
    simp only [labelGetSlotpRead, show j < labelNslots src by omega, ↓reduceIte]
  simp only [hread]
  split
  · exact ⟨rfl, fun d hd ↦ by cases hd; exact hc⟩
  next hne =>
    have hmem : lbHandle (src.slot j) ∈ S :=
      hsub (mem_handles.mpr ⟨j, by omega, slotHas_iff.mpr ⟨hne, rfl⟩⟩)
    refine ⟨hc.labelSet32_eq hS hmem, fun d hd ↦ ?_⟩
    exact hc.labelSet hmem (lbHandle_lt _) (hf _ _ (hsrc.level_le j (by omega) hne)) hd

theorem labelMaxFrom_spans (hsrc : WellFormed src) (hsub : src.handles ⊆ S) (hdst : Spans S dst)
    (hf : ∀ h lv, lv ≤ lbLevelStar → f h lv ≤ lbLevelStar)
    (hok : labelMaxFrom env src f dst = .ok dst') : Spans S dst' := by
  refine foldFrom_inv (I := fun _ d ↦ Spans S d) (fun j c d _ hj hc hstep ↦ ?_) hdst hok
  have hfits := hsrc.fits
  simp only [labelGetSlotpRead, show j < labelNslots src by omega, ↓reduceIte] at hstep
  split at hstep
  · cases hstep
    exact hc
  next hne =>
    exact hc.labelSet (hsub (mem_handles.mpr ⟨j, by omega, slotHas_iff.mpr ⟨hne, rfl⟩⟩))
      (lbHandle_lt _) (hf _ _ (hsrc.level_le j (by omega) hne)) hstep

theorem labelMaxFrom_succeeds (henv : env.NoFailure) (hsrc : WellFormed src) (hdst : WellFormed dst)
    (hf : ∀ h lv, lv ≤ lbLevelStar → f h lv ≤ lbLevelStar) :
    ∃ dst', labelMaxFrom env src f dst = .ok dst' := by
  refine foldFrom_succeeds (I := fun _ d ↦ WellFormed d) (fun j c _ hj hc ↦ ?_) hdst
  have hfits := hsrc.fits
  simp only [labelGetSlotpRead, show j < labelNslots src by omega, ↓reduceIte]
  split
  · exact ⟨c, rfl, hc⟩
  next hne =>
    obtain ⟨d, hd⟩ := labelSet_succeeds henv hc (lbHandle (src.slot j))
      (f (lbHandle (src.slot j)) (lbLevel (src.slot j)))
    exact ⟨d, hd, (labelSet_spec hc (lbHandle_lt _)
      (hf _ _ (hsrc.level_le j (by omega) hne)) hd).1⟩

end Max

section Operands

variable {env : MemEnv} {a b d : Label} {leq : LevelComparator}

theorem max_level_le (leq : LevelComparator) (ha : WellFormed a) (h : Nat) {lv : Nat}
    (hlv : lv ≤ lbLevelStar) :
    leq.max (labelGetLevel a h) lv ≤ lbLevelStar :=
  leq.max_le (level_le ha h) hlv

theorem level_max_le (leq : LevelComparator) (hb : WellFormed b) (h : Nat) {lv : Nat}
    (hlv : lv ≤ lbLevelStar) :
    leq.max lv (labelGetLevel b h) ≤ lbLevelStar :=
  leq.max_le hlv (level_le hb h)

theorem spans_max (leq : LevelComparator) (ha : WellFormed a) (hb : WellFormed b) :
    Spans (a.handles ∪ b.handles) (labelAlloc (leq.max a.lbDefLevel b.lbDefLevel)) :=
  spans_alloc (leq.max_le ha.defLevel_le hb.defLevel_le)

theorem labelMax32_eq (ha : WellFormed a) (hb : WellFormed b)
    (hS : (a.handles ∪ b.handles).card ≤ 2 ^ 31) :
    labelMax32 env a b leq = labelMax env a b leq := by
  have hd := spans_max leq ha hb
  unfold labelMax32 labelMax
  rw [labelMaxFrom32_eq ha hS Finset.subset_union_left hd fun h _ ↦ level_max_le leq hb h]
  cases h1 : labelMaxFrom env a (fun h alv ↦ leq.max alv (labelGetLevel b h))
      (labelAlloc (leq.max a.lbDefLevel b.lbDefLevel)) with
  | error e => rfl
  | ok d₁ =>
    have hg := labelMaxFrom_spans ha Finset.subset_union_left hd (fun h _ ↦ level_max_le leq hb h) h1
    exact labelMaxFrom32_eq hb hS Finset.subset_union_right hg fun h _ ↦ max_level_le leq ha h

theorem labelMax_spans (ha : WellFormed a) (hb : WellFormed b)
    (hok : labelMax env a b leq = .ok d) : Spans (a.handles ∪ b.handles) d := by
  unfold labelMax at hok
  split at hok
  · cases hok
  next d₁ h1 =>
    have hg := labelMaxFrom_spans ha Finset.subset_union_left (spans_max leq ha hb)
      (fun h _ ↦ level_max_le leq hb h) h1
    exact labelMaxFrom_spans hb Finset.subset_union_right hg (fun h _ ↦ max_level_le leq ha h) hok

theorem card_handles_union_le (a b : Label) :
    (a.handles ∪ b.handles).card ≤ a.lbNent + b.lbNent :=
  (Finset.card_union_le _ _).trans (Nat.add_le_add (card_handles_le a) (card_handles_le b))

theorem labelMax_succeeds (leq : LevelComparator) (henv : env.NoFailure) (ha : WellFormed a)
    (hb : WellFormed b) : ∃ d, labelMax env a b leq = .ok d := by
  have hd := spans_max leq ha hb
  obtain ⟨d₁, h1⟩ := labelMaxFrom_succeeds henv ha hd.wf fun h _ ↦ level_max_le leq hb h
  have hg := labelMaxFrom_spans ha Finset.subset_union_left hd (fun h _ ↦ level_max_le leq hb h) h1
  obtain ⟨d₂, h2⟩ := labelMaxFrom_succeeds henv hb hg.wf fun h _ ↦ max_level_le leq ha h
  exact ⟨d₂, by simp only [labelMax, h1, h2]⟩

end Operands

end HiStar.Iflow
