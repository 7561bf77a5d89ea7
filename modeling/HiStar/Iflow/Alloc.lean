import HiStar.Iflow.Mediation

namespace HiStar.Iflow

open Lib Function

def handleAlloc : Sys Nat := fun k ↦
  match handleAllocFrom k.bf61Encipher (2 ^ 61 - k.handleCounter) k.handleCounter with
  | .ok (h, c) => (.ok h, { k with handleCounter := c })
  | .error e => (.error e, k)

variable {k k' : Kernel} {h id : Nat} {ko : Kobject}

theorem evolve_counter {c : Nat} (hc : k.handleCounter ≤ c) :
    Evolve k { k with handleCounter := c } :=
  ⟨⟨fun hk ↦ { hk with
      encipher_inj := fun m n hm hn ↦ hk.encipher_inj m n (hc.trans hm) (hc.trans hn)
      fresh := fun n hn ↦ hk.fresh n (hc.trans hn) }, fun _ _ _ h ↦ h, fun _ _ ↦ rfl,
    fun _ _ h ↦ ⟨h.unused, h.ne_zero, h.lt, fun n hn ↦ h.not_next n (hc.trans hn)⟩,
    .inl rfl⟩, rfl⟩

instance : Rel Evolve handleAlloc := ⟨fun k ↦ by
  unfold handleAlloc
  split
  next h c he =>
    obtain ⟨d, h1, h2, -⟩ := handleAllocFrom_ok he
    exact evolve_counter (by omega)
  next => exact Evolve.refl k⟩

theorem handleAlloc_ok (hk : k.Ok)
    (hok : handleAlloc k = (.ok h, k')) : Reserved k' h ∧ ∀ i, Reserved k i → i ≠ h := by
  unfold handleAlloc at hok
  split at hok
  next he =>
    obtain ⟨d, h1, rfl, h3, rfl, h5⟩ := handleAllocFrom_ok he
    simp only [Prod.mk.injEq, Except.ok.injEq] at hok
    obtain ⟨rfl, rfl⟩ := hok
    refine ⟨⟨hk.fresh d h1 (by omega) h5, h5, hk.encipher_lt d (by omega), fun n hn hlt he ↦ ?_⟩,
      fun i hi he ↦ hi.not_next d h1 (by omega) he.symm⟩
    simp only at hn
    have := hk.encipher_inj d n h1 (by omega) (by omega) hlt h5 he.symm
    omega
  next => cases hok

section SetObj

variable {k : Kernel} {id : Nat} {ko : Kobject}

theorem label_setObj (i : Nat) : (k.setObj id ko).label i =
    if i = id then (if ko.koType = .label then some ko.lb else none) else k.label i := by
  unfold Kernel.label Kernel.setObj
  by_cases h : i = id
  · simp [h]
  · simp [h]

theorem principal_setObj (i : Nat) : (k.setObj id ko).principal i =
    if i = id then (if ko.koType = .thread ∨ ko.koType = .gate then
      some (ko.koLabel .tracking, ko.koLabel .clearance) else none) else k.principal i := by
  unfold Kernel.principal Kernel.setObj
  by_cases h : i = id
  · simp [h]
  · simp [h]

theorem Reserved.label_none (h : Reserved k id) : k.label id = none := by
  simp [Kernel.label, h.unused]

theorem Reserved.principal_none (h : Reserved k id) : k.principal id = none := by
  simp [Kernel.principal, h.unused]

theorem label_setObj_of_reserved (hr : Reserved k id) {i : Nat} {l : Label}
    (h : k.label i = some l) : (k.setObj id ko).label i = some l := by
  rw [label_setObj, if_neg]
  · exact h
  · rintro rfl
    rw [hr.label_none] at h
    cases h

theorem ok_setObj (hk : k.Ok) (hr : Reserved k id)
    (hlb : ko.koType = .label → Fits ko.lb)
    (hpr : ko.koType = .thread ∨ ko.koType = .gate →
      ∃ lt lc, k.label (ko.koLabel .tracking) = some lt ∧
        k.label (ko.koLabel .clearance) = some lc) : (k.setObj id ko).Ok where
  label_fits i l h := by
    rw [label_setObj] at h
    split at h
    · split at h
      next hty => cases h; exact hlb hty
      next => cases h
    · exact hk.label_fits i l h
  has_labels i t c h := by
    have hkeep : ∀ {t c}, (∃ lt lc, k.label t = some lt ∧ k.label c = some lc) →
        ∃ lt lc, (k.setObj id ko).label t = some lt ∧ (k.setObj id ko).label c = some lc := by
      rintro t c ⟨lt, lc, h1, h2⟩
      exact ⟨lt, lc, label_setObj_of_reserved hr h1, label_setObj_of_reserved hr h2⟩
    rw [principal_setObj] at h
    split at h
    · split at h
      next hty => cases h; exact hkeep (hpr hty)
      next => cases h
    · exact hkeep (hk.has_labels i t c h)
  cache_sound i e h := by
    obtain ⟨la, lb, ha, hb, hab⟩ := hk.cache_sound i e h
    exact ⟨la, lb, label_setObj_of_reserved hr ha, label_setObj_of_reserved hr hb, hab⟩
  encipher_lt := hk.encipher_lt
  encipher_inj := hk.encipher_inj
  mem_small := hk.mem_small
  tame := hk.tame
  fresh n hn hlt h0 := by
    have hne := hr.not_next n hn hlt
    simp only [Kernel.setObj, update_apply, hne, ↓reduceIte]
    exact hk.fresh n hn hlt h0
  no_thread_sg := by
    have hne : kobjectIdThreadSg ≠ id := by
      have := hr.lt
      unfold kobjectIdThreadSg
      omega
    simp only [Kernel.setObj, update_apply, hne, ↓reduceIte]
    exact hk.no_thread_sg

theorem reserved_setObj {i : Nat} (hi : i ≠ id) (h : Reserved k i) :
    Reserved (k.setObj id ko) i := by
  refine ⟨?_, h.ne_zero, h.lt, h.not_next⟩
  simp only [Kernel.setObj, update_apply, hi, ↓reduceIte]
  exact h.unused

end SetObj

def insertObj (id : Nat) (ko : Kobject) : Sys Unit := Exec.modify fun k ↦ k.setObj id ko

theorem insertObj_evolve {k1 : Kernel} (h1 : Evolve k k1)
    (hr : k.Ok → Reserved k1 id ∧ ∀ i, Reserved k i → i ≠ id)
    (hlb : k.Ok → ko.koType = .label → Fits ko.lb)
    (hpr : ko.koType ≠ .thread ∧ ko.koType ≠ .gate) : Evolve k (k1.setObj id ko) := by
  refine ⟨⟨fun hk ↦ ?_, fun hk i l h ↦ ?_, fun hk i ↦ ?_, fun hk i h ↦ ?_,
    .inl h1.cur⟩, h1.cur⟩
  · exact ok_setObj (h1.ok hk) (hr hk).1 (hlb hk) fun h ↦ by
      rcases h with h | h
      · exact absurd h hpr.1
      · exact absurd h hpr.2
  · exact label_setObj_of_reserved (hr hk).1 (h1.labels hk i l h)
  · rw [principal_setObj, if_neg (not_or.mpr hpr)]
    split
    next hi => rw [hi, ← h1.principals hk, (hr hk).1.principal_none]
    next => exact h1.principals hk i
  · exact reserved_setObj ((hr hk).2 i h) (h1.reserved hk i h)

/-- `label_alloc` and the filling of the new label. A label that could not be
completed is referred to by nobody and is not kept. -/
def newLabel (fill : MemEnv → Except Errno Label) : Sys Nat := do
  let a ← answer
  Exec.lift a.pageAlloc
  let id ← handleAlloc
  let l ← Exec.lift (fill a.mem)
  insertObj id { koType := .label, lb := l }
  return id

theorem newLabel_spec {fill : MemEnv → Except Errno Label}
    (hfill : k.Ok → ∀ m l, m.Small → fill m = .ok l → Fits l) :
    Evolve k (newLabel fill k).2 ∧ ∀ id, (newLabel fill k).1 = .ok id →
      ∃ m l, (k.Ok → m.Small) ∧ fill m = .ok l ∧ (newLabel fill k).2.label id = some l := by
  unfold newLabel
  rw [bind_apply]
  have h0 : Evolve k (answer k).2 := Rel.rel k
  simp only [answer] at h0 ⊢
  cases hpage : (k.answers k.clock).pageAlloc with
  | error e =>
    simp only [bind_apply, lift_apply]
    exact ⟨h0, fun id h ↦ by cases h⟩
  | ok u =>
    simp only [bind_apply, lift_apply]
    set k0 : Kernel := { k with clock := k.clock + 1 }
    have h1 : Evolve k0 (handleAlloc k0).2 := Rel.rel k0
    rcases hh : handleAlloc k0 with ⟨e | id, k1⟩
    · rw [hh] at h1
      exact ⟨h0.trans h1, fun id h ↦ by cases h⟩
    · rw [hh] at h1
      cases hf : fill (k.answers k.clock).mem with
      | error e => exact ⟨h0.trans h1, fun id h ↦ by cases h⟩
      | ok l =>
        refine ⟨insertObj_evolve (h0.trans h1) (fun hk ↦ ?_)
          (fun hk _ ↦ hfill hk _ _ (hk.mem_small _) hf) ⟨by simp, by simp⟩, fun i hi ↦ ?_⟩
        · obtain ⟨hr, hne⟩ := handleAlloc_ok (h0.ok hk) hh
          exact ⟨hr, fun i hi ↦ hne i (h0.reserved hk i hi)⟩
        · cases hi
          refine ⟨_, l, fun hk ↦ hk.mem_small _, hf, ?_⟩
          change (k1.setObj id _).label id = some l
          simp [label_setObj]

def kobjectGetLabel (ko : Kobject) (idx : KoLabel) : Sys Nat :=
  if ko.koLabel idx ≠ 0 then kobjectGetNone (ko.koLabel idx) (some .label) else pure 0

instance (ko : Kobject) (idx : KoLabel) :
    Rel Evolve (kobjectGetLabel ko idx) := by
  unfold kobjectGetLabel
  infer_instance

theorem kobjectGetLabel_ok {idx : KoLabel} (hp : ko.koLabel idx ≠ kobjectIdThreadSg)
    (h : kobjectGetLabel ko idx k = (.ok id, k')) : id = ko.koLabel idx ∧ k' = k := by
  unfold kobjectGetLabel at h
  split at h
  · exact kobjectGetNone_label hp h
  next hz =>
    cases h
    exact ⟨(not_not.mp hz).symm, rfl⟩

theorem kobjectGetLabel_bind_ok {α : Type} {idx : KoLabel} {f : Nat → Sys α}
    {a : α} (hp : ko.koLabel idx ≠ kobjectIdThreadSg)
    (h : (kobjectGetLabel ko idx >>= f) k = (.ok a, k')) : f (ko.koLabel idx) k = (.ok a, k') := by
  obtain ⟨l, k1, hl, hf⟩ := bind_ok h
  obtain ⟨rfl, rfl⟩ := kobjectGetLabel_ok hp hl
  exact hf

def ulabelToLabel (ul : ULabel) : Sys Nat := do
  ask (·.checkUserAccess)
  if ul.ulDefault > lbLevelStar then Exec.fail .inval
  else newLabel fun m ↦
    match m.checkUserAccess with
    | .ok () => ulabelSetAll32 m ul.ulEnt (labelAlloc ul.ulDefault)
    | .error e => .error e

/-- `alloc_ulabel`, where `inheritFrom` is the label to use when the user passes
none. -/
def allocUlabel (ul : Option ULabel) (inheritFrom : Option Nat) : Sys Nat :=
  match ul with
  | some u => ulabelToLabel u
  | none =>
    match inheritFrom with
    | some l => pure l
    | none => Exec.fail .inval

theorem ulabelFill_fits (ul : ULabel) (hd : ul.ulDefault ≤ lbLevelStar) (m : MemEnv) (l : Label)
    (hm : m.Small) (h : (match m.checkUserAccess with
      | .ok () => ulabelSetAll32 m ul.ulEnt (labelAlloc ul.ulDefault)
      | .error e => .error e) = .ok l) : Fits l := by
  split at h
  · exact (fits_alloc hd).ulabelSetAll32 hm h
  · cases h

instance (ul : ULabel) : Rel Evolve (ulabelToLabel ul) := by
  refine .bind_of inferInstance fun _ ↦ ?_
  split
  · infer_instance
  next hd => exact ⟨fun k ↦ (newLabel_spec fun _ ↦ ulabelFill_fits ul (by omega)).1⟩

theorem ulabelToLabel_ok {ul : ULabel}
    (h : ulabelToLabel ul k = (.ok id, k')) : ∃ l, k'.label id = some l := by
  obtain ⟨_, k1, -, h⟩ := bind_ok h
  split at h
  · cases h
  next hd =>
    obtain ⟨-, l, -, -, hl⟩ := (newLabel_spec (k := k1) fun _ ↦ ulabelFill_fits ul
      (by omega)).2 id (by rw [h])
    rw [h] at hl
    exact ⟨l, hl⟩

instance (ul : Option ULabel) (inh : Option Nat) :
    Rel Evolve (allocUlabel ul inh) := by
  cases ul <;> cases inh <;> unfold allocUlabel <;> infer_instance

theorem allocUlabel_ok {ul : Option ULabel} {inh : Option Nat}
    (hinh : ∀ i, inh = some i → ∃ l, k.label i = some l)
    (h : allocUlabel ul inh k = (.ok id, k')) : ∃ l, k'.label id = some l := by
  cases ul with
  | some u => exact ulabelToLabel_ok h
  | none =>
    cases inh with
    | none => cases h
    | some i =>
      cases h
      exact hinh _ rfl

def deriveLabel (src : Nat) (f : Label → MemEnv → Except Errno Label) : Sys Nat := do
  let l ← derefLabel src
  newLabel (f l)

theorem deriveLabel_spec (src : Nat) {f : Label → MemEnv → Except Errno Label}
    (hf : k.Ok → ∀ l, Fits l → ∀ m d, m.Small → f l m = .ok d → Fits d) :
    Evolve k (deriveLabel src f k).2 ∧ ∀ id, (deriveLabel src f k).1 = .ok id →
      ∃ l m d, k.label src = some l ∧ (k.Ok → m.Small) ∧ f l m = .ok d ∧
        (deriveLabel src f k).2.label id = some d := by
  unfold deriveLabel derefLabel
  rw [bind_apply, read_apply]
  cases hl : k.label src with
  | some l =>
    obtain ⟨he, hok⟩ := newLabel_spec (k := k) fun hk ↦ hf hk l (hk.label_fits _ _ hl)
    refine ⟨he, fun id h ↦ ?_⟩
    obtain ⟨m, d, hm, hd, hlab⟩ := hok id h
    exact ⟨l, m, d, rfl, hm, hd, hlab⟩
  | none => exact ⟨Evolve.refl k, fun id h ↦ by cases h⟩

def labelCopySet (src handle level : Nat) : Sys Nat :=
  deriveLabel src fun l m ↦
    match labelCopy m l with
    | .ok l' => labelSet32 m l' handle level
    | .error e => .error e

def labelMaxId (a b : Nat) (leq : LevelComparator) : Sys Nat := do
  let lb ← derefLabel b
  deriveLabel a fun la m ↦ labelMax32 m la lb leq

theorem copySet_ok {m : MemEnv} {l d : Label} {h lv : Nat}
    (hok : (match labelCopy m l with
      | .ok l' => labelSet32 m l' h lv
      | .error e => .error e) = .ok d) : labelSet32 m l h lv = .ok d := by
  split at hok
  next l' hc => rwa [labelCopy_ok hc] at hok
  next => cases hok

theorem labelCopySet_spec (src : Nat) {lv : Nat} (hh : h < 2 ^ 61) (hlv : lv ≤ lbLevelStar)
    (k : Kernel) : Evolve k (labelCopySet src h lv k).2 ∧
    (k.Ok → ∀ id, (labelCopySet src h lv k).1 = .ok id → ∃ l d, k.label src = some l ∧
      (labelCopySet src h lv k).2.label id = some d ∧ ∀ g, labelGetLevel d g =
        if g = h then (if h = 0 ∧ lv = 0 then l.lbDefLevel else lv) else labelGetLevel l g) := by
  obtain ⟨he, hok⟩ := deriveLabel_spec src (k := k) fun _ l hl m d hm hd ↦
    (hl.labelSet32 hm hh hlv (copySet_ok hd)).1
  refine ⟨he, fun hk id hid ↦ ?_⟩
  obtain ⟨l, m, d, hl, hm, hd, hlab⟩ := hok id hid
  exact ⟨l, d, hl, hlab,
    ((hk.label_fits _ _ hl).labelSet32 (hm hk) hh hlv (copySet_ok hd)).2.2⟩

theorem labelMaxId_spec (a b : Nat) (leq : LevelComparator) (k : Kernel) :
    Evolve k (labelMaxId a b leq k).2 ∧
    (k.Ok → ∀ id, (labelMaxId a b leq k).1 = .ok id → ∃ la lb d, k.label a = some la ∧
      k.label b = some lb ∧ (labelMaxId a b leq k).2.label id = some d ∧
      ∀ g, (g = 0 → leq.max (labelGetLevel la g) (labelGetLevel lb g) = 0 →
        leq.max la.lbDefLevel lb.lbDefLevel = 0) →
        labelGetLevel d g = leq.max (labelGetLevel la g) (labelGetLevel lb g)) := by
  unfold labelMaxId derefLabel
  rw [bind_apply, read_apply]
  cases hb : k.label b with
  | some lb =>
    obtain ⟨he, hok⟩ := deriveLabel_spec a (k := k)
      (f := fun la m ↦ labelMax32 m la lb leq) fun hk l hl m d hm hd ↦
      (Fits.labelMax32 hm hl.wf (hk.label_wf hb) hd).1
    refine ⟨he, fun hk id hid ↦ ?_⟩
    obtain ⟨la, m, d, ha, hm, hd, hlab⟩ := hok id hid
    have hwa := hk.label_wf ha
    have hwb := hk.label_wf hb
    exact ⟨la, lb, d, ha, rfl, hlab,
      (labelMax_spec hwa hwb (Fits.labelMax32 (hm hk) hwa hwb hd).2).2⟩
  | none => exact ⟨Evolve.refl k, fun _ id h ↦ by cases h⟩

end HiStar.Iflow
