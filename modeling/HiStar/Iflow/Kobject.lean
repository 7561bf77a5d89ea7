import HiStar.Iflow.Alloc

namespace HiStar.Iflow

open Lib Function

def dropLabel (l : Nat) : Sys Unit := do
  if l ≠ 0 then kobjectDecref l

def addLabelRef (l : Nat) : Sys Unit := do
  if l ≠ 0 then kobjectIncref l

def Kobject.withLabel (ko : Kobject) (idx : KoLabel) (l : Nat) : Kobject :=
  { ko with koLabel := update ko.koLabel idx l }

def kobjectSetLabelPrepared (kp : Nat) (idx : KoLabel) (oldLabel newLabel : Nat) : Sys Unit := do
  let ko ← deref kp
  Exec.require (ko.koLabel idx = oldLabel) .panic
  dropLabel oldLabel
  addLabelRef newLabel
  modifyObj kp fun o ↦ o.withLabel idx newLabel

def kobjectSetLabel (kp : Nat) (idx : KoLabel) (newLabel : Nat) : Sys Unit := do
  let ko ← deref kp
  let oldLabel ← kobjectGetLabel ko idx
  Exec.when (newLabel ≠ 0) (ask (·.kobjectQresReserve))
  kobjectSetLabelPrepared kp idx oldLabel newLabel

def newKobject (type : KobjType) (l c : Nat) : Kobject where
  koType := type
  koLabel
    | .tracking => l
    | .clearance => c
    | .verifyTracking => 0
    | .verifyClearance => 0

def takeLabel (l : Nat) : Sys Unit := do
  if l ≠ 0 then
    ask (·.kobjectQresReserve)
    kobjectIncref l

/-- `kobject_alloc` up to the point where the object becomes visible. -/
def kobjectAllocPrep (type : KobjType) (l c : Nat) : Sys Nat := do
  Exec.require (decide (type = .label) != decide (l ≠ 0)) .panic
  Exec.require (decide (type = .thread ∨ type = .gate) != decide (c = 0)) .panic
  ask (·.pageAlloc)
  let id ← handleAlloc
  takeLabel l
  (takeLabel c).onFail (dropLabel l)
  (if type = .label then pure () else kobjectIflowCheck (newKobject type l c) .alloc).onFail
    (do dropLabel c; dropLabel l)
  return id

def kobjectAlloc (type : KobjType) (l c : Nat) : Sys Nat := do
  let id ← kobjectAllocPrep type l c
  insertObj id (newKobject type l c)
  return id

instance (l : Nat) : Rel Evolve (takeLabel l) := by
  unfold takeLabel
  infer_instance

instance (l : Nat) : Rel Evolve (dropLabel l) := by
  unfold dropLabel
  infer_instance

instance (type : KobjType) (l c : Nat) :
    Rel Evolve (kobjectAllocPrep type l c) := by
  unfold kobjectAllocPrep
  repeat refine .bind_of inferInstance fun _ ↦ ?_
  infer_instance

variable {type : KobjType} {l c id kp old new : Nat} {k k' : Kernel} {idx : KoLabel} {u : Unit}

theorem kobjectAllocPrep_ok (hk : k.Ok) (h : kobjectAllocPrep type l c k = (.ok id, k')) :
    (Reserved k' id ∧ ∀ i, Reserved k i → i ≠ id) ∧ (type ≠ .label → ∃ k₁ u, Evolve k k₁ ∧
      kobjectIflowCheck (newKobject type l c) .alloc k₁ = (.ok u, k')) := by
  obtain ⟨-, h⟩ := require_bind_ok h
  obtain ⟨-, h⟩ := require_bind_ok h
  obtain ⟨_, k3, h3, h⟩ := bind_ok h
  have e3 := Evolve.of_ok h3
  obtain ⟨id', k4, h4, h⟩ := bind_ok h
  obtain ⟨hr, hne⟩ := handleAlloc_ok (e3.ok hk) h4
  have e4 := e3.trans (Evolve.of_ok h4)
  obtain ⟨_, k5, h5, h⟩ := bind_ok h
  have t5 := Evolve.of_ok h5
  obtain ⟨_, k6, h6, h⟩ := bind_ok h
  have t6 := Evolve.of_ok (onFail_ok h6)
  obtain ⟨_, k7, h7, h⟩ := bind_ok h
  have t7 := Evolve.of_ok (onFail_ok h7)
  cases h
  refine ⟨⟨?_, fun i hi ↦ hne i (e3.reserved hk i hi)⟩, fun hty ↦ ?_⟩
  · exact (t5.trans (t6.trans t7)).reserved (e4.ok hk) _ hr
  · have hcheck := onFail_ok h7
    rw [if_neg hty] at hcheck
    exact ⟨k6, _, e4.trans (t5.trans t6), hcheck⟩

theorem kobjectAllocPrep_permits {tl tc : Nat} (hk : k.Ok)
    (hcur : k.curThread ≠ 0) (hth : k.principal k.curThread = some (tl, tc))
    (hl : l ≠ kobjectIdThreadSg) (hc : c ≠ kobjectIdThreadSg) (hty : type ≠ .label)
    (h : kobjectAllocPrep type l c k = (.ok id, k')) :
    Permits k' (newKobject type l c) tl tc .alloc := by
  obtain ⟨k₁, u, he, hcheck⟩ := (kobjectAllocPrep_ok hk h).2 hty
  exact kobjectIflowCheck_ok (he.ok hk) (by rw [he.cur]; exact hcur)
    (by rw [he.cur, he.principals hk]; exact hth) ⟨hl, hc⟩ hcheck

theorem kobjectAlloc_evolve (hty : type ≠ .thread ∧ type ≠ .gate ∧ type ≠ .label)
    (l c : Nat) : Rel Evolve (kobjectAlloc type l c) := ⟨fun k ↦ by
  have he : Evolve k (kobjectAllocPrep type l c k).2 := Rel.rel k
  unfold kobjectAlloc
  rw [bind_apply]
  rcases hp : kobjectAllocPrep type l c k with ⟨e | id, k1⟩
  · rw [hp] at he
    exact he
  · rw [hp] at he
    exact insertObj_evolve he (fun hk ↦ (kobjectAllocPrep_ok hk hp).1)
      (fun _ h ↦ absurd h hty.2.2) ⟨hty.1, hty.2.1⟩⟩

/-- The labels of the thread or gate `id` become `t` and `c`; nothing else about
labels changes. -/
structure Installs (k k' : Kernel) (id t c : Nat) : Prop where
  ok : k'.Ok
  labels : ∀ i l, k.label i = some l → k'.label i = some l
  principals : ∀ i, k'.principal i = if i = id then some (t, c) else k.principal i
  cur_or : k'.curThread = k.curThread ∨ k'.curThread = 0

namespace Installs

variable {k k' k'' : Kernel} {id t c : Nat}

theorem before (hk : k.Ok) (h : Quiet k k') (h' : Installs k' k'' id t c) :
    Installs k k'' id t c := by
  refine ⟨h'.ok, fun i l hl ↦ h'.labels i l (h.labels hk i l hl), fun i ↦ ?_,
    cur_or_trans h.cur_or h'.cur_or⟩
  rw [h'.principals, h.principals hk]

theorem after (h : Installs k k' id t c) (h' : Quiet k' k'') : Installs k k'' id t c := by
  refine ⟨h'.ok h.ok, fun i l hl ↦ h'.labels h.ok i l (h.labels i l hl), fun i ↦ ?_,
    cur_or_trans h.cur_or h'.cur_or⟩
  rw [h'.principals h.ok, h.principals]

theorem trans {t' c' : Nat} (h : Installs k k' id t c) (h' : Installs k' k'' id t' c') :
    Installs k k'' id t' c' := by
  refine ⟨h'.ok, fun i l hl ↦ h'.labels i l (h.labels i l hl), fun i ↦ ?_,
    cur_or_trans h.cur_or h'.cur_or⟩
  rw [h'.principals, h.principals]
  split <;> rfl

theorem below (h : Installs k k' id t c) {o : LevelComparator} {a b : Nat}
    (hb : k.LabelBelow o a b) : k'.LabelBelow o a b := by
  obtain ⟨la, lb, ha, hb, hab⟩ := hb
  exact ⟨la, lb, h.labels _ _ ha, h.labels _ _ hb, hab⟩

end Installs

theorem kobjectAlloc_installs {la lc : Label} (hk : k.Ok) (hty : type = .thread ∨ type = .gate)
    (hl : k.label l = some la) (hc : k.label c = some lc)
    (h : kobjectAlloc type l c k = (.ok id, k')) : Installs k k' id l c := by
  obtain ⟨id', k1, h1, h⟩ := bind_ok h
  cases h
  have he := Evolve.of_ok h1
  obtain ⟨hr, -⟩ := (kobjectAllocPrep_ok hk h1).1
  have hl1 := he.labels hk _ _ hl
  have hc1 := he.labels hk _ _ hc
  refine Installs.before hk he.toQuiet ⟨?_, fun i m hm ↦ label_setObj_of_reserved hr hm,
    fun i ↦ ?_, .inl rfl⟩
  · refine ok_setObj (he.ok hk) hr (fun h ↦ ?_) fun _ ↦ ⟨la, lc, hl1, hc1⟩
    rcases hty with rfl | rfl <;> cases h
  · rw [principal_setObj]
    simp only [newKobject, hty, ↓reduceIte]

theorem kobjectAlloc_below {tl tc : Nat} {la lc : Label}
    (hk : k.Ok) (hcur : k.curThread ≠ 0) (hth : k.principal k.curThread = some (tl, tc))
    (hty : type = .thread ∨ type = .gate) (hl : k.label l = some la) (hc : k.label c = some lc)
    (h : kobjectAlloc type l c k = (.ok id, k')) : k'.LabelBelow .starlo tl l ∧
      k'.LabelBelow .starlo l c ∧ k'.LabelBelow .starlo c tc := by
  obtain ⟨id', k1, h1, h⟩ := bind_ok h
  cases h
  have hc0 : c ≠ 0 := by
    obtain ⟨-, hrest⟩ := require_bind_ok h1
    obtain ⟨hassert, -⟩ := require_bind_ok hrest
    simpa [hty] using hassert
  have hnl : type ≠ .label := by rcases hty with rfl | rfl <;> decide
  obtain ⟨hr, -⟩ := (kobjectAllocPrep_ok hk h1).1
  have hb := kobjectAllocPrep_permits hk hcur hth (ne_threadSg hk hl) (ne_threadSg hk hc) hnl h1
  have keep : ∀ {a b}, k1.LabelBelow .starlo a b →
      (k1.setObj id (newKobject type l c)).LabelBelow .starlo a b := by
    rintro a b ⟨x, y, hx, hy, hxy⟩
    exact ⟨x, y, label_setObj_of_reserved hr hx, label_setObj_of_reserved hr hy, hxy⟩
  exact ⟨keep hb.1, keep (hb.2 hc0).1, keep (hb.2 hc0).2⟩

instance (l : Nat) : Rel Evolve (addLabelRef l) := by
  unfold addLabelRef
  infer_instance

section WithLabel

variable {k : Kernel} {kp new : Nat} {idx : KoLabel}

theorem principal_withLabel (i : Nat) : (k.mapObj kp fun o ↦ o.withLabel idx new).principal i =
    if i = kp then (k.principal kp).map fun p ↦
      (if idx = .tracking then new else p.1, if idx = .clearance then new else p.2)
    else k.principal i := by
  unfold Kernel.principal Kernel.mapObj
  by_cases h : i = kp
  · subst h
    cases k.obj i with
    | none => simp
    | some o =>
      by_cases ht : o.koType = .thread ∨ o.koType = .gate
      · cases idx <;> simp [Kobject.withLabel, ht]
      · simp [Kobject.withLabel, ht]
  · simp [h]

theorem label_withLabel (i : Nat) :
    (k.mapObj kp fun o ↦ o.withLabel idx new).label i = k.label i :=
  label_mapObj (f := fun o ↦ o.withLabel idx new) (fun _ ↦ ⟨rfl, rfl⟩) i

theorem evolve_withLabel (h : (idx ≠ .tracking ∧ idx ≠ .clearance) ∨ k.principal kp = none) :
    Evolve k (k.mapObj kp fun o ↦ o.withLabel idx new) := by
  refine evolve_mapObj_of (fun _ ↦ rfl) (fun _ ↦ rfl) fun i ↦ ?_
  rw [principal_withLabel]
  split
  next hi =>
    subst hi
    rcases h with ⟨h1, h2⟩ | h
    · simp [h1, h2]
    · simp [h]
  next => rfl

theorem installs_withLabel {t c : Nat} {l : Label} (hk : k.Ok)
    (hp : k.principal kp = some (t, c)) (hl : k.label new = some l) :
    Installs k (k.mapObj kp fun o ↦ o.withLabel idx new) kp
      (if idx = .tracking then new else t) (if idx = .clearance then new else c) := by
  obtain ⟨lt, lc, ht, hc⟩ := hk.has_labels _ _ _ hp
  refine ⟨ok_mapObj hk (fun _ ↦ ⟨rfl, rfl⟩) fun i t' c' h ↦ ?_,
    fun i m hm ↦ (label_withLabel i).trans hm, fun i ↦ by rw [principal_withLabel, hp]; rfl, .inl rfl⟩
  rw [principal_withLabel, hp] at h
  split at h
  · simp only [Option.map_some, Option.some.injEq, Prod.mk.injEq] at h
    obtain ⟨rfl, rfl⟩ := h
    exact ⟨if idx = .tracking then l else lt, if idx = .clearance then l else lc,
      by split <;> assumption, by split <;> assumption⟩
  · exact hk.has_labels i t' c' h

end WithLabel

theorem setLabelPrepared_ok (h : kobjectSetLabelPrepared kp idx old new k = (.ok u, k')) :
    ∃ k1, Evolve k k1 ∧ k' = k1.mapObj kp fun o ↦ o.withLabel idx new := by
  obtain ⟨ko, -, h⟩ := deref_bind_ok h
  obtain ⟨-, h⟩ := require_bind_ok h
  obtain ⟨_, k1, h1, h⟩ := bind_ok h
  obtain ⟨_, k2, h2, h⟩ := bind_ok h
  cases h
  exact ⟨k2, (Evolve.of_ok h1).trans (Evolve.of_ok h2), rfl⟩

theorem setLabelPrepared_evolve
    (hk : k.Ok) (hn : (idx ≠ .tracking ∧ idx ≠ .clearance) ∨ k.principal kp = none)
    (h : kobjectSetLabelPrepared kp idx old new k = (.ok u, k')) : Evolve k k' := by
  obtain ⟨k1, he, rfl⟩ := setLabelPrepared_ok h
  refine he.trans (evolve_withLabel ?_)
  rwa [he.principals hk]

theorem setLabelPrepared_installs {t : Nat}
    {l : Label} (hk : k.Ok) (hp : k.principal kp = some (t, c)) (hl : k.label new = some l)
    (h : kobjectSetLabelPrepared kp idx old new k = (.ok u, k')) :
    Installs k k' kp (if idx = .tracking then new else t) (if idx = .clearance then new else c) := by
  obtain ⟨k1, he, rfl⟩ := setLabelPrepared_ok h
  refine Installs.before hk he.toQuiet (installs_withLabel (he.ok hk) ?_ (he.labels hk _ _ hl))
  rw [he.principals hk, hp]

theorem kobjectSetLabel_ok (h : kobjectSetLabel kp idx new k = (.ok u, k')) :
    ∃ k1 old u, Evolve k k1 ∧ kobjectSetLabelPrepared kp idx old new k1 = (.ok u, k') := by
  obtain ⟨ko, -, h⟩ := deref_bind_ok h
  obtain ⟨old, k1, h1, h⟩ := bind_ok h
  have e1 := Evolve.of_ok h1
  obtain ⟨_, k2, h2, h⟩ := bind_ok h
  exact ⟨k2, old, _, e1.trans (Evolve.of_ok h2), h⟩

end HiStar.Iflow
