import HiStar.Iflow.Kobject

namespace HiStar.Iflow

open Lib Function

/-- `container_find` and `container_has`: the container is readable and holds
the object. -/
def containerSees (ct : Nat) : Sys Unit := do
  let _ ← kobjectGet ct (some .container) .read
  ask (·.containerSlotFind)

def settles : Except Errno Unit → Bool
  | .ok () => true
  | .error e => e = .restart

def threadHalt (t : Nat) : Sys Unit := Exec.modify fun k ↦
  { k.mapObj t fun o ↦ { o with thStatus := .halted } with
    curThread := if k.curThread = t then 0 else k.curThread }

def threadCheckSchedParents (t : Nat) : Sys Unit := do
  let cur ← curThread
  if cur = 0 ∨ t ≠ cur then pure ()
  else do
    let th ← deref t
    let r0 ← Exec.attempt (containerSees th.thSchedParents.1)
    if settles r0 then pure ()
    else do
      let r1 ← Exec.attempt (containerSees th.thSchedParents.2)
      if settles r1 then pure () else threadHalt t

def setThSg (t sg : Nat) : Sys Unit := modifyObj t fun o ↦ { o with thSg := sg }

/-- `thread_change_label` up to the commit point: the thread-local segment, its
label, the label of the thread, and the new segment. -/
def threadChangeLabelPrep (t : Nat) : Sys (Nat × Nat × Nat × Nat) := do
  let th ← deref t
  let koSg ← kobjectGet th.thSg (some .segment) .rw
  let curThLabel ← kobjectGetLabel th .tracking
  let sg ← deref koSg
  let curSgLabel ← kobjectGetLabel sg .tracking
  let sgNew ← kobjectAlloc .segment curThLabel 0
  ask (·.segmentPages)
  ask (·.segmentPages)
  ask (·.kobjectQresReserve)
  ask (·.kobjectQresReserve)
  ask (·.kobjectQresReserve)
  return (koSg, curSgLabel, curThLabel, sgNew)

def threadChangeLabelCommit (t newLabel koSg curSgLabel curThLabel sgNew : Nat) : Sys Unit := do
  setThSg t sgNew
  kobjectDecref koSg
  kobjectIncref sgNew
  kobjectSetLabelPrepared t .tracking curThLabel newLabel
  kobjectSetLabelPrepared sgNew .tracking curSgLabel newLabel
  threadCheckSchedParents t

def threadChangeLabel (t newLabel : Nat) : Sys Unit := do
  let (koSg, curSgLabel, curThLabel, sgNew) ← threadChangeLabelPrep t
  threadChangeLabelCommit t newLabel koSg curSgLabel curThLabel sgNew

/-- `thread_jump`, without the address space and the registers. -/
def threadJump (t label clearance : Nat) : Sys Unit := do
  let th ← deref t
  let curClearance ← kobjectGetLabel th .clearance
  ask (·.kobjectQresReserve)
  threadChangeLabel t label
  kobjectSetLabelPrepared t .clearance curClearance clearance

def threadAlloc (tracking clearance : Nat) : Sys Nat := do
  let t ← kobjectAlloc .thread tracking clearance
  let sg ← kobjectAlloc .segment tracking 0
  ask (·.segmentPages)
  ask (·.kobjectQresReserve)
  kobjectIncref sg
  setThSg t sg
  return t

def gateAlloc (l clearance verify : Nat) : Sys Nat := do
  let g ← kobjectAlloc .gate l clearance
  kobjectSetLabel g .verifyTracking verify
  return g

instance (t sg : Nat) : Rel Evolve (setThSg t sg) := by
  unfold setThSg
  infer_instance

instance (l : Nat) : Rel Evolve (kobjectAlloc .segment l 0) := 
  kobjectAlloc_evolve ⟨by decide, by decide, by decide⟩ l 0

variable {k k' : Kernel} {t tl tc : Nat} {l : Label} {u : Unit}

theorem segment_not_principal {l id : Nat}
    (h : kobjectAlloc .segment l 0 k = (.ok id, k')) : k'.principal id = none := by
  obtain ⟨_, k1, -, h⟩ := bind_ok h
  cases h
  change (k1.setObj id _).principal id = none
  simp [principal_setObj, newKobject]

instance (ct : Nat) : Rel Evolve (containerSees ct) := by
  unfold containerSees
  infer_instance

instance (t : Nat) : Rel Quiet (threadHalt t) := ⟨fun k ↦ by
  obtain ⟨⟨h1, h2, h3, h4, -⟩, -⟩ := evolve_mapObj (k := k) (i := t)
    (f := fun o ↦ { o with thStatus := .halted }) fun _ ↦ ⟨rfl, rfl, rfl⟩
  refine ⟨fun hk ↦ ?_, h2, h3, fun hk id hr ↦ ?_, ?_⟩
  · exact { h1 hk with }
  · exact { h4 hk id hr with }
  · simp only [threadHalt, modify_apply]
    split
    · exact .inr rfl
    · exact .inl rfl⟩

instance (t : Nat) : Rel Quiet (threadCheckSchedParents t) := by
  refine .bind_of inferInstance fun k ↦ ?_
  split
  · infer_instance
  · refine .bind_of inferInstance fun th ↦ .bind_of inferInstance fun r0 ↦ ?_
    split
    · infer_instance
    · refine .bind_of inferInstance fun r1 ↦ ?_
      split <;> infer_instance

instance (t : Nat) : Rel Evolve (threadChangeLabelPrep t) := by
  unfold threadChangeLabelPrep
  repeat refine .bind_of inferInstance fun _ ↦ ?_
  infer_instance

theorem threadChangeLabelPrep_ok {koSg curSgLabel curThLabel sgNew : Nat}
    (hk : k.Ok) (h : threadChangeLabelPrep t k = (.ok (koSg, curSgLabel, curThLabel, sgNew), k')) :
    k'.principal sgNew = none := by
  obtain ⟨th, -, h⟩ := deref_bind_ok h
  obtain ⟨_, k1, h1, h⟩ := bind_ok h
  have e1 := Evolve.of_ok h1
  obtain ⟨_, k2, h2, h⟩ := bind_ok h
  have e2 := e1.trans (Evolve.of_ok h2)
  obtain ⟨sg, -, h⟩ := deref_bind_ok h
  obtain ⟨_, k3, h3, h⟩ := bind_ok h
  have e3 := e2.trans (Evolve.of_ok h3)
  obtain ⟨_, k4, h4, h⟩ := bind_ok h
  have e4 := e3.trans (Evolve.of_ok h4)
  have hn := segment_not_principal h4
  obtain ⟨_, k5, h5, h⟩ := bind_ok h
  obtain ⟨_, k6, h6, h⟩ := bind_ok h
  obtain ⟨_, k7, h7, h⟩ := bind_ok h
  obtain ⟨_, k8, h8, h⟩ := bind_ok h
  obtain ⟨_, k9, h9, h⟩ := bind_ok h
  cases h
  have e9 := (Evolve.of_ok h5).trans ((Evolve.of_ok h6).trans
    ((Evolve.of_ok h7).trans ((Evolve.of_ok h8).trans (Evolve.of_ok h9))))
  rw [e9.principals (e4.ok hk), hn]

theorem threadChangeLabelCommit_ok {new koSg curSgLabel curThLabel sgNew : Nat}
    (hk : k.Ok) (hp : k.principal t = some (tl, tc))
    (hl : k.label new = some l) (hsg : k.principal sgNew = none)
    (h : threadChangeLabelCommit t new koSg curSgLabel curThLabel sgNew k = (.ok u, k')) :
    Installs k k' t new tc := by
  obtain ⟨_, k1, h1, h⟩ := bind_ok h
  have e1 := Evolve.of_ok h1
  obtain ⟨_, k2, h2, h⟩ := bind_ok h
  have e2 := e1.trans (Evolve.of_ok h2)
  obtain ⟨_, k3, h3, h⟩ := bind_ok h
  have e3 := e2.trans (Evolve.of_ok h3)
  obtain ⟨_, k4, h4, h⟩ := bind_ok h
  have i4 := setLabelPrepared_installs (e3.ok hk) ((e3.principals hk t).trans hp)
    (e3.labels hk _ _ hl) h4
  have hne : sgNew ≠ t := by
    rintro rfl
    rw [hsg] at hp
    cases hp
  obtain ⟨_, k5, h5, h⟩ := bind_ok h
  have e5 := setLabelPrepared_evolve i4.ok (Or.inr (by
    rw [i4.principals, if_neg hne, e3.principals hk, hsg])) h5
  have e6 : Quiet k5 k' := Rel.ok h
  exact (Installs.before hk e3.toQuiet i4).after (e5.toQuiet.trans e6)

theorem threadChangeLabel_installs {new : Nat}
    (hk : k.Ok) (hp : k.principal t = some (tl, tc)) (hl : k.label new = some l)
    (h : threadChangeLabel t new k = (.ok u, k')) : Installs k k' t new tc := by
  obtain ⟨⟨koSg, curSgLabel, curThLabel, sgNew⟩, k1, h1, h⟩ := bind_ok h
  have e1 := Evolve.of_ok h1
  exact Installs.before hk e1.toQuiet (threadChangeLabelCommit_ok (e1.ok hk)
    ((e1.principals hk t).trans hp) (e1.labels hk _ _ hl) (threadChangeLabelPrep_ok hk h1) h)

theorem threadJump_installs {label clearance : Nat} {c : Label}
    (hk : k.Ok) (hp : k.principal t = some (tl, tc)) (hl : k.label label = some l)
    (hc : k.label clearance = some c) (h : threadJump t label clearance k = (.ok u, k')) :
    Installs k k' t label clearance := by
  obtain ⟨th, -, h⟩ := deref_bind_ok h
  obtain ⟨_, k1, h1, h⟩ := bind_ok h
  have e1 := Evolve.of_ok h1
  obtain ⟨_, k2, h2, h⟩ := bind_ok h
  have e2 := e1.trans (Evolve.of_ok h2)
  obtain ⟨_, k3, h3, h⟩ := bind_ok h
  have i3 := threadChangeLabel_installs (e2.ok hk) ((e2.principals hk t).trans hp)
    (e2.labels hk _ _ hl) h3
  have hp3 : k3.principal t = some (label, tc) := by rw [i3.principals, if_pos rfl]
  have i4 := setLabelPrepared_installs i3.ok hp3 (i3.labels _ _ (e2.labels hk _ _ hc)) h
  exact Installs.before hk e2.toQuiet (i3.trans i4)

/-- What the creator of a thread or gate with labels `l` and `c` has shown. -/
def CreatedBy (k : Kernel) (tl tc l c : Nat) : Prop :=
  k.LabelBelow .starlo tl l ∧ k.LabelBelow .starlo l c ∧ k.LabelBelow .starlo c tc

theorem CreatedBy.quiet {l c : Nat} (hk : k.Ok) (he : Quiet k k')
    (h : CreatedBy k tl tc l c) : CreatedBy k' tl tc l c :=
  ⟨he.below hk h.1, he.below hk h.2.1, he.below hk h.2.2⟩

section Create

variable {l c id tl tc : Nat} {la lc : Label} {k k' : Kernel}

theorem threadAlloc_spec (hk : k.Ok) (hcur : k.curThread ≠ 0)
    (hth : k.principal k.curThread = some (tl, tc)) (hl : k.label l = some la)
    (hc : k.label c = some lc) (h : threadAlloc l c k = (.ok id, k')) :
    Installs k k' id l c ∧ CreatedBy k' tl tc l c := by
  obtain ⟨_, k1, h1, h⟩ := bind_ok h
  have i1 := kobjectAlloc_installs hk (Or.inl rfl) hl hc h1
  have b1 : CreatedBy k1 tl tc l c := kobjectAlloc_below hk hcur hth (Or.inl rfl) hl hc h1
  obtain ⟨sg, k2, h2, h⟩ := bind_ok h
  have e2 := Evolve.of_ok h2
  obtain ⟨_, k3, h3, h⟩ := bind_ok h
  obtain ⟨_, k4, h4, h⟩ := bind_ok h
  obtain ⟨_, k5, h5, h⟩ := bind_ok h
  have e5 := e2.trans ((Evolve.of_ok h3).trans ((Evolve.of_ok h4).trans (Evolve.of_ok h5)))
  obtain ⟨_, k6, h6, h⟩ := bind_ok h
  have e6 := e5.trans (Evolve.of_ok h6)
  cases h
  exact ⟨i1.after e6.toQuiet, b1.quiet i1.ok e6.toQuiet⟩

theorem gateAlloc_spec {verify : Nat} (hk : k.Ok) (hcur : k.curThread ≠ 0)
    (hth : k.principal k.curThread = some (tl, tc)) (hl : k.label l = some la)
    (hc : k.label c = some lc) (h : gateAlloc l c verify k = (.ok id, k')) :
    Installs k k' id l c ∧ CreatedBy k' tl tc l c := by
  obtain ⟨_, k1, h1, h⟩ := bind_ok h
  have i1 := kobjectAlloc_installs hk (Or.inr rfl) hl hc h1
  have b1 : CreatedBy k1 tl tc l c := kobjectAlloc_below hk hcur hth (Or.inr rfl) hl hc h1
  obtain ⟨_, k2, h2, h⟩ := bind_ok h
  cases h
  obtain ⟨k3, old, u, e3, hs⟩ := kobjectSetLabel_ok h2
  have e4 := e3.trans
    (setLabelPrepared_evolve (e3.ok i1.ok) (Or.inl ⟨by decide, by decide⟩) hs)
  exact ⟨i1.after e4.toQuiet, b1.quiet i1.ok e4.toQuiet⟩

end Create

end HiStar.Iflow
