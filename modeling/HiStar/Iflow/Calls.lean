import HiStar.Iflow.View

namespace HiStar.Iflow

open Lib Function LevelComparator

section Calls

variable {k k' : Kernel} {tl tc r h : Nat}

theorem conforms_of_installs {id t c : Nat} {cur : Principal} (hk : k.Ok)
    (hi : Installs k k' id t c) (hg : Grants h k.view cur ⟨k'.lev t, k'.lev c⟩) :
    Conforms h k k' cur :=
  ⟨hi.ok, id, _, hg, hi.view hk⟩

variable {ul : Option ULabel}

theorem sysSelfSetLabel_ok (hk : k.Ok) (hp : k.principal k.curThread = some (tl, tc))
    (hok : sysSelfSetLabel tl tc ul k = (.ok r, k')) :
    ∃ l, Installs k k' k.curThread l tc ∧ k'.LabelBelow .starlo tl l ∧
      k'.LabelBelow .starlo l tc := by
  obtain ⟨l, k1, h1, hok⟩ := bind_ok hok
  have e1 := Evolve.of_ok h1
  obtain ⟨_, k2, h2, hok⟩ := bind_ok hok
  have b2 := labelCompare_ok (e1.ok hk) h2
  have e2 := Evolve.of_ok h2
  obtain ⟨_, k3, h3, hok⟩ := bind_ok hok
  have b3 := labelCompare_ok (e2.ok (e1.ok hk)) h3
  have e3 := Evolve.of_ok h3
  obtain ⟨_, _, hget, hok⟩ := bind_ok hok
  cases hget
  obtain ⟨_, k4, h4, hok⟩ := bind_ok hok
  cases hok
  have e := e1.trans (e2.trans e3)
  obtain ⟨ltl, ll, htl, hl, hb⟩ := (e2.trans e3).below (e1.ok hk) b2
  have i4 := threadChangeLabel_installs (e.ok hk) (by rw [e.principals hk, e.cur]; exact hp) hl h4
  have c3 := i4.below (e3.below (e2.ok (e1.ok hk)) b3)
  have c2 := i4.below ⟨ltl, ll, htl, hl, hb⟩
  rw [e.cur] at i4
  exact ⟨l, Installs.before hk e.toQuiet i4, c2, c3⟩

theorem sysSelfSetLabel_conforms (hk : k.Ok) (hp : k.principal k.curThread = some (tl, tc))
    (hok : sysSelfSetLabel tl tc ul k = (.ok r, k')) : Conforms h k k' ⟨k.lev tl, k.lev tc⟩ := by
  obtain ⟨l, i, hlo, hhi⟩ := sysSelfSetLabel_ok hk hp hok
  obtain ⟨htl, htc⟩ := lev_of_principal hk i.labels hp
  refine conforms_of_installs hk i ?_
  rw [htc]
  refine Grants.setLabel _ ?_ ?_
  · rw [← htl]
    exact LabelBelow.leq hlo
  · rw [← htc]
    exact LabelBelow.leq hhi

theorem sysSelfSetClearance_conforms (hk : k.Ok) (hp : k.principal k.curThread = some (tl, tc))
    (hok : sysSelfSetClearance tl tc ul k = (.ok r, k')) :
    Conforms h k k' ⟨k.lev tl, k.lev tc⟩ := by
  obtain ⟨c, k1, h1, hok⟩ := bind_ok hok
  have e1 := Evolve.of_ok h1
  obtain ⟨bound, k2, h2, hok⟩ := bind_ok hok
  obtain ⟨hbound, hmax⟩ := labelMax_starhi (e1.ok hk) h2
  have e2 := e1.trans (Evolve.of_ok h2)
  obtain ⟨_, k3, h3, hok⟩ := bind_ok hok
  have b3 := labelCompare_ok (e2.ok hk) h3
  have t3 := Evolve.of_ok h3
  obtain ⟨_, k4, h4, hok⟩ := bind_ok hok
  have b4 := labelCompare_ok (t3.ok (e2.ok hk)) h4
  have t4 := Evolve.of_ok h4
  obtain ⟨_, _, hget, hok⟩ := bind_ok hok
  cases hget
  obtain ⟨_, k5, h5, hok⟩ := bind_ok hok
  cases hok
  obtain ⟨k6, old, u, e6, hset⟩ := kobjectSetLabel_ok h5
  have e := e2.trans (t3.trans (t4.trans e6))
  have b3' := (t3.trans (t4.trans e6)).below (e2.ok hk) b3
  obtain ⟨_, lc, -, hlc, -⟩ := b3'
  have hp6 : k6.principal k4.curThread = some (tl, tc) := by
    rw [← e6.cur, e.principals hk, e.cur]
    exact hp
  have i6 := setLabelPrepared_installs (e.ok hk) hp6 hlc hset
  rw [← e6.cur, e.cur] at i6
  have i := Installs.before hk e.toQuiet i6
  obtain ⟨htl, htc⟩ := lev_of_principal hk i.labels hp
  obtain ⟨htl1, htc1⟩ := lev_of_principal hk (e1.labels hk) hp
  have hkeep : ∀ i l, k2.label i = some l → k'.label i = some l := fun i l hl ↦
    i6.labels i l ((t3.trans (t4.trans e6)).labels (e2.ok hk) i l hl)
  have hb : k'.lev bound = fun g ↦ starhi.max (k.lev tc g) (k.lev tl g) := by
    rw [lev_keep hkeep hbound, hmax, htc1, htl1]
  refine conforms_of_installs hk i ?_
  simp only [reduceCtorEq, ↓reduceIte, htl]
  refine Grants.setClearance _ ?_ ?_
  · rw [← htl]
    exact LabelBelow.leq (i6.below ((t3.trans (t4.trans e6)).below (e2.ok hk) b3))
  · rw [← hb]
    exact LabelBelow.leq (i6.below ((t4.trans e6).below (t3.ok (e2.ok hk)) b4))

theorem sysHandleCreate_conforms (hk : k.Ok) (hp : k.principal k.curThread = some (tl, tc))
    (hr : r ≠ h) (hok : sysHandleCreate tl tc k = (.ok r, k')) :
    Conforms h k k' ⟨k.lev tl, k.lev tc⟩ := by
  obtain ⟨n, k1, h1, hok⟩ := bind_ok hok
  obtain ⟨hres, -⟩ := handleAlloc_ok hk h1
  have e1 := Evolve.of_ok h1
  obtain ⟨l, k2, h2, hok⟩ := bind_ok hok
  obtain ⟨t2, hl, hlev⟩ := labelCopySet_lev (e1.ok hk) hres.ne_zero hres.lt le_rfl h2
  have e2 := e1.trans t2
  obtain ⟨c, k3, h3, hok⟩ := bind_ok hok
  obtain ⟨t3, ⟨lc, hc⟩, hclev⟩ :=
    labelCopySet_lev (e2.ok hk) hres.ne_zero hres.lt (by decide) h3
  have e3 := e2.trans t3
  obtain ⟨_, k4, h4, hok⟩ := bind_ok hok
  have t4 := Evolve.of_ok h4
  have e4 := e3.trans t4
  obtain ⟨_, _, hget, hok⟩ := bind_ok hok
  cases hget
  obtain ⟨_, k5, h5, hok⟩ := bind_ok hok
  obtain ⟨ll, hll⟩ := hl
  have i5 := threadChangeLabel_installs (e4.ok hk) (by rw [e4.principals hk, e4.cur]; exact hp)
    ((t3.trans t4).labels (e2.ok hk) _ _ hll) h5
  obtain ⟨_, _, hget, hok⟩ := bind_ok hok
  cases hget
  obtain ⟨hne, hok⟩ := require_bind_ok hok
  obtain ⟨_, k6, h6, hok⟩ := bind_ok hok
  cases hok
  have hcur5 : k5.curThread = k.curThread := by
    rw [← e4.cur]
    exact i5.cur_or.resolve_right (of_decide_eq_true hne)
  have hp5 : k5.principal k5.curThread = some (l, tc) := by
    rw [i5.principals, hcur5, if_pos e4.cur.symm]
  have i6 := setLabelPrepared_installs i5.ok hp5 (i5.labels _ _ (t4.labels (e3.ok hk) _ _ hc)) h6
  rw [hcur5, ← e4.cur] at i6
  have i46 := i5.trans i6
  rw [e4.cur] at i46
  have i := Installs.before hk e4.toQuiet i46
  obtain ⟨htl, -⟩ := lev_of_principal hk (e1.labels hk) hp
  obtain ⟨-, htc⟩ := lev_of_principal hk (e2.labels hk) hp
  have hkeep : ∀ i l, k3.label i = some l → k'.label i = some l := fun i l hl ↦
    i46.labels i l (t4.labels (e3.ok hk) i l hl)
  refine conforms_of_installs hk i ?_
  simp only [reduceCtorEq, ↓reduceIte]
  rw [lev_keep hkeep ⟨ll, t3.labels (e2.ok hk) _ _ hll⟩, lev_keep hkeep ⟨lc, hc⟩, hclev, htc,
    lev_keep (t3.labels (e2.ok hk)) ⟨ll, hll⟩, hlev, htl]
  exact Grants.newCategory r hr

theorem grants_create {l c id : Nat} (hk : k.Ok) (hp : k.principal k.curThread = some (tl, tc))
    (hi : Installs k k' id l c) (hb : CreatedBy k' tl tc l c) :
    Conforms h k k' ⟨k.lev tl, k.lev tc⟩ := by
  obtain ⟨htl, htc⟩ := lev_of_principal hk hi.labels hp
  refine conforms_of_installs hk hi (Grants.create _ ?_ ?_ ?_)
  · rw [← htl]
    exact LabelBelow.leq hb.1
  · exact LabelBelow.leq hb.2.1
  · rw [← htc]
    exact LabelBelow.leq hb.2.2

instance (uGuard : Option ULabel) : Rel Evolve (allocGuard uGuard) := by
  unfold allocGuard
  split <;> infer_instance

instance (ute entryVisible : Bool) : Rel Evolve (gateEntry ute entryVisible) := by
  unfold gateEntry
  infer_instance

instance (name : Bool) : Rel Evolve (allocSetName name) := by
  unfold allocSetName
  infer_instance

instance (ko : Nat) : Rel Evolve (containerPut ko) := by
  unfold containerPut
  infer_instance

instance (g : Nat) (ute entryVisible : Bool) :
    Rel Evolve (setGateEntry g ute entryVisible) := by
  unfold setGateEntry
  infer_instance

theorem sysGateCreate_conforms {container : Nat} {ute name vis : Bool}
    {uLabel uClear uGuard : Option ULabel} (hk : k.Ok) (hcur : k.curThread ≠ 0)
    (hp : k.principal k.curThread = some (tl, tc))
    (hok : sysGateCreate tl tc container ute uLabel uClear uGuard name vis k = (.ok r, k')) :
    Conforms h k k' ⟨k.lev tl, k.lev tc⟩ := by
  obtain ⟨lt, lc, hlt, hlc⟩ := hk.has_labels _ _ _ hp
  obtain ⟨_, k1, h1, hok⟩ := bind_ok hok
  have e1 := Evolve.of_ok h1
  obtain ⟨gl, k2, h2, hok⟩ := bind_ok hok
  have t2 := Evolve.of_ok h2
  have e2 := e1.trans t2
  obtain ⟨lgl, hgl⟩ := allocUlabel_ok (fun i hi ↦ ⟨lt, by cases hi; exact e1.labels hk _ _ hlt⟩) h2
  obtain ⟨gc, k3, h3, hok⟩ := bind_ok hok
  have t3 := Evolve.of_ok h3
  have e3 := e2.trans t3
  obtain ⟨lgc, hgc⟩ := allocUlabel_ok (fun i hi ↦ ⟨lc, by cases hi; exact e2.labels hk _ _ hlc⟩) h3
  obtain ⟨guard, k4, h4, hok⟩ := bind_ok hok
  have t4 := Evolve.of_ok h4
  have e4 := e3.trans t4
  obtain ⟨g, k5, h5, hok⟩ := bind_ok hok
  obtain ⟨i5, b5⟩ := gateAlloc_spec (e4.ok hk) (by rw [e4.cur]; exact hcur)
    (by rw [e4.cur, e4.principals hk]; exact hp)
    ((t3.trans t4).labels (e2.ok hk) _ _ hgl) (t4.labels (e3.ok hk) _ _ hgc) h5
  have e9 := Evolve.of_ok hok
  exact grants_create hk hp (Installs.before hk e4.toQuiet (i5.after e9.toQuiet))
    (b5.quiet i5.ok e9.toQuiet)

theorem sysThreadCreate_conforms {ct : Nat} {name : Bool} (hk : k.Ok) (hcur : k.curThread ≠ 0)
    (hp : k.principal k.curThread = some (tl, tc))
    (hok : sysThreadCreate tl tc ct name k = (.ok r, k')) :
    Conforms h k k' ⟨k.lev tl, k.lev tc⟩ := by
  obtain ⟨lt, lc, hlt, hlc⟩ := hk.has_labels _ _ _ hp
  obtain ⟨_, k1, h1, hok⟩ := bind_ok hok
  have e1 := Evolve.of_ok h1
  obtain ⟨t, k2, h2, hok⟩ := bind_ok hok
  obtain ⟨i2, b2⟩ := threadAlloc_spec (e1.ok hk) (by rw [e1.cur]; exact hcur)
    (by rw [e1.cur, e1.principals hk]; exact hp) (e1.labels hk _ _ hlt) (e1.labels hk _ _ hlc) h2
  have e4 := Evolve.of_ok hok
  exact grants_create hk hp (Installs.before hk e1.toQuiet (i2.after e4.toQuiet))
    (b2.quiet i2.ok e4.toQuiet)

end Calls

end HiStar.Iflow
