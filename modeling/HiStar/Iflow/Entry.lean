import HiStar.Iflow.Calls

namespace HiStar.Iflow

open Lib Function LevelComparator

variable {k k' : Kernel} {tl tc r h : Nat}

instance (tl tc : Nat) : Rel Evolve (checkVerify tl tc) := by
  unfold checkVerify
  infer_instance

theorem sysGateEnter_conforms {container object : Nat} {ulabel uclear : Option ULabel} {ute : Bool}
    (hk : k.Ok) (hp : k.principal k.curThread = some (tl, tc))
    (hok : sysGateEnter tl tc container object ulabel uclear ute k = (.ok r, k')) :
    Conforms h k k' ⟨k.lev tl, k.lev tc⟩ := by
  obtain ⟨gid, k1, h1, hok⟩ := bind_ok hok
  have e1 := Evolve.of_ok h1
  obtain ⟨gl, gc, hgp⟩ := cobjGet_principal hk (Or.inr rfl) h1
  obtain ⟨g, hg, hok⟩ := deref_bind_ok hok
  obtain ⟨hproper, hgl, hgc⟩ := principal_obj (e1.ok hk) hgp hg
  have hok := kobjectGetLabel_bind_ok hproper.1 hok
  have hok := kobjectGetLabel_bind_ok hproper.2 hok
  rw [hgl, hgc] at hok
  obtain ⟨gtVerify, k4, h4, hok⟩ := bind_ok hok
  have e4 := e1.trans (Evolve.of_ok h4)
  obtain ⟨_, k5, h5, hok⟩ := bind_ok hok
  have e5 := e4.trans (Evolve.of_ok h5)
  obtain ⟨lb, k6, h6, hok⟩ := bind_ok hok
  obtain ⟨hlb, hlbmax⟩ := labelMax_starhi (e5.ok hk) h6
  have e6 := e5.trans (Evolve.of_ok h6)
  obtain ⟨cb, k7, h7, hok⟩ := bind_ok hok
  obtain ⟨hcb, hcbmax⟩ := labelMax_starlo (e6.ok hk) h7
  have t7 := Evolve.of_ok h7
  have e7 := e6.trans t7
  obtain ⟨nl, k8, h8, hok⟩ := bind_ok hok
  have t8 := Evolve.of_ok h8
  obtain ⟨nc, k9, h9, hok⟩ := bind_ok hok
  have t9 := t8.trans (Evolve.of_ok h9)
  have e9 := e7.trans t9
  obtain ⟨_, k10, h10, hok⟩ := bind_ok hok
  have b10 := labelCompare_ok (e9.ok hk) h10
  have t10 := Evolve.of_ok h10
  obtain ⟨_, k11, h11, hok⟩ := bind_ok hok
  have b11 := labelCompare_ok (t10.ok (e9.ok hk)) h11
  have t11 := Evolve.of_ok h11
  obtain ⟨_, k12, h12, hok⟩ := bind_ok hok
  have b12 := labelCompare_ok (t11.ok (t10.ok (e9.ok hk))) h12
  have t12 := Evolve.of_ok h12
  obtain ⟨-, hok⟩ := require_bind_ok hok
  obtain ⟨_, k13, h13, hok⟩ := bind_ok hok
  have t13 := t12.trans (Evolve.of_ok h13)
  obtain ⟨_, k14, h14, hok⟩ := bind_ok hok
  have t14 := t13.trans (Evolve.of_ok h14)
  obtain ⟨_, _, hget, hok⟩ := bind_ok hok
  cases hget
  obtain ⟨_, k15, h15, hok⟩ := bind_ok hok
  cases hok
  have e := e9.trans (t10.trans (t11.trans t14))
  have hok11 := t11.ok (t10.ok (e9.ok hk))
  have c10 := t14.below hok11 (t11.below (t10.ok (e9.ok hk)) (t10.below (e9.ok hk) b10))
  have c11 := t14.below hok11 (t11.below (t10.ok (e9.ok hk)) b11)
  have c12 := t14.below hok11 b12
  obtain ⟨lnl, lnc, hnl, hnc, hn⟩ := c11
  have i15 := threadJump_installs (e.ok hk) (by rw [e.principals hk, e.cur]; exact hp) hnl hnc h15
  rw [e.cur] at i15
  have i := Installs.before hk e.toQuiet i15
  have hkeep7 : ∀ i l, k7.label i = some l → k'.label i = some l := fun i l hl ↦
    i15.labels i l ((t9.trans (t10.trans (t11.trans t14))).labels (e7.ok hk) i l hl)
  obtain ⟨htl5, -⟩ := lev_of_principal hk (e5.labels hk) hp
  obtain ⟨-, htc6⟩ := lev_of_principal hk (e6.labels hk) hp
  have hgp0 : k.principal gid = some (gl, gc) := by rw [← e1.principals hk, hgp]
  obtain ⟨hgl5, -⟩ := lev_of_principal hk (e5.labels hk) hgp0
  obtain ⟨-, hgc6⟩ := lev_of_principal hk (e6.labels hk) hgp0
  have hlbk : k'.lev lb = fun g ↦ starhi.max (k.lev gl g) (k.lev tl g) := by
    obtain ⟨d, hd⟩ := hlb
    rw [lev_keep hkeep7 ⟨d, t7.labels (e6.ok hk) _ _ hd⟩,
      lev_keep (t7.labels (e6.ok hk)) ⟨d, hd⟩, hlbmax, htl5, hgl5]
  rw [hgc6, htc6] at hcbmax
  refine conforms_of_installs hk i (Grants.enter gid ⟨k.lev gl, k.lev gc⟩ _ ?_ ?_ ?_ ?_)
  · simp only [Kernel.view, hgp0, Option.map_some]
  · rw [← hlbk]
    exact LabelBelow.leq (i15.below c10)
  · exact LabelBelow.leq (i15.below ⟨lnl, lnc, hnl, hnc, hn⟩)
  · intro a ha1 ha2
    have hc := LabelBelow.leq (i15.below c12) a
    rwa [lev_keep hkeep7 hcb, hcbmax a ha1 ha2] at hc

instance (t p0 p1 : Nat) :
    Rel Quiet (threadSetSchedParents t p0 p1) := by
  unfold threadSetSchedParents
  infer_instance

instance (t : Nat) : Rel Evolve (threadSetRunnable t) := by
  unfold threadSetRunnable
  infer_instance

theorem sysThreadStart_conforms {container object : Nat} {ul uclear : Option ULabel}
    (hk : k.Ok) (hp : k.principal k.curThread = some (tl, tc))
    (hok : sysThreadStart tl tc container object ul uclear k = (.ok r, k')) :
    Conforms h k k' ⟨k.lev tl, k.lev tc⟩ := by
  obtain ⟨_, k1, h1, hok⟩ := bind_ok hok
  have e1 := Evolve.of_ok h1
  obtain ⟨t, k2, h2, hok⟩ := bind_ok hok
  have e2 := e1.trans (Evolve.of_ok h2)
  obtain ⟨ol, oc, htp⟩ := cobjGet_principal (e1.ok hk) (Or.inl rfl) h2
  obtain ⟨th, -, hok⟩ := deref_bind_ok hok
  obtain ⟨-, hok⟩ := require_bind_ok hok
  obtain ⟨nl, k3, h3, hok⟩ := bind_ok hok
  have t3 := Evolve.of_ok h3
  obtain ⟨nc, k4, h4, hok⟩ := bind_ok hok
  have t4 := t3.trans (Evolve.of_ok h4)
  have e4 := e2.trans t4
  obtain ⟨_, k5, h5, hok⟩ := bind_ok hok
  have b5 := labelCompare_ok (e4.ok hk) h5
  have t5 := Evolve.of_ok h5
  obtain ⟨_, k6, h6, hok⟩ := bind_ok hok
  have b6 := labelCompare_ok (t5.ok (e4.ok hk)) h6
  have t6 := Evolve.of_ok h6
  obtain ⟨_, k7, h7, hok⟩ := bind_ok hok
  have b7 := labelCompare_ok (t6.ok (t5.ok (e4.ok hk))) h7
  have t7 := Evolve.of_ok h7
  obtain ⟨_, k8, h8, hok⟩ := bind_ok hok
  have hok6 := t6.ok (t5.ok (e4.ok hk))
  have c5 := t7.below hok6 (t6.below (t5.ok (e4.ok hk)) (t5.below (e4.ok hk) b5))
  have c6 := t7.below hok6 (t6.below (t5.ok (e4.ok hk)) b6)
  have c7 := t7.below hok6 b7
  have s7 := t4.trans (t5.trans (t6.trans t7))
  have e := e2.trans s7
  obtain ⟨lnl, lnc, hnl, hnc, hn⟩ := c6
  have i8 := threadJump_installs (e.ok hk) ((s7.principals (e2.ok hk) t).trans htp) hnl hnc h8
  have q10 : Quiet k8 k' := Rel.ok hok
  have i := Installs.before hk e.toQuiet (i8.after q10)
  obtain ⟨htl, htc⟩ := lev_of_principal hk i.labels hp
  refine conforms_of_installs hk i (Grants.start _ ?_ ?_ ?_)
  · rw [← htl]
    exact LabelBelow.leq (q10.below i8.ok (i8.below c5))
  · exact LabelBelow.leq (q10.below i8.ok (i8.below ⟨lnl, lnc, hnl, hnc, hn⟩))
  · rw [← htc]
    exact LabelBelow.leq (q10.below i8.ok (i8.below c7))

end HiStar.Iflow
