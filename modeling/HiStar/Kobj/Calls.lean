import HiStar.Kobj.Setup

namespace HiStar.Kobj

open Lib Function

variable {root x c l : Nat} {k k' : Store} {env : Env}

theorem labelGrow_wp (j : Nat) (h : Shape root k) (hl : l ∈ k.ids) :
    Wp (labelGrow env l j) k (fun _ k' ↦ Shape root k' ∧ SameRefs k k') (Fails (Shape root)) := by
  induction j generalizing k with
  | zero => exact Wp.pure ⟨h, .refl k⟩
  | succ j ih =>
    have h0 : Inv False root 0 (0 + 0) noResv k := .ofShape h
    refine wp_deref hl (Wp.bind ((kobjectSetNbytes_wp h0 hl False.elim False.elim).mono
      (fun _ k1 ⟨h1, hr⟩ ↦ ?_) fun _ _ he ↦ he.imp_right fun he ↦ he.1.shape))
    exact (ih h1.shape (hr.sameRefs.ids ▸ hl)).imp fun _ _ ⟨h2, hs⟩ ↦ ⟨h2, hr.sameRefs.trans hs⟩

structure LabelReady (root l : Nat) (k k' : Store) : Prop extends Shape root k' where
  kept : Kept False k k'
  mem : l ∈ k'.ids
  type : (k'.obj l).koType = .label

theorem allocUlabel_wp (h : Shape root k) :
    Wp (allocUlabel env x) k (fun l ↦ LabelReady root l k) (Fails (Shape root)) := by
  unfold allocUlabel
  split
  · exact Wp.fail (.inr h)
  next pages _ =>
    have h0 : Inv False root 0 (0 + 0) noResv k := .ofShape h
    refine Wp.bind ((kobjectAlloc_wp h0 (fun _ _ ↦ rfl) (by decide) (fun h ↦ absurd rfl h)
      (fun h ↦ absurd rfl h) False.elim).mono (fun l k1 ha ↦ ?_) fun _ _ he ↦ he.imp_right Inv.shape)
    refine Wp.seq (labelGrow_wp pages ha.inv.shape ha.unplaced.mem) fun _ k2 ⟨h2, hs⟩ ↦ Wp.pure ?_
    have hu := ha.unplaced.of_sameRefs hs
    exact ⟨h2, ha.kept.trans (hs.toFrame.kept False.elim), hu.mem, hu.type_eq⟩
  · refine wp_read (fun l hl ↦ ?_) fun _ _ ↦ .inr h
    refine wp_require (fun hb ↦ Wp.pure ?_) fun _ ↦ .inr h
    have h0 : l ≠ 0 := of_decide_eq_true hb
    obtain ⟨hm, ht⟩ := (kobjectGetLabel_ok hl).resolve_left h0
    exact ⟨h, ⟨fun _ hz ↦ hz, fun _ _ ↦ rfl, False.elim⟩, hm, ht⟩

theorem sysContainerAlloc_wp {parentCt quota : Nat} {avoidTypes : KobjType → Bool}
    (h : Shape root k) :
    Wp (sysContainerAlloc env parentCt avoidTypes quota) k (fun _ ↦ Shape root)
      (Fails (Shape root)) := by
  unfold sysContainerAlloc
  refine wp_read (fun p hp ↦ ?_) fun _ _ ↦ .inr h
  obtain ⟨-, hpm, hpt⟩ := containerFind_ok hp
  refine Wp.seq (allocUlabel_wp h) fun l k1 h1 ↦ ?_
  have h0 : Inv False root 0 (0 + 0) noResv k1 := .ofShape h1.toShape
  refine Wp.bind ((kobjectAlloc_wp h0 (fun _ _ ↦ rfl) (by decide) (fun _ ↦ ⟨h1.mem, h1.type⟩)
    (fun h ↦ absurd rfl h) False.elim).mono (fun c k2 ha ↦ ?_) fun _ _ he ↦ he.imp_right Inv.shape)
  have hkept := h1.kept.trans ha.kept
  have hpm2 := hkept.mem p hpm
  have hne : p ≠ c := fun he ↦ ha.notMem (he ▸ h1.kept.mem p hpm)
  refine wp_lift (fun _ _ ↦ wp_deref hpm2 (wp_modify ?_)) fun _ ↦ .inr ha.inv.shape
  have hs : SameRefs k2 (k2.mapObj c (setupContainer
      (fun ty ↦ (k2.obj p).ctAvoidTypes ty || avoidTypes ty) quota)) :=
    sameRefs_mapObj (fun _ ↦ ⟨rfl, rfl, rfl, rfl⟩) rfl
  have h3 : Inv False root 0 (pgsize + (0 + 0)) noResv _ := .ofShape (ha.inv.shape.of_sameRefs hs)
  have hpt3 : _ = KobjType.container := (hs.type p).trans ((hkept.type p hpm).trans hpt)
  have hu3 := ha.unplaced.of_sameRefs hs
  exact Wp.bind ((addref_wp h3 (hs.ids ▸ hpm2) hpt3 hu3.mem False.elim fun _ ↦
    hu3.not_ctParent h3.shape (hs.ids ▸ hpm2) hpt3 hne).mono (fun _ _ h4 ↦ Wp.pure h4.1.shape)
    fun _ _ he ↦ he.imp_right Inv.shape)

theorem sysObjUnref_wp {container object : Nat} (h : Shape root k) :
    Wp (sysObjUnref env container object) k (fun _ ↦ Shape root) (Fails (Shape root)) := by
  unfold sysObjUnref
  refine wp_read (fun c hc ↦ ?_) fun _ _ ↦ .inr h
  refine wp_read (fun ko _ ↦ ?_) fun _ _ ↦ .inr h
  obtain ⟨-, hcm, hct⟩ := containerFind_ok hc
  have h0 : Inv False root 0 0 noResv k := .ofShape h
  exact Wp.bind ((containerUnref_wp h0 hcm hct).mono
    (fun _ k1 h1 ↦ (kobjectGcScan_wp h1.1.shape).mono (fun _ _ h2 ↦ h2) fun _ _ he ↦ .inl he)
    fun _ _ he ↦ he.imp_right fun ⟨hk, _⟩ ↦ hk ▸ h)

theorem sysSegmentAddref_wp {container object ct : Nat} (h : Shape root k) :
    Wp (sysSegmentAddref env container object ct) k (fun _ ↦ Shape root) (Fails (Shape root)) := by
  unfold sysSegmentAddref
  refine wp_read (fun c hc ↦ ?_) fun _ _ ↦ .inr h
  refine wp_read (fun ko hko ↦ ?_) fun _ _ ↦ .inr h
  obtain ⟨-, hcm, hct⟩ := containerFind_ok hc
  obtain ⟨-, hkm, -, hkt⟩ := cobjGet_ok hko
  have h0 : Inv False root 0 (pgsize + (0 + 0)) noResv k := .ofShape h
  refine (addref_wp h0 hcm hct hkm False.elim fun ht ↦ ?_).mono (fun _ _ h1 ↦ h1.1.shape)
    fun _ _ he ↦ he.imp_right Inv.shape
  rw [ht] at hkt
  exact absurd hkt (by decide)

theorem sysSelfAddref_wp {ct : Nat} (h : Shape root k) (ht : k.curThread ∈ k.ids)
    (hth : (k.obj k.curThread).koType = .thread) :
    Wp (sysSelfAddref env ct) k (fun _ ↦ Shape root) (Fails (Shape root)) := by
  unfold sysSelfAddref
  refine wp_read (fun c hc ↦ Wp.bind ?_) fun _ _ ↦ .inr h
  obtain ⟨-, hcm, hct⟩ := containerFind_ok hc
  have h0 : Inv False root 0 (pgsize + (0 + 0)) noResv k := .ofShape h
  refine (addref_wp h0 hcm hct ht False.elim fun htc ↦ ?_).mono (fun _ _ h1 ↦ h1.1.shape)
    fun _ _ he ↦ he.imp_right Inv.shape
  rw [hth] at htc
  cases htc

end HiStar.Kobj
