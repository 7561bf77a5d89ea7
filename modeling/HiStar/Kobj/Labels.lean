import HiStar.Kobj.Counts

namespace HiStar.Kobj

open Lib Function

variable {q : Prop} {root e n m x y : Nat} {r : Nat → Nat} {k k' k'' : Store} {env : Env}
  {idx : KoLabel} {oldLabel newLabel nb : Nat}

theorem MayHold.ne_label {ty : KobjType} (h : MayHold ty .label) : ty ≠ .label := by
  rintro rfl
  exact h

theorem dropLabel_wp (h : Inv q root e n r k) (hx : x ∈ k.ids) :
    Wp (kobjectSetLabelPrepared x idx oldLabel 0 ⟨x, nb⟩) k
      (fun _ k' ↦ Inv q root e n r k' ∧ Relabel x 0 idx (· = oldLabel) k k')
      (fun e _ ↦ Stopped e) := by
  unfold kobjectSetLabelPrepared
  refine wp_deref hx (wp_require (fun hb ↦ ?_) fun _ ↦ .inl rfl)
  refine Wp.seq (dropOld_wp h hx (of_decide_eq_true hb)) fun _ k1 hk1 ↦ ?_
  rw [if_neg (not_not.mpr rfl)]
  exact wp_modify (Wp.pure hk1)

theorem setLabelId_setLabelId (idx : KoLabel) (a b : Nat) (o : Kobject) :
    setLabelId idx a (setLabelId idx b o) = setLabelId idx a o := by
  simp [setLabelId]

theorem held_newLabel {o : Kobject} (h : o.koLabel idx = 0) (hn : newLabel ≠ 0) :
    (setLabelId idx newLabel o).held = newLabel ::ₘ o.held := by
  have hh := held_setLabelId o idx newLabel
  rw [h, idRef_of_ne hn, Kobject.idRef, if_pos rfl, add_zero] at hh
  rw [hh, Multiset.add_comm, Multiset.singleton_add]

theorem kobjectSetLabelPrepared_wp (h : Inv q root e n r k) (hx : x ∈ k.ids)
    (hnew : newLabel ∈ k.ids) (hnl : (k.obj newLabel).koType = .label)
    (ht : MayHold (k.obj x).koType .label) (hnb : q → k.total x ≠ ctQuotaInf → nb ≤ r x) :
    Wp (kobjectSetLabelPrepared x idx oldLabel newLabel ⟨x, nb⟩) k
      (fun _ k' ↦ Inv q root e n (update r x (r x - k.total newLabel)) k' ∧
        (q → k.total x ≠ ctQuotaInf → k.total newLabel ≤ r x) ∧
        Relabel x newLabel idx (fun z ↦ z = oldLabel ∨ z = newLabel) k k')
      (fun e _ ↦ Stopped e) := by
  have hn0 : newLabel ≠ 0 := fun h0 ↦ h.shape.zero_notMem (h0 ▸ hnew)
  have hne : x ≠ newLabel := fun he ↦ ht.ne_label (he ▸ hnl)
  unfold kobjectSetLabelPrepared
  refine wp_deref hx (wp_require (fun hb ↦ ?_) fun _ ↦ .inl rfl)
  refine Wp.seq (dropOld_wp h hx (of_decide_eq_true hb)) fun _ k1 ⟨hinv, hrel⟩ ↦ ?_
  have hids : k1.ids = k.ids := hrel.ids
  have htot : ∀ z, k1.total z = k.total z := fun z ↦
    (total_mapObj (refsOnly_setLabelId idx 0).total z).symm.trans (hrel.total z)
  rw [if_pos hn0]
  refine Wp.seq (kobjectIncrefResv_wp (hids ▸ hx) (hids ▸ hnew)) fun qr' k2 ⟨hk2, _, htake⟩ ↦ ?_
  refine wp_modify (Wp.pure ?_)
  subst hk2
  -- the state in which the label is missing lies between the two references
  have hlink : Link x newLabel (k1.mapObj x (setLabelId idx 0))
      ((k1.mapObj newLabel (gainRef x)).mapObj x (setLabelId idx newLabel)) := by
    refine link_of (refsOnly_setLabelId idx newLabel) hne ?_ rfl rfl rfl ?_ ?_ fun z h1 h2 ↦ ?_
    · exact held_newLabel (by simp [Store.mapObj_obj, setLabelId]) hn0
    · simp [Store.mapObj_obj, hne, setLabelId]
    · simp [Store.mapObj_obj, Ne.symm hne]
    · simp [Store.mapObj_obj, h1, h2]
  have hle : q → k.total x ≠ ctQuotaInf → k.total newLabel ≤ r x := by
    intro hq hi
    obtain ⟨h1, -⟩ := htake (by rwa [htot])
    rw [htot] at h1
    exact h1.trans (hnb hq hi)
  have htype : ∀ z, ((k1.mapObj x (setLabelId idx 0)).obj z).koType = (k.obj z).koType :=
    hrel.type
  refine ⟨hinv.link hlink (hids ▸ hx) (hids ▸ hnew) ?_ ?_ ?_ ?_ ?_, hle, ?_⟩
  · rwa [htype, htype, hnl]
  · rw [htype, hnl]
    exact fun hc ↦ absurd hc (by decide)
  · intro _
    rw [htype]
    exact .inr (.inr (.inr hnl))
  · intro hq hi
    rw [hrel.total] at hi ⊢
    have := hle hq hi
    rw [update_self]
    omega
  · exact fun z hz ↦ update_of_ne hz _ _
  · obtain ⟨used, hself⟩ := hrel.self
    have hold : ∀ z, z ≠ x → (k1.mapObj x (setLabelId idx 0)).obj z = k1.obj z := fun z hz ↦ by
      rw [Store.mapObj_obj, if_neg hz]
    refine ⟨⟨hlink.ids.trans hrel.ids, hlink.counter.trans hrel.counter,
      hlink.encipher.trans hrel.encipher, fun z ↦ (hlink.type z).trans (hrel.type z),
      fun z ↦ (hlink.fixed z).trans (hrel.fixed z)⟩,
      fun z ↦ (hlink.total z).trans (hrel.total z), fun z h1 h2 ↦ ?_, fun z h1 ↦ ?_, used, ?_⟩
    · obtain ⟨h2, h3⟩ := not_or.mp h2
      rw [Store.mapObj_obj, if_neg h1, Store.mapObj_obj, if_neg h3, ← hold z h1]
      exact hrel.other z h1 h2
    · obtain ⟨ref, parent, hz⟩ := hrel.rest z h1
      rw [hold z h1] at hz
      rw [Store.mapObj_obj, if_neg h1, Store.mapObj_obj]
      split
      · rw [hz]
        exact ⟨_, _, rfl⟩
      · exact ⟨ref, parent, hz⟩
    · rw [Store.mapObj_obj, if_pos rfl] at hself
      rw [Store.mapObj_obj, if_pos rfl, Store.mapObj_obj, if_neg hne,
        ← setLabelId_setLabelId idx newLabel 0, hself]
      simp [setLabelId]

/-- What a change of the label `idx` of `x` does to the objects: `x` has the
label, labels are counted, and quota may have moved. -/
structure LabelSet (q : Prop) (x newLabel : Nat) (idx : KoLabel) (k k' : Store) : Prop
    extends Frame k k' where
  rest : ∀ z, z ≠ x → ∃ ref parent used total, k'.obj z = { k.obj z with
    koRef := ref, koParent := parent, koQuotaUsed := used, koQuotaTotal := total }
  counts : ∀ z ∈ k.ids, z ≠ x → (k.obj z).koType ≠ .label → (k'.obj z).koRef = (k.obj z).koRef ∧
    (k'.obj z).koParent = (k.obj z).koParent
  self : ∃ used total, k'.obj x = { setLabelId idx newLabel (k.obj x) with
    koQuotaUsed := used, koQuotaTotal := total }
  total_other : q → ∀ z, ¬ Above k.up x z → k'.total z = k.total z
  total_self : q → k'.total x ≤ k.total x + if newLabel = 0 then 0 else k.total newLabel

theorem kobjectGetLabel_ok {l : Nat} (h : kobjectGetLabel env x idx k = .ok l) :
    l = 0 ∨ l ∈ k.ids ∧ (k.obj l).koType = .label := by
  unfold kobjectGetLabel at h
  split at h
  · cases h
    exact .inl rfl
  · obtain ⟨-, hm, -, ht⟩ := kobjectGet_ok h
    exact .inr ⟨hm, by simpa [eq_comm] using ht⟩

theorem labelSet_of {k1 : Store} {touched : Nat → Prop} (hqo : QuotaOnly k k1)
    (hrel : Relabel x newLabel idx touched k1 k')
    (htouched : ∀ z ∈ k.ids, touched z → (k.obj z).koType = .label)
    (hto : q → ∀ z, ¬ Above k.up x z → k1.total z = k.total z)
    (hts : q → k1.total x ≤ k.total x + if newLabel = 0 then 0 else k.total newLabel) :
    LabelSet q x newLabel idx k k' := by
  have hs := hqo.sameRefs
  refine ⟨⟨hrel.ids.trans hs.ids, hrel.counter.trans hs.counter, hrel.encipher.trans hs.encipher,
    fun z ↦ (hrel.type z).trans (hs.type z), fun z ↦ (hrel.fixed z).trans (hs.fixed z)⟩,
    fun z hz ↦ ?_, fun z hm hz hl ↦ ?_, ?_, fun hq z hz ↦ ?_, fun hq ↦ ?_⟩
  · obtain ⟨ref, parent, h⟩ := hrel.rest z hz
    rw [hqo.obj z] at h
    exact ⟨ref, parent, _, _, h⟩
  · have hnt : ¬ touched z := fun ht ↦ hl (htouched z hm ht)
    rw [hrel.other z hz hnt]
    exact ⟨hs.ref z, hs.parent z⟩
  · obtain ⟨used, h⟩ := hrel.self
    rw [hqo.obj x] at h
    exact ⟨used, _, h⟩
  · rw [hrel.total, hto hq z hz]
  · rw [hrel.total]
    exact hts hq

theorem kobjectSetLabel_wp (h : Inv q root 0 (m + n) r k) (hx : x ∈ k.ids)
    (hnew : newLabel ≠ 0 → newLabel ∈ k.ids ∧ (k.obj newLabel).koType = .label ∧
      MayHold (k.obj x).koType .label)
    (hm : q → newLabel ≠ 0 → k.total newLabel ≤ m) (hr : q → r x = 0) :
    Wp (kobjectSetLabel env x idx newLabel) k
      (fun _ k' ↦ Inv q root 0 n r k' ∧ LabelSet q x newLabel idx k k')
      (Fails fun k' ↦ Inv q root 0 n r k' ∧ QuotaOnly k k') := by
  have hinv : Inv q root 0 n r k := h.mono (Nat.le_add_left n m)
  unfold kobjectSetLabel
  refine wp_read (fun old hold ↦ ?_) fun e _ ↦ .inr ⟨hinv, .refl k⟩
  have hlabel : ∀ z ∈ k.ids, z = old → (k.obj z).koType = .label := by
    rintro z hz rfl
    exact ((kobjectGetLabel_ok hold).resolve_left fun h0 ↦ h.shape.zero_notMem (h0 ▸ hz)).2
  by_cases hn0 : newLabel = 0
  · rw [if_neg (not_not.mpr hn0), hn0]
    refine Wp.bind ((dropLabel_wp hinv hx).mono (fun _ k' ⟨h1, h2⟩ ↦ Wp.pure ⟨h1, ?_⟩)
      fun _ _ he ↦ .inl he)
    exact labelSet_of (.refl k) h2 hlabel (fun _ _ _ ↦ rfl) fun _ ↦ Nat.le_add_right _ _
  rw [if_pos hn0]
  obtain ⟨hnm, hnl, ht⟩ := hnew hn0
  have hxl : (k.obj x).koType ≠ .label := ht.ne_label
  refine Wp.bind ((kobjectQresReserve_wp 0 h hx hnm (fun hq ↦ hm hq hn0)
    (fun _ ↦ h.shape.not_above_label hx hxl hnm hnl) (fun _ ht ↦ absurd ht hxl)
    fun hq _ ↦ (hr hq).symm).mono (fun qr k1 hres ↦ ?_) fun e k1 he ↦
      he.imp_right fun ⟨h1, _⟩ ↦ ⟨h1.inv, h1.toQuotaOnly⟩)
  obtain ⟨ko, nb⟩ := qr
  obtain rfl : ko = x := hres.ko
  have hs := hres.sameRefs
  refine Wp.bind ((kobjectSetLabelPrepared_wp hres.inv (hs.ids ▸ hx) (hs.ids ▸ hnm) ?_ ?_
    ?_).mono (fun _ k' ⟨h1, _, h2⟩ ↦ Wp.pure ⟨?_, ?_⟩) fun _ _ he ↦ .inl he)
  · rwa [hs.type]
  · rwa [hs.type]
  · intro hq hi
    rw [update_self]
    exact (hres.nbytes hq hi).le
  · -- the reservation is used up
    have hsame : q → k1.total newLabel = k.total newLabel := fun hq ↦
      hres.total_other hq _ (h.shape.not_above_label hx hxl hnm hnl)
    refine ⟨h1.shape, fun hq ↦ ?_⟩
    have hb := h1.books hq
    rwa [update_self, hsame hq, Nat.add_sub_cancel, update_idem, update_eq_self] at hb
  · refine labelSet_of hres.toQuotaOnly h2 ?_ hres.total_other fun hq ↦ ?_
    · rintro z hz (hz' | rfl)
      · exact hlabel z hz hz'
      · exact hnl
    · rw [if_neg hn0]
      exact hres.total_self hq

end HiStar.Kobj
