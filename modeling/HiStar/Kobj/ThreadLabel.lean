import HiStar.Kobj.Copy

namespace HiStar.Kobj

open Lib Function

variable {q : Prop} {root e n m t sg sgNew newLabel thLabel sgLabel : Nat} {r r' : Nat → Nat}
  {k k' : Store} {env : Env}

theorem swapSg_wp {α : Type} {f : QuotaResv → Sys α} {Q : α → Store → Prop} {nb : Nat}
    {P : Store → Prop}
    (h : Inv q root 0 n r k) (ht : t ∈ k.ids) (htt : (k.obj t).koType = .thread)
    (hsg : (k.obj t).thSg = sg) (hsgm : sg ∈ k.ids) (hu : Unplaced .segment sgNew k)
    (hr : q → k.total t ≠ ctQuotaInf → k.total sgNew ≤ r t)
    (hf : ∀ qr k', qr.qrKo = t → (k.total t ≠ ctQuotaInf → qr.qrNbytes = nb - k.total sgNew) →
      Inv q root 0 n (update r t (r t - k.total sgNew)) k' → Frame k k' →
      (∀ z, k'.total z = k.total z) → Wp (f qr) k' Q (Fails P)) :
    Wp (do
      modifyObj t (setThSg sgNew)
      kobjectDecref sg t
      let qr ← kobjectIncrefResv sgNew ⟨t, nb⟩
      f qr) k Q (Fails P) := by
  have hsg0 : sg ≠ 0 := fun h0 ↦ h.shape.zero_notMem (h0 ▸ hsgm)
  have hn0 : sgNew ≠ 0 := fun h0 ↦ h.shape.zero_notMem (h0 ▸ hu.mem)
  have hmem : sg ∈ k.held t := by
    unfold Store.held Kobject.held
    rw [Kobject.typeHeld_thread htt, hsg, idRef_of_ne hsg0]
    simp
  have hne : t ≠ sg := fun he ↦ h.shape.not_self t ht (by rwa [← he] at hmem)
  have hnt : t ≠ sgNew := hu.ne htt (by decide)
  have hns : sgNew ≠ sg := fun he ↦
    h.shape.not_held_of_ref_zero hu.mem hu.ref_zero ht (by rwa [he])
  have hdec := kobjectDecref_wp (k := k.mapObj t (setThSg sgNew)) hsgm hne
  refine wp_modify (Wp.bind (hdec.mono (fun _ k2 ⟨href, hd⟩ ↦ ?_) fun _ _ he ↦ .inl he))
  have hids : k2.ids = k.ids := hd.ids
  refine Wp.bind ((kobjectIncrefResv_wp (hids ▸ ht) (hids ▸ hu.mem)).mono
    (fun qr k3 ⟨hk3, hko, htake⟩ ↦ ?_) fun _ _ he ↦ .inl he)
  subst hk3
  -- between the two segments lies the state in which the thread has none
  have hself : k2.obj t = Kobject.subUsed (k.total sg) (setThSg sgNew (k.obj t)) := by
    rw [hd.self, Store.mapObj_obj, if_pos rfl, total_mapObj (refsOnly_setThSg sgNew).total]
  have htarget : k2.obj sg = loseRef t (k.obj sg) := by
    rw [hd.target, Store.mapObj_obj, if_neg (Ne.symm hne)]
  have hother : ∀ z, z ≠ t → z ≠ sg → k2.obj z = k.obj z := fun z h1 h2 ↦ by
    rw [hd.other z h1 h2, Store.mapObj_obj, if_neg h1]
  have hunlink : Unlink t sg k (k2.mapObj t (setThSg 0)) := by
    refine unlink_of (refsOnly_setThSg 0) hne ?_ ?_ hd.ids hd.counter hd.encipher ?_ ?_ fun z h1 h2 ↦ ?_
    · rwa [Store.mapObj_obj, if_neg (Ne.symm hne)] at href
    · have hh := held_setThSg (k.obj t) htt 0
      rw [hsg, idRef_of_ne hsg0, Kobject.idRef, if_pos rfl, add_zero] at hh
      rw [← hh, Multiset.add_comm, Multiset.singleton_add]
    · rw [Store.mapObj_obj, if_pos rfl, hself]
      rfl
    · rw [Store.mapObj_obj, if_neg (Ne.symm hne), htarget]
    · rw [Store.mapObj_obj, if_neg h1, hother z h1 h2]
  have hlink : Link t sgNew (k2.mapObj t (setThSg 0)) (k2.mapObj sgNew (gainRef t)) := by
    refine link_of (refsOnly_setThSg sgNew) hnt ?_ rfl rfl rfl ?_ ?_ fun z h1 h2 ↦ ?_
    · have hh := held_setThSg ((k2.mapObj t (setThSg 0)).obj t) ((hunlink.type t).trans htt) sgNew
      have h0 : ((k2.mapObj t (setThSg 0)).obj t).thSg = 0 := by
        rw [Store.mapObj_obj, if_pos rfl]
        rfl
      rw [h0, idRef_of_ne hn0, Kobject.idRef, if_pos rfl, add_zero] at hh
      rw [hh, Multiset.add_comm, Multiset.singleton_add]
    · rw [Store.mapObj_obj, if_neg hnt, Store.mapObj_obj, if_pos rfl, hself]
      rfl
    · rw [Store.mapObj_obj, if_pos rfl, Store.mapObj_obj, if_neg (Ne.symm hnt)]
    · rw [Store.mapObj_obj, if_neg h2, Store.mapObj_obj, if_neg h1]
  have htot : ∀ z, k2.total z = k.total z := fun z ↦
    (total_mapObj (refsOnly_setThSg 0).total z).symm.trans (hunlink.total z)
  have hmid := h.unlink hunlink ht
  have hty : ∀ z, ((k2.mapObj t (setThSg 0)).obj z).koType = (k.obj z).koType := hunlink.type
  refine hf qr _ hko (fun hi ↦ ?_) (hmid.link hlink (hids ▸ ht) (hids ▸ hu.mem) ?_ ?_ ?_ ?_ ?_) ?_
    fun z ↦ (hlink.total z).trans (hunlink.total z)
  · obtain ⟨-, h1⟩ := htake (by rwa [htot])
    rw [h1, htot]
  · rw [hty, hty, htt, hu.type_eq]
    exact .inr rfl
  · rw [hty, hu.type_eq]
    exact fun hc ↦ absurd hc (by decide)
  · intro _
    have h1 := hunlink.ref sgNew
    rw [hu.ref_zero, if_neg hns] at h1
    exact .inr (.inl h1.symm)
  · intro hq hi
    rw [hunlink.total] at hi ⊢
    have := hr hq hi
    rw [update_self]
    omega
  · exact fun z hz ↦ update_of_ne hz _ _
  · exact ⟨hlink.ids.trans hunlink.ids, hlink.counter.trans hunlink.counter,
      hlink.encipher.trans hunlink.encipher, fun z ↦ (hlink.type z).trans (hunlink.type z),
      fun z ↦ (hlink.fixed z).trans (hunlink.fixed z)⟩

def reservedFor (r : Nat → Nat) (t sgNew newLabel : Nat) (k : Store) (z : Nat) : Nat :=
  r z + (if z = t then k.total sgNew + k.total newLabel else 0) +
    if z = sgNew then k.total newLabel else 0

theorem Inv.congr_resv (h : Inv q root e n r k) (hr : q → r = r') : Inv q root e n r' k :=
  ⟨h.shape, fun hq ↦ hr hq ▸ h.books hq⟩

theorem threadCommitLabel_wp {nt ns : Nat}
    (h : Inv q root 0 n (reservedFor r t sgNew newLabel k) k) (ht : t ∈ k.ids)
    (htt : (k.obj t).koType = .thread) (hsg : (k.obj t).thSg = sg) (hsgm : sg ∈ k.ids)
    (hu : Unplaced .segment sgNew k) (hnm : newLabel ∈ k.ids)
    (hnl : (k.obj newLabel).koType = .label)
    (hnt : q → k.total t ≠ ctQuotaInf → nt ≤ reservedFor r t sgNew newLabel k t)
    (hns : q → k.total sgNew ≠ ctQuotaInf → ns ≤ reservedFor r t sgNew newLabel k sgNew) :
    Wp (threadCommitLabel t sg sgNew thLabel sgLabel newLabel ⟨t, nt⟩ ⟨sgNew, ns⟩) k
      (fun _ k' ↦ Inv q root 0 n r k' ∧ Kept q k k') (Fails (Inv q root 0 n r)) := by
  have hne : t ≠ sgNew := hu.ne htt (by decide)
  have hrt : reservedFor r t sgNew newLabel k t = r t + (k.total sgNew + k.total newLabel) := by
    simp [reservedFor, hne]
  have hrs : reservedFor r t sgNew newLabel k sgNew = r sgNew + k.total newLabel := by
    simp [reservedFor, Ne.symm hne]
  unfold threadCommitLabel
  refine swapSg_wp h ht htt hsg hsgm hu (fun _ _ ↦ by omega) fun qr k1 hko hnb h1 hf1 ht1 ↦ ?_
  obtain ⟨ko, nb⟩ := qr
  obtain rfl : ko = t := hko
  have hid1 := hf1.ids
  refine Wp.bind ((kobjectSetLabelPrepared_wp h1 (hid1 ▸ ht) (hid1 ▸ hnm)
    ((hf1.type newLabel).trans hnl) (by rw [hf1.type, htt]; exact .inl rfl) ?_).mono
    (fun _ k2 ⟨h2, _, hrel⟩ ↦ ?_) fun _ _ he ↦ .inl he)
  · intro hq hi
    rw [ht1] at hi
    have h3 := hnt hq hi
    have h4 : nb = _ := hnb hi
    rw [update_self]
    omega
  have ht2 : ∀ z, k2.total z = k.total z := fun z ↦ (hrel.total z).trans (ht1 z)
  have hid2 : k2.ids = k.ids := hrel.ids.trans hf1.ids
  have hty2 : ∀ z, (k2.obj z).koType = (k.obj z).koType := fun z ↦ (hrel.type z).trans (hf1.type z)
  refine Wp.bind ((kobjectSetLabelPrepared_wp h2 (hid2 ▸ hu.mem) (hid2 ▸ hnm)
    ((hty2 newLabel).trans hnl) (by rw [hty2, hu.type_eq]; exact rfl) ?_).mono
    (fun _ k3 ⟨h3, _, hrel3⟩ ↦ Wp.pure ⟨h3.congr_resv fun _ ↦ ?_, ?_⟩) fun _ _ he ↦ .inl he)
  · intro hq hi
    rw [ht2] at hi
    rw [update_of_ne (Ne.symm hne), update_of_ne (Ne.symm hne)]
    exact hns hq hi
  · funext z
    rw [ht1, ht2]
    by_cases hzs : z = sgNew
    · subst hzs
      rw [update_self, update_of_ne (Ne.symm hne), update_of_ne (Ne.symm hne)]
      omega
    · rw [update_of_ne hzs]
      by_cases hzt : z = ko
      · subst hzt
        rw [update_self, update_self]
        omega
      · rw [update_of_ne hzt, update_of_ne hzt]
        simp [reservedFor, hzs, hzt]
  · exact (hf1.kept fun _ z _ _ ↦ ht1 z).trans ((hrel.kept fun _ z _ _ ↦ hrel.total z).trans
      (hrel3.kept fun _ z _ _ ↦ hrel3.total z))

theorem threadReserveLabel_wp (h : Inv q root 0 (m + n) r k) (ht : t ∈ k.ids)
    (htt : (k.obj t).koType = .thread) (hsg : (k.obj t).thSg = sg) (hsgm : sg ∈ k.ids)
    (hu : Unplaced .segment sgNew k) (hnm : newLabel ∈ k.ids)
    (hnl : (k.obj newLabel).koType = .label) (hr : r sgNew = 0)
    (hm : q → k.total sgNew + 4 * k.total newLabel ≤ m) :
    Wp (threadReserveLabel env t sg sgNew thLabel sgLabel newLabel) k
      (fun _ k' ↦ Inv q root 0 n r k' ∧ Kept q k k') (Fails (Inv q root 0 n r)) := by
  have hne : t ≠ sgNew := hu.ne htt (by decide)
  have hnn : newLabel ≠ sgNew := hu.ne hnl (by decide)
  have htl : (k.obj t).koType ≠ .label := by rw [htt]; decide
  have hsl : (k.obj sgNew).koType ≠ .label := by rw [hu.type_eq]; decide
  -- one part of the budget for each of the three reservations
  have h0 : Inv q root 0 (k.total newLabel + (k.total sgNew + k.total newLabel +
      (k.total newLabel + n))) r k :=
    ⟨h.shape, fun hq ↦ (h.mono (by have := hm hq; omega)).books hq⟩
  unfold threadReserveLabel
  refine Wp.bind ((kobjectQresReserve_wp 0 h0 hu.mem hnm (fun _ ↦ le_rfl)
    (fun _ ↦ hu.not_above h.shape hnn) (fun _ hl ↦ absurd hl hsl)
    fun _ _ ↦ hr.symm).mono (fun qrSg k1 hres1 ↦ ?_)
    fun _ _ he ↦ he.imp_right fun ⟨h1, _⟩ ↦ h1.inv.mono (by omega))
  obtain ⟨ko, ns⟩ := qrSg
  obtain rfl : ko = sgNew := hres1.ko
  have hs1 := hres1.sameRefs
  have hu1 := hu.of_sameRefs hs1
  have ht1 : t ∈ k1.ids := hs1.ids ▸ ht
  have htl1 : (k1.obj t).koType ≠ .label := (hs1.type t) ▸ htl
  have hnew1 : q → k1.total newLabel = k.total newLabel := fun hq ↦
    hres1.total_other hq _ (hu.not_above h.shape hnn)
  have habove : ¬ Above k1.up t ko :=
    hres1.inv.shape.not_above_of_held ht1 htl1 (Ne.symm hne) hu1.labels_only
  refine Wp.bind (wp_onError ((kobjectQresReserve_wp (r t) hres1.inv ht1 hu1.mem
    (fun hq ↦ hres1.total_self hq) (fun _ ↦ habove) (fun _ hl ↦ absurd hl htl1) fun _ _ ↦ ?_).mono
    (fun qrTh k2 hres2 ↦ ?_) fun _ k2 he ↦ he.imp_right fun ⟨hb, _⟩ ↦ ?_))
  · rw [update_of_ne hne, Nat.zero_add]
  swap
  · refine (kobjectQresRelease_wp (hb.inv.mono (Nat.le_add_left n _)) (fun hq hi ↦ ?_)
      fun _ z hz ↦ update_of_ne hz _ _).mono (fun _ _ h3 ↦ h3.1) fun _ _ he ↦ .inl he
    rw [hb.total_other hq _ habove] at hi
    have : ns + 0 = _ := hres1.nbytes hq hi
    rw [update_self]
    omega
  obtain ⟨ko', nt⟩ := qrTh
  obtain rfl : ko' = t := hres2.ko
  have hs2 := hs1.trans hres2.sameRefs
  have ht2 : ko' ∈ k2.ids := hs2.ids ▸ ht
  have htl2 : (k2.obj ko').koType ≠ .label := (hs2.type ko') ▸ htl
  have hnm2 : newLabel ∈ k2.ids := hs2.ids ▸ hnm
  have hnl2 : (k2.obj newLabel).koType = .label := (hs2.type newLabel).trans hnl
  have hlab : ∀ {k' : Store}, SameRefs k k' → Shape root k' → ¬ Above k'.up ko' newLabel :=
    fun hs hsh ↦ hsh.not_above_label (hs.ids ▸ ht) (hs.type ko' ▸ htl) (hs.ids ▸ hnm)
      ((hs.type newLabel).trans hnl)
  have hnew2 : q → k2.total newLabel = k.total newLabel := fun hq ↦
    (hres2.total_other hq _ (hlab hs1 hres1.inv.shape)).trans (hnew1 hq)
  have hsg2 : q → k2.total ko = k1.total ko := fun hq ↦ hres2.total_other hq _ habove
  have habove2 : ¬ Above k2.up ko' ko := by rwa [hres2.sameRefs.up]
  refine Wp.bind (wp_onError ((kobjectQresReserve_wp (r ko') hres2.inv ht2 hnm2
    (fun hq ↦ (hnew2 hq).le) (fun _ ↦ hlab hs2 hres2.inv.shape) (fun _ hl ↦ absurd hl htl2)
    fun hq hi ↦ ?_).mono (fun qrTh' k3 hres3 ↦ ?_) fun _ k3 he ↦ he.imp_right fun ⟨hb, hi⟩ ↦ ?_))
  · rw [update_self]
    exact hres2.nbytes hq hi
  swap
  · refine Wp.bind ((kobjectQresRelease_wp hb.inv (fun hq _ ↦ ?_)
      fun _ z hz ↦ update_of_ne hz _ _).mono (fun _ k4 ⟨h4, _, htot4⟩ ↦ ?_) fun _ _ he ↦ .inl he)
    · have : nt + r ko' = _ := hres2.nbytes hq hi
      rw [update_of_ne hne] at this
      rw [update_self, update_of_ne hne]
      omega
    · refine (kobjectQresRelease_wp h4 (fun hq hi ↦ ?_)
        fun _ z hz ↦ update_of_ne hz _ _).mono (fun _ _ h5 ↦ h5.1) fun _ _ he ↦ .inl he
      rw [htot4, hb.total_other hq _ habove2, hsg2 hq] at hi
      have : ns + 0 = _ := hres1.nbytes hq hi
      rw [update_self]
      omega
  obtain ⟨ko'', nt'⟩ := qrTh'
  obtain rfl : ko'' = ko' := hres3.ko
  have hs3 := hs2.trans hres3.sameRefs
  have hnew3 : q → k3.total newLabel = k.total newLabel := fun hq ↦
    (hres3.total_other hq _ (hlab hs2 hres2.inv.shape)).trans (hnew2 hq)
  have hsg3 : q → k3.total ko = k1.total ko := fun hq ↦
    (hres3.total_other hq _ habove2).trans (hsg2 hq)
  have hresv : q → update (update (update r ko (r ko + k.total newLabel)) ko''
      (update r ko (r ko + k.total newLabel) ko'' + k1.total ko)) ko''
      (update (update r ko (r ko + k.total newLabel)) ko''
      (update r ko (r ko + k.total newLabel) ko'' + k1.total ko) ko'' + k2.total newLabel) =
      reservedFor r ko'' ko newLabel k3 := by
    intro hq
    funext z
    unfold reservedFor
    rw [hnew3 hq, hsg3 hq, hnew2 hq]
    by_cases hzt : z = ko''
    · subst hzt
      simp only [update_self, update_of_ne hne, if_pos, if_neg hne]
      omega
    · rw [update_of_ne hzt, update_of_ne hzt, if_neg hzt]
      by_cases hzs : z = ko
      · subst hzs
        simp
      · simp [hzs]
  have hkept : Kept q k k3 := hs3.toFrame.kept fun hq z hz hzl ↦ by
    rw [hres3.total_other hq z ?_, hres2.total_other hq z ?_, hres1.total_other hq z ?_]
    · refine hu.not_above h.shape fun he ↦ hsl ?_
      rwa [← he]
    · exact hres1.inv.shape.not_above_label ht1 htl1 (hs1.ids ▸ hz) ((hs1.type z).trans hzl)
    · exact hres2.inv.shape.not_above_label ht2 htl2 (hs2.ids ▸ hz) ((hs2.type z).trans hzl)
  refine (threadCommitLabel_wp (hres3.inv.congr_resv hresv) (hs3.ids ▸ ht) ((hs3.type _).trans htt)
    ?_ (hs3.ids ▸ hsgm) (hu.of_sameRefs hs3) (hs3.ids ▸ hnm) ((hs3.type _).trans hnl)
    (fun hq hi ↦ ?_) fun hq hi ↦ ?_).imp fun _ _ h4 ↦ ⟨h4.1, hkept.trans h4.2⟩
  · rw [hres3.obj, hres2.obj, hres1.obj]
    exact hsg
  · rw [← hresv hq, update_self]
    have : nt' + r ko'' = _ := hres3.nbytes hq hi
    omega
  · rw [hsg3 hq] at hi
    have h1 : ns + 0 = _ := hres1.nbytes hq hi
    unfold reservedFor
    rw [if_neg (Ne.symm hne), if_pos rfl, hnew3 hq]
    omega

theorem kobjectGetLabel_eq {x l : Nat} {idx : KoLabel} (hk : Shape root k) (hx : x ∈ k.ids)
    (h : kobjectGetLabel env x idx k = .ok l) : l = (k.obj x).koLabel idx := by
  unfold kobjectGetLabel at h
  split at h
  next h0 =>
    cases h
    exact h0.symm
  next h0 =>
    obtain ⟨htr, -⟩ := kobjectGet_ok h
    rw [hk.translate (hk.held_mem x hx _ (mem_held_label h0))] at htr
    cases htr
    rfl

theorem kobjectGet_thSg {iflow : InfoFlowType} (hk : Shape root k) (ht : t ∈ k.ids)
    (htt : (k.obj t).koType = .thread)
    (h : kobjectGet env (k.obj t).thSg (some .segment) iflow k = .ok sg) :
    (k.obj t).thSg = sg ∧ sg ∈ k.ids := by
  obtain ⟨htr, hm, -⟩ := kobjectGet_ok h
  refine ⟨?_, hm⟩
  by_cases h0 : (k.obj t).thSg = 0
  · rw [h0] at htr ⊢
    cases htr
    rfl
  · have hmem : (k.obj t).thSg ∈ k.held t := by
      unfold Store.held Kobject.held
      rw [Kobject.typeHeld_thread htt, idRef_of_ne h0]
      simp
    rw [hk.translate (hk.held_mem t ht _ hmem)] at htr
    cases htr
    rfl

def changeLabelBytes (t newLabel : Nat) (k : Store) : Nat :=
  2 * (kobjDiskSize + k.total ((k.obj t).koLabel .tracking) +
    roundupPage (k.obj (k.obj t).thSg).koNbytes + pgsize) + 4 * k.total newLabel

theorem threadChangeLabel_wp (h : Inv q root 0 (m + n) r k) (hr : ∀ z, z ∉ k.ids → r z = 0)
    (ht : t ∈ k.ids) (htt : (k.obj t).koType = .thread) (hnm : newLabel ∈ k.ids)
    (hnl : (k.obj newLabel).koType = .label) (hm : q → changeLabelBytes t newLabel k ≤ m)
    (hfin : q → changeLabelBytes t newLabel k < ctQuotaInf) :
    Wp (threadChangeLabel env t newLabel) k (fun _ k' ↦ Inv q root 0 n r k' ∧ Kept q k k')
      (Fails (Inv q root 0 n r)) := by
  have hinv : Inv q root 0 n r k := h.mono (Nat.le_add_left n m)
  unfold threadChangeLabel
  refine wp_deref ht (wp_read (fun sg hsg ↦ ?_) fun _ _ ↦ .inr hinv)
  refine wp_read (fun thLabel hth ↦ ?_) fun _ _ ↦ .inr hinv
  refine wp_read (fun sgLabel _ ↦ ?_) fun _ _ ↦ .inr hinv
  obtain ⟨hsg, hsgm⟩ := kobjectGet_thSg h.shape ht htt hsg
  have hthl := kobjectGetLabel_eq h.shape ht hth
  have hbytes : changeLabelBytes t newLabel k = 2 * (kobjDiskSize + k.total thLabel +
      roundupPage (k.obj sg).koNbytes + pgsize) + 4 * k.total newLabel := by
    unfold changeLabelBytes
    rw [← hthl, hsg]
  have h0 : Inv q root 0 ((kobjDiskSize + k.total thLabel + roundupPage (k.obj sg).koNbytes) +
      (pgsize + (kobjDiskSize + k.total thLabel + roundupPage (k.obj sg).koNbytes + pgsize +
        4 * k.total newLabel + n))) r k :=
    ⟨h.shape, fun hq ↦ (h.mono (by have := hm hq; omega)).books hq⟩
  refine Wp.bind ((segmentCopy_wp h0 hr hsgm (kobjectGetLabel_ok hth).resolve_left
    (fun _ ↦ le_rfl) fun hq ↦ ?_).mono (fun sgNew k1 hc ↦ ?_)
    fun _ _ he ↦ he.imp_right fun he ↦ he.mono (by omega))
  · have := hfin hq
    omega
  refine Wp.bind ((segmentSetNbytes_wp hc fun _ ↦ by decide).mono (fun _ k2 ⟨hc2, _⟩ ↦ ?_)
    fun _ _ he ↦ he.imp_right fun he ↦ he.mono (by omega))
  obtain ⟨_, _, _, _, ht2⟩ := hc2.old t ht
  obtain ⟨_, _, _, _, hn2⟩ := hc2.old newLabel hnm
  refine (threadReserveLabel_wp hc2.inv (hc2.mem t ht) (by rw [ht2]; exact htt)
    (by rw [ht2]; exact hsg) (hc2.mem sg hsgm) hc2.unplaced (hc2.mem _ hnm)
    (by rw [hn2]; exact hnl) (hr _ hc2.notMem) fun hq ↦ ?_).imp
    fun _ _ h3 ↦ ⟨h3.1, hc2.kept.trans h3.2⟩
  have h1 := hc2.total_new hq
  have h2 := hc2.total_old hq newLabel hnm
  have h3 : roundupPage utlsDefsize = pgsize := by decide
  omega

end HiStar.Kobj
