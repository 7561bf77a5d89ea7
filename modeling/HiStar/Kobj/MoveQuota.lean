import HiStar.Kobj.ThreadLabel

namespace HiStar.Kobj

open Lib Function

variable {q : Prop} {root n p x t parentId childId : Nat} {r : Nat → Nat} {k k' : Store} {env : Env}
  {nbytes : Int}

theorem Charged.retotal {f : Kobject → Kobject} (h : Charged root r k) (hx : x ∈ k.ids)
    (hpx : p ≠ x) (hcount : ∀ z ∈ k.ids, z ≠ p → x ∈ k.held z → t = k.total x)
    (hone : k.total p ≠ ctQuotaInf → t = k.total x ∨ (k.held p).count x = 1)
    (hf : ∀ o, f o = { o with koQuotaUsed := (f o).koQuotaUsed }) (hlt : t < 2 ^ 64)
    (hroot : x = root → t = ctQuotaInf)
    (hp : k.total p ≠ ctQuotaInf → (f (k.obj p)).koQuotaUsed + k.total x =
      (k.obj p).koQuotaUsed + t ∧ (f (k.obj p)).koQuotaUsed ≤ k.total p)
    (hxt : t ≠ ctQuotaInf → k.total x ≠ ctQuotaInf ∧ (k.obj x).koQuotaUsed ≤ t) :
    Charged root r ((k.mapObj p f).mapObj x fun o ↦ { o with koQuotaTotal := t }) := by
  set k' := (k.mapObj p f).mapObj x fun o ↦ { o with koQuotaTotal := t } with hk'
  have hqo : QuotaOnly k k' :=
    (QuotaOnly.mapObj fun o ↦ by rw [hf o]).trans (.mapObj fun _ ↦ rfl)
  have htx : k'.total x = t := by simp [hk', Store.total, Store.mapObj_obj]
  have hto : ∀ z, z ≠ x → k'.total z = k.total z := by
    intro z hz
    simp only [hk', Store.total, Store.mapObj_obj, if_neg hz]
    split
    · rw [hf]
    · rfl
  have huo : ∀ z, z ≠ p → (k'.obj z).koQuotaUsed = (k.obj z).koQuotaUsed := by
    intro z hz
    simp only [hk', Store.mapObj_obj, if_neg hz]
    split <;> rfl
  have hup : (k'.obj p).koQuotaUsed = (f (k.obj p)).koQuotaUsed := by
    simp [hk', Store.mapObj_obj, hpx]
  have hload : ∀ z, load k'.total (k'.held z) + (k.held z).count x * k.total x =
      load k.total (k.held z) + (k.held z).count x * t := by
    intro z
    rw [hqo.sameRefs.held, ← htx]
    exact load_reweight hto
  have hfin : ∀ z, k'.total z ≠ ctQuotaInf → k.total z ≠ ctQuotaInf := by
    intro z hz
    by_cases hzx : z = x
    · subst hzx
      rw [htx] at hz
      exact (hxt hz).1
    · rwa [hto z hzx] at hz
  refine ⟨fun hm ↦ ?_, fun z hz ↦ ?_, fun z hz ↦ ?_, fun z hz hi ↦ ?_, fun z hz hi ↦ ?_⟩ <;>
    rw [hqo.ids] at *
  · by_cases hxr : x = root
    · rw [← hxr, htx, hroot hxr]
    · rw [hto root (Ne.symm hxr)]
      exact h.root_inf hm
  · by_cases hzx : z = x
    · rw [hzx, htx]
      exact hlt
    · rw [hto z hzx]
      exact h.total_lt z hz
  · rw [hqo.base]
    exact h.size z hz
  · have hbal := h.balance z hz (hfin z hi)
    have hl := hload z
    rw [hqo.base]
    by_cases hzp : z = p
    · subst hzp
      obtain ⟨h1, -⟩ := hp (hfin z hi)
      rw [hup]
      rcases hone (hfin z hi) with htt | hc
      · rw [htt] at hl h1
        omega
      · rw [hc, Nat.one_mul, Nat.one_mul] at hl
        omega
    · rw [huo z hzp]
      by_cases hxz : x ∈ k.held z
      · rw [hcount z hz hzp hxz] at hl
        omega
      · rw [Multiset.count_eq_zero.mpr hxz, Nat.zero_mul, Nat.zero_mul] at hl
        omega
  · by_cases hzp : z = p
    · subst hzp
      rw [hup, hto z hpx]
      exact (hp (hfin z hi)).2
    · rw [huo z hzp]
      by_cases hzx : z = x
      · subst hzx
        rw [htx] at hi ⊢
        exact (hxt hi).2
      · rw [hto z hzx] at hi ⊢
        exact h.within z hz hi

theorem cobjGet_held (hk : Shape root k) (hp : containerFind env parentId .rw k = .ok p)
    (hx : cobjGet env parentId childId none .rw k = .ok x) (hne : x ≠ p) : x ∈ k.held p := by
  obtain ⟨htp, hpm, hpt⟩ := containerFind_ok hp
  obtain ⟨htx, hxm, -⟩ := cobjGet_ok hx
  have hp0 : parentId ≠ 0 := by
    rintro rfl
    cases htp
    exact hk.zero_notMem hpm
  unfold cobjGet at hx
  rw [if_neg fun hg ↦ hp0 hg.1] at hx
  unfold containedGet at hx
  split at hx
  · split at hx <;> cases hx
  next c hc =>
    obtain ⟨htc, -⟩ := containerFind_ok hc
    rw [htp] at htc
    cases htc
    split at hx
    next hor =>
      rcases hor with rfl | hlast
      · rw [hk.translate hpm] at htx
        cases htx
        exact absurd rfl hne
      · rw [hx] at hlast
        have hpar : (k.obj x).koParent = parentId := by simpa [lastHolder] using hlast
        obtain ⟨hm, hh⟩ := hk.parent_holds x hxm (hpar ▸ hp0)
        rw [hpar] at hm hh
        rw [hk.translate hm] at htp
        cases htp
        exact hh
    next =>
      obtain ⟨i, hi, -⟩ := except_bind_ok hx
      obtain ⟨-, hid, hr⟩ := containerSlotRead_ok hi
      have hh : childId ∈ k.held p := hid ▸ mem_held_slot hpt hr
      rw [hk.translate (hk.held_mem p hpm _ hh)] at htx
      cases htx
      exact hh

/-- What `sys_container_move_quota` takes for granted: the child is another object
than the parent and not a label, the quota it returns is its own, and a parent
that gives quota has either no limit or one below `CT_QUOTA_INF`. -/
def QuotaMovable (parentId childId : Nat) (nbytes : Int) (k : Store) : Prop :=
  ∀ p x, kobjectTranslateId parentId k = .ok p → kobjectTranslateId childId k = .ok x →
    x ≠ p ∧ (k.obj x).koType ≠ .label ∧ (0 < nbytes → k.total p ≤ ctQuotaInf) ∧
      (nbytes < 0 → nbytes.natAbs ≤ k.total x)

theorem newChildTotal_ok (h : Charged root r k) (hp : p ∈ k.ids) (hx : x ∈ k.ids)
    (hh : x ∈ k.held p) (hn : nbytes ≠ 0) (hpos : 0 < nbytes → k.total p ≤ ctQuotaInf)
    (hneg : nbytes < 0 → nbytes.natAbs ≤ k.total x)
    (ht : newChildTotal (k.obj p) (k.obj x) nbytes = .ok t) :
    t < 2 ^ 64 ∧ (k.total x = ctQuotaInf → t = ctQuotaInf) ∧
      (t ≠ ctQuotaInf → (k.obj x).koQuotaUsed ≤ t) ∧
      (k.total p ≠ ctQuotaInf → (moveUsed nbytes (k.obj p)).koQuotaUsed + k.total x =
        (k.obj p).koQuotaUsed + t ∧ (moveUsed nbytes (k.obj p)).koQuotaUsed ≤ k.total p) := by
  have hxlt := h.total_lt x hx
  have hpin : k.total p ≠ ctQuotaInf → k.total x ≤ (k.obj p).koQuotaUsed ∧
      (k.obj p).koQuotaUsed ≤ k.total p := fun hi ↦ by
    have h1 : k.total x ≤ load k.total (k.held p) := le_load hh
    rw [h.balance p hp hi]
    exact ⟨by omega, h.balance p hp hi ▸ h.within p hp hi⟩
  have hplt := h.total_lt p hp
  unfold newChildTotal at ht
  by_cases h0 : 0 < nbytes
  · have hpos := hpos h0
    have hmu : moveUsed nbytes = Kobject.addUsed nbytes.natAbs := if_pos h0
    rw [if_pos h0] at ht
    split at ht
    · cases ht
    next hav =>
    have hroom : k.total p ≠ ctQuotaInf →
        (k.obj p).koQuotaUsed + nbytes.natAbs ≤ k.total p := by
      intro hi
      have h1 : ¬ quotaAvail (k.obj p) < nbytes.natAbs := fun hlt ↦ hav ⟨hi, hlt⟩
      rw [h.avail hp hi] at h1
      have := hpin hi
      omega
    have hused : k.total p ≠ ctQuotaInf →
        (moveUsed nbytes (k.obj p)).koQuotaUsed = (k.obj p).koQuotaUsed + nbytes.natAbs := by
      intro hi
      rw [hmu]
      exact add64_eq (by have := hroom hi; omega)
    split at ht
    next hbig =>
      cases ht
      refine ⟨by decide, fun _ ↦ rfl, fun hi ↦ absurd rfl hi, fun hi ↦ ?_⟩
      have h1 := hroom hi
      have h2 := hpin hi
      rcases hbig with hbig | hbig
      · have hbig : ctQuotaInf ≤ k.total x := hbig
        omega
      · omega
    next hsmall =>
      cases ht
      obtain ⟨hs1, hs2⟩ := not_or.mp hsmall
      have hs1 : ¬ ctQuotaInf ≤ k.total x := hs1
      have hmin : ∀ a : Nat, min a (ctQuotaInf - 1) < ctQuotaInf := fun a ↦
        (Nat.min_le_right _ _).trans_lt (by decide)
      refine ⟨(hmin _).trans (by decide), fun hi ↦ absurd hi (by omega), fun _ ↦ ?_, fun hi ↦ ?_⟩
      · have hw := h.within x hx (by omega)
        refine Nat.le_min.mpr ⟨?_, by omega⟩
        exact hw.trans (Nat.le_add_right (k.total x) _)
      · have h1 := hroom hi
        have h2 := hpin hi
        rw [hused hi, show (k.obj x).koQuotaTotal = k.total x from rfl, Nat.min_eq_left (by omega)]
        omega
  · have hneg := hneg (by omega)
    have hmu : moveUsed nbytes = Kobject.subUsed nbytes.natAbs := if_neg h0
    rw [if_neg h0] at ht
    split at ht
    · cases ht
    next hi =>
    split at ht
    · cases ht
    next hle =>
    cases ht
    have hsub : sub64 (k.obj x).koQuotaTotal nbytes.natAbs = k.total x - nbytes.natAbs :=
      sub64_eq hxlt hneg
    rw [hsub] at hle ⊢
    refine ⟨by omega, fun hc ↦ absurd hc hi, fun _ ↦ by omega, fun hpi ↦ ?_⟩
    have h1 := hpin hpi
    have hused : (moveUsed nbytes (k.obj p)).koQuotaUsed =
        (k.obj p).koQuotaUsed - nbytes.natAbs := by
      rw [hmu]
      exact sub64_eq (by omega) (by omega)
    omega

theorem sysContainerMoveQuota_wp (h : Inv q root 0 n r k)
    (hmove : q → QuotaMovable parentId childId nbytes k) :
    Wp (sysContainerMoveQuota env parentId childId nbytes) k (fun _ ↦ Inv q root 0 0 r)
      (Fails (Inv q root 0 0 r)) := by
  have hinv : Inv q root 0 0 r k := h.mono (Nat.zero_le n)
  refine Wp.when (fun hb ↦ ?_) fun _ ↦ hinv
  have hn : nbytes ≠ 0 := of_decide_eq_true hb
  refine wp_read (fun p hp ↦ ?_) fun _ _ ↦ .inr hinv
  refine wp_read (fun x hx ↦ ?_) fun _ _ ↦ .inr hinv
  obtain ⟨htp, hpm, -⟩ := containerFind_ok hp
  obtain ⟨htx, hxm, hr, -⟩ := cobjGet_ok hx
  refine wp_deref hpm (wp_deref hxm (wp_require (fun hff ↦ ?_) fun _ ↦ .inr hinv))
  have hff : (k.obj x).koFixedQuota = false := by simpa using hff
  refine wp_lift (fun t ht ↦ wp_modify (Wp.modify ?_)) fun _ ↦ .inr hinv
  have hmu : ∀ o, moveUsed nbytes o = { o with koQuotaUsed := (moveUsed nbytes o).koQuotaUsed } := by
    intro o
    unfold moveUsed
    split <;> rfl
  have hqo : QuotaOnly k ((k.mapObj p (moveUsed nbytes)).mapObj x
      fun o ↦ { o with koQuotaTotal := t }) :=
    (QuotaOnly.mapObj fun o ↦ by rw [hmu o]).trans (.mapObj fun _ ↦ rfl)
  have hcharged : q → Charged root r ((k.mapObj p (moveUsed nbytes)).mapObj x
      fun o ↦ { o with koQuotaTotal := t }) := by
    intro hq
    obtain ⟨hne, hnl, hpos, hneg⟩ := hmove hq p x htp htx
    have hb := h.books hq
    have hh := cobjGet_held h.shape hp hx hne
    obtain ⟨hlt, hinf, hle, hpar⟩ := newChildTotal_ok hb.charged hpm hxm hh hn hpos hneg ht
    -- the child has one holder, unless it is the root parent, whose quota stays unlimited
    have hone : t = k.total x ∨ ∀ z ∈ k.ids, (k.held z).count x = if z = p then 1 else 0 := by
      by_cases hxr : x = root
      · have hi : k.total x = ctQuotaInf := hxr ▸ hb.charged.root_inf (hxr ▸ hxm)
        exact .inl ((hinf hi).trans hi.symm)
      · have hx0 : x ≠ 0 := fun h0 ↦ h.shape.zero_notMem (h0 ▸ hxm)
        have href := h.shape.ref_eq x hxm
        rw [(hb.single x hxm hxr hx0 hff hnl hr).1, if_neg hxr, Nat.add_zero] at href
        exact .inr fun z hz ↦ count_of_refCount_one href.symm hpm hh hz
    refine hb.charged.retotal hxm (Ne.symm hne) (fun z hz hzp hzx ↦ ?_) (fun hi ↦ ?_) hmu hlt
      (fun he ↦ hinf (he ▸ hb.charged.root_inf (he ▸ hxm))) hpar
      fun hti ↦ ⟨fun hi ↦ hti (hinf hi), hle hti⟩
    · refine hone.resolve_right fun h1 ↦ ?_
      have := h1 z hz
      rw [if_neg hzp, Multiset.count_eq_zero] at this
      exact this hzx
    · exact hone.imp_right fun h1 ↦ by rw [h1 p hpm, if_pos rfl]
  exact hinv.of_quotaOnly hqo hcharged
    fun hq ↦ ⟨by decide, fun z hz _ ↦ (hcharged hq).total_lt z hz⟩

end HiStar.Kobj
