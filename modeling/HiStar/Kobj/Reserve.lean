import HiStar.Kobj.Relink

namespace HiStar.Kobj

open Lib Function

variable {q : Prop} {root e n m x y : Nat} {r : Nat → Nat} {k k' : Store} {env : Env}

/-- How a call fails: it never returns, or it leaves a state in `P`. -/
def Fails (P : Store → Prop) (e : Errno) (k : Store) : Prop := Stopped e ∨ P k

theorem wp_deref {α : Type} {f : Kobject → Sys α} {Q : α → Store → Prop}
    {E : Errno → Store → Prop} (hx : x ∈ k.ids) (h : Wp (f (k.obj x)) k Q E) :
    Wp (deref x >>= f) k Q E := by
  unfold Wp at h ⊢
  rwa [deref_bind hx]

theorem wp_onError {α : Type} {c : Sys α} {f : Sys Unit} {Q : α → Store → Prop}
    {P : Store → Prop}
    (h : Wp c k Q fun e t ↦ Stopped e ∨ Wp f t (fun _ ↦ P) (Fails P)) :
    Wp (onError c f) k Q (Fails P) := by
  unfold Wp at h ⊢
  unfold onError
  rcases hc : c k with ⟨e | a, t⟩ <;> rw [hc] at h
  · by_cases hs : Stopped e
    · simp only [hs, if_true]
      exact .inl hs
    · simp only [hs, if_false]
      have hf : Wp f t (fun _ ↦ P) (Fails P) := h.resolve_left hs
      exact Wp.bind (hf.mono (fun _ _ hp ↦ .inr hp) fun _ _ he ↦ he)
  · exact h

theorem Inv.of_quotaOnly (h : Inv q root e n r k) (hqo : QuotaOnly k k')
    (hc : q → Charged root r k') (hr : q → Room n k') : Inv q root e n r k' :=
  ⟨h.shape.of_sameRefs hqo.sameRefs, fun hq ↦
    ⟨(h.books hq).single.of_sameRefs hqo.sameRefs, hc hq, hr hq⟩⟩

theorem total_mapObj {f : Kobject → Kobject} (hf : ∀ o, (f o).koQuotaTotal = o.koQuotaTotal)
    (z : Nat) : (k.mapObj x f).total z = k.total z := by
  unfold Store.total
  rw [k.mapObj_obj]
  split
  · exact hf _
  · rfl

theorem Charged.reserve (h : Charged root r k)
    (hm : k.total x ≠ ctQuotaInf → (k.obj x).koQuotaUsed + m ≤ k.total x) :
    Charged root (update r x (r x + m)) (k.mapObj x (Kobject.addUsed m)) := by
  have hused : ∀ z ∈ k.ids, k.total z ≠ ctQuotaInf →
      ((k.mapObj x (Kobject.addUsed m)).obj z).koQuotaUsed =
        (k.obj z).koQuotaUsed + if z = x then m else 0 := by
    intro z hz hi
    rw [k.mapObj_obj]
    by_cases hzx : z = x
    · subst hzx
      have := hm hi
      have := h.total_lt z hz
      rw [if_pos rfl, if_pos rfl]
      exact add64_eq (by omega)
    · rw [if_neg hzx, if_neg hzx]
      rfl
  have hqo : QuotaOnly k (k.mapObj x (Kobject.addUsed m)) := .mapObj fun _ ↦ rfl
  refine h.congr rfl hqo.sameRefs.held (total_mapObj fun _ ↦ rfl) (fun z hz hi ↦ ?_)
    (fun z hz hi ↦ ?_) fun z hz ↦ (hqo.base z).trans_le (h.size z hz)
  · rw [hused z hz hi, hqo.base, update_apply]
    split
    next h => rw [h]; omega
    next => omega
  · rw [hused z hz hi]
    have := h.within z hz hi
    split
    next h => rw [h] at hi ⊢; exact hm hi
    next => omega

theorem Charged.release (h : Charged root r k) {m : Nat} {r' : Nat → Nat}
    (hm : x ∈ k.ids → k.total x ≠ ctQuotaInf → r x = r' x + m) (hr : ∀ z, z ≠ x → r z = r' z) :
    Charged root r' (k.mapObj x (Kobject.subUsed m)) := by
  have hused : ∀ z ∈ k.ids, k.total z ≠ ctQuotaInf →
      ((k.mapObj x (Kobject.subUsed m)).obj z).koQuotaUsed + r z =
        (k.obj z).koQuotaUsed + r' z := by
    intro z hz hi
    rw [k.mapObj_obj]
    by_cases hzx : z = x
    · subst hzx
      have h1 := hm hz hi
      have h2 := h.balance z hz hi
      have h3 := (h.within z hz hi).trans_lt (h.total_lt z hz)
      have h4 : (Kobject.subUsed m (k.obj z)).koQuotaUsed = (k.obj z).koQuotaUsed - m :=
        sub64_eq h3 (by omega)
      rw [if_pos rfl, h4]
      omega
    · rw [if_neg hzx, hr z hzx]
  have hqo : QuotaOnly k (k.mapObj x (Kobject.subUsed m)) := .mapObj fun _ ↦ rfl
  refine h.congr rfl hqo.sameRefs.held (total_mapObj fun _ ↦ rfl) (fun z hz hi ↦ ?_)
    (fun z hz hi ↦ ?_) fun z hz ↦ (hqo.base z).trans_le (h.size z hz)
  · have := hused z hz hi
    rw [hqo.base]
    omega
  · have h1 := hused z hz hi
    have h2 := h.within z hz hi
    by_cases hzx : z = x
    · have := hm (hzx ▸ hz) (hzx ▸ hi)
      rw [hzx] at h1 h2 ⊢
      omega
    · have := hr z hzx
      omega

/-- `x` has reserved the quota of `y`, besides the `s` bytes that belong to other
reservations. -/
structure Reserved (q : Prop) (root n : Nat) (r : Nat → Nat) (nb s x y : Nat) (k : Store)
    (qr : QuotaResv) (k' : Store) : Prop extends QuotaOnly k k' where
  ko : qr.qrKo = x
  inv : Inv q root 0 n (update r x (r x + k.total y)) k'
  nbytes : q → k'.total x ≠ ctQuotaInf → qr.qrNbytes + s = r x + k.total y
  finite : q → k'.total x ≠ ctQuotaInf → k.total x ≠ ctQuotaInf
  total_other : q → ∀ z, ¬ Above k.up x z → k'.total z = k.total z
  total_self : q → k'.total x ≤ k.total x + k.total y
  bound : qr.qrNbytes ≤ nb + k'.total y

theorem reserved_of {k1 : Store} {nb s : Nat} (hqo : QuotaOnly k k1) (h : Inv q root 0 n r k1)
    (hto : q → ∀ z, ¬ Above k.up x z → k1.total z = k.total z)
    (hts : q → k1.total x ≤ k.total x + k.total y) (hx : x ∈ k.ids)
    (hy : q → ¬ Above k.up x y) (hxi : k.total x ≠ ctQuotaInf)
    (hr : q → k.total x ≠ ctQuotaInf → nb + s = r x)
    (hroom : q → k1.total x ≠ ctQuotaInf → (k1.obj x).koQuotaUsed + k1.total y ≤ k1.total x) :
    Reserved q root n r nb s x y k ⟨x, add64 nb (k1.total y)⟩
      (k1.mapObj x (Kobject.addUsed (k1.total y))) := by
  have hx1 : x ∈ k1.ids := by rwa [hqo.ids]
  have htot : ∀ z, (k1.mapObj x (Kobject.addUsed (k1.total y))).total z = k1.total z :=
    total_mapObj fun _ ↦ rfl
  have hqo' : QuotaOnly k1 (k1.mapObj x (Kobject.addUsed (k1.total y))) := .mapObj fun _ ↦ rfl
  have hyt : q → k1.total y = k.total y := fun hq ↦ hto hq y (hy hq)
  refine ⟨hqo.trans hqo', rfl, ⟨?_, fun hq ↦ ?_⟩, fun hq hi ↦ ?_, fun _ _ ↦ hxi,
    fun hq z hz ↦ ?_, fun hq ↦ ?_, ?_⟩
  · exact h.shape.of_sameRefs hqo'.sameRefs
  · rw [← hyt hq]
    exact ⟨(h.books hq).single.of_sameRefs hqo'.sameRefs, (h.books hq).charged.reserve (hroom hq),
      (h.books hq).room.of_total rfl htot⟩
  · rw [htot] at hi
    have h1 := (h.books hq).charged.balance x hx1 hi
    have h2 := hroom hq hi
    have h3 := (h.books hq).charged.total_lt x hx1
    simp only
    have h4 := hr hq hxi
    rw [add64_eq (by omega), hyt hq]
    omega
  · rw [htot, hto hq z hz]
  · rw [htot]
    exact hts hq
  · rw [htot]
    exact Nat.mod_le _ _

theorem kobjectQresReserve_wp {nb : Nat} (s : Nat) (h : Inv q root 0 (m + n) r k)
    (hx : x ∈ k.ids) (hy : y ∈ k.ids) (hm : q → k.total y ≤ m) (hxy : q → ¬ Above k.up x y)
    (hl : q → (k.obj x).koType = .label → (k.obj x).koRef = 0)
    (hr : q → k.total x ≠ ctQuotaInf → nb + s = r x) :
    Wp (kobjectQresReserve env ⟨x, nb⟩ y) k (Reserved q root n r nb s x y k)
      (Fails fun k' ↦ Borrowed q root n r x k k' ∧ k.total x ≠ ctQuotaInf) := by
  unfold kobjectQresReserve
  refine wp_deref hx ?_
  by_cases hi : k.total x = ctQuotaInf
  · -- the quota of `x` is not counted, so nothing is set aside
    rw [if_neg (show ¬ (k.obj x).koQuotaTotal ≠ ctQuotaInf from not_not.mpr hi)]
    refine Wp.pure ⟨.refl k, rfl, ⟨h.shape, fun hq ↦ ?_⟩, fun _ hc ↦ absurd hi hc,
      fun _ hc ↦ absurd hi hc, fun _ _ _ ↦ rfl, fun _ ↦ Nat.le_add_right _ _,
      Nat.le_add_right _ _⟩
    have hb := (h.mono (by omega : n ≤ m + n)).books hq
    refine ⟨hb.single, ⟨hb.charged.root_inf, hb.charged.total_lt, hb.charged.size,
      fun z hz hzi ↦ ?_, hb.charged.within⟩, hb.room⟩
    have hzx : z ≠ x := fun he ↦ hzi (he ▸ hi)
    rw [update_of_ne hzx]
    exact hb.charged.balance z hz hzi
  rw [if_pos (show (k.obj x).koQuotaTotal ≠ ctQuotaInf from hi)]
  refine wp_deref hy (Wp.bind (Wp.when (fun hb ↦ ?_) fun hb ↦ ?_))
  · have hb : quotaAvail (k.obj x) < k.total y := of_decide_eq_true hb
    have hav : q → quotaAvail (k.obj x) = k.total x - (k.obj x).koQuotaUsed :=
      fun hq ↦ (h.books hq).charged.avail hx hi
    have hneed : q → sub64 (k.total y) (quotaAvail (k.obj x)) = k.total y - quotaAvail (k.obj x) :=
      fun hq ↦ sub64_eq ((h.books hq).charged.total_lt y hy) hb.le
    have hinv : Inv q root 0 (sub64 (k.total y) (quotaAvail (k.obj x)) + n) r k := by
      refine ⟨h.shape, fun hq ↦ ((h.mono ?_).books hq)⟩
      rw [hneed hq]
      have := hm hq
      omega
    refine Wp.mapErr ((kobjectBorrowParentQuota_wp hinv hx (fun _ ↦ hi) hl).mono
      (fun _ k1 hL ↦ ?_) fun e k1 hE ↦ .inr ⟨hE, hi⟩)
    refine wp_deref (by rwa [hL.ids]) (wp_modify (Wp.pure ?_))
    refine reserved_of hL.toQuotaOnly hL.inv hL.total_other (fun hq ↦ ?_) hx hxy hi hr
      fun hq _ ↦ ?_
    · have h1 := hL.total_self hq
      have h2 := hneed hq
      omega
    have h1 := hL.total_self hq
    have h2 := hL.used_self hq
    have h3 := hL.total_other hq y (hxy hq)
    have h4 := (h.books hq).charged.within x hx hi
    have h5 := hneed hq
    have h6 := hav hq
    omega
  · have hb : k.total y ≤ quotaAvail (k.obj x) := Nat.le_of_not_lt (of_decide_eq_false hb)
    refine wp_deref hy (wp_modify (Wp.pure ?_))
    refine reserved_of (.refl k) (h.mono (Nat.le_add_left n m)) (fun _ _ _ ↦ rfl)
      (fun _ ↦ Nat.le_add_right _ _) hx hxy hi hr fun hq _ ↦ ?_
    rw [(h.books hq).charged.avail hx hi] at hb
    have := (h.books hq).charged.within x hx hi
    omega

end HiStar.Kobj
