import HiStar.Kobj.BorrowRounds

namespace HiStar.Kobj

open Lib Function

variable {x n : Nat} {env : Env} {k k' : Store}

/-- A chain of parents with quotas that leave room for a loan. An object that is
referred to has a parent, or else is never asked for one. -/
structure QuotaChain (k : Store) (x : Nat) : Prop extends ParentChain k x where
  has_parent : ∀ z, Above k.up x z → (k.obj z).koRef ≠ 0 → (k.obj z).koParent = 0 →
    k.total z = ctQuotaInf ∨ (k.obj z).koFixedQuota = true
  total_lt : ∀ z, Above k.up x z → k.total z < ctQuotaInf / 2 ∨ k.total z = ctQuotaInf
  used_lt : ∀ z, Above k.up x z → (k.obj z).koQuotaUsed < ctQuotaInf / 2
  within : ∀ z, Above k.up x z → (k.obj z).koQuotaUsed ≤ k.total z

theorem QuotaChain.up (h : QuotaChain k x) (hp : (k.obj x).koParent ≠ 0) :
    QuotaChain k (k.obj x).koParent :=
  have hup : k.up x = some (k.obj x).koParent := Store.up_eq_some.mpr ⟨hp, rfl⟩
  ⟨h.toParentChain.up hp, fun z hz ↦ h.has_parent z (hz.head hup),
    fun z hz ↦ h.total_lt z (hz.head hup), fun z hz ↦ h.used_lt z (hz.head hup),
    fun z hz ↦ h.within z (hz.head hup)⟩

/-- Quota has moved to `x` and to what is above it: each object of the chain has
passed on what its child was given. -/
structure Served (x : Nat) (k k' : Store) : Prop extends QuotaOnly k k' where
  used_self : (k'.obj x).koQuotaUsed = (k.obj x).koQuotaUsed
  other : ∀ z, ¬ Above k.up x z → k'.obj z = k.obj z
  passed_on : ∀ z, Above k.up x z → (k.obj z).koRef ≠ 0 → (k.obj z).koParent ≠ 0 →
    (k'.obj (k.obj z).koParent).koQuotaUsed + k.total z =
      (k.obj (k.obj z).koParent).koQuotaUsed + k'.total z
  within : ∀ z, Above k.up x z → (k'.obj z).koQuotaUsed ≤ k'.total z

structure Transferred (x n : Nat) (k k' : Store) : Prop extends Served x k k' where
  total_self : k'.total x = k.total x + n

theorem QuotaChain.served (h : QuotaChain k x) : Served x k k :=
  ⟨.refl k, rfl, fun _ _ ↦ rfl, fun _ _ _ _ ↦ rfl, h.within⟩

theorem QuotaChain.finite_lt (h : QuotaChain k x) {z : Nat} (hz : Above k.up x z)
    (hi : k.total z ≠ ctQuotaInf) : k.total z < ctQuotaInf / 2 := (h.total_lt z hz).resolve_right hi

theorem QuotaChain.avail (h : QuotaChain k x) {z : Nat} (hz : Above k.up x z)
    (hi : k.total z ≠ ctQuotaInf) : quotaAvail (k.obj z) = k.total z - (k.obj z).koQuotaUsed := by
  refine sub64_eq ?_ (h.within z hz)
  have hlt := h.finite_lt hz hi
  have hsmall : ctQuotaInf / 2 < 2 ^ 64 := by decide
  unfold Store.total at hlt
  omega

theorem Served.transfer {p : Nat} {k1 : Store} (hs : Served p k k1) (h : QuotaChain k x)
    (hpx : (k.obj x).koParent = p) (hp : p ≠ 0) (hi : k.total x ≠ ctQuotaInf)
    (hn : n < ctQuotaInf / 2) (hroom : (k.obj p).koQuotaUsed + n ≤ k1.total p) :
    Transferred x n k ((k1.mapObj p (Kobject.addUsed n)).mapObj x (Kobject.addTotal n)) := by
  have hup : k.up x = some p := Store.up_eq_some.mpr ⟨hpx ▸ hp, hpx⟩
  have hxp : ¬ Above k.up p x := h.grounded.not_above hup
  have hne : p ≠ x := fun he ↦ hxp (he ▸ .refl)
  have hx1 : k1.obj x = k.obj x := hs.other x hxp
  have hlt := h.finite_lt .refl hi
  have hult := h.used_lt p (Above.head hup .refl)
  have hsmall : ctQuotaInf / 2 + ctQuotaInf / 2 < 2 ^ 64 := by decide
  generalize hk' : (k1.mapObj p (Kobject.addUsed n)).mapObj x (Kobject.addTotal n) = k'
  have hq1 : QuotaOnly k1 (k1.mapObj p (Kobject.addUsed n)) := .mapObj fun _ ↦ rfl
  have hq : QuotaOnly k k' := hk' ▸ hs.toQuotaOnly.trans (hq1.trans (.mapObj fun _ ↦ rfl))
  have hobj : ∀ z, z ≠ x → z ≠ p → k'.obj z = k1.obj z := fun z hzx hzp ↦ by
    rw [← hk', Store.mapObj_obj, if_neg hzx, Store.mapObj_obj, if_neg hzp]
  have hobjx : k'.obj x = Kobject.addTotal n (k.obj x) := by
    rw [← hk', Store.mapObj_obj, if_pos rfl, Store.mapObj_obj, if_neg hne.symm, hx1]
  have hobjp : k'.obj p = Kobject.addUsed n (k1.obj p) := by
    rw [← hk', Store.mapObj_obj, if_neg hne, Store.mapObj_obj, if_pos rfl]
  have htotx : k'.total x = k.total x + n := by
    rw [Store.total, hobjx]
    exact add64_eq (by unfold Store.total at hlt; omega)
  have htot : ∀ z, z ≠ x → k'.total z = k1.total z := fun z hzx ↦ by
    by_cases hzp : z = p
    · rw [hzp, Store.total, hobjp]
      rfl
    · rw [Store.total, hobj z hzx hzp]
      rfl
  have husedp : (k'.obj p).koQuotaUsed = (k.obj p).koQuotaUsed + n := by
    rw [hobjp, ← hs.used_self]
    exact add64_eq (by rw [hs.used_self]; omega)
  have hused : ∀ z, z ≠ p → (k'.obj z).koQuotaUsed = (k1.obj z).koQuotaUsed := fun z hzp ↦ by
    by_cases hzx : z = x
    · rw [hzx, hobjx, hx1]
      rfl
    · rw [hobj z hzx hzp]
  -- nothing above `p` has `p` for a parent
  have hpar : ∀ z, Above k.up p z → (k.obj z).koParent ≠ 0 → (k.obj z).koParent ≠ p := by
    intro z hz h0 he
    have hgz := h.grounded.of_above (hz.head hup)
    exact hgz.not_above (Store.up_eq_some.mpr ⟨h0, he⟩) hz
  refine ⟨⟨hq, ?_, fun z hz ↦ ?_, fun z hz hrz hpz ↦ ?_, fun z hz ↦ ?_⟩, htotx⟩
  · rw [hused x hne.symm, hx1]
  · have hzx : z ≠ x := fun he ↦ hz (he ▸ .refl)
    have hzp : ¬ Above k.up p z := fun ha ↦ hz (ha.head hup)
    rw [hobj z hzx fun he ↦ hzp (he ▸ .refl), hs.other z hzp]
  · rcases above_iff.mp hz with rfl | ⟨q, hq, hzq⟩
    · rw [hpx, husedp, htotx]
      omega
    · obtain rfl : q = p := Option.some.inj (hq.symm.trans hup)
      rw [hused _ (hpar z hzq hpz), htot z fun he ↦ hxp (he ▸ hzq)]
      exact hs.passed_on z hzq hrz hpz
  · rcases above_iff.mp hz with rfl | ⟨q, hq, hzq⟩
    · rw [hused x hne.symm, hx1, htotx]
      have := h.within x .refl
      omega
    · obtain rfl : q = p := Option.some.inj (hq.symm.trans hup)
      rw [htot z fun he ↦ hxp (he ▸ hzq)]
      by_cases hzp : z = q
      · rw [hzp, husedp]
        exact hroom
      · rw [hused z hzp]
        exact hs.within z hzq

def Settles (env : Env) (x n chain rounds : Nat) (k : Store) : Prop :=
  (∃ e, retry .again .loops (kobjectBorrowParentQuotaOne env chain x n false) rounds k =
    (.error e, k) ∧ ¬ Stopped e) ∨
  ∃ k', retry .again .loops (kobjectBorrowParentQuotaOne env chain x n false) rounds k =
    (.ok (), k') ∧ Transferred x n k k'

section Settles

variable {chain rounds : Nat}

end Settles

end HiStar.Kobj
