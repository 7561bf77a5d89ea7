import HiStar.Kobj.Borrow

namespace HiStar.Kobj

open Lib Function

variable {root x n m x' n' j : Nat} {r : Nat → Nat} {k k' : Store}

theorem Charged.avail (h : Charged root r k) (hx : x ∈ k.ids) (hi : k.total x ≠ ctQuotaInf) :
    quotaAvail (k.obj x) = k.total x - (k.obj x).koQuotaUsed :=
  sub64_eq (h.total_lt x hx) (h.within x hx hi)

theorem Grant.charged (h : Grant x n k k') (hk : Shape root k) (hs : Single root 0 k)
    (hc : Charged root r k) (hx : x ∈ k.ids) (hi : k.total x ≠ ctQuotaInf)
    (hl : (k.obj x).koType = .label → (k.obj x).koRef = 0) (hn : k.total x + n < 2 ^ 64) :
    Charged root r k' := by
  have hroot : x ≠ root := fun he ↦ hi (he ▸ hc.root_inf (he ▸ hx))
  have htx : k'.total x = k.total x + n := by rw [h.total, if_pos rfl, add64_eq hn]
  have hto : ∀ z, z ≠ x → k'.total z = k.total z := fun z hz ↦ by rw [h.total, if_neg hz]
  have hup := (hk.grounded_up hx).not_above (p := (k.obj x).koParent)
  -- the load grows exactly where `x` is held
  have hcount : ∀ z ∈ k.ids, (k.held z).count x =
      if (k.obj x).koRef ≠ 0 ∧ z = (k.obj x).koParent then 1 else 0 := by
    intro z hz
    by_cases hr : (k.obj x).koRef = 0
    · rw [if_neg fun hh ↦ hh.1 hr, Multiset.count_eq_zero]
      exact hk.not_held_of_ref_zero hx hr hz
    · have hx0 : x ≠ 0 := fun he ↦ hk.zero_notMem (he ▸ hx)
      obtain ⟨h1, hp⟩ := hs x hx hroot hx0 h.not_fixed (fun ht ↦ hr (hl ht)) hr
      obtain ⟨hpm, hph⟩ := hk.parent_holds x hx hp
      have href := hk.ref_eq x hx
      rw [h1, if_neg hroot] at href
      rw [count_of_refCount_one href.symm hpm hph hz]
      simp [hr]
  have hload : ∀ z ∈ k.ids, load k'.total (k'.held z) = load k.total (k.held z) +
      if (k.obj x).koRef ≠ 0 ∧ z = (k.obj x).koParent then n else 0 := by
    intro z hz
    rw [h.sameRefs.held, load_add_weight htx hto, hcount z hz]
    split <;> simp
  have hxp : ∀ z, z = x → ¬ ((k.obj x).koRef ≠ 0 ∧ z = (k.obj x).koParent) := by
    rintro z rfl ⟨hr, he⟩
    exact hup (Store.up_eq_some.mpr ⟨(h.parent_lends hr).1, rfl⟩) (he ▸ .refl)
  have hused : ∀ z ∈ k.ids, k.total z ≠ ctQuotaInf → (k'.obj z).koQuotaUsed =
      (k.obj z).koQuotaUsed + (if (k.obj x).koRef ≠ 0 ∧ z = (k.obj x).koParent then n else 0) ∧
      (k'.obj z).koQuotaUsed ≤ k'.total z := by
    intro z hz hzi
    have hw := hc.within z hz hzi
    have hlt := hc.total_lt z hz
    rw [h.used]
    by_cases hp : (k.obj x).koRef ≠ 0 ∧ z = (k.obj x).koParent
    · obtain ⟨-, hlend⟩ := h.parent_lends hp.1
      have hlend := hlend (hp.2 ▸ hzi)
      rw [← hp.2, hc.avail hz hzi] at hlend
      rw [if_pos hp, if_pos hp, hto z fun he ↦ hxp z he hp, add64_eq (by omega)]
      omega
    · rw [if_neg hp, if_neg hp]
      refine ⟨rfl, ?_⟩
      by_cases hzx : z = x
      · rw [hzx, htx, ← hzx]
        omega
      · rwa [hto z hzx]
  have hfin : ∀ z, k'.total z ≠ ctQuotaInf → k.total z ≠ ctQuotaInf := by
    intro z hz
    by_cases hzx : z = x
    · exact hzx ▸ hi
    · rwa [hto z hzx] at hz
  refine ⟨by rw [hto root (Ne.symm hroot), h.ids]; exact hc.root_inf, ?_, ?_, ?_, ?_⟩ <;> intro z hz <;>
    rw [h.ids] at hz
  · by_cases hzx : z = x
    · rw [hzx, htx]
      exact hn
    · rw [hto z hzx]
      exact hc.total_lt z hz
  · rw [h.base]
    exact hc.size z hz
  · intro hzi
    rw [(hused z hz (hfin z hzi)).1, hload z hz, h.base, hc.balance z hz (hfin z hzi)]
    omega
  · intro hzi
    exact (hused z hz (hfin z hzi)).2

/-- After a grant at the end of a walk, the next walk from the same place stops
earlier, and meets nothing that has been granted. -/
theorem Walk.truncate (hk : Shape root k) (hc : Charged root r k) (hx : x ∈ k.ids)
    (hn : n < 2 ^ 64) (hw : Walk k x n x' n' j) (hj : 0 < j) (hg : Grant x' n' k k')
    (hroom : k.total x' + n' < 2 ^ 64) {y l i : Nat} (hw' : Walk k' x n y l i) :
    Walk k x n y l i ∧ y ≠ x' := by
  induction hw generalizing y l i with
  | here => exact absurd hj (by decide)
  | @up x n x' n' j hr hp hi ha hw ih =>
    have hxx' : x ≠ x' := (Walk.up hr hp hi ha hw).ne (hk.parentChain hx) |>.symm
    have hpm := (hk.parent_holds x hx hp).1
    cases hw' with
    | here => exact ⟨.here x n, hxx'⟩
    | @up _ _ _ _ i hr' hp' hi' ha' hw' =>
      have hpar : (k'.obj x).koParent = (k.obj x).koParent := hg.sameRefs.parent x
      rw [hpar] at hi' ha' hw'
      have hused : (k'.obj (k.obj x).koParent).koQuotaUsed =
          (k.obj (k.obj x).koParent).koQuotaUsed := by
        rw [hg.used]
        refine if_neg fun hcon ↦ ?_
        exact hw.parent_ne (hk.parentChain hpm) (hg.parent_lends hcon.1).1 hcon.2.symm
      rcases Nat.eq_zero_or_pos j with rfl | hj
      · -- the parent of `x` has just been granted what it lacked
        obtain ⟨rfl, rfl⟩ := hw.zero
        have hav := hc.avail hpm hi
        have hle := hc.within _ hpm hi
        have htot : k'.total (k.obj x).koParent = k.total (k.obj x).koParent +
            sub64 n (quotaAvail (k.obj (k.obj x).koParent)) := by
          rw [hg.total, if_pos rfl, add64_eq hroom]
        rw [sub64_eq hn ha.le] at htot hroom
        have hav' : quotaAvail (k'.obj (k.obj x).koParent) = n := by
          show sub64 (k'.total _) _ = n
          rw [htot, hused, sub64_eq (by omega) (by omega)]
          omega
        omega
      · have hne : (k.obj x).koParent ≠ x' := by
          obtain ⟨i, rfl⟩ := Nat.exists_eq_succ_of_ne_zero hj.ne'
          exact (hw.ne (hk.parentChain hpm)).symm
        have hav : quotaAvail (k'.obj (k.obj x).koParent) = quotaAvail (k.obj (k.obj x).koParent) := by
          show sub64 (k'.total _) _ = sub64 (k.total _) _
          rw [hused, hg.total, if_neg hne]
        rw [hav] at ha' hw'
        have hsub : sub64 n (quotaAvail (k.obj (k.obj x).koParent)) < 2 ^ 64 := sub64_lt _ _
        obtain ⟨h1, h2⟩ := ih hpm hsub hj hg hroom hw'
        exact ⟨.up hr hp hi ha' h1, h2⟩

structure Lends (root n : Nat) (r : Nat → Nat) (x : Nat) (k k' : Store) : Prop
    extends QuotaOnly k k' where
  charged : Charged root r k'
  room : Room n k'
  total_other : ∀ z, ¬ Above k.up x z → k'.total z = k.total z

theorem Lends.trans_grant {k'' : Store} (hg : Grant x' n' k k') (hw : Above k.up x x')
    (h : Lends root n r x k' k'') : Lends root n r x k k'' where
  toQuotaOnly := hg.toQuotaOnly.trans h.toQuotaOnly
  charged := h.charged
  room := h.room
  total_other z hz := by
    rw [h.total_other z (by rwa [hg.sameRefs.up]), hg.total, if_neg]
    rintro rfl
    exact hz hw

theorem Room.grant (h : Room n k) (hg : Grant x' n' k k') (hx : k.total x' + (n' + n) < 2 ^ 64) :
    Room n k' := by
  refine ⟨h.1, fun z hz hi ↦ ?_⟩
  rw [hg.ids] at hz
  rw [hg.total] at hi ⊢
  by_cases hzx : z = x'
  · rw [if_pos hzx, hzx, add64_eq (by omega)]
    omega
  · rw [if_neg hzx] at hi ⊢
    exact h.2 z hz hi

theorem borrowRounds_succ (env : Env) (x m limit : Nat) (k : Store) :
    borrowRounds env x m (limit + 1) k =
      match kobjectBorrowParentQuotaOne env env.chainLimit x m false k with
      | (.error .again, k') => borrowRounds env x m limit k'
      | r => r := rfl

/-- The loop of `kobject_borrow_parent_quota`: its rounds grant quota from the
top down, to each ancestor at most once, so `total + m` bounds every total. -/
theorem borrowRounds_lends (env : Env) (limit : Nat) (hk : Shape root k) (hs : Single root 0 k)
    (hc : Charged root r k) (hx : x ∈ k.ids) (hi : k.total x ≠ ctQuotaInf)
    (hl : (k.obj x).koType = .label → (k.obj x).koRef = 0) (hm : m < 2 ^ 64) (hroom : Room n k)
    (hwalk : ∀ x' n' j, Walk k x m x' n' j → k.total x' + (m + n) < 2 ^ 64) :
    Lends root n r x k (borrowRounds env x m limit k).2 ∧
      ((borrowRounds env x m limit k).1 = .ok () →
        (borrowRounds env x m limit k).2.total x = k.total x + m ∧
        ((borrowRounds env x m limit k).2.obj x).koQuotaUsed = (k.obj x).koQuotaUsed) := by
  induction limit generalizing k with
  | zero =>
    refine ⟨⟨.refl k, hc, hroom, fun _ _ ↦ rfl⟩, fun h ↦ ?_⟩
    cases h
  | succ limit ih =>
    rw [borrowRounds_succ]
    rcases borrowOne_spec env env.chainLimit m false (hk.parentChain hx) with
      ⟨e, he⟩ | ⟨x', n', j, k', hw, hg, he⟩
    · rw [he]
      by_cases hag : e = .again
      · subst hag
        exact ih hk hs hc hx hi hl hroom hwalk
      · have : (match ((Except.error e : Except Errno Unit), k) with
            | (.error .again, k') => borrowRounds env x m limit k'
            | r => r) = (.error e, k) := by
          cases e <;> first | rfl | exact absurd rfl hag
        rw [this]
        refine ⟨⟨.refl k, hc, hroom, fun _ _ ↦ rfl⟩, fun h ↦ ?_⟩
        cases h
    · have hle := hw.le hm
      have hx' := hwalk x' n' j hw
      have hx'm := hk.up_mem hx hw.above
      have hroom' := hroom.grant hg (by omega)
      have hc' : Charged root r k' := hg.charged hk hs hc hx'm (hw.finite hi)
        (hw.not_label hk hx hl) (by omega)
      rw [he]
      rcases Nat.eq_zero_or_pos j with rfl | hj
      · obtain ⟨rfl, rfl⟩ := hw.zero
        simp only [lt_irrefl, Bool.false_eq_true, or_self, if_false]
        refine ⟨.trans_grant hg hw.above ⟨.refl k', hc', hroom', fun _ _ ↦ rfl⟩, fun _ ↦ ?_⟩
        refine ⟨by rw [hg.total, if_pos rfl, add64_eq (by omega)], ?_⟩
        rw [hg.used, if_neg]
        rintro ⟨hr, hself⟩
        exact hw.parent_ne (hk.parentChain hx) (hg.parent_lends hr).1 hself.symm
      · have hsame := hg.sameRefs
        have hne : x' ≠ x := by
          obtain ⟨i, rfl⟩ := Nat.exists_eq_succ_of_ne_zero hj.ne'
          exact hw.ne (hk.parentChain hx)
        have hxt : k'.total x = k.total x := by rw [hg.total, if_neg hne.symm]
        have hxu : (k'.obj x).koQuotaUsed = (k.obj x).koQuotaUsed := by
          rw [hg.used, if_neg]
          rintro ⟨hr, hself⟩
          exact hw.parent_ne (hk.parentChain hx) (hg.parent_lends hr).1 hself.symm
        simp only [hj, or_true, if_true]
        obtain ⟨h1, h2⟩ := ih (hk.of_sameRefs hsame) (hs.of_sameRefs hsame) hc'
          (by rwa [hg.ids]) (by rwa [hxt]) (by rwa [hsame.type, hsame.ref]) hroom' (by
            intro y l i hw'
            obtain ⟨hwy, hy⟩ := hw.truncate hk hc hx hm hj hg (by omega) hw'
            rw [hg.total, if_neg hy]
            exact hwalk y l i hwy)
        refine ⟨.trans_grant hg hw.above h1, fun hok ↦ ?_⟩
        obtain ⟨h3, h4⟩ := h2 hok
        exact ⟨by rw [h3, hxt], by rw [h4, hxu]⟩

theorem borrowRounds_quotaOnly (env : Env) (m limit : Nat) (hk : Shape root k) (hx : x ∈ k.ids) :
    QuotaOnly k (borrowRounds env x m limit k).2 := by
  induction limit generalizing k with
  | zero => exact .refl k
  | succ limit ih =>
    rw [borrowRounds_succ]
    rcases borrowOne_spec env env.chainLimit m false (hk.parentChain hx) with
      ⟨e, he⟩ | ⟨x', n', j, k', -, hg, he⟩ <;> rw [he]
    · cases e <;> first | exact .refl k | exact ih hk hx
    · by_cases hj : 0 < j
      · simp only [hj, or_true, if_true]
        exact hg.toQuotaOnly.trans (ih (hk.of_sameRefs hg.sameRefs) (by rwa [hg.ids]))
      · simp only [hj, Bool.false_eq_true, or_self, if_false]
        exact hg.toQuotaOnly

structure Borrowed (q : Prop) (root n : Nat) (r : Nat → Nat) (x : Nat) (k k' : Store) : Prop
    extends QuotaOnly k k' where
  inv : Inv q root 0 n r k'
  total_other : q → ∀ z, ¬ Above k.up x z → k'.total z = k.total z

structure Lent (q : Prop) (root n : Nat) (r : Nat → Nat) (x m : Nat) (k k' : Store) : Prop
    extends Borrowed q root n r x k k' where
  total_self : q → k'.total x = k.total x + m
  used_self : q → (k'.obj x).koQuotaUsed = (k.obj x).koQuotaUsed

theorem kobjectBorrowParentQuota_wp {q : Prop} {env : Env} (h : Inv q root 0 (m + n) r k)
    (hx : x ∈ k.ids) (hi : q → k.total x ≠ ctQuotaInf)
    (hl : q → (k.obj x).koType = .label → (k.obj x).koRef = 0) :
    Wp (kobjectBorrowParentQuota env x m) k (fun _ k' ↦ Lent q root n r x m k k')
      (fun _ k' ↦ Borrowed q root n r x k k') := by
  unfold Wp kobjectBorrowParentQuota
  have hqo := borrowRounds_quotaOnly env m env.borrowLimit h.shape hx
  have hlends : q → _ := fun hq ↦ borrowRounds_lends env env.borrowLimit (m := m)
    (n := n) h.shape (h.books hq).single (h.books hq).charged hx (hi hq) (hl hq)
    (by have := (h.books hq).room.1; omega) ((h.books hq).room.mono (by omega)) (by
      intro x' n' j hw
      exact (h.books hq).room.2 x' (h.shape.up_mem hx hw.above) (hw.finite (hi hq)))
  rcases hres : borrowRounds env x m env.borrowLimit k with ⟨e | u, k'⟩ <;>
    simp only [hres] at hqo hlends ⊢
  all_goals have hinv : Inv q root 0 n r k' := ⟨h.shape.of_sameRefs hqo.sameRefs, fun hq ↦
    ⟨(h.books hq).single.of_sameRefs hqo.sameRefs, (hlends hq).1.charged, (hlends hq).1.room⟩⟩
  · exact ⟨hqo, hinv, fun hq ↦ (hlends hq).1.total_other⟩
  · exact ⟨⟨hqo, hinv, fun hq ↦ (hlends hq).1.total_other⟩, fun hq ↦ ((hlends hq).2 trivial).1,
      fun hq ↦ ((hlends hq).2 trivial).2⟩

end HiStar.Kobj
