import HiStar.Kobj.Ledger

namespace HiStar.Kobj

open Lib Function

structure QuotaOnly (k k' : Store) : Prop where
  ids : k'.ids = k.ids
  curThread : k'.curThread = k.curThread
  counter : k'.handleCounter = k.handleCounter
  encipher : k'.bf61Encipher = k.bf61Encipher
  obj : ∀ z, k'.obj z = { k.obj z with
    koQuotaUsed := (k'.obj z).koQuotaUsed, koQuotaTotal := (k'.obj z).koQuotaTotal }

namespace QuotaOnly

variable {k k' k'' : Store}

theorem refl (k : Store) : QuotaOnly k k := ⟨rfl, rfl, rfl, rfl, fun _ ↦ rfl⟩

theorem trans (h : QuotaOnly k k') (h' : QuotaOnly k' k'') : QuotaOnly k k'' where
  ids := h'.ids.trans h.ids
  curThread := h'.curThread.trans h.curThread
  counter := h'.counter.trans h.counter
  encipher := h'.encipher.trans h.encipher
  obj z := by rw [h'.obj z, h.obj z]

theorem base (h : QuotaOnly k k') (z : Nat) : (k'.obj z).base = (k.obj z).base := by
  rw [h.obj z]
  rfl

theorem sameRefs (h : QuotaOnly k k') : SameRefs k k' := by
  refine ⟨⟨h.ids, h.counter, h.encipher, ?_, ?_⟩, ?_, ?_, ?_⟩ <;> intro z <;>
    try unfold Store.held
  all_goals
    rw [h.obj z]
    try rfl

theorem mapObj {x : Nat} {f : Kobject → Kobject}
    (hf : ∀ o, f o = { o with koQuotaUsed := (f o).koQuotaUsed, koQuotaTotal := (f o).koQuotaTotal }) :
    QuotaOnly k (k.mapObj x f) := by
  refine ⟨rfl, rfl, rfl, rfl, fun z ↦ ?_⟩
  rw [k.mapObj_obj]
  by_cases h : z = x
  · simp only [if_pos h]
    exact hf _
  · simp only [if_neg h]

end QuotaOnly

def Same (k k' : Store) (z : Nat) : Prop :=
  ∃ ref parent used total, k'.obj z = { k.obj z with
    koRef := ref, koParent := parent, koQuotaUsed := used, koQuotaTotal := total }

variable {k k' : Store} {x : Nat}

theorem Same.trans {k'' : Store} {z : Nat} (h : Same k k' z) (h' : Same k' k'' z) :
    Same k k'' z := by
  obtain ⟨_, _, _, _, h1⟩ := h
  obtain ⟨ref, parent, used, total, h2⟩ := h'
  rw [h1] at h2
  exact ⟨ref, parent, used, total, h2⟩

theorem same_mapObj {z : Nat} {f : Kobject → Kobject} (hz : z ≠ x) : Same k (k.mapObj x f) z := by
  unfold Same
  rw [k.mapObj_obj, if_neg hz]
  exact ⟨_, _, _, _, rfl⟩

theorem QuotaOnly.same (h : QuotaOnly k k') (z : Nat) : Same k k' z := ⟨_, _, _, _, h.obj z⟩

def Store.up (k : Store) (x : Nat) : Option Nat :=
  if (k.obj x).koParent = 0 then none else some (k.obj x).koParent

theorem Store.up_eq_some {p : Nat} :
    k.up x = some p ↔ (k.obj x).koParent ≠ 0 ∧ (k.obj x).koParent = p := by
  unfold Store.up
  by_cases h : (k.obj x).koParent = 0 <;> simp [h]

theorem SameRefs.up (h : SameRefs k k') : k'.up = k.up := by
  funext x
  simp only [Store.up, h.parent]

namespace Shape

variable {root x y : Nat} {k : Store}

theorem grounded_up (hk : Shape root k) (hx : x ∈ k.ids) : Grounded k.up x := by
  have hc : ∀ c, Grounded k.ctParent c → c ∈ k.ids → (k.obj c).koType = .container →
      Grounded k.up c := by
    intro c hg
    induction hg with
    | intro c _ ih =>
      intro hm ht
      refine .intro fun p hp ↦ ?_
      obtain ⟨h0, rfl⟩ := Store.up_eq_some.mp hp
      obtain ⟨hpm, hpt⟩ := hk.parent_container hm ht h0
      exact ih _ (by simp [Store.ctParent, ht, h0]) hpm hpt
  induction hn : typeRank (k.obj x).koType using Nat.strong_induction_on generalizing x with
  | _ n ih =>
    by_cases ht : (k.obj x).koType = .container
    · exact hc x (hk.grounded x hx) hx ht
    · refine .intro fun p hp ↦ ?_
      obtain ⟨h0, rfl⟩ := Store.up_eq_some.mp hp
      obtain ⟨hpm, hph⟩ := hk.parent_holds x hx h0
      rcases (hk.held_type _ hpm x hph).rank with hpc | hlt
      · exact hc _ (hk.grounded _ hpm) hpm hpc
      · exact ih _ (hn ▸ hlt) hpm rfl

theorem up_mem (hk : Shape root k) (hx : x ∈ k.ids) (h : Above k.up x y) : y ∈ k.ids := by
  induction h with
  | refl => exact hx
  | tail _ hp ih =>
    obtain ⟨h0, rfl⟩ := Store.up_eq_some.mp hp
    exact (hk.parent_holds _ ih h0).1

theorem up_not_label (hk : Shape root k) (hx : x ∈ k.ids) (hp : (k.obj x).koParent ≠ 0) :
    (k.obj (k.obj x).koParent).koType ≠ .label := by
  obtain ⟨hm, hh⟩ := hk.parent_holds x hx hp
  intro ht
  have := hk.held_type _ hm x hh
  rw [ht] at this
  exact this

theorem not_above_of_held (hk : Shape root k) (hx : x ∈ k.ids) (hxl : (k.obj x).koType ≠ .label)
    (hyx : y ≠ x) (hy : ∀ z ∈ k.held y, (k.obj z).koType = .label) : ¬ Above k.up x y := by
  intro ha
  induction ha using Relation.ReflTransGen.head_induction_on with
  | refl => exact hyx rfl
  | @head a b hp hab ih =>
    obtain ⟨h0, rfl⟩ := Store.up_eq_some.mp hp
    obtain ⟨hm, hh⟩ := hk.parent_holds a hx h0
    by_cases hby : y = (k.obj a).koParent
    · exact hxl (hy a (hby ▸ hh))
    · exact ih hm (hk.up_not_label hx h0) hby

theorem not_above_label (hk : Shape root k) (hx : x ∈ k.ids) (hxl : (k.obj x).koType ≠ .label)
    (hy : y ∈ k.ids) (hyl : (k.obj y).koType = .label) : ¬ Above k.up x y := by
  refine hk.not_above_of_held hx hxl (fun he ↦ hxl (he ▸ hyl)) fun z hz ↦ ?_
  have := hk.held_type y hy z hz
  rw [hyl] at this
  exact this.elim

theorem above_up (h : Above k.ctParent x y) : Above k.up x y := by
  refine Relation.ReflTransGen.mono (fun a b hab ↦ ?_) x y h
  unfold Store.ctParent at hab
  split at hab
  next hc => exact Store.up_eq_some.mpr ⟨hc.2, by simpa using hab⟩
  next => cases hab

theorem translate (hk : Shape root k) (hx : x ∈ k.ids) : kobjectTranslateId x k = .ok x := by
  unfold kobjectTranslateId
  rw [if_neg]
  rintro rfl
  exact hk.threadSg_notMem hx

end Shape

structure ParentChain (k : Store) (x : Nat) : Prop where
  grounded : Grounded k.up x
  mem : ∀ z, Above k.up x z → z ∈ k.ids
  threadSg_notMem : kobjectIdThreadSg ∉ k.ids

theorem Shape.parentChain {root : Nat} (hk : Shape root k) (hx : x ∈ k.ids) : ParentChain k x :=
  ⟨hk.grounded_up hx, fun _ hz ↦ hk.up_mem hx hz, hk.threadSg_notMem⟩

namespace ParentChain

variable {x p : Nat} {k k' : Store}

theorem self_mem (h : ParentChain k x) : x ∈ k.ids := h.mem x .refl

theorem up (h : ParentChain k x) (hp : (k.obj x).koParent ≠ 0) :
    ParentChain k (k.obj x).koParent :=
  have hup : k.up x = some (k.obj x).koParent := Store.up_eq_some.mpr ⟨hp, rfl⟩
  ⟨h.grounded.up hup, fun z hz ↦ h.mem z (hz.head hup), h.threadSg_notMem⟩

theorem of_sameRefs (h : ParentChain k x) (hs : SameRefs k k') : ParentChain k' x :=
  ⟨hs.up ▸ h.grounded, fun z hz ↦ hs.ids ▸ h.mem z (hs.up ▸ hz), hs.ids ▸ h.threadSg_notMem⟩

theorem parent_not_above (h : ParentChain k x) (hp : (k.obj x).koParent ≠ 0) :
    ¬ Above k.up (k.obj x).koParent x :=
  h.grounded.not_above (Store.up_eq_some.mpr ⟨hp, rfl⟩)

theorem translate_parent (h : ParentChain k x) (hp : (k.obj x).koParent ≠ 0) :
    kobjectTranslateId (k.obj x).koParent k = .ok (k.obj x).koParent := by
  have hne : (k.obj x).koParent ≠ kobjectIdThreadSg := fun he ↦
    h.threadSg_notMem (he ▸ (h.up hp).self_mem)
  exact if_neg hne

theorem get_parent {env : Env} (h : ParentChain k x) (hp : (k.obj x).koParent ≠ 0)
    {type : Option KobjType} {iflow : InfoFlowType}
    (hg : kobjectGet env (k.obj x).koParent type iflow k = .ok p) : p = (k.obj x).koParent := by
  obtain ⟨htr, -⟩ := kobjectGet_ok hg
  rw [h.translate_parent hp, Except.ok.injEq] at htr
  exact htr.symm

end ParentChain

/-- The way `kobject_borrow_parent_quota_one` goes: from `x`, which lacks `n`
bytes, in `j` rounds to `x'`, which lacks `n'`. -/
inductive Walk (k : Store) : Nat → Nat → Nat → Nat → Nat → Prop
  | here (x n : Nat) : Walk k x n x n 0
  | up {x n x' n' j : Nat} (hr : (k.obj x).koRef ≠ 0) (hp : (k.obj x).koParent ≠ 0)
      (hi : k.total (k.obj x).koParent ≠ ctQuotaInf)
      (ha : quotaAvail (k.obj (k.obj x).koParent) < n)
      (h : Walk k (k.obj x).koParent (sub64 n (quotaAvail (k.obj (k.obj x).koParent))) x' n' j) :
      Walk k x n x' n' (j + 1)

structure Grant (x n : Nat) (k k' : Store) : Prop extends QuotaOnly k k' where
  total : ∀ z, k'.total z = if z = x then add64 (k.total z) n else k.total z
  used : ∀ z, (k'.obj z).koQuotaUsed = if (k.obj x).koRef ≠ 0 ∧ z = (k.obj x).koParent then
    add64 (k.obj z).koQuotaUsed n else (k.obj z).koQuotaUsed
  parent_lends : (k.obj x).koRef ≠ 0 → (k.obj x).koParent ≠ 0 ∧
    (k.total (k.obj x).koParent ≠ ctQuotaInf → n ≤ quotaAvail (k.obj (k.obj x).koParent))
  not_fixed : (k.obj x).koFixedQuota = false

theorem grant_orphan {n : Nat} (hr : (k.obj x).koRef = 0)
    (hf : (k.obj x).koFixedQuota = false) : Grant x n k (k.mapObj x (Kobject.addTotal n)) where
  toQuotaOnly := .mapObj fun _ ↦ rfl
  total z := by
    unfold Store.total
    rw [k.mapObj_obj]
    split <;> rfl
  used z := by
    simp only [Store.mapObj_obj, ne_eq, hr, not_true_eq_false, false_and]
    split <;> rfl
  parent_lends h := absurd hr h
  not_fixed := hf

theorem grant_child {n : Nat} (hr : (k.obj x).koRef ≠ 0) (hp : (k.obj x).koParent ≠ 0)
    (hl : k.total (k.obj x).koParent ≠ ctQuotaInf → n ≤ quotaAvail (k.obj (k.obj x).koParent))
    (hf : (k.obj x).koFixedQuota = false) :
    Grant x n k ((k.mapObj (k.obj x).koParent (Kobject.addUsed n)).mapObj x (Kobject.addTotal n)) where
  toQuotaOnly := (QuotaOnly.mapObj fun _ ↦ rfl).trans (.mapObj fun _ ↦ rfl)
  total z := by
    unfold Store.total
    simp only [Store.mapObj_obj]
    split <;> split <;> rfl
  used z := by
    simp only [Store.mapObj_obj, ne_eq, hr, not_false_eq_true, true_and]
    split <;> split <;> rfl
  parent_lends _ := ⟨hp, hl⟩
  not_fixed := hf

theorem borrowOne_spec (env : Env) (limit n : Nat) (again : Bool) (hk : ParentChain k x) :
    (∃ e, kobjectBorrowParentQuotaOne env limit x n again k = (.error e, k)) ∨
    ∃ x' n' j k', Walk k x n x' n' j ∧ Grant x' n' k k' ∧
      kobjectBorrowParentQuotaOne env limit x n again k =
        (if again ∨ 0 < j then .error .again else .ok (), k') := by
  induction limit generalizing x n again with
  | zero => exact .inl ⟨.loops, rfl⟩
  | succ limit ih =>
    rw [kobjectBorrowParentQuotaOne, deref_bind hk.self_mem]
    by_cases hf : (k.obj x).koFixedQuota = true
    · exact .inl ⟨.fixedQuota, by simp [bind_apply, Exec.require, hf]⟩
    have hff : (k.obj x).koFixedQuota = false := by simpa using hf
    rw [require_bind (by simpa using hff)]
    by_cases hr : (k.obj x).koRef = 0
    · refine .inr ⟨x, n, 0, _, .here x n, grant_orphan hr hff, ?_⟩
      cases again <;> simp [hr, borrowResult, Exec.require, modifyObj, bind_apply]
    rw [if_neg hr]
    by_cases hp : (k.obj x).koParent = 0
    · exact .inl ⟨.panic, by simp [bind_apply, Exec.require, hp]⟩
    rw [require_bind (by simpa using hp)]
    rcases hg : kobjectGet env (k.obj x).koParent none .rw k with e | p
    · exact .inl ⟨e, by simp [bind_apply, hg]⟩
    obtain rfl := hk.get_parent hp hg
    rw [read_bind hg, deref_bind (hk.up hp).self_mem]
    by_cases hl : (k.obj (k.obj x).koParent).koQuotaTotal ≠ ctQuotaInf ∧
        sub64 (k.obj (k.obj x).koParent).koQuotaTotal (k.obj (k.obj x).koParent).koQuotaUsed < n
    · rw [if_pos hl]
      rcases ih (sub64 n (quotaAvail (k.obj (k.obj x).koParent))) true (hk.up hp) with
        ⟨e, he⟩ | ⟨x', n', j, k', hw, hgr, he⟩
      · exact .inl ⟨e, he⟩
      · exact .inr ⟨x', n', j + 1, k', .up hr hp hl.1 hl.2 hw, hgr, he.trans (by simp)⟩
    · rw [if_neg hl]
      refine .inr ⟨x, n, 0, _, .here x n, grant_child hr hp (fun hi ↦ ?_) hff, ?_⟩
      · exact Nat.le_of_not_lt fun hlt ↦ hl ⟨hi, hlt⟩
      · cases again <;> simp [borrowResult, Exec.require, modifyObj, bind_apply]

section Walk

variable {root x n x' n' j : Nat} {k k' : Store}

theorem Walk.above (h : Walk k x n x' n' j) : Above k.up x x' := by
  induction h with
  | here => exact .refl
  | up _ hp _ _ _ ih => exact ih.head (Store.up_eq_some.mpr ⟨hp, rfl⟩)

theorem Walk.le (h : Walk k x n x' n' j) (hn : n < 2 ^ 64) : n' ≤ n := by
  induction h with
  | here => exact le_rfl
  | up _ _ _ ha _ ih =>
    rw [sub64_eq hn ha.le] at ih
    have := ih (by omega)
    omega

theorem Walk.finite (h : Walk k x n x' n' j) (hx : k.total x ≠ ctQuotaInf) :
    k.total x' ≠ ctQuotaInf := by
  induction h with
  | here => exact hx
  | up _ _ hi _ _ ih => exact ih hi

theorem Walk.zero (h : Walk k x n x' n' 0) : x' = x ∧ n' = n := by
  cases h
  exact ⟨rfl, rfl⟩

theorem Walk.ne (hk : ParentChain k x) (h : Walk k x n x' n' (j + 1)) : x' ≠ x := by
  cases h with
  | up _ hp _ _ h =>
    rintro rfl
    exact hk.parent_not_above hp h.above

theorem Walk.not_label (hk : Shape root k) (hx : x ∈ k.ids) (h : Walk k x n x' n' j)
    (hl : (k.obj x).koType = .label → (k.obj x).koRef = 0) :
    (k.obj x').koType = .label → (k.obj x').koRef = 0 := by
  induction h with
  | here => exact hl
  | up _ hp _ _ _ ih =>
    exact ih (hk.parent_holds _ hx hp).1 fun ht ↦ absurd ht (hk.up_not_label hx hp)

theorem Walk.parent_ne (hk : ParentChain k x) (h : Walk k x n x' n' j)
    (hp : (k.obj x').koParent ≠ 0) : (k.obj x').koParent ≠ x := by
  intro he
  have hup : k.up x' = some (k.obj x').koParent := Store.up_eq_some.mpr ⟨hp, rfl⟩
  exact (hk.grounded.of_above h.above).not_above hup (he ▸ h.above)

end Walk

end HiStar.Kobj
