import HiStar.Kobj.Resize

namespace HiStar.Kobj

open Lib Function

variable {q : Prop} {root e n m x y id : Nat} {r : Nat → Nat} {k k' : Store} {env : Env}
  {type : KobjType} {l c : Nat}

abbrev noResv : Nat → Nat := fun _ ↦ 0

theorem typeHeld_newKobject (type : KobjType) : (newKobject type).typeHeld = 0 := by
  cases type <;> simp [Kobject.typeHeld, newKobject, Kobject.slotRef, Kobject.idRef]

theorem held_newKobject (type : KobjType) : (newKobject type).held = 0 := by
  unfold Kobject.held
  rw [typeHeld_newKobject]
  simp [newKobject, Kobject.idRef]

section AddObj

variable {o : Kobject}

theorem addObj_self : (addObj id o k).obj id = o := by simp [addObj]

theorem addObj_other {z : Nat} (hz : z ≠ id) : (addObj id o k).obj z = k.obj z := by
  simp [addObj, hz]

theorem held_addObj_self (h : o.held = 0) : (addObj id o k).held id = 0 := by
  unfold Store.held
  rw [addObj_self, h]

theorem held_addObj_other {z : Nat} (hz : z ≠ id) : (addObj id o k).held z = k.held z := by
  unfold Store.held
  rw [addObj_other hz]

theorem total_addObj_other {z : Nat} (hz : z ≠ id) : (addObj id o k).total z = k.total z := by
  unfold Store.total
  rw [addObj_other hz]

theorem Shape.addObj (hk : Shape root k) (hid : id ∉ k.ids) (h0 : id ≠ 0)
    (hsg : id ≠ kobjectIdThreadSg)
    (hfresh : ∀ j, k.handleCounter ≤ j → j < 2 ^ 61 → k.bf61Encipher j ≠ id)
    (hheld : o.held = 0) (href : o.koRef = 0) (hparent : o.koParent = 0) :
    Shape root (addObj id o k) := by
  have hcase : ∀ z ∈ (Kobj.addObj id o k).ids, z = id ∨ z ≠ id ∧ z ∈ k.ids := by
    intro z hz
    by_cases hzi : z = id
    · exact .inl hzi
    · exact .inr ⟨hzi, Finset.mem_of_mem_insert_of_ne hz hzi⟩
  have hne : ∀ z ∈ k.ids, z ≠ id := fun z hz he ↦ hid (he ▸ hz)
  have hself : (Kobj.addObj id o k).held id = 0 := held_addObj_self hheld
  have hroot : id ≠ root := by
    rintro rfl
    exact hk.root_mem.elim h0 hid
  refine ⟨⟨?_, ?_, hk.encipher_lt, hk.encipher_inj, fun j hj hlt hm ↦ ?_⟩,
    hk.root_mem.imp_right Finset.mem_insert_of_mem, ?_, ?_, ?_, ?_, ?_, ?_⟩
  · exact fun hm ↦ (Finset.mem_insert.mp hm).elim (fun he ↦ h0 he.symm) hk.zero_notMem
  · exact fun hm ↦ (Finset.mem_insert.mp hm).elim (fun he ↦ hsg he.symm) hk.threadSg_notMem
  · exact (Finset.mem_insert.mp hm).elim (hfresh j hj hlt) (hk.fresh j hj hlt)
  all_goals
    intro z hz
    rcases hcase z hz with rfl | ⟨hzi, hzm⟩
  · rw [hself]
    exact fun y hy ↦ absurd hy (Multiset.notMem_zero y)
  · rw [held_addObj_other hzi]
    exact fun y hy ↦ Finset.mem_insert_of_mem (hk.held_mem z hzm y hy)
  · rw [hself]
    exact fun y hy ↦ absurd hy (Multiset.notMem_zero y)
  · rw [held_addObj_other hzi]
    intro y hy
    rw [addObj_other hzi, addObj_other (hne y (hk.held_mem z hzm y hy))]
    exact hk.held_type z hzm y hy
  · rw [hself]
    exact Multiset.notMem_zero z
  · rw [held_addObj_other hzi]
    exact hk.not_self z hzm
  · rw [addObj_self, href, if_neg hroot]
    show 0 = refCount (insert z k.ids) _ z + 0
    rw [refCount_insert hid hself fun a ha ↦ held_addObj_other (hne a ha), Nat.add_zero, eq_comm]
    unfold refCount
    refine Finset.sum_eq_zero fun a ha ↦ Multiset.count_eq_zero.mpr fun hh ↦ ?_
    exact hid (hk.held_mem a ha z hh)
  · rw [addObj_other hzi, hk.ref_eq z hzm]
    show _ = refCount (insert id k.ids) _ z + _
    rw [refCount_insert hid hself fun a ha ↦ held_addObj_other (hne a ha)]
  · rw [addObj_self]
    exact fun hp ↦ absurd hparent hp
  · rw [addObj_other hzi]
    intro hp
    obtain ⟨h1, h2⟩ := hk.parent_holds z hzm hp
    exact ⟨Finset.mem_insert_of_mem h1, by rwa [held_addObj_other (hne _ h1)]⟩
  · refine .intro fun p hp ↦ ?_
    simp [Store.ctParent, addObj_self, hparent] at hp
  · refine (hk.grounded z hzm).cut fun a p hp ↦ ?_
    by_cases ha : a = id
    · simp [Store.ctParent, ha, addObj_self, hparent] at hp
    · simpa only [Store.ctParent, addObj_other ha] using hp

theorem Shape.removeObj (hk : Shape root k) (hid : id ∈ k.ids) (href : (k.obj id).koRef = 0)
    (hheld : k.held id = 0) : Shape root (removeObj id k) := by
  have hmem : ∀ z, z ∈ (Kobj.removeObj id k).ids ↔ z ≠ id ∧ z ∈ k.ids := fun z ↦ Finset.mem_erase
  have hnot : ∀ z ∈ k.ids, id ∉ k.held z := fun z hz ↦ hk.not_held_of_ref_zero hid href hz
  refine ⟨⟨?_, ?_, hk.encipher_lt, hk.encipher_inj, fun j hj hlt hm ↦ ?_⟩,
    hk.root_mem.imp_right fun hm ↦ (hmem root).mpr ⟨(hk.ne_root hid href).symm, hm⟩,
    ?_, ?_, ?_, ?_, ?_, ?_⟩
  · exact fun hm ↦ hk.zero_notMem ((hmem 0).mp hm).2
  · exact fun hm ↦ hk.threadSg_notMem ((hmem _).mp hm).2
  · exact hk.fresh j hj hlt ((hmem _).mp hm).2
  all_goals
    intro z hz
    obtain ⟨hzi, hzm⟩ := (hmem z).mp hz
  · intro y hy
    refine (hmem y).mpr ⟨?_, hk.held_mem z hzm y hy⟩
    rintro rfl
    exact hnot z hzm hy
  · exact hk.held_type z hzm
  · exact hk.not_self z hzm
  · rw [show (Kobj.removeObj id k).obj z = k.obj z from rfl, hk.ref_eq z hzm]
    exact congrArg (· + _) (refCount_erase hid hheld z).symm
  · intro hp
    obtain ⟨h1, h2⟩ := hk.parent_holds z hzm hp
    refine ⟨(hmem _).mpr ⟨fun he ↦ ?_, h1⟩, h2⟩
    have h2 : z ∈ k.held (k.obj z).koParent := h2
    rw [show (k.obj z).koParent = id from he, hheld] at h2
    exact Multiset.notMem_zero z h2
  · exact hk.grounded z hzm

theorem Inv.removeObj (h : Inv q root e n r k) (hid : id ∈ k.ids) (href : (k.obj id).koRef = 0)
    (hheld : k.held id = 0) : Inv q root e n r (removeObj id k) := by
  have hmem : ∀ z ∈ (Kobj.removeObj id k).ids, z ∈ k.ids := fun z hz ↦ (Finset.mem_erase.mp hz).2
  refine ⟨h.shape.removeObj hid href hheld, fun hq ↦ ?_⟩
  have hb := h.books hq
  exact ⟨fun y hy ↦ hb.single y (hmem y hy), ⟨fun hm ↦ hb.charged.root_inf (hmem _ hm),
    fun z hz ↦ hb.charged.total_lt z (hmem z hz), fun z hz ↦ hb.charged.size z (hmem z hz),
    fun z hz ↦ hb.charged.balance z (hmem z hz), fun z hz ↦ hb.charged.within z (hmem z hz)⟩,
    hb.room.1, fun z hz ↦ hb.room.2 z (hmem z hz)⟩

end AddObj

structure FreshId (id : Nat) (k k' : Store) : Prop where
  notMem : id ∉ k.ids
  ne_zero : id ≠ 0
  ne_threadSg : id ≠ kobjectIdThreadSg
  not_next : ∀ j, k'.handleCounter ≤ j → j < 2 ^ 61 → k'.bf61Encipher j ≠ id
  counter : k' = { k with handleCounter := k'.handleCounter }
  counter_le : k.handleCounter ≤ k'.handleCounter

theorem handleAlloc_wp (hk : Shape root k) :
    Wp handleAlloc k (fun id k' ↦ FreshId id k k') (fun _ k' ↦ k' = k) := by
  unfold Wp handleAlloc
  rcases ha : handleAllocFrom k.bf61Encipher (2 ^ 61 - k.handleCounter) k.handleCounter with
    er | ⟨id, c'⟩
  · rfl
  · obtain ⟨d, h1, rfl, h3, rfl, h5⟩ := handleAllocFrom_ok ha
    have hlt := hk.encipher_lt d (by omega)
    refine ⟨hk.fresh d h1 (by omega), h5, fun he ↦ ?_, fun j hj hjlt he ↦ ?_, rfl, ?_⟩
    · rw [he] at hlt
      exact absurd hlt (by decide)
    · simp only at hj
      have := hk.encipher_inj d j h1 (by omega) (by omega) hjlt h5 he.symm
      omega
    · show k.handleCounter ≤ d + 1
      omega

theorem FreshId.shape (hf : FreshId id k k') (hk : Shape root k) : Shape root k' := by
  rw [hf.counter]
  exact { hk with toIdsOk := hk.toIdsOk.advance hf.counter_le }

theorem Inv.addObj (h : Inv q root e (kobjDiskSize + n) r k) (hf : FreshId id k k')
    (hr : r id = 0) (type : KobjType) : Inv q root e n r (addObj id (newKobject type) k') := by
  have hids : k'.ids = k.ids := by rw [hf.counter]
  have hobj : k'.obj = k.obj := by rw [hf.counter]
  have hkt : ∀ z, k'.total z = k.total z := fun z ↦ by unfold Store.total; rw [hobj]
  have hkh : ∀ z, k'.held z = k.held z := fun z ↦ by unfold Store.held; rw [hobj]
  have hk' := hf.shape h.shape
  have hid : id ∉ k'.ids := hids ▸ hf.notMem
  refine ⟨hk'.addObj hid hf.ne_zero hf.ne_threadSg hf.not_next (held_newKobject type) rfl rfl,
    fun hq ↦ ?_⟩
  have hb := h.books hq
  have hself : (Kobj.addObj id (newKobject type) k').obj id = newKobject type := addObj_self
  have hcase : ∀ z ∈ (Kobj.addObj id (newKobject type) k').ids, z = id ∨ z ≠ id ∧ z ∈ k.ids := by
    intro z hz
    by_cases hzi : z = id
    · exact .inl hzi
    · exact .inr ⟨hzi, hids ▸ Finset.mem_of_mem_insert_of_ne hz hzi⟩
  have hroot : root ≠ id := by
    rintro rfl
    exact h.shape.root_mem.elim hf.ne_zero hf.notMem
  have htid : (Kobj.addObj id (newKobject type) k').total id = kobjDiskSize := by
    unfold Store.total
    rw [hself]
    rfl
  have hbid : (newKobject type).base = kobjDiskSize := by
    rw [base_eq]
    exact congrArg (kobjDiskSize + ·) roundupPage_zero
  refine ⟨?_, ⟨?_, ?_, ?_, ?_, ?_⟩, by have := hb.room.1; omega, ?_⟩
  case refine_2 =>
    intro hm
    rw [total_addObj_other hroot, hkt]
    exact hb.charged.root_inf ((hcase root hm).resolve_left hroot).2
  all_goals
    intro z hz
    rcases hcase z hz with rfl | ⟨hzi, hzm⟩
  · rw [hself]
    intro _ _ _ _ hr
    exact absurd rfl hr
  · rw [addObj_other hzi, hobj]
    exact hb.single z hzm
  · rw [htid]
    decide
  · rw [total_addObj_other hzi, hkt]
    exact hb.charged.total_lt z hzm
  · rw [hself, hbid]
    exact Nat.le_add_right _ _
  · rw [addObj_other hzi, hobj]
    exact hb.charged.size z hzm
  · intro _
    rw [hself, held_addObj_self (held_newKobject type), load_zero, hbid, hr]
    rfl
  · intro hi
    rw [total_addObj_other hzi, hkt] at hi
    rw [addObj_other hzi, hobj, held_addObj_other hzi, hkh, hb.charged.balance z hzm hi]
    congr 2
    refine (load_congr fun a ha ↦ ?_).symm
    rw [total_addObj_other, hkt]
    rintro rfl
    exact hf.notMem (h.shape.held_mem z hzm a ha)
  · intro _
    rw [hself, htid]
    exact le_rfl
  · rw [total_addObj_other hzi, hkt, addObj_other hzi, hobj]
    exact hb.charged.within z hzm
  · intro _
    rw [htid]
    exact hb.room.1
  · rw [total_addObj_other hzi, hkt]
    intro hi
    have := hb.room.2 z hzm hi
    omega

theorem not_above_of_orphan {z : Nat} (hp : (k.obj x).koParent = 0) (hz : z ≠ x) :
    ¬ Above k.up x z := by
  intro h
  rcases above_iff.mp h with rfl | ⟨p, hup, -⟩
  · exact hz rfl
  · exact (Store.up_eq_some.mp hup).1 hp

structure Allocated (q : Prop) (root n : Nat) (r : Nat → Nat) (type : KobjType) (l c : Nat)
    (k : Store) (id : Nat) (k' : Store) : Prop where
  inv : Inv q root 0 n r k'
  ids : k'.ids = insert id k.ids
  notMem : id ∉ k.ids
  new : ∃ used total, k'.obj id = { newKobject type with
    koLabel := update (update (fun _ ↦ 0) .tracking l) .clearance c, koQuotaUsed := used,
    koQuotaTotal := total }
  labels_only : ∀ y ∈ k'.held id, (k'.obj y).koType = .label
  total_new : q → k'.total id ≤ kobjDiskSize +
    ((if l = 0 then 0 else k.total l) + if c = 0 then 0 else k.total c)
  old : ∀ z ∈ k.ids, Same k k' z
  counts : ∀ z ∈ k.ids, (k.obj z).koType ≠ .label → (k'.obj z).koRef = (k.obj z).koRef ∧
    (k'.obj z).koParent = (k.obj z).koParent
  total_old : q → ∀ z ∈ k.ids, k'.total z = k.total z

structure Nascent (q : Prop) (type : KobjType) (labels : KoLabel → Nat) (m : Nat) (k : Store)
    (id : Nat) (k' : Store) : Prop where
  ids : k'.ids = insert id k.ids
  new : ∃ used total, k'.obj id = { newKobject type with
    koLabel := labels, koQuotaUsed := used, koQuotaTotal := total }
  old : ∀ z ∈ k.ids, Same k k' z
  counts : ∀ z ∈ k.ids, (k.obj z).koType ≠ .label → (k'.obj z).koRef = (k.obj z).koRef ∧
    (k'.obj z).koParent = (k.obj z).koParent
  total_new : q → k'.total id ≤ m
  total_old : q → ∀ z ∈ k.ids, k'.total z = k.total z

namespace Nascent

variable {labels : KoLabel → Nat} {k2 : Store}

theorem type_eq (h : Nascent q type labels m k id k') {z : Nat} (hz : z ∈ k.ids) :
    (k'.obj z).koType = (k.obj z).koType := by
  obtain ⟨_, _, _, _, hz⟩ := h.old z hz
  rw [hz]

theorem parent_eq (h : Nascent q type labels m k id k') : (k'.obj id).koParent = 0 := by
  obtain ⟨_, _, hn⟩ := h.new
  rw [hn]
  rfl

theorem ref_eq (h : Nascent q type labels m k id k') : (k'.obj id).koRef = 0 := by
  obtain ⟨_, _, hn⟩ := h.new
  rw [hn]
  rfl

theorem setLabel {idx : KoLabel} (h : Nascent q type labels m k id k') (hid : id ∉ k.ids)
    (hs : LabelSet q id l idx k' k2) (hl : l ≠ 0 → l ∈ k.ids) :
    Nascent q type (update labels idx l) (m + if l = 0 then 0 else k.total l) k id k2 := by
  have hne : ∀ z ∈ k.ids, z ≠ id := fun z hz he ↦ hid (he ▸ hz)
  have hmem : ∀ z ∈ k.ids, z ∈ k'.ids := fun z hz ↦ h.ids ▸ Finset.mem_insert_of_mem hz
  refine ⟨hs.ids.trans h.ids, ?_, fun z hz ↦ ?_, fun z hz hlab ↦ ?_, fun hq ↦ ?_,
    fun hq z hz ↦ ?_⟩
  · obtain ⟨_, _, hn⟩ := h.new
    obtain ⟨used, total, hself⟩ := hs.self
    rw [hn] at hself
    exact ⟨used, total, hself⟩
  · obtain ⟨_, _, _, _, ho⟩ := h.old z hz
    obtain ⟨ref, parent, used, total, hr⟩ := hs.rest z (hne z hz)
    rw [ho] at hr
    exact ⟨ref, parent, used, total, hr⟩
  · obtain ⟨h1, h2⟩ := h.counts z hz hlab
    obtain ⟨h3, h4⟩ := hs.counts z (hmem z hz) (hne z hz) (by rwa [h.type_eq hz])
    exact ⟨h3.trans h1, h4.trans h2⟩
  · have h1 := hs.total_self hq
    have h2 := h.total_new hq
    by_cases hl0 : l = 0
    · simp only [hl0, if_true, Nat.add_zero] at h1 ⊢
      omega
    · rw [if_neg hl0, h.total_old hq l (hl hl0)] at h1
      rw [if_neg hl0]
      omega
  · rw [hs.total_other hq z (not_above_of_orphan h.parent_eq (hne z hz)), h.total_old hq z hz]

end Nascent

end HiStar.Kobj
