import HiStar.Kobj.Reserve

namespace HiStar.Kobj

open Lib Function

variable {q : Prop} {root e n m x y : Nat} {r : Nat → Nat} {k k' : Store} {env : Env}

theorem mapObj_mapObj (k : Store) (x : Nat) (f g : Kobject → Kobject) :
    (k.mapObj x f).mapObj x g = k.mapObj x (g ∘ f) := by
  simp [Store.mapObj]

/-- `kobject_incref_resv` counts the reference and charges it to the reservation;
the only failure is that of its assertion. -/
theorem kobjectIncrefResv_wp {nb : Nat} (hx : x ∈ k.ids) (hy : y ∈ k.ids) :
    Wp (kobjectIncrefResv y ⟨x, nb⟩) k
      (fun qr' k' ↦ k' = k.mapObj y (gainRef x) ∧ qr'.qrKo = x ∧
        (k.total x ≠ ctQuotaInf → k.total y ≤ nb ∧ qr'.qrNbytes = nb - k.total y))
      (fun e _ ↦ Stopped e) := by
  have htot : ∀ z, (k.mapObj y fun o ↦ { o with koRef := o.koRef + 1 }).total z = k.total z :=
    total_mapObj fun _ ↦ rfl
  unfold kobjectIncrefResv kobjectQresTake
  refine wp_modify (Wp.bind (wp_deref hx ?_))
  have hend : ∀ qr' : QuotaResv, ((k.mapObj y fun o ↦ { o with koRef := o.koRef + 1 }).mapObj y
      fun o ↦ { o with koParent := x }) = k.mapObj y (gainRef x) := fun _ ↦ mapObj_mapObj _ _ _ _
  by_cases hi : k.total x = ctQuotaInf
  · rw [if_neg]
    · exact Wp.pure (wp_modify (Wp.pure ⟨hend ⟨x, nb⟩, rfl, fun h ↦ absurd hi h⟩))
    · exact not_not.mpr ((htot x).trans hi)
  · rw [if_pos]
    · refine wp_deref hy (wp_require (fun hb ↦ ?_) fun _ ↦ .inl rfl)
      have hle : k.total y ≤ nb := (htot y) ▸ of_decide_eq_true hb
      refine Wp.pure (wp_modify (Wp.pure ⟨hend ⟨x, nb⟩, rfl, fun _ ↦ ⟨hle, ?_⟩⟩))
      exact congrArg (nb - ·) (htot y)
    · exact fun h ↦ hi ((htot x).symm.trans h)

structure Decref (x y : Nat) (k k' : Store) : Prop where
  ids : k'.ids = k.ids
  counter : k'.handleCounter = k.handleCounter
  encipher : k'.bf61Encipher = k.bf61Encipher
  self : k'.obj x = Kobject.subUsed (k.total y) (k.obj x)
  target : k'.obj y = loseRef x (k.obj y)
  other : ∀ z, z ≠ x → z ≠ y → k'.obj z = k.obj z

theorem threadOnDecref_obj (y : Nat) (k : Store) : (threadOnDecref y k).obj = k.obj ∧
    (threadOnDecref y k).ids = k.ids ∧ (threadOnDecref y k).handleCounter = k.handleCounter ∧
    (threadOnDecref y k).bf61Encipher = k.bf61Encipher := by
  unfold threadOnDecref
  split <;> exact ⟨rfl, rfl, rfl, rfl⟩

theorem kobjectDecref_wp (hy : y ∈ k.ids) (hne : x ≠ y) :
    Wp (kobjectDecref y x) k (fun _ k' ↦ (k.obj y).koRef ≠ 0 ∧ Decref x y k k')
      (fun e _ ↦ Stopped e) := by
  unfold kobjectDecref
  refine wp_deref hy (wp_require (fun hr ↦ ?_) fun _ ↦ .inl rfl)
  have hr : (k.obj y).koRef ≠ 0 := of_decide_eq_true hr
  refine wp_modify (wp_modify (wp_modify (Wp.modify ⟨hr, ?_⟩)))
  obtain ⟨hobj, hids, hcounter, hencipher⟩ := threadOnDecref_obj y
    (((k.mapObj y fun o ↦ { o with koRef := o.koRef - 1 }).mapObj x
      (Kobject.subUsed (k.obj y).koQuotaTotal)).mapObj y
      fun o ↦ { o with koParent := if x = o.koParent then 0 else o.koParent })
  refine ⟨hids, hcounter, hencipher, ?_, ?_, fun z hzx hzy ↦ ?_⟩ <;>
    rw [hobj] <;> simp only [Store.mapObj_obj]
  · simp [hne, Store.total]
  · simp [Ne.symm hne, loseRef]
  · simp [hzx, hzy]

theorem unlink_of_decref {f : Kobject → Kobject} (h : Decref x y k k') (hf : RefsOnly f)
    (hcomm : ∀ t o, f (Kobject.subUsed t o) = Kobject.subUsed t (f o)) (hne : x ≠ y)
    (hr : (k.obj y).koRef ≠ 0) (hheld : (k.obj x).held = y ::ₘ (f (k.obj x)).held) :
    Unlink x y k (k'.mapObj x f) := by
  refine unlink_of hf hne hr hheld h.ids h.counter h.encipher ?_ ?_ fun z hzx hzy ↦ ?_ <;>
    rw [Store.mapObj_obj]
  · rw [if_pos rfl, h.self, hcomm]
  · rw [if_neg (Ne.symm hne), h.target]
  · rw [if_neg hzx, h.other z hzx hzy]

section Label

variable {idx : KoLabel} {oldLabel newLabel nb : Nat}

theorem idRef_of_ne {id : Nat} (h : id ≠ 0) : Kobject.idRef id = {id} := if_neg h

theorem mem_held_label {o : Kobject} (h : o.koLabel idx ≠ 0) : o.koLabel idx ∈ o.held := by
  unfold Kobject.held
  rw [sum_koLabel]
  cases idx <;> simp [idRef_of_ne h]

/-- What giving `x` another label leaves alone. Only the objects in `touched`
are counted differently. -/
structure Relabel (x newLabel : Nat) (idx : KoLabel) (touched : Nat → Prop) (k k' : Store) : Prop
    extends Frame k k' where
  total : ∀ z, k'.total z = k.total z
  other : ∀ z, z ≠ x → ¬ touched z → k'.obj z = k.obj z
  rest : ∀ z, z ≠ x → ∃ ref parent, k'.obj z = { k.obj z with koRef := ref, koParent := parent }
  self : ∃ used, k'.obj x = { setLabelId idx newLabel (k.obj x) with koQuotaUsed := used }

theorem setLabelId_self {o : Kobject} (h : o.koLabel idx = 0) : setLabelId idx 0 o = o := by
  unfold setLabelId
  rw [← h, update_eq_self]

theorem dropOld_wp (h : Inv q root e n r k) (hx : x ∈ k.ids)
    (hold : (k.obj x).koLabel idx = oldLabel) :
    Wp (Exec.when (decide (oldLabel ≠ 0)) (kobjectDecref oldLabel x)) k
      (fun _ k' ↦ Inv q root e n r (k'.mapObj x (setLabelId idx 0)) ∧
        Relabel x 0 idx (· = oldLabel) k (k'.mapObj x (setLabelId idx 0)))
      (fun e _ ↦ Stopped e) := by
  refine Wp.when (fun hb ↦ ?_) fun hb ↦ ?_
  · have h0 : oldLabel ≠ 0 := of_decide_eq_true hb
    have hmem : oldLabel ∈ k.held x := hold ▸ mem_held_label (hold ▸ h0)
    have hne : x ≠ oldLabel := fun he ↦ h.shape.not_self x hx (he ▸ hmem)
    have hheld : (k.obj x).held = oldLabel ::ₘ (setLabelId idx 0 (k.obj x)).held := by
      have hh := held_setLabelId (k.obj x) idx 0
      rw [hold, idRef_of_ne h0, Kobject.idRef, if_pos rfl, add_zero] at hh
      rw [← hh, Multiset.add_comm, Multiset.singleton_add]
    refine (kobjectDecref_wp (h.shape.held_mem x hx _ hmem) hne).imp fun _ k1 ⟨hr, hd⟩ ↦ ?_
    have hu := unlink_of_decref hd (refsOnly_setLabelId idx 0) (fun _ _ ↦ rfl) hne hr hheld
    refine ⟨h.unlink hu hx, hu.toFrame, hu.total, fun z hz1 hz2 ↦ ?_, fun z hz ↦ ?_, ?_⟩
    · rw [Store.mapObj_obj, if_neg hz1, hd.other z hz1 hz2]
    · rw [Store.mapObj_obj, if_neg hz]
      by_cases hzo : z = oldLabel
      · subst hzo
        exact ⟨_, _, hd.target⟩
      · exact ⟨_, _, hd.other z hz hzo⟩
    · refine ⟨sub64 (k.obj x).koQuotaUsed (k.total oldLabel), ?_⟩
      rw [Store.mapObj_obj, if_pos rfl, hd.self]
      rfl
  · have h0 : oldLabel = 0 := by simpa using hb
    have hsame : k.mapObj x (setLabelId idx 0) = k := by
      unfold Store.mapObj
      rw [setLabelId_self (hold.trans h0), update_eq_self]
    rw [hsame]
    refine ⟨h, ⟨rfl, rfl, rfl, fun _ ↦ rfl, fun _ ↦ rfl⟩, fun _ ↦ rfl, fun _ _ _ ↦ rfl,
      fun z _ ↦ ⟨_, _, rfl⟩, (k.obj x).koQuotaUsed, ?_⟩
    rw [setLabelId_self (hold.trans h0)]

end Label

end HiStar.Kobj
