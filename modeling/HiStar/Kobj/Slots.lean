import HiStar.Kobj.Create

namespace HiStar.Kobj

open Lib Function

variable {q : Prop} {root e n m x y c i : Nat} {r : Nat → Nat} {k k' : Store} {env : Env}

theorem containerSlotRead_ok (h : containerSlotRead c y k = .ok i) :
    i < (k.obj c).ctSlots.length ∧ ((k.obj c).slot i).csId = y ∧ 0 < ((k.obj c).slot i).csRef := by
  unfold containerSlotRead at h
  split at h
  next j hj =>
    cases h
    obtain ⟨hlt, hp, -⟩ := List.findIdx?_eq_some_iff_getElem.mp hj
    have hs : (k.obj c).slot i = (k.obj c).ctSlots[i] := by simp [Kobject.slot, hlt]
    rw [hs]
    exact ⟨hlt, by simpa using hp⟩
  next => cases h

theorem containerSlotFind_ok (h : containerSlotFind env c y k = .ok i) :
    i < (k.obj c).ctSlots.length ∧ ((k.obj c).slot i).csId = y ∧ 0 < ((k.obj c).slot i).csRef := by
  unfold containerSlotFind at h
  split at h
  next j hj =>
    obtain ⟨_, -, h⟩ := except_bind_ok h
    cases h
    exact containerSlotRead_ok (by rw [containerSlotRead, hj])
  next =>
    obtain ⟨_, -, h⟩ := except_bind_ok h
    cases h

variable {cs : CtSlot} {o : Kobject}

theorem slotRef_pos (h : 0 < cs.csRef) : Kobject.slotRef cs = {cs.csId} :=
  if_neg (by omega)

theorem slotRef_zero (h : cs.csRef = 0) : Kobject.slotRef cs = 0 := if_pos h

theorem slot_lt (h : 0 < (o.slot i).csRef) : i < o.ctSlots.length := by
  by_contra hge
  simp [Kobject.slot, List.getD, List.getElem?_eq_none (Nat.le_of_not_lt hge)] at h

theorem mem_held_slot (ht : o.koType = .container) (h : 0 < (o.slot i).csRef) :
    (o.slot i).csId ∈ o.held := by
  have hh := held_setSlot o ht (slot_lt h) {}
  rw [slotRef_pos h, slotRef_zero rfl, add_zero] at hh
  rw [← hh]
  simp

theorem RefsOnly.sameRefs {f : Kobject → Kobject} (hf : RefsOnly f)
    (hheld : (f (k.obj c)).held = (k.obj c).held) : SameRefs k (k.mapObj c f) :=
  sameRefs_mapObj (fun o ↦ ⟨hf.type o, hf.ref o, hf.parent o, hf.fixed o⟩) hheld

theorem Inv.mapObj_same (h : Inv q root e n r k) {f : Kobject → Kobject} (hf : RefsOnly f)
    (hheld : (f (k.obj c)).held = (k.obj c).held) : Inv q root e n r (k.mapObj c f) := by
  have hs := hf.sameRefs hheld
  have htot : ∀ z, (k.mapObj c f).total z = k.total z := total_mapObj hf.total
  have hobj : ∀ z, ((k.mapObj c f).obj z).koQuotaUsed = (k.obj z).koQuotaUsed ∧
      ((k.mapObj c f).obj z).base = (k.obj z).base := by
    intro z
    rw [k.mapObj_obj]
    split
    · exact ⟨hf.used _, hf.base _⟩
    · exact ⟨rfl, rfl⟩
  refine ⟨h.shape.of_sameRefs hs, fun hq ↦ ?_⟩
  have hb := h.books hq
  refine ⟨hb.single.of_sameRefs hs, hb.charged.congr rfl hs.held htot (fun z _ _ ↦ ?_)
    (fun z hz hi ↦ ?_) fun z hz ↦ ?_, hb.room.of_total rfl htot⟩
  · rw [(hobj z).1, (hobj z).2]
  · rw [(hobj z).1]
    exact hb.charged.within z hz hi
  · rw [(hobj z).2]
    exact hb.charged.size z hz

theorem held_setSlot_same (ht : o.koType = .container) (hi : i < o.ctSlots.length)
    (h : Kobject.slotRef cs = Kobject.slotRef (o.slot i)) : (setSlot i cs o).held = o.held := by
  have hh := held_setSlot o ht hi cs
  rw [h] at hh
  exact Multiset.add_right_inj.mp (by rw [Multiset.add_comm, hh, Multiset.add_comm])

/-- What dropping one reference of slot `i` does: the object is let go with the
last one. -/
structure SlotDropped (c i y : Nat) (k k' : Store) : Prop where
  ids : k'.ids = k.ids
  self : ∃ used, k'.obj c = { setSlot i ⟨((k.obj c).slot i).csId, ((k.obj c).slot i).csRef - 1⟩
    (k.obj c) with koQuotaUsed := used }
  refs : ((k.obj c).slot i).csRef ≠ 1 ∧ SameRefs k k' ∨
    ((k.obj c).slot i).csRef = 1 ∧ Unlink c y k k'

theorem containerSlotDecref_wp (h : Inv q root e n r k) (hc : c ∈ k.ids)
    (ht : (k.obj c).koType = .container)
    (hy : ((k.obj c).slot i).csId = y) (hr : 0 < ((k.obj c).slot i).csRef) :
    Wp (containerSlotDecref c i y) k
      (fun _ k' ↦ Inv q root e n r k' ∧ SlotDropped c i y k k') (fun e _ ↦ Stopped e) := by
  have hi := slot_lt hr
  have hmem : y ∈ k.held c := hy ▸ mem_held_slot ht hr
  have hne : c ≠ y := fun he ↦ h.shape.not_self c hc (he ▸ hmem)
  have hym := h.shape.held_mem c hc y hmem
  unfold containerSlotDecref
  refine wp_deref hc (wp_modify (Wp.when (fun hb ↦ ?_) fun hb ↦ ?_))
  · have h1 : ((k.obj c).slot i).csRef = 1 := by
      have := of_decide_eq_true hb
      omega
    set k1 := k.mapObj c (setSlot i ⟨((k.obj c).slot i).csId, ((k.obj c).slot i).csRef - 1⟩) with hk1
    have hy1 : k1.obj y = k.obj y := by rw [hk1, k.mapObj_obj, if_neg (Ne.symm hne)]
    have ht1 : k1.total y = k.total y := by unfold Store.total; rw [hy1]
    refine (kobjectDecref_wp (k := k1) hym hne).imp fun _ k' ⟨href, hd⟩ ↦ ?_
    have hself : k'.obj c = Kobject.subUsed (k.total y)
        (setSlot i ⟨((k.obj c).slot i).csId, ((k.obj c).slot i).csRef - 1⟩ (k.obj c)) := by
      rw [hd.self, ht1, hk1, k.mapObj_obj, if_pos rfl]
    have hu : Unlink c y k k' := by
      refine unlink_of (refsOnly_setSlot i _) hne (hy1 ▸ href) ?_ hd.ids hd.counter hd.encipher hself
        (by rw [hd.target, hy1]) fun z h1 h2 ↦ ?_
      · have hh := held_setSlot (k.obj c) ht hi ⟨((k.obj c).slot i).csId, ((k.obj c).slot i).csRef - 1⟩
        rw [slotRef_pos hr, slotRef_zero (by simp [h1]), add_zero, hy] at hh
        rw [← hh, Multiset.add_comm, Multiset.singleton_add, hy]
      · rw [hd.other z h1 h2, hk1, k.mapObj_obj, if_neg h1]
    exact ⟨h.unlink hu hc, hd.ids, ⟨_, hself⟩, .inr ⟨h1, hu⟩⟩
  · have h1 : ((k.obj c).slot i).csRef - 1 ≠ 0 := of_decide_eq_false hb
    have hcs : Kobject.slotRef ⟨((k.obj c).slot i).csId, ((k.obj c).slot i).csRef - 1⟩ =
        Kobject.slotRef ((k.obj c).slot i) := by
      rw [slotRef_pos hr, slotRef_pos (by show 0 < _ - 1; omega)]
    have hf := refsOnly_setSlot i ⟨((k.obj c).slot i).csId, ((k.obj c).slot i).csRef - 1⟩
    have hheld := held_setSlot_same ht hi hcs
    refine ⟨h.mapObj_same hf hheld, rfl, ⟨(k.obj c).koQuotaUsed, ?_⟩,
      .inl ⟨by omega, hf.sameRefs hheld⟩⟩
    rw [k.mapObj_obj, if_pos rfl]
    rfl

theorem containerUnref_wp (h : Inv q root e n r k) (hc : c ∈ k.ids)
    (ht : (k.obj c).koType = .container) :
    Wp (containerUnref env c y false) k (fun _ k' ↦ Inv q root e n r k' ∧
        ∃ i, containerSlotFind env c y k = .ok i ∧ SlotDropped c i y k k')
      (Fails fun k' ↦ k' = k ∧ ∃ e, containerSlotFind env c y k = .error e) := by
  unfold containerUnref
  refine wp_read (fun i hi ↦ ?_) fun e he ↦ .inr ⟨rfl, e, he⟩
  obtain ⟨-, hid, hr⟩ := containerSlotFind_ok hi
  exact (containerSlotDecref_wp h hc ht hid hr).mono (fun _ k' ⟨h1, h2⟩ ↦ ⟨h1, i, hi, h2⟩)
    fun _ _ he ↦ .inl he

end HiStar.Kobj
