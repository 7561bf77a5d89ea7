import HiStar.Kobj.Slots

namespace HiStar.Kobj

open Lib Function

variable {q : Prop} {root e n m x y c i : Nat} {r : Nat → Nat} {k k' k'' : Store} {env : Env}

structure Emptied (c : Nat) (k k' : Store) : Prop extends Frame k k' where
  self : ∃ slots used, k'.obj c = { k.obj c with ctSlots := slots, koQuotaUsed := used }
  length : (k'.obj c).ctSlots.length = (k.obj c).ctSlots.length
  zero : ∀ j, ((k.obj c).slot j).csRef = 0 → ((k'.obj c).slot j).csRef = 0

theorem Emptied.refl (c : Nat) (k : Store) : Emptied c k k :=
  ⟨⟨rfl, rfl, rfl, fun _ ↦ rfl, fun _ ↦ rfl⟩, ⟨_, _, rfl⟩, rfl, fun _ h ↦ h⟩

theorem Emptied.trans (h : Emptied c k k') (h' : Emptied c k' k'') : Emptied c k k'' := by
  refine ⟨⟨h'.ids.trans h.ids, h'.counter.trans h.counter, h'.encipher.trans h.encipher,
    fun z ↦ (h'.type z).trans (h.type z), fun z ↦ (h'.fixed z).trans (h.fixed z)⟩, ?_,
    h'.length.trans h.length, fun j hj ↦ h'.zero j (h.zero j hj)⟩
  obtain ⟨_, _, h1⟩ := h.self
  obtain ⟨slots, used, h2⟩ := h'.self
  rw [h1] at h2
  exact ⟨slots, used, h2⟩

theorem slot_setSlot (o : Kobject) (cs : CtSlot) (hi : i < o.ctSlots.length) (j : Nat) :
    (setSlot i cs o).slot j = if j = i then cs else o.slot j := by
  unfold Kobject.slot setSlot
  simp only [List.getD_eq_getElem?_getD, List.getElem?_set]
  by_cases hji : j = i
  · subst hji
    simp [hi]
  · simp [hji, Ne.symm hji]

theorem SlotDropped.emptied (h : SlotDropped c i y k k') (hi : i < (k.obj c).ctSlots.length) :
    Emptied c k k' ∧ ((k'.obj c).slot i).csRef = ((k.obj c).slot i).csRef - 1 ∧
      ((k'.obj c).slot i).csId = ((k.obj c).slot i).csId := by
  obtain ⟨used, hself⟩ := h.self
  have hslot : ∀ j, (k'.obj c).slot j = if j = i then
      ⟨((k.obj c).slot i).csId, ((k.obj c).slot i).csRef - 1⟩ else (k.obj c).slot j := by
    intro j
    rw [hself]
    exact slot_setSlot (k.obj c) _ hi j
  have hframe : Frame k k' := by
    rcases h.refs with ⟨-, hs⟩ | ⟨-, hu⟩
    · exact hs.toFrame
    · exact hu.toFrame
  refine ⟨⟨hframe, ⟨_, used, hself⟩, ?_, fun j hj ↦ ?_⟩, ?_, ?_⟩
  · rw [hself]
    exact List.length_set
  · rw [hslot]
    split
    next hji => rw [hji] at hj; show _ - 1 = 0; omega
    next => exact hj
  · rw [hslot, if_pos rfl]
  · rw [hslot, if_pos rfl]

theorem gcSlot_wp (j : Nat) (h : Inv q root e n r k) (hc : c ∈ k.ids)
    (ht : (k.obj c).koType = .container) (hj : ((k.obj c).slot i).csRef = j) :
    Wp (gcSlot env c i j) k
      (fun _ k' ↦ Inv q root e n r k' ∧ Emptied c k k' ∧ ((k'.obj c).slot i).csRef = 0)
      (Fails (Inv q root e n r)) := by
  induction j generalizing k with
  | zero => exact Wp.pure ⟨h, .refl c k, hj⟩
  | succ j ih =>
    have hpos : 0 < ((k.obj c).slot i).csRef := by omega
    refine wp_deref hc (wp_read (fun ko hko ↦ ?_) fun _ _ ↦ .inr h)
    have hmem := h.shape.held_mem c hc _ (mem_held_slot ht hpos)
    obtain ⟨htr, -⟩ := kobjectGet_ok hko
    rw [h.shape.translate hmem, Except.ok.injEq] at htr
    refine Wp.bind ((containerSlotDecref_wp h hc ht htr hpos).mono (fun _ k1 ⟨h1, hd⟩ ↦ ?_)
      fun _ _ he ↦ .inl he)
    obtain ⟨hem, href, -⟩ := hd.emptied (slot_lt hpos)
    refine (ih h1 (by rwa [hem.ids]) ((hem.type c).trans ht) (by omega)).imp fun _ k2 ⟨h2, hem2, h0⟩ ↦ ?_
    exact ⟨h2, hem.trans hem2, h0⟩

theorem gcSlots_wp (l : List Nat) (h : Inv q root e n r k) (hc : c ∈ k.ids)
    (ht : (k.obj c).koType = .container) :
    Wp (gcSlots env c l) k
      (fun _ k' ↦ Inv q root e n r k' ∧ Emptied c k k' ∧ ∀ i ∈ l, ((k'.obj c).slot i).csRef = 0)
      (Fails (Inv q root e n r)) := by
  induction l generalizing k with
  | nil => exact Wp.pure ⟨h, .refl c k, fun i hi ↦ absurd hi List.not_mem_nil⟩
  | cons i l ih =>
    refine wp_lift (fun _ _ ↦ ?_) fun _ ↦ .inr h
    refine wp_deref hc (Wp.seq (gcSlot_wp _ h hc ht rfl) fun _ k1 ⟨h1, hem, h0⟩ ↦ ?_)
    refine (ih h1 (by rwa [hem.ids]) ((hem.type c).trans ht)).imp fun _ k2 ⟨h2, hem2, hall⟩ ↦ ?_
    refine ⟨h2, hem.trans hem2, fun j hj ↦ ?_⟩
    rcases List.mem_cons.mp hj with rfl | hj
    · exact hem2.zero j h0
    · exact hall j hj

theorem containerGc_wp (h : Inv q root e n r k) (hc : c ∈ k.ids)
    (ht : (k.obj c).koType = .container) :
    Wp (containerGc env c) k
      (fun _ k' ↦ Inv q root e n r k' ∧ Emptied c k k' ∧ ∀ i, ((k'.obj c).slot i).csRef = 0)
      (Fails (Inv q root e n r)) := by
  refine wp_deref hc ((gcSlots_wp _ h hc ht).imp fun _ k' ⟨h1, hem, hall⟩ ↦ ⟨h1, hem, fun i ↦ ?_⟩)
  by_contra h0
  have hlt := slot_lt (Nat.pos_of_ne_zero h0)
  rw [hem.length] at hlt
  exact h0 (hall i (List.mem_range.mpr hlt))

end HiStar.Kobj
