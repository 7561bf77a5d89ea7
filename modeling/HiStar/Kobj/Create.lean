import HiStar.Kobj.Allocate

namespace HiStar.Kobj

open Lib Function

variable {q : Prop} {root e n m x y id : Nat} {r : Nat → Nat} {k k' : Store} {env : Env}
  {type : KobjType} {l c : Nat}

variable {used total : Nat}

theorem held_of_labels {o : Kobject} {labels : KoLabel → Nat}
    (ho : o = { newKobject type with
      koLabel := labels, koQuotaUsed := used, koQuotaTotal := total }) :
    o.held = ∑ i, Kobject.idRef (labels i) := by
  subst ho
  show (newKobject type).typeHeld + _ = _
  rw [typeHeld_newKobject, zero_add]

theorem update_none (idx : KoLabel) : update (fun _ : KoLabel ↦ 0) idx 0 = fun _ ↦ 0 :=
  update_eq_self idx _

theorem Inv.discard (h : Inv q root e n r k) (hid : id ∈ k.ids) (href : (k.obj id).koRef = 0)
    (ho : k.obj id = { newKobject type with
      koLabel := fun _ ↦ 0, koQuotaUsed := used, koQuotaTotal := total }) :
    Inv q root e n r (Kobj.removeObj id k) := by
  refine h.removeObj hid href ?_
  unfold Store.held
  rw [held_of_labels ho]
  simp [Kobject.idRef]

theorem mayHold_label (hd : type ≠ .dead) (hl : type ≠ .label) : MayHold type .label := by
  cases type <;> simp_all [MayHold]

theorem dropNew_wp {idx : KoLabel} {labels : KoLabel → Nat}
    (h : Inv q root e n r k) (hid : id ∈ k.ids) (ho : k.obj id = { newKobject type with
      koLabel := labels, koQuotaUsed := used, koQuotaTotal := total }) :
    Wp (dropLabel id idx l) k (fun _ k' ↦ Inv q root e n r k' ∧ k'.ids = k.ids ∧
      ∃ used total, k'.obj id = { newKobject type with
        koLabel := update labels idx 0, koQuotaUsed := used, koQuotaTotal := total })
      (fun e _ ↦ Stopped e) := by
  unfold dropLabel
  refine Wp.seq (dropLabel_wp h hid) fun _ k1 ⟨h1, h2⟩ ↦ Wp.pure ⟨h1, h2.ids, ?_⟩
  obtain ⟨used, hself⟩ := h2.self
  rw [ho] at hself
  exact ⟨used, total, hself⟩

theorem kobjectAlloc_wp (h : Inv q root 0 (m + n) r k) (hr : ∀ z, z ∉ k.ids → r z = 0)
    (hty : type ≠ .dead)
    (hl : l ≠ 0 → l ∈ k.ids ∧ (k.obj l).koType = .label)
    (hc : c ≠ 0 → c ∈ k.ids ∧ (k.obj c).koType = .label)
    (hm : q → kobjDiskSize + ((if l = 0 then 0 else k.total l) + if c = 0 then 0 else k.total c)
      ≤ m) :
    Wp (kobjectAlloc env type l c) k (Allocated q root n r type l c k)
      (Fails (Inv q root 0 n r)) := by
  have hinv : Inv q root 0 n r k := h.mono (Nat.le_add_left n m)
  unfold kobjectAlloc
  refine wp_require (fun ha1 ↦ ?_) fun _ ↦ .inl (.inl rfl)
  refine wp_require (fun ha2 ↦ ?_) fun _ ↦ .inl (.inl rfl)
  refine wp_read (fun _ _ ↦ ?_) fun _ _ ↦ .inr hinv
  refine Wp.bind ((handleAlloc_wp h.shape).mono (fun id k1 hf ↦ ?_) fun _ _ he ↦ .inr (he ▸ hinv))
  refine wp_modify ?_
  have htl : l ≠ 0 → MayHold type .label := fun h0 ↦ mayHold_label hty (by simpa [h0] using ha1)
  have htc : c ≠ 0 → MayHold type .label := by
    intro h0
    simp only [h0, decide_false, bne_iff_ne, ne_eq, decide_eq_false_iff_not, not_not] at ha2
    exact mayHold_label hty (by rcases ha2 with rfl | rfl <;> decide)
  -- the budget is spent on the object and on its two labels
  have h0 : Inv q root 0 (kobjDiskSize + ((if l = 0 then 0 else k.total l) +
      ((if c = 0 then 0 else k.total c) + n))) r k :=
    ⟨h.shape, fun hq ↦ (h.mono (by have := hm hq; omega)).books hq⟩
  have h2 := h0.addObj hf (hr id hf.notMem) type
  set k2 := addObj id (newKobject type) k1 with hk2
  have hne : ∀ z ∈ k.ids, z ≠ id := fun z hz he ↦ hf.notMem (he ▸ hz)
  have hobj : k1.obj = k.obj := by rw [hf.counter]
  have hn2 : Nascent q type (fun _ ↦ 0) kobjDiskSize k id k2 := by
    have hold : ∀ z ∈ k.ids, k2.obj z = k.obj z := fun z hz ↦ by
      rw [hk2, addObj_other (hne z hz), hobj]
    have hself : k2.obj id = newKobject type := addObj_self
    refine ⟨by rw [hk2, hf.counter]; rfl, ⟨_, _, hself⟩, fun z hz ↦ ⟨_, _, _, _, hold z hz⟩,
      fun z hz _ ↦ by rw [hold z hz]; exact ⟨rfl, rfl⟩, fun _ ↦ ?_, fun _ z hz ↦ ?_⟩
    · unfold Store.total
      rw [hself]
      exact le_rfl
    · unfold Store.total
      rw [hold z hz]
  have hlab2 : l ≠ 0 → l ∈ k2.ids ∧ (k2.obj l).koType = .label ∧
      MayHold (k2.obj id).koType .label := by
    intro hl0
    obtain ⟨hlm, hlt⟩ := hl hl0
    refine ⟨hn2.ids ▸ Finset.mem_insert_of_mem hlm, by rw [hn2.type_eq hlm, hlt], ?_⟩
    obtain ⟨_, _, hn⟩ := hn2.new
    rw [hn]
    exact htl hl0
  have hid2 : id ∈ k2.ids := hn2.ids ▸ Finset.mem_insert_self id _
  refine Wp.bind (wp_onError ((kobjectSetLabel_wp h2 hid2 hlab2 (fun hq hl0 ↦ ?_) fun _ ↦
    hr id hf.notMem).mono (fun _ k3 h3 ↦ ?_) fun e k3 he ↦ he.imp_right fun h3 ↦ Wp.modify ?_))
  · rw [if_neg hl0, hn2.total_old hq l (hl hl0).1]
  swap
  · obtain ⟨h3, hqo⟩ := h3
    obtain ⟨_, _, hn⟩ := hn2.new
    have ho := hqo.obj id
    rw [hn] at ho
    exact (h3.mono (Nat.le_add_left n _)).discard (hqo.ids ▸ hid2)
      (by rw [hqo.sameRefs.ref, hn2.ref_eq]) ho
  obtain ⟨h3, hs3⟩ := h3
  have hn3 := hn2.setLabel hf.notMem hs3 fun h0 ↦ (hl h0).1
  have hid3 : id ∈ k3.ids := hn3.ids ▸ Finset.mem_insert_self id _
  have hlab3 : c ≠ 0 → c ∈ k3.ids ∧ (k3.obj c).koType = .label ∧
      MayHold (k3.obj id).koType .label := by
    intro hc0
    obtain ⟨hcm, hct⟩ := hc hc0
    refine ⟨hn3.ids ▸ Finset.mem_insert_of_mem hcm, by rw [hn3.type_eq hcm, hct], ?_⟩
    obtain ⟨_, _, hn⟩ := hn3.new
    rw [hn]
    exact htc hc0
  refine Wp.bind (wp_onError ((kobjectSetLabel_wp h3 hid3 hlab3 (fun hq hc0 ↦ ?_) fun _ ↦
    hr id hf.notMem).mono (fun _ k4 h4 ↦ ?_) fun e k4 he ↦ he.imp_right fun h4 ↦ ?_))
  · rw [if_neg hc0, hn3.total_old hq c (hc hc0).1]
  swap
  · obtain ⟨h4, hqo⟩ := h4
    obtain ⟨_, _, hn⟩ := hn3.new
    have ho := hqo.obj id
    rw [hn] at ho
    refine Wp.bind ((dropNew_wp h4 (hqo.ids ▸ hid3) ho).mono (fun _ k5 hd ↦ ?_)
      fun _ _ he ↦ .inl he)
    obtain ⟨h5, hi5, _, _, ho5⟩ := hd
    rw [update_idem, update_none] at ho5
    exact Wp.modify (h5.discard (by rw [hi5, hqo.ids]; exact hid3) (by rw [ho5]; rfl) ho5)
  obtain ⟨h4, hs4⟩ := h4
  have hn4 := hn3.setLabel hf.notMem hs4 fun h0 ↦ (hc h0).1
  have hid4 : id ∈ k4.ids := hn4.ids ▸ Finset.mem_insert_self id _
  obtain ⟨_, _, hn⟩ := hn4.new
  have hdone : Allocated q root n r type l c k id k4 := by
    refine ⟨h4, hn4.ids, hf.notMem, ⟨_, _, hn⟩, fun y hy ↦ ?_, fun hq ↦ ?_, hn4.old, hn4.counts,
      hn4.total_old⟩
    · have hy' : y ∈ (k4.obj id).held := hy
      rw [held_of_labels hn, sum_koLabel] at hy'
      have hcase : y = l ∧ l ≠ 0 ∨ y = c ∧ c ≠ 0 := by
        by_cases hl0 : l = 0 <;> by_cases hc0 : c = 0 <;>
          simp_all [Kobject.idRef]
      rcases hcase with ⟨rfl, h0⟩ | ⟨rfl, h0⟩
      · rw [hn4.type_eq (hl h0).1, (hl h0).2]
      · rw [hn4.type_eq (hc h0).1, (hc h0).2]
    · have := hn4.total_new hq
      omega
  refine Wp.bind (wp_onError (Wp.when (fun _ ↦ Wp.read (fun _ _ ↦ Wp.pure hdone)
    fun _ _ ↦ .inr ?_) fun _ ↦ Wp.pure hdone))
  refine Wp.bind ((dropNew_wp h4 hid4 hn).mono (fun _ k5 hd ↦ ?_) fun _ _ he ↦ .inl he)
  obtain ⟨h5, hi5, _, _, ho5⟩ := hd
  refine Wp.bind ((dropNew_wp h5 (hi5 ▸ hid4) ho5).mono (fun _ k6 hd ↦ ?_) fun _ _ he ↦ .inl he)
  obtain ⟨h6, hi6, _, _, ho6⟩ := hd
  rw [update_idem, update_comm (by decide), update_idem, update_none, update_none] at ho6
  exact Wp.modify (h6.discard (by rw [hi6, hi5]; exact hid4) (by rw [ho6]; rfl) ho6)

end HiStar.Kobj
