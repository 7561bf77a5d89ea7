import HiStar.Kobj.Move

namespace HiStar.Kobj

open Lib Function

variable {root x c : Nat} {k k' : Store} {env : Env}

theorem Inv.ofShape {e n : Nat} {r : Nat → Nat} (h : Shape root k) : Inv False root e n r k :=
  ⟨h, False.elim⟩

/-- The object `x` waits for its end: nobody refers to it, and the fields of its
type refer to nothing. -/
structure Ending (root x : Nat) (k : Store) : Prop extends Shape root k where
  mem : x ∈ k.ids
  ref_zero : (k.obj x).koRef = 0
  typeHeld : (k.obj x).typeHeld = 0

theorem containerGc_ending (h : Shape root k) (hx : x ∈ k.ids) (hr : (k.obj x).koRef = 0)
    (ht : (k.obj x).koType = .container) :
    Wp (containerGc env x) k (fun _ ↦ Ending root x) (Fails (Shape root)) := by
  refine (containerGc_wp (Inv.ofShape h : Inv False root 0 0 noResv k) hx ht).mono
    (fun _ k' ⟨h1, hem, h0⟩ ↦ ?_) fun _ _ he ↦ he.imp_right Inv.shape
  obtain ⟨slots, used, hself⟩ := hem.self
  refine ⟨h1.shape, by rwa [hem.ids], by rw [hself]; exact hr, ?_⟩
  rw [Kobject.typeHeld_container ((hem.type x).trans ht)]
  refine List.sum_eq_zero fun m hm ↦ ?_
  obtain ⟨cs, hcs, rfl⟩ := List.mem_map.mp hm
  obtain ⟨i, hi, rfl⟩ := List.getElem_of_mem hcs
  refine slotRef_zero ?_
  simpa [Kobject.slot, hi] using h0 i

theorem threadGc_ending (h : Shape root k) (hx : x ∈ k.ids) (hr : (k.obj x).koRef = 0)
    (ht : (k.obj x).koType = .thread) :
    Wp (threadGc env x) k (fun _ ↦ Ending root x) (Fails (Shape root)) := by
  unfold threadGc
  refine wp_deref hx (Wp.when (fun hb ↦ ?_) fun hb ↦ ?_)
  · have hsg : (k.obj x).thSg ≠ 0 := of_decide_eq_true hb
    have hmem : (k.obj x).thSg ∈ k.held x := by
      unfold Store.held Kobject.held
      rw [Kobject.typeHeld_thread ht, idRef_of_ne hsg]
      simp
    have hsgm := h.held_mem x hx _ hmem
    have hne : x ≠ (k.obj x).thSg := fun he ↦ h.not_self x hx (by rwa [← he] at hmem)
    refine wp_read (fun sg hget ↦ ?_) fun _ _ ↦ .inr h
    have htr := (kobjectGet_ok hget).1
    rw [h.translate hsgm, Except.ok.injEq] at htr
    subst htr
    have hheld : (k.obj x).held = (k.obj x).thSg ::ₘ (setThSg 0 (k.obj x)).held := by
      have hh := held_setThSg (k.obj x) ht 0
      rw [idRef_of_ne hsg, Kobject.idRef, if_pos rfl, add_zero] at hh
      rw [← hh, Multiset.add_comm, Multiset.singleton_add]
    refine Wp.bind ((kobjectDecref_wp hsgm hne).mono (fun _ k1 hk1 ↦ ?_) fun _ _ he ↦ .inl he)
    obtain ⟨href, hd⟩ := hk1
    have hu := unlink_of_decref hd (refsOnly_setThSg 0) (fun _ _ ↦ rfl) hne href hheld
    refine Wp.modify ⟨h.unlink hu hx, hu.ids ▸ hx, ?_, ?_⟩
    · have := hu.ref x
      rw [hr, if_neg hne] at this
      exact this.symm
    · rw [Kobject.typeHeld_thread ((hu.type x).trans ht), Store.mapObj_obj, if_pos rfl]
      rfl
  · have hsg : (k.obj x).thSg = 0 := by simpa using hb
    refine ⟨h, hx, hr, ?_⟩
    rw [Kobject.typeHeld_thread ht, hsg]
    rfl

theorem gcByType_ending (h : Shape root k) (hx : x ∈ k.ids) (hr : (k.obj x).koRef = 0) :
    Wp (gcByType env x (k.obj x).koType) k (fun _ ↦ Ending root x) (Fails (Shape root)) := by
  rcases ht : (k.obj x).koType
  case container => exact containerGc_ending h hx hr ht
  case thread => exact threadGc_ending h hx hr ht
  case dead => exact Wp.fail (.inl (.inl rfl))
  all_goals exact Wp.pure ⟨h, hx, hr, by unfold Kobject.typeHeld; rw [ht]⟩

theorem gcDropLabels_ending (l : List KoLabel) (h : Ending root x k) :
    Wp (gcDropLabels x l) k
      (fun _ k' ↦ Ending root x k' ∧ (∀ i ∈ l, (k'.obj x).koLabel i = 0) ∧
        ∀ i, (k.obj x).koLabel i = 0 → (k'.obj x).koLabel i = 0)
      (Fails (Shape root)) := by
  induction l generalizing k with
  | nil => exact Wp.pure ⟨h, fun i hi ↦ absurd hi List.not_mem_nil, fun _ h0 ↦ h0⟩
  | cons i l ih =>
    unfold gcDropLabels dropLabel
    refine wp_deref h.mem (Wp.bind (Wp.bind ((dropLabel_wp
      (Inv.ofShape h.toShape : Inv False root 0 0 noResv k) h.mem).mono
      (fun _ k1 ⟨h1, hrel⟩ ↦ Wp.pure ?_) fun _ _ he ↦ .inl he)))
    obtain ⟨used, hself⟩ := hrel.self
    have hend : Ending root x k1 := by
      refine ⟨h1.shape, hrel.ids ▸ h.mem, ?_, ?_⟩ <;> rw [hself]
      · exact h.ref_zero
      · exact h.typeHeld
    have hlabel : ∀ j, (k1.obj x).koLabel j = if j = i then 0 else (k.obj x).koLabel j := by
      intro j
      rw [hself]
      exact update_apply (k.obj x).koLabel i 0 j
    refine (ih hend).imp fun _ k2 ⟨h2, hall, hkeep⟩ ↦ ⟨h2, fun j hj ↦ ?_, fun j hj ↦ ?_⟩
    · rcases List.mem_cons.mp hj with rfl | hj
      · exact hkeep j (by rw [hlabel, if_pos rfl])
      · exact hall j hj
    · refine hkeep j ?_
      rw [hlabel, hj, ite_self]

theorem Ending.retire (h : Ending root x k) (hlabels : ∀ i, (k.obj x).koLabel i = 0) :
    Shape root (k.mapObj x Kobj.retire) := by
  have hheld : ∀ z, (k.mapObj x Kobj.retire).held z = k.held z := by
    intro z
    unfold Store.held
    rw [k.mapObj_obj]
    split
    next hz =>
      subst hz
      exact congrArg (· + _) h.typeHeld.symm
    next => rfl
  have hzero : k.held x = 0 := by
    unfold Store.held Kobject.held
    rw [h.typeHeld, zero_add]
    exact Finset.sum_eq_zero fun i _ ↦ by rw [hlabels]; rfl
  have hnot : ∀ z ∈ k.ids, x ∉ k.held z := fun z hz ↦ h.not_held_of_ref_zero h.mem h.ref_zero hz
  have hobj : ∀ z, ((k.mapObj x Kobj.retire).obj z).koRef = (k.obj z).koRef ∧
      ((k.mapObj x Kobj.retire).obj z).koParent = (k.obj z).koParent := by
    intro z
    rw [k.mapObj_obj]
    split <;> exact ⟨rfl, rfl⟩
  have htype : ∀ z, z ≠ x → ((k.mapObj x Kobj.retire).obj z).koType = (k.obj z).koType := by
    intro z hz
    rw [k.mapObj_obj, if_neg hz]
  have hparent : (k.mapObj x Kobj.retire).ctParent = k.ctParent := by
    funext z
    unfold Store.ctParent
    by_cases hz : z = x
    · rw [(hobj z).2, hz, h.parent_of_ref_zero h.mem h.ref_zero]
      simp
    · rw [(hobj z).2, htype z hz]
  refine ⟨⟨h.zero_notMem, h.threadSg_notMem, h.encipher_lt, h.encipher_inj, h.fresh⟩, h.root_mem,
    fun a ha b hb ↦ ?_, fun a ha b hb ↦ ?_, fun a ha ↦ ?_, fun b hb ↦ ?_, fun b hb ↦ ?_,
    fun a ha ↦ ?_⟩
  · rw [hheld] at hb
    exact h.held_mem a ha b hb
  · rw [hheld] at hb
    have hax : a ≠ x := by
      rintro rfl
      rw [hzero] at hb
      exact Multiset.notMem_zero b hb
    rw [htype a hax, htype b fun hbx ↦ hnot a ha (hbx ▸ hb)]
    exact h.held_type a ha b hb
  · rw [hheld]
    exact h.not_self a ha
  · rw [(hobj b).1, refCount_congr fun a _ ↦ hheld a]
    exact h.ref_eq b hb
  · rw [(hobj b).2, hheld]
    exact h.parent_holds b hb
  · rw [hparent]
    exact h.grounded a ha

theorem kobjectGc_wp (h : Shape root k) (hx : x ∈ k.ids) (hr : (k.obj x).koRef = 0) :
    Wp (kobjectGc env x) k (fun _ ↦ Shape root) (Fails (Shape root)) := by
  unfold kobjectGc
  refine wp_deref hx (wp_read (fun _ _ ↦ ?_) fun _ _ ↦ .inr h)
  refine Wp.seq (gcByType_ending h hx hr) fun _ k1 h1 ↦ ?_
  refine Wp.seq (gcDropLabels_ending koLabels h1) fun _ k2 ⟨h2, hall, _⟩ ↦ ?_
  refine Wp.modify (h2.retire fun i ↦ hall i ?_)
  cases i <;> simp [koLabels]

theorem tolerate_wp {f : Sys Unit} {P : Store → Prop} (h : Wp f k (fun _ ↦ P) (Fails P)) :
    Wp (tolerate f) k (fun _ ↦ P) fun e _ ↦ Stopped e := by
  unfold Wp at h ⊢
  unfold tolerate
  rcases hf : f k with ⟨e | _, t⟩ <;> rw [hf] at h
  · by_cases hs : Stopped e
    · simp only [hs, if_true]
    · simp only [hs, if_false]
      exact h.resolve_left hs
  · exact h

theorem Shape.held_dead (h : Shape root k) (hx : x ∈ k.ids) (ht : (k.obj x).koType = .dead) :
    k.held x = 0 := by
  refine Multiset.eq_zero_of_forall_notMem fun y hy ↦ ?_
  have := h.held_type x hx y hy
  rw [ht] at this
  exact this

structure Collectable (env : Env) (P : Store → Prop) : Prop where
  gc : ∀ k x, P k → x ∈ k.ids → (k.obj x).koRef = 0 → Wp (kobjectGc env x) k (fun _ ↦ P) (Fails P)
  remove : ∀ k x, P k → x ∈ k.ids → (k.obj x).koRef = 0 → (k.obj x).koType = .dead →
    P (removeObj x k)
  cur : ∀ k t, P k → P { k with curThread := t }

namespace Collectable

variable {P : Store → Prop}

theorem visit (hP : Collectable env P) (h : P k) :
    Wp (gcVisit env x) k (fun _ ↦ P) fun e _ ↦ Stopped e := by
  by_cases hx : x ∈ k.ids ∧ (k.obj x).koRef = 0 ∧ env.koPin x = false
  · obtain ⟨hm, hr, -⟩ := id hx
    by_cases ht : (k.obj x).koType = .dead
    · by_cases hd : env.koOnDisk x = true
      · refine Wp.congr (d := pure ()) ?_ h
        simp [gcVisit, hx, ht, hd]
      · refine Wp.congr (d := Exec.modify (removeObj x)) ?_ (Wp.modify (hP.remove k x h hm hr ht))
        simp [gcVisit, hx, ht, hd]
    · refine Wp.congr (d := tolerate (kobjectGc env x)) ?_ (tolerate_wp (hP.gc k x h hm hr))
      simp [gcVisit, hx, ht]
  · refine Wp.congr (d := pure ()) ?_ h
    simp [gcVisit, hx]

theorem visitAll (hP : Collectable env P) (l : List Nat) (h : P k) :
    Wp (gcVisitAll env l) k (fun _ ↦ P) fun e _ ↦ Stopped e := by
  induction l generalizing k with
  | nil => exact Wp.pure h
  | cons x l ih => exact Wp.seq (hP.visit h) fun _ _ h1 ↦ ih h1

theorem scan (hP : Collectable env P) (h : P k) :
    Wp (kobjectGcScan env) k (fun _ ↦ P) fun e _ ↦ Stopped e := by
  refine Wp.bind (wp_modify (Wp.seq (hP.visitAll env.gcVisits (hP.cur k 0 h))
    fun _ k1 h1 ↦ Wp.modify (hP.cur k1 _ h1)))

end Collectable

theorem Shape.setCurThread (h : Shape root k) (t : Nat) : Shape root { k with curThread := t } :=
  h.of_sameRefs ⟨⟨rfl, rfl, rfl, fun _ ↦ rfl, fun _ ↦ rfl⟩, fun _ ↦ rfl, fun _ ↦ rfl, fun _ ↦ rfl⟩

theorem kobjectGcScan_wp (h : Shape root k) :
    Wp (kobjectGcScan env) k (fun _ ↦ Shape root) fun e _ ↦ Stopped e :=
  Collectable.scan ⟨fun _ _ h hx hr ↦ kobjectGc_wp h hx hr,
    fun _ _ h hx hr ht ↦ h.removeObj hx hr (h.held_dead hx ht), fun _ t h ↦ h.setCurThread t⟩ h

end HiStar.Kobj
