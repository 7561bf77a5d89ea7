import HiStar.Kobj.Setup

namespace HiStar.Kobj

open Lib Function

variable {q : Prop} {root e n m x y c id src l nbytes : Nat} {r r' : Nat → Nat} {k k' : Store}
  {env : Env} {type : KobjType}

theorem Unplaced.not_above (hu : Unplaced type id k) (hk : Shape root k) {z : Nat} (hz : z ≠ id) :
    ¬ Above k.up id z :=
  not_above_of_orphan (hk.parent_of_ref_zero hu.mem hu.ref_zero) hz

theorem kobjectQresRelease_wp {nb : Nat} (h : Inv q root e n r' k)
    (hm : q → k.total x ≠ ctQuotaInf → r' x = r x + nb) (hr : q → ∀ z, z ≠ x → r' z = r z) :
    Wp (kobjectQresRelease ⟨x, nb⟩) k
      (fun _ k' ↦ Inv q root e n r k' ∧ QuotaOnly k k' ∧ ∀ z, k'.total z = k.total z)
      (fun e _ ↦ Stopped e) := by
  have hqo : QuotaOnly k (k.mapObj x (Kobject.subUsed nb)) := .mapObj fun _ ↦ rfl
  have htot : ∀ z, (k.mapObj x (Kobject.subUsed nb)).total z = k.total z :=
    total_mapObj fun _ ↦ rfl
  refine Wp.modify ⟨⟨h.shape.of_sameRefs hqo.sameRefs, fun hq ↦ ?_⟩, hqo, htot⟩
  exact ⟨(h.books hq).single.of_sameRefs hqo.sameRefs,
    (h.books hq).charged.release (fun _ ↦ hm hq) (hr hq), (h.books hq).room.of_total rfl htot⟩

theorem sameRefs_takePages (so : Kobject) : SameRefs k (k.mapObj x (takePages so)) :=
  sameRefs_mapObj (fun _ ↦ ⟨rfl, rfl, rfl, rfl⟩) rfl

theorem Inv.takePages {so : Kobject} (h : Inv q root e (roundupPage so.koNbytes + n) r k)
    (hx : x ∈ k.ids) (hr : (k.obj x).koRef = 0) (h0 : (k.obj x).koNbytes = 0)
    (hso : q → so.base ≤ maxBase)
    (hfin : q → k.total x + roundupPage so.koNbytes < ctQuotaInf) :
    Inv q root e n r (k.mapObj x (Kobj.takePages so)) := by
  have hs : SameRefs k (k.mapObj x (Kobj.takePages so)) := sameRefs_takePages so
  refine ⟨h.shape.of_sameRefs hs, fun hq ↦ ?_⟩
  have hb := h.books hq
  have hfin := hfin hq
  have hi : k.total x ≠ ctQuotaInf := by omega
  have hroom := hb.room.2 x hx hi
  have htot : (Kobj.takePages so (k.obj x)).koQuotaTotal = k.total x + roundupPage so.koNbytes :=
    add64_eq (show k.total x + _ < 2 ^ 64 by omega)
  have hle := hb.charged.within x hx hi
  have hused : (Kobj.takePages so (k.obj x)).koQuotaUsed =
      (k.obj x).koQuotaUsed + roundupPage so.koNbytes := add64_eq (by omega)
  have hbase : (Kobj.takePages so (k.obj x)).base = so.base := rfl
  refine ⟨hb.single.of_sameRefs hs, hb.charged.update_orphan h.shape hx hr rfl ?_ ?_ (fun _ ↦ ?_)
    (fun _ ↦ ?_), (hb.room.mono (Nat.le_add_left n _)).1, fun z hz hzi ↦ ?_⟩
  · rw [htot]
    omega
  · exact hso hq
  · have hbal := hb.charged.balance x hx hi
    rw [base_eq, h0, roundupPage_zero] at hbal
    rw [hused, hbase, base_eq]
    omega
  · rw [hused, htot]
    omega
  · unfold Store.total at hzi ⊢
    rw [Store.mapObj_obj] at hzi ⊢
    split at hzi
    next hzx =>
      rw [if_pos hzx, hzx, htot]
      omega
    next hzx =>
      rw [if_neg hzx]
      have := hb.room.2 z hz hzi
      unfold Store.total at this
      omega

structure Created (q : Prop) (root n : Nat) (r : Nat → Nat) (size : Nat) (k : Store) (id : Nat)
    (k' : Store) : Prop where
  inv : Inv q root 0 n r k'
  unplaced : Unplaced .segment id k'
  notMem : id ∉ k.ids
  mem : ∀ z ∈ k.ids, z ∈ k'.ids
  old : ∀ z ∈ k.ids, Same k k' z
  total_new : q → k'.total id ≤ size
  total_old : q → ∀ z ∈ k.ids, k'.total z = k.total z

theorem Allocated.created (h : Allocated q root n r .segment l c k id k') :
    Created q root n r (kobjDiskSize + ((if l = 0 then 0 else k.total l) +
      if c = 0 then 0 else k.total c)) k id k' where
  inv := h.inv
  unplaced := h.unplaced
  notMem := h.notMem
  mem _ hz := h.ids ▸ Finset.mem_insert_of_mem hz
  old z hz := h.old z hz
  total_new := h.total_new
  total_old := h.total_old

theorem Created.kept {size : Nat} (h : Created q root n r size k id k') : Kept q k k' := by
  refine ⟨h.mem, fun z hz ↦ ?_, fun hq z hz _ ↦ h.total_old hq z hz⟩
  obtain ⟨_, _, _, _, hz⟩ := h.old z hz
  rw [hz]

theorem Created.change {size size' : Nat} {k'' : Store} (h : Created q root m r size k id k')
    (hinv : Inv q root 0 n r k'') (hs : SameRefs k' k'') (hsame : ∀ z, z ≠ id → Same k' k'' z)
    (hnew : q → k''.total id ≤ size') (hold : q → ∀ z, z ≠ id → k''.total z = k'.total z) :
    Created q root n r size' k id k'' := by
  have hne : ∀ z ∈ k.ids, z ≠ id := fun z hz he ↦ h.notMem (he ▸ hz)
  exact ⟨hinv, h.unplaced.of_sameRefs hs, h.notMem, fun z hz ↦ hs.ids ▸ h.mem z hz,
    fun z hz ↦ (h.old z hz).trans (hsame z (hne z hz)), hnew,
    fun hq z hz ↦ (hold hq z (hne z hz)).trans (h.total_old hq z hz)⟩

theorem Created.resize {size : Nat} (h : Created q root (m + n) r size k id k')
    (hm : q → roundupPage nbytes ≤ m) :
    Wp (kobjectSetNbytes env id nbytes) k'
      (fun _ k'' ↦ Created q root n r (size + roundupPage nbytes) k id k'' ∧
        (k''.obj id).koNbytes = nbytes)
      (Fails (Inv q root 0 n r)) := by
  refine (kobjectSetNbytes_wp h.inv h.unplaced.mem (fun hq ↦ (hm hq).trans (Nat.le_add_left _ _))
    fun _ ht ↦ ?_).mono (fun _ k'' ⟨h1, hr⟩ ↦ ⟨?_, ?_⟩) fun _ _ he ↦ he.imp_right And.left
  · rw [h.unplaced.type_eq] at ht
    cases ht
  · refine h.change h1 hr.sameRefs (fun z hz ↦ hr.same hz) (fun hq ↦ ?_) fun hq z hz ↦ ?_
    · have h2 := hr.total_self hq
      have h3 := h.total_new hq
      omega
    · exact hr.total_other hq z (h.unplaced.not_above h.inv.shape hz)
  · rw [hr.obj id, Store.mapObj_obj, if_pos rfl]
    rfl

theorem segmentSetNbytes_wp {size : Nat} (h : Created q root (m + n) r size k id k')
    (hm : q → roundupPage nbytes ≤ m) :
    Wp (segmentSetNbytes env id nbytes) k'
      (fun _ k'' ↦ Created q root n r (size + roundupPage nbytes) k id k'' ∧
        (k''.obj id).koNbytes = nbytes)
      (Fails (Inv q root 0 n r)) := by
  have hinv : Inv q root 0 n r k' := h.inv.mono (Nat.le_add_left n m)
  unfold segmentSetNbytes
  refine wp_deref h.unplaced.mem (wp_require (fun _ ↦ ?_) fun _ ↦ .inr hinv)
  refine Wp.when (fun _ ↦ h.resize hm) fun hb ↦ ⟨?_, by simpa using hb⟩
  exact h.change hinv (.refl k') (fun z _ ↦ (QuotaOnly.refl k').same z)
    (fun hq ↦ (h.total_new hq).trans (Nat.le_add_right _ _)) fun _ _ _ ↦ rfl

theorem segmentCopy_wp (h : Inv q root 0 (m + n) r k) (hr : ∀ z, z ∉ k.ids → r z = 0)
    (hsrc : src ∈ k.ids) (hl : l ≠ 0 → l ∈ k.ids ∧ (k.obj l).koType = .label)
    (hm : q → kobjDiskSize + k.total l + roundupPage (k.obj src).koNbytes ≤ m)
    (hfin : q → kobjDiskSize + k.total l + roundupPage (k.obj src).koNbytes < ctQuotaInf) :
    Wp (segmentCopy env src l) k
      (Created q root n r (kobjDiskSize + k.total l + roundupPage (k.obj src).koNbytes) k)
      (Fails (Inv q root 0 n r)) := by
  have hzero : ∀ a : Nat, (if l = 0 then 0 else a) ≤ a := fun a ↦ by split <;> omega
  have h0 : Inv q root 0 ((kobjDiskSize + k.total l) +
      (0 + (roundupPage (k.obj src).koNbytes + n))) r k :=
    ⟨h.shape, fun hq ↦ (h.mono (by have := hm hq; omega)).books hq⟩
  unfold segmentCopy kobjectCopyPages
  refine Wp.bind ((kobjectAlloc_wp h0 hr (by decide) hl (fun h ↦ absurd rfl h) fun _ ↦ ?_).mono
    (fun id k1 ha ↦ ?_) fun _ _ he ↦ he.imp_right fun he ↦ he.mono (by omega))
  · have := hzero (k.total l)
    rw [if_pos rfl, Nat.add_zero]
    exact Nat.add_le_add_left this _
  refine Wp.bind (Wp.bind ((ha.created.resize fun _ ↦ ?_).mono (fun _ k2 ⟨h2, hn2⟩ ↦ ?_)
    fun _ _ he ↦ he.imp_right fun he ↦ he.mono (by omega)))
  · rw [roundupPage_zero]
  obtain ⟨_, _, _, _, hso⟩ := h2.old src hsrc
  have hnb : (k2.obj src).koNbytes = (k.obj src).koNbytes := by rw [hso]
  have hinv2 : Inv q root 0 n r k2 := h2.inv.mono (by omega)
  refine wp_deref (h2.mem src hsrc) (wp_deref h2.unplaced.mem ?_)
  refine wp_require (fun _ ↦ wp_lift (fun _ _ ↦ wp_modify (Wp.pure ?_)) fun _ ↦ .inr hinv2)
    fun _ ↦ .inr hinv2
  have htot : q → k2.total id ≤ kobjDiskSize + k.total l := fun hq ↦ by
    have h3 := h2.total_new hq
    have h4 := hzero (k.total l)
    rw [roundupPage_zero, if_pos rfl] at h3
    omega
  have hinv3 : Inv q root 0 n r (k2.mapObj id (takePages (k2.obj src))) := by
    refine Inv.takePages (by rw [hnb]; exact h2.inv) h2.unplaced.mem h2.unplaced.ref_zero hn2
      (fun hq ↦ (h2.inv.books hq).charged.size src (h2.mem src hsrc)) fun hq ↦ ?_
    have h3 := htot hq
    have h4 := hfin hq
    rw [hnb]
    omega
  refine h2.change hinv3 (sameRefs_takePages _) (fun z hz ↦ ?_) (fun hq ↦ ?_) fun hq z hz ↦ ?_
  · exact same_mapObj hz
  · have h3 := htot hq
    have h4 := hfin hq
    have h5 : (k2.mapObj id (takePages (k2.obj src))).total id =
        add64 (k2.total id) (roundupPage (k2.obj src).koNbytes) := by
      unfold Store.total
      rw [Store.mapObj_obj, if_pos rfl]
      rfl
    rw [h5, hnb, add64_eq (by unfold ctQuotaInf at h4; omega)]
    omega
  · unfold Store.total
    rw [Store.mapObj_obj, if_neg hz]

end HiStar.Kobj
