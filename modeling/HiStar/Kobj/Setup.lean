import HiStar.Kobj.Boot
import HiStar.Kobj.Gc

namespace HiStar.Kobj

open Lib Function

variable {q : Prop} {root e n m x y c id nbytes : Nat} {r : Nat → Nat} {k k' k'' : Store} {env : Env}
  {type : KobjType} {l cl : Nat}

structure Kept (q : Prop) (k k' : Store) : Prop where
  mem : ∀ z ∈ k.ids, z ∈ k'.ids
  type : ∀ z ∈ k.ids, (k'.obj z).koType = (k.obj z).koType
  label_total : q → ∀ z ∈ k.ids, (k.obj z).koType = .label → k'.total z = k.total z

theorem Kept.trans (h : Kept q k k') (h' : Kept q k' k'') : Kept q k k'' where
  mem z hz := h'.mem z (h.mem z hz)
  type z hz := (h'.type z (h.mem z hz)).trans (h.type z hz)
  label_total hq z hz ht :=
    (h'.label_total hq z (h.mem z hz) ((h.type z hz).trans ht)).trans (h.label_total hq z hz ht)

theorem Frame.kept (h : Frame k k')
    (ht : q → ∀ z ∈ k.ids, (k.obj z).koType = .label → k'.total z = k.total z) : Kept q k k' :=
  ⟨fun z hz ↦ by rwa [h.ids], fun z _ ↦ h.type z, ht⟩

structure Unplaced (type : KobjType) (id : Nat) (k : Store) : Prop where
  mem : id ∈ k.ids
  type_eq : (k.obj id).koType = type
  ref_zero : (k.obj id).koRef = 0
  labels_only : ∀ y ∈ k.held id, (k.obj y).koType = .label

theorem Unplaced.ne {x : Nat} {ty : KobjType} (h : Unplaced type id k)
    (hx : (k.obj x).koType = ty) (hne : ty ≠ type) : x ≠ id := by
  rintro rfl
  exact hne (hx.symm.trans h.type_eq)

theorem Unplaced.of_sameRefs (h : Unplaced type id k) (hs : SameRefs k k') :
    Unplaced type id k' where
  mem := by rw [hs.ids]; exact h.mem
  type_eq := (hs.type id).trans h.type_eq
  ref_zero := (hs.ref id).trans h.ref_zero
  labels_only y hy := by
    rw [hs.held] at hy
    rw [hs.type]
    exact h.labels_only y hy

theorem Allocated.unplaced (h : Allocated q root n r type l cl k id k') : Unplaced type id k' := by
  obtain ⟨_, _, hn⟩ := h.new
  refine ⟨h.ids ▸ Finset.mem_insert_self id _, ?_, ?_, h.labels_only⟩ <;> rw [hn] <;> rfl

theorem Allocated.kept (h : Allocated q root n r type l cl k id k') : Kept q k k' := by
  refine ⟨fun z hz ↦ h.ids ▸ Finset.mem_insert_of_mem hz, fun z hz ↦ ?_,
    fun hq z hz _ ↦ h.total_old hq z hz⟩
  obtain ⟨_, _, _, _, hz⟩ := h.old z hz
  rw [hz]

theorem Resized.kept (h : Resized q x nbytes k k') (hk : Shape root k) (hx : x ∈ k.ids)
    (hl : (k.obj x).koType ≠ .label) : Kept q k k' :=
  h.sameRefs.toFrame.kept fun hq _ hz ht ↦ h.total_other hq _ (hk.not_above_label hx hl hz ht)

theorem addref_wp (h : Inv q root 0 (pgsize + (m + n)) noResv k) (hc : c ∈ k.ids)
    (ht : (k.obj c).koType = .container) (hy : y ∈ k.ids) (hm : q → k.total y ≤ m)
    (hcy : (k.obj y).koType = .container → ¬ Above k.ctParent c y) :
    Wp (containerPut env c y 0) k
      (fun _ k' ↦ Inv q root 0 n noResv k' ∧ Kept q k k' ∧ ∀ z, z ≠ c → Same k k' z)
      (Fails (Inv q root 0 n noResv)) := by
  have hcl : (k.obj c).koType ≠ .label := by rw [ht]; decide
  refine (containerPut_wp h hc ht hy hm hcy).imp fun _ k' hp ↦ ?_
  have htot : q → ∀ z ∈ k.ids, (k.obj z).koType = .label → k'.total z = k.total z :=
    fun hq z hz hl ↦ hp.total_other hq z (h.shape.not_above_label hc hcl hz hl)
  rcases hp.refs with ⟨h1, hs⟩ | ⟨-, h1, hl⟩
  · exact ⟨h1, hs.toFrame.kept htot, hp.same⟩
  · exact ⟨h1, hl.toFrame.kept htot, hp.same⟩

theorem Unplaced.not_ctParent (hu : Unplaced type id k) (hk : Shape root k) (hc : c ∈ k.ids)
    (ht : (k.obj c).koType = .container) (hne : c ≠ id) : ¬ Above k.ctParent c id := fun ha ↦
  hk.not_above_of_held hc (by rw [ht]; decide) hne.symm hu.labels_only (Shape.above_up ha)

section SetTotal

variable {avoid : KobjType → Bool} {t : Nat}

theorem sameRefs_setTotal : SameRefs k (k.mapObj x (setTotal avoid t)) :=
  sameRefs_mapObj (fun _ ↦ ⟨rfl, rfl, rfl, rfl⟩) rfl

theorem Inv.setTotal (h : Inv q root e n r k) (hx : x ∈ k.ids) (hr : (k.obj x).koRef = 0)
    (ht : q → t < 2 ^ 64 ∧ (t ≠ ctQuotaInf → k.total x ≠ ctQuotaInf ∧ k.total x ≤ t ∧
      t + n < 2 ^ 64)) :
    Inv q root e n r (k.mapObj x (Kobj.setTotal avoid t)) := by
  have hs : SameRefs k (k.mapObj x (Kobj.setTotal avoid t)) := sameRefs_setTotal
  refine ⟨h.shape.of_sameRefs hs, fun hq ↦ ?_⟩
  have hb := h.books hq
  obtain ⟨hlt, hle⟩ := ht hq
  refine ⟨hb.single.of_sameRefs hs, hb.charged.update_orphan h.shape hx hr rfl hlt
    (hb.charged.size x hx) (fun hi ↦ ?_) (fun hi ↦ ?_), hb.room.1, fun z hz hi ↦ ?_⟩
  · exact hb.charged.balance x hx (hle hi).1
  · exact (hb.charged.within x hx (hle hi).1).trans (hle hi).2.1
  · unfold Store.total at hi ⊢
    rw [Store.mapObj_obj] at hi ⊢
    split at hi
    next hzx => rw [if_pos hzx]; exact (hle hi).2.2
    next hzx => rw [if_neg hzx]; exact hb.room.2 z hz hi

end SetTotal

end HiStar.Kobj
