import HiStar.Kobj.Lookup

namespace HiStar.Kobj

open Lib Function

variable {α β : Type} {k k' k'' : Store} {env : Env}

structure Calm (k k' : Store) : Prop where
  ids : k'.ids = k.ids
  counter : k'.handleCounter = k.handleCounter
  encipher : k'.bf61Encipher = k.bf61Encipher
  type : ∀ z, (k'.obj z).koType = (k.obj z).koType
  avoid : ∀ z, (k'.obj z).ctAvoidTypes = (k.obj z).ctAvoidTypes
  slots : ∀ c y, Slotted c y k' → Slotted c y k

namespace Calm

theorem refl (k : Store) : Calm k k :=
  ⟨rfl, rfl, rfl, fun _ ↦ rfl, fun _ ↦ rfl, fun _ _ h ↦ h⟩

theorem trans (h : Calm k k') (h' : Calm k' k'') : Calm k k'' where
  ids := h'.ids.trans h.ids
  counter := h'.counter.trans h.counter
  encipher := h'.encipher.trans h.encipher
  type z := (h'.type z).trans (h.type z)
  avoid z := (h'.avoid z).trans (h.avoid z)
  slots c y hy := h.slots c y (h'.slots c y hy)

theorem mapObj {x : Nat} {f : Kobject → Kobject} (ht : (f (k.obj x)).koType = (k.obj x).koType)
    (ha : (f (k.obj x)).ctAvoidTypes = (k.obj x).ctAvoidTypes)
    (hs : ∀ cs ∈ (f (k.obj x)).ctSlots, 0 < cs.csRef →
      ∃ cs' ∈ (k.obj x).ctSlots, cs'.csId = cs.csId ∧ 0 < cs'.csRef) : Calm k (k.mapObj x f) := by
  refine ⟨rfl, rfl, rfl, fun z ↦ ?_, fun z ↦ ?_, ?_⟩
  · rw [Store.mapObj_obj]
    split
    next hz => rw [hz, ht]
    next => rfl
  · rw [Store.mapObj_obj]
    split
    next hz => rw [hz, ha]
    next => rfl
  · rintro c y ⟨cs, hcs, rfl, hr⟩
    rw [Store.mapObj_obj] at hcs
    split at hcs
    next hc =>
      subst hc
      exact hs cs hcs hr
    next => exact ⟨cs, hcs, rfl, hr⟩

end Calm

instance : Std.Refl Calm := ⟨Calm.refl⟩

instance : IsTrans Store Calm := ⟨fun _ _ _ h h' ↦ h.trans h'⟩

abbrev Quietly (f : Sys α) : Prop := Rel Calm f

/-- An update of an object that is not about its slots. -/
class SlotsKept (f : Kobject → Kobject) : Prop where
  kept : ∀ o, (f o).koType = o.koType ∧ (f o).ctAvoidTypes = o.ctAvoidTypes ∧
    (f o).ctSlots = o.ctSlots

instance (ref parent total : Kobject → Nat) : SlotsKept fun o ↦
    { o with koRef := ref o, koParent := parent o, koQuotaTotal := total o } :=
  ⟨fun _ ↦ ⟨rfl, rfl, rfl⟩⟩

instance (n : Nat) : SlotsKept (Kobject.addTotal n) := ⟨fun _ ↦ ⟨rfl, rfl, rfl⟩⟩

instance (n : Nat) : SlotsKept (Kobject.addUsed n) := ⟨fun _ ↦ ⟨rfl, rfl, rfl⟩⟩

instance (n : Nat) : SlotsKept (Kobject.subUsed n) := ⟨fun _ ↦ ⟨rfl, rfl, rfl⟩⟩

instance (n : Nat) : SlotsKept (setSize n) := ⟨fun _ ↦ ⟨rfl, rfl, rfl⟩⟩

instance (so : Kobject) : SlotsKept (takePages so) := ⟨fun _ ↦ ⟨rfl, rfl, rfl⟩⟩

instance (idx : KoLabel) (l : Nat) : SlotsKept (setLabelId idx l) := ⟨fun _ ↦ ⟨rfl, rfl, rfl⟩⟩

instance (sg : Nat) : SlotsKept (setThSg sg) := ⟨fun _ ↦ ⟨rfl, rfl, rfl⟩⟩

instance : SlotsKept pinRoot := ⟨fun _ ↦ ⟨rfl, rfl, rfl⟩⟩

instance (nbytes : Int) : SlotsKept (moveUsed nbytes) := by
  unfold moveUsed
  split <;> infer_instance

instance (x : Nat) (f : Kobject → Kobject) [h : SlotsKept f] : Quietly (modifyObj x f) :=
  ⟨fun k ↦ Calm.mapObj (h.kept _).1 (h.kept _).2.1 fun cs hcs hr ↦
    ⟨cs, (h.kept (k.obj x)).2.2 ▸ hcs, rfl, hr⟩⟩

instance (x : Nat) : Quietly (deref x) := .read _

instance (f : Sys α) (g : Sys Unit) [hf : Quietly f] [Quietly g] : Quietly (onError f g) :=
  ⟨fun k ↦ by
    have h := hf.rel k
    unfold onError
    rcases hk : f k with ⟨e | a, k'⟩ <;> rw [hk] at h
    · dsimp only
      split
      · exact h
      · exact h.trans (Rel.rel k')
    · exact h⟩

instance (limit ko nbytes : Nat) (again : Bool) :
    Quietly (kobjectBorrowParentQuotaOne env limit ko nbytes again) := by
  induction limit generalizing ko nbytes again with
  | zero => exact .fail _
  | succ limit ih =>
    unfold kobjectBorrowParentQuotaOne borrowResult
    refine .bind_of inferInstance fun _ ↦ .bind_of inferInstance fun _ ↦ ?_
    split <;> infer_instance

instance (ko nbytes limit : Nat) : Quietly (borrowRounds env ko nbytes limit) := by
  induction limit with
  | zero => exact .fail _
  | succ limit ih =>
    refine ⟨fun k ↦ ?_⟩
    have h : Calm k (kobjectBorrowParentQuotaOne env env.chainLimit ko nbytes false k).2 :=
      Rel.rel k
    unfold borrowRounds
    split
    next k' hk =>
      rw [hk] at h
      exact h.trans (ih.rel k')
    next => exact h

instance (ko nbytes : Nat) : Quietly (kobjectBorrowParentQuota env ko nbytes) := by
  unfold kobjectBorrowParentQuota
  infer_instance

instance (ko nbytes : Nat) : Quietly (kobjectSetNbytes env ko nbytes) := by
  unfold kobjectSetNbytes
  infer_instance

instance (src dst : Nat) : Quietly (kobjectCopyPages env src dst) := by
  unfold kobjectCopyPages
  infer_instance

instance (sg nbytes : Nat) : Quietly (segmentSetNbytes env sg nbytes) := by
  unfold segmentSetNbytes
  infer_instance

instance (qr : QuotaResv) (ko : Nat) : Quietly (kobjectQresReserve env qr ko) := by
  unfold kobjectQresReserve
  infer_instance

instance (qr : QuotaResv) (ko : Nat) : Quietly (kobjectQresTake qr ko) := by
  unfold kobjectQresTake
  infer_instance

instance (qr : QuotaResv) : Quietly (kobjectQresRelease qr) := by
  unfold kobjectQresRelease
  infer_instance

instance (ko : Nat) (qr : QuotaResv) : Quietly (kobjectIncrefResv ko qr) := by
  unfold kobjectIncrefResv
  infer_instance

instance (ko refholder : Nat) : Quietly (kobjectIncref env ko refholder) := by
  unfold kobjectIncref
  infer_instance

instance (ko : Nat) : Quietly (Exec.modify (threadOnDecref ko)) := ⟨fun k ↦ by
  simp only [modify_apply, threadOnDecref]
  split
  · exact ⟨rfl, rfl, rfl, fun _ ↦ rfl, fun _ ↦ rfl, fun _ _ h ↦ h⟩
  · exact .refl k⟩

instance (ko refholder : Nat) : Quietly (kobjectDecref ko refholder) := by
  unfold kobjectDecref
  infer_instance

instance (kp : Nat) (idx : KoLabel) (oldLabel newLabel : Nat) (qr : QuotaResv) :
    Quietly (kobjectSetLabelPrepared kp idx oldLabel newLabel qr) := by
  unfold kobjectSetLabelPrepared
  infer_instance

instance (id : Nat) (idx : KoLabel) (l : Nat) : Quietly (dropLabel id idx l) := by
  unfold dropLabel
  infer_instance

instance (kp : Nat) (idx : KoLabel) (newLabel : Nat) :
    Quietly (kobjectSetLabel env kp idx newLabel) := by
  unfold kobjectSetLabel
  infer_instance

instance (l n : Nat) : Quietly (labelGrow env l n) := by
  induction n with
  | zero => exact .pure _
  | succ n ih =>
    unfold labelGrow
    infer_instance

instance (c : Nat) : Quietly (modifyObj c addSlots) := ⟨fun k ↦ by
  refine .mapObj rfl rfl fun cs hcs hr ↦ ?_
  rcases List.mem_append.mp hcs with h | h
  · exact ⟨cs, h, rfl, hr⟩
  · rw [List.eq_of_mem_replicate h] at hr
    exact absurd hr (lt_irrefl 0)⟩

instance (c : Nat) : Quietly (containerSlotAlloc env c) := by
  refine .bind_of inferInstance fun o ↦ ?_
  split <;> infer_instance

instance (c ko : Nat) : Quietly (containerSlotFor env c ko) := ⟨fun k ↦ by
  unfold containerSlotFor
  split
  · exact Rel.rel k
  · exact .refl k⟩

theorem setSlot_calm {c i n : Nat} (h : 0 < n → 0 < ((k.obj c).slot i).csRef) :
    Calm k (k.mapObj c (setSlot i ⟨((k.obj c).slot i).csId, n⟩)) := by
  refine .mapObj rfl rfl fun cs hcs hr ↦ ?_
  rcases List.mem_or_eq_of_mem_set hcs with hold | rfl
  · exact ⟨cs, hold, rfl, hr⟩
  · have hpos := h hr
    rw [Kobject.slot, List.getD_eq_getElem?_getD] at hpos ⊢
    rcases hi : (k.obj c).ctSlots[i]? with _ | cs
    · rw [hi] at hpos
      exact absurd hpos (lt_irrefl 0)
    · rw [hi] at hpos
      exact ⟨cs, List.mem_of_getElem? hi, rfl, hpos⟩

instance (c i ko : Nat) : Quietly (containerSlotDecref c i ko) := ⟨fun k ↦ by
  unfold containerSlotDecref
  by_cases hc : c ∈ k.ids
  · rw [deref_bind hc]
    exact (setSlot_calm fun h ↦ by omega).trans
      ((inferInstance : Quietly (Exec.when _ (kobjectDecref ko c))).rel _)
  · rw [bind_apply, deref, read_apply, if_neg hc]
    exact .refl k⟩

instance (c ko : Nat) (preponly : Bool) : Quietly (containerUnref env c ko preponly) := by
  unfold containerUnref
  infer_instance

instance (c i n : Nat) : Quietly (gcSlot env c i n) := by
  induction n with
  | zero => exact .pure _
  | succ n ih =>
    unfold gcSlot
    infer_instance

instance (c : Nat) (l : List Nat) : Quietly (gcSlots env c l) := by
  induction l with
  | nil => exact .pure _
  | cons i l ih =>
    unfold gcSlots
    infer_instance

instance (c : Nat) : Quietly (containerGc env c) := by
  unfold containerGc
  infer_instance

instance (t : Nat) : Quietly (threadGc env t) := by
  unfold threadGc
  infer_instance

instance (ko : Nat) (type : KobjType) : Quietly (gcByType env ko type) := by
  cases type <;> unfold gcByType <;> infer_instance

instance (ko : Nat) (l : List KoLabel) : Quietly (gcDropLabels ko l) := by
  induction l with
  | nil => exact .pure _
  | cons i l ih =>
    unfold gcDropLabels
    infer_instance

instance (t sg sgNew thLabel sgLabel newLabel : Nat) (qrTh qrSg : QuotaResv) :
    Quietly (threadCommitLabel t sg sgNew thLabel sgLabel newLabel qrTh qrSg) := by
  unfold threadCommitLabel
  infer_instance

instance (t sg sgNew thLabel sgLabel newLabel : Nat) :
    Quietly (threadReserveLabel env t sg sgNew thLabel sgLabel newLabel) := by
  unfold threadReserveLabel
  infer_instance

instance (parentId childId : Nat) (nbytes : Int) :
    Quietly (sysContainerMoveQuota env parentId childId nbytes) := by
  unfold sysContainerMoveQuota
  infer_instance

end HiStar.Kobj
