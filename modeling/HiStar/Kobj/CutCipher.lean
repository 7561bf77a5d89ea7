import HiStar.Lib.Transport
import HiStar.Handle.Alloc
import HiStar.Kobj.BootRun

namespace HiStar.Kobj

open Lib Function

/-- The store whose cipher is cut off at the counter `top`. -/
def Store.cut (top : Nat) (k : Store) : Store :=
  { k with bf61Encipher := Handle.cutAt top k.bf61Encipher }

def Store.Within (top : Nat) (k : Store) : Prop := k.handleCounter ≤ top

/-- The computation does the same in a store and in its cut. -/
abbrev Cuts (top : Nat) {α : Type} (c : Sys α) : Prop :=
  Transports (Store.cut top) (Store.Within top) c

section Objects

variable {top : Nat} {env : Env}

instance (x : Nat) : Cuts top (deref x) := .read fun _ ↦ rfl

instance : Cuts top curThread := .read fun _ ↦ rfl

instance (x : Nat) (f : Kobject → Kobject) : Cuts top (modifyObj x f) :=
  .modify (fun _ h ↦ h) fun _ ↦ rfl

instance (id : Nat) (o : Kobject) : Cuts top (Exec.modify (addObj id o)) :=
  .modify (fun _ h ↦ h) fun _ ↦ rfl

instance (id : Nat) : Cuts top (Exec.modify (removeObj id)) := .modify (fun _ h ↦ h) fun _ ↦ rfl

instance (t : Nat) : Cuts top (Exec.modify fun k ↦ { k with curThread := t }) :=
  .modify (fun _ h ↦ h) fun _ ↦ rfl

instance (ko : Nat) : Cuts top (Exec.modify (threadOnDecref ko)) :=
  .modify (fun _ h ↦ by unfold threadOnDecref at h; split at h <;> exact h) fun k ↦ by
    unfold threadOnDecref
    rw [apply_ite (Store.cut top)]
    rfl

instance (id : Nat) (type : Option KobjType) (iflow : InfoFlowType) :
    Cuts top (Exec.read (kobjectGet env id type iflow)) := .read fun _ ↦ rfl

instance (x : Nat) (idx : KoLabel) : Cuts top (Exec.read (kobjectGetLabel env x idx)) :=
  .read fun _ ↦ rfl

instance (id : Nat) (iflow : InfoFlowType) :
    Cuts top (Exec.read (kobjectIflowCheck env id iflow)) := .read fun _ ↦ rfl

instance (id : Nat) (iflow : InfoFlowType) : Cuts top (Exec.read (containerFind env id iflow)) :=
  .read fun _ ↦ rfl

instance (container object : Nat) (type : Option KobjType) (iflow : InfoFlowType) :
    Cuts top (Exec.read (cobjGet env container object type iflow)) := .read fun _ ↦ rfl

instance : Cuts top (Exec.read fun k : Store ↦ env.pageAlloc k.handleCounter) := .read fun _ ↦ rfl

instance : Cuts top handleAlloc where
  back k h := by
    unfold handleAlloc at h
    split at h
    next he =>
      obtain ⟨d, h1, rfl, -⟩ := handleAllocFrom_ok he
      unfold Store.Within at h ⊢
      simp only at h
      omega
    next => exact h
  comm k h := by
    unfold handleAlloc at h ⊢
    simp only [Store.cut]
    split at h
    next he => rw [Handle.handleAllocFrom_cutAt he h]
    next he => rw [Handle.handleAllocFrom_cutAt_error he]

instance {α : Type} (c : Sys α) (cleanup : Sys Unit) [Cuts top c] [Cuts top cleanup] :
    Cuts top (onError c cleanup) := by
  refine .of_attempt c (fun r ↦ match r with
    | .ok a => pure a
    | .error e => if Stopped e then Exec.fail e else do cleanup; Exec.fail e) (fun k ↦ ?_)
    (fun _ ↦ inferInstance) fun _ ↦ inferInstance
  unfold onError
  rcases c k with ⟨e | a, k'⟩
  · exact (apply_ite (fun d : Sys α ↦ d k') _ _ _).symm
  · rfl

instance (again : Bool) : Cuts top (borrowResult again) := by
  unfold borrowResult
  infer_instance

instance (limit ko nbytes : Nat) (again : Bool) :
    Cuts top (kobjectBorrowParentQuotaOne env limit ko nbytes again) := by
  induction limit generalizing ko nbytes again with
  | zero => exact .fail _
  | succ limit ih =>
    unfold kobjectBorrowParentQuotaOne
    refine .bind_of inferInstance fun _ ↦ .bind_of inferInstance fun _ ↦ ?_
    split
    · infer_instance
    · repeat refine .bind_of inferInstance fun _ ↦ ?_
      infer_instance

instance (ko nbytes limit : Nat) : Cuts top (borrowRounds env ko nbytes limit) := by
  induction limit with
  | zero => exact .fail _
  | succ limit ih =>
    refine .of_attempt (kobjectBorrowParentQuotaOne env env.chainLimit ko nbytes false)
      (fun r ↦ match r with
        | .ok a => pure a
        | .error e => if e = .again then borrowRounds env ko nbytes limit else Exec.fail e)
      (fun k ↦ ?_) (fun _ ↦ inferInstance) fun _ ↦ inferInstance
    dsimp only [borrowRounds]
    rcases kobjectBorrowParentQuotaOne env env.chainLimit ko nbytes false k with ⟨e | a, k'⟩
    · cases e <;> rfl
    · rfl

instance (ko nbytes : Nat) : Cuts top (kobjectBorrowParentQuota env ko nbytes) := by
  unfold kobjectBorrowParentQuota
  infer_instance

instance (ko nbytes : Nat) : Cuts top (kobjectSetNbytes env ko nbytes) := by
  unfold kobjectSetNbytes
  infer_instance

instance (src dst : Nat) : Cuts top (kobjectCopyPages env src dst) := by
  unfold kobjectCopyPages
  infer_instance

instance (qr : QuotaResv) (ko : Nat) : Cuts top (kobjectQresReserve env qr ko) := by
  unfold kobjectQresReserve
  infer_instance

instance (qr : QuotaResv) (ko : Nat) : Cuts top (kobjectQresTake qr ko) := by
  unfold kobjectQresTake
  infer_instance

instance (qr : QuotaResv) : Cuts top (kobjectQresRelease qr) := by
  unfold kobjectQresRelease
  infer_instance

instance (ko : Nat) (qr : QuotaResv) : Cuts top (kobjectIncrefResv ko qr) := by
  unfold kobjectIncrefResv
  infer_instance

instance (ko refholder : Nat) : Cuts top (kobjectDecref ko refholder) := by
  unfold kobjectDecref
  infer_instance

instance (kp : Nat) (idx : KoLabel) (oldLabel newLabel : Nat) (qr : QuotaResv) :
    Cuts top (kobjectSetLabelPrepared kp idx oldLabel newLabel qr) := by
  unfold kobjectSetLabelPrepared
  infer_instance

instance (kp : Nat) (idx : KoLabel) (newLabel : Nat) :
    Cuts top (kobjectSetLabel env kp idx newLabel) := by
  unfold kobjectSetLabel
  infer_instance

instance (id : Nat) (idx : KoLabel) (l : Nat) : Cuts top (dropLabel id idx l) := by
  unfold dropLabel
  infer_instance

instance (type : KobjType) (l c : Nat) : Cuts top (kobjectAlloc env type l c) := by
  unfold kobjectAlloc
  repeat refine .bind_of inferInstance fun _ ↦ ?_
  infer_instance

end Objects

section Containers

variable {top : Nat} {env : Env}

instance (c : Nat) : Cuts top (containerSlotAlloc env c) := by
  unfold containerSlotAlloc
  refine .bind_of inferInstance fun o ↦ ?_
  split <;> infer_instance

instance (ko refholder : Nat) : Cuts top (kobjectIncref env ko refholder) := by
  unfold kobjectIncref
  infer_instance

instance (c i ko extraRefs : Nat) : Cuts top (containerSlotAddref env c i ko extraRefs) := by
  unfold containerSlotAddref
  infer_instance

instance (c i ko : Nat) : Cuts top (containerSlotDecref c i ko) := by
  unfold containerSlotDecref
  infer_instance

instance (c id : Nat) : Cuts top (Exec.read (containerSlotFind env c id)) := .read fun _ ↦ rfl

instance (c ko : Nat) : Cuts top (containerSlotFor env c ko) := by
  refine .of_attempt (Exec.read (containerSlotFind env c ko)) (fun r ↦ match r with
    | .ok i => pure i
    | .error e => if e = .notFound then containerSlotAlloc env c else Exec.fail e)
    (fun k ↦ ?_) (fun _ ↦ inferInstance) fun _ ↦ inferInstance
  unfold containerSlotFor
  rw [read_apply]
  rcases containerSlotFind env c ko k with e | i
  · cases e <;> rfl
  · rfl

instance (c ko extraRefs : Nat) : Cuts top (containerPut env c ko extraRefs) := by
  unfold containerPut
  infer_instance

instance (c ko : Nat) (preponly : Bool) : Cuts top (containerUnref env c ko preponly) := by
  unfold containerUnref
  infer_instance

instance (c i n : Nat) : Cuts top (gcSlot env c i n) := by
  induction n with
  | zero => exact .pure _
  | succ n ih =>
    unfold gcSlot
    infer_instance

instance (c : Nat) (is : List Nat) : Cuts top (gcSlots env c is) := by
  induction is with
  | nil => exact .pure _
  | cons i is ih =>
    unfold gcSlots
    infer_instance

instance (c : Nat) : Cuts top (containerGc env c) := by
  unfold containerGc
  infer_instance

instance (t : Nat) : Cuts top (threadGc env t) := by
  unfold threadGc
  infer_instance

instance (ko : Nat) (type : KobjType) : Cuts top (gcByType env ko type) := by
  cases type <;> unfold gcByType <;> infer_instance

instance (ko : Nat) (is : List KoLabel) : Cuts top (gcDropLabels ko is) := by
  induction is with
  | nil => exact .pure _
  | cons i is ih =>
    unfold gcDropLabels
    infer_instance

instance (ko : Nat) : Cuts top (Exec.read (gcGetLabels env ko)) := .read fun _ ↦ rfl

instance (ko : Nat) : Cuts top (kobjectGc env ko) := by
  unfold kobjectGc
  infer_instance

instance (c : Sys Unit) [Cuts top c] : Cuts top (tolerate c) := by
  refine .of_attempt c (fun r ↦ match r with
    | .ok a => pure a
    | .error e => if Stopped e then Exec.fail e else pure ()) (fun k ↦ ?_)
    (fun _ ↦ inferInstance) fun _ ↦ inferInstance
  unfold tolerate
  rcases c k with ⟨e | a, k'⟩
  · exact (apply_ite (fun d : Sys Unit ↦ d k') _ _ _).symm
  · rfl

instance (ko : Nat) : Cuts top (gcVisit env ko) := by
  have hread : Cuts top (Exec.read fun k : Store ↦ .ok (k.ids, k.obj)) := .read fun _ ↦ rfl
  refine .of_attempt (Exec.read fun k : Store ↦ .ok (k.ids, k.obj)) (fun r ↦ match r with
    | .ok p =>
      if ko ∈ p.1 ∧ (p.2 ko).koRef = 0 ∧ env.koPin ko = false then
        if (p.2 ko).koType = .dead then
          if env.koOnDisk ko then pure () else Exec.modify (removeObj ko)
        else tolerate (kobjectGc env ko)
      else pure ()
    | .error e => Exec.fail e) (fun k ↦ ?_) (fun _ ↦ inferInstance) fun _ ↦ inferInstance
  unfold gcVisit
  dsimp only [read_apply]
  split
  · split
    · split <;> rfl
    · rfl
  · rfl

instance (kos : List Nat) : Cuts top (gcVisitAll env kos) := by
  induction kos with
  | nil => exact .pure _
  | cons ko kos ih =>
    unfold gcVisitAll
    infer_instance

instance : Cuts top (kobjectGcScan env) := by
  unfold kobjectGcScan
  infer_instance

end Containers

section Calls

variable {top : Nat} {env : Env}

instance (sg nbytes : Nat) : Cuts top (segmentSetNbytes env sg nbytes) := by
  unfold segmentSetNbytes
  infer_instance

instance (src newl : Nat) : Cuts top (segmentCopy env src newl) := by
  unfold segmentCopy
  infer_instance

instance (t newLabel : Nat) : Cuts top (threadChangeLabel env t newLabel) := by
  unfold threadChangeLabel
  repeat refine .bind_of inferInstance fun _ ↦ ?_
  infer_instance

instance (l n : Nat) : Cuts top (labelGrow env l n) := by
  induction n with
  | zero => exact .pure _
  | succ n ih =>
    unfold labelGrow
    infer_instance

instance (inheritFrom : Nat) : Cuts top (allocUlabel env inheritFrom) := by
  unfold allocUlabel
  split <;> infer_instance

instance (parentCt : Nat) (avoidTypes : KobjType → Bool) (quota : Nat) :
    Cuts top (sysContainerAlloc env parentCt avoidTypes quota) := by
  unfold sysContainerAlloc
  repeat refine .bind_of inferInstance fun _ ↦ ?_
  infer_instance

instance (container object : Nat) : Cuts top (sysObjUnref env container object) := by
  unfold sysObjUnref
  infer_instance

instance (container object ct : Nat) : Cuts top (sysSegmentAddref env container object ct) := by
  unfold sysSegmentAddref
  infer_instance

instance (ct : Nat) : Cuts top (sysSelfAddref env ct) := by
  unfold sysSelfAddref
  infer_instance

theorem containerHasAncestor_cut (ancestor : Nat) (k : Store) (limit c : Nat) :
    containerHasAncestor env ancestor (k.cut top) limit c =
      containerHasAncestor env ancestor k limit c := by
  induction limit generalizing c with
  | zero => rfl
  | succ limit ih =>
    simp only [containerHasAncestor, ih]
    rfl

instance (c ancestor : Nat) : Cuts top (checkAncestor env c ancestor) :=
  .read fun k ↦ by rw [containerHasAncestor_cut]

instance (container object newParent ancestor : Nat) :
    Cuts top (sysObjMove env container object newParent ancestor) := by
  unfold sysObjMove
  repeat refine .bind_of inferInstance fun _ ↦ ?_
  infer_instance

instance (parentId childId : Nat) (nbytes : Int) :
    Cuts top (sysContainerMoveQuota env parentId childId nbytes) := by
  unfold sysContainerMoveQuota
  infer_instance

end Calls

section Boot

variable {top : Nat} {env : Env}

instance (parent l : Nat) (avoid : KobjType → Bool) (t : Nat) :
    Cuts top (bootContainer env parent l avoid t) := by
  unfold bootContainer
  infer_instance

instance (c l segsize : Nat) : Cuts top (segmentCreateEmbed env c l segsize) := by
  unfold segmentCreateEmbed
  infer_instance

instance (c l : Nat) (sizes : List Nat) : Cuts top (fsInit env c l sizes) := by
  induction sizes with
  | nil => exact .pure _
  | cons size sizes ih =>
    unfold fsInit
    infer_instance

instance (tracking clearance : Nat) : Cuts top (threadAlloc env tracking clearance) := by
  unfold threadAlloc
  infer_instance

instance (t label clearance : Nat) : Cuts top (threadJump env t label clearance) := by
  unfold threadJump
  infer_instance

instance (c as l smi : Nat) (sizes : List Nat) : Cuts top (elfSegments env c as l smi sizes) := by
  induction sizes generalizing smi with
  | nil => exact .pure _
  | cons size sizes ih =>
    unfold elfSegments
    infer_instance

instance (c t objLabel thLabel thClearance : Nat) (prog : EmbedBin) :
    Cuts top (threadLoadElf env c t objLabel thLabel thClearance prog) := by
  unfold threadLoadElf
  infer_instance

instance (c objLabel thLabel thClearance : Nat) (image : Image) :
    Cuts top (threadCreateEmbed env c objLabel thLabel thClearance image) := by
  unfold threadCreateEmbed
  infer_instance

instance (objLabel : Nat) : Cuts top (bootRoots env objLabel) := by
  unfold bootRoots
  infer_instance

instance (rc : Nat) (image : Image) : Cuts top (bootInit env rc image) := by
  unfold bootInit
  infer_instance

instance (image : Image) : Cuts top (userBootstrap env image) := by
  unfold userBootstrap
  infer_instance

theorem unrepeated_cutAt (bfc : Handle.BfCtx) (htop : top ≤ 2 ^ 59) :
    Unrepeated (Handle.cutAt top (Handle.bf61Encipher bfc)) where
  lt n _ := Handle.cutAt_lt bfc top n
  inj m n := Handle.cutAt_inj bfc (by omega : top ≤ 0 + 2 ^ 59) m.zero_le n.zero_le

end Boot

end HiStar.Kobj
