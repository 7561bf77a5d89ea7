import HiStar.Lib.Transport
import HiStar.Handle.Alloc
import HiStar.Iflow.Syscall

namespace HiStar.Iflow

open Lib Function

/-- The kernel whose cipher is cut off at the counter `top`, and whose stores outside
`compare_cache` change no object. -/
def Kernel.cut (top : Nat) (k : Kernel) : Kernel :=
  { k with
    bf61Encipher := Handle.cutAt top k.bf61Encipher
    wild := fun _ o ↦ o }

/-- The states up to which a kernel and its cut do the same. -/
def Kernel.Within (top : Nat) (k : Kernel) : Prop := k.handleCounter ≤ top ∧ k.stray = 0

/-- The computation does the same in a kernel and in its cut. -/
abbrev Cuts (top : Nat) {α : Type} (c : Sys α) : Prop :=
  Transports (Kernel.cut top) (Kernel.Within top) c

section Primitives

variable {top : Nat}

theorem cuts_modify {f : Kernel → Kernel}
    (hG : ∀ k, (f k).handleCounter = k.handleCounter ∧ (f k).stray = k.stray)
    (hf : ∀ k, f (k.cut top) = (f k).cut top) : Cuts top (Exec.modify f) :=
  .modify (fun k h ↦ by rwa [Kernel.Within, (hG k).1, (hG k).2] at h) hf

instance : Cuts top answer where
  back _ h := h
  comm _ _ := rfl

instance : Cuts top curThread := .read fun _ ↦ rfl

instance (id : Nat) (f : Kobject → Kobject) : Cuts top (modifyObj id f) :=
  cuts_modify (fun _ ↦ ⟨rfl, rfl⟩) fun _ ↦ rfl

instance (id : Nat) (ko : Kobject) : Cuts top (insertObj id ko) :=
  cuts_modify (fun _ ↦ ⟨rfl, rfl⟩) fun _ ↦ rfl

instance (t : Nat) : Cuts top (threadHalt t) := cuts_modify (fun _ ↦ ⟨rfl, rfl⟩) fun _ ↦ rfl

instance (id : Nat) : Cuts top (deref id) := .read fun _ ↦ rfl

instance (id : Nat) : Cuts top (derefLabel id) := .read fun _ ↦ rfl

instance : Cuts top handleAlloc where
  back k h := by
    unfold handleAlloc at h
    split at h
    next he =>
      obtain ⟨d, h1, rfl, -⟩ := handleAllocFrom_ok he
      exact ⟨by have := h.1; simp only at this; omega, h.2⟩
    next => exact h
  comm k h := by
    unfold handleAlloc at h ⊢
    simp only [Kernel.cut]
    split at h
    next he => rw [Handle.handleAllocFrom_cutAt he h.1]
    next he => rw [Handle.handleAllocFrom_cutAt_error he]

instance (l1 l2 : Nat) (c : LevelComparator) : Cuts top (compareCachePut l1 l2 c) where
  back k h := by
    simp only [compareCachePut, modify_apply] at h
    split at h
    · exact absurd h.2 (Nat.succ_ne_zero _)
    · exact h
  comm k h := by
    simp only [compareCachePut, modify_apply] at h ⊢
    by_cases hs : k.compareCacheNext.tmod compareCacheSize < 0
    · rw [if_pos hs] at h
      exact absurd h.2 (Nat.succ_ne_zero _)
    · simp only [Kernel.cut, hs, ↓reduceIte]

instance (l1 l2 : Nat) (c : LevelComparator) :
    Cuts top (Exec.read fun k : Kernel ↦ (.ok (compareCacheHas k l1 l2 c) : Except Errno Bool)) :=
  .read fun _ ↦ rfl

instance (l1 l2 : Nat) (c : LevelComparator) (b : Bool) : Cuts top
    (Exec.read fun k : Kernel ↦ (.ok (b && compareCacheHas k l1 l2 c) : Except Errno Bool)) :=
  .read fun _ ↦ rfl

end Primitives

section Objects

variable {top : Nat}

instance (q : Answers → Except Errno Unit) : Cuts top (ask q) := by
  unfold ask
  infer_instance

instance (id : Nat) : Cuts top (kobjectIncref id) := by
  unfold kobjectIncref
  infer_instance

instance (id : Nat) : Cuts top (kobjectDecref id) := by
  unfold kobjectDecref
  infer_instance

instance (l1 l2 : Nat) (c : LevelComparator) (b : Bool) : Cuts top (labelCompare l1 l2 c b) := by
  unfold labelCompare
  infer_instance

instance (check : Kobject → Sys Unit) (type : Option KobjType) (id : Nat) (o : Option Kobject)
    [∀ ko, Cuts top (check ko)] : Cuts top (kobjectFound check type id o) := by
  cases o <;> unfold kobjectFound <;> infer_instance

instance (check : Kobject → Sys Unit) (type : Option KobjType) (id : Nat)
    [∀ ko, Cuts top (check ko)] : Cuts top (kobjectLookup check id type) :=
  .of_part (fun k ↦ (kobjectTranslateId k id, k.obj (kobjectTranslateId k id)))
    (fun p ↦ kobjectFound check type p.1 p.2) fun _ ↦ rfl

instance (id : Nat) (type : Option KobjType) : Cuts top (kobjectGetNone id type) := by
  unfold kobjectGetNone
  infer_instance

instance (l1 l2 : Nat) (c : LevelComparator) : Cuts top (labelCompareId l1 l2 c) := by
  unfold labelCompareId
  infer_instance

instance (ko th : Kobject) (iflow : InfoFlowType) : Cuts top (iflowCompare ko th iflow) := by
  cases iflow <;> unfold iflowCompare <;> infer_instance

instance (ko : Kobject) (iflow : InfoFlowType) : Cuts top (kobjectIflowCheck ko iflow) := by
  unfold kobjectIflowCheck
  infer_instance

instance (id : Nat) (type : Option KobjType) (iflow : InfoFlowType) :
    Cuts top (kobjectGet id type iflow) := by
  unfold kobjectGet
  infer_instance

instance (fill : MemEnv → Except Errno Label) : Cuts top (newLabel fill) := by
  unfold newLabel
  infer_instance

instance (ko : Kobject) (idx : KoLabel) : Cuts top (kobjectGetLabel ko idx) := by
  unfold kobjectGetLabel
  infer_instance

instance (ul : ULabel) : Cuts top (ulabelToLabel ul) := by
  unfold ulabelToLabel
  infer_instance

instance (ul : Option ULabel) (inh : Option Nat) : Cuts top (allocUlabel ul inh) := by
  cases ul <;> cases inh <;> unfold allocUlabel <;> infer_instance

instance (src : Nat) (f : Label → MemEnv → Except Errno Label) : Cuts top (deriveLabel src f) := by
  unfold deriveLabel
  infer_instance

instance (src h lv : Nat) : Cuts top (labelCopySet src h lv) := by
  unfold labelCopySet
  infer_instance

instance (a b : Nat) (leq : LevelComparator) : Cuts top (labelMaxId a b leq) := by
  unfold labelMaxId
  infer_instance

instance (l : Nat) : Cuts top (dropLabel l) := by
  unfold dropLabel
  infer_instance

instance (l : Nat) : Cuts top (addLabelRef l) := by
  unfold addLabelRef
  infer_instance

instance (kp : Nat) (idx : KoLabel) (old new : Nat) :
    Cuts top (kobjectSetLabelPrepared kp idx old new) := by
  unfold kobjectSetLabelPrepared
  infer_instance

instance (kp : Nat) (idx : KoLabel) (new : Nat) : Cuts top (kobjectSetLabel kp idx new) := by
  unfold kobjectSetLabel
  infer_instance

instance (l : Nat) : Cuts top (takeLabel l) := by
  unfold takeLabel
  infer_instance

instance (type : KobjType) (l c : Nat) : Cuts top (kobjectAllocPrep type l c) := by
  unfold kobjectAllocPrep
  repeat refine .bind_of inferInstance fun _ ↦ ?_
  infer_instance

instance (type : KobjType) (l c : Nat) : Cuts top (kobjectAlloc type l c) := by
  unfold kobjectAlloc
  infer_instance

end Objects

section Threads

variable {top : Nat}

instance (ct : Nat) : Cuts top (containerSees ct) := by
  unfold containerSees
  infer_instance

instance (t : Nat) : Cuts top (threadCheckSchedParents t) := by
  unfold threadCheckSchedParents
  infer_instance

instance (t sg : Nat) : Cuts top (setThSg t sg) := by
  unfold setThSg
  infer_instance

instance (t : Nat) : Cuts top (threadChangeLabelPrep t) := by
  unfold threadChangeLabelPrep
  repeat refine .bind_of inferInstance fun _ ↦ ?_
  infer_instance

instance (t new koSg curSgLabel curThLabel sgNew : Nat) :
    Cuts top (threadChangeLabelCommit t new koSg curSgLabel curThLabel sgNew) := by
  unfold threadChangeLabelCommit
  repeat refine .bind_of inferInstance fun _ ↦ ?_
  infer_instance

instance (t new : Nat) : Cuts top (threadChangeLabel t new) := by
  unfold threadChangeLabel
  infer_instance

instance (t label clearance : Nat) : Cuts top (threadJump t label clearance) := by
  unfold threadJump
  infer_instance

instance (l c : Nat) : Cuts top (threadAlloc l c) := by
  unfold threadAlloc
  infer_instance

instance (l c verify : Nat) : Cuts top (gateAlloc l c verify) := by
  unfold gateAlloc
  infer_instance

end Threads

section Calls

variable {top : Nat}

instance (id : Nat) (iflow : InfoFlowType) : Cuts top (containerFind id iflow) := by
  unfold containerFind
  infer_instance

instance (ko : Nat) : Cuts top (containerPut ko) := by
  unfold containerPut
  infer_instance

instance (name : Bool) : Cuts top (allocSetName name) := by
  unfold allocSetName
  infer_instance

instance (container object : Nat) : Cuts top (cobjContained container object) := by
  unfold cobjContained
  refine .bind_of inferInstance fun r ↦ ?_
  cases r <;> infer_instance

instance (container object : Nat) : Cuts top
    (Exec.read fun k : Kernel ↦ (.ok (cobjGlobal k container object) : Except Errno Bool)) :=
  .read fun _ ↦ rfl

instance (container object : Nat) (type : Option KobjType) (iflow : InfoFlowType) :
    Cuts top (cobjGet container object type iflow) := by
  unfold cobjGet
  infer_instance

instance (uGuard : Option ULabel) : Cuts top (allocGuard uGuard) := by
  unfold allocGuard
  infer_instance

instance (g : Nat) (ute entryVisible : Bool) : Cuts top (setGateEntry g ute entryVisible) := by
  unfold setGateEntry
  infer_instance

instance (t p0 p1 : Nat) : Cuts top (threadSetSchedParents t p0 p1) := by
  unfold threadSetSchedParents
  infer_instance

instance (t : Nat) : Cuts top (threadSetRunnable t) := by
  unfold threadSetRunnable
  infer_instance

instance (ute entryVisible : Bool) : Cuts top (gateEntry ute entryVisible) := by
  unfold gateEntry
  infer_instance

instance (tl tc : Nat) : Cuts top (checkVerify tl tc) := by
  unfold checkVerify
  infer_instance

instance (tl tc : Nat) (c : Call) : Cuts top (c.run tl tc) := by
  cases c <;>
    simp only [Call.run, sysSelfSetLabel, sysSelfSetClearance, sysHandleCreate, sysGateCreate,
      sysThreadCreate, sysGateEnter, sysThreadStart] <;>
    repeat first | infer_instance | refine .bind_of inferInstance fun _ ↦ ?_

instance (c : Call) : Cuts top (syscallExec c) := by
  unfold syscallExec
  infer_instance

instance {α : Type} (t : Nat) (c : Sys α) [hc : Cuts top c] : Cuts top (asThread t c) where
  back k h := hc.back { k with curThread := t } h
  comm k h := hc.comm { k with curThread := t } h

end Calls

end HiStar.Iflow
