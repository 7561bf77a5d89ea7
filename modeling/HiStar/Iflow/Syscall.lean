import HiStar.Iflow.Thread
import HiStar.Iflow.Authority

namespace HiStar.Iflow

open Lib Function

def containerFind (id : Nat) (iflow : InfoFlowType) : Sys Nat := kobjectGet id (some .container) iflow

def containerPut (ko : Nat) : Sys Unit := do
  ask (·.containerPut)
  kobjectIncref ko

def allocSetName (name : Bool) : Sys Unit := Exec.when name (ask (·.checkUserAccess))

def cobjGlobal (k : Kernel) (container object : Nat) : Bool :=
  container = 0 ∧ (object = kobjectIdThreadSg ∨ (k.curThread ≠ 0 ∧ object = k.curThread))

/-- The container of a `cobj_ref` must be readable and hold the object; every
container holds itself. -/
def cobjContained (container object : Nat) : Sys Unit := do
  let r ← Exec.attempt (containerFind container .read)
  match r with
  | .error e => Exec.fail (if e = .restart then e else .notFound)
  | .ok c => if object = c then pure () else ask (·.containerSlotFind)

def cobjGet (container object : Nat) (type : Option KobjType) (iflow : InfoFlowType) : Sys Nat := do
  let global ← Exec.read fun k ↦ .ok (cobjGlobal k container object)
  let r0 ← Exec.attempt (kobjectGet object type iflow)
  Exec.when (!global) (cobjContained container object)
  Exec.lift r0

def allocGuard (uGuard : Option ULabel) : Sys Nat :=
  if uGuard.isSome then allocUlabel uGuard none else pure 0

def setGateEntry (g : Nat) (ute entryVisible : Bool) : Sys Unit :=
  modifyObj g fun o ↦ { o with gtTeUnspec := !ute, gtTeVisible := entryVisible }

def threadSetSchedParents (t p0 p1 : Nat) : Sys Unit := do
  modifyObj t fun o ↦ { o with thSchedParents := (p0, p1) }
  threadCheckSchedParents t

def threadSetRunnable (t : Nat) : Sys Unit :=
  modifyObj t fun o ↦ { o with thStatus := .runnable }

/-- The entry point of a new gate is copied from user memory, or the gate is
left without one and may not show it. -/
def gateEntry (ute entryVisible : Bool) : Sys Unit :=
  if ute then ask (·.checkUserAccess) else Exec.require (!entryVisible) .inval

section Calls

variable (curThLabel curThClearance : Nat)

def sysSelfSetLabel (ul : Option ULabel) : Sys Nat := do
  let l ← allocUlabel ul none
  labelCompare curThLabel l .starlo false
  labelCompare l curThClearance .starlo false
  let t ← curThread
  threadChangeLabel t l
  return 0

def sysSelfSetClearance (uclear : Option ULabel) : Sys Nat := do
  let clearance ← allocUlabel uclear none
  let clearanceBound ← labelMaxId curThClearance curThLabel .starhi
  labelCompare curThLabel clearance .starlo false
  labelCompare clearance clearanceBound .starhi false
  let t ← curThread
  kobjectSetLabel t .clearance clearance
  return 0

def sysHandleCreate : Sys Nat := do
  let handle ← handleAlloc
  let l ← labelCopySet curThLabel handle lbLevelStar
  let c ← labelCopySet curThClearance handle 3
  ask (·.kobjectQresReserve)
  let t ← curThread
  threadChangeLabel t l
  let t' ← curThread
  Exec.require (t' ≠ 0) .panic
  kobjectSetLabelPrepared t' .clearance curThClearance c
  return handle

def sysGateCreate (container : Nat) (ute : Bool) (uLabel uClear uGuard : Option ULabel)
    (name entryVisible : Bool) : Sys Nat := do
  let _ ← containerFind container .rw
  let gLabel ← allocUlabel uLabel (some curThLabel)
  let gClear ← allocUlabel uClear (some curThClearance)
  let gGuard ← allocGuard uGuard
  let g ← gateAlloc gLabel gClear gGuard
  allocSetName name
  setGateEntry g ute entryVisible
  gateEntry ute entryVisible
  containerPut g
  return g

def sysThreadCreate (ct : Nat) (name : Bool) : Sys Nat := do
  let _ ← containerFind ct .rw
  let t ← threadAlloc curThLabel curThClearance
  allocSetName name
  containerPut t
  return t

def checkVerify : Sys Unit := do
  let t ← curThread
  let th ← deref t
  let vl ← kobjectGetLabel th .verifyTracking
  let vc ← kobjectGetLabel th .verifyClearance
  Exec.when (vl ≠ 0) (labelCompare curThLabel vl .starlo false)
  Exec.when (vc ≠ 0) (labelCompare vc curThClearance .starhi false)

def sysGateEnter (container object : Nat) (ulabel uclear : Option ULabel) (ute : Bool) :
    Sys Nat := do
  let gid ← cobjGet container object (some .gate) .none
  let g ← deref gid
  let gtLabel ← kobjectGetLabel g .tracking
  let gtClear ← kobjectGetLabel g .clearance
  let gtVerify ← kobjectGetLabel g .verifyTracking
  Exec.when (gtVerify ≠ 0) (labelCompare curThLabel gtVerify .starlo false)
  let labelBound ← labelMaxId gtLabel curThLabel .starhi
  let clearBound ← labelMaxId gtClear curThClearance .starlo
  let newLabel ← allocUlabel ulabel none
  let newClear ← allocUlabel uclear none
  labelCompare labelBound newLabel .starlo false
  labelCompare newLabel newClear .starlo false
  labelCompare newClear clearBound .starhi false
  Exec.require (ute == g.gtTeUnspec) .inval
  Exec.when (!ute) (checkVerify curThLabel curThClearance)
  Exec.when ute (ask (·.checkUserAccess))
  let t ← curThread
  threadJump t newLabel newClear
  return 0

def sysThreadStart (container object : Nat) (ul uclear : Option ULabel) : Sys Nat := do
  ask (·.checkUserAccess)
  let t ← cobjGet container object (some .thread) .rw
  let th ← deref t
  Exec.require (th.thStatus = .notStarted) .inval
  let newLabel ← allocUlabel ul (some curThLabel)
  let newClearance ← allocUlabel uclear (some curThClearance)
  labelCompare curThLabel newLabel .starlo false
  labelCompare newLabel newClearance .starlo false
  labelCompare newClearance curThClearance .starhi false
  threadJump t newLabel newClearance
  threadSetSchedParents t container 0
  threadSetRunnable t
  return 0

end Calls

inductive Call
  | selfSetLabel (ul : Option ULabel)
  | selfSetClearance (uclear : Option ULabel)
  | handleCreate
  | gateCreate (container : Nat) (ute : Bool) (uLabel uClear uGuard : Option ULabel)
      (name entryVisible : Bool)
  | threadCreate (ct : Nat) (name : Bool)
  | gateEnter (container object : Nat) (ulabel uclear : Option ULabel) (ute : Bool)
  | threadStart (container object : Nat) (ul uclear : Option ULabel)

def Call.run (curThLabel curThClearance : Nat) : Call → Sys Nat
  | selfSetLabel ul => sysSelfSetLabel curThLabel curThClearance ul
  | selfSetClearance uclear => sysSelfSetClearance curThLabel curThClearance uclear
  | handleCreate => sysHandleCreate curThLabel curThClearance
  | gateCreate ct ute uLabel uClear uGuard name entryVisible =>
    sysGateCreate curThLabel curThClearance ct ute uLabel uClear uGuard name entryVisible
  | threadCreate ct name => sysThreadCreate curThLabel curThClearance ct name
  | gateEnter ct obj ulabel uclear ute =>
    sysGateEnter curThLabel curThClearance ct obj ulabel uclear ute
  | threadStart ct obj ul uclear => sysThreadStart curThLabel curThClearance ct obj ul uclear

/-- `syscall_exec`: the labels of the current thread are looked up once. -/
def syscallExec (c : Call) : Sys Nat := do
  let t ← curThread
  let th ← deref t
  let curThLabel ← kobjectGetLabel th .tracking
  let curThClearance ← kobjectGetLabel th .clearance
  c.run curThLabel curThClearance

/-- The scheduler has made the thread `t` current. -/
def asThread {α : Type} (t : Nat) (c : Sys α) : Sys α := fun k ↦ c { k with curThread := t }

end HiStar.Iflow
