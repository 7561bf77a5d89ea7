import HiStar.Kobj.Container

namespace HiStar.Kobj

open Lib Function

def utlsDefsize : Nat := pgsize

def setThSg (sg : Nat) (o : Kobject) : Kobject := { o with thSg := sg }

def threadGc (env : Env) (t : Nat) : Sys Unit := do
  let o ← deref t
  Exec.when (o.thSg ≠ 0) (do
    let sg ← Exec.read (kobjectGet env o.thSg (some .segment) .none)
    kobjectDecref sg t
    modifyObj t (setThSg 0))

def gcByType (env : Env) (ko : Nat) : KobjType → Sys Unit
  | .thread => threadGc env ko
  | .container => containerGc env ko
  | .addressSpace | .gate | .device | .segment | .label => pure ()
  | .dead => Exec.fail .panic

def retire (o : Kobject) : Kobject :=
  { o with koNbytes := 0, koType := .dead }

def koLabels : List KoLabel := [.tracking, .clearance, .verifyTracking, .verifyClearance]

def gcGetLabels (env : Env) (ko : Nat) (k : Store) : Except Errno Unit :=
  koLabels.forM fun i ↦ do
    let _ ← kobjectGetLabel env ko i k
    .ok ()

def gcDropLabels (ko : Nat) : List KoLabel → Sys Unit
  | [] => pure ()
  | i :: is => do
    let o ← deref ko
    dropLabel ko i (o.koLabel i)
    gcDropLabels ko is

def kobjectGc (env : Env) (ko : Nat) : Sys Unit := do
  let o ← deref ko
  Exec.read (gcGetLabels env ko)
  gcByType env ko o.koType
  gcDropLabels ko koLabels
  modifyObj ko retire

def tolerate (c : Sys Unit) : Sys Unit := fun k ↦
  match c k with
  | (.error e, k') => if Stopped e then (.error e, k') else (.ok (), k')
  | r => r

def gcVisit (env : Env) (ko : Nat) : Sys Unit := fun k ↦
  if ko ∈ k.ids ∧ (k.obj ko).koRef = 0 ∧ env.koPin ko = false then
    if (k.obj ko).koType = .dead then
      if env.koOnDisk ko then (.ok (), k) else (.ok (), removeObj ko k)
    else tolerate (kobjectGc env ko) k
  else (.ok (), k)

def gcVisitAll (env : Env) : List Nat → Sys Unit
  | [] => pure ()
  | ko :: kos => do
    gcVisit env ko
    gcVisitAll env kos

/-- `kobject_gc_scan`: the objects of the garbage list, in the order in which its
rounds come to them, with no current thread meanwhile. -/
def kobjectGcScan (env : Env) : Sys Unit := do
  let t ← curThread
  Exec.modify fun k ↦ { k with curThread := 0 }
  gcVisitAll env env.gcVisits
  Exec.modify fun k ↦ { k with curThread := t }

def segmentSetNbytes (env : Env) (sg nbytes : Nat) : Sys Unit := do
  let o ← deref sg
  Exec.require (!(o.koNbytes > nbytes && env.koPinPg sg)) .busy
  Exec.when (o.koNbytes ≠ nbytes) (kobjectSetNbytes env sg nbytes)

def segmentCopy (env : Env) (src newl : Nat) : Sys Nat := do
  let dst ← kobjectAlloc env .segment newl 0
  kobjectCopyPages env src dst
  pure dst

/-- The commit point of `thread_change_label`: all quota has been reserved. -/
def threadCommitLabel (t sg sgNew thLabel sgLabel newLabel : Nat) (qrTh qrSg : QuotaResv) :
    Sys Unit := do
  modifyObj t (setThSg sgNew)
  kobjectDecref sg t
  let qrTh ← kobjectIncrefResv sgNew qrTh
  let _ ← kobjectSetLabelPrepared t .tracking thLabel newLabel qrTh
  let _ ← kobjectSetLabelPrepared sgNew .tracking sgLabel newLabel qrSg
  pure ()

def threadReserveLabel (env : Env) (t sg sgNew thLabel sgLabel newLabel : Nat) : Sys Unit := do
  let qrSg ← kobjectQresReserve env (qresInit sgNew) newLabel
  let qrTh ← onError (kobjectQresReserve env (qresInit t) sgNew) (kobjectQresRelease qrSg)
  let qrTh ← onError (kobjectQresReserve env qrTh newLabel) (do
    kobjectQresRelease qrTh
    kobjectQresRelease qrSg)
  threadCommitLabel t sg sgNew thLabel sgLabel newLabel qrTh qrSg

def threadChangeLabel (env : Env) (t newLabel : Nat) : Sys Unit := do
  let o ← deref t
  let sg ← Exec.read (kobjectGet env o.thSg (some .segment) .rw)
  let thLabel ← Exec.read (kobjectGetLabel env t .tracking)
  let sgLabel ← Exec.read (kobjectGetLabel env sg .tracking)
  let sgNew ← segmentCopy env sg thLabel
  segmentSetNbytes env sgNew utlsDefsize
  threadReserveLabel env t sg sgNew thLabel sgLabel newLabel

def labelGrow (env : Env) (l : Nat) : Nat → Sys Unit
  | 0 => pure ()
  | n + 1 => do
    let o ← deref l
    kobjectSetNbytes env l (o.koNbytes + pgsize)
    labelGrow env l n

/-- `alloc_ulabel`: a label given by the user, or else that of the container. -/
def allocUlabel (env : Env) (inheritFrom : Nat) : Sys Nat :=
  match env.ulabel with
  | some (.error e) => Exec.fail e
  | some (.ok pages) => do
    let l ← kobjectAlloc env .label 0 0
    labelGrow env l pages
    pure l
  | none => do
    let l ← Exec.read (kobjectGetLabel env inheritFrom .tracking)
    Exec.require (l ≠ 0) .inval
    pure l

def setupContainer (avoidTypes : KobjType → Bool) (quota : Nat) (o : Kobject) : Kobject :=
  { o with
    ctAvoidTypes := avoidTypes
    koQuotaTotal := min (o.koQuotaTotal + min quota ctQuotaInf) ctQuotaInf }

def sysContainerAlloc (env : Env) (parentCt : Nat) (avoidTypes : KobjType → Bool) (quota : Nat) :
    Sys Nat := do
  let parent ← Exec.read (containerFind env parentCt .rw)
  let l ← allocUlabel env parent
  let c ← kobjectAlloc env .container l 0
  Exec.lift env.checkUserAccess
  let po ← deref parent
  modifyObj c (setupContainer (fun ty ↦ po.ctAvoidTypes ty || avoidTypes ty) quota)
  containerPut env parent c 0
  pure c

def sysObjUnref (env : Env) (container object : Nat) : Sys Unit := do
  let c ← Exec.read (containerFind env container .rw)
  let ko ← Exec.read (cobjGet env container object none .none)
  containerUnref env c ko false
  kobjectGcScan env

def sysSegmentAddref (env : Env) (container object ct : Nat) : Sys Unit := do
  let c ← Exec.read (containerFind env ct .rw)
  let ko ← Exec.read (cobjGet env container object (some .segment) .read)
  containerPut env c ko 0

def sysSelfAddref (env : Env) (ct : Nat) : Sys Unit := do
  let c ← Exec.read (containerFind env ct .rw)
  let t ← curThread
  containerPut env c t 0

/-- A walk to the ancestor that the caller of `sys_obj_move` names. -/
def checkAncestor (env : Env) (c ancestor : Nat) : Sys Unit := Exec.read fun k ↦
  (containerHasAncestor env ancestor k env.chainLimit c).getD (.error .loops)

def sysObjMove (env : Env) (container object newParent ancestor : Nat) : Sys Unit := do
  let ko ← Exec.read (cobjGet env container object none .none)
  let src ← Exec.read (containerFind env container .rw)
  let dst ← Exec.read (containerFind env newParent .rw)
  checkAncestor env src ancestor
  checkAncestor env dst ancestor
  containerUnref env src ko true
  containerPut env dst ko 1
  (containerUnref env src ko false).mapErr fun _ ↦ .panic

def newChildTotal (parent child : Kobject) (nbytes : Int) : Except Errno Nat :=
  if 0 < nbytes then
    if parent.koQuotaTotal ≠ ctQuotaInf ∧ quotaAvail parent < nbytes.natAbs then .error .resource
    else if ctQuotaInf ≤ child.koQuotaTotal ∨ ctQuotaInf ≤ nbytes.natAbs then .ok ctQuotaInf
    else .ok (min (child.koQuotaTotal + nbytes.natAbs) (ctQuotaInf - 1))
  else if child.koQuotaTotal = ctQuotaInf then .error .resource
  else if sub64 child.koQuotaTotal nbytes.natAbs < child.koQuotaUsed then .error .resource
  else .ok (sub64 child.koQuotaTotal nbytes.natAbs)

def moveUsed (nbytes : Int) : Kobject → Kobject :=
  if 0 < nbytes then Kobject.addUsed nbytes.natAbs else Kobject.subUsed nbytes.natAbs

def sysContainerMoveQuota (env : Env) (parentId childId : Nat) (nbytes : Int) : Sys Unit :=
  Exec.when (nbytes ≠ 0) (do
    let parent ← Exec.read (containerFind env parentId .rw)
    let child ← Exec.read (cobjGet env parentId childId none .rw)
    let po ← deref parent
    let co ← deref child
    Exec.require (!co.koFixedQuota) .fixedQuota
    let total ← Exec.lift (newChildTotal po co nbytes)
    modifyObj parent (moveUsed nbytes)
    modifyObj child fun o ↦ { o with koQuotaTotal := total })

end HiStar.Kobj
