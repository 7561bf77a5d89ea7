import HiStar.Kobj.Store

namespace HiStar.Kobj

open Lib Function

def Stopped (e : Errno) : Prop := e = .panic ∨ e = .loops

instance (e : Errno) : Decidable (Stopped e) := inferInstanceAs (Decidable (_ ∨ _))

def reportAs (r e : Errno) : Errno := if Stopped e then e else r

/-- The error label of a function: `cleanup` runs when `c` fails and the machine
goes on. -/
def onError {α : Type} (c : Sys α) (cleanup : Sys Unit) : Sys α := fun k ↦
  match c k with
  | (.ok a, k') => (.ok a, k')
  | (.error e, k') => if Stopped e then (.error e, k') else (do cleanup; Exec.fail e : Sys α) k'

/-- `success` of `kobject_borrow_parent_quota_one`: -E_AGAIN once an ancestor,
and not the object itself, has been granted quota. -/
def borrowResult (again : Bool) : Sys Unit := Exec.require (!again) .again

def kobjectBorrowParentQuotaOne (env : Env) : Nat → Nat → Nat → Bool → Sys Unit
  | 0, _, _, _ => Exec.fail .loops
  | limit + 1, ko, nbytes, again => do
    let o ← deref ko
    Exec.require (!o.koFixedQuota) .fixedQuota
    if o.koRef = 0 then do
      modifyObj ko (Kobject.addTotal nbytes)
      borrowResult again
    else do
      Exec.require (o.koParent ≠ 0) .panic
      let parent ← Exec.read (kobjectGet env o.koParent none .rw)
      let po ← deref parent
      if po.koQuotaTotal ≠ ctQuotaInf ∧ sub64 po.koQuotaTotal po.koQuotaUsed < nbytes then
        kobjectBorrowParentQuotaOne env limit parent
          (sub64 nbytes (sub64 po.koQuotaTotal po.koQuotaUsed)) true
      else do
        modifyObj parent (Kobject.addUsed nbytes)
        modifyObj ko (Kobject.addTotal nbytes)
        borrowResult again

def borrowRounds (env : Env) (ko nbytes : Nat) : Nat → Sys Unit
  | 0 => Exec.fail .loops
  | limit + 1 => fun k ↦
    match kobjectBorrowParentQuotaOne env env.chainLimit ko nbytes false k with
    | (.error .again, k') => borrowRounds env ko nbytes limit k'
    | r => r

def kobjectBorrowParentQuota (env : Env) (ko nbytes : Nat) : Sys Unit :=
  borrowRounds env ko nbytes env.borrowLimit

def pagetreeMaxpages : Nat := 4 + 128 + 128 ^ 2 + 128 ^ 3 + 128 ^ 4

def quotaDiff (o : Kobject) (nbytes : Nat) : Nat :=
  sub64 (npagesFor nbytes * pgsize) (o.npages * pgsize)

def needsQuota (o : Kobject) (nbytes : Nat) : Bool :=
  decide (0 < quotaDiff o nbytes ∧ quotaDiff o nbytes < 2 ^ 63) && o.koQuotaTotal ≠ ctQuotaInf &&
    sub64 o.koQuotaTotal o.koQuotaUsed < quotaDiff o nbytes

def setSize (nbytes : Nat) (o : Kobject) : Kobject :=
  { o with koNbytes := nbytes, koQuotaUsed := add64 o.koQuotaUsed (quotaDiff o nbytes) }

def kobjectSetNbytes (env : Env) (ko nbytes : Nat) : Sys Unit := do
  let o ← deref ko
  Exec.require (npagesFor nbytes ≤ pagetreeMaxpages) .range
  Exec.when (needsQuota o nbytes)
    ((kobjectBorrowParentQuota env ko (quotaDiff o nbytes)).mapErr (reportAs .resource))
  Exec.require (nbytes < ctQuotaInf) .resource
  Exec.lift (env.pagetreePutPage ko (npagesFor nbytes))
  modifyObj ko (setSize nbytes)

/-- Pages taken over from `src` by an object that nobody refers to yet. -/
def takePages (src o : Kobject) : Kobject :=
  { o with
    koNbytes := src.koNbytes
    koQuotaTotal := add64 o.koQuotaTotal (roundupPage src.koNbytes)
    koQuotaUsed := add64 o.koQuotaUsed (roundupPage src.koNbytes) }

def kobjectCopyPages (env : Env) (src dst : Nat) : Sys Unit := do
  kobjectSetNbytes env dst 0
  let so ← deref src
  let o ← deref dst
  Exec.require (o.koRef = 0) .inval
  Exec.lift (env.pagetreeCopy dst)
  modifyObj dst (takePages so)

structure QuotaResv where
  qrKo : Nat
  qrNbytes : Nat

def qresInit (ko : Nat) : QuotaResv := ⟨ko, 0⟩

def quotaAvail (o : Kobject) : Nat := sub64 o.koQuotaTotal o.koQuotaUsed

/-- Errors of `kobject_borrow_parent_quota` as `kobject_qres_reserve` returns
them. -/
def reserveError (e : Errno) : Errno := if e = .restart then e else reportAs .resource e

def kobjectQresReserve (env : Env) (qr : QuotaResv) (ko : Nat) : Sys QuotaResv := do
  let h ← deref qr.qrKo
  if h.koQuotaTotal ≠ ctQuotaInf then do
    let o ← deref ko
    Exec.when (quotaAvail h < o.koQuotaTotal)
      ((kobjectBorrowParentQuota env qr.qrKo (sub64 o.koQuotaTotal (quotaAvail h))).mapErr
        reserveError)
    -- the loan may have gone to `ko` itself, so its total is read again
    let o ← deref ko
    modifyObj qr.qrKo (Kobject.addUsed o.koQuotaTotal)
    pure { qr with qrNbytes := add64 qr.qrNbytes o.koQuotaTotal }
  else pure qr

def kobjectQresTake (qr : QuotaResv) (ko : Nat) : Sys QuotaResv := do
  let h ← deref qr.qrKo
  if h.koQuotaTotal ≠ ctQuotaInf then do
    let o ← deref ko
    Exec.require (o.koQuotaTotal ≤ qr.qrNbytes) .panic
    pure { qr with qrNbytes := qr.qrNbytes - o.koQuotaTotal }
  else pure qr

def kobjectQresRelease (qr : QuotaResv) : Sys Unit :=
  modifyObj qr.qrKo (Kobject.subUsed qr.qrNbytes)

/-- `kobject_incref_resv` with a reservation: the holder becomes the parent. -/
def kobjectIncrefResv (ko : Nat) (qr : QuotaResv) : Sys QuotaResv := do
  modifyObj ko fun o ↦ { o with koRef := o.koRef + 1 }
  let qr' ← kobjectQresTake qr ko
  modifyObj ko fun o ↦ { o with koParent := qr.qrKo }
  pure qr'

def threadOnDecref (ko : Nat) (k : Store) : Store :=
  if (k.obj ko).koType = .thread ∧ (k.obj ko).koRef = 0 ∧ k.curThread = ko then
    { k with curThread := 0 }
  else k

def kobjectDecref (ko refholder : Nat) : Sys Unit := do
  let o ← deref ko
  Exec.require (o.koRef ≠ 0) .panic
  modifyObj ko fun o ↦ { o with koRef := o.koRef - 1 }
  modifyObj refholder (Kobject.subUsed o.koQuotaTotal)
  modifyObj ko fun o ↦ { o with koParent := if refholder = o.koParent then 0 else o.koParent }
  Exec.modify (threadOnDecref ko)

def setLabelId (idx : KoLabel) (id : Nat) (o : Kobject) : Kobject :=
  { o with koLabel := update o.koLabel idx id }

def kobjectSetLabelPrepared (kp : Nat) (idx : KoLabel) (oldLabel newLabel : Nat)
    (qr : QuotaResv) : Sys QuotaResv := do
  let o ← deref kp
  Exec.require (o.koLabel idx = oldLabel) .panic
  Exec.when (oldLabel ≠ 0) (kobjectDecref oldLabel kp)
  if newLabel ≠ 0 then do
    let qr ← kobjectIncrefResv newLabel qr
    modifyObj kp (setLabelId idx newLabel)
    pure qr
  else do
    modifyObj kp (setLabelId idx 0)
    pure qr

def kobjectSetLabel (env : Env) (kp : Nat) (idx : KoLabel) (newLabel : Nat) : Sys Unit := do
  let oldLabel ← Exec.read (kobjectGetLabel env kp idx)
  if newLabel ≠ 0 then do
    let qr ← kobjectQresReserve env (qresInit kp) newLabel
    let _ ← kobjectSetLabelPrepared kp idx oldLabel newLabel qr
    pure ()
  else do
    let _ ← kobjectSetLabelPrepared kp idx oldLabel 0 (qresInit kp)
    pure ()

def handleAlloc : Sys Nat := fun k ↦
  match handleAllocFrom k.bf61Encipher (2 ^ 61 - k.handleCounter) k.handleCounter with
  | .ok (h, c) => (.ok h, { k with handleCounter := c })
  | .error e => (.error e, k)

def newKobject (type : KobjType) : Kobject where
  koType := type
  ctSlots := if type = .container then List.replicate numCtSlotInline {} else []

def addObj (id : Nat) (o : Kobject) (k : Store) : Store :=
  { k with ids := insert id k.ids, obj := update k.obj id o }

def removeObj (id : Nat) (k : Store) : Store := { k with ids := k.ids.erase id }

def dropLabel (id : Nat) (idx : KoLabel) (l : Nat) : Sys Unit := do
  let _ ← kobjectSetLabelPrepared id idx l 0 (qresInit id)
  pure ()

def kobjectAlloc (env : Env) (type : KobjType) (l c : Nat) : Sys Nat := do
  Exec.require (decide (type = .label) != decide (l ≠ 0)) .panic
  Exec.require (decide (type = .thread ∨ type = .gate) != decide (c = 0)) .panic
  Exec.read fun k ↦ env.pageAlloc k.handleCounter
  let id ← handleAlloc
  Exec.modify (addObj id (newKobject type))
  onError (kobjectSetLabel env id .tracking l) (Exec.modify (removeObj id))
  onError (kobjectSetLabel env id .clearance c) (do
    dropLabel id .tracking l
    Exec.modify (removeObj id))
  onError (Exec.when (type ≠ .label) (Exec.read (kobjectIflowCheck env id .alloc))) (do
    dropLabel id .clearance c
    dropLabel id .tracking l
    Exec.modify (removeObj id))
  pure id

end HiStar.Kobj
