import HiStar.Kobj.Quota

namespace HiStar.Kobj

open Lib Function

/-- A slot beyond the inline ones lies on a page of the container, and there may
be no memory for a private copy of that page. -/
def slotPage (env : Env) (c i : Nat) : Except Errno Unit :=
  if i < numCtSlotInline ∨ env.kobjectGetPage c then .ok () else .error .noMem

def containerSlotFind (env : Env) (c id : Nat) (k : Store) : Except Errno Nat :=
  match (k.obj c).ctSlots.findIdx? (fun cs ↦ cs.csId = id ∧ 0 < cs.csRef) with
  | some i => do
    slotPage env c i
    .ok i
  | none => do
    slotPage env c ((k.obj c).ctSlots.length - 1)
    .error .notFound

def containerSlotRead (c id : Nat) (k : Store) : Except Errno Nat :=
  match (k.obj c).ctSlots.findIdx? (fun cs ↦ cs.csId = id ∧ 0 < cs.csRef) with
  | some i => .ok i
  | none => .error .notFound

def addSlots (o : Kobject) : Kobject :=
  { o with ctSlots := o.ctSlots ++ List.replicate numCtSlotPerPage {} }

/-- The index of a free slot of `c`, on a new page if there is none. -/
def containerSlotAlloc (env : Env) (c : Nat) : Sys Nat := do
  let o ← deref c
  match o.ctSlots.findIdx? (fun cs ↦ cs.csRef = 0) with
  | some i => do
    Exec.lift (slotPage env c i)
    pure i
  | none => do
    Exec.lift (slotPage env c (o.ctSlots.length - 1))
    kobjectSetNbytes env c ((o.npages + 1) * pgsize)
    modifyObj c addSlots
    pure o.ctSlots.length

def setSlot (i : Nat) (cs : CtSlot) (o : Kobject) : Kobject :=
  { o with ctSlots := o.ctSlots.set i cs }

def Kobject.slot (o : Kobject) (i : Nat) : CtSlot := o.ctSlots.getD i {}

def kobjectIncref (env : Env) (ko refholder : Nat) : Sys Unit := do
  let qr ← kobjectQresReserve env (qresInit refholder) ko
  let _ ← kobjectIncrefResv ko qr
  pure ()

def containerSlotAddref (env : Env) (c i ko extraRefs : Nat) : Sys Unit := do
  let co ← deref c
  if (co.slot i).csRef = 0 then do
    let o ← deref ko
    Exec.require (o.koRef ≤ extraRefs || o.koFixedQuota) .varQuota
    kobjectIncref env ko c
    modifyObj c (setSlot i ⟨ko, 1⟩)
  else modifyObj c (setSlot i ⟨(co.slot i).csId, (co.slot i).csRef + 1⟩)

def containerSlotDecref (c i ko : Nat) : Sys Unit := do
  let co ← deref c
  modifyObj c (setSlot i ⟨(co.slot i).csId, (co.slot i).csRef - 1⟩)
  Exec.when ((co.slot i).csRef - 1 = 0) (kobjectDecref ko c)

/-- The slot for `ko`: the one that holds it already, or a free one. -/
def containerSlotFor (env : Env) (c ko : Nat) : Sys Nat := fun k ↦
  match containerSlotFind env c ko k with
  | .error .notFound => containerSlotAlloc env c k
  | r => (r, k)

def containerPut (env : Env) (c ko extraRefs : Nat) : Sys Unit := do
  let co ← deref c
  let o ← deref ko
  Exec.require (!co.ctAvoidTypes o.koType) .badType
  let i ← containerSlotFor env c ko
  containerSlotAddref env c i ko extraRefs

def containerUnref (env : Env) (c ko : Nat) (preponly : Bool) : Sys Unit := do
  let i ← Exec.read (containerSlotFind env c ko)
  Exec.when (!preponly) (containerSlotDecref c i ko)

def gcSlot (env : Env) (c i : Nat) : Nat → Sys Unit
  | 0 => pure ()
  | n + 1 => do
    let co ← deref c
    let ko ← Exec.read (kobjectGet env (co.slot i).csId none .none)
    containerSlotDecref c i ko
    gcSlot env c i n

def gcSlots (env : Env) (c : Nat) : List Nat → Sys Unit
  | [] => pure ()
  | i :: is => do
    Exec.lift (slotPage env c i)
    let co ← deref c
    gcSlot env c i (co.slot i).csRef
    gcSlots env c is

def containerGc (env : Env) (c : Nat) : Sys Unit := do
  let co ← deref c
  gcSlots env c (List.range co.ctSlots.length)

def containerFind (env : Env) (id : Nat) (iflow : InfoFlowType) (k : Store) : Except Errno Nat :=
  kobjectGet env id (some .container) iflow k

def globalObject (container object : Nat) (k : Store) : Prop :=
  container = 0 ∧ (object = kobjectIdThreadSg ∨ k.curThread ≠ 0 ∧ object = k.curThread)

instance (container object : Nat) (k : Store) : Decidable (globalObject container object k) :=
  inferInstanceAs (Decidable (_ ∧ _))

/-- The object `r0` was found, and `container` is the last one that took a
reference to it. -/
def lastHolder (r0 : Except Errno Nat) (container : Nat) (k : Store) : Bool :=
  match r0 with
  | .ok ko => (k.obj ko).koParent = container
  | .error _ => false

/-- `cobj_get` of a reference by container: the object, or the error of the
lookup, is reported only if the container has it. -/
def containedGet (env : Env) (container object : Nat) (r0 : Except Errno Nat) (k : Store) :
    Except Errno Nat :=
  match containerFind env container .read k with
  | .error e => if e = .restart ∨ Stopped e then .error e else .error .notFound
  | .ok c =>
    if object = c ∨ lastHolder r0 container k then r0
    else do
      let _ ← containerSlotRead c object k
      r0

def cobjGet (env : Env) (container object : Nat) (type : Option KobjType) (iflow : InfoFlowType)
    (k : Store) : Except Errno Nat :=
  if globalObject container object k then kobjectGet env object type iflow k
  else containedGet env container object (kobjectGet env object type iflow k) k

/-- `container_has_ancestor`, followed for `limit` rounds; `none` is a walk that
has not ended by then. -/
def containerHasAncestor (env : Env) (ancestor : Nat) (k : Store) :
    Nat → Nat → Option (Except Errno Unit)
  | 0, _ => none
  | limit + 1, c =>
    if c = ancestor then some (.ok ())
    else if (k.obj c).koParent = 0 then some (.error .notFound)
    else
      match cobjGet env (k.obj c).koParent c (some .container) .none k with
      | .error e => some (.error e)
      | .ok _ =>
        match kobjectGet env (k.obj c).koParent (some .container) .read k with
        | .error e => some (.error e)
        | .ok p => containerHasAncestor env ancestor k limit p

end HiStar.Kobj
