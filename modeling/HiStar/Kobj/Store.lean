import HiStar.Lib.Exec
import HiStar.Lib.Refs
import HiStar.Types

namespace HiStar.Kobj

open Lib Function

def kobjDiskSize : Nat := 512

def pgsize : Nat := 4096

def ctQuotaInf : Nat := 2 ^ 62

def numCtSlotInline : Nat := 16

def numCtSlotPerPage : Nat := 256

def add64 (a b : Nat) : Nat := (a + b) % 2 ^ 64

def sub64 (a b : Nat) : Nat := (a + (2 ^ 64 - b)) % 2 ^ 64

theorem add64_eq {a b : Nat} (h : a + b < 2 ^ 64) : add64 a b = a + b := Nat.mod_eq_of_lt h

theorem sub64_eq {a b : Nat} (ha : a < 2 ^ 64) (h : b ≤ a) : sub64 a b = a - b := by
  unfold sub64
  omega

theorem add64_lt (a b : Nat) : add64 a b < 2 ^ 64 := Nat.mod_lt _ (by decide)

theorem sub64_lt (a b : Nat) : sub64 a b < 2 ^ 64 := Nat.mod_lt _ (by decide)

def roundupPage (nbytes : Nat) : Nat := add64 nbytes (pgsize - 1) / pgsize * pgsize

def npagesFor (nbytes : Nat) : Nat := roundupPage nbytes / pgsize

theorem npagesFor_mul (n : Nat) : npagesFor n * pgsize = roundupPage n := by
  unfold npagesFor roundupPage
  rw [Nat.mul_div_cancel _ (by decide)]

structure CtSlot where
  csId : Nat := 0
  csRef : Nat := 0
  deriving DecidableEq

/-- The parts of a kernel object that hold references and account for them. An
id of 0 in `koParent`, `koLabel` and `thSg` is a missing object. -/
structure Kobject where
  koType : KobjType
  koRef : Nat := 0
  koParent : Nat := 0
  koFixedQuota : Bool := false
  koQuotaUsed : Nat := kobjDiskSize
  koQuotaTotal : Nat := kobjDiskSize
  koNbytes : Nat := 0
  koLabel : KoLabel → Nat := fun _ ↦ 0
  thSg : Nat := 0
  ctAvoidTypes : KobjType → Bool := fun _ ↦ false
  ctSlots : List CtSlot := []

namespace Kobject

def npages (o : Kobject) : Nat := npagesFor o.koNbytes

def idRef (id : Nat) : Multiset Nat := if id = 0 then 0 else {id}

def slotRef (cs : CtSlot) : Multiset Nat := if cs.csRef = 0 then 0 else {cs.csId}

def typeHeld (o : Kobject) : Multiset Nat :=
  match o.koType with
  | .container => (o.ctSlots.map slotRef).sum
  | .thread => idRef o.thSg
  | _ => 0

def held (o : Kobject) : Multiset Nat := o.typeHeld + ∑ i, idRef (o.koLabel i)

theorem typeHeld_container {o : Kobject} (h : o.koType = .container) :
    o.typeHeld = (o.ctSlots.map slotRef).sum := by
  unfold typeHeld
  rw [h]

theorem typeHeld_thread {o : Kobject} (h : o.koType = .thread) : o.typeHeld = idRef o.thSg := by
  unfold typeHeld
  rw [h]

def base (o : Kobject) : Nat := kobjDiskSize + pgsize * o.npages

def addTotal (n : Nat) (o : Kobject) : Kobject :=
  { o with koQuotaTotal := add64 o.koQuotaTotal n }

def addUsed (n : Nat) (o : Kobject) : Kobject :=
  { o with koQuotaUsed := add64 o.koQuotaUsed n }

def subUsed (n : Nat) (o : Kobject) : Kobject :=
  { o with koQuotaUsed := sub64 o.koQuotaUsed n }

end Kobject

structure Store where
  ids : Finset Nat
  obj : Nat → Kobject
  curThread : Nat
  handleCounter : Nat
  bf61Encipher : Nat → Nat

/-- What the rest of the kernel does during one call: label checks, memory and
the object store are outside this model, and every behaviour is possible. The
last two fields say how far loops are followed. -/
structure Env where
  kobjectIflowCheck : Nat → InfoFlowType → Except Errno Unit
  pstateSwapin : Nat → Errno
  pageAlloc : Nat → Except Errno Unit
  pagetreePutPage : Nat → Nat → Except Errno Unit
  pagetreeCopy : Nat → Except Errno Unit
  kobjectGetPage : Nat → Bool
  checkUserAccess : Except Errno Unit
  ulabel : Option (Except Errno Nat)
  koPinPg : Nat → Bool
  koPin : Nat → Bool
  koOnDisk : Nat → Bool
  gcVisits : List Nat
  chainLimit : Nat
  borrowLimit : Nat

abbrev Sys (α : Type) := Exec Store Errno α

namespace Store

variable (k : Store)

def held (x : Nat) : Multiset Nat := (k.obj x).held

def total (x : Nat) : Nat := (k.obj x).koQuotaTotal

def mapObj (x : Nat) (f : Kobject → Kobject) : Store :=
  { k with obj := update k.obj x (f (k.obj x)) }

theorem mapObj_obj (x : Nat) (f : Kobject → Kobject) (z : Nat) :
    (k.mapObj x f).obj z = if z = x then f (k.obj z) else k.obj z := by
  unfold mapObj
  by_cases h : z = x
  · subst h
    simp
  · simp [h]

@[simp] theorem mapObj_ids (x : Nat) (f : Kobject → Kobject) : (k.mapObj x f).ids = k.ids := rfl

end Store

def deref (x : Nat) : Sys Kobject :=
  Exec.read fun k ↦ if x ∈ k.ids then .ok (k.obj x) else .error .panic

variable {x : Nat} {k : Store}

theorem deref_bind {α : Type} {f : Kobject → Sys α} (hx : x ∈ k.ids) :
    (deref x >>= f) k = f (k.obj x) k := read_bind (if_pos hx)

def curThread : Sys Nat := Exec.read fun k ↦ .ok k.curThread

def modifyObj (x : Nat) (f : Kobject → Kobject) : Sys Unit := Exec.modify fun k ↦ k.mapObj x f

def kobjectIflowCheck (env : Env) (id : Nat) (iflow : InfoFlowType) (k : Store) :
    Except Errno Unit :=
  if iflow = .none ∨ k.curThread = 0 then .ok () else env.kobjectIflowCheck id iflow

/-- The thread-local segment has an id of its own; without a current thread the
translation reads through a null pointer. -/
def kobjectTranslateId (id : Nat) (k : Store) : Except Errno Nat :=
  if id = kobjectIdThreadSg then
    if k.curThread ∈ k.ids then .ok (k.obj k.curThread).thSg else .error .panic
  else .ok id

/-- The check of `kobject_get`: labels may be named by everyone. -/
def labelExempt (env : Env) (id : Nat) (iflow : InfoFlowType) (k : Store) : Except Errno Unit :=
  if (k.obj id).koType = .label then .ok () else kobjectIflowCheck env id iflow k

def kobjectLookup (env : Env) (id : Nat) (type : Option KobjType) (iflow : InfoFlowType)
    (k : Store) : Except Errno Nat :=
  if id ∈ k.ids then
    if (k.obj id).koRef = 0 then .error .notFound
    else do
      labelExempt env id iflow k
      if type = none ∨ type = some (k.obj id).koType then .ok id else .error .notFound
  else .error (env.pstateSwapin id)

def kobjectGet (env : Env) (id : Nat) (type : Option KobjType) (iflow : InfoFlowType)
    (k : Store) : Except Errno Nat := do
  kobjectLookup env (← kobjectTranslateId id k) type iflow k

def kobjectGetLabel (env : Env) (x : Nat) (idx : KoLabel) (k : Store) : Except Errno Nat :=
  if (k.obj x).koLabel idx = 0 then .ok 0
  else kobjectGet env ((k.obj x).koLabel idx) (some .label) .none k

theorem kobjectLookup_ok {env : Env} {id : Nat} {type : Option KobjType} {iflow : InfoFlowType}
    (h : kobjectLookup env id type iflow k = .ok x) :
    x = id ∧ x ∈ k.ids ∧ (k.obj x).koRef ≠ 0 ∧ (type = none ∨ type = some (k.obj x).koType) := by
  unfold kobjectLookup at h
  split at h
  next hx =>
    split at h
    · cases h
    next hr =>
      obtain ⟨_, -, h⟩ := except_bind_ok h
      split at h
      next ht =>
        cases h
        exact ⟨rfl, hx, hr, ht⟩
      next => cases h
  next => cases h

theorem kobjectGet_ok {env : Env} {id : Nat} {type : Option KobjType} {iflow : InfoFlowType}
    (h : kobjectGet env id type iflow k = .ok x) :
    kobjectTranslateId id k = .ok x ∧ x ∈ k.ids ∧ (k.obj x).koRef ≠ 0 ∧
      (type = none ∨ type = some (k.obj x).koType) := by
  obtain ⟨y, hy, hl⟩ := except_bind_ok h
  obtain ⟨rfl, hx⟩ := kobjectLookup_ok hl
  exact ⟨hy, hx⟩

end HiStar.Kobj
