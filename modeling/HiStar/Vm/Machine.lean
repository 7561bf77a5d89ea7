import HiStar.Iflow.Level
import HiStar.Vm.AddressSpace

namespace HiStar.Vm

open Function

variable {D : Type}

/-- An object whose pages can be mapped: a segment or a frame buffer device. The
contents of a page are of any type. -/
structure Obj (D : Type) where
  koType : KobjType
  label : Nat
  readonly : Bool := false
  nbytes : Nat
  pages : List D

structure Thread where
  label : Nat
  sg : Nat

/-- Objects, address spaces, the current thread, and a bound on the ids in
use. Copies of pages are kept apart by copy-on-write, so every object has its own
contents here. -/
structure Machine (D : Type) where
  obj : Nat → Option (Obj D)
  as : Nat → Option AddressSpace
  curThread : Thread
  nextId : Nat

abbrev LabelOrder := Iflow.LevelComparator → Nat → Nat → Bool

def kobjectIflowCheck (leq : LabelOrder) (th : Thread) (o : Obj D) :
    InfoFlowType → Except Errno Unit
  | .none => .ok ()
  | .read => if leq .starhi o.label th.label then .ok () else .error .label
  | .rw =>
    if o.readonly then .error .readOnly
    else if leq .starlo th.label o.label && leq .starhi o.label th.label then .ok ()
    else .error .label
  | .alloc => if leq .starlo th.label o.label then .ok () else .error .label

namespace Machine

def kobjectTranslateId (s : Machine D) (id : Nat) : Nat :=
  if id = kobjectIdThreadSg then s.curThread.sg else id

/-- `cobj_get`; `ct` is what the look at the container answers. -/
def cobjGet (leq : LabelOrder) (s : Machine D) (ct : Option Errno) (object : Nat)
    (iflow : InfoFlowType) : Except Errno (Nat × Obj D) :=
  let id := s.kobjectTranslateId object
  match ct with
  | some e => .error e
  | none =>
    match s.obj id with
    | none => .error .notFound
    | some o =>
      match kobjectIflowCheck leq s.curThread o iflow with
      | .error e => .error e
      | .ok () => .ok (id, o)

def mapAs (s : Machine D) (f : AddressSpace → AddressSpace) : Machine D :=
  { s with as := fun a ↦ (s.as a).map f }

def setAs (s : Machine D) (a : Nat) (as : AddressSpace) : Machine D :=
  { s with as := update s.as a (some as) }

def segmentInvalidate (s : Machine D) (ko parentCt : Nat) : Machine D :=
  s.mapAs (·.segmentInvalidate ko parentCt)

def segmentMapRo (s : Machine D) (ko : Nat) : Machine D := s.mapAs (·.segmentMapRo ko)

end Machine

/-! ### Page faults -/

/-- What the rest of the kernel answers during a fault: the container of the
segment, memory for the page table and the slot records, for each page whether
it could be had and put into the page table, and the segments whose mappings the
copy of a shared page invalidates. -/
structure FaultEnv where
  ct : Option Errno
  pageMapAlloc : Option Errno
  getSegmap : Option Errno
  page : Nat → Option Errno
  copied : Nat → List Nat

def asCourtesyPages : Nat := 8

def asVaToSegmentPage (u : USegmentMapping) (vpn : Nat) : Nat :=
  let mappingPage := vpn - u.va.toNat / pgsize
  let mappingPage :=
    if u.has segmapReversePages then u.numPages.toNat - mappingPage - 1 else mappingPage
  (u.startPage.toNat + mappingPage) % 2 ^ 64

namespace Machine

def modifyAs (s : Machine D) (a : Nat) (f : AddressSpace → AddressSpace) : Machine D :=
  { s with as := update s.as a ((s.as a).map f) }

/-- The loop of `as_pmap_fill_kobj` over the pages `vpns`; a failure counts only
at the page that is needed. -/
def fillLoop (env : FaultEnv) (a i id : Nat) (o : Obj D) (u : USegmentMapping) (w : Bool)
    (need : Nat) : List Nat → Machine D → Option Errno × Machine D
  | [], s => (none, s)
  | vpn :: vpns, s =>
    let segpage := asVaToSegmentPage u vpn
    let s := (env.copied vpn).foldl (fun s ko ↦ s.segmentInvalidate ko 0) s
    let failure :=
      if o.pages.length ≤ segpage ∨ ulim ≤ vpn * pgsize then some .inval else env.page vpn
    match failure with
    | some e => if vpn ≠ need then fillLoop env a i id o u w need vpns s else (some e, s)
    | none =>
      fillLoop env a i id o u w need vpns 
        (s.modifyAs a (·.mapPgmap (update · vpn (some ⟨id, segpage, w, i⟩))))

def asPmapFillKobj (env : FaultEnv) (s : Machine D) (a i id : Nat) (o : Obj D) (u : USegmentMapping)
    (need : Nat) (w : Bool) : Option Errno × Machine D :=
  let first := u.va.toNat / pgsize
  let last := first + (u.numPages.toNat - 1)
  if u.numPages = 0 then (some .inval, s)
  else if 2 ^ 64 ≤ first * pgsize + (u.numPages.toNat - 1) * pgsize ∨ u.va.toNat % pgsize ≠ 0 then
    (some .inval, s)
  else
    let mapFirst := if need - first > asCourtesyPages then need - asCourtesyPages else first
    let mapLast := if last - need > asCourtesyPages then need + asCourtesyPages else last
    let s := s.modifyAs a (·.setSm i fun sm ↦ { sm with smKo := none })
    match fillLoop env a i id o u w need (List.range' mapFirst (mapLast + 1 - mapFirst)) s with
    | (none, s) =>
      (none, s.modifyAs a (·.setSm i fun sm ↦
        { sm with smKo := some id, smRwMappings := w || sm.smRwMappings }))
    | (some e, s) =>
      (some e, s.modifyAs a (·.mapPgmap (·.invalidate u.va u.mapLast)))

def covers (u : USegmentMapping) (vpn : Nat) : Bool :=
  u.va.toNat / pgsize * pgsize + u.numPages.toNat * pgsize < 2 ^ 64 &&
    u.va.toNat / pgsize ≤ vpn && vpn < u.va.toNat / pgsize + u.numPages.toNat

/-- `as_pmap_fill`, from slot `i` on: the first slot that covers the page with
the flags required decides. A writable mapping of a segment that the thread may
not write to is made read-only for an access that does not write. -/
def asPmapFill (leq : LabelOrder) (env : FaultEnv) (s : Machine D) (a vpn : Nat) (req : UInt32) :
    Nat → List USegmentMapping → Option Errno × Machine D
  | _, [] => (some .notFound, s)
  | i, u :: us =>
    if !u.has segmapRead || u.flags &&& req ≠ req || !covers u vpn then
      asPmapFill leq env s a vpn req (i + 1) us
    else
      let fill (id : Nat) (o : Obj D) (w : Bool) : Option Errno × Machine D :=
        if o.koType ≠ .segment ∧ o.koType ≠ .device then (some .inval, s)
        else
          match env.getSegmap with
          | some e => (some e, s)
          | none =>
            asPmapFillKobj env
              (s.modifyAs a (·.setSm i fun sm ↦ { sm with smCtId := u.container })) a i id o u vpn w
      match s.cobjGet leq env.ct u.object (if u.has segmapWrite then .rw else .read) with
      | .ok (id, o) => fill id o (u.has segmapWrite)
      | .error e =>
        if e = .label ∧ u.has segmapWrite ∧ req &&& segmapWrite = 0 then
          match s.cobjGet leq env.ct u.object .read with
          | .ok (id, o) => fill id o false
          | .error e => (some e, s)
        else (some e, s)

def asPagefault (leq : LabelOrder) (env : FaultEnv) (s : Machine D) (a vpn : Nat) (req : UInt32) :
    Option Errno × Machine D :=
  match s.as a with
  | none => (some .notFound, s)
  | some as =>
    match as.asPgmap with
    | some _ => asPmapFill leq env s a vpn req 0 as.usm
    | none =>
      match env.pageMapAlloc with
      | some e => (some e, s)
      | none =>
        asPmapFill leq env (s.setAs a { as with
          asPgmap := some fun _ ↦ none
          asPgmapTlsId := s.curThread.sg
          asPgmapLabelId := s.curThread.label }) a vpn req 0 as.usm

/-! ### Switching -/

def slotDenied (leq : LabelOrder) (ct : Option Errno) (s : Machine D) (u : USegmentMapping) :
    Bool :=
  match s.cobjGet leq ct u.object (if u.has segmapWrite then .rw else .read) with
  | .error _ => true
  | .ok (_, o) => o.koType ≠ .segment

/-- `as_switch_invalidate`; `ct` is what the look at the container of a slot
answers. -/
def asSwitchInvalidate (leq : LabelOrder) (ct : Nat → Option Errno) (s : Machine D)
    (as : AddressSpace) (invalidateTls checkLabel : Bool) : AddressSpace :=
  if !invalidateTls && !checkLabel then as
  else (List.range as.usm.length).foldl (fun as i ↦
    match (as.sm i).smKo, as.usm[i]? with
    | some _, some u =>
      if (invalidateTls && u.object = kobjectIdThreadSg) ||
          (checkLabel && s.slotDenied leq (ct i) u) then
        as.asInvalidateSm i
      else as
    | _, _ => as) as

/-- `as_switch` for the current thread; when memory for a slot record cannot be
had, everything mapped is dropped. -/
def asSwitch (leq : LabelOrder) (ct : Nat → Option Errno) (noMem : Bool) (s : Machine D) (a : Nat) :
    Machine D :=
  s.modifyAs a fun as ↦
    let tls := as.asPgmapTlsId ≠ s.curThread.sg
    let lbl := as.asPgmapLabelId ≠ s.curThread.label
    let as' :=
      if noMem ∧ (tls ∨ lbl) then as.asInvalidate else s.asSwitchInvalidate leq ct as tls lbl
    { as' with asPgmapTlsId := s.curThread.sg, asPgmapLabelId := s.curThread.label }

end Machine

end HiStar.Vm
