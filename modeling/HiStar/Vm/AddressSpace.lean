import HiStar.Types

namespace HiStar.Vm

open Function

def pgsize : Nat := 4096

def ulim : Nat := 0x0000800000000000

def segmapWrite : UInt32 := 0x02

def segmapRead : UInt32 := 0x04

def segmapReversePages : UInt32 := 0x08

structure USegmentMapping where
  container : Nat
  object : Nat
  startPage : UInt64
  numPages : UInt64
  kslot : UInt32
  flags : UInt32
  va : UInt64
  deriving DecidableEq

namespace USegmentMapping

def zero : USegmentMapping := ⟨0, 0, 0, 0, 0, 0, 0⟩

def has (u : USegmentMapping) (flag : UInt32) : Bool := u.flags &&& flag ≠ 0

/-- The last address that `as_invalidate_sm` and `as_map_ro_sm` compute; the sum
wraps around. -/
def mapLast (u : USegmentMapping) : UInt64 := u.va + (u.numPages - 1) * 4096

end USegmentMapping

/-- A present page table entry: the page it maps and whether it is writable. The
slot it was installed through is bookkeeping of the model. -/
structure Pte where
  obj : Nat
  page : Nat
  w : Bool
  slot : Nat
  deriving DecidableEq

abbrev Pagemap := Nat → Option Pte

/-- The entries that `page_map_traverse` visits: `last` is clamped to the last
user page, and a `last` below `first` leaves nothing. -/
def traversed (first last : UInt64) (vpn : Nat) : Bool :=
  first.toNat / pgsize ≤ vpn &&
    vpn ≤ (if last.toNat ≥ ulim then ulim - pgsize else last.toNat) / pgsize

namespace Pagemap

def invalidate (pm : Pagemap) (first last : UInt64) : Pagemap := fun vpn ↦
  if traversed first last vpn then none else pm vpn

def mapRo (pm : Pagemap) (first last : UInt64) : Pagemap := fun vpn ↦
  if traversed first last vpn then (pm vpn).map fun e ↦ { e with w := false } else pm vpn

end Pagemap

structure SegmentMapping where
  smKo : Option Nat := none
  smCtId : Nat := 0
  smRwMappings : Bool := false

structure AddressSpace where
  usm : List USegmentMapping := []
  sm : Nat → SegmentMapping := fun _ ↦ {}
  asPgmap : Option Pagemap := none
  asPgmapTlsId : Nat := 0
  asPgmapLabelId : Nat := 0

namespace AddressSpace

def pte (a : AddressSpace) (vpn : Nat) : Option Pte := a.asPgmap.bind (· vpn)

def setSm (a : AddressSpace) (i : Nat) (f : SegmentMapping → SegmentMapping) : AddressSpace :=
  { a with sm := update a.sm i (f (a.sm i)) }

def mapPgmap (a : AddressSpace) (f : Pagemap → Pagemap) : AddressSpace :=
  { a with asPgmap := a.asPgmap.map f }

def asInvalidateSm (a : AddressSpace) (i : Nat) : AddressSpace :=
  match (a.sm i).smKo, a.usm[i]? with
  | some _, some u =>
    (a.mapPgmap (·.invalidate u.va u.mapLast)).setSm i fun sm ↦
      { sm with smKo := none, smRwMappings := false }
  | _, _ => a

def asMapRoSm (a : AddressSpace) (i : Nat) : AddressSpace :=
  match (a.sm i).smRwMappings, a.usm[i]? with
  | true, some u =>
    (a.mapPgmap (·.mapRo u.va u.mapLast)).setSm i fun sm ↦ { sm with smRwMappings := false }
  | _, _ => a

/-- `segment_invalidate`, as far as this address space goes: the slots that map
`ko`, from any container or from one. -/
def segmentInvalidate (a : AddressSpace) (ko parentCt : Nat) : AddressSpace :=
  (List.range a.usm.length).foldl (fun a i ↦
    if (a.sm i).smKo = some ko ∧ (parentCt = 0 ∨ parentCt = (a.sm i).smCtId) then
      a.asInvalidateSm i
    else a) a

def segmentMapRo (a : AddressSpace) (ko : Nat) : AddressSpace :=
  (List.range a.usm.length).foldl (fun a i ↦
    if (a.sm i).smKo = some ko then a.asMapRoSm i else a) a

/-- `as_invalidate`: the page table and every slot's record are dropped. -/
def asInvalidate (a : AddressSpace) : AddressSpace :=
  { a with asPgmap := none, sm := fun _ ↦ {} }

/-- Whether `as_set_uslot` takes a new value for the growth of a mapping, for
which it keeps the pages that are mapped. -/
def growsTo (old new : USegmentMapping) : Bool :=
  old.object = new.object && old.container = new.container && old.startPage = new.startPage &&
    old.kslot = new.kslot && old.flags = new.flags && old.va = new.va &&
    old.numPages ≤ new.numPages && !old.has segmapReversePages

def asSetUslot (a : AddressSpace) (new : USegmentMapping) : Except Errno AddressSpace :=
  let slot := new.kslot.toNat
  match a.usm[slot]? with
  | none => .error .inval
  | some old =>
    let a := if growsTo old new then a else a.asInvalidateSm slot
    .ok { a with usm := a.usm.set slot new }

def usegmapPerPage : Nat := 85

def asResize (a : AddressSpace) (nent : Nat) : AddressSpace :=
  let n := (nent + usegmapPerPage - 1) / usegmapPerPage * usegmapPerPage
  { a with usm := a.usm ++ List.replicate (n - a.usm.length) .zero }

/-- `as_from_user` up to slot `n`, where it ends or fails: old slots are cleared
and the new ones numbered, and in either case everything mapped is dropped. -/
def asFromUser (a : AddressSpace) (ents : List USegmentMapping) (n : Nat) : AddressSpace :=
  let a := if ents.length > a.usm.length then a.asResize ents.length else a
  asInvalidate { a with usm := a.usm.mapIdx fun i u ↦
    if i < n then
      match ents[i]? with
      | some e => { e with kslot := i.toUInt32 }
      | none => .zero
    else u }

end AddressSpace

end HiStar.Vm
