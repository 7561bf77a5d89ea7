import HiStar.Types

namespace HiStar.Mmap

@[ext]
structure Mapping where
  segment : CobjRef
  startPage : Nat
  numPages : Nat
  flags : UInt32
  va : Nat
  deriving DecidableEq

namespace Mapping

variable (x y : Mapping)

def readable : Bool := x.flags &&& 0x04 ≠ 0

def reversed : Bool := x.flags &&& 0x08 ≠ 0

def anon : Bool := x.flags &&& 0x0400 ≠ 0

def vaEnd : Nat := (x.va + x.numPages * 4096) % 2 ^ 64

def Covers (page : Nat) : Prop := x.va ≤ 4096 * page ∧ 4096 * page < x.vaEnd

def translate (page : Nat) : CobjRef × Nat × UInt32 :=
  let i := (4096 * page - x.va) / 4096
  (x.segment, x.startPage + (if x.reversed then x.numPages - i - 1 else i), x.flags)

def Apart : Prop :=
  x.vaEnd ≤ x.va ∨ y.vaEnd ≤ y.va ∨ x.vaEnd ≤ y.va ∨ y.vaEnd ≤ x.va

instance : Decidable (x.Apart y) := inferInstanceAs (Decidable (_ ∨ _))

/-- What holds of every mapping that `segment_map` makes. It takes the address 0 for no
address, counts bytes in 64 bits, and maps only what can be read. The offset of a file
mapping is the caller's; anonymous memory is mapped forwards from the start of its segment. -/
structure Valid : Prop where
  readable : x.readable = true
  nonzero : x.va ≠ 0
  aligned : x.va % 4096 = 0
  va_lt : x.va < 2 ^ 64
  pages_lt : x.numPages < 2 ^ 52
  place : x.anon = true → x.va < x.vaEnd → x.startPage + x.numPages ≤ 2 ^ 52
  forward : x.anon = true → x.reversed = false

end Mapping

/-- An address space: its live slots, in order, where an anonymous mapping overlaps no other. -/
structure AddressSpace where
  ents : List Mapping
  valid : ∀ x ∈ ents, x.Valid
  apart : ents.Pairwise fun x y ↦ x.anon = true ∨ y.anon = true → x.Apart y

def segmentLookup (ents : List Mapping) (va : Nat) : Option Mapping :=
  ents.find? fun x ↦ x.va ≤ va ∧ va < x.vaEnd

def segmentLookupObj (ents : List Mapping) (oid : Nat) : Option Mapping :=
  ents.find? fun x ↦ x.segment.object = oid

/-- What the calls of `munmap` meet: whether they can read and change the address space, the
slot for the right part, and an address for it when none is asked for. -/
structure Answers where
  lookup : Bool
  slot : Option Nat
  chosen : Nat
  left : Bool
  unmap : Bool
  undo : Bool
  lookupObj : Bool

def segmentUnmap (ents : List Mapping) (va : Nat) (ok : Bool) : Option (List Mapping) :=
  if ok ∧ ents.any (·.va = va) then some (ents.eraseP (·.va = va)) else none

/-- An address that `segment_map` chooses for a mapping is free. -/
def isFree (ents : List Mapping) (e : Mapping) : Bool :=
  e.va < 2 ^ 64 ∧ e.va % 4096 = 0 ∧ ∀ x ∈ ents, x.Apart e ∧ ¬(x.va ≤ e.va ∧ e.va < x.vaEnd)

def segmentMapOverlap (ents : List Mapping) (e : Mapping) (slot : Option Nat) (chosen : Nat) :
    Option (List Mapping × Nat) :=
  let new := if e.va = 0 then { e with va := chosen } else e
  match slot with
  | none => none
  | some i =>
    if e.readable ∧ (e.va = 0 → isFree ents new) then
      some (ents.take i ++ new :: ents.drop i, new.va)
    else none

/-- Whether `segment_map` sees a conflict of a live mapping with a new one. -/
def conflicts (e x : Mapping) : Bool := x.va < e.vaEnd ∧ e.va < x.vaEnd

def breakUp (e x : Mapping) : List Mapping :=
  (if e.vaEnd < x.vaEnd then
    [{ x with
      va := e.vaEnd
      startPage := x.startPage + (e.vaEnd - x.va) / 4096
      numPages := (x.vaEnd - e.vaEnd) / 4096 }] else []) ++
  (if x.va < e.va then [{ x with numPages := (e.va - x.va) / 4096 }] else [])

/-- The slots after `segment_map` with `SEG_MAPOPT_REPLACE`. The first mapping that starts at
the same address and place as the new one is replaced; others in its way are broken up. -/
def replaceIn (e : Mapping) : List Mapping → Bool → List Mapping
  | [], found => if found then [] else [e]
  | x :: ents, found =>
    if conflicts e x then
      if x.va = e.va ∧ x.startPage = e.startPage ∧ found = false then e :: replaceIn e ents true
      else breakUp e x ++ replaceIn e ents found
    else x :: replaceIn e ents found

def segmentMapReplace (ents : List Mapping) (e : Mapping) (ok : Bool) : Option (List Mapping) :=
  if ok ∧ e.readable then some (replaceIn e ents false) else none

def roundup (n : Nat) : Nat := (n + 4095) % 2 ^ 64 / 4096 * 4096

/-- How a call ends: after a read of a variable without a value, with -1, or with 0, where a
reference to a segment may have been dropped. -/
inductive Outcome
  | undefined
  | failed (ents : List Mapping)
  | done (ents : List Mapping) (unref : Option CobjRef)
  deriving DecidableEq

def wordSub (a b : Nat) : Nat := (((a : Int) - b) % 2 ^ 64).toNat

def leftPages (omap : Mapping) (start : Nat) : Nat := wordSub start omap.va / 4096

def rightPages (omap : Mapping) (start length : Nat) : Nat :=
  wordSub (wordSub omap.numPages (length / 4096)) (leftPages omap start)

def rightChunk (omap : Mapping) (start length : Nat) : Mapping where
  segment := omap.segment
  startPage := ((omap.startPage + leftPages omap start) * 4096 + length) % 2 ^ 64 / 4096
  numPages := rightPages omap start length * 4096 % 2 ^ 64 / 4096
  flags := omap.flags
  va := (start + length) % 2 ^ 64

def leftChunk (omap : Mapping) (start : Nat) : Mapping where
  segment := omap.segment
  startPage := omap.startPage * 4096 % 2 ^ 64 / 4096
  numPages := leftPages omap start * 4096 % 2 ^ 64 / 4096
  flags := omap.flags
  va := omap.va

/-- The first step for an anonymous mapping: the slots, and the address of the right part. -/
def mapRight (ents : List Mapping) (omap : Mapping) (start length : Nat) (ans : Answers) :
    Option (List Mapping × Nat) :=
  if rightPages omap start length = 0 then some (ents, 0)
  else segmentMapOverlap ents (rightChunk omap start length) ans.slot ans.chosen

def dropOld (ents : List Mapping) (omap : Mapping) (start : Nat) (ans : Answers) :
    Option (List Mapping) :=
  if leftPages omap start = 0 then segmentUnmap ents omap.va ans.unmap
  else segmentMapReplace ents (leftChunk omap start) ans.left

/-- The part of `munmap` for a mapping that is not anonymous. -/
def munmapFile (ents : List Mapping) (omap : Mapping) (start length : Nat) (ans : Answers) :
    Outcome :=
  if omap.va = start ∧ omap.numPages = roundup length / 4096 then
    match segmentUnmap ents start ans.unmap with
    | none => .failed ents
    | some ents => .done ents none
  else .failed ents

def munmapAnon (ents : List Mapping) (omap : Mapping) (start length : Nat) (ans : Answers) :
    Outcome :=
  match mapRight ents omap start length ans with
  | none => .failed ents
  | some (ents, rightVa) =>
    match dropOld ents omap start ans with
    | none =>
      if rightVa = 0 then .failed ents
      else .failed ((segmentUnmap ents rightVa ans.undo).getD ents)
    | some ents =>
      if ans.lookupObj ∧ segmentLookupObj ents omap.segment.object = none then
        .done ents (some omap.segment)
      else .done ents none

def munmap (ents : List Mapping) (start length : Nat) (ans : Answers) : Outcome :=
  if start % 4096 ≠ 0 then .failed ents
  else if ans.lookup = false then .failed ents
  else
    match segmentLookup ents start with
    | none => .undefined -- 0 is not taken for a failure, and the mapping was not filled in
    | some omap =>
      if omap.anon then munmapAnon ents omap start (roundup length) ans
      else munmapFile ents omap start (roundup length) ans

end HiStar.Mmap
