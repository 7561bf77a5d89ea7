import HiStar.Iflow.LabelOps

namespace HiStar.Userlabel

open Iflow

/-- `struct ulabel`; the entries are the used ones, so that `ul_nent` is their
number. -/
structure Ulabel where
  ulSize : Nat
  ulDefault : Nat
  ulEnt : List Nat
  deriving DecidableEq

structure Label extends Ulabel where
  dynamic : Bool := true
  deriving DecidableEq

inductive Thrown
  | badAlloc
  | staticallyAllocated
  deriving DecidableEq

abbrev Heap := Nat → Bool

namespace Ulabel

def get (l : Ulabel) (handle : Nat) : Nat :=
  match l.ulEnt.find? fun e ↦ lbHandle e = handle with
  | some e => lbLevel e
  | none => l.ulDefault

def handles (l : Ulabel) : List Nat := l.ulEnt.map lbHandle

end Ulabel

namespace Label

def new (def_ : Nat) : Label := { ulSize := 0, ulDefault := def_, ulEnt := [] }

def get (l : Label) (handle : Nat) : Nat := l.toUlabel.get handle

def reset (l : Label) (def_ : Nat) : Label := { l with ulDefault := def_, ulEnt := [] }

/-- `label::grow`; the new size is computed in 32 bits, and the allocator has
nothing for a size of 0. -/
def grow (mem : Heap) (l : Label) (needed : Nat) : Except Thrown Label :=
  if !l.dynamic then .error .staticallyAllocated
  else
    let newsize := (l.ulSize + needed) % 2 ^ 32
    if newsize = 0 ∨ !mem newsize then .error .badAlloc else .ok { l with ulSize := newsize }

def makeRoom (mem : Heap) (l : Label) : Except Thrown Label :=
  if l.ulSize ≤ l.ulEnt.length then l.grow mem (max l.ulSize 8) else .ok l

/-- `label::slot_grow`: a slot whose level is the default is used again. -/
def slotGrow (mem : Heap) (l : Label) (handle : Nat) : Except Thrown (Label × Nat) :=
  match l.ulEnt.findIdx? fun e ↦ lbLevel e = l.ulDefault with
  | some i => .ok (l, i)
  | none => do
    let l ← l.makeRoom mem
    pure ({ l with ulEnt := l.ulEnt ++ [lbCode handle l.ulDefault] }, l.ulEnt.length)

def slotAlloc (mem : Heap) (l : Label) (handle : Nat) : Except Thrown (Label × Nat) :=
  match l.ulEnt.findIdx? fun e ↦ lbHandle e = handle with
  | some i => .ok (l, i)
  | none => l.slotGrow mem handle

def set (mem : Heap) (l : Label) (handle level : Nat) : Except Thrown Label := do
  let (l, i) ← l.slotAlloc mem handle
  pure { l with ulEnt := l.ulEnt.set i (lbCode handle level) }

/-- Set the levels that `f` gives at the handles `hs`, one after the other. -/
def setAll (mem : Heap) (f : Nat → Nat) : List Nat → Label → Except Thrown Label
  | [], l => .ok l
  | h :: hs, l => do
    let l ← l.set mem h (f h)
    setAll mem f hs l

def assign (mem : Heap) (l src : Label) : Except Thrown Label :=
  (l.reset src.ulDefault).setAll mem src.get src.handles

def fromEntries (mem : Heap) : List Nat → Label → Except Thrown Label
  | [], l => .ok l
  | e :: es, l => do
    let l ← l.set mem (lbHandle e) (lbLevel e)
    fromEntries mem es l

def fromUlabel (mem : Heap) (l : Label) (src : Ulabel) : Except Thrown Label :=
  fromEntries mem src.ulEnt (l.reset src.ulDefault)

def compare (a b : Label) (cmp : LevelComparator) : Bool :=
  cmp.cmp a.ulDefault b.ulDefault &&
    a.handles.all (fun h ↦ cmp.cmp (a.get h) (b.get h)) &&
    b.handles.all fun h ↦ cmp.cmp (a.get h) (b.get h)

def merge (mem : Heap) (a b out : Label) (m : Nat → Nat → LevelComparator → Nat)
    (cmp : LevelComparator) : Except Thrown Label :=
  let f := fun h ↦ m (a.get h) (b.get h) cmp
  do
    let out ← (out.reset (m a.ulDefault b.ulDefault cmp)).setAll mem f a.handles
    out.setAll mem f b.handles

def transformFrom (mem : Heap) (t : Nat → Nat) (i : Nat) : Nat → Label → Except Thrown Label
  | 0, l => .ok l
  | n + 1, l => do
    let h := lbHandle (l.ulEnt.getD i 0)
    let l ← l.set mem h (t (l.get h))
    transformFrom mem t (i + 1) n l

def transform (mem : Heap) (l : Label) (t : Nat → Nat) : Except Thrown Label :=
  transformFrom mem t 0 l.ulEnt.length { l with ulDefault := t l.ulDefault }

def max (a b : Nat) (leq : LevelComparator) : Nat := if leq.cmp a b then b else a

def min (a b : Nat) (leq : LevelComparator) : Nat := if leq.cmp a b then a else b

def starTo (arg l : Nat) : Nat := if l = lbLevelStar then arg else l

def nonstarTo (arg l : Nat) : Nat := if l ≠ lbLevelStar then arg else l

end Label

end HiStar.Userlabel
