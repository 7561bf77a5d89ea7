import HiStar.Types

namespace HiStar.FsDir

abbrev Name := List UInt8

def fsNameLen : Nat := 128

/-- A slot of a directory segment. The generation, by which readers notice a
change under way, plays no part for the holder of the lock. -/
structure DirSlot where
  inuse : Bool := false
  id : Nat := 0
  name : Name := []
  deriving DecidableEq

namespace DirSlot

def names (x : DirSlot) (id : Nat) : Bool := x.inuse && x.id = id

def isEntry (x : DirSlot) (name : Name) (id : Nat) : Bool := x.inuse && x.id = id && x.name = name

end DirSlot

/-- The slots in a directory segment with `extraPages` pages after the first: the
segment starts with a lock and that number, and a slot takes 152 bytes. -/
def capacity (extraPages : Nat) : Nat := ((extraPages + 1) * 4096 - 16) / 152

structure Dseg where
  id : Nat
  extraPages : Nat := 0
  slots : List DirSlot := List.replicate (capacity 0) {}
  deriving DecidableEq

namespace Dseg

def count (d : Dseg) (id : Nat) : Nat := d.slots.countP (·.names id)

def entries (d : Dseg) (name : Name) (id : Nat) : Nat := d.slots.countP (·.isEntry name id)

/-- `fs_dir_dseg::remove`: every slot with the name and the id. With `fault` a
page fault stops the loop at that slot. -/
def remove (d : Dseg) (name : Name) (id : Nat) (fault : Option Nat) : Option Errno × Dseg :=
  let clear (x : DirSlot) : DirSlot := if x.isEntry name id then { x with inuse := false } else x
  match fault with
  | none => (none, { d with slots := d.slots.map clear })
  | some k => (some .label, { d with slots := (d.slots.take k).map clear ++ d.slots.drop k })

def lookup (d : Dseg) (name : Name) : Option Nat :=
  (d.slots.find? fun x ↦ x.inuse && x.name = name).map (·.id)

def genBusy : Nat := 2 ^ 64 - 1

/-- A slot as a reader without the lock finds it. -/
structure ReadSlot extends DirSlot where
  gen : Nat := 0

/-- `fs_dir_dseg::lookup` without the lock. A reader that comes to a slot with a change under
way waits for the end of the change: without a result, when it never comes. -/
def readLookup : List ReadSlot → Name → Option (Option Nat)
  | [], _ => some none
  | x :: slots, name =>
    if x.gen = genBusy then none
    else if x.inuse && x.name = name then some (some x.id)
    else readLookup slots name

theorem readLookup_eq {d : Dseg} {slots : List ReadSlot} (hd : d.slots = slots.map (·.toDirSlot))
    (hquiet : ∀ x ∈ slots, x.gen ≠ genBusy) (name : Name) :
    readLookup slots name = some (d.lookup name) := by
  unfold lookup
  rw [hd]
  clear hd
  induction slots with
  | nil => rfl
  | cons x slots ih =>
    obtain ⟨hx, hquiet⟩ := List.forall_mem_cons.mp hquiet
    rw [readLookup, if_neg hx, List.map_cons, List.find?_cons]
    split
    next h => rw [h]; rfl
    next h => rw [Bool.not_eq_true] at h; rw [h]; exact ih hquiet

def grow (d : Dseg) : Dseg :=
  { d with
    extraPages := d.extraPages + 1
    slots := d.slots ++
      List.replicate (capacity (d.extraPages + 1) - capacity d.extraPages) {} }

def put (d : Dseg) (name : Name) (id : Nat) : Option Dseg :=
  (d.slots.findIdx? (!·.inuse)).map fun i ↦ { d with slots := d.slots.set i ⟨true, id, name⟩ }

/-- The loop of `fs_dir_dseg::insert`, followed for two rounds: in a full
segment the slots that `grow` adds are free. -/
def putGrow (d : Dseg) (name : Name) (id : Nat) : Except Errno Dseg :=
  match d.put name id with
  | some d => .ok d
  | none =>
    match d.grow.put name id with
    | some d => .ok d
    | none => .error .loops

end Dseg

/-- How a call of the library ends: it returns 0 or an error, or an exception
that is not an `error` leaves it. -/
inductive Outcome
  | ret (r : Option Errno)
  | thrown
  deriving DecidableEq

/-- `fs_dir_dseg::insert`. An over-long name throws an exception of another type
than `fail`, a page fault or a failed growth. -/
inductive Inserted
  | ok (d : Dseg)
  | error (e : Errno)
  | thrown

def Dseg.insert (d : Dseg) (name : Name) (id : Nat) (fail : Option Errno) : Inserted :=
  if name.length > fsNameLen - 1 then .thrown
  else
    match fail with
    | some e => .error e
    | none =>
      match d.putGrow name id with
      | .ok d => .ok d
      | .error e => .error e

/-! ### Counting -/

namespace Dseg

variable {p : DirSlot → Bool}

theorem free_false (hp : ∀ x, p x = true → x.inuse = true) {x : DirSlot}
    (hx : x.inuse = false) : p x = false := by
  by_contra hcon
  have := hp x (by simpa using hcon)
  simp [hx] at this

theorem put_countP {d d' : Dseg} {name : Name} {id : Nat} (h : d.put name id = some d')
    (hp : ∀ x, p x = true → x.inuse = true) :
    d'.slots.countP p = d.slots.countP p + if p ⟨true, id, name⟩ then 1 else 0 := by
  obtain ⟨i, hi, rfl⟩ := Option.map_eq_some_iff.mp h
  obtain ⟨hlt, hfree, -⟩ := List.findIdx?_eq_some_iff_getElem.mp hi
  have hold : p d.slots[i] = false := free_false hp (by simpa using hfree)
  simp [List.countP_set hlt, hold]

theorem grow_countP (d : Dseg) (hp : ∀ x, p x = true → x.inuse = true) :
    d.grow.slots.countP p = d.slots.countP p := by
  have hfree : p {} = false := free_false hp rfl
  simp [grow, List.countP_append, List.countP_replicate, hfree]

theorem putGrow_countP {d d' : Dseg} {name : Name} {id : Nat} (h : d.putGrow name id = .ok d')
    (hp : ∀ x, p x = true → x.inuse = true) :
    d'.slots.countP p = d.slots.countP p + if p ⟨true, id, name⟩ then 1 else 0 := by
  unfold putGrow at h
  split at h
  next hput =>
    cases h
    exact put_countP hput hp
  next =>
    split at h
    next hput =>
      cases h
      rw [put_countP hput hp, grow_countP d hp]
    next => cases h

theorem putGrow_ok (d : Dseg) (name : Name) (id : Nat) : ∃ d', d.putGrow name id = .ok d' := by
  unfold putGrow
  cases hput : d.put name id with
  | some d' => exact ⟨d', rfl⟩
  | none =>
    have hcap : 0 < capacity (d.extraPages + 1) - capacity d.extraPages := by
      simp only [capacity]
      omega
    have hsome : ∃ i, d.grow.slots.findIdx? (!·.inuse) = some i := by
      refine Option.isSome_iff_exists.mp (List.findIdx?_isSome.trans ?_)
      exact List.any_eq_true.mpr ⟨{}, by simp [grow, hcap.ne'], rfl⟩
    obtain ⟨i, hi⟩ := hsome
    exact ⟨_, by simp only [put, hi, Option.map_some]; rfl⟩

theorem remove_countP (d : Dseg) (name : Name) (id : Nat) (hp : ∀ x, p x = true → x.inuse = true) :
    (d.remove name id none).2.slots.countP p +
      d.slots.countP (fun x ↦ x.isEntry name id && p x) = d.slots.countP p := by
  simp only [remove]
  induction d.slots with
  | nil => rfl
  | cons x l ih =>
    simp only [List.map_cons, List.countP_cons]
    have hcleared : p { x with inuse := false } = false := free_false hp rfl
    cases hx : x.isEntry name id with
    | true =>
      simp only [if_true, hcleared, Bool.true_and, Bool.false_eq_true, if_false]
      omega
    | false =>
      simp only [Bool.false_and]
      simp only [Bool.false_eq_true, if_false]
      omega

end Dseg

end HiStar.FsDir
