import HiStar.Lib.Exec
import HiStar.Errno

namespace HiStar.Btree

open Lib Function

structure Cmeta where
  inuse : Bool
  ref : UInt16
  tag : UInt64
  deriving DecidableEq

/-- `struct cache`: the two parallel arrays, with the contents of each buffer as one value, and
the entries of `lru_stack` from its head on. -/
structure Cache (α : Type) where
  nEnt : Nat
  cmeta : Nat → Cmeta
  buf : Nat → α
  lruStack : List Nat

namespace Cache

variable {α : Type} [Zero α]

/-- `cache_init`: every entry goes to the head of the list. -/
def init (nEnt : Nat) : Cache α where
  nEnt := nEnt
  cmeta := fun _ ↦ ⟨false, 0, 0⟩
  buf := fun _ ↦ 0
  lruStack := (List.range nEnt).foldl (fun l i ↦ i :: l) []

def find (c : Cache α) (t : UInt64) : Option Nat :=
  (List.range c.nEnt).find? fun i ↦ (c.cmeta i).inuse && decide (t = (c.cmeta i).tag)

def toTail (i : Nat) (c : Cache α) : Cache α := { c with lruStack := c.lruStack.erase i ++ [i] }

def toHead (i : Nat) (c : Cache α) : Cache α := { c with lruStack := i :: c.lruStack.erase i }

def setMeta (i : Nat) (m : Cmeta) (c : Cache α) : Cache α := { c with cmeta := update c.cmeta i m }

def fill (i : Nat) (x : α) (c : Cache α) : Cache α := { c with buf := update c.buf i x }

/-- `cache_alloc`. The head of the list of a cache without entries is a null pointer. -/
def alloc (tag : UInt64) : Exec (Cache α) Errno Nat := fun c ↦
  if tag = 0 then (.error .inval, c)
  else
    match c.lruStack with
    | [] => (.error .panic, c)
    | cm :: rest =>
      if (c.cmeta cm).inuse then
        match (cm :: rest).find? fun i ↦ decide ((c.cmeta i).ref = 0) with
        | none => (.error .noSpace, c)
        | some i => (.ok i, ((c.fill i 0).toTail i).setMeta i ⟨true, 1, tag⟩)
      else (.ok cm, (c.toTail cm).setMeta cm ⟨true, 1, tag⟩)

def ent (t : UInt64) : Exec (Cache α) Errno Nat := fun c ↦
  if t = 0 then (.error .inval, c)
  else
    match c.find t with
    | some i => (.ok i, (c.toTail i).setMeta i { c.cmeta i with ref := (c.cmeta i).ref + 1 })
    | none => (.error .notFound, c)

def tryInsert (t : UInt64) (src : α) : Exec (Cache α) Errno Nat := fun c ↦
  if t = 0 then (.error .inval, c)
  else
    match ent t c with
    | (.error .notFound, c) =>
      match alloc t c with
      | (.ok i, c) => (.ok i, c.fill i src)
      | r => r
    | r => r

def rem (t : UInt64) : Exec (Cache α) Errno Nat := fun c ↦
  if t = 0 then (.error .inval, c)
  else
    match c.find t with
    | some i =>
      let ref := (c.cmeta i).ref - 1
      let c := (c.fill i 0).setMeta i ⟨false, ref, (c.cmeta i).tag⟩
      if ref ≠ 0 then (.error .panic, c) else (.ok 1, (c.setMeta i ⟨false, ref, 0⟩).toHead i)
    | none => (.error .notFound, c)

def decRef (t : UInt64) : Exec (Cache α) Errno Nat := fun c ↦
  if t = 0 then (.error .inval, c)
  else
    match c.find t with
    | some i =>
      if (c.cmeta i).ref = 0 then (.error .panic, c)
      else (.ok 0, c.setMeta i { c.cmeta i with ref := (c.cmeta i).ref - 1 })
    | none => (.error .notFound, c)

def flushFrom : List Nat → Exec (Cache α) Errno Nat
  | [], c => (.ok 0, c)
  | i :: is, c =>
    if (c.cmeta i).ref ≠ 0 then (.error .panic, c)
    else flushFrom is (c.setMeta i { c.cmeta i with inuse := false, tag := 0 })

def flush : Exec (Cache α) Errno Nat := fun c ↦ flushFrom (List.range c.nEnt) c

end Cache

inductive Call (α : Type)
  | alloc (t : UInt64)
  | tryInsert (t : UInt64) (src : α)
  | ent (t : UInt64)
  | decRef (t : UInt64)
  | rem (t : UInt64)
  | flush

variable {α : Type} [Zero α]

def Call.run : Call α → Exec (Cache α) Errno Nat
  | .alloc t => Cache.alloc t
  | .tryInsert t src => Cache.tryInsert t src
  | .ent t => Cache.ent t
  | .decRef t => Cache.decRef t
  | .rem t => Cache.rem t
  | .flush => Cache.flush

/-- What the clients of the cache know: for a tag the buffer that it was last given, unless it
was evicted, removed or flushed since, with the contents last stored there, and the number of
references to it. -/
structure View (α : Type) where
  held : UInt64 → Option (Nat × α)
  refs : UInt64 → Nat

namespace View

def empty : View α := ⟨fun _ ↦ none, fun _ ↦ 0⟩

def acquire (t : UInt64) (v : View α) : View α := { v with refs := update v.refs t (v.refs t + 1) }

def release (t : UInt64) (v : View α) : View α := { v with refs := update v.refs t (v.refs t - 1) }

def assign (t : UInt64) (i : Nat) (x : α) (v : View α) : View α :=
  { v with
    held := fun u ↦ if u = t then some (i, x) else (v.held u).filter fun e ↦ decide (e.1 ≠ i) }

def forget (t : UInt64) (v : View α) : View α := { v with held := update v.held t none }

def store (t : UInt64) (i : Nat) (x : α) (v : View α) : View α :=
  { v with held := update v.held t (some (i, x)) }

def after (v : View α) (c : Cache α) : Call α → Except Errno Nat → View α
  | .alloc t, .ok i => (v.assign t i (c.buf i)).acquire t
  | .tryInsert t src, .ok i =>
    if (v.held t).isSome then v.acquire t else (v.assign t i src).acquire t
  | .ent t, .ok _ => v.acquire t
  | .decRef t, .ok _ => v.release t
  | .rem t, .ok _ => (v.forget t).release t
  | .flush, .ok _ => { v with held := fun _ ↦ none }
  | _, .error _ => v

end View

/-- A tag is allocated when it is not cached, removed by the only holder of a reference, and the
cache is flushed when there are no references. -/
def Call.Proper (v : View α) : Call α → Prop
  | .alloc t => v.held t = none
  | .rem t => v.held t = none ∨ v.refs t = 1
  | .flush => ∀ t, v.refs t = 0
  | _ => True

/-- The states of a cache of `nEnt` entries that proper calls meeting `P` lead to. A call that
panics does not return. Between the calls a holder of a reference stores into its buffer. -/
inductive Run (P : View α → Call α → Prop) (nEnt : Nat) : Cache α → View α → Prop
  | init : Run P nEnt (Cache.init nEnt) View.empty
  | call {c c' : Cache α} {v : View α} {op : Call α} {r : Except Errno Nat} (h : Run P nEnt c v)
      (hproper : op.Proper v) (hp : P v op) (hrun : op.run c = (r, c'))
      (hr : r ≠ .error .panic) : Run P nEnt c' (v.after c' op r)
  | store {c : Cache α} {v : View α} {t : UInt64} {i : Nat} (h : Run P nEnt c v)
      (hheld : (v.held t).map Prod.fst = some i) (href : 0 < v.refs t) (y : α) :
      Run P nEnt (c.fill i y) (v.store t i y)

def Call.wants : Call α → Option UInt64
  | .alloc t | .tryInsert t _ | .ent t => some t
  | _ => none

structure Transparent (c : Cache α) (v : View α) : Prop where
  tags : ∀ i < c.nEnt, ∀ j < c.nEnt, (c.cmeta i).inuse = true → (c.cmeta j).inuse = true →
    (c.cmeta i).tag = (c.cmeta j).tag → i = j
  pinned : ∀ (op : Call α) t i c', op.wants = some t → op.Proper v → op.run c = (.ok i, c') →
    ∀ u x, v.held u = some (i, x) → u = t ∨ v.refs u = 0
  found : ∀ t i x, v.held t = some (i, x) → t ≠ 0 ∧ ∃ c', Cache.ent t c = (.ok i, c') ∧ c'.buf i = x
  missing : ∀ t, t ≠ 0 → v.held t = none → Cache.ent t c = (.error .notFound, c)
  lru : ∀ i, c.lruStack.count i = if i < c.nEnt then 1 else 0
  full : ∀ (op : Call α) t c', op.wants = some t → op.Proper v → op.run c = (.error .noSpace, c') →
    ∀ i < c.nEnt, ∃ u x, v.held u = some (i, x) ∧ 0 < v.refs u
  returns : ∀ t, (Cache.alloc t c).1 ≠ .error .panic

end HiStar.Btree
