import HiStar.Btree.Transparent
import HiStar.Pstate.LogRefines

namespace HiStar.Btree

open Lib Function
open Pstate (Block Machine IoEnv Io LogOk memBlock)

variable {α ρ β : Type}

instance [Zero α] : Zero (Block α) := ⟨⟨0, 0⟩⟩

structure Nodes (α ρ : Type) where
  cache : Cache (Block α)
  machine : Machine α ρ

def onCache (c : Exec (Cache (Block α)) Errno β) : Exec (Nodes α ρ) Errno β := fun s ↦
  ((c s.cache).1, { s with cache := (c s.cache).2 })

def onLog (c : Io α ρ β) : Exec (Nodes α ρ) Errno β := fun s ↦
  ((c s.machine).1, { s with machine := (c s.machine).2 })

/-- The read of a node that is not cached. Whatever the error of `log_try_read`, the node is
taken not to be in the log. -/
def readNode (io : IoEnv) (off : Nat) : Io α ρ (Block α) := do
  match ← Exec.attempt (Pstate.logTryRead io off) with
  | .ok b => pure b
  | .error _ => do
    Pstate.diskIoOrFail io (.read off)
    Pstate.blockAt off

section Calls

variable [Zero α]

def pbtreeOpenNode (io : IoEnv) (off : UInt64) : Exec (Nodes α ρ) Errno Nat := do
  match ← Exec.attempt (onCache (Cache.ent off)) with
  | .ok i => pure i
  | .error _ => do
    let buf ← onLog (readNode io off.toNat)
    onCache (Cache.tryInsert off buf)

def pbtreeCloseNode (off : UInt64) : Exec (Nodes α ρ) Errno Nat := onCache (Cache.decRef off)

def pbtreeNewNode (off : UInt64) : Exec (Nodes α ρ) Errno Nat := onCache (Cache.alloc off)

def pbtreeFreeNode (off : UInt64) : Exec (Nodes α ρ) Errno Nat := do
  onLog (Pstate.logFree off.toNat)
  onCache (Cache.rem off)

/-- New contents are stored into the buffer of a node, and saved by `pbtree_save_node`. -/
def storeNode (io : IoEnv) (off : UInt64) (x : α) : Exec (Nodes α ρ) Errno Nat := fun s ↦
  match s.cache.find off with
  | some i => (do
      onCache (Exec.modify (Cache.fill i ⟨off.toNat, x⟩))
      onLog (Pstate.logWrite io ⟨off.toNat, x⟩)
      pure 0) s
  | none => (.error .panic, s)

end Calls

/-- The calls for the nodes of one tree, and the calls of the log for the nodes of the other trees,
which have caches of their own. -/
inductive NodeCall (α : Type)
  | openNode (off : UInt64)
  | closeNode (off : UInt64)
  | newNode (off : UInt64)
  | freeNode (off : UInt64)
  | store (off : UInt64) (x : α)
  | log (op : Pstate.LogOp α)

def NodeCall.run [Zero α] (io : IoEnv) : NodeCall α → Exec (Nodes α ρ) Errno Nat
  | .openNode off => pbtreeOpenNode io off
  | .closeNode off => pbtreeCloseNode off
  | .newNode off => pbtreeNewNode off
  | .freeNode off => pbtreeFreeNode off
  | .store off x => storeNode io off x
  | .log op => onLog (do
      op.run io
      pure 0)

/-- What was last saved of each node, since it was made if it is a new one, and what the holders
of references know of the cache. -/
structure NodeView (α : Type) where
  cache : View (Block α)
  latest : Nat → Option (Block α)

def NodeView.after (v : NodeView α) (s : Nodes α ρ) : NodeCall α → Except Errno Nat → NodeView α
  | .openNode off, .ok i =>
    { v with cache := v.cache.after s.cache (.tryInsert off (s.cache.buf i)) (.ok i) }
  | .closeNode off, r => { v with cache := v.cache.after s.cache (.decRef off) r }
  | .newNode off, .ok i =>
    ⟨v.cache.after s.cache (.alloc off) (.ok i), update v.latest off.toNat none⟩
  | .freeNode off, r => ⟨v.cache.after s.cache (.rem off) r, update v.latest off.toNat none⟩
  | .store off x, .ok _ =>
    ⟨v.cache.store off (((v.cache.held off).map Prod.fst).getD 0) ⟨off.toNat, x⟩,
      update v.latest off.toNat (some ⟨off.toNat, x⟩)⟩
  | .log (.write b), .ok _ => { v with latest := update v.latest b.offset (some b) }
  | .log (.free off), .ok _ => { v with latest := update v.latest off none }
  | _, _ => v

/-- A node is stored into and freed by a holder of a reference, the latter the only one; new
nodes and those of other trees are not cached. The blocks of nodes lie outside of the log, and the
log has room for what is flushed. -/
def NodeCall.Proper (s : Nodes α ρ) (v : NodeView α) : NodeCall α → Prop
  | .newNode off => v.cache.held off = none
  | .freeNode off => v.cache.refs off = 1
  | .store off x => 0 < v.cache.refs off ∧
    (Pstate.LogOp.write ⟨off.toNat, x⟩).InRange s.machine
  | .log op => op.InRange s.machine ∧ ∀ t, op.block? = some t.toNat → v.cache.held t = none
  | _ => True

/-- The states that proper calls meeting `P` lead to, each with its own pattern of failing reads,
on a disk with any contents. -/
inductive NodeRun [Zero α] (nEnt npages : Nat)
    (P : IoEnv → Nodes α ρ → NodeView α → NodeCall α → Prop) : Nodes α ρ → NodeView α → Prop
  | init (d : Pstate.Disk α ρ) : NodeRun nEnt npages P
      ⟨Cache.init nEnt, Pstate.logInitial npages d⟩
      ⟨View.empty, fun off ↦
        if (Pstate.logInitial npages d).log.outside off then some (d.block off) else none⟩
  | step {s s' : Nodes α ρ} {v : NodeView α} {op : NodeCall α} {r : Except Errno Nat} (io : IoEnv)
      (h : NodeRun nEnt npages P s v) (hio : io.WritesOk) (hproper : op.Proper s v)
      (hp : P io s v op) (hrun : op.run io s = (r, s')) (hr : r ≠ .error .panic) :
      NodeRun nEnt npages P s' (v.after s' op r)

/-- A read of the log succeeds when the log on disk has the only copy of the node, no block is
flushed that has an older entry behind a tombstone, and no count of references overflows. -/
def Careful (io : IoEnv) (s : Nodes α ρ) (v : NodeView α) : NodeCall α → Prop
  | .openNode off => v.cache.refs off < 65535 ∧ (v.cache.held off = none →
    memBlock s.machine.log.nodes off.toNat = none → (s.machine.logged off.toNat).isSome →
      io.reads s.machine.dev.issued.length = true)
  | .store off x => (Pstate.LogOp.write ⟨off.toNat, x⟩).FlushesOk s.machine
  | .log op => op.FlushesOk s.machine
  | _ => True

end HiStar.Btree
