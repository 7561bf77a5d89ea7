import HiStar.Errno
import HiStar.Lib.Exec
import HiStar.Pstate.Log

namespace HiStar.Pstate.OpQueue

open Lib Function

/-- An operation of the queue: its function and the arguments of it. -/
inductive Op
  | swapin (id : Nat)
  | syncObject (ko start nbytes : Nat)
  | sync (gc : Bool)
  deriving DecidableEq

def Op.prio : Op → Nat
  | .swapin _ => 1
  | .syncObject _ _ _ => 2
  | .sync false => 3
  | .sync true => 4

/-- What the persistent store keeps between system calls. Timestamps stand here
deciphered; an object that was never written has none. The operation that runs
on the stack of its own is kept with the timestamp it has taken. -/
structure Sched where
  part : Option Nat
  magicOk : Bool
  syncTs : Nat
  counter : Nat
  koSyncTs : Nat → Option Nat
  queue : Option Op
  locked : Bool
  waiting : List Nat
  running : Option (Op × Nat)

abbrev Call := Exec Sched Errno Unit

/-- `thread_suspend_cur` on the list of waiting threads. Without a current thread
nothing is suspended: the only other list is this one. -/
def suspendCur : Option Nat → Sched → Sched
  | some t, s => { s with waiting := t :: s.waiting.erase t }
  | none, s => s

def queuePrio (s : Sched) : Nat := (s.queue.map Op.prio).getD 0

def pstateOpSchedule (op : Op) (s : Sched) : Sched :=
  if queuePrio s < op.prio then { s with queue := some op } else s

def await (cur : Option Nat) (op : Op) (s : Sched) : Sched := pstateOpSchedule op (suspendCur cur s)

def pstateSwapin (cur : Option Nat) (id : Nat) : Call := do
  let s ← Exec.get
  Exec.when s.part.isSome (Exec.modify (await cur (.swapin id)))
  Exec.fail .restart

def pstateSync (cur : Option Nat) (gc : Bool) : Call := do
  let s ← Exec.get
  Exec.when s.part.isSome (Exec.modify (await cur (.sync gc)))

def pstateSyncUser (cur : Option Nat) (timestamp : Nat) : Call := do
  let s ← Exec.get
  if s.part.isNone || (s.magicOk && timestamp < s.syncTs) then pure ()
  else do
    Exec.modify (await cur (.sync false))
    Exec.fail .restart

def pstateSyncObject (cur : Option Nat) (timestamp ko start nbytes : Nat) : Call := do
  let s ← Exec.get
  if s.part.isNone then pure ()
  else if !s.magicOk then do
    Exec.modify (await cur (.sync false))
    Exec.fail .restart
  else if (s.koSyncTs ko).any fun ts ↦ timestamp < ts then pure ()
  else do
    Exec.modify (await cur (.syncObject ko start nbytes))
    Exec.fail .restart

def pstateSyncPeriodic (s : Sched) : Sched :=
  if s.part.isSome then pstateOpSchedule (.sync false) s else s

def headerPages : Nat := 1

def logMax (pdSize : Nat) : Nat := min (pdSize / 65536) maxLogPages

def tooSmall (pdSize : Nat) : Bool := pdSize / pgsize ≤ headerPages + logMax pdSize

def takeTs (op : Op) (s : Sched) : Sched :=
  { s with running := some (op, s.counter), counter := s.counter + 1 }

/-- The start of an operation, with the lock held. A synchronisation returns at
once when there is no partition, or one that cannot be formatted. -/
def startOp : Op → Sched → Sched
  | .swapin id, s => { s with running := some (.swapin id, 0) }
  | .syncObject ko start nbytes, s => takeTs (.syncObject ko start nbytes) s
  | .sync gc, s =>
    match s.part with
    | none => s
    | some size => if !s.magicOk && tooSmall size then s else takeTs (.sync gc) s

/-- How an operation ends: a synchronisation has written the objects listed, or
has failed. -/
inductive Outcome
  | done (dirty : List Nat)
  | failed

def release (s : Sched) : Sched := { s with locked := false, running := none }

def wakeAll (s : Sched) : Sched := { s with waiting := [] }

def finishOp (o : Outcome) (s : Sched) : Sched :=
  match s.running with
  | none => s
  | some (.swapin _, _) => wakeAll (release s)
  | some (.syncObject ko _ _, ts) =>
    match o with
    | .done _ => release (wakeAll { s with koSyncTs := update s.koSyncTs ko (some ts) })
    | .failed => pstateOpSchedule (.sync false) (release s)
  | some (.sync _, ts) =>
    match o with
    | .done dirty => release (wakeAll { s with
        magicOk := true
        syncTs := ts
        koSyncTs := fun ko ↦ if ko ∈ dirty then some ts else s.koSyncTs ko })
    | .failed => release (wakeAll s)

def pstateSyncNow (cur : Option Nat) : Call := do
  let s ← Exec.get
  if s.part.isNone then pure ()
  else if s.locked then do
    Exec.modify (suspendCur cur)
    Exec.fail .restart
  else Exec.modify fun s ↦ startOp (.sync false) { s with locked := true }

/-- What the garbage collection does to the store on its way: it halts threads,
asks for objects and runs out of memory. -/
inductive Aside
  | leave (t : Nat)
  | swapin (id : Nat)
  | outOfMemory

def Aside.run : Aside → Sched → Sched
  | .leave t, s => { s with waiting := s.waiting.erase t }
  | .swapin id, s => (pstateSwapin none id s).2
  | .outOfMemory, s => (pstateSync none true s).2

def gcScan (asides : List Aside) (s : Sched) : Sched := asides.foldl (fun s a ↦ a.run s) s

/-- `pstate_op_check`. For each round the list says what happens in the garbage
collection, and how the operation ends if it does so before it has to sleep. -/
def pstateOpCheck : List (List Aside × Option Outcome) → Sched → Sched
  | [], s => s
  | (asides, ends) :: rounds, s =>
    match s.queue with
    | none => s
    | some op =>
      let s := { s with queue := none }
      let s := if op = .sync true then gcScan asides s else s
      if s.locked then s
      else
        let s := startOp op { s with locked := true }
        pstateOpCheck rounds (ends.elim s fun o ↦ finishOp o s)

inductive Step
  | swapin (cur : Option Nat) (id : Nat)
  | sync (cur : Option Nat) (gc : Bool)
  | syncUser (cur : Option Nat) (timestamp : Nat)
  | syncObject (cur : Option Nat) (timestamp ko start nbytes : Nat)
  | syncNow (cur : Option Nat)
  | periodic
  | timestamp
  | opCheck (rounds : List (List Aside × Option Outcome))
  | finish (o : Outcome)
  | leave (t : Nat)

def Step.run : Step → Sched → Sched
  | .swapin cur id, s => (pstateSwapin cur id s).2
  | .sync cur gc, s => (pstateSync cur gc s).2
  | .syncUser cur ts, s => (pstateSyncUser cur ts s).2
  | .syncObject cur ts ko start n, s => (pstateSyncObject cur ts ko start n s).2
  | .syncNow cur, s => (pstateSyncNow cur s).2
  | .periodic, s => pstateSyncPeriodic s
  | .timestamp, s => { s with counter := s.counter + 1 }
  | .opCheck rounds, s => pstateOpCheck rounds s
  | .finish o, s => finishOp o s
  | .leave t, s => (Aside.leave t).run s

/-- The store after `pstate_init`, with the header that was read, if any. -/
def booted (part : Option Nat) (magicOk : Bool) (syncTs counter : Nat)
    (koSyncTs : Nat → Option Nat) : Sched where
  part := part
  magicOk := magicOk
  syncTs := syncTs
  counter := counter
  koSyncTs := koSyncTs
  queue := none
  locked := false
  waiting := []
  running := none

inductive Reachable (s₀ : Sched) : Sched → Prop
  | init : Reachable s₀ s₀
  | step {s : Sched} (h : Reachable s₀ s) (e : Step) : Reachable s₀ (e.run s)

end HiStar.Pstate.OpQueue
