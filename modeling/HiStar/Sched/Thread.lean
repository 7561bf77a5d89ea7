import HiStar.Errno
import HiStar.Lib.Exec
import HiStar.Lib.LinkedList
import HiStar.Sched.Stride

namespace HiStar.Sched

open Lib Function

inductive ThreadStatus
  | notStarted
  | runnable
  | suspended
  | halted
  deriving DecidableEq

/-- The lists that `th_link` can stand on: the runnable threads, those that
`sync_wait` has put to sleep, and the wait lists of the rest of the kernel. -/
inductive ThreadList
  | runnable
  | syncTimeWaiting
  | waiting (n : Nat)
  deriving DecidableEq

structure CobjRef where
  container : UInt64
  object : UInt64
  deriving DecidableEq

/-- A wait slot is named by its thread and its number: `te_sync` is slot 0, the others
lie in the pages of the thread. -/
abbrev SlotId := Nat × Nat

structure SyncWaitSlot where
  swSeg : UInt64
  swOffset : UInt64
  swT : Nat
  swCobj : CobjRef
  deriving DecidableEq

/-- What the scheduler keeps of a thread. `thSched` is the union of `th_sched_pass` and
`th_sched_remain`, and the list of the wait slots is in the order of `sw_thread_link`. -/
structure Thread where
  koRef : Nat
  koPin : Nat
  thAs : Option Nat
  thStatus : ThreadStatus
  thPinned : Bool
  thSchedJoined : Bool
  thSyncWaiting : Bool
  thLinked : Bool
  thSchedTickets : BitVec 32
  thMultiSlots : Nat
  thSchedParents : UInt64 × UInt64
  thSched : BitVec 64
  teWakeupNsec : UInt64
  teWaitSlots : List SlotId

/-- The scheduler's part of the kernel. Threads are named by their addresses, and `core`
has those that are in memory. `tsc` are the values of the time stamp counter that are
still to be read. -/
structure Sys where
  core : Finset Nat
  thread : Nat → Thread
  slot : SlotId → SyncWaitSlot
  thLink : Links ThreadList Nat
  swAddrLink : Links (Fin 512) SlotId
  swCobjLink : Links (Fin 512) SlotId
  asPin : Nat → Nat
  curThread : Option Nat
  globalTickets : BitVec 64
  globalPass : BitVec 64
  lastTsc : BitVec 64
  tsc : Nat → BitVec 64

abbrev Kern := Exec Sys Errno

def threadOf (t : Nat) : Kern Thread := Exec.read fun s ↦ .ok (s.thread t)

def Sys.setThread (s : Sys) (t : Nat) (f : Thread → Thread) : Sys :=
  { s with thread := update s.thread t (f (s.thread t)) }

def setThread (t : Nat) (f : Thread → Thread) : Kern Unit := Exec.modify fun s ↦ s.setThread t f

def kobjectPinHdr (t : Nat) : Kern Unit := setThread t fun th ↦ { th with koPin := th.koPin + 1 }

def kobjectUnpinHdr (t : Nat) : Kern Unit := do
  Exec.require ((← threadOf t).koPin ≠ 0) .panic
  setThread t fun th ↦ { th with koPin := th.koPin - 1 }

def threadPin (t : Nat) : Kern Unit := do
  Exec.when (!(← threadOf t).thPinned) do
    setThread t fun th ↦ { th with thPinned := true }
    kobjectPinHdr t

def threadUnpin (t : Nat) : Kern Unit := do
  Exec.when (← threadOf t).thPinned do
    setThread t fun th ↦ { th with thPinned := false }
    kobjectUnpinHdr t

def karchGetTsc : Kern (BitVec 64) := fun s ↦
  (.ok (s.tsc 0), { s with tsc := fun n ↦ s.tsc (n + 1) })

def globalPassUpdate (newGlobalPass : BitVec 64) : Kern Unit := do
  let now ← karchGetTsc
  Exec.modify fun s ↦
    let elapsed := now - s.lastTsc
    { s with
      lastTsc := s.lastTsc + elapsed
      globalPass :=
        if newGlobalPass ≠ 0 then newGlobalPass
        else if s.globalTickets ≠ 0 then s.globalPass + stride1 / s.globalTickets * elapsed
        else s.globalPass }

def schedJoin (t : Nat) : Kern Unit := do
  globalPassUpdate 0
  Exec.modify fun s ↦ s.setThread t fun th ↦ { th with thSched := s.globalPass + th.thSched }
  Exec.modify fun s ↦
    { s with globalTickets := s.globalTickets + (s.thread t).thSchedTickets.setWidth 64 }

def schedLeave (t : Nat) : Kern Unit := do
  globalPassUpdate 0
  Exec.modify fun s ↦ s.setThread t fun th ↦ { th with thSched := th.thSched - s.globalPass }
  Exec.modify fun s ↦
    { s with globalTickets := s.globalTickets - (s.thread t).thSchedTickets.setWidth 64 }

def threadSchedAdjust (t : Nat) (runnable : Bool) : Kern Unit := do
  Exec.when ((← threadOf t).thSchedJoined && !runnable) do
    schedLeave t
    setThread t fun th ↦ { th with thSchedJoined := false }
  Exec.when (!(← threadOf t).thSchedJoined && runnable) do
    schedJoin t
    setThread t fun th ↦ { th with thSchedJoined := true }

def Sys.removeSlot (s : Sys) (x : SlotId) : Sys :=
  { s with
    swAddrLink := s.swAddrLink.remove x
    swCobjLink :=
      if (s.slot x).swCobj.object ≠ 0 then s.swCobjLink.remove x else s.swCobjLink }

def syncRemoveThread (t : Nat) : Kern Unit := do
  Exec.require (← threadOf t).thSyncWaiting .panic
  setThread t fun th ↦ { th with thSyncWaiting := false }
  let te ← threadOf t
  setThread t fun th ↦ { th with teWaitSlots := [] }
  Exec.modify fun s ↦ te.teWaitSlots.foldl Sys.removeSlot s

def threadUnlink (t : Nat) : Kern Unit := do
  Exec.when (← threadOf t).thLinked do
    Exec.modify fun s ↦ { s with thLink := s.thLink.remove t }
    setThread t fun th ↦ { th with thLinked := false }
  Exec.when (← threadOf t).thSyncWaiting (syncRemoveThread t)

def threadLink (t : Nat) (tlist : ThreadList) : Kern Unit := do
  Exec.require (!(← threadOf t).thLinked) .panic
  Exec.modify fun s ↦ { s with thLink := s.thLink.insertHead tlist t }
  setThread t fun th ↦ { th with thLinked := true }

def threadSetRunnable (t : Nat) : Kern Unit := do
  threadSchedAdjust t false
  threadUnlink t
  threadLink t .runnable
  setThread t fun th ↦ { th with thStatus := .runnable }
  threadSchedAdjust t true
  threadPin t

def threadSuspend (t : Nat) (waitq : ThreadList) : Kern Unit := do
  threadSchedAdjust t false
  threadUnlink t
  threadLink t waitq
  setThread t fun th ↦ { th with thStatus := .suspended }
  threadPin t

def threadHalt (t : Nat) : Kern Unit := do
  threadSchedAdjust t false
  threadUnlink t
  setThread t fun th ↦ { th with thStatus := .halted }
  threadUnpin t
  Exec.modify fun s ↦ if s.curThread = some t then { s with curThread := none } else s

def threadSwapin (t : Nat) : Kern Unit := do
  setThread t fun th ↦
    { th with
      thAs := none
      thPinned := false
      thSchedJoined := false
      thSyncWaiting := false
      thLinked := false
      thSched := 0 }
  Exec.when ((← threadOf t).thStatus = .suspended)
    (setThread t fun th ↦ { th with thStatus := .runnable })
  Exec.when ((← threadOf t).thStatus = .runnable) do
    threadLink t .runnable
    threadSchedAdjust t true
    threadPin t

/-- A thread as `kobject_alloc` has cleared it and `thread_alloc` then sets it up. -/
def newThread : Thread where
  koRef := 0
  koPin := 0
  thAs := none
  thStatus := .notStarted
  thPinned := false
  thSchedJoined := false
  thSyncWaiting := false
  thLinked := false
  thSchedTickets := 1024
  thMultiSlots := 0
  thSchedParents := (0, 0)
  thSched := 0
  teWakeupNsec := 0
  teWaitSlots := []

/-- `kobject` is the address that `kobject_alloc` returns, and `segment` what becomes of the
thread-local segment. -/
def threadAlloc (kobject : Except Errno Nat) (segment : Except Errno Unit) : Kern Nat := do
  let t ← Exec.lift kobject
  Exec.modify fun s ↦
    { s with core := insert t s.core, thread := update s.thread t newThread }
  Exec.lift segment
  threadSwapin t
  pure t

/-- `kobject_swapin` of a thread that has been read from disk into the page `t`. -/
def kobjectSwapin (t : Nat) (th : Thread) : Kern Unit := do
  Exec.modify fun s ↦
    { s with core := insert t s.core, thread := update s.thread t { th with koPin := 0 } }
  threadSwapin t

def threadClearAs (t : Nat) : Kern Unit := do
  match (← threadOf t).thAs with
  | none => pure ()
  | some as =>
    Exec.require ((← Exec.get).asPin as ≠ 0) .panic
    Exec.modify fun s ↦ { s with asPin := update s.asPin as (s.asPin as - 1) }
    setThread t fun th ↦ { th with thAs := none }

def threadSwapout (t : Nat) : Kern Unit := do
  threadUnpin t
  threadSchedAdjust t false
  threadUnlink t
  threadClearAs t

/-- `kobject_swapout` of a thread, and its page is free afterwards. -/
def kobjectSwapout (t : Nat) : Kern Unit := do
  Exec.require ((← threadOf t).koPin = 0) .panic
  threadSwapout t
  Exec.modify fun s ↦ { s with core := s.core.erase t }

/-- What a look at one of the scheduling parents gives. On `-E_RESTART` the current thread may
have been put to sleep until the container is in memory. -/
inductive ParentLookup
  | holds
  | fails
  | restart (waitq : Option Nat)

def sleepFor (t : Nat) : Option Nat → Kern Unit
  | none => pure ()
  | some waitq => threadSuspend t (.waiting waitq)

def checkParents (t : Nat) : List ParentLookup → Kern Unit
  | [] => threadHalt t
  | .holds :: _ => pure ()
  | .restart waitq :: _ => sleepFor t waitq
  | .fails :: rest => checkParents t rest

def threadCheckSchedParents (p₀ p₁ : ParentLookup) (t : Nat) : Kern Unit := do
  if (← Exec.get).curThread ≠ some t then pure ()
  else checkParents t [p₀, p₁]

def threadOnDecref (p₀ p₁ : ParentLookup) (t : Nat) (parentCt : UInt64) : Kern Unit := do
  let th ← threadOf t
  if th.koRef = 0 then threadHalt t
  else if parentCt = th.thSchedParents.1 ∨ parentCt = th.thSchedParents.2 then
    threadCheckSchedParents p₀ p₁ t
  else pure ()

end HiStar.Sched
