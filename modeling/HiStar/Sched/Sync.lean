import HiStar.Sched.Thread

namespace HiStar.Sched

open Lib Function

/-- The two hash tables of wait slots, `sync_addr_waiting` and `sync_cobj_waiting`. -/
inductive Table
  | addr
  | cobj
  deriving DecidableEq

def Sys.links (s : Sys) : Table → Links (Fin 512) SlotId
  | .addr => s.swAddrLink
  | .cobj => s.swCobjLink

def hashSlot (key : UInt64) : Fin 512 := Fin.ofNat 512 (key &&& 511).toNat

def syncAddrHead (segId offset : UInt64) : Fin 512 := hashSlot (segId ^^^ (offset >>> 3))

def syncCobjHead (cobj : CobjRef) : Fin 512 := hashSlot (cobj.container ^^^ cobj.object)

/-- What the kernel finds for one of the addresses of `sync_wait`: the value and reference the
caller gives, then the results of getting the page of the slot, of `check_user_access`, of reading
the address, of `as_invert_mapped` and of `cobj_get`. -/
structure WaitFor where
  val : UInt64
  refct : UInt64
  page : Except Errno Unit
  access : Except Errno Unit
  current : UInt64
  inverted : Except Errno (UInt64 × UInt64)
  segment : Except Errno Unit

def setSlot (x : SlotId) (f : SyncWaitSlot → SyncWaitSlot) : Kern Unit :=
  Exec.modify fun s ↦ { s with slot := update s.slot x (f (s.slot x)) }

/-- The result is true when the thread has to wait, and false for the return value 0. -/
def syncWaitslotInit (w : WaitFor) (x : SlotId) (t : Nat) : Kern Bool := do
  Exec.lift w.access
  if w.current ≠ w.val then pure false
  else do
    let (seg, offset) ← Exec.lift w.inverted
    setSlot x fun sw ↦ { sw with swSeg := seg, swOffset := offset }
    if w.refct ≠ 0 then
      setSlot x fun sw ↦ { sw with swCobj := ⟨w.refct, seg⟩ }
      Exec.lift w.segment
    else
      setSlot x fun sw ↦ { sw with swCobj := ⟨0, 0⟩ }
    setThread t fun th ↦ { th with teWaitSlots := x :: th.teWaitSlots }
    setSlot x fun sw ↦ { sw with swT := t }
    pure true

/-- The slots from number `i` on. The first one is `te_sync` and needs no page. -/
def initSlots (t : Nat) : Nat → List WaitFor → Kern Bool
  | _, [] => pure true
  | i, w :: rest => do
    Exec.when (i ≠ 0) (Exec.lift w.page)
    if ← syncWaitslotInit w (t, i) t then initSlots t (i + 1) rest
    else pure false

def Sys.insertSlot (s : Sys) (x : SlotId) : Sys :=
  let sw := s.slot x
  { s with
    swAddrLink := s.swAddrLink.insertHead (syncAddrHead sw.swSeg sw.swOffset) x
    swCobjLink :=
      if sw.swCobj.object ≠ 0 then s.swCobjLink.insertHead (syncCobjHead sw.swCobj) x
      else s.swCobjLink }

def threadLoadAs (as : Except Errno Nat) (t : Nat) : Kern Unit := do
  match (← threadOf t).thAs with
  | some _ => pure ()
  | none =>
    let as ← Exec.lift as
    setThread t fun th ↦ { th with thAs := some as }
    Exec.modify fun s ↦ { s with asPin := update s.asPin as (s.asPin as + 1) }

def curThreadOf : Kern Nat := Exec.read fun s ↦
  match s.curThread with
  | some t => .ok t
  | none => .error .panic

/-- `nowNsec` is the value of `timer_user_nsec`. The result is true when the thread has been put to
sleep. -/
def syncWait (as : Except Errno Nat) (nowNsec : UInt64) (ws : List WaitFor) (wakeupNsec : UInt64) :
    Kern Bool := do
  let t ← curThreadOf
  if ws.length = 0 then pure false
  else do
    Exec.require (ws.length ≤ (← threadOf t).thMultiSlots + 1) .noSpace
    if wakeupNsec ≤ nowNsec then pure false
    else do
      threadLoadAs as t
      setThread t fun th ↦ { th with teWaitSlots := [] }
      if ← initSlots t 0 ws then
        let te ← threadOf t
        Exec.modify fun s ↦ te.teWaitSlots.foldl Sys.insertSlot s
        setThread t fun th ↦ { th with teWakeupNsec := wakeupNsec }
        threadSuspend t .syncTimeWaiting
        setThread t fun th ↦ { th with thSyncWaiting := true }
        pure true
      else pure false

/-- `LIST_NEXT(prev)`, or the first slot of the list when there is no `prev`. -/
def after (k : Table) (head : Fin 512) (prev : Option SlotId) (s : Sys) : Option SlotId :=
  match prev with
  | some p => (s.links k).next p
  | none => (s.links k).first head

/-- The loop of `sync_wakeup_addr` and `sync_wakeup_segment`, followed for a number of rounds. -/
def wakeLoop (k : Table) (head : Fin 512) (hit : SyncWaitSlot → Bool) :
    Nat → Option SlotId → Option SlotId → Kern Unit
  | _, none, _ => pure ()
  | 0, some _, _ => Exec.fail .loops
  | rounds + 1, some sw, prev => do
    let s ← Exec.get
    if hit (s.slot sw) then
      threadSetRunnable (s.slot sw).swT
      wakeLoop k head hit rounds (after k head prev (← Exec.get)) prev
    else
      wakeLoop k head hit rounds ((s.links k).next sw) (some sw)

def wakeWaiters (k : Table) (head : Fin 512) (hit : SyncWaitSlot → Bool) (rounds : Nat) :
    Kern Unit := do
  wakeLoop k head hit rounds (after k head none (← Exec.get)) none

def addrHit (segId offset : UInt64) (sw : SyncWaitSlot) : Bool :=
  sw.swSeg = segId && sw.swOffset = offset

def cobjHit (seg : CobjRef) (sw : SyncWaitSlot) : Bool :=
  sw.swCobj.container = seg.container && sw.swCobj.object = seg.object

def syncWakeupAddr (rounds : Nat) (as : Except Errno Nat)
    (inverted : Except Errno (UInt64 × UInt64)) : Kern Unit := do
  let t ← curThreadOf
  threadLoadAs as t
  let (segId, offset) ← Exec.lift inverted
  wakeWaiters .addr (syncAddrHead segId offset) (addrHit segId offset) rounds

def syncWakeupSegment (rounds : Nat) (seg : CobjRef) : Kern Unit :=
  wakeWaiters .cobj (syncCobjHead seg) (cobjHit seg) rounds

def wakeupTimerFrom (nowNsec : UInt64) : Nat → Option Nat → Kern Unit
  | _, none => pure ()
  | 0, some _ => Exec.fail .loops
  | rounds + 1, some t => do
    let next := (← Exec.get).thLink.next t
    Exec.when ((← threadOf t).teWakeupNsec ≤ nowNsec) (threadSetRunnable t)
    wakeupTimerFrom nowNsec rounds next

def syncWakeupTimer (rounds : Nat) (nowNsec : UInt64) : Kern Unit := do
  wakeupTimerFrom nowNsec rounds ((← Exec.get).thLink.first .syncTimeWaiting)

/-- The loop over the runnable threads in `schedule`, which looks for the lowest pass. -/
def minPassFrom (s : Sys) : Nat → Option Nat → Option Nat → Except Errno (Option Nat)
  | _, none, min => .ok min
  | 0, some _, _ => .error .loops
  | rounds + 1, some t, min =>
    minPassFrom s rounds (s.thLink.next t) (minPassStep (fun u ↦ (s.thread u).thSched) min t)

/-- The rest of `schedule`, after the timers. `parents` are the results of looking for the
scheduling parents, round by round. -/
def schedulePick (parents : Nat → ParentLookup × ParentLookup) : Nat → Kern Unit
  | 0 => Exec.fail .loops
  | rounds + 1 => do
    let min ← Exec.read fun s ↦ minPassFrom s rounds (s.thLink.first .runnable) none
    Exec.modify fun s ↦ { s with curThread := min }
    match min with
    | none => pure ()
    | some t =>
      Exec.require ((← threadOf t).thStatus = .runnable) .panic
      threadCheckSchedParents (parents 0).1 (parents 0).2 t
      let s ← Exec.get
      match s.curThread with
      | none => schedulePick (fun n ↦ parents (n + 1)) rounds
      | some u =>
        if (s.thread u).thStatus = .runnable then globalPassUpdate (s.thread u).thSched
        else schedulePick (fun n ↦ parents (n + 1)) rounds

end HiStar.Sched
