import HiStar.Pstate.Disk
import HiStar.Pstate.HashTable

namespace HiStar.Pstate

open Lib Function HashTable

variable {α ρ : Type}

def logMemory : Nat := 1024

def maxLogPages : Nat := 131072

def logByteoff : Nat := 1 * pgsize

def entriesPerPage : Nat := 256

structure Node (α : Type) extends Block α where
  isDirty : Bool

structure Log (α : Type) where
  byteoff : Nat := logByteoff
  npages : Nat := 0
  maxMem : Nat := logMemory
  inMem : Nat := 0
  mustApply : Bool := false
  nodes : List (Node α) := []
  freeNodes : Nat := logMemory
  onDisk : Nat := 0
  diskMap : HashTable := hashInit 0

structure Machine (α ρ : Type) where
  log : Log α
  dev : Device α ρ
  stableHdr : Header ρ

abbrev Io (α ρ β : Type) := Exec (Machine α ρ) Errno β

def modifyLog (f : Log α → Log α) : Io α ρ Unit := Exec.modify fun m ↦ { m with log := f m.log }

/-- `stackwrap_disk_io`; the answer is whether the request succeeded. -/
def diskIo (io : IoEnv) (r : Request α ρ) : Io α ρ Bool := fun m ↦
  (.ok (m.dev.issue io r).1, { m with dev := (m.dev.issue io r).2 })

def diskIoOrFail (io : IoEnv) (r : Request α ρ) : Io α ρ Unit := do
  let s ← diskIo io r
  Exec.require s .io

def blockAt (off : Nat) : Io α ρ (Block α) := Exec.read fun m ↦ .ok (m.dev.disk.block off)

def Log.outside (l : Log α) (off : Nat) : Bool :=
  off < l.byteoff || l.byteoff + l.npages * pgsize ≤ off

def logWriteToDisk (io : IoEnv) : List (Block α) → Io α ρ Unit
  | [] => pure ()
  | b :: bs => do
    let m ← Exec.get
    Exec.require (m.log.outside b.offset) .panic
    diskIoOrFail io (.write b.offset b)
    logWriteToDisk io bs

/-- `hash_put` to the map of the log. Its error code is ignored, its assertion
is not. -/
def putDiskMap (key val : Nat) : Io α ρ Unit := fun m ↦
  match m.log.diskMap.hashPut key val with
  | .ok t => (.ok (), { m with log := { m.log with diskMap := t } })
  | .error .panic => (.error .panic, m)
  | .error _ => (.ok (), m)

def delDiskMap (key : Nat) : Io α ρ Unit := modifyLog fun l ↦
  match l.diskMap.hashDel key with
  | .ok t => { l with diskMap := t }
  | .error _ => l

/-- `log_write_to_log` from the list position after `done` on, with `n` blocks
written so far. -/
def logWriteToLog (io : IoEnv) (off : Nat) : List (Node α) → List (Node α) → Nat → Io α ρ Nat
  | _, [], n => pure n
  | done, node :: rest, n =>
    if node.isDirty then do
      let m ← Exec.get
      Exec.require (off + n * pgsize < m.log.npages * pgsize + m.log.byteoff) .panic
      diskIoOrFail io (.write (off + n * pgsize) node.toBlock)
      putDiskMap node.offset (off + n * pgsize)
      modifyLog fun l ↦ { l with nodes := done ++ { node with isDirty := false } :: rest }
      logWriteToLog io off (done ++ [{ node with isDirty := false }]) rest (n + 1)
    else logWriteToLog io off (done ++ [node]) rest n

def freeMem (l : Log α) : Log α :=
  { l with nodes := [], freeNodes := l.freeNodes + l.nodes.length }

def freeBufs (n : Nat) (l : Log α) : Log α := { l with freeNodes := l.freeNodes + n }

def takeBuf : Io α ρ Unit := do
  let m ← Exec.get
  Exec.require (0 < m.log.freeNodes) .panic
  modifyLog fun l ↦ { l with freeNodes := l.freeNodes - 1 }

/-- `log_read_log`: the blocks read, and whether all reads succeeded. The buffer
of a failed read is lost. -/
def logReadLog (io : IoEnv) : Nat → Nat → Io α ρ (List (Block α) × Bool)
  | _, 0 => pure ([], true)
  | off, n + 1 => do
    takeBuf
    let s ← diskIo io (.read off)
    let b ← blockAt off
    if s then do
      let r ← logReadLog io (off + pgsize) n
      pure (b :: r.1, r.2)
    else pure ([], false)

/-- `log_read_map`, which puts each block in front of the ones before it. -/
def logReadMap (io : IoEnv) : List (Nat × Nat) → List (Block α) →
    Io α ρ (List (Block α) × Bool)
  | [], acc => pure (acc, true)
  | (key, val) :: es, acc => do
    takeBuf
    let s ← diskIo io (.read val)
    let b ← blockAt val
    if s then do
      Exec.require (b.offset = key) .panic
      logReadMap io es (b :: acc)
    else pure (acc, false)

def logTryRead (io : IoEnv) (byteoff : Nat) : Io α ρ (Block α) := do
  let m ← Exec.get
  match m.log.nodes.find? fun node ↦ node.offset = byteoff with
  | some node => pure node.toBlock
  | none =>
    match m.log.diskMap.hashGet byteoff with
    | .error _ => Exec.fail .notFound
    | .ok logOff => do
      diskIoOrFail io (.read logOff)
      blockAt logOff

def logFlush (io : IoEnv) : Io α ρ Nat := do
  let m ← Exec.get
  Exec.require (m.log.inMem + m.log.onDisk + 1 < m.log.npages) .panic
  let count ← logWriteToLog io (m.log.byteoff + m.log.onDisk * pgsize) [] m.log.nodes 0
  Exec.require (count ≤ m.log.inMem) .panic
  modifyLog fun l ↦ { l with onDisk := l.onDisk + count }
  pure (m.log.onDisk + count)

def logEvict (io : IoEnv) : Io α ρ Unit := do
  let _ ← logFlush io
  modifyLog fun l ↦ { freeMem l with inMem := l.inMem - l.nodes.length }
  let m ← Exec.get
  Exec.require (m.log.inMem = 0) .panic

def logNewBuf (io : IoEnv) : Io α ρ Unit := do
  let m ← Exec.get
  Exec.when (m.log.inMem = m.log.maxMem) (logEvict io)
  takeBuf
  modifyLog fun l ↦ { l with inMem := l.inMem + 1 }

def appendNode (b : Block α) (l : Log α) : Log α :=
  { l with nodes := l.nodes ++ [{ b with isDirty := true }] }

def logWrite (io : IoEnv) (b : Block α) : Io α ρ Unit := do
  let m ← Exec.get
  if m.log.nodes.any fun node ↦ node.offset = b.offset then do
    modifyLog fun l ↦ { l with nodes := l.nodes.eraseP fun node ↦ node.offset = b.offset }
    modifyLog (appendNode b)
  else do
    logNewBuf io
    modifyLog (appendNode b)

def dropNode (byteoff : Nat) (l : Log α) : Log α :=
  if l.nodes.any fun node ↦ node.offset = byteoff then
    { l with
      nodes := l.nodes.eraseP fun node ↦ node.offset = byteoff
      freeNodes := l.freeNodes + 1
      inMem := l.inMem - 1 }
  else l

def dropLogged (byteoff : Nat) (l : Log α) : Log α :=
  match l.diskMap.hashGet byteoff with
  | .error _ => l
  | .ok _ =>
    match l.diskMap.hashDel byteoff with
    | .ok t => { l with mustApply := true, diskMap := t }
    | .error _ => { l with mustApply := true }

def logFree (byteoff : Nat) : Io α ρ Unit := modifyLog fun l ↦ dropLogged byteoff (dropNode byteoff l)

def resetLog (logPages : Nat) (l : Log α) : Log α :=
  { freeNodes := l.freeNodes + l.nodes.length
    npages := logPages
    diskMap := hashInit logPages }

def logInit (logPages : Nat) : Io α ρ Unit := do
  Exec.require (logPages / entriesPerPage ≤ maxLogPages / entriesPerPage) .panic
  modifyLog (resetLog logPages)

/-- Read and write back `n` blocks of the log from `off` on. -/
def logApplyChunk (io : IoEnv) (off n : Nat) : Io α ρ Unit := do
  let r ← logReadLog io off n
  Exec.onFail (do
    Exec.require r.2 .io
    logWriteToDisk io r.1) (modifyLog (freeBufs r.1.length))
  modifyLog (freeBufs r.1.length)

/-- The loop of `log_apply_disk`, followed for a number of rounds. -/
def logApplyChunks (io : IoEnv) : Nat → Nat → Nat → Io α ρ Unit
  | _, _, 0 => pure ()
  | 0, _, _ + 1 => Exec.fail .loops
  | fuel + 1, off, n + 1 => do
    let m ← Exec.get
    logApplyChunk io off (min (n + 1) m.log.maxMem)
    logApplyChunks io fuel (off + min (n + 1) m.log.maxMem * pgsize) (n + 1 - min (n + 1) m.log.maxMem)

def logApplyDisk (io : IoEnv) (nNodes : Nat) : Io α ρ Unit := do
  let m ← Exec.get
  logInit m.log.npages
  logApplyChunks io nNodes m.log.byteoff nNodes
  logInit m.log.npages

def delAll : List (Block α) → Io α ρ Unit
  | [] => pure ()
  | b :: bs => do
    delDiskMap b.offset
    delAll bs

/-- One round of `log_apply_mem`: some blocks of the log on disk. -/
def logApplyMapped (io : IoEnv) : Io α ρ Unit := do
  let m ← Exec.get
  let r ← logReadMap io (m.log.diskMap.hashiter.take m.log.maxMem) []
  Exec.require r.2 .io
  Exec.require (r.1 ≠ []) .panic
  logWriteToDisk io r.1
  delAll r.1
  modifyLog (freeBufs r.1.length)

def logApplyMap (io : IoEnv) : Nat → Io α ρ Unit
  | 0 => do
    let m ← Exec.get
    Exec.require (m.log.diskMap.size = 0) .loops
  | fuel + 1 => do
    let m ← Exec.get
    if m.log.diskMap.size = 0 then pure ()
    else do
      logApplyMapped io
      logApplyMap io fuel

def logApplyMem (io : IoEnv) : Io α ρ Unit := do
  let m ← Exec.get
  logWriteToDisk io (m.log.nodes.map Node.toBlock)
  delAll (m.log.nodes.map Node.toBlock)
  modifyLog fun l ↦ { freeMem l with inMem := l.inMem - l.nodes.length }
  let m ← Exec.get
  Exec.require (m.log.inMem = 0) .panic
  logApplyMap io m.log.diskMap.size
  logInit m.log.npages

end HiStar.Pstate
