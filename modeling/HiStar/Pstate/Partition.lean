import HiStar.Pstate.Header
import HiStar.Pstate.Replay
import HiStar.Lib.Simulate

namespace HiStar.Pstate

open Lib Function

def pstateBufSize : Nat := 512

-- The fields of `struct pstate_header` and of `struct btree_node`, by their offsets.
def phLogBlocks (h : Bytes) : Nat := readLe h 112 8

def phLogMax (h : Bytes) : Nat := readLe h 120 8

def setPhLogBlocks (h : Bytes) (n : Nat) : Bytes := writeLe h 112 8 n

def nodeOffset (b : Bytes) : Nat := readLe b 8 8

/-- The bytes of `node_log_link`, which hold addresses of the list that the node is on. -/
def isLink (i : Nat) : Bool := 48 ≤ i && i < 64

def setLink (b link : Bytes) : Bytes := fun i ↦ if isLink i then link i else b i

/-- What a node says, apart from the list that it is on. -/
def contents (b : Bytes) : Bytes := fun i ↦ if i < pgsize && !isLink i then b i else 0

namespace Part

inductive Req
  | read (off len : Nat)
  | write (off len : Nat) (b : Bytes)
  | flush

def Req.land : Req → Bytes → Bytes
  | .write off len b, p => copyOut p off b len
  | _, p => p

def landAll (p : Bytes) (rs : List Req) : Bytes := rs.foldl (fun p r ↦ r.land p) p

def Req.fits (pdSize : Nat) : Req → Bool
  | .read off len => off ≤ pdSize && off + len ≤ pdSize
  | .write off len _ => off ≤ pdSize && off + len ≤ pdSize
  | .flush => true

/-- The partition, and the addresses that are in the n-th buffer when it is written. -/
structure Boot where
  pdSize : Nat
  link : Nat → Bytes

/-- A machine that replays the log, with the partition as bytes. -/
structure Machine where
  part : Bytes
  issued : List Req
  hdr : Bytes
  npages : Nat := 0
  freeNodes : Nat := logMemory

def diskIo (v : Boot) (r : Req) : Exec Machine Errno Bool := fun m ↦
  if r.fits v.pdSize then (.ok true, { m with part := r.land m.part, issued := m.issued ++ [r] })
  else (.ok false, m)

def diskIoOrFail (v : Boot) (r : Req) : Exec Machine Errno Unit := do
  let s ← diskIo v r
  Exec.require s .io

def takeBuf : Exec Machine Errno Unit := do
  let m ← Exec.get
  Exec.require (0 < m.freeNodes) .panic
  Exec.modify fun m ↦ { m with freeNodes := m.freeNodes - 1 }

def page (p : Bytes) (off : Nat) : Bytes := fun i ↦ p (off + i)

def logReadLog (v : Boot) : Nat → Nat → Exec Machine Errno (List Bytes × Bool)
  | _, 0 => pure ([], true)
  | off, n + 1 => do
    takeBuf
    let s ← diskIo v (.read off pgsize)
    let m ← Exec.get
    if s then do
      let r ← logReadLog v (off + pgsize) n
      pure (setLink (page m.part off) (v.link m.issued.length) :: r.1, r.2)
    else pure ([], false)

def logWriteToDisk (v : Boot) : List Bytes → Exec Machine Errno Unit
  | [] => pure ()
  | b :: bs => do
    let m ← Exec.get
    Exec.require (nodeOffset b < logByteoff || logByteoff + m.npages * pgsize ≤ nodeOffset b) .panic
    diskIoOrFail v (.write (nodeOffset b) pgsize b)
    logWriteToDisk v bs

def freeBufs (n : Nat) : Exec Machine Errno Unit :=
  Exec.modify fun m ↦ { m with freeNodes := m.freeNodes + n }

def logInit (logPages : Nat) : Exec Machine Errno Unit := do
  Exec.require (logPages / entriesPerPage ≤ maxLogPages / entriesPerPage) .panic
  Exec.modify fun m ↦ { m with npages := logPages }

def logApplyChunk (v : Boot) (off n : Nat) : Exec Machine Errno Unit := do
  let r ← logReadLog v off n
  Exec.onFail (do
    Exec.require r.2 .io
    logWriteToDisk v r.1) (freeBufs r.1.length)
  freeBufs r.1.length

def logApplyChunks (v : Boot) : Nat → Nat → Nat → Exec Machine Errno Unit
  | _, _, 0 => pure ()
  | 0, _, _ + 1 => Exec.fail .loops
  | fuel + 1, off, n + 1 => do
    logApplyChunk v off (min (n + 1) logMemory)
    logApplyChunks v fuel (off + min (n + 1) logMemory * pgsize) (n + 1 - min (n + 1) logMemory)

def logApplyDisk (v : Boot) (nNodes : Nat) : Exec Machine Errno Unit := do
  let m ← Exec.get
  logInit m.npages
  logApplyChunks v nNodes logByteoff nNodes
  logInit m.npages

def pstateApplyDiskLog (v : Boot) : Exec Machine Errno Unit := do
  let m ← Exec.get
  logInit (phLogMax m.hdr)
  logApplyDisk v (phLogBlocks m.hdr)
  diskIoOrFail v .flush
  Exec.modify fun m ↦ { m with hdr := setPhLogBlocks m.hdr 0 }
  let m ← Exec.get
  diskIoOrFail v (.write 0 pstateBufSize m.hdr)
  let s ← diskIo v .flush
  Exec.require s .panic

def boot (p : Bytes) : Machine := { part := p, issued := [], hdr := p }

def replayRequests (v : Boot) (p : Bytes) : List Req := (pstateApplyDiskLog v (boot p)).2.issued

/-- A run that is cut off after some of its requests, with any addresses in its buffers. -/
def Interrupted (pdSize : Nat) (p p' : Bytes) : Prop :=
  ∃ link j, p' = landAll p ((replayRequests ⟨pdSize, link⟩ p).take j)

/-- The blocks of the log, and their homes. -/
def isLogBlock (p : Bytes) (a : Nat) : Prop := ∃ k < phLogBlocks p, a = logByteoff + k * pgsize

def isHome (p : Bytes) (a : Nat) : Prop := ∃ e, isLogBlock p e ∧ nodeOffset (page p e) = a

/-- The homes of the blocks in the log are on the partition, after the log, and no two
of them overlap. -/
structure WfLog (pdSize : Nat) (p : Bytes) : Prop where
  pages : phLogMax p / entriesPerPage ≤ maxLogPages / entriesPerPage
  blocks : phLogBlocks p ≤ phLogMax p
  log : logByteoff + phLogBlocks p * pgsize ≤ pdSize
  outside : ∀ a, isHome p a → logByteoff + phLogMax p * pgsize ≤ a
  inside : ∀ a, isHome p a → a + pgsize ≤ pdSize
  apart : ∀ a b, isHome p a → isHome p b → a = b ∨ a + pgsize ≤ b ∨ b + pgsize ≤ a

-- The partition as blocks.
def restOf (h : Bytes) : Bytes := fun i ↦ if i < pstateBufSize ∧ (i < 112 ∨ 120 ≤ i) then h i else 0

def pstateMagic : Nat := 0x4A4F535053544154

def headerOf (h : Bytes) : Header Bytes :=
  ⟨decide (readLe h 0 8 = pstateMagic), readLe h 104 8, phLogBlocks h, phLogMax h, restOf h⟩

def blockOf (b : Bytes) : Block Bytes := ⟨nodeOffset b, contents b⟩

def diskOf (p : Bytes) : Disk Bytes Bytes := ⟨headerOf p, fun a ↦ blockOf (page p a)⟩

end Part

end HiStar.Pstate
