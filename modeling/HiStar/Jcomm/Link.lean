import HiStar.Lib.Ring

namespace HiStar.Jcomm

open Lib

def jlinkBufsz : Nat := 9000

def pipeBuf : Nat := 128

/-- `sizeof(header)`: the length of a packet goes before it as a 64-bit number. -/
def headerSize : Nat := 8

structure Jlink where
  buf : Nat → UInt8
  readerWaiting : Bool
  writerWaiting : Bool
  isOpen : Bool
  readPtr : Nat
  bytes : Nat
  mu : Bool

structure Mode where
  nonblockRd : Bool
  nonblockWr : Bool
  packet : Bool

inductive JErr
  | inval
  | noSpace
  | again
  | eof
  deriving DecidableEq

/-- What `jlink_read` returns: 0 on a closed link, the bytes it copied, or an
error. -/
inductive ReadResult
  | closed
  | data (bs : List UInt8)
  | fail (e : JErr)
  deriving DecidableEq

inductive WriteResult
  | accepted (n : Nat)
  | fail (e : JErr)
  deriving DecidableEq

def encodeLe : Nat → Nat → List UInt8
  | 0, _ => []
  | n + 1, v => UInt8.ofNat v :: encodeLe n (v / 256)

def decodeLe : List UInt8 → Nat
  | [] => 0
  | b :: bs => b.toNat + 256 * decodeLe bs

def jlinkMinwrite (jl : Jlink) : Bool := !decide (jl.bytes > jlinkBufsz - pipeBuf)

def jlinkFullwrite (jl : Jlink) (cnt : Nat) : Bool := !decide (cnt > jlinkBufsz - jl.bytes)

def jlinkCopyfrom (jl : Jlink) (cnt : Nat) : List UInt8 × Nat :=
  let idx := jl.readPtr
  let cc1 := min cnt (jlinkBufsz - idx)
  let cc2 := if cc1 = cnt then 0 else cnt - cc1
  (slice jl.buf idx cc1 ++ slice jl.buf 0 cc2, (idx + cnt) % jlinkBufsz)

def jlinkCopyto (jl : Jlink) (buf : List UInt8) : Jlink :=
  let idx := (jl.readPtr + jl.bytes) % jlinkBufsz
  let cc1 := min buf.length (jlinkBufsz - idx)
  { jl with buf := blit (blit jl.buf idx (buf.take cc1)) 0 (buf.drop cc1) }

def Jlink.wakeWriter (jl : Jlink) : Jlink :=
  if jl.writerWaiting then { jl with writerWaiting := false } else jl

def Jlink.wakeReader (jl : Jlink) : Jlink :=
  if jl.readerWaiting then { jl with readerWaiting := false } else jl

/-- A complete call; `none` while it would wait, for the lock or for data. -/
def jlinkRead (jl : Jlink) (cnt : Nat) (mode : Mode) : Option (ReadResult × Jlink) :=
  if jl.mu then none
  else if jl.bytes = 0 then
    let jl := if mode.nonblockRd then jl else { jl with readerWaiting := true }
    if !jl.isOpen then some (.closed, jl)
    else if mode.nonblockRd then some (.fail .again, jl)
    else none
  else if mode.packet then
    let header := decodeLe (jlinkCopyfrom jl headerSize).1
    -- this return leaves the lock taken
    if header > cnt then some (.fail .noSpace, { jl with mu := true })
    else
      let jl := { jl with
        readPtr := (jlinkCopyfrom jl headerSize).2, bytes := jl.bytes - headerSize }
      some (.data (jlinkCopyfrom jl header).1, Jlink.wakeWriter { jl with
        readPtr := (jlinkCopyfrom jl header).2, bytes := jl.bytes - header })
  else
    let cc := min cnt jl.bytes
    some (.data (jlinkCopyfrom jl cc).1, Jlink.wakeWriter { jl with
      readPtr := (jlinkCopyfrom jl cc).2, bytes := jl.bytes - cc })

def jlinkWrite (jl : Jlink) (buf : List UInt8) (mode : Mode) : Option (WriteResult × Jlink) :=
  let cnt := buf.length
  if mode.packet ∧ cnt > jlinkBufsz then some (.fail .inval, jl)
  else if jl.mu then none
  else if jl.isOpen ∧ ((mode.packet ∧ !jlinkFullwrite jl (cnt + headerSize)) ∨
      (!mode.packet ∧ !jlinkMinwrite jl)) then
    if mode.nonblockWr then some (.fail .again, jl) else none
  else if !jl.isOpen then some (.fail .eof, jl)
  else if mode.packet then
    let jl := jlinkCopyto jl (encodeLe headerSize cnt)
    let jl := { jl with bytes := jl.bytes + headerSize }
    let jl := jlinkCopyto jl buf
    let jl := { jl with bytes := jl.bytes + cnt }
    some (.accepted cnt, jl.wakeReader)
  else
    let cc := min cnt (jlinkBufsz - jl.bytes)
    let jl := jlinkCopyto jl (buf.take cc)
    let jl := { jl with bytes := jl.bytes + cc }
    some (.accepted cc, jl.wakeReader)

theorem length_encodeLe (n v : Nat) : (encodeLe n v).length = n := by
  induction n generalizing v with
  | zero => rfl
  | succ n ih => simp [encodeLe, ih]

theorem decodeLe_encodeLe (n v : Nat) : decodeLe (encodeLe n v) = v % 256 ^ n := by
  induction n generalizing v with
  | zero => simp [encodeLe, decodeLe, Nat.mod_one]
  | succ n ih =>
    have hv : v % (256 * 256 ^ n) = v % 256 + 256 * (v / 256 % 256 ^ n) := Nat.mod_mul
    simp only [encodeLe, decodeLe, ih, UInt8.toNat_ofNat', Nat.pow_succ', hv]

def Jlink.contents (jl : Jlink) : List UInt8 := ring jl.buf jlinkBufsz jl.readPtr jl.bytes

structure Jlink.Sound (jl : Jlink) : Prop where
  readPtr : jl.readPtr < jlinkBufsz
  bytes : jl.bytes ≤ jlinkBufsz

variable {jl : Jlink}

@[simp] theorem length_contents (jl : Jlink) : jl.contents.length = jl.bytes := length_ring _ _ _ _

@[simp] theorem wakeWriter_contents (jl : Jlink) : jl.wakeWriter.contents = jl.contents := by
  unfold Jlink.wakeWriter
  split <;> rfl

@[simp] theorem wakeReader_contents (jl : Jlink) : jl.wakeReader.contents = jl.contents := by
  unfold Jlink.wakeReader
  split <;> rfl

theorem wakeWriter_fields (jl : Jlink) : jl.wakeWriter.readPtr = jl.readPtr ∧
    jl.wakeWriter.bytes = jl.bytes ∧ jl.wakeWriter.mu = jl.mu := by
  unfold Jlink.wakeWriter
  split <;> exact ⟨rfl, rfl, rfl⟩

theorem wakeReader_fields (jl : Jlink) : jl.wakeReader.readPtr = jl.readPtr ∧
    jl.wakeReader.bytes = jl.bytes ∧ jl.wakeReader.mu = jl.mu := by
  unfold Jlink.wakeReader
  split <;> exact ⟨rfl, rfl, rfl⟩

theorem ring_take {α : Type} (buf : Nat → α) (size start : Nat) {m n : Nat} (h : m ≤ n) :
    ring buf size start m = (ring buf size start n).take m ∧
      ring buf size ((start + m) % size) (n - m) = (ring buf size start n).drop m := by
  obtain ⟨k, rfl⟩ := Nat.exists_eq_add_of_le h
  have hl := length_ring buf size start m
  rw [ring_add, Nat.add_sub_cancel_left]
  exact ⟨(List.take_left' hl).symm, (List.drop_left' hl).symm⟩

theorem jlinkCopyfrom_eq (h : jl.Sound) (cnt : Nat) (hcnt : cnt ≤ jl.bytes) :
    (jlinkCopyfrom jl cnt).1 = jl.contents.take cnt ∧
      Jlink.contents { jl with readPtr := (jlinkCopyfrom jl cnt).2, bytes := jl.bytes - cnt } =
        jl.contents.drop cnt := by
  have hb := h.bytes
  obtain ⟨h1, h2⟩ := ring_take jl.buf jlinkBufsz jl.readPtr hcnt
  refine ⟨?_, h2⟩
  rw [Jlink.contents, ← h1, ← slices_eq_ring h.readPtr (by omega)]
  simp only [jlinkCopyfrom]
  congr 2
  split_ifs with hc <;> omega

theorem jlinkCopyto_eq (h : jl.Sound) (bs : List UInt8)
    (hfit : jl.bytes + bs.length ≤ jlinkBufsz) :
    Jlink.contents { jlinkCopyto jl bs with bytes := jl.bytes + bs.length } = jl.contents ++ bs :=
  ring_ringWrite h.readPtr hfit

end HiStar.Jcomm
