import HiStar.Pstate.Disk

namespace HiStar.Pstate

open Lib Function

abbrev Bytes := Nat → UInt8

inductive Buf
  | hdr
  | page (n : Nat)
  deriving DecidableEq

inductive DiskOp
  | read
  | write

def DiskOp.isRead : DiskOp → Bool
  | .read => true
  | .write => false

/-- The memory of one object, the bytes of the partition, the number of requests
made so far and the collector of the next one. -/
structure Xfer where
  mem : Buf → Bytes
  disk : Bytes
  requests : Nat := 0
  iov : List (Buf × Nat) := []
  flushOff : Nat

structure Drive extends IoEnv where
  pdSize : Nat

def iovBytes (iov : List (Buf × Nat)) : Nat := (iov.map Prod.snd).sum

def copyOut (disk : Bytes) (off : Nat) (buf : Bytes) (len : Nat) : Bytes := fun a ↦
  if off ≤ a ∧ a < off + len then buf (a - off) else disk a

def copyIn (disk : Bytes) (off : Nat) (buf : Bytes) (len : Nat) : Bytes := fun i ↦
  if i < len then disk (off + i) else buf i

def transfer (op : DiskOp) : Nat → List (Buf × Nat) → (Buf → Bytes) × Bytes → (Buf → Bytes) × Bytes
  | _, [], s => s
  | off, (b, len) :: iov, (mem, disk) =>
    transfer op (off + len) iov (match op with
      | .read => (update mem b (copyIn disk off (mem b) len), disk)
      | .write => (mem, copyOut disk off (mem b) len))

def stackwrapDiskIov (v : Drive) (op : DiskOp) : Exec Xfer Errno Unit := fun x ↦
  if x.flushOff > v.pdSize ∨ v.pdSize < x.flushOff + iovBytes x.iov then (.error .io, x)
  else
    let t := if v.succeeds op.isRead x.requests || v.lands x.requests
      then transfer op x.flushOff x.iov (x.mem, x.disk) else (x.mem, x.disk)
    (if v.succeeds op.isRead x.requests then .ok () else .error .io,
      { x with mem := t.1, disk := t.2, requests := x.requests + 1 })

def pstateIovFlush (v : Drive) (op : DiskOp) : Exec Xfer Errno Unit := do
  let x ← Exec.get
  Exec.when (0 < iovBytes x.iov) (stackwrapDiskIov v op)
  Exec.modify fun x ↦ { x with flushOff := x.flushOff + iovBytes x.iov, iov := [] }

def iovMax : Nat := 65536 / pgsize

def pstateIovAppend (v : Drive) (op : DiskOp) (buf : Buf) (size : Nat) : Exec Xfer Errno Unit := do
  let x ← Exec.get
  Exec.when (x.iov.length = iovMax) (pstateIovFlush v op)
  Exec.modify fun x ↦ { x with iov := x.iov ++ [(buf, size)] }

def iovAppendAll (v : Drive) (op : DiskOp) : List (Buf × Nat) → Exec Xfer Errno Unit
  | [] => pure ()
  | (b, len) :: iov => do
    pstateIovAppend v op b len
    iovAppendAll v op iov

@[simp] theorem iovBytes_nil : iovBytes [] = 0 := rfl

@[simp] theorem iovBytes_cons (b : Buf) (len : Nat) (iov : List (Buf × Nat)) :
    iovBytes ((b, len) :: iov) = len + iovBytes iov := by
  simp [iovBytes]

@[simp] theorem iovBytes_append (es fs : List (Buf × Nat)) :
    iovBytes (es ++ fs) = iovBytes es + iovBytes fs := by
  simp [iovBytes]

theorem transfer_append (op : DiskOp) (off : Nat) (es fs : List (Buf × Nat))
    (s : (Buf → Bytes) × Bytes) :
    transfer op off (es ++ fs) s = transfer op (off + iovBytes es) fs (transfer op off es s) := by
  induction es generalizing off s with
  | nil => rfl
  | cons e es ih =>
    obtain ⟨b, len⟩ := e
    obtain ⟨mem, disk⟩ := s
    simp only [List.cons_append, transfer, ih, iovBytes_cons, Nat.add_assoc]

section Collector

variable {v : Drive} {op : DiskOp}

/-- What has been collected since `x₀`: the entries `es`, some of them
transferred already. -/
def Collected (op : DiskOp) (x₀ : Xfer) (es : List (Buf × Nat)) (x : Xfer) : Prop :=
  ∃ done, es = done ++ x.iov ∧ x.flushOff = x₀.flushOff + iovBytes done ∧
    (x.mem, x.disk) = transfer op x₀.flushOff done (x₀.mem, x₀.disk)

structure Works (v : Drive) (x₀ : Xfer) (es : List (Buf × Nat)) : Prop where
  succeeds : ∀ r n, v.succeeds r n = true
  room : x₀.flushOff + iovBytes es ≤ v.pdSize
  sizes : ∀ e ∈ es, 0 < e.2

variable {x₀ x : Xfer} {es : List (Buf × Nat)}

theorem stackwrapDiskIov_works (op : DiskOp)
    (hw : Works v x₀ es) (hroom : x.flushOff + iovBytes x.iov ≤ v.pdSize) :
    stackwrapDiskIov v op x = (.ok (), { x with
      mem := (transfer op x.flushOff x.iov (x.mem, x.disk)).1
      disk := (transfer op x.flushOff x.iov (x.mem, x.disk)).2
      requests := x.requests + 1 }) := by
  have hfits : ¬ (x.flushOff > v.pdSize ∨ v.pdSize < x.flushOff + iovBytes x.iov) := by omega
  simp [stackwrapDiskIov, hfits, hw.succeeds]

theorem pstateIovFlush_collected (rest : List (Buf × Nat))
    (hw : Works v x₀ (es ++ rest)) (h : Collected op x₀ es x) :
    ∃ y, pstateIovFlush v op x = (.ok (), y) ∧ Collected op x₀ es y ∧ y.iov = [] := by
  obtain ⟨done, hes, hoff, hstate⟩ := h
  have hroom := hw.room
  simp only [hes, iovBytes_append] at hroom
  rcases Nat.eq_zero_or_pos (iovBytes x.iov) with hzero | hpos
  · have hnil : x.iov = [] := by
      rcases hiov : x.iov with _ | ⟨⟨b, len⟩, iov⟩
      · rfl
      · have := hw.sizes (b, len) (by simp [hes, hiov])
        simp only [hiov, iovBytes_cons] at hzero
        omega
    refine ⟨{ x with iov := [] }, ?_, ⟨done, by simp [hes, hnil], hoff, hstate⟩, rfl⟩
    simp [pstateIovFlush, bind_apply, Exec.when, hnil]
  · have hreq := stackwrapDiskIov_works op hw
      (show x.flushOff + iovBytes x.iov ≤ v.pdSize by omega)
    refine ⟨{
      mem := (transfer op x.flushOff x.iov (x.mem, x.disk)).1
      disk := (transfer op x.flushOff x.iov (x.mem, x.disk)).2
      requests := x.requests + 1
      flushOff := x.flushOff + iovBytes x.iov }, ?_, ⟨es, by simp, ?_, ?_⟩, rfl⟩
    · simp [pstateIovFlush, bind_apply, Exec.when, hpos, hreq]
    · simp [hes, hoff, Nat.add_assoc]
    · simp [hes, transfer_append, ← hstate, ← hoff]

theorem pstateIovAppend_collected {rest : List (Buf × Nat)} (b : Buf) (len : Nat)
    (hw : Works v x₀ (es ++ rest)) (h : Collected op x₀ es x) :
    ∃ y, pstateIovAppend v op b len x = (.ok (), y) ∧ Collected op x₀ (es ++ [(b, len)]) y := by
  have hpush {y : Xfer} (hy : Collected op x₀ es y) :
      Collected op x₀ (es ++ [(b, len)]) { y with iov := y.iov ++ [(b, len)] } := by
    obtain ⟨done, hes, hoff, hstate⟩ := hy
    exact ⟨done, by simp [hes], hoff, hstate⟩
  by_cases hfull : x.iov.length = iovMax
  · obtain ⟨y, hy, hc, -⟩ := pstateIovFlush_collected rest hw h
    exact ⟨_, by simp [pstateIovAppend, bind_apply, Exec.when, hfull, hy], hpush hc⟩
  · exact ⟨_, by simp [pstateIovAppend, bind_apply, Exec.when, hfull], hpush h⟩

theorem iovAppendAll_collected {fs : List (Buf × Nat)}
    (hw : Works v x₀ (es ++ fs)) (h : Collected op x₀ es x) :
    ∃ y, iovAppendAll v op fs x = (.ok (), y) ∧ Collected op x₀ (es ++ fs) y := by
  induction fs generalizing es x with
  | nil => exact ⟨x, rfl, by simpa using h⟩
  | cons e fs ih =>
    obtain ⟨b, len⟩ := e
    obtain ⟨y, hy, hc⟩ := pstateIovAppend_collected b len hw h
    rw [List.append_cons] at hw ⊢
    obtain ⟨z, hz, hd⟩ := ih hw hc
    exact ⟨z, by rw [iovAppendAll, bind_apply, hy]; exact hz, hd⟩

theorem iov_transfer (op : DiskOp) (hw : Works v x es)
    (hx : x.iov = []) : ∃ y, (do iovAppendAll v op es; pstateIovFlush v op) x = (.ok (), y) ∧
      (y.mem, y.disk) = transfer op x.flushOff es (x.mem, x.disk) := by
  have hnone : Collected op x [] x := ⟨[], by simp [hx], rfl, rfl⟩
  obtain ⟨y, hy, hc⟩ := iovAppendAll_collected hw hnone
  obtain ⟨z, hz, ⟨done, hes, hoff, hstate⟩, hnil⟩ :=
    pstateIovFlush_collected [] (by simpa using hw) hc
  refine ⟨z, by rw [bind_apply, hy]; exact hz, ?_⟩
  obtain rfl : done = es := by simpa [hnil] using hes.symm
  exact hstate

end Collector

end HiStar.Pstate
