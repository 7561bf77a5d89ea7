import HiStar.Pstate.Log

namespace HiStar.Pstate

open Lib Function

variable {α ρ : Type}

def pstateApplyDiskLog (io : IoEnv) : Io α ρ Unit := do
  let m ← Exec.get
  logInit m.stableHdr.phLogMax
  logApplyDisk io m.stableHdr.phLogBlocks
  diskIoOrFail io .flush
  Exec.modify fun m ↦ { m with stableHdr := { m.stableHdr with phLogBlocks := 0 } }
  let m ← Exec.get
  diskIoOrFail io (.writeHeader m.stableHdr)
  let s ← diskIo io .flush
  Exec.require s .panic

def Device.after (v : Device α ρ) (rs : List (Request α ρ)) : Device α ρ :=
  ⟨v.disk.landAll rs, v.issued ++ rs⟩

theorem Device.after_after (v : Device α ρ) (rs qs : List (Request α ρ)) :
    (v.after rs).after qs = v.after (rs ++ qs) := by
  simp [Device.after, landAll_append]

@[simp] theorem Device.after_nil (v : Device α ρ) : v.after [] = v := by simp [Device.after]

theorem diskIo_ok {io : IoEnv} {r : Request α ρ} {m : Machine α ρ}
    (h : io.succeeds r.isRead m.dev.issued.length = true) :
    diskIo io r m = (.ok true, { m with dev := m.dev.after [r] }) := by
  simp [diskIo, Device.issue, Device.after, h]

theorem diskIoOrFail_ok {io : IoEnv} {r : Request α ρ} {m : Machine α ρ}
    (h : io.succeeds r.isRead m.dev.issued.length = true) :
    diskIoOrFail io r m = (.ok (), { m with dev := m.dev.after [r] }) := by
  simp [diskIoOrFail, bind_apply, diskIo_ok h, Exec.require]

@[simp] theorem diskIo_perfect (r : Request α ρ) (m : Machine α ρ) :
    diskIo .perfect r m = (.ok true, { m with dev := m.dev.after [r] }) := diskIo_ok (by simp)

@[simp] theorem diskIoOrFail_perfect (r : Request α ρ) (m : Machine α ρ) :
    diskIoOrFail .perfect r m = (.ok (), { m with dev := m.dev.after [r] }) :=
  diskIoOrFail_ok (by simp)

def IoEnv.WritesOk (io : IoEnv) : Prop := ∀ n, io.writes n = true

theorem writesOk_perfect : IoEnv.perfect.WritesOk := fun _ ↦ rfl

def logEntries (d : Disk α ρ) : Nat → Nat → List (Block α)
  | _, 0 => []
  | off, n + 1 => d.block off :: logEntries d (off + pgsize) n

def readRequests : Nat → Nat → List (Request α ρ)
  | _, 0 => []
  | off, n + 1 => .read off :: readRequests (off + pgsize) n

def writeRequests (bs : List (Block α)) : List (Request α ρ) := bs.map fun b ↦ .write b.offset b

def homeWrites (bs : List (Block α)) : List (Nat × Block α) := bs.map fun b ↦ (b.offset, b)

@[simp] theorem landAll_readRequests (d : Disk α ρ) (off n : Nat) :
    d.landAll (readRequests off n) = d := by
  induction n generalizing off with
  | zero => rfl
  | succ n ih => simpa [readRequests, Request.land] using ih (off + pgsize)

theorem blockWrites_append (rs qs : List (Request α ρ)) :
    blockWrites (rs ++ qs) = blockWrites rs ++ blockWrites qs := by
  induction rs with
  | nil => rfl
  | cons r rs ih => cases r <;> simp [blockWrites, ih]

@[simp] theorem blockWrites_readRequests (off n : Nat) :
    blockWrites (readRequests off n : List (Request α ρ)) = [] := by
  induction n generalizing off with
  | zero => rfl
  | succ n ih => simpa [readRequests, blockWrites] using ih (off + pgsize)

@[simp] theorem blockWrites_writeRequests (bs : List (Block α)) :
    blockWrites (writeRequests bs : List (Request α ρ)) = homeWrites bs := by
  induction bs with
  | nil => rfl
  | cons b bs ih => simpa [writeRequests, blockWrites, homeWrites] using ih

theorem logReadLog_perfect (off n : Nat) (m : Machine α ρ) (h : n ≤ m.log.freeNodes) :
    logReadLog .perfect off n m = (.ok (logEntries m.dev.disk off n, true),
      { m with
        log := { m.log with freeNodes := m.log.freeNodes - n }
        dev := m.dev.after (readRequests off n) }) := by
  induction n generalizing off m with
  | zero => simp [logReadLog, logEntries, readRequests]
  | succ n ih =>
    have hpos : 0 < m.log.freeNodes := by omega
    simp only [logReadLog, takeBuf, modifyLog, blockAt, bind_apply, get_apply, Exec.require, hpos,
      decide_true, if_true, pure_apply, modify_apply, diskIo_perfect, read_apply]
    rw [ih _ _ (by simpa using by omega)]
    simp [logEntries, readRequests, Device.after, Request.land, Nat.sub_sub, Nat.add_comm 1 n]

theorem logWriteToDisk_ok {io : IoEnv} (hio : io.WritesOk) (bs : List (Block α)) (m : Machine α ρ)
    (h : ∀ b ∈ bs, m.log.outside b.offset = true) :
    logWriteToDisk io bs m = (.ok (), { m with dev := m.dev.after (writeRequests bs) }) := by
  induction bs generalizing m with
  | nil => simp [logWriteToDisk, writeRequests]
  | cons b bs ih =>
    simp only [List.mem_cons, forall_eq_or_imp] at h
    have hreq := diskIoOrFail_ok (r := .write b.offset b) (m := m) (hio m.dev.issued.length)
    simp only [logWriteToDisk, bind_apply, get_apply, Exec.require, h.1, if_true, pure_apply, hreq]
    refine (ih { m with dev := m.dev.after [.write b.offset b] } h.2).trans ?_
    simp [writeRequests, Device.after_after]

theorem logEntries_length (d : Disk α ρ) (off n : Nat) : (logEntries d off n).length = n := by
  induction n generalizing off with
  | zero => rfl
  | succ n ih => simp [logEntries, ih]

theorem logEntries_add (d : Disk α ρ) (off n k : Nat) :
    logEntries d off (n + k) = logEntries d off n ++ logEntries d (off + n * pgsize) k := by
  induction n generalizing off with
  | zero => simp [logEntries]
  | succ n ih =>
    rw [Nat.add_right_comm]
    simp only [logEntries, List.cons_append, ih, List.cons.injEq, true_and]
    congr 2
    unfold pgsize
    omega

theorem logApplyChunk_perfect (off n : Nat) (m : Machine α ρ) (hn : n ≤ m.log.freeNodes)
    (h : ∀ b ∈ logEntries m.dev.disk off n, m.log.outside b.offset = true) :
    logApplyChunk .perfect off n m = (.ok (), { m with
      dev := m.dev.after (readRequests off n ++ writeRequests (logEntries m.dev.disk off n)) }) := by
  simp only [logApplyChunk, bind_apply, logReadLog_perfect off n m hn, Exec.onFail, Exec.require,
    if_true, pure_apply, logEntries_length, modifyLog, modify_apply]
  rw [logWriteToDisk_ok writesOk_perfect _ _ (by simpa [Log.outside] using h)]
  simp [freeBufs, Device.after_after, Nat.sub_add_cancel hn]

def BlocksOnly (rs : List (Request α ρ)) : Prop :=
  ∀ r ∈ rs, (∃ off, r = .read off) ∨ ∃ off b, r = .write off b

theorem BlocksOnly.append {rs qs : List (Request α ρ)} (hr : BlocksOnly rs)
    (hq : BlocksOnly qs) : BlocksOnly (rs ++ qs) := by
  intro r h
  rcases List.mem_append.mp h with h | h
  · exact hr r h
  · exact hq r h

theorem BlocksOnly.landAll {rs : List (Request α ρ)} (h : BlocksOnly rs) (d : Disk α ρ) :
    d.landAll rs = { d with block := overlay (blockWrites rs) d.block } := by
  induction rs generalizing d with
  | nil => rfl
  | cons r rs ih =>
    simp only [BlocksOnly, List.mem_cons, forall_eq_or_imp] at h
    rw [landAll_cons, ih h.2]
    rcases h.1 with ⟨off, rfl⟩ | ⟨off, b, rfl⟩ <;> simp [Request.land, blockWrites]

theorem blocksOnly_readRequests (off n : Nat) :
    BlocksOnly (readRequests off n : List (Request α ρ)) := by
  induction n generalizing off with
  | zero => simp [readRequests, BlocksOnly]
  | succ n ih => simpa [readRequests, BlocksOnly] using ih (off + pgsize)

theorem blocksOnly_writeRequests (bs : List (Block α)) :
    BlocksOnly (writeRequests bs : List (Request α ρ)) := by
  simp [writeRequests, BlocksOnly]

theorem logEntries_congr {d d' : Disk α ρ} {off n : Nat}
    (h : ∀ a, off ≤ a → a < off + n * pgsize → d'.block a = d.block a) :
    logEntries d' off n = logEntries d off n := by
  induction n generalizing off with
  | zero => rfl
  | succ n ih =>
    simp only [logEntries, List.cons.injEq]
    simp only [pgsize] at h ih ⊢
    exact ⟨h off le_rfl (by omega), ih fun a ha hb ↦ h a (by omega) (by omega)⟩

theorem Log.outside_iff {l : Log α} {off : Nat} :
    l.outside off = true ↔ off < l.byteoff ∨ l.byteoff + l.npages * pgsize ≤ off := by
  simp [Log.outside]

theorem block_after_outside {l : Log α} {bs : List (Block α)} {d : Disk α ρ} {a : Nat}
    (h : ∀ b ∈ bs, l.outside b.offset = true) (hlo : l.byteoff ≤ a)
    (hhi : a < l.byteoff + l.npages * pgsize) : overlay (homeWrites bs) d.block a = d.block a := by
  apply overlay_of_notMem
  simp only [homeWrites, List.mem_map, forall_exists_index, and_imp, forall_apply_eq_imp_iff₂]
  rintro b hb rfl
  have := Log.outside_iff.mp (h b hb)
  omega

theorem logApplyChunks_perfect (fuel off n : Nat) (m : Machine α ρ) (hfuel : n ≤ fuel)
    (hmem : 0 < m.log.maxMem) (hbufs : m.log.maxMem ≤ m.log.freeNodes) (hlo : m.log.byteoff ≤ off)
    (hhi : off + n * pgsize ≤ m.log.byteoff + m.log.npages * pgsize)
    (hout : ∀ b ∈ logEntries m.dev.disk off n, m.log.outside b.offset = true) :
    ∃ rs, logApplyChunks .perfect fuel off n m = (.ok (), { m with dev := m.dev.after rs }) ∧
      BlocksOnly rs ∧ blockWrites rs = homeWrites (logEntries m.dev.disk off n) := by
  induction fuel generalizing off n m with
  | zero =>
    obtain rfl : n = 0 := by omega
    exact ⟨[], by simp [logApplyChunks], by simp [BlocksOnly], rfl⟩
  | succ fuel ih =>
    rcases n with _ | n
    · exact ⟨[], by simp [logApplyChunks], by simp [BlocksOnly], rfl⟩
    obtain ⟨k, rest, hk, hkmem, hsum, hrest⟩ : ∃ k rest, min (n + 1) m.log.maxMem = k ∧
        k ≤ m.log.maxMem ∧ n + 1 = k + rest ∧ rest ≤ fuel :=
      ⟨_, n + 1 - min (n + 1) m.log.maxMem, rfl, by omega, by omega, by omega⟩
    rw [hsum, logEntries_add] at hout ⊢
    rw [hsum, Nat.add_mul] at hhi
    simp only [List.mem_append, or_imp, forall_and] at hout
    have hchunk := logApplyChunk_perfect off k m (by omega) hout.1
    generalize hqs : readRequests off k ++ writeRequests (logEntries m.dev.disk off k) = qs at hchunk
    have hblocks : BlocksOnly qs :=
      hqs ▸ (blocksOnly_readRequests off k).append (blocksOnly_writeRequests _)
    have hwrites : blockWrites qs = homeWrites (logEntries m.dev.disk off k) := by
      simp [← hqs, blockWrites_append]
    have hsame : logEntries (m.dev.after qs).disk (off + k * pgsize) rest =
        logEntries m.dev.disk (off + k * pgsize) rest := by
      apply logEntries_congr
      intro a ha hb
      simp only [Device.after, hblocks.landAll, hwrites]
      exact block_after_outside hout.1 (by omega) (by omega)
    obtain ⟨rs, hrun, hb, hw⟩ := ih (off + k * pgsize) rest { m with dev := m.dev.after qs } hrest
      hmem hbufs (hlo.trans (Nat.le_add_right _ _)) (by dsimp only; omega)
      (by simpa only [hsame] using hout.2)
    refine ⟨qs ++ rs, ?_, hblocks.append hb, ?_⟩
    · rw [← hsum, logApplyChunks]
      simp only [bind_apply, get_apply, hk, hchunk, show n + 1 - k = rest by omega]
      exact hrun.trans (by simp [Device.after_after])
    · simp only [hsame] at hw
      simp [blockWrites_append, hwrites, hw, homeWrites]

structure WfLog (d : Disk α ρ) : Prop where
  pages : d.header.phLogMax / entriesPerPage ≤ maxLogPages / entriesPerPage
  blocks : d.header.phLogBlocks ≤ d.header.phLogMax
  outside : ∀ b ∈ logEntries d logByteoff d.header.phLogBlocks,
    b.offset < logByteoff ∨ logByteoff + d.header.phLogMax * pgsize ≤ b.offset

def Disk.pending (d : Disk α ρ) : List (Nat × Block α) :=
  homeWrites (logEntries d logByteoff d.header.phLogBlocks)

def Header.applied (h : Header ρ) : Header ρ := { h with phLogBlocks := 0 }

theorem logInit_apply {n : Nat} (h : n / entriesPerPage ≤ maxLogPages / entriesPerPage)
    (m : Machine α ρ) :
    logInit n m = (.ok (), { m with log := resetLog n m.log }) := by
  simp [logInit, bind_apply, Exec.require, h, modifyLog]

@[simp] theorem resetLog_npages (n : Nat) (l : Log α) : (resetLog n l).npages = n := rfl

@[simp] theorem resetLog_byteoff (n : Nat) (l : Log α) : (resetLog n l).byteoff = logByteoff := rfl

@[simp] theorem resetLog_resetLog (n k : Nat) (l : Log α) :
    resetLog n (resetLog k l) = resetLog n l := rfl

theorem pstateApplyDiskLog_perfect (m : Machine α ρ) (hwf : WfLog m.dev.disk)
    (hhdr : m.stableHdr = m.dev.disk.header)
    (hbufs : logMemory ≤ m.log.freeNodes + m.log.nodes.length) :
    ∃ rs, BlocksOnly rs ∧ blockWrites rs = m.dev.disk.pending ∧
      pstateApplyDiskLog .perfect m = (.ok (),
        { log := resetLog m.stableHdr.phLogMax m.log
          dev := m.dev.after (rs ++ [.flush, .writeHeader m.stableHdr.applied, .flush])
          stableHdr := m.stableHdr.applied }) := by
  obtain ⟨l, v, h⟩ := m
  dsimp only at hwf hhdr hbufs ⊢
  subst hhdr
  obtain ⟨rs, hrun, hb, hw⟩ := logApplyChunks_perfect v.disk.header.phLogBlocks logByteoff
    v.disk.header.phLogBlocks ⟨resetLog v.disk.header.phLogMax l, v, v.disk.header⟩ le_rfl
    (by simp [resetLog, logMemory]) hbufs le_rfl
    (by simpa [resetLog] using Nat.mul_le_mul_right _ hwf.blocks)
    (fun b hb ↦ Log.outside_iff.mpr (hwf.outside b hb))
  refine ⟨rs, hb, hw, ?_⟩
  simp only [pstateApplyDiskLog, logApplyDisk, bind_apply, get_apply, logInit_apply hwf.pages,
    resetLog_npages, resetLog_byteoff, resetLog_resetLog, hrun, diskIoOrFail_perfect, modify_apply,
    diskIo_perfect, Exec.require, if_true, pure_apply, Device.after_after]
  simp [Header.applied]

end HiStar.Pstate
