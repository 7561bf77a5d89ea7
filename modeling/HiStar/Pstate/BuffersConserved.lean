import HiStar.Pstate.LogBuffers

namespace HiStar.Pstate

open Lib Function HashTable

variable {α ρ : Type} {io : IoEnv} {m : Machine α ρ}

variable {n off : Nat}

theorem logInit_returns (h : m.log.freeNodes + m.log.nodes.length = logMemory) :
    Wp (logInit n) m (fun _ m' ↦ Conserved m' ∧ m'.log.nodes = [] ∧ m'.dev = m.dev)
      fun e _ ↦ e = .panic := by
  refine wp_require (fun _ ↦ Wp.modify ⟨⟨rfl, rfl, ?_⟩, rfl, rfl⟩) fun _ ↦ rfl
  simpa [resetLog] using h

/-- The disk answers every read from the request `k` on. -/
def IoEnv.ReadsFrom (io : IoEnv) (k : Nat) : Prop := ∀ n, k ≤ n → io.reads n = true

def IoEnv.WritesFrom (io : IoEnv) (k : Nat) : Prop := ∀ n, k ≤ n → io.writes n = true

theorem readBlock_takes {γ : Type} {f : Bool → Block α → Io α ρ γ} {Q : γ → Machine α ρ → Prop}
    {E : Errno → Machine α ρ → Prop} (hio : io.ReadsFrom m.dev.issued.length)
    (hfree : 0 < m.log.freeNodes) (h : ∀ m' b, Takes 1 m m' → Wp (f true b) m' Q E) :
    Wp (do takeBuf; let s ← diskIo io (.read off); let b ← blockAt off; f s b) m Q E := by
  refine Wp.bind (wp_get ?_)
  refine wp_require (fun _ ↦ Wp.modify ?_) fun hn ↦ absurd hfree (by simpa using hn)
  refine Wp.bind (Wp.of_ok (diskIo_read off _) (Wp.bind ?_))
  refine Wp.read (fun b _ ↦ ?_) fun e he ↦ ?_
  · rw [hio _ le_rfl]
    exact h _ b ⟨by simp only; omega, rfl, rfl, rfl, by simp⟩
  · cases he

theorem logReadLog_takes (hio : io.ReadsFrom m.dev.issued.length) (hfree : n ≤ m.log.freeNodes) :
    Wp (logReadLog io off n) m (fun r m' ↦ r.2 = true ∧ r.1.length = n ∧ Takes n m m')
      fun _ _ ↦ False := by
  induction n generalizing off m with
  | zero => exact Wp.of_ok rfl ⟨rfl, rfl, Kept.refl m⟩
  | succ n ih =>
    refine readBlock_takes hio (by omega) fun m₁ b h₁ ↦ ?_
    have hfree₁ := h₁.free
    refine Wp.seq (ih (fun k hk ↦ hio k (h₁.issued.trans hk)) (by omega)) fun r m₂ h ↦ ?_
    refine Wp.pure ⟨h.1, by simp [h.2.1], ?_⟩
    rw [Nat.add_comm]
    exact h₁.trans h.2.2

theorem logReadMap_takes {es : List (Nat × Nat)} {acc : List (Block α)}
    (hio : io.ReadsFrom m.dev.issued.length) (hfree : es.length ≤ m.log.freeNodes) :
    Wp (logReadMap io es acc) m
      (fun r m' ↦ r.2 = true ∧ r.1.length = es.length + acc.length ∧ Takes es.length m m')
      fun e _ ↦ e = .panic := by
  induction es generalizing acc m with
  | nil => exact Wp.of_ok rfl ⟨rfl, by simp, Kept.refl m⟩
  | cons e es ih =>
    obtain ⟨key, val⟩ := e
    rw [List.length_cons] at hfree
    refine readBlock_takes hio (by omega) fun m₁ b h₁ ↦ ?_
    have hfree₁ := h₁.free
    refine wp_require (fun _ ↦ ?_) fun _ ↦ rfl
    refine Wp.imp (ih (fun k hk ↦ hio k (h₁.issued.trans hk)) (by omega)) fun r m₂ h ↦ ?_
    refine ⟨h.1, by simp [h.2.1, Nat.add_assoc, Nat.add_comm 1], ?_⟩
    rw [List.length_cons, Nat.add_comm]
    exact h₁.trans h.2.2

theorem Bufs.freeBufs {k : Nat} (h : Bufs m k) :
    Conserved { m with log := Pstate.freeBufs k m.log } where
  maxMem := h.maxMem
  inMem := h.inMem
  bufs := by
    have := h.bufs
    simp only [Pstate.freeBufs]
    omega

theorem logApplyChunk_returns (h : Conserved m) (hnil : m.log.nodes = [])
    (hio : io.ReadsFrom m.dev.issued.length) (hn : n ≤ logMemory) :
    Returns (logApplyChunk io off n) m fun m' ↦ Conserved m' ∧ m'.log.nodes = [] ∧
      m.dev.issued.length ≤ m'.dev.issued.length := by
  refine Wp.bind (Wp.mono (logReadLog_takes hio (by rwa [h.free_eq hnil])) (fun r m₁ h₁ ↦ ?_)
    fun _ _ h ↦ h.elim)
  obtain ⟨hr, hlen, ht⟩ := h₁
  have hback : ∀ m₂, Kept m₁ m₂ → Conserved { m₂ with log := freeBufs r.1.length m₂.log } ∧
      m₂.log.nodes = [] ∧ m.dev.issued.length ≤ m₂.dev.issued.length := by
    intro m₂ h₂
    have hb : Bufs m₂ (0 + n) := (h.takes ht).takes h₂
    rw [Nat.zero_add, ← hlen] at hb
    exact ⟨hb.freeBufs, h₂.nodes_nil (ht.nodes_nil hnil), ht.issued.trans h₂.issued⟩
  have hwrite : Returns (do Exec.require r.2 .io; logWriteToDisk io r.1) m₁ (Kept m₁) :=
    Returns.of_rel fun _ h ↦ h
  refine Wp.bind (Wp.onFail (Wp.mono hwrite (fun _ m₂ h₂ ↦ ?_) fun e m₂ h₂ ↦ ?_))
  · exact Wp.modify (hback m₂ h₂)
  · exact Wp.modify (h₂.imp_right (hback m₂))

theorem logApplyChunks_returns {fuel : Nat} (h : Conserved m) (hnil : m.log.nodes = [])
    (hio : io.ReadsFrom m.dev.issued.length) :
    Returns (logApplyChunks io fuel off n) m fun m' ↦ Conserved m' := by
  induction fuel generalizing off n m with
  | zero =>
    cases n with
    | zero => exact Wp.of_ok rfl h
    | succ n => exact Wp.of_error rfl (.inr h)
  | succ fuel ih =>
    cases n with
    | zero => exact Wp.of_ok rfl h
    | succ n =>
      refine wp_get ?_
      have hn : min (n + 1) m.log.maxMem ≤ logMemory := h.maxMem ▸ min_le_right _ _
      exact Returns.bind (logApplyChunk_returns h hnil hio hn) (fun _ h ↦ h.1) fun _ m₁ h₁ ↦
        ih h₁.1 h₁.2.1 fun k hk ↦ hio k (h₁.2.2.trans hk)

theorem logApplyDisk_returns (h : Conserved m)
    (hio : io.ReadsFrom m.dev.issued.length) : Returns (logApplyDisk io n) m Conserved := by
  refine wp_get (Wp.bind ?_)
  refine Wp.mono (logInit_returns h.bufs) (fun _ m₁ h₁ ↦ ?_) fun _ _ h ↦ .inl h
  refine Returns.bind (logApplyChunks_returns h₁.1 h₁.2.1 (by rwa [h₁.2.2])) (fun _ h ↦ h) fun _ m₂ h₂ ↦ ?_
  exact Wp.mono (logInit_returns h₂.bufs) (fun _ _ h ↦ h.1) fun _ _ h ↦ .inl h

theorem logWriteToDisk_issued {bs : List (Block α)} (m : Machine α ρ) :
    Wp (logWriteToDisk io bs) m
      (fun _ m' ↦ m'.dev.issued.length = m.dev.issued.length + bs.length) fun _ _ ↦ True := by
  induction bs generalizing m with
  | nil => exact Wp.of_ok rfl rfl
  | cons b bs ih =>
    refine wp_get (wp_require (fun _ ↦ ?_) fun _ ↦ trivial)
    refine Wp.bind (Wp.bind (Wp.of_ok rfl (Wp.require (fun _ ↦ ?_) fun _ ↦ trivial)))
    refine Wp.imp (ih _) fun _ m' h ↦ ?_
    simp [h, Device.issue, Nat.add_assoc, Nat.add_comm 1]

theorem logWriteToDisk_succeeds {bs : List (Block α)} (hio : io.WritesFrom m.dev.issued.length) :
    Wp (logWriteToDisk io bs) m (fun _ m' ↦ Kept m m') fun e _ ↦ e = .panic := by
  induction bs generalizing m with
  | nil => exact Wp.of_ok rfl (Kept.refl m)
  | cons b bs ih =>
    refine wp_get (wp_require (fun _ ↦ ?_) fun _ ↦ rfl)
    have hok : io.succeeds (Request.write b.offset b : Request α ρ).isRead m.dev.issued.length = true :=
      hio _ le_rfl
    refine Wp.bind (Wp.of_ok (diskIoOrFail_ok hok) ?_)
    have hk : Kept m { m with dev := m.dev.after [.write b.offset b] } :=
      ⟨rfl, rfl, rfl, rfl, by simp [Device.after]⟩
    refine Wp.imp (ih fun k hkk ↦ hio k (hk.issued.trans hkk)) fun _ _ h ↦ hk.trans h

theorem logApplyMapped_returns (h : Conserved m) (hnil : m.log.nodes = [])
    (hr : io.ReadsFrom m.dev.issued.length) (hw : io.WritesFrom m.dev.issued.length) :
    Wp (logApplyMapped io) m (fun _ m' ↦ Conserved m' ∧ m'.log.nodes = [] ∧
      m.dev.issued.length ≤ m'.dev.issued.length) fun e _ ↦ e = .panic := by
  refine wp_get (Wp.bind ?_)
  have hlen : (m.log.diskMap.hashiter.take m.log.maxMem).length ≤ m.log.freeNodes := by
    rw [h.free_eq hnil, ← h.maxMem]
    exact List.length_take_le _ _
  refine Wp.imp (logReadMap_takes hr hlen) fun r m₁ h₁ ↦ ?_
  obtain ⟨hok, hcount, ht⟩ := h₁
  refine wp_require (fun _ ↦ ?_) fun hn ↦ absurd hok (by simp [hn])
  refine wp_require (fun _ ↦ Wp.bind ?_) fun _ ↦ rfl
  refine Wp.imp (logWriteToDisk_succeeds fun k hk ↦ hw k (ht.issued.trans hk)) fun _ m₂ h₂ ↦ ?_
  refine Wp.bind (Wp.mono (delAll_kept r.1 m₂) (fun _ m₃ h₃ ↦ Wp.modify ?_) fun _ _ h ↦ h.elim)
  have hk : Takes r.1.length m m₃ := by
    rw [hcount, List.length_nil]
    exact (ht.trans h₂).trans h₃
  have hb := h.takes hk
  rw [Nat.zero_add] at hb
  exact ⟨hb.freeBufs, hk.nodes_nil hnil, hk.issued⟩

theorem logApplyMap_returns {fuel : Nat} (h : Conserved m) (hnil : m.log.nodes = [])
    (hr : io.ReadsFrom m.dev.issued.length) (hw : io.WritesFrom m.dev.issued.length) :
    Returns (logApplyMap io fuel) m Conserved := by
  induction fuel generalizing m with
  | zero => exact wp_get (Returns.require h)
  | succ fuel ih =>
    refine wp_get ?_
    split
    · exact Wp.pure h
    · refine Wp.bind (Wp.mono (logApplyMapped_returns h hnil hr hw) (fun _ m₁ h₁ ↦ ?_)
        fun _ _ h ↦ .inl h)
      exact ih h₁.1 h₁.2.1 (fun k hk ↦ hr k (h₁.2.2.trans hk)) fun k hk ↦ hw k (h₁.2.2.trans hk)

theorem logApplyMem_returns (h : Conserved m)
    (hr : io.ReadsFrom (m.dev.issued.length + m.log.nodes.length))
    (hw : io.WritesFrom (m.dev.issued.length + m.log.nodes.length)) :
    Returns (logApplyMem io) m Conserved := by
  refine wp_get (Wp.bind ?_)
  have hwrite : Returns (logWriteToDisk io (m.log.nodes.map Node.toBlock)) m (Kept m) :=
    Returns.of_rel fun _ h ↦ h
  refine Wp.mono (Wp.and hwrite (logWriteToDisk_issued m)) (fun _ m₁ h₁ ↦ ?_)
    fun _ _ h' ↦ h'.1.imp_right h.takes
  obtain ⟨h₁, hissued⟩ := h₁
  rw [List.length_map] at hissued
  refine Wp.bind (Wp.mono (delAll_kept _ m₁) (fun _ m₂ h₂ ↦ ?_) fun _ _ h ↦ h.elim)
  refine wp_modify (wp_get ?_)
  have hfree := ((h.takes h₁).takes h₂).freeMem
  refine wp_require (fun _ ↦ ?_) fun _ ↦ .inl rfl
  have hfrom : m.dev.issued.length + m.log.nodes.length ≤ m₂.dev.issued.length := by
    rw [← hissued]
    exact h₂.issued
  refine Returns.bind (logApplyMap_returns hfree rfl (fun k hk ↦ hr k (hfrom.trans hk))
    fun k hk ↦ hw k (hfrom.trans hk)) (fun _ h ↦ h) fun _ m₃ h₃ ↦ ?_
  exact Wp.mono (logInit_returns h₃.bufs) (fun _ _ h ↦ h.1) fun _ _ h ↦ .inl h

/-- The disk answers the reads of the log, and, once the blocks in memory have been
written home, the writes that follow in `log_apply_mem`. -/
def LogCall.Answered (io : IoEnv) (m : Machine α ρ) : LogCall α → Prop
  | .applyMem => io.ReadsFrom (m.dev.issued.length + m.log.nodes.length) ∧
      io.WritesFrom (m.dev.issued.length + m.log.nodes.length)
  | .applyDisk _ => io.ReadsFrom m.dev.issued.length
  | _ => True

theorem LogCall.run_returns {op : LogCall α} (h : Conserved m) (hop : op.Answered io m) :
    Returns (op.run io) m Conserved := by
  cases op with
  | write b => exact logWrite_returns h b
  | tryRead off =>
    exact Returns.bind (Returns.of_rel fun _ hk ↦ h.takes hk)
      (fun _ h ↦ h) fun _ _ h ↦ Wp.pure h
  | flush =>
    exact Returns.bind (Returns.mono (logFlush_kept io m) fun _ hk ↦ h.takes hk)
      (fun _ h ↦ h) fun _ _ h ↦ Wp.pure h
  | free off => exact logFree_returns h off
  | applyMem => exact logApplyMem_returns h hop.1 hop.2
  | applyDisk n => exact logApplyDisk_returns h hop

/-- Along every sequence of calls, with any errors of the disk other than in reads of
the log and in the writes that follow them, no buffer is lost; the next block finds
one, and so does a whole batch of the log on disk. -/
theorem log_buffers_conserved
    (h : LogCalls (fun io (m : Machine α ρ) op ↦ op.Answered io m) m) :
    Conserved m ∧ FindsBuf m ∧ (freeMem m.log).freeNodes = m.log.maxMem := by
  have hc : Conserved m := by
    induction h with
    | init npages d => exact ⟨rfl, rfl, rfl⟩
    | step _ io op hp hr ih => exact (LogCall.run_returns ih hp).outcome hr
  exact ⟨hc, hc.findsBuf, by simpa [freeMem, hc.maxMem] using hc.bufs⟩

/-- The state in which the retry loop around `log_apply_mem` leaks: all that is left
to apply is in the log on disk. -/
structure OnlyLogged (m : Machine α ρ) : Prop where
  nodes : m.log.nodes = []
  inMem : m.log.inMem = 0
  maxMem : m.log.maxMem = logMemory
  size : m.log.diskMap.size ≠ 0
  entries : m.log.diskMap.hashiter ≠ []

theorem OnlyLogged.retry (h : OnlyLogged m) (hio : ∀ n, io.reads n = false) :
    (m.log.freeNodes = 0 → (logApplyMem io m).1 = .error .panic) ∧
    (0 < m.log.freeNodes → (logApplyMem io m).1 = .error .io ∧
      OnlyLogged (logApplyMem io m).2 ∧ (logApplyMem io m).2.log.freeNodes + 1 = m.log.freeNodes) := by
  obtain ⟨⟨key, val⟩, es, hes⟩ : ∃ e es, m.log.diskMap.hashiter.take m.log.maxMem = e :: es := by
    rw [h.maxMem]
    exact List.exists_cons_of_ne_nil (by simpa [logMemory] using h.entries)
  obtain ⟨fuel, hfuel⟩ := Nat.exists_eq_succ_of_ne_zero h.size
  obtain ⟨⟨byteoff, npages, maxMem, inMem, mustApply, nodes, freeNodes, onDisk, diskMap⟩, dev, hdr⟩ := m
  obtain ⟨rfl, rfl, hmax, hsize, hentries⟩ := h
  dsimp only at hes hfuel ⊢
  refine ⟨fun hzero ↦ ?_, fun hpos ↦ ?_⟩
  · subst hzero
    simp [logApplyMem, bind_apply, logWriteToDisk, delAll, modifyLog, freeMem, Exec.require, hfuel,
      logApplyMap, logApplyMapped, hes, logReadMap, takeBuf]
  · have hrun : logApplyMem io ⟨⟨byteoff, npages, maxMem, 0, mustApply, [], freeNodes, onDisk, diskMap⟩,
        dev, hdr⟩ = (.error .io, ⟨⟨byteoff, npages, maxMem, 0, mustApply, [], freeNodes - 1, onDisk,
          diskMap⟩, ⟨dev.disk, dev.issued ++ [.read val]⟩, hdr⟩) := by
      simp [logApplyMem, bind_apply, logWriteToDisk, delAll, modifyLog, freeMem, Exec.require, hfuel,
        logApplyMap, logApplyMapped, hes, logReadMap, takeBuf, hpos, diskIo_read, hio, blockAt]
    rw [hrun]
    exact ⟨rfl, ⟨rfl, rfl, hmax, hsize, hentries⟩, Nat.sub_add_cancel hpos⟩

theorem OnlyLogged.retries_run_out (h : OnlyLogged m) (hio : ∀ n, io.reads n = false) :
    (logApplyMem io ((fun m ↦ (logApplyMem io m).2)^[m.log.freeNodes] m)).1 = .error .panic := by
  generalize hk : m.log.freeNodes = k
  induction k generalizing m with
  | zero => exact (h.retry hio).1 hk
  | succ k ih =>
    obtain ⟨-, hlogged, hfree⟩ := (h.retry hio).2 (by omega)
    have hleft : (logApplyMem io m).2.log.freeNodes = k := by omega
    exact ih hlogged hleft

def IoEnv.broken : IoEnv := ⟨fun _ ↦ false, fun _ ↦ false, fun _ ↦ false⟩

/-- A disk with one block in its log. -/
def loggedDisk : Disk Nat Unit := { blankDisk with
  block := update blankDisk.block logByteoff ⟨45056, 7⟩ }

/-- The block of the log is not written home by the replay, nor one in memory by
`log_apply_mem`. -/
theorem failed_apply_conserves : ∃ m : Machine Nat Unit,
    LogCalls (fun io m op ↦ op.Answered io m) m ∧ m.log.inMem = 1 ∧ m.dev.issued.length = 3 ∧
      Conserved m ∧ FindsBuf m ∧ (freeMem m.log).freeNodes = m.log.maxMem := by
  have hrun : LogCalls (fun io m op ↦ op.Answered io m) _ := (LogCalls.init 8 loggedDisk).step
    ⟨fun _ ↦ true, fun _ ↦ false, fun _ ↦ false⟩ (.applyDisk 1) (fun _ _ ↦ rfl) (by decide +kernel)
  have hrun₂ := hrun.step .broken (.write ⟨49152, 1⟩) trivial (by decide +kernel)
  -- the first request of the call fails, and those that may follow would not
  have hrun₃ := hrun₂.step ⟨fun _ ↦ true, fun n ↦ 2 < n, fun _ ↦ false⟩ .applyMem
    ⟨fun _ _ ↦ rfl, fun n hn ↦ decide_eq_true (lt_of_lt_of_le (by decide +kernel) hn)⟩
    (by decide +kernel)
  exact ⟨_, hrun₃, by decide +kernel, by decide +kernel, log_buffers_conserved hrun₃⟩

/-- The first read of `log_apply_disk` fails: its buffer is on no list any more. -/
theorem failed_replay_loses : ¬ ∀ m : Machine Nat Unit,
    LogCalls (fun _ _ _ ↦ True) m → Conserved m := by
  intro h
  have hrun := (LogCalls.init (P := fun _ _ _ ↦ True) 8 blankDisk).step .broken (.applyDisk 1) trivial
    (by decide +kernel)
  exact absurd (h _ hrun).bufs (by decide +kernel)

end HiStar.Pstate
