import HiStar.Pstate.LogInv

namespace HiStar.Pstate

open Lib Function HashTable

variable {α ρ : Type} {io : IoEnv} {m m' : Machine α ρ} {lost : Nat}

/-- The log between two calls, when `lost` buffers have not come back from failed
reads. -/
structure LogOk (m : Machine α ρ) (lost : Nat) : Prop extends LogOkAt m m.log.onDisk where
  byteoff : m.log.byteoff = logByteoff
  pages : m.log.npages / entriesPerPage ≤ maxLogPages / entriesPerPage
  maxMem : m.log.maxMem = logMemory
  inMem : m.log.inMem = m.log.nodes.length
  bufs : m.log.freeNodes + m.log.nodes.length + lost = logMemory

structure Frame (m m' : Machine α ρ) : Prop where
  blocks : ∀ a, m.log.outside a = true → m'.dev.disk.block a = m.dev.disk.block a
  header : m'.dev.disk.header = m.dev.disk.header
  stableHdr : m'.stableHdr = m.stableHdr
  npages : m'.log.npages = m.log.npages

theorem SameView.frame (h : SameView m m') : Frame m m' :=
  ⟨h.blocks, h.header, h.stableHdr, by rw [h.log]⟩

variable {off k : Nat} {nodes : List (Node α)} {b : Block α}

theorem Log.IsHome.congr {l l' : Log α} (hb : l'.byteoff = l.byteoff)
    (hn : l'.npages = l.npages) (h : l.IsHome off) : l'.IsHome off := by
  simpa [Log.IsHome, Log.outside, hb, hn] using h

def NoBufs (lost : Nat) (e : Errno) (_ : Machine α ρ) : Prop := e = .panic ∧ 0 < lost

theorem mem_of_memBlock
    (h : memBlock nodes off = some b) : ∃ node ∈ nodes, node.toBlock = b ∧ node.offset = off := by
  have hoff := List.find?_some h
  obtain ⟨node, hn, rfl⟩ := List.mem_map.mp (List.mem_of_find?_eq_some h)
  exact ⟨node, hn, rfl, by simpa using hoff⟩

theorem memBlock_eq_none : memBlock nodes off = none ↔ ∀ node ∈ nodes, node.offset ≠ off := by
  simp [memBlock]

theorem pending_of_clean (h : LogOkAt m k)
    (hclean : ∀ node ∈ m.log.nodes, node.isDirty = false) : m.pending = m.logged := by
  funext off
  cases hb : memBlock m.log.nodes off with
  | none => simp [Machine.pending, hb]
  | some b =>
    obtain ⟨node, hn, rfl, rfl⟩ := mem_of_memBlock hb
    simp [Machine.pending, hb, h.clean node hn (hclean node hn)]

def HasRoom (m : Machine α ρ) : Prop := m.log.inMem + m.log.onDisk + 1 < m.log.npages

theorem logFlush_ok (hio : io.WritesOk) (h : LogOk m lost) (hroom : HasRoom m) (hf : FlushOk m) :
    ∃ m', logFlush io m = (.ok m'.log.onDisk, m') ∧ LogOk m' lost ∧ SameView m m' ∧
      ∀ node ∈ m'.log.nodes, node.isDirty = false := by
  have hlt : m.log.inMem + m.log.onDisk + 1 < m.log.npages := hroom
  have hat : LogOkAt m (m.log.onDisk + 0) := h.toLogOkAt
  obtain ⟨m₁, n, hrun, hn, hok, hview, hclean, honDisk⟩ :=
    logWriteToLog_ok hio hat (List.nil_append _).symm (by rw [← h.inMem]; omega) (by simp) hf
  have hlen : m₁.log.nodes.length = m.log.nodes.length := by
    simpa using congrArg List.length hview.nodes
  refine ⟨{ m₁ with log := { m₁.log with onDisk := m.log.onDisk + n } }, ?_, ?_, ?_, hclean⟩
  · have hcount : n ≤ m.log.inMem := by
      rw [h.inMem]
      omega
    simp [logFlush, bind_apply, Exec.require, hlt, hrun, hcount, modifyLog, honDisk]
  · refine ⟨⟨hok.nodup, hok.table, hok.capacity, hok.size, hok.used, hok.mapped, hok.clean, hok.home⟩,
      ?_, ?_, ?_, ?_, ?_⟩
    · rw [hview.log]
      exact h.byteoff
    · rw [hview.log]
      exact h.pages
    · rw [hview.log]
      exact h.maxMem
    · simp only [hlen, ← h.inMem]
      rw [hview.log]
    · simp only [hlen, ← h.bufs]
      rw [hview.log]
  · exact ⟨hview.pending, hview.blocks, hview.header, hview.stableHdr, by rw [hview.log],
      hview.nodes⟩

theorem logEvict_ok (hio : io.WritesOk) (h : LogOk m lost) (hroom : HasRoom m) (hf : FlushOk m) :
    ∃ m', logEvict io m = (.ok (), m') ∧ LogOk m' lost ∧ Frame m m' ∧ m'.pending = m.pending ∧
      m'.log.nodes = [] := by
  obtain ⟨m₁, hflush, hok, hview, hclean⟩ := logFlush_ok hio h hroom hf
  refine ⟨{ m₁ with log := { freeMem m₁.log with inMem := 0 } }, ?_, ?_, ?_, ?_, rfl⟩
  · simp [logEvict, bind_apply, hflush, modifyLog, hok.inMem, Exec.require]
  · refine ⟨⟨by simp [freeMem], hok.table, hok.capacity, hok.size, hok.used, hok.mapped, ?_, ?_⟩,
      hok.byteoff, hok.pages, hok.maxMem, rfl, hok.bufs⟩ <;> simp [freeMem]
  · exact ⟨hview.blocks, hview.header, hview.stableHdr, hview.frame.npages⟩
  · rw [← hview.pending, pending_of_clean hok.toLogOkAt hclean]
    rfl

def eraseNode (off : Nat) (nodes : List (Node α)) : List (Node α) :=
  nodes.eraseP fun node ↦ node.offset = off

theorem memBlock_eraseNode (off : Nat)
    (hnodup : (nodes.map fun node ↦ node.offset).Nodup) (off' : Nat) :
    memBlock (eraseNode off nodes) off' = if off' = off then none else memBlock nodes off' := by
  induction nodes with
  | nil => simp [eraseNode, memBlock]
  | cons node nodes ih =>
    simp only [List.map_cons, List.nodup_cons, List.mem_map, not_exists, not_and] at hnodup
    by_cases hoff : node.offset = off
    · have herase : eraseNode off (node :: nodes) = nodes := by simp [eraseNode, hoff]
      rw [herase]
      split
      next heq =>
        rw [memBlock_eq_none, heq, ← hoff]
        exact hnodup.1
      next hne => simp [memBlock, hoff, Ne.symm hne]
    · have herase : eraseNode off (node :: nodes) = node :: eraseNode off nodes := by
        simp [eraseNode, hoff]
      have hih := ih hnodup.2
      rw [herase]
      by_cases hoff' : node.offset = off'
      · have hne : off' ≠ off := hoff' ▸ hoff
        simp [memBlock, hoff', hne]
      · simpa [memBlock, hoff'] using hih

theorem length_eraseNode (h : nodes.any (fun node ↦ node.offset = off) = true) :
    (eraseNode off nodes).length + 1 = nodes.length := by
  obtain ⟨node, hn, hoff⟩ := List.any_eq_true.mp h
  have hlen : (eraseNode off nodes).length = nodes.length - 1 := List.length_eraseP_of_mem hn hoff
  have := List.length_pos_of_mem hn
  omega

def Machine.eraseNode (m : Machine α ρ) (off : Nat) : Machine α ρ :=
  { m with log := { m.log with nodes := Pstate.eraseNode off m.log.nodes } }

theorem LogOkAt.eraseNode (h : LogOkAt m k) (off : Nat) : LogOkAt (m.eraseNode off) k := by
  have hsub : (Pstate.eraseNode off m.log.nodes).Sublist m.log.nodes := List.eraseP_sublist
  exact ⟨h.nodup.sublist (hsub.map _), h.table, h.capacity, h.size, h.used, h.mapped,
    fun node hn ↦ h.clean node (hsub.subset hn), fun node hn ↦ h.home node (hsub.subset hn)⟩

theorem pending_eraseNode (h : LogOkAt m k) (off off' : Nat) :
    (m.eraseNode off).pending off' = if off' = off then m.logged off else m.pending off' := by
  have hmem : memBlock (m.eraseNode off).log.nodes off' = _ := memBlock_eraseNode off h.nodup off'
  simp only [Machine.pending, hmem]
  split
  next heq =>
    subst heq
    rfl
  · rfl

theorem LogOkAt.append (h : LogOkAt m k) (hnew : memBlock m.log.nodes b.offset = none)
    (hhome : m.log.IsHome b.offset) : LogOkAt { m with log := appendNode b m.log } k := by
  rw [memBlock_eq_none] at hnew
  refine ⟨?_, h.table, h.capacity, h.size, h.used, h.mapped, fun node hn hclean ↦ ?_,
    fun node hn ↦ ?_⟩
  · simp only [appendNode, List.map_append, List.map_cons, List.map_nil]
    refine List.nodup_append.mpr ⟨h.nodup, by simp, ?_⟩
    simpa using hnew
  all_goals
    simp only [appendNode, List.mem_append, List.mem_singleton] at hn
    rcases hn with hn | rfl
  · exact h.clean node hn hclean
  · cases hclean
  · exact h.home node hn
  · exact hhome

theorem pending_append (hnew : memBlock m.log.nodes b.offset = none) :
    Machine.pending { m with log := appendNode b m.log } = update m.pending b.offset (some b) := by
  funext off
  by_cases hoff : off = b.offset
  · subst hoff
    have : memBlock (appendNode b m.log).nodes b.offset = some b := by
      rw [memBlock] at hnew
      simp [memBlock, appendNode, hnew]
    simp [Machine.pending, this]
  · have : memBlock (appendNode b m.log).nodes off = memBlock m.log.nodes off := by
      simp [memBlock, appendNode, Ne.symm hoff]
    rw [update_of_ne hoff]
    simp only [Machine.pending, this]
    rfl

/-- What a write of `b` needs: a place outside of the log and, if the memory has
to be emptied for it, a flush that works. -/
structure WriteOk (m : Machine α ρ) (b : Block α) : Prop where
  home : m.log.IsHome b.offset
  flush : memBlock m.log.nodes b.offset = none → m.log.inMem = m.log.maxMem →
    HasRoom m ∧ FlushOk m

structure HasBuf (m m' : Machine α ρ) (lost : Nat) : Prop extends LogOkAt m' m'.log.onDisk where
  byteoff : m'.log.byteoff = logByteoff
  maxMem : m'.log.maxMem = logMemory
  inMem : m'.log.inMem = m'.log.nodes.length + 1
  bufs : m'.log.freeNodes + (m'.log.nodes.length + 1) + lost = logMemory
  frame : Frame m m'
  pending : m'.pending = m.pending
  fresh : ∀ off, memBlock m.log.nodes off = none → memBlock m'.log.nodes off = none

theorem takeBuf_wp {m₀ : Machine α ρ} (h : LogOk m lost) (hframe : Frame m₀ m)
    (hpend : m.pending = m₀.pending) (hfew : m.log.nodes.length < logMemory)
    (hfresh : ∀ off, memBlock m₀.log.nodes off = none → memBlock m.log.nodes off = none) :
    Wp (do takeBuf; modifyLog fun l ↦ { l with inMem := l.inMem + 1 }) m
      (fun _ m' ↦ HasBuf m₀ m' lost) (NoBufs lost) := by
  have hbufs := h.bufs
  by_cases hfree : 0 < m.log.freeNodes
  · have hrun : (do takeBuf; modifyLog fun l ↦ { l with inMem := l.inMem + 1 } : Io α ρ Unit) m =
        (.ok (), { m with log := { m.log with
          freeNodes := m.log.freeNodes - 1, inMem := m.log.inMem + 1 } }) := by
      simp [takeBuf, bind_apply, Exec.require, hfree, modifyLog]
    refine Wp.of_ok hrun ⟨⟨h.nodup, h.table, h.capacity, h.size, h.used, h.mapped, h.clean, h.home⟩,
      h.byteoff, h.maxMem, by simp [h.inMem], ?_, ?_, hpend, hfresh⟩
    · simp only
      omega
    · exact ⟨hframe.blocks, hframe.header, hframe.stableHdr, hframe.npages⟩
  · have hrun : (do takeBuf; modifyLog fun l ↦ { l with inMem := l.inMem + 1 } : Io α ρ Unit) m =
        (.error .panic, m) := by
      simp [takeBuf, bind_apply, Exec.require, hfree]
    exact Wp.of_error hrun ⟨rfl, by omega⟩

theorem logNewBuf_wp (hio : io.WritesOk) (h : LogOk m lost)
    (hf : m.log.inMem = m.log.maxMem → HasRoom m ∧ FlushOk m) :
    Wp (logNewBuf io) m (fun _ m' ↦ HasBuf m m' lost) (NoBufs lost) := by
  apply Wp.bind
  apply Wp.of_ok (get_apply m)
  apply Wp.bind
  by_cases hfull : m.log.inMem = m.log.maxMem
  · obtain ⟨m₁, hevict, hok, hframe, hpend, hnil⟩ := logEvict_ok hio h (hf hfull).1 (hf hfull).2
    refine Wp.of_ok (a := ()) (by simpa [Exec.when, hfull] using hevict) ?_
    exact takeBuf_wp hok hframe hpend (by simp [hnil, logMemory]) fun off _ ↦ by
      simp [hnil, memBlock]
  · refine Wp.of_ok (a := ()) (t := m) (by simp [Exec.when, hfull]) ?_
    have hbufs := h.bufs
    rw [h.inMem, h.maxMem] at hfull
    exact takeBuf_wp h ⟨fun _ _ ↦ rfl, rfl, rfl, rfl⟩ rfl (by omega) fun _ h ↦ h

theorem logWrite_wp (hio : io.WritesOk) (h : LogOk m lost) (hb : WriteOk m b) :
    Wp (logWrite io b) m (fun _ m' ↦ LogOk m' lost ∧ Frame m m' ∧
      m'.pending = update m.pending b.offset (some b)) (NoBufs lost) := by
  apply Wp.bind
  apply Wp.of_ok (get_apply m)
  split
  · -- the copy in memory is replaced and goes to the end
    rename_i hmem
    have hlen := length_eraseNode hmem
    have hnew : memBlock (m.eraseNode b.offset).log.nodes b.offset = none :=
      (memBlock_eraseNode b.offset h.nodup b.offset).trans (if_pos rfl)
    refine Wp.of_ok (a := ())
      (t := { m.eraseNode b.offset with log := appendNode b (m.eraseNode b.offset).log }) rfl ?_
    refine ⟨⟨(h.toLogOkAt.eraseNode b.offset).append hnew hb.home, h.byteoff, h.pages, h.maxMem, ?_, ?_⟩,
      ⟨fun _ _ ↦ rfl, rfl, rfl, rfl⟩, ?_⟩
    · simp [appendNode, Machine.eraseNode, h.inMem, hlen]
    · simp [appendNode, Machine.eraseNode, hlen, h.bufs]
    · rw [pending_append hnew]
      funext off
      by_cases hoff : off = b.offset
      · simp [hoff]
      · simp [hoff, pending_eraseNode h.toLogOkAt]
  · rename_i hmem
    have hnew : memBlock m.log.nodes b.offset = none := by
      rw [memBlock_eq_none]
      simpa using hmem
    refine Wp.seq (logNewBuf_wp hio h (hb.flush hnew)) fun _ m₁ h₁ ↦ ?_
    refine Wp.of_ok (a := ()) (t := { m₁ with log := appendNode b m₁.log }) rfl ?_
    have hhome : m₁.log.IsHome b.offset :=
      hb.home.congr (h₁.byteoff.trans h.byteoff.symm) h₁.frame.npages
    refine ⟨⟨h₁.toLogOkAt.append (h₁.fresh _ hnew) hhome, h₁.byteoff, ?_, h₁.maxMem, ?_, ?_⟩,
      ⟨h₁.frame.blocks, h₁.frame.header, h₁.frame.stableHdr, h₁.frame.npages⟩, ?_⟩
    · exact h₁.frame.npages ▸ h.pages
    · simp [appendNode, h₁.inMem]
    · simp [appendNode, h₁.bufs]
    · rw [pending_append (h₁.fresh _ hnew), h₁.pending]

theorem dropNode_ok (h : LogOk m lost) (off : Nat) :
    LogOk { m with log := dropNode off m.log } lost ∧
      (dropNode off m.log).nodes = eraseNode off m.log.nodes ∧
      (dropNode off m.log).diskMap = m.log.diskMap ∧ (dropNode off m.log).byteoff = m.log.byteoff ∧
      (dropNode off m.log).npages = m.log.npages ∧ (dropNode off m.log).onDisk = m.log.onDisk := by
  have hat := h.toLogOkAt.eraseNode off
  have hbufs := h.bufs
  unfold dropNode
  split
  · rename_i hmem
    have hlen := length_eraseNode hmem
    refine ⟨⟨⟨hat.nodup, hat.table, hat.capacity, hat.size, hat.used, hat.mapped, hat.clean, hat.home⟩,
      h.byteoff, h.pages, h.maxMem, ?_, ?_⟩, rfl, rfl, rfl, rfl, rfl⟩
    · simp only [h.inMem, ← hlen]
      exact Nat.add_sub_cancel _ _
    · simp only [eraseNode] at hlen
      simp only
      omega
  · rename_i hmem
    refine ⟨h, (List.eraseP_of_forall_not ?_).symm, rfl, rfl, rfl, rfl⟩
    simpa using hmem

theorem LogOkAt.hashDel (h : LogOkAt m k) {t : HashTable}
    (hmem : memBlock m.log.nodes off = none) (hdel : m.log.diskMap.hashDel off = .ok t) (b : Bool) :
    LogOkAt { m with log := { m.log with mustApply := b, diskMap := t } } k ∧
      ∀ off', Machine.logged { m with log := { m.log with mustApply := b, diskMap := t } } off' =
        if off' = off then none else m.logged off' := by
  obtain ⟨htable, hcap, hsize, hval⟩ := hashDel_ok h.table hdel
  have hlogged : ∀ off', Machine.logged
      { m with log := { m.log with mustApply := b, diskMap := t } } off' =
        if off' = off then none else m.logged off' := by
    intro off'
    simp only [Machine.logged, hval off']
    split <;> rfl
  refine ⟨⟨h.nodup, htable, hcap.trans h.capacity, ?_, h.used, fun key val hv ↦ ?_,
    fun node hn hclean ↦ ?_, h.home⟩, hlogged⟩
  · have := h.size
    simp only
    omega
  · simp only [hval key] at hv
    split at hv
    · cases hv
    · exact h.mapped key val hv
  · rw [hlogged, if_neg (memBlock_eq_none.mp hmem node hn)]
    exact h.clean node hn hclean

theorem logFree_ok (h : LogOk m lost) (off : Nat) :
    ∃ m', logFree off m = (.ok (), m') ∧ LogOk m' lost ∧ Frame m m' ∧
      m'.pending = update m.pending off none := by
  obtain ⟨h₁, hnodes, hmap, hbyteoff, hnpages, honDisk⟩ := dropNode_ok h off
  generalize hl : dropNode off m.log = l at *
  have hnone : memBlock l.nodes off = none := by
    rw [hnodes, memBlock_eraseNode off h.nodup, if_pos rfl]
  have hlogged : Machine.logged { m with log := l } = m.logged := by
    funext off'
    simp [Machine.logged, hmap]
  have hpend (off' : Nat) (hne : off' ≠ off) : memBlock l.nodes off' = memBlock m.log.nodes off' := by
    rw [hnodes, memBlock_eraseNode off h.nodup, if_neg hne]
  refine ⟨{ m with log := dropLogged off l }, by rw [logFree, modifyLog, modify_apply, hl], ?_⟩
  cases hget : l.diskMap.hashGet off with
  | error e =>
    have hval := hashGet_error h₁.table hget
    have hdrop : dropLogged off l = l := by simp [dropLogged, hget]
    rw [hdrop]
    refine ⟨h₁, ⟨fun _ _ ↦ rfl, rfl, rfl, hnpages⟩, ?_⟩
    funext off'
    by_cases hoff : off' = off
    · subst hoff
      simp [Machine.pending, hnone, Machine.logged, hval]
    · simp [Machine.pending, hpend off' hoff, hlogged, hoff]
  | ok v =>
    cases hdel : l.diskMap.hashDel off with
    | error e =>
      have := hashDel_error h₁.table hdel
      simp [hashGet_ok hget] at this
    | ok t =>
      have hdrop : dropLogged off l = { l with mustApply := true, diskMap := t } := by
        simp [dropLogged, hget, hdel]
      obtain ⟨hat, hlog'⟩ := h₁.toLogOkAt.hashDel hnone hdel true
      rw [hdrop]
      refine ⟨⟨hat, h₁.byteoff, h₁.pages, h₁.maxMem, h₁.inMem, h₁.bufs⟩,
        ⟨fun _ _ ↦ rfl, rfl, rfl, hnpages⟩, ?_⟩
      funext off'
      by_cases hoff : off' = off
      · subst hoff
        simp [Machine.pending, hnone, hlog']
      · simp [Machine.pending, hpend off' hoff, hlog', hoff, hlogged]

end HiStar.Pstate
