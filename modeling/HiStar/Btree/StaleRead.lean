import HiStar.Btree.OpenCurrent

namespace HiStar.Btree

open Lib Function
open Pstate (Block Machine IoEnv Node memBlock)

variable {io : IoEnv}

/-- A node that only the log on disk has is read there or, if this fails, at its home. -/
theorem readNode_logged {α ρ : Type} {m : Machine α ρ} {o : Nat} {b : Block α}
    (hkey : Pstate.HashTable.KeyOk o) (hmem : memBlock m.log.nodes o = none)
    (hlogged : m.logged o = some b) (hhome : io.reads (m.dev.issued.length + 1) = true) :
    ∃ m', readNode io o m =
      (.ok (if io.reads m.dev.issued.length then b else m.dev.disk.block o), m') := by
  have hfind : (m.log.nodes.find? fun node ↦ node.offset = o) = none :=
    Option.map_eq_none_iff.mp ((Pstate.find?_eq_none_iff _ _).trans hmem)
  obtain ⟨p, hp, rfl⟩ := Option.map_eq_some_iff.mp hlogged
  have hget : m.log.diskMap.hashGet o = .ok p := by
    rw [Pstate.HashTable.val?] at hp
    simp [Pstate.HashTable.hashGet, hkey, hp]
  cases hread : io.reads m.dev.issued.length with
  | true =>
    refine ⟨{ m with dev := ⟨m.dev.disk, m.dev.issued ++ [.read p]⟩ }, ?_⟩
    simp [readNode, bind_apply, attempt_apply, Pstate.logTryRead, hfind, hget, Pstate.diskIoOrFail,
      Pstate.diskIo_read, hread, Exec.require, Pstate.blockAt]
  | false =>
    refine ⟨{ m with dev := ⟨m.dev.disk, m.dev.issued ++ [.read p] ++ [.read o]⟩ }, ?_⟩
    simp [readNode, bind_apply, attempt_apply, Pstate.logTryRead, hfind, hget, Pstate.diskIoOrFail,
      Pstate.diskIo_read, hread, hhome, Exec.require, Pstate.blockAt]

def homeOf (k : Nat) : UInt64 := .ofNat (Pstate.pgsize * (4096 + k))

def savedNode (k : Nat) : Node Nat := ⟨⟨(homeOf k).toNat, 1⟩, true⟩

/-- The log with `n` nodes in memory and none on the disk. -/
def filledLog (n : Nat) : Machine Nat Unit where
  log := { Pstate.resetLog 2048 ({} : Pstate.Log Nat) with
    nodes := (List.range n).map savedNode
    inMem := n
    freeNodes := Pstate.logMemory - n }
  dev := ⟨Pstate.blankDisk, []⟩
  stableHdr := Pstate.blankDisk.header

theorem homeOf_toNat (hk : k ≤ 1025) : (homeOf k).toNat = Pstate.pgsize * (4096 + k) := by
  simp only [homeOf, UInt64.toNat_ofNat', Pstate.pgsize]
  omega

theorem memBlock_filled (hn : n ≤ k) (hk : k ≤ 1025) :
    memBlock (filledLog n).log.nodes (homeOf k).toNat = none := by
  refine Pstate.memBlock_eq_none.mpr fun node hnode ↦ ?_
  obtain ⟨j, hj, rfl⟩ := List.mem_map.mp hnode
  have hlt := List.mem_range.mp hj
  simp only [savedNode, homeOf_toNat (show j ≤ 1025 by omega), homeOf_toNat hk, Pstate.pgsize]
  omega

theorem logWrite_new {α ρ : Type} {b : Block α} {m m₁ : Machine α ρ}
    (hnew : memBlock m.log.nodes b.offset = none)
    (hmake : Exec.when (m.log.inMem = m.log.maxMem) (Pstate.logEvict io) m = (.ok (), m₁))
    (hfree : 0 < m₁.log.freeNodes) :
    Pstate.logWrite io b m = (.ok (), { m₁ with log := Pstate.appendNode b { m₁.log with
      freeNodes := m₁.log.freeNodes - 1, inMem := m₁.log.inMem + 1 } }) := by
  have hmem : ¬ ∃ node ∈ m.log.nodes, node.offset = b.offset :=
    fun ⟨node, hnode, hoff⟩ ↦ Pstate.memBlock_eq_none.mp hnew node hnode hoff
  simp [Pstate.logWrite, bind_apply, hmem, Pstate.logNewBuf, hmake, Pstate.takeBuf, hfree,
    Exec.require, Pstate.modifyLog]

theorem logWrite_filled (hn : n < 1024) :
    Pstate.logWrite .perfect (savedNode n).toBlock (filledLog n) = (.ok (), filledLog (n + 1)) := by
  have hroom : (filledLog n).log.inMem ≠ (filledLog n).log.maxMem := hn.ne
  rw [logWrite_new (memBlock_filled (le_refl n) (by omega)) (by simp [Exec.when, hroom]; rfl)
    (Nat.sub_pos_of_lt hn)]
  simp only [filledLog, Pstate.appendNode, List.range_succ, List.map_append, List.map_cons,
    List.map_nil, savedNode]
  rfl

theorem homeOf_noWrap : ∀ k < 1024, (Pstate.hashInit 2048).NoWrap (homeOf k).toNat := by
  decide +kernel

variable {n k : Nat}

theorem flushOk_filled (hn : n ≤ 1024) : Pstate.FlushOk (filledLog n) := by
  intro node hnode _
  obtain ⟨k, hk, rfl⟩ := List.mem_map.mp (show node ∈ (List.range n).map savedNode from hnode)
  refine ⟨fun i _ hholds ↦ ?_, homeOf_noWrap k ((List.mem_range.mp hk).trans_le hn)⟩
  cases hholds

theorem isHome_filled (hk : k ≤ 1025) : (filledLog n).log.IsHome (homeOf k).toNat := by
  rw [homeOf_toNat hk]
  refine ⟨Bool.or_eq_true_iff.mpr (.inr (decide_eq_true ?_)), ?_⟩
  · show 4096 + 2048 * 4096 ≤ 4096 * (4096 + k)
    omega
  · simp only [Pstate.HashTable.KeyOk, Pstate.tomb, Pstate.pgsize]
    omega

theorem hasRoom_filled (hn : n ≤ 1024) : Pstate.HasRoom (filledLog n) := by
  show n + 0 + 1 < 2048
  omega

theorem homeOf_ne {j : Nat} (hj : j ≤ 1025) (hk : k ≤ 1025) (hne : j ≠ k) :
    homeOf j ≠ homeOf k := fun heq ↦ by
  have := congrArg UInt64.toNat heq
  rw [homeOf_toNat hj, homeOf_toNat hk, Pstate.pgsize] at this
  omega

theorem homeOf_toNat_ne (hk : k + 1 ≤ 1024) : (homeOf 0).toNat ≠ (homeOf (k + 1)).toNat :=
  fun heq ↦ homeOf_ne (by omega) (by omega) (by omega) (UInt64.toNat_inj.mp heq)

theorem open_read {s : Nodes Nat Unit} {v : NodeView Nat} {b : Block Nat}
    {m : Machine Nat Unit} {off : UInt64} (h : NodeRun 1 2048 Careful s v)
    (href : (s.cache.cmeta 0).ref = 0) (hoff : off ≠ 0) (hnone : v.cache.held off = none)
    (hread : readNode io off.toNat s.machine = (.ok b, m)) :
    ∃ i c, pbtreeOpenNode io off s = (.ok i, ⟨c, m⟩) ∧ c.buf i = b := by
  obtain ⟨hnEnt, hcur⟩ := h.current one_pos (by decide)
  have hpos : 0 < s.cache.nEnt := hnEnt ▸ one_pos
  rcases hcur.cache.tryInsert_cases hpos hoff hnone b with ⟨i, -, -, hins⟩ | ⟨-, hfull⟩
  · refine ⟨i, (Cache.tryInsert off b s.cache).2, ?_, ?_⟩
    · simp [open_miss hcur.cache hnone, bind_apply, onLog, onCache, hread, hins]
    · simp [hins, Cache.setMeta, Cache.toTail, Cache.fill]
  · exact absurd href (hfull 0 hpos).2

/-- A node is saved, and evicted from a cache of one entry by another one. -/
theorem saved_evicted : ∃ c v, NodeRun 1 2048 Careful ⟨c, filledLog 1⟩ v ∧
    v.latest (homeOf 0).toNat = some (savedNode 0).toBlock ∧ (c.cmeta 0).ref = 0 ∧
    ∀ t ≠ homeOf 1025, v.cache.held t = none := by
  have h₀ : NodeRun 1 2048 Careful ⟨Cache.init 1, Pstate.logInitial 2048 Pstate.blankDisk⟩ _ :=
    .init _
  have h₁ := h₀.step (r := .ok 0) .perfect Pstate.writesOk_perfect
    (show (NodeCall.newNode (homeOf 0)).Proper _ _ from rfl) trivial rfl (by simp)
  have h₂ := h₁.step (r := .ok 0) .perfect Pstate.writesOk_perfect
    (show (NodeCall.store (homeOf 0) 1).Proper _ _ from ⟨by decide, by decide⟩)
    (fun _ hfull ↦ absurd hfull (by decide)) rfl (by simp)
  have h₃ := h₂.step (r := .ok 0) .perfect Pstate.writesOk_perfect
    (show (NodeCall.closeNode (homeOf 0)).Proper _ _ from trivial) trivial rfl (by simp)
  have h₄ := h₃.step (r := .ok 0) .perfect Pstate.writesOk_perfect
    (show (NodeCall.newNode (homeOf 1025)).Proper _ _ from rfl) trivial rfl (by simp)
  have h₅ := h₄.step (r := .ok 0) .perfect Pstate.writesOk_perfect
    (show (NodeCall.closeNode (homeOf 1025)).Proper _ _ from trivial) trivial rfl (by simp)
  refine ⟨_, _, h₅, by decide, rfl, fun t ht ↦ ?_⟩
  refine (h₅.current one_pos (by decide)).2.cache.held_none fun j hj ↦ ht ?_
  obtain rfl : j = 0 := Nat.lt_one_iff.mp hj.lt
  exact hj.tag.symm

section Other

variable {c : Cache (Block Nat)} {v : NodeView Nat} {m : Machine Nat Unit}

/-- Another tree saves a node. -/
theorem save_other (h : NodeRun 1 2048 Careful ⟨c, filledLog n⟩ v)
    (hheld : ∀ t ≠ homeOf 1025, v.cache.held t = none) (hn : n ≤ 1024)
    (hwrite : Pstate.logWrite .perfect (savedNode n).toBlock (filledLog n) = (.ok (), m)) :
    NodeRun 1 2048 Careful ⟨c, m⟩
      { v with latest := update v.latest (homeOf n).toNat (some (savedNode n).toBlock) } := by
  refine h.step (r := .ok 0) .perfect Pstate.writesOk_perfect
    (show (NodeCall.log (.write (savedNode n).toBlock)).Proper _ _ from
      ⟨⟨isHome_filled (by omega), fun _ _ ↦ hasRoom_filled hn⟩, fun t ht ↦ hheld t ?_⟩)
    (fun _ _ ↦ flushOk_filled hn) ?_ (by simp)
  · rw [← UInt64.toNat_inj.mp (Option.some.inj ht)]
    exact homeOf_ne (by omega) (le_refl 1025) (by omega)
  · simp [NodeCall.run, onLog, bind_apply, Pstate.LogOp.run, hwrite]

/-- Other trees save nodes until the memory of the log is full. -/
theorem saved_filled (h : NodeRun 1 2048 Careful ⟨c, filledLog 1⟩ v)
    (hheld : ∀ t ≠ homeOf 1025, v.cache.held t = none) (hn : n + 1 ≤ 1024) :
    ∃ latest, NodeRun 1 2048 Careful ⟨c, filledLog (n + 1)⟩ ⟨v.cache, latest⟩ ∧
      latest (homeOf 0).toNat = v.latest (homeOf 0).toNat := by
  induction n with
  | zero => exact ⟨_, h, rfl⟩
  | succ n ih =>
    obtain ⟨latest, hrun, hlatest⟩ := ih (by omega)
    refine ⟨_, save_other (v := ⟨v.cache, latest⟩) hrun hheld (by omega)
      (logWrite_filled (by omega)), ?_⟩
    rw [← hlatest]
    exact update_of_ne (homeOf_toNat_ne (by omega)) _ _

/-- One more node moves them all to the log on disk. -/
theorem saved_logged (hn : n + 1 = 1024) :
    ∃ (s : Nodes Nat Unit) (v : NodeView Nat), NodeRun 1 2048 Careful s v ∧
      v.latest (homeOf 0).toNat = some (savedNode 0).toBlock ∧ (s.cache.cmeta 0).ref = 0 ∧
      v.cache.held (homeOf 0) = none ∧ memBlock s.machine.log.nodes (homeOf 0).toNat = none ∧
      s.machine.logged (homeOf 0).toNat = some (savedNode 0).toBlock ∧
      s.machine.dev.disk.block (homeOf 0).toNat = ⟨(homeOf 0).toNat, 0⟩ := by
  have hle : n + 1 ≤ 1024 := hn.le
  obtain ⟨c, v, hsave, hlatest, href, hheld⟩ := saved_evicted
  obtain ⟨latest, hrun, hkept⟩ := saved_filled hsave hheld hle
  have hsaved := hkept.trans hlatest
  obtain ⟨-, hcur⟩ := hrun.current one_pos (by decide)
  obtain ⟨lost, hlog⟩ := hcur.log
  obtain ⟨m, hevict, hok, hframe, hpend, hnil⟩ := Pstate.logEvict_ok Pstate.writesOk_perfect hlog
    (hasRoom_filled hle) (flushOk_filled hle)
  have hfree : 0 < m.log.freeNodes := by
    have hbufs := hlog.bufs
    have hbufs' := hok.bufs
    simp only [filledLog, hnil, List.length_map, List.length_range, List.length_nil,
      Pstate.logMemory] at hbufs hbufs'
    omega
  have hfull : (filledLog (n + 1)).log.inMem = (filledLog (n + 1)).log.maxMem := hn
  have hwrite := logWrite_new
    (show memBlock _ (savedNode (n + 1)).offset = none from memBlock_filled (le_refl _) (by omega))
    (by rw [Exec.when, decide_eq_true hfull, if_pos rfl, hevict]) hfree
  have hne := homeOf_toNat_ne (show n + 1 ≤ 1024 by omega)
  refine ⟨_, _, save_other (v := ⟨v.cache, latest⟩) hrun hheld hle hwrite, ?_, href,
    hheld _ (by decide), ?_, ?_, ?_⟩
  · dsimp only
    rw [update_of_ne hne, hsaved]
  · simpa [Pstate.appendNode, hnil, memBlock, savedNode] using hne.symm
  · have hlogged : m.logged (homeOf 0).toNat = m.pending (homeOf 0).toNat := by
      simp [Machine.pending, hnil, memBlock]
    refine hlogged.trans ?_
    rcases (hcur.latest _ _ hsaved).2 with hp | ⟨-, hblock⟩
    · rw [hpend, hp]
    · cases hblock
  · exact hframe.blocks _ (isHome_filled (by decide)).1

end Other

/-- A node is opened as it was last saved. -/
theorem open_node_current {α ρ : Type} [Zero α] {s s' : Nodes α ρ} {v : NodeView α} {io : IoEnv}
    {off : UInt64} (nEnt npages : Nat) (hn : 0 < nEnt)
    (hpages : npages / Pstate.entriesPerPage ≤ Pstate.maxLogPages / Pstate.entriesPerPage)
    (h : NodeRun nEnt npages Careful s v) (hcareful : Careful io s v (.openNode off)) {i : Nat}
    {b : Block α} (hb : v.latest off.toNat = some b)
    (hopen : pbtreeOpenNode io off s = (.ok i, s')) : s'.cache.buf i = b := by
  obtain ⟨hnEnt, hcur⟩ := h.current hn hpages
  exact (hcur.openNode (hnEnt.symm ▸ hn) hcareful hopen).2 i b rfl hb

theorem logged_node_current : ∃ (s s' : Nodes Nat Unit) (v : NodeView Nat) (i : Nat),
    NodeRun 1 2048 Careful s v ∧ memBlock s.machine.log.nodes (homeOf 0).toNat = none ∧
      s.machine.dev.disk.block (homeOf 0).toNat = ⟨(homeOf 0).toNat, 0⟩ ∧
      pbtreeOpenNode .perfect (homeOf 0) s = (.ok i, s') ∧
      s'.cache.buf i = ⟨(homeOf 0).toNat, 1⟩ := by
  obtain ⟨s, v, hrun, hlatest, href, hheld, hmem, hlogged, hblock⟩ := saved_logged rfl
  obtain ⟨m, hread⟩ := readNode_logged (isHome_filled (n := 0) (by decide)).2 hmem hlogged
    (show IoEnv.perfect.reads _ = true from rfl)
  obtain ⟨i, c, hopen, -⟩ := open_read hrun href (by decide) hheld hread
  refine ⟨s, _, v, i, hrun, hmem, hblock, hopen, ?_⟩
  refine open_node_current 1 2048 one_pos (by decide) hrun
    (show Careful .perfect s v (.openNode _) from ⟨?_, fun _ _ _ ↦ rfl⟩) hlatest hopen
  rw [(hrun.current one_pos (by decide)).2.cache.free _ hheld]
  decide

/-- The log cannot be read where it has the only copy of the node. -/
theorem stale_node_opened : ¬ ∀ (s s' : Nodes Nat Unit) (v : NodeView Nat) (io : IoEnv)
    (off : UInt64) (i : Nat) (b : Block Nat), NodeRun 1 2048 Careful s v → io.WritesOk →
      v.latest off.toNat = some b → pbtreeOpenNode io off s = (.ok i, s') → s'.cache.buf i = b := by
  intro hall
  obtain ⟨s, v, hrun, hlatest, href, hheld, hmem, hlogged, hblock⟩ := saved_logged rfl
  let io : IoEnv := { IoEnv.perfect with reads := fun k ↦ k ≠ s.machine.dev.issued.length }
  obtain ⟨m, hread⟩ := readNode_logged (isHome_filled (n := 0) (by decide)).2 hmem hlogged
    (show io.reads _ = true by simp [io])
  obtain ⟨i, c, hopen, hbuf⟩ := open_read hrun href (by decide) hheld hread
  have hcurrent := hall s _ v io _ i _ hrun (fun _ ↦ rfl) hlatest hopen
  simp [hbuf, io, hblock, savedNode] at hcurrent

end HiStar.Btree
