import HiStar.Btree.OpenNode

namespace HiStar.Btree

open Lib Function
open Pstate (Block Machine IoEnv Io LogOk memBlock)

section Calls

variable {α ρ β : Type} {s s' : Nodes α ρ} {v : NodeView α} {io : IoEnv} {off : UInt64}

/-- The last contents of a node are pending in the log, or at home when nothing is pending. -/
def Latest (m : Machine α ρ) (latest : Nat → Option (Block α)) : Prop :=
  ∀ off b, latest off = some b → m.log.outside off = true ∧
    (m.pending off = some b ∨ m.pending off = none ∧ m.dev.disk.block off = b)

structure Current (s : Nodes α ρ) (v : NodeView α) : Prop where
  cache : Inv s.cache v.cache
  log : ∃ lost, LogOk s.machine lost
  latest : Latest s.machine v.latest
  cached : ∀ t i x b, v.cache.held t = some (i, x) → v.latest t.toNat = some b → x = b

section Log

variable {m m' : Machine α ρ} {latest : Nat → Option (Block α)} {lost : Nat}

theorem Latest.of_flows (h : Latest m latest) (hflows : Pstate.Flows m m') : Latest m' latest := by
  intro off b hb
  obtain ⟨hout, hlatest⟩ := h off b hb
  refine ⟨by rw [hflows.outside, hout], ?_⟩
  rcases hflows.block off hout with ⟨hpend, hblock⟩ | ⟨hpend, hblock⟩
  · rwa [hpend, hblock]
  · rcases hlatest with hb | ⟨hnone, -⟩
    · exact .inr ⟨hpend, Option.some.inj (hblock.symm.trans hb)⟩
    · rw [hnone] at hblock
      cases hblock

theorem Latest.of_frame (h : Latest m latest) (hok : LogOk m lost) (hok' : LogOk m' lost)
    (hframe : Pstate.Frame m m') (hpend : m'.pending = m.pending) : Latest m' latest := by
  intro off b hb
  obtain ⟨hout, hlatest⟩ := h off b hb
  have hout' : m'.log.outside off = m.log.outside off := by
    simp [Pstate.Log.outside, hok.byteoff, hok'.byteoff, hframe.npages]
  rw [hout', hframe.blocks off hout, hpend]
  exact ⟨hout, hlatest⟩

theorem Latest.update {b : Option (Block α)} {o : Nat} (h : Latest m latest) (hok : LogOk m lost)
    (hok' : LogOk m' lost) (hframe : Pstate.Frame m m') (hpend : m'.pending = update m.pending o b)
    (hout : b.isSome → m.log.outside o = true) : Latest m' (update latest o b) := by
  intro off x hx
  have hout' : m'.log.outside off = m.log.outside off := by
    simp [Pstate.Log.outside, hok.byteoff, hok'.byteoff, hframe.npages]
  rw [hout', hpend]
  by_cases ho : off = o
  · subst ho
    rw [update_self] at hx ⊢
    exact ⟨hout (by rw [hx]; rfl), .inl hx⟩
  · rw [update_of_ne ho] at hx ⊢
    obtain ⟨hx, hlatest⟩ := h off x hx
    rw [hframe.blocks off hx]
    exact ⟨hx, hlatest⟩

theorem Latest.forget (h : Latest m latest) (o : Nat) :
    Latest m (Function.update latest o none) := by
  intro off b hb
  by_cases ho : off = o
  · rw [ho, update_self] at hb
    cases hb
  · rw [update_of_ne ho] at hb
    exact h off b hb

theorem Latest.of_readOnly (h : Latest m latest) (hr : Pstate.ReadOnly m m' 0) :
    Latest m' latest := by
  obtain ⟨-, hdisk, -, hlog⟩ := hr
  have hpend : m'.pending = m.pending := by
    funext off
    simp [Machine.pending, Machine.logged, hlog, hdisk]
  intro off b hb
  obtain ⟨hout, hlatest⟩ := h off b hb
  rw [hpend, hdisk, hlog]
  exact ⟨hout, hlatest⟩

theorem readHome_wp (off : Nat) (m : Machine α ρ) :
    Wp (do Pstate.diskIoOrFail io (.read off); Pstate.blockAt off) m
      (fun b m' ↦ Pstate.ReadOnly m m' 0 ∧ b = m.dev.disk.block off)
      (fun e m' ↦ e = .io ∧ Pstate.ReadOnly m m' 0) := by
  have hsame : Pstate.ReadOnly m { m with dev := ⟨m.dev.disk, m.dev.issued ++ [.read off]⟩ } 0 :=
    ⟨Nat.zero_le _, rfl, rfl, rfl⟩
  cases hread : io.reads m.dev.issued.length with
  | true =>
    refine Wp.of_ok ?_ ⟨hsame, rfl⟩
    simp [Pstate.diskIoOrFail, bind_apply, Pstate.diskIo_read, hread, Exec.require, Pstate.blockAt]
  | false =>
    refine Wp.of_error ?_ ⟨rfl, hsame⟩
    simp [Pstate.diskIoOrFail, bind_apply, Pstate.diskIo_read, hread, Exec.require]

theorem readOnly_trans {m₁ m₂ : Machine α ρ} (h : Pstate.ReadOnly m m₁ 0)
    (h' : Pstate.ReadOnly m₁ m₂ 0) : Pstate.ReadOnly m m₂ 0 := by
  obtain ⟨-, hdisk, hstable, hlog⟩ := h
  obtain ⟨-, hdisk', hstable', hlog'⟩ := h'
  exact ⟨Nat.zero_le _, hdisk'.trans hdisk, hstable'.trans hstable, by rw [hlog', hlog]; rfl⟩

theorem readNode_wp (h : LogOk m lost) (hl : Latest m latest) {off : Nat}
    (hread : memBlock m.log.nodes off = none → (m.logged off).isSome →
      io.reads m.dev.issued.length = true) :
    Wp (readNode io off) m
      (fun b m' ↦ Pstate.ReadOnly m m' 0 ∧ ∀ b', latest off = some b' → b = b')
      (fun e m' ↦ e = .io ∧ Pstate.ReadOnly m m' 0) := by
  have htry := Pstate.logTryRead_wp io h off
  unfold readNode
  apply Wp.bind
  unfold Wp at htry ⊢
  rw [attempt_apply]
  rcases hr : Pstate.logTryRead io off m with ⟨e | b, m₁⟩ <;> rw [hr] at htry
  · have hnone : m.pending off = none := by
      rcases htry.2 with ⟨-, hnone⟩ | ⟨-, hfails, hmem, hlogged⟩
      · exact hnone
      · rw [hread hmem hlogged] at hfails
        cases hfails
    refine Wp.mono (readHome_wp off m₁) (fun b m₂ hb ↦ ?_) fun e m₂ he ↦ ?_
    · refine ⟨readOnly_trans htry.1 hb.1, fun b' hb' ↦ ?_⟩
      rcases (hl off b' hb').2 with hp | ⟨-, hblock⟩
      · rw [hnone] at hp
        cases hp
      · rw [hb.2, htry.1.2.1, hblock]
    · exact ⟨he.1, readOnly_trans htry.1 he.2⟩
  · refine ⟨htry.2, fun b' hb' ↦ ?_⟩
    rcases (hl off b' hb').2 with hp | ⟨hp, -⟩
    · exact Option.some.inj (htry.1.symm.trans hp)
    · rw [htry.1] at hp
      cases hp

end Log

section Steps

variable {r : Except Errno Nat}

theorem Current.closeNode (h : Current s v) (hrun : pbtreeCloseNode off s = (r, s'))
    (hr : r ≠ .error .panic) :
    s'.cache.nEnt = s.cache.nEnt ∧ Current s' (v.after s' (.closeNode off) r) := by
  rcases hdec : Cache.decRef off s.cache with ⟨r', c'⟩
  have hrun' : (r, s') = (r', { s with cache := c' }) := by
    rw [← hrun]
    simp [pbtreeCloseNode, onCache, hdec]
  cases hrun'
  obtain ⟨hnEnt, hinv⟩ := h.cache.decRef hdec hr
  refine ⟨hnEnt, hinv, h.log, h.latest, ?_⟩
  cases r <;> exact h.cached

theorem latest_forgotten {latest : Nat → Option (Block α)} {t : UInt64} {b : Block α}
    (hb : update latest off.toNat none t.toNat = some b) : t ≠ off ∧ latest t.toNat = some b := by
  by_cases ht : t = off
  · rw [ht, update_self] at hb
    cases hb
  · rw [update_of_ne fun ho ↦ ht (UInt64.toNat_inj.mp ho)] at hb
    exact ⟨ht, hb⟩

theorem Current.store (h : Current s v) {x : α}
    (hproper : (NodeCall.store off x).Proper s v) (hcareful : Careful io s v (.store off x))
    (hio : io.WritesOk) (hrun : storeNode io off x s = (r, s')) (hr : r ≠ .error .panic) :
    s'.cache.nEnt = s.cache.nEnt ∧ Current s' (v.after s' (.store off x) r) := by
  obtain ⟨lost, hlog⟩ := h.log
  obtain ⟨e, he⟩ : ∃ e, v.cache.held off = some e := by
    cases hheld : v.cache.held off with
    | some e => exact ⟨e, rfl⟩
    | none => exact absurd (h.cache.free off hheld) hproper.1.ne'
  have hi := h.cache.has_of_held he
  have hwrite : Pstate.WriteOk s.machine ⟨off.toNat, x⟩ :=
    ⟨hproper.2.1, fun hnew hfull ↦ ⟨hproper.2.2 hnew hfull, hcareful hnew hfull⟩⟩
  have hwp := Pstate.logWrite_wp hio hlog hwrite
  unfold Wp at hwp
  rcases hw : Pstate.logWrite io ⟨off.toNat, x⟩ s.machine with ⟨err | u, m'⟩ <;> rw [hw] at hwp
  · have hfail : r = .error err := by
      have := congrArg Prod.fst hrun
      simpa [storeNode, h.cache.find_eq hi, bind_apply, onLog, onCache, hw] using this.symm
    rw [hfail, hwp.1] at hr
    exact absurd rfl hr
  · have hdone : (r, s') = (.ok 0, ⟨s.cache.fill e.1 ⟨off.toNat, x⟩, m'⟩) := by
      rw [← hrun]
      simp [storeNode, h.cache.find_eq hi, bind_apply, onLog, onCache, hw]
    cases hdone
    obtain ⟨hlog', hframe, hpend⟩ := hwp
    have hidx : ((v.cache.held off).map Prod.fst).getD 0 = e.1 := by simp [he]
    refine ⟨rfl, ?_, ⟨lost, hlog'⟩, ?_, fun t j y b hj hb ↦ ?_⟩
    · simp only [NodeView.after, hidx]
      exact h.cache.store hi _
    · exact h.latest.update hlog hlog' hframe hpend fun _ ↦ hproper.2.1.1
    · simp only [NodeView.after, hidx] at hj hb
      by_cases ht : t = off
      · subst ht
        simp only [View.store, update_self, Option.some.injEq, Prod.mk.injEq] at hj hb
        rw [← hj.2, hb]
      · have ho : t.toNat ≠ off.toNat := fun ho ↦ ht (UInt64.toNat_inj.mp ho)
        simp only [View.store, update_of_ne ht, update_of_ne ho] at hj hb
        exact h.cached t j y b hj hb

variable [Zero α]

theorem open_hit (io : IoEnv) (h : Inv s.cache v.cache) {e : Nat × Block α}
    (he : v.cache.held off = some e) :
    ∃ c', pbtreeOpenNode io off s = (.ok e.1, { s with cache := c' }) ∧
      Cache.ent off s.cache = (.ok e.1, c') := by
  have hent := h.ent_eq (h.has_of_held he)
  refine ⟨_, ?_, hent⟩
  simp [pbtreeOpenNode, bind_apply, onCache, hent]

theorem open_miss (h : Inv s.cache v.cache) (hnone : v.cache.held off = none) :
    pbtreeOpenNode io off s = (do
      let buf ← onLog (readNode io off.toNat)
      onCache (Cache.tryInsert off buf)) s := by
  obtain ⟨e, hent⟩ : ∃ e, Cache.ent off s.cache = (.error e, s.cache) := by
    by_cases hoff : off = 0
    · exact ⟨.inval, if_pos hoff⟩
    · exact ⟨.notFound, h.ent_eq_none hoff hnone⟩
  simp [pbtreeOpenNode, bind_apply, onCache, hent]

theorem Current.openNode (h : Current s v) (hn : 0 < s.cache.nEnt)
    (hcareful : Careful io s v (.openNode off)) (hrun : pbtreeOpenNode io off s = (r, s')) :
    (s'.cache.nEnt = s.cache.nEnt ∧ Current s' (v.after s' (.openNode off) r)) ∧
      ∀ i b, r = .ok i → v.latest off.toNat = some b → s'.cache.buf i = b := by
  obtain ⟨lost, hlog⟩ := h.log
  cases hheld : v.cache.held off with
  | some e =>
    obtain ⟨c', hopen, hent⟩ := open_hit io h.cache hheld
    have hwants : (Call.ent off : Call (Block α)).wants = some off := rfl
    obtain ⟨hnEnt, hinv⟩ := h.cache.call_wants hn hwants trivial hcareful.1 hent
    cases hopen.symm.trans hrun
    have hbuf : c'.buf = s.cache.buf := by
      rw [h.cache.ent_eq (h.cache.has_of_held hheld)] at hent
      cases hent
      rfl
    refine ⟨⟨hnEnt, ?_⟩, fun i b hi hb ↦ ?_⟩
    · refine ⟨?_, ⟨lost, hlog⟩, h.latest, ?_⟩
      · simpa [NodeView.after, View.after, hheld] using hinv
      · simpa [NodeView.after, View.after, View.acquire, hheld] using h.cached
    · cases hi
      have hx := ((h.cache.held off e.1 e.2).mp hheld).2
      rw [hbuf, hx]
      exact h.cached off e.1 e.2 b hheld hb
  | none =>
    rw [open_miss h.cache hheld] at hrun
    have hread := readNode_wp hlog h.latest (hcareful.2 hheld)
    unfold Wp at hread
    rcases hr : readNode io off.toNat s.machine with ⟨e | buf, m'⟩ <;> rw [hr] at hread
    · have hfail : (r, s') = (.error e, { s with machine := m' }) := by
        rw [← hrun]
        simp [bind_apply, onLog, hr]
      cases hfail
      refine ⟨⟨rfl, h.cache, ⟨lost, ?_⟩, h.latest.of_readOnly hread.2, h.cached⟩, by simp⟩
      exact (hlog.of_readOnly hread.2).1
    · have hins : (r, s') = ((Cache.tryInsert off buf s.cache).1,
          ⟨(Cache.tryInsert off buf s.cache).2, m'⟩) := by
        rw [← hrun]
        simp [bind_apply, onLog, onCache, hr]
      have hlog' : LogOk m' lost := (hlog.of_readOnly hread.1).1
      have hlatest' := h.latest.of_readOnly hread.1
      have hkept : Current ⟨s.cache, m'⟩ v := ⟨h.cache, ⟨lost, hlog'⟩, hlatest', h.cached⟩
      by_cases hoff : off = 0
      · rw [show Cache.tryInsert off buf s.cache = (.error .inval, s.cache) from
          if_pos hoff] at hins
        cases hins
        exact ⟨⟨rfl, hkept⟩, by simp⟩
      rcases h.cache.tryInsert_cases hn hoff hheld buf with ⟨i, hi, href, hgiven⟩ | ⟨hfull, -⟩
      · rw [hgiven] at hins
        cases hins
        have hbuf : (((s.cache.fill i buf).toTail i).setMeta i ⟨true, 1, off⟩).buf i = buf := by
          simp [Cache.setMeta, Cache.toTail, Cache.fill]
        refine ⟨⟨rfl, ?_, ⟨lost, hlog'⟩, hlatest', fun t j x b hj hb ↦ ?_⟩, fun j b hj hb ↦ ?_⟩
        · simp only [NodeView.after, View.after, hheld, Option.isSome_none, Bool.false_eq_true,
            if_false, hbuf]
          exact h.cache.give hi href hoff hheld buf
        · simp only [NodeView.after, View.after, hheld, Option.isSome_none, Bool.false_eq_true,
            if_false, hbuf] at hj
          rcases (held_assign x).mp hj with ⟨rfl, -, rfl⟩ | ⟨-, -, hj⟩
          · exact hread.2 b hb
          · exact h.cached t j x b hj hb
        · cases hj
          rw [hbuf]
          exact hread.2 b hb
      · rw [hfull] at hins
        cases hins
        exact ⟨⟨rfl, hkept⟩, by simp⟩

theorem Current.newNode (h : Current s v) (hn : 0 < s.cache.nEnt)
    (hnone : v.cache.held off = none) (hrun : pbtreeNewNode off s = (r, s')) :
    s'.cache.nEnt = s.cache.nEnt ∧ Current s' (v.after s' (.newNode off) r) := by
  rcases halloc : Cache.alloc off s.cache with ⟨r', c'⟩
  have hrun' : (r, s') = (r', { s with cache := c' }) := by
    rw [← hrun]
    simp [pbtreeNewNode, onCache, halloc]
  cases hrun'
  have hwants : (Call.alloc off : Call (Block α)).wants = some off := rfl
  obtain ⟨hnEnt, hinv⟩ := h.cache.call_wants hn hwants hnone trivial halloc
  refine ⟨hnEnt, ?_⟩
  cases r with
  | error e => exact ⟨hinv, h.log, h.latest, h.cached⟩
  | ok i =>
    refine ⟨hinv, h.log, h.latest.forget _, fun t j x b hj hb ↦ ?_⟩
    obtain ⟨ht, hb⟩ := latest_forgotten hb
    rcases (held_assign x).mp hj with ⟨rfl, -⟩ | ⟨-, -, hj⟩
    · exact absurd rfl ht
    · exact h.cached t j x b hj hb

theorem Current.freeNode (h : Current s v) (href : v.cache.refs off = 1)
    (hrun : pbtreeFreeNode off s = (r, s')) :
    s'.cache.nEnt = s.cache.nEnt ∧ Current s' (v.after s' (.freeNode off) r) := by
  obtain ⟨lost, hlog⟩ := h.log
  obtain ⟨m', hfree, hlog', hframe, hpend⟩ := Pstate.logFree_ok hlog off.toNat
  rcases hrem : Cache.rem off s.cache with ⟨r', c'⟩
  have hrun' : (r, s') = (r', ⟨c', m'⟩) := by
    rw [← hrun]
    simp [pbtreeFreeNode, bind_apply, onLog, onCache, hfree, hrem]
  cases hrun'
  obtain ⟨hnEnt, -, hinv⟩ := h.cache.rem (.inr href) hrem
  refine ⟨hnEnt, hinv, ⟨lost, hlog'⟩, h.latest.update hlog hlog' hframe hpend (by simp), ?_⟩
  intro t j x b hj hb
  obtain ⟨ht, hb⟩ := latest_forgotten hb
  refine h.cached t j x b ?_ hb
  cases r with
  | error e => exact hj
  | ok i =>
    simp only [NodeView.after, View.after, View.release, View.forget, update_of_ne ht] at hj
    exact hj

theorem Current.log_ok (h : Current s v) {op : Pstate.LogOp α} (hin : op.InRange s.machine)
    (hout : ∀ t, op.block? = some t.toNat → v.cache.held t = none)
    (hflush : op.FlushesOk s.machine) (hio : io.WritesOk)
    (hrun : (NodeCall.log op).run io s = (r, s')) (hr : r ≠ .error .panic) :
    s'.cache.nEnt = s.cache.nEnt ∧ Current s' (v.after s' (.log op) r) := by
  obtain ⟨lost, hlog⟩ := h.log
  have hlift : ∀ {e m}, op.run io s.machine = (e, m) →
      (r, s') = (e.map fun _ ↦ 0, { s with machine := m }) := by
    intro e m he
    rw [← hrun]
    cases e <;> simp [NodeCall.run, onLog, bind_apply, he, Except.map]
  -- the node that the call is about is not cached here
  have hkept : ∀ {o b}, op.block? = some o → ∀ t i x y, v.cache.held t = some (i, x) →
      update v.latest o b t.toNat = some y → x = y := by
    intro o b ho t i x y hx hy
    rw [update_of_ne] at hy
    · exact h.cached t i x y hx hy
    · rintro rfl
      rw [hout t ho] at hx
      cases hx
  cases op with
  | write b =>
    have hwp := Pstate.logWrite_wp hio hlog
      ⟨hin.1, fun hnew hfull ↦ ⟨hin.2 hnew hfull, hflush hnew hfull⟩⟩
    unfold Wp at hwp
    rcases hw : Pstate.logWrite io b s.machine with ⟨err | u, m'⟩ <;> rw [hw] at hwp
    · cases hlift hw
      exact absurd (congrArg Except.error hwp.1) hr
    · cases hlift hw
      obtain ⟨hlog', hframe, hpend⟩ := hwp
      exact ⟨rfl, h.cache, ⟨lost, hlog'⟩,
        h.latest.update hlog hlog' hframe hpend fun _ ↦ hin.1.1, hkept rfl⟩
  | free off =>
    obtain ⟨m', hfree, hlog', hframe, hpend⟩ := Pstate.logFree_ok hlog off
    cases hlift hfree
    exact ⟨rfl, h.cache, ⟨lost, hlog'⟩, h.latest.update hlog hlog' hframe hpend (by simp),
      hkept rfl⟩
  | flush =>
    obtain ⟨m', hdone, hlog', hview, -⟩ := Pstate.logFlush_ok hio hlog hin hflush
    cases hlift (show (Pstate.LogOp.flush : Pstate.LogOp α).run io s.machine = (.ok (), m') by
      simp [Pstate.LogOp.run, bind_apply, hdone])
    exact ⟨rfl, h.cache, ⟨lost, hlog'⟩, h.latest.of_frame hlog hlog' hview.frame hview.pending,
      h.cached⟩
  | apply =>
    have hwp := Pstate.logApplyMem_wp hio hlog
    unfold Wp at hwp
    rcases ha : Pstate.logApplyMem io s.machine with ⟨e | u, m'⟩ <;> rw [ha] at hwp
    · cases hlift ha
      rcases hwp with ⟨rfl, -⟩ | ⟨-, -, lost', hlog', hflows⟩
      · exact absurd rfl hr
      · exact ⟨rfl, h.cache, ⟨lost', hlog'⟩, h.latest.of_flows hflows, h.cached⟩
    · cases hlift ha
      exact ⟨rfl, h.cache, ⟨lost, hwp.1⟩, h.latest.of_flows hwp.2.1, h.cached⟩

end Steps

end Calls

section Runs

variable {α ρ : Type} [Zero α] {s s' : Nodes α ρ} {v : NodeView α} {io : IoEnv} {off : UInt64}
  {nEnt npages : Nat}

theorem current_init
    (hpages : npages / Pstate.entriesPerPage ≤ Pstate.maxLogPages / Pstate.entriesPerPage)
    (d : Pstate.Disk α ρ) :
    Current ⟨Cache.init nEnt, Pstate.logInitial npages d⟩ ⟨View.empty, fun off ↦
      if (Pstate.logInitial npages d).log.outside off then some (d.block off) else none⟩ := by
  obtain ⟨hlog, hpend, -⟩ := Pstate.represents_initial hpages d
  refine ⟨Inv.init nEnt, ⟨0, hlog⟩, fun off b hb ↦ ?_, fun t i x b hheld ↦ by cases hheld⟩
  dsimp only at hb ⊢
  split_ifs at hb with hout
  · exact ⟨hout, .inr ⟨congrFun hpend off, Option.some.inj hb⟩⟩

theorem NodeRun.current (hn : 0 < nEnt)
    (hpages : npages / Pstate.entriesPerPage ≤ Pstate.maxLogPages / Pstate.entriesPerPage)
    (h : NodeRun nEnt npages Careful s v) : s.cache.nEnt = nEnt ∧ Current s v := by
  induction h with
  | init d => exact ⟨rfl, current_init hpages d⟩
  | @step s s' v op r io h hio hproper hcareful hrun hr ih =>
    obtain ⟨hnEnt, hcur⟩ := ih
    have hpos : 0 < s.cache.nEnt := hnEnt.symm ▸ hn
    have hstep : s'.cache.nEnt = s.cache.nEnt ∧ Current s' (v.after s' op r) := by
      cases op with
      | openNode off => exact (hcur.openNode hpos hcareful hrun).1
      | closeNode off => exact hcur.closeNode hrun hr
      | newNode off => exact hcur.newNode hpos hproper hrun
      | freeNode off => exact hcur.freeNode hproper hrun
      | store off x => exact hcur.store hproper hcareful hio hrun hr
      | log op => exact hcur.log_ok hproper.1 hproper.2 hcareful hio hrun hr
    exact ⟨hstep.1.trans hnEnt, hstep.2⟩

end Runs

end HiStar.Btree
