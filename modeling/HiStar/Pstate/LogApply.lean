import HiStar.Pstate.LogMap

namespace HiStar.Pstate

open Lib Function HashTable

variable {α ρ : Type} {io : IoEnv} {m m' m'' : Machine α ρ} {lost k : Nat}

structure Flows (m m' : Machine α ρ) : Prop where
  block : ∀ off, m.log.outside off = true →
    (m'.pending off = m.pending off ∧ m'.dev.disk.block off = m.dev.disk.block off) ∨
    (m'.pending off = none ∧ m.pending off = some (m'.dev.disk.block off))
  header : m'.dev.disk.header = m.dev.disk.header
  stableHdr : m'.stableHdr = m.stableHdr
  byteoff : m'.log.byteoff = m.log.byteoff
  npages : m'.log.npages = m.log.npages

theorem Flows.refl (m : Machine α ρ) : Flows m m :=
  ⟨fun _ _ ↦ .inl ⟨rfl, rfl⟩, rfl, rfl, rfl, rfl⟩

theorem Flows.outside (h : Flows m m') (off : Nat) : m'.log.outside off = m.log.outside off := by
  simp [Log.outside, h.byteoff, h.npages]

theorem Flows.trans (h : Flows m m') (h' : Flows m' m'') : Flows m m'' where
  block off hout := by
    rcases h.block off hout with ⟨hp, hb⟩ | ⟨hp, hb⟩ <;>
      rcases h'.block off ((h.outside off).trans hout) with ⟨hp', hb'⟩ | ⟨hp', hb'⟩
    · exact .inl ⟨hp'.trans hp, hb'.trans hb⟩
    · exact .inr ⟨hp', hp.symm.trans hb'⟩
    · exact .inr ⟨hp'.trans hp, hb.trans (by rw [hb'])⟩
    · rw [hp] at hb'
      cases hb'
  header := h'.header.trans h.header
  stableHdr := h'.stableHdr.trans h.stableHdr
  byteoff := h'.byteoff.trans h.byteoff
  npages := h'.npages.trans h.npages

def offsets (bs : List (Block α)) : List Nat := bs.map fun b ↦ b.offset

variable {bs : List (Block α)}

theorem overlay_homeWrites (hnodup : (offsets bs).Nodup) {b : Block α}
    (hb : b ∈ bs) (f : Nat → Block α) : overlay (homeWrites bs) f b.offset = b := by
  induction bs generalizing f with
  | nil => cases hb
  | cons c bs ih =>
    simp only [offsets, List.map_cons, List.nodup_cons] at hnodup
    simp only [homeWrites, List.map_cons, overlay_cons]
    rcases List.mem_cons.mp hb with rfl | hb
    · have hnot : ∀ w ∈ homeWrites bs, w.1 ≠ b.offset := by
        simp only [homeWrites, List.mem_map, forall_exists_index, and_imp, forall_apply_eq_imp_iff₂]
        exact fun c hc heq ↦ hnodup.1 (List.mem_map.mpr ⟨c, hc, heq⟩)
      exact (overlay_of_notMem hnot).trans (update_self _ _ _)
    · exact ih hnodup.2 hb _

theorem overlay_homeWrites_of_notMem {off : Nat} (h : off ∉ offsets bs)
    (f : Nat → Block α) : overlay (homeWrites bs) f off = f off := by
  apply overlay_of_notMem
  simp only [homeWrites, List.mem_map, forall_exists_index, and_imp, forall_apply_eq_imp_iff₂]
  exact fun b hb heq ↦ h (List.mem_map.mpr ⟨b, hb, heq⟩)

def Machine.writeHome (m : Machine α ρ) (bs : List (Block α)) : Machine α ρ :=
  { m with dev := m.dev.after (writeRequests bs) }

theorem writeHome_block (bs : List (Block α)) (off : Nat) :
    (m.writeHome bs).dev.disk.block off = overlay (homeWrites bs) m.dev.disk.block off := by
  simp [Machine.writeHome, Device.after, block_landAll]

theorem writeHome_logged (h : LogOkAt m k)
    (hout : ∀ b ∈ bs, m.log.outside b.offset = true) : (m.writeHome bs).logged = m.logged := by
  funext off
  cases hv : m.log.diskMap.val? off with
  | none => simp [Machine.logged, Machine.writeHome, hv]
  | some v =>
    obtain ⟨-, ⟨i, hi, rfl⟩, -⟩ := h.mapped off v hv
    have hlt : i * pgsize < m.log.npages * pgsize :=
      Nat.mul_lt_mul_of_pos_right (hi.trans_le h.used) (by simp [pgsize])
    have hb := writeHome_block (m := m) bs (m.log.byteoff + i * pgsize)
    rw [block_after_outside hout (by omega) (by omega)] at hb
    have hmap : (m.writeHome bs).log.diskMap = m.log.diskMap := rfl
    simp [Machine.logged, hmap, hv, hb]

theorem delAll_ok (bs : List (Block α)) (m : Machine α ρ) (ht : m.log.diskMap.Ok) :
    ∃ t, delAll bs m = (.ok (), { m with log := { m.log with diskMap := t } }) ∧ t.Ok ∧
      t.capacity = m.log.diskMap.capacity ∧ t.size ≤ m.log.diskMap.size ∧
      (∀ key, t.val? key = if key ∈ offsets bs then none else m.log.diskMap.val? key) ∧
      ((offsets bs).Nodup → (∀ b ∈ bs, (m.log.diskMap.val? b.offset).isSome) →
        t.size + bs.length = m.log.diskMap.size) := by
  induction bs generalizing m with
  | nil => exact ⟨m.log.diskMap, rfl, ht, rfl, le_rfl, by simp [offsets], by simp⟩
  | cons b bs ih =>
    cases hdel : m.log.diskMap.hashDel b.offset with
    | error e =>
      have hnone := hashDel_error ht hdel
      obtain ⟨t, hrun, hok, hcap, hsize, hval, hcount⟩ := ih m ht
      have hstep : delDiskMap b.offset m = (.ok (), m) := by
        simp [delDiskMap, modifyLog, hdel]
      refine ⟨t, by rw [delAll, bind_apply, hstep]; exact hrun, hok, hcap, hsize, fun key ↦ ?_, ?_⟩
      · rw [hval key]
        by_cases hkey : key = b.offset
        · subst hkey
          simp [hnone]
        · simp [offsets, hkey]
      · intro _ hall
        simpa [hnone] using hall b List.mem_cons_self
    | ok t₁ =>
      obtain ⟨hok₁, hcap₁, hsize₁, hval₁⟩ := hashDel_ok ht hdel
      obtain ⟨t, hrun, hok, hcap, hsize, hval, hcount⟩ :=
        ih { m with log := { m.log with diskMap := t₁ } } hok₁
      have hstep : delDiskMap b.offset m =
          (.ok (), { m with log := { m.log with diskMap := t₁ } }) := by
        simp [delDiskMap, modifyLog, hdel]
      dsimp only at hsize hcap hval hcount
      refine ⟨t, by rw [delAll, bind_apply, hstep]; exact hrun, hok, hcap.trans hcap₁, by omega,
        fun key ↦ ?_, fun hnodup hall ↦ ?_⟩
      · rw [hval key, hval₁ key]
        by_cases hkey : key = b.offset
        · simp [offsets, hkey]
        · simp [offsets, hkey]
      · simp only [offsets, List.map_cons, List.nodup_cons] at hnodup
        have hlen := hcount hnodup.2 fun c hc ↦ by
          have hne : c.offset ≠ b.offset := fun heq ↦ hnodup.1 (List.mem_map.mpr ⟨c, hc, heq⟩)
          rw [hval₁, if_neg hne]
          exact hall c (List.mem_cons_of_mem _ hc)
        simp only [List.length_cons]
        omega

theorem settle (h : LogOkAt m k) {l : Log α} (hpend : ∀ b ∈ bs, m.pending b.offset = some b)
    (hout : ∀ b ∈ bs, m.log.outside b.offset = true) (hnodup : (offsets bs).Nodup)
    (htable : l.diskMap.Ok) (hcap : l.diskMap.capacity = m.log.diskMap.capacity)
    (hsize : l.diskMap.size ≤ m.log.diskMap.size)
    (hval : ∀ key, l.diskMap.val? key = if key ∈ offsets bs then none else m.log.diskMap.val? key)
    (hnodes : l.nodes.Sublist m.log.nodes)
    (hmem : ∀ off, memBlock l.nodes off =
      if off ∈ offsets bs then none else memBlock m.log.nodes off)
    (hbyteoff : l.byteoff = m.log.byteoff) (hnpages : l.npages = m.log.npages) :
    LogOkAt { m.writeHome bs with log := l } k ∧ Flows m { m.writeHome bs with log := l } := by
  have hlogged : ∀ off, Machine.logged { m.writeHome bs with log := l } off =
      if off ∈ offsets bs then none else m.logged off := by
    intro off
    rw [← writeHome_logged h hout]
    simp only [Machine.logged, hval off]
    split <;> rfl
  have hhome : ∀ {off}, m.log.IsHome off → l.IsHome off := fun h ↦ h.congr hbyteoff hnpages
  have hblock : ∀ off, (m.writeHome bs).dev.disk.block off =
      overlay (homeWrites bs) m.dev.disk.block off := writeHome_block bs
  refine ⟨⟨h.nodup.sublist (hnodes.map _), htable, ?_, hsize.trans h.size, hnpages ▸ h.used,
    fun key val hv ↦ ?_, fun node hn hclean ↦ ?_, fun node hn ↦ hhome (h.home node (hnodes.subset hn))⟩,
    ⟨fun off ho ↦ ?_, ?_, rfl, hbyteoff, hnpages⟩⟩
  · exact hcap.trans (h.capacity.trans hnpages.symm)
  · simp only [hval key] at hv
    split at hv
    · cases hv
    · obtain ⟨hk, ⟨i, hi, rfl⟩, hoff⟩ := h.mapped key val hv
      refine ⟨hhome hk, ⟨i, hi, by rw [hbyteoff]⟩, ?_⟩
      have hlt : i * pgsize < m.log.npages * pgsize :=
        Nat.mul_lt_mul_of_pos_right (hi.trans_le h.used) (by simp [pgsize])
      rw [hblock, block_after_outside hout (by omega) (by omega)]
      exact hoff
  · rw [hlogged, if_neg, h.clean node (hnodes.subset hn) hclean]
    intro hin
    have := (hmem node.offset).trans (if_pos hin)
    exact memBlock_eq_none.mp this node hn rfl
  · by_cases hin : off ∈ offsets bs
    · right
      obtain ⟨b, hb, rfl⟩ := List.mem_map.mp hin
      refine ⟨?_, ?_⟩
      · simp [Machine.pending, hmem, hlogged, hin]
      · rw [hblock, overlay_homeWrites hnodup hb]
        exact hpend b hb
    · left
      refine ⟨?_, ?_⟩
      · simp [Machine.pending, hmem, hlogged, hin]
      · rw [hblock, overlay_homeWrites_of_notMem hin]
  · rw [Machine.writeHome, Device.after, (blocksOnly_writeRequests bs).landAll]

theorem applyMemory_ok (hio : io.WritesOk) (h : LogOk m lost) :
    ∃ m₁ m₂, logWriteToDisk io (m.log.nodes.map Node.toBlock) m = (.ok (), m₁) ∧
      delAll (m.log.nodes.map Node.toBlock) m₁ = (.ok (), m₂) ∧
      m₂.log.inMem - m₂.log.nodes.length = 0 ∧
      LogOk { m₂ with log := { freeMem m₂.log with inMem := 0 } } lost ∧
      Flows m { m₂ with log := { freeMem m₂.log with inMem := 0 } } := by
  generalize hbs : m.log.nodes.map Node.toBlock = bs
  have hmem : ∀ b ∈ bs, ∃ node ∈ m.log.nodes, node.toBlock = b := by
    simp [← hbs]
  have hout : ∀ b ∈ bs, m.log.outside b.offset = true := by
    intro b hb
    obtain ⟨node, hn, rfl⟩ := hmem b hb
    exact (h.home node hn).1
  have hoffs : offsets bs = m.log.nodes.map fun node ↦ node.offset := by
    simp [offsets, ← hbs]
  have hnodup : (offsets bs).Nodup := hoffs ▸ h.nodup
  have hfind : ∀ off, memBlock m.log.nodes off = none ↔ off ∉ offsets bs := by
    intro off
    rw [memBlock_eq_none]
    simp [hoffs]
  have hpend : ∀ b ∈ bs, m.pending b.offset = some b := by
    intro b hb
    cases hc : memBlock m.log.nodes b.offset with
    | none => exact absurd (List.mem_map.mpr ⟨b, hb, rfl⟩) ((hfind _).mp hc)
    | some c =>
      have hcb : c ∈ bs ∧ c.offset = b.offset := by
        obtain ⟨node, hn, rfl, hoff⟩ := mem_of_memBlock hc
        exact ⟨hbs ▸ List.mem_map_of_mem hn, hoff⟩
      have := List.inj_on_of_nodup_map hnodup hcb.1 hb hcb.2
      simp [Machine.pending, hc, this]
  obtain ⟨t, hdel, hok, hcap, hsize, hval, -⟩ := delAll_ok bs (m.writeHome bs) h.table
  obtain ⟨hat, hflows⟩ := settle (l := { freeMem m.log with inMem := 0, diskMap := t })
    h.toLogOkAt hpend hout hnodup hok hcap hsize hval (List.nil_sublist _) (fun off ↦ by
      split
      · rfl
      next hin => exact ((hfind off).mpr hin).symm) rfl rfl
  refine ⟨_, _, logWriteToDisk_ok hio bs m hout, hdel, ?_, ⟨hat, h.byteoff, h.pages, h.maxMem, rfl, ?_⟩,
    hflows⟩
  · simp [Machine.writeHome, h.inMem]
  · exact h.bufs

def ReadOnly (m m' : Machine α ρ) (taken : Nat) : Prop :=
  taken ≤ m.log.freeNodes ∧ m'.dev.disk = m.dev.disk ∧ m'.stableHdr = m.stableHdr ∧
    m'.log = { m.log with freeNodes := m.log.freeNodes - taken }

theorem diskIo_read (off : Nat) (m : Machine α ρ) :
    diskIo io (.read off) m = (.ok (io.reads m.dev.issued.length),
      { m with dev := ⟨m.dev.disk, m.dev.issued ++ [.read off]⟩ }) := by
  simp [diskIo, Device.issue, Request.land, Request.isRead, IoEnv.succeeds]

theorem logReadMap_wp {es : List (Nat × Nat)} {acc : List (Block α)}
    (hes : ∀ e ∈ es, (m.dev.disk.block e.2).offset = e.1) :
    Wp (logReadMap io es acc) m
      (fun r m' ↦ ∃ taken, ReadOnly m m' taken ∧
        (r.2 = true → taken = es.length ∧
          r.1 = (es.map fun e ↦ m.dev.disk.block e.2).reverse ++ acc) ∧
        (r.2 = false → ∃ n, io.reads n = false))
      (fun e _ ↦ e = .panic ∧ m.log.freeNodes < es.length) := by
  induction es generalizing m acc with
  | nil =>
    refine Wp.of_ok rfl ⟨0, ⟨Nat.zero_le _, rfl, rfl, rfl⟩, fun _ ↦ ⟨rfl, by simp⟩, ?_⟩
    intro h
    cases h
  | cons e es ih =>
    obtain ⟨key, val⟩ := e
    simp only [List.mem_cons, forall_eq_or_imp] at hes
    by_cases hfree : 0 < m.log.freeNodes
    · -- one buffer is taken for this block
      generalize hm₁ : ({ m with
        log := { m.log with freeNodes := m.log.freeNodes - 1 }
        dev := ⟨m.dev.disk, m.dev.issued ++ [.read val]⟩ } : Machine α ρ) = m₁
      have hdisk : m₁.dev.disk = m.dev.disk := by rw [← hm₁]
      have hstep : logReadMap io ((key, val) :: es) acc m =
          (if io.reads m.dev.issued.length then logReadMap io es (m.dev.disk.block val :: acc)
            else pure (acc, false)) m₁ := by
        simp only [logReadMap, takeBuf, modifyLog, blockAt, bind_apply, get_apply, Exec.require, hfree,
          decide_true, if_true, pure_apply, modify_apply, diskIo_read, read_apply, hm₁, hdisk]
        split
        · simp [bind_apply, hes.1]
        · rfl
      refine Wp.of_step hstep ?_
      split
      · rename_i hread
        refine Wp.mono (ih (by simpa [hdisk] using hes.2)) (fun r m' h ↦ ?_) fun e _ h ↦ ?_
        · obtain ⟨taken, ⟨htaken, hd, hs, hl⟩, hok, hbad⟩ := h
          refine ⟨taken + 1, ⟨?_, hd.trans hdisk, ?_, ?_⟩, fun hr ↦ ?_, hbad⟩
          · simp only [← hm₁] at htaken
            omega
          · rw [hs, ← hm₁]
          · rw [hl, ← hm₁]
            simp [Nat.sub_sub, Nat.add_comm 1 taken]
          · obtain ⟨hlen, hbs⟩ := hok hr
            simp [hlen, hbs, hdisk]
        · refine ⟨h.1, ?_⟩
          have := h.2
          simp only [← hm₁] at this
          simp only [List.length_cons]
          omega
      · rename_i hread
        refine Wp.of_ok rfl ⟨1, ⟨hfree, hdisk, by rw [← hm₁], by rw [← hm₁]⟩, ?_, fun _ ↦ ?_⟩
        · intro h
          cases h
        · exact ⟨_, by simpa using hread⟩
    · have hstep : logReadMap io ((key, val) :: es) acc m = (.error .panic, m) := by
        simp [logReadMap, takeBuf, bind_apply, Exec.require, hfree]
      exact Wp.of_error hstep ⟨rfl, by simp only [List.length_cons]; omega⟩

theorem LogOk.of_readOnly {taken : Nat} (h : LogOk m lost) (hr : ReadOnly m m' taken) :
    LogOk m' (lost + taken) ∧ Flows m m' ∧ m'.log.nodes = m.log.nodes ∧
      m'.log.diskMap = m.log.diskMap := by
  obtain ⟨htaken, hdisk, hstable, hlog⟩ := hr
  obtain ⟨l, v, hd⟩ := m'
  dsimp only at hdisk hstable hlog ⊢
  subst hlog hstable
  have hlogged : Machine.logged ⟨{ m.log with freeNodes := m.log.freeNodes - taken }, v, m.stableHdr⟩ =
      m.logged := by
    funext off
    simp [Machine.logged, hdisk]
  have hbufs := h.bufs
  refine ⟨⟨⟨h.nodup, h.table, h.capacity, h.size, h.used, fun key val hv ↦ ?_, fun node hn hc ↦ ?_,
    h.home⟩, h.byteoff, h.pages, h.maxMem, h.inMem, ?_⟩, ⟨fun off _ ↦ .inl ⟨?_, ?_⟩, ?_, rfl, rfl, rfl⟩,
    rfl, rfl⟩
  · rw [hdisk]
    exact h.mapped key val hv
  · rw [hlogged]
    exact h.clean node hn hc
  · simp only
    omega
  · simp [Machine.pending, hlogged]
  · rw [hdisk]
  · rw [hdisk]

/-- How an application of the log can fail: for want of buffers, or because of a
read, which leaves every block either home or in the log. -/
def ApplyFails (io : IoEnv) (m : Machine α ρ) (lost : Nat) (e : Errno) (m' : Machine α ρ) : Prop :=
  (e = .panic ∧ 0 < lost) ∨
    (e = .io ∧ (∃ n, io.reads n = false) ∧ ∃ lost', LogOk m' lost' ∧ Flows m m')

theorem applyBlocks_ok {taken : Nat} (hio : io.WritesOk) (h : LogOk m (lost + taken))
    (hnil : m.log.nodes = []) (hlen : bs.length = taken)
    (hnodup : (offsets bs).Nodup) (hlogged : ∀ b ∈ bs, m.logged b.offset = some b) :
    ∃ m', (do logWriteToDisk io bs; delAll bs; modifyLog (freeBufs bs.length)) m = (.ok (), m') ∧
      LogOk m' lost ∧ Flows m m' ∧ m'.log.nodes = [] ∧
      m'.log.diskMap.size + taken = m.log.diskMap.size := by
  have hsome : ∀ b ∈ bs, ∃ v, m.log.diskMap.val? b.offset = some v := by
    intro b hb
    obtain ⟨v, hv, -⟩ := Option.map_eq_some_iff.mp (hlogged b hb)
    exact ⟨v, hv⟩
  have hout : ∀ b ∈ bs, m.log.outside b.offset = true := by
    intro b hb
    obtain ⟨v, hv⟩ := hsome b hb
    exact (h.mapped _ v hv).1.1
  have hpend : ∀ b ∈ bs, m.pending b.offset = some b := by
    intro b hb
    simp [Machine.pending, hnil, memBlock, hlogged b hb]
  obtain ⟨t, hdel, hok, hcap, hsize, hval, hcount⟩ := delAll_ok bs (m.writeHome bs) h.table
  obtain ⟨hat, hflows⟩ := settle (l := freeBufs bs.length { m.log with diskMap := t })
    h.toLogOkAt hpend hout hnodup hok hcap hsize hval (List.Sublist.refl _) (fun off ↦ by
      simp [freeBufs, hnil, memBlock]) rfl rfl
  refine ⟨{ m.writeHome bs with log := freeBufs bs.length { m.log with diskMap := t } }, ?_,
    ⟨hat, h.byteoff, h.pages, h.maxMem, h.inMem, ?_⟩, hflows, hnil, ?_⟩
  · simp only [bind_apply, logWriteToDisk_ok hio bs m hout]
    rw [show ({ m with dev := m.dev.after (writeRequests bs) } : Machine α ρ) = m.writeHome bs from rfl,
      hdel]
    rfl
  · have := h.bufs
    simp only [freeBufs, hlen]
    omega
  · rw [← hlen]
    exact hcount hnodup fun b hb ↦ Option.isSome_iff_exists.mpr (hsome b hb)

theorem logApplyMapped_wp (hio : io.WritesOk) (h : LogOk m lost) (hnil : m.log.nodes = [])
    (hsize : m.log.diskMap.size ≠ 0) :
    Wp (logApplyMapped io) m (fun _ m' ↦ LogOk m' lost ∧ Flows m m' ∧ m'.log.nodes = [] ∧
      m'.log.diskMap.size < m.log.diskMap.size) (ApplyFails io m lost) := by
  have hval : ∀ e ∈ m.log.diskMap.hashiter.take m.log.maxMem, m.log.diskMap.val? e.1 = some e.2 :=
    fun e he ↦ (mem_hashiter h.table).mp (List.mem_of_mem_take he)
  have hkeys := (nodup_hashiter h.table).sublist
    ((List.take_sublist m.log.maxMem m.log.diskMap.hashiter).map Prod.fst)
  have hlen : (m.log.diskMap.hashiter.take m.log.maxMem).length =
      min logMemory m.log.diskMap.size := by
    rw [List.length_take, length_hashiter h.table, h.maxMem]
  generalize hes : m.log.diskMap.hashiter.take m.log.maxMem = es at hval hkeys hlen
  have hoffs : ∀ e ∈ es, (m.dev.disk.block e.2).offset = e.1 :=
    fun e he ↦ (h.mapped e.1 e.2 (hval e he)).2.2
  have hbufs := h.bufs
  apply Wp.bind
  apply Wp.of_ok (get_apply m)
  rw [hes]
  refine Wp.bind (Wp.mono (logReadMap_wp hoffs) (fun r m₁ hr ↦ ?_) fun e _ he ↦ ?_)
  · obtain ⟨taken, hread, hok, hbad⟩ := hr
    obtain ⟨h₁, hflows₁, hnodes₁, hmap₁⟩ := h.of_readOnly hread
    obtain ⟨bs, all⟩ := r
    dsimp only at hok hbad
    cases all with
    | false =>
      refine Wp.bind (Wp.of_error (t := m₁) rfl (.inr ⟨rfl, hbad rfl, _, h₁, hflows₁⟩))
    | true =>
      obtain ⟨rfl, hbs⟩ := hok rfl
      rw [List.append_nil] at hbs
      have hmem : ∀ b ∈ bs, ∃ e ∈ es, b = m.dev.disk.block e.2 ∧ b.offset = e.1 := by
        intro b hb
        rw [hbs, List.mem_reverse, List.mem_map] at hb
        obtain ⟨e, he, rfl⟩ := hb
        exact ⟨e, he, rfl, hoffs e he⟩
      have hoffset : offsets bs = (es.map Prod.fst).reverse := by
        rw [hbs, offsets, List.map_reverse, List.map_map]
        exact congrArg List.reverse (List.map_congr_left hoffs)
      have hnodup : (offsets bs).Nodup := hoffset ▸ List.nodup_reverse.mpr hkeys
      have hlength : bs.length = es.length := by simp [hbs]
      have hlogged : ∀ b ∈ bs, m₁.logged b.offset = some b := by
        intro b hb
        obtain ⟨e, he, rfl, hoff⟩ := hmem b hb
        rw [hoff, Machine.logged, hmap₁, hval e he, hread.2.1]
        rfl
      obtain ⟨m₂, hrun, hok₂, hflows, hnodes, hless⟩ :=
        applyBlocks_ok hio h₁ (hnodes₁.trans hnil) hlength hnodup hlogged
      have hne : bs ≠ [] := by
        intro hnone
        simp only [hnone, List.length_nil] at hlength
        simp only [logMemory] at hlen
        omega
      refine Wp.of_step (d := do logWriteToDisk io bs; delAll bs; modifyLog (freeBufs bs.length))
        (t := m₁) (by simp [bind_apply, Exec.require, hne]) (Wp.of_ok hrun ?_)
      refine ⟨hok₂, hflows₁.trans hflows, hnodes, ?_⟩
      rw [hmap₁] at hless
      simp only [logMemory] at hlen
      omega
  · rw [hlen] at he
    refine .inl ⟨he.1, ?_⟩
    rw [hnil] at hbufs
    simp only [List.length_nil] at hbufs
    omega

theorem ApplyFails.of_flows {e : Errno} (hf : Flows m m') (h : ApplyFails io m' lost e m'') :
    ApplyFails io m lost e m'' := by
  rcases h with h | ⟨he, hn, lost', hok, hflows⟩
  · exact .inl h
  · exact .inr ⟨he, hn, lost', hok, hf.trans hflows⟩

theorem logApplyMap_wp (hio : io.WritesOk) {fuel : Nat} (h : LogOk m lost) (hnil : m.log.nodes = [])
    (hfuel : m.log.diskMap.size ≤ fuel) :
    Wp (logApplyMap io fuel) m (fun _ m' ↦ LogOk m' lost ∧ Flows m m' ∧ m'.log.nodes = [] ∧
      m'.log.diskMap.size = 0) (ApplyFails io m lost) := by
  induction fuel generalizing m with
  | zero =>
    have hzero : m.log.diskMap.size = 0 := by omega
    exact Wp.of_ok (t := m) (a := ()) (by simp [logApplyMap, bind_apply, Exec.require, hzero])
      ⟨h, Flows.refl m, hnil, hzero⟩
  | succ fuel ih =>
    apply Wp.bind
    apply Wp.of_ok (get_apply m)
    split
    · rename_i hzero
      exact Wp.of_ok rfl ⟨h, Flows.refl m, hnil, hzero⟩
    · rename_i hpos
      refine Wp.seq (logApplyMapped_wp hio h hnil hpos) fun _ m₁ h₁ ↦ ?_
      obtain ⟨hok₁, hflows₁, hnil₁, hlt⟩ := h₁
      refine Wp.mono (ih hok₁ hnil₁ (by omega)) (fun _ m₂ h₂ ↦ ?_) fun e _ he ↦ he.of_flows hflows₁
      obtain ⟨hok₂, hflows₂, hnil₂, hzero⟩ := h₂
      exact ⟨hok₂, hflows₁.trans hflows₂, hnil₂, hzero⟩

theorem val?_of_size_zero {t : HashTable} (ht : t.Ok) (hsize : t.size = 0) (key : Nat) :
    t.val? key = none := by
  have hnone : t.hashiter = [] := List.eq_nil_of_length_eq_zero ((length_hashiter ht).trans hsize)
  refine Option.eq_none_iff_forall_ne_some.mpr fun v hv ↦ ?_
  have := (mem_hashiter ht).mpr hv
  simp [hnone] at this

theorem logOk_resetLog {n : Nat} (hpages : n / entriesPerPage ≤ maxLogPages / entriesPerPage)
    {l : Log α} (hbufs : l.freeNodes + l.nodes.length + lost = logMemory) (v : Device α ρ)
    (h : Header ρ) :
    LogOk ⟨resetLog n l, v, h⟩ lost ∧ Machine.pending ⟨resetLog n l, v, h⟩ = fun _ ↦ none := by
  have hval : ∀ key, (resetLog n l).diskMap.val? key = none := fun key ↦ val?_init _
  refine ⟨⟨⟨by simp [resetLog], ok_init _, rfl, Nat.zero_le _, Nat.zero_le _, fun key val hv ↦ ?_, ?_, ?_⟩,
    rfl, hpages, rfl, rfl, ?_⟩, ?_⟩
  · rw [hval] at hv
    cases hv
  · simp [resetLog]
  · simp [resetLog]
  · simpa [resetLog] using hbufs
  · funext off
    simp only [Machine.pending, Machine.logged, hval]
    rfl

theorem logApplyMem_wp (hio : io.WritesOk) (h : LogOk m lost) :
    Wp (logApplyMem io) m (fun _ m' ↦ LogOk m' lost ∧ Flows m m' ∧ (m'.pending = fun _ ↦ none) ∧
      m'.log.onDisk = 0 ∧ m'.log.mustApply = false) (ApplyFails io m lost) := by
  obtain ⟨m₁, m₂, hwrite, hdel, hzero, hok, hflows⟩ := applyMemory_ok hio h
  generalize hm₃ : ({ m₂ with log := { freeMem m₂.log with inMem := 0 } } : Machine α ρ) = m₃
    at hok hflows
  have hnil : m₃.log.nodes = [] := by simp [← hm₃, freeMem]
  refine Wp.of_step (t := m₃) (d := do
    logApplyMap io m₃.log.diskMap.size
    logInit m₃.log.npages) ?_ ?_
  · simp only [logApplyMem, bind_apply, get_apply, hwrite, hdel, modifyLog, modify_apply, hzero, hm₃]
    simp [Exec.require, ← hm₃, freeMem]
  · refine Wp.bind (Wp.mono (logApplyMap_wp hio hok hnil le_rfl) (fun _ m₄ h₄ ↦ ?_)
      fun _ _ he ↦ he.of_flows hflows)
    obtain ⟨hok₄, hflows₄, hnil₄, hsize⟩ := h₄
    rw [← hflows₄.npages]
    refine Wp.of_ok (logInit_apply hok₄.pages m₄) ?_
    obtain ⟨hreset, hnone⟩ := logOk_resetLog hok₄.pages hok₄.bufs m₄.dev m₄.stableHdr
    have hpend : m₄.pending = fun _ ↦ none := by
      funext off
      simp [Machine.pending, hnil₄, memBlock, Machine.logged, val?_of_size_zero hok₄.table hsize]
    have hlast : Flows m₄ { m₄ with log := resetLog m₄.log.npages m₄.log } :=
      ⟨fun off _ ↦ .inl ⟨by rw [hnone, hpend], rfl⟩, rfl, rfl, hok₄.byteoff.symm, rfl⟩
    exact ⟨hreset, (hflows.trans hflows₄).trans hlast, hnone, rfl, rfl⟩

end HiStar.Pstate
