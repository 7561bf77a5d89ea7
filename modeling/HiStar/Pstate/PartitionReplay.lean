import HiStar.Pstate.Partition

namespace HiStar.Pstate.Part

open Lib Function

theorem blockOf_congr {b b' : Bytes} (h : ∀ i < pgsize, b i = b' i) : blockOf b = blockOf b' := by
  have hoff : nodeOffset b = nodeOffset b' := readLe_congr fun a _ ha ↦ h a (by simp [pgsize]; omega)
  have hcont : contents b = contents b' := by
    funext i
    simp only [contents]
    split
    · rename_i hi
      exact h i (by simp at hi; exact hi.1)
    · rfl
  rw [blockOf, blockOf, hoff, hcont]

@[simp] theorem blockOf_setLink (b link : Bytes) : blockOf (setLink b link) = blockOf b := by
  have hoff : nodeOffset (setLink b link) = nodeOffset b := by
    apply readLe_congr
    intro a _ ha
    rw [setLink, if_neg (by simp [isLink]; omega)]
  have hcont : contents (setLink b link) = contents b := by
    funext i
    simp only [contents, setLink]
    split_ifs with h h' <;> simp_all
  rw [blockOf, blockOf, hoff, hcont]

theorem headerOf_congr {h h' : Bytes} (heq : ∀ i < pstateBufSize, h i = h' i) :
    headerOf h = headerOf h' := by
  have hread {at' n : Nat} (hin : at' + n ≤ pstateBufSize) : readLe h at' n = readLe h' at' n :=
    readLe_congr fun a _ ha ↦ heq a (by omega)
  have hrest : restOf h = restOf h' := by
    funext i
    simp only [restOf]
    split
    · rename_i hi
      exact heq i hi.1
    · rfl
  simp only [headerOf, phLogBlocks, phLogMax, hrest]
  rw [hread (by simp [pstateBufSize]), hread (by simp [pstateBufSize]),
    hread (by simp [pstateBufSize]), hread (by simp [pstateBufSize])]

theorem headerOf_setPhLogBlocks (h : Bytes) :
    headerOf (setPhLogBlocks h 0) = (headerOf h).applied := by
  have hrest : restOf (setPhLogBlocks h 0) = restOf h := by
    funext i
    simp only [restOf, setPhLogBlocks, writeLe]
    split_ifs <;> first | rfl | omega
  simp only [headerOf, Header.applied, hrest]
  simp [setPhLogBlocks, phLogBlocks, phLogMax, readLe_writeLe, readLe_writeLe_same]

theorem page_copyOut_same (p b : Bytes) (a : Nat) :
    blockOf (page (copyOut p a b pgsize) a) = blockOf b := by
  apply blockOf_congr
  intro i hi
  simp [page, copyOut, hi]

theorem page_copyOut_apart (p b : Bytes) {a c len : Nat} (h : a + len ≤ c ∨ c + pgsize ≤ a) :
    blockOf (page (copyOut p a b len) c) = blockOf (page p c) := by
  apply blockOf_congr
  intro i hi
  simp only [page, copyOut]
  rw [if_neg (by omega)]

section Layout

variable {pdSize : Nat} {p₀ : Bytes}

/-- The blocks that the replay reads or writes. -/
def Tracked (p₀ : Bytes) (a : Nat) : Prop := isLogBlock p₀ a ∨ isHome p₀ a

theorem logBlock_lt {a : Nat} (ha : isLogBlock p₀ a) :
    logByteoff ≤ a ∧ a + pgsize ≤ logByteoff + phLogBlocks p₀ * pgsize := by
  obtain ⟨k, hk, rfl⟩ := ha
  have := Nat.mul_le_mul_right pgsize hk
  rw [Nat.succ_mul] at this
  omega

theorem WfLog.home_after (hwf : WfLog pdSize p₀) {a b : Nat} (ha : isLogBlock p₀ a)
    (hb : isHome p₀ b) : a + pgsize ≤ b := by
  have := hwf.outside b hb
  have := (logBlock_lt ha).2
  have := Nat.mul_le_mul_right pgsize hwf.blocks
  omega

theorem WfLog.apart_home (hwf : WfLog pdSize p₀) {a b : Nat} (ha : Tracked p₀ a)
    (hb : isHome p₀ b) : a = b ∨ b + pgsize ≤ a ∨ a + pgsize ≤ b := by
  rcases ha with ha | ha
  · exact .inr (.inr (hwf.home_after ha hb))
  · rcases hwf.apart a b ha hb with h | h | h
    · exact .inl h
    · exact .inr (.inr h)
    · exact .inr (.inl h)

theorem WfLog.after_header (hwf : WfLog pdSize p₀) {a : Nat} (ha : Tracked p₀ a) :
    logByteoff ≤ a := by
  rcases ha with ha | ha
  · exact (logBlock_lt ha).1
  · have := hwf.outside a ha
    omega

end Layout

/-- The disk `d` of blocks is what the bytes `p` say, at the blocks of the log of `p₀`,
which is still there, and at their homes. -/
structure Agrees (p₀ p : Bytes) (d : Disk Bytes Bytes) : Prop where
  header : d.header = headerOf p
  block : ∀ a, Tracked p₀ a → d.block a = blockOf (page p a)
  log : ∀ a, isLogBlock p₀ a → blockOf (page p a) = blockOf (page p₀ a)
  rest : ∀ i, pstateBufSize ≤ i → (∀ a, isHome p₀ a → i < a ∨ a + pgsize ≤ i) → p i = p₀ i

theorem Agrees.refl (p₀ : Bytes) : Agrees p₀ p₀ (diskOf p₀) :=
  ⟨rfl, fun _ _ ↦ rfl, fun _ _ ↦ rfl, fun _ _ _ ↦ rfl⟩

/-- The same request, to the bytes and to the blocks. -/
inductive Matches (p₀ : Bytes) : Req → Request Bytes Bytes → Prop
  | read (a : Nat) : Matches p₀ (.read a pgsize) (.read a)
  | write {b : Bytes} (hb : isHome p₀ (nodeOffset b)) :
    Matches p₀ (.write (nodeOffset b) pgsize b) (.write (nodeOffset b) (blockOf b))
  | header (h : Bytes) : Matches p₀ (.write 0 pstateBufSize h) (.writeHeader (headerOf h))
  | flush : Matches p₀ .flush .flush

section Simulation

variable {pdSize : Nat} {p₀ p : Bytes} {d : Disk Bytes Bytes}

variable {r : Req} {r' : Request Bytes Bytes} {off n : Nat}

theorem Agrees.land (hwf : WfLog pdSize p₀) (h : Agrees p₀ p d)
    (hr : Matches p₀ r r') : Agrees p₀ (r.land p) (r'.land d) := by
  cases hr with
  | read a => exact h
  | flush => exact h
  | @write b hb =>
    refine ⟨?_, fun a ha ↦ ?_, fun a ha ↦ ?_, fun i hi hout ↦ ?_⟩
    · rw [Request.land, h.header]
      apply headerOf_congr
      intro i hi
      have := hwf.after_header (.inr hb)
      simp only [Req.land, copyOut]
      rw [if_neg (by simp only [pstateBufSize, logByteoff, pgsize] at *; omega)]
    · simp only [Request.land, Req.land]
      rcases hwf.apart_home ha hb with rfl | hne
      · rw [update_self, page_copyOut_same]
      · rw [page_copyOut_apart p b hne, update_of_ne (by simp only [pgsize] at hne; omega),
          h.block a ha]
    · rw [Req.land, page_copyOut_apart p b (.inr (hwf.home_after ha hb)), h.log a ha]
    · have := hout _ hb
      rw [Req.land, copyOut, if_neg (by omega), h.rest i hi hout]
  | header hd =>
    have hfar {a : Nat} (ha : Tracked p₀ a) : 0 + pstateBufSize ≤ a ∨ a + pgsize ≤ 0 := by
      have := hwf.after_header ha
      simp only [pstateBufSize, logByteoff, pgsize] at *
      omega
    refine ⟨?_, fun a ha ↦ ?_, fun a ha ↦ ?_, fun i hi hout ↦ ?_⟩
    · apply headerOf_congr
      intro i hi
      simp [Req.land, copyOut, hi]
    · rw [Request.land, Req.land, page_copyOut_apart p hd (hfar ha)]
      exact h.block a ha
    · rw [Req.land, page_copyOut_apart p hd (hfar (.inl ha)), h.log a ha]
    · rw [Req.land, copyOut, if_neg (by omega), h.rest i hi hout]

theorem Agrees.landAll (hwf : WfLog pdSize p₀) {rs : List Req} {rs' : List (Request Bytes Bytes)}
    (hrs : List.Forall₂ (Matches p₀) rs rs') (h : Agrees p₀ p d) :
    Agrees p₀ (landAll p rs) (d.landAll rs') := by
  induction hrs generalizing p d with
  | nil => exact h
  | cons hr _ ih => exact ih (h.land hwf hr)

/-- The machine `x` with bytes does what `m` with blocks does. -/
structure Shows (p₀ : Bytes) (x : Machine) (m : Pstate.Machine Bytes Bytes) : Prop where
  disk : Agrees p₀ x.part m.dev.disk
  issued : List.Forall₂ (Matches p₀) x.issued m.dev.issued
  hdr : m.stableHdr = headerOf x.hdr
  npages : m.log.npages = x.npages
  free : m.log.freeNodes = x.freeNodes
  nodes : m.log.nodes = []
  byteoff : m.log.byteoff = logByteoff
  maxMem : m.log.maxMem = logMemory
  count : phLogBlocks x.hdr ≤ phLogBlocks p₀

variable (v : Boot)

theorem diskIo_sim (hwf : WfLog pdSize p₀) (hr : Matches p₀ r r') (hfit : r.fits v.pdSize = true) :
    Simulates (Shows p₀) (fun s s' ↦ s = true ∧ s' = true) (diskIo v r)
      (Pstate.diskIo .perfect r') := by
  intro x m h b m' hm
  rw [diskIo_perfect] at hm
  cases hm
  refine ⟨true, { x with part := r.land x.part, issued := x.issued ++ [r] },
    by rw [diskIo, if_pos hfit], ⟨rfl, rfl⟩, ?_⟩
  exact { h with
    disk := h.disk.land hwf hr
    issued := List.rel_append h.issued (.cons hr .nil) }

theorem diskIoOrFail_sim (hwf : WfLog pdSize p₀)
    (hr : Matches p₀ r r') (hfit : r.fits v.pdSize = true) :
    Simulates (Shows p₀) (fun _ _ ↦ True) (diskIoOrFail v r) (Pstate.diskIoOrFail .perfect r') :=
  Simulates.bind (diskIo_sim v hwf hr hfit) fun _ _ h ↦ .require fun _ ↦ h.1

theorem takeBuf_sim : Simulates (Shows p₀) (fun _ _ ↦ True) takeBuf Pstate.takeBuf := by
  refine Simulates.bind .get fun x m h ↦ .bind (.require (by simp [h.free])) fun _ _ _ ↦ .modify ?_
  intro x m h
  exact { h with free := by simp [h.free] }

/-- A node that was read, and the block that it is. -/
def Entry (p₀ b : Bytes) (b' : Block Bytes) : Prop := b' = blockOf b ∧ isHome p₀ (nodeOffset b)

theorem blockAt_sim (hoff : isLogBlock p₀ off) :
    Simulates (Shows p₀) (fun x b ↦ Entry p₀ (page x.part off) b) Exec.get
      (blockAt off : Io Bytes Bytes (Block Bytes)) := by
  intro x m h b m' hm
  cases hm
  have hlog := h.disk.log off hoff
  have hsame : nodeOffset (page x.part off) = nodeOffset (page p₀ off) :=
    congrArg Block.offset hlog
  exact ⟨x, x, rfl, ⟨h.disk.block off (.inl hoff), hsame ▸ ⟨off, hoff, rfl⟩⟩, h⟩

theorem Entry.setLink {b : Bytes} {b' : Block Bytes} (h : Entry p₀ b b') (link : Bytes) :
    Entry p₀ (setLink b link) b' := by
  have heq := blockOf_setLink b link
  have hoff : nodeOffset (Pstate.setLink b link) = nodeOffset b := congrArg Block.offset heq
  exact ⟨h.1.trans heq.symm, hoff ▸ h.2⟩

theorem logReadLog_sim (hwf : WfLog v.pdSize p₀)
    (hlog : ∀ k < n, isLogBlock p₀ (off + k * pgsize)) :
    Simulates (Shows p₀) (fun r r' ↦ List.Forall₂ (Entry p₀) r.1 r'.1 ∧ r.2 = r'.2)
      (logReadLog v off n) (Pstate.logReadLog .perfect off n) := by
  induction n generalizing off with
  | zero => exact .pure ⟨.nil, rfl⟩
  | succ n ih =>
    have hoff : isLogBlock p₀ off := by simpa using hlog 0 (by omega)
    have hfit : Req.fits v.pdSize (.read off pgsize) = true := by
      have := (logBlock_lt hoff).2
      have := hwf.log
      simp only [Req.fits, Bool.and_eq_true, decide_eq_true_eq]
      omega
    refine .bind takeBuf_sim fun _ _ _ ↦ .bind (diskIo_sim v hwf (.read off) hfit) ?_
    rintro _ _ ⟨rfl, rfl⟩
    refine .bind (blockAt_sim hoff) fun x b hb ↦ .bind (ih fun k hk ↦ ?_) fun r r' hr ↦ ?_
    · have := hlog (k + 1) (by omega)
      rwa [Nat.succ_mul, Nat.add_comm _ pgsize, ← Nat.add_assoc] at this
    · exact .pure ⟨.cons (hb.setLink _) hr.1, hr.2⟩

theorem logWriteToDisk_sim (hwf : WfLog v.pdSize p₀) {bs : List Bytes} {bs' : List (Block Bytes)}
    (h : List.Forall₂ (Entry p₀) bs bs') :
    Simulates (Shows p₀) (fun _ _ ↦ True) (logWriteToDisk v bs)
      (Pstate.logWriteToDisk .perfect bs') := by
  induction h with
  | nil => exact .pure trivial
  | @cons b b' bs bs' hb _ ih =>
    obtain ⟨rfl, hhome⟩ := hb
    have hfit : Req.fits v.pdSize (.write (nodeOffset b) pgsize b) = true := by
      have := hwf.inside _ hhome
      simp only [Req.fits, Bool.and_eq_true, decide_eq_true_eq]
      omega
    refine .bind .get fun x m hx ↦ .bind (.require ?_) fun _ _ _ ↦
      .bind (diskIoOrFail_sim v hwf (.write hhome) hfit) fun _ _ _ ↦ ih
    simp [Log.outside, hx.byteoff, hx.npages, blockOf]

theorem freeBufs_sim (n : Nat) :
    Simulates (Shows p₀) (fun _ _ ↦ True) (freeBufs n) (modifyLog (Pstate.freeBufs n)) :=
  .modify fun _ _ h ↦ { h with free := by simp [Pstate.freeBufs, h.free] }

theorem logInit_sim (n : Nat) :
    Simulates (Shows p₀) (fun _ _ ↦ True) (logInit n) (Pstate.logInit n) := by
  refine .bind (.require id) fun _ _ _ ↦ .modify fun x m h ↦ ?_
  exact { h with
    npages := rfl
    free := by simp [resetLog, h.nodes, h.free]
    nodes := rfl
    byteoff := rfl
    maxMem := rfl }

theorem logApplyChunk_sim (hwf : WfLog v.pdSize p₀)
    (hlog : ∀ k < n, isLogBlock p₀ (off + k * pgsize)) :
    Simulates (Shows p₀) (fun _ _ ↦ True) (logApplyChunk v off n)
      (Pstate.logApplyChunk .perfect off n) := by
  refine .bind (logReadLog_sim v hwf hlog) fun r r' hr ↦ ?_
  rw [hr.1.length_eq]
  exact .bind (.onFail (.bind (.require (by simp [hr.2])) fun _ _ _ ↦
    logWriteToDisk_sim v hwf hr.1)) fun _ _ _ ↦ freeBufs_sim _

theorem logApplyChunks_sim (hwf : WfLog v.pdSize p₀) (fuel : Nat)
    (hlog : ∀ k < n, isLogBlock p₀ (off + k * pgsize)) :
    Simulates (Shows p₀) (fun _ _ ↦ True) (logApplyChunks v fuel off n)
      (Pstate.logApplyChunks .perfect fuel off n) := by
  induction fuel generalizing off n with
  | zero =>
    cases n with
    | zero => exact .pure trivial
    | succ n => intro x m _ b m' hm; cases hm
  | succ fuel ih =>
    cases n with
    | zero => exact .pure trivial
    | succ n =>
      have hchunk (k : Nat) (hk : k < min (n + 1) logMemory) : isLogBlock p₀ (off + k * pgsize) :=
        hlog k (by omega)
      have hrest (k : Nat) (hk : k < n + 1 - min (n + 1) logMemory) :
          isLogBlock p₀ (off + min (n + 1) logMemory * pgsize + k * pgsize) := by
        rw [Nat.add_assoc, ← Nat.add_mul]
        exact hlog _ (by omega)
      intro x m h
      have hmem := h.maxMem
      have hstep := Simulates.bind (logApplyChunk_sim v hwf hchunk) fun _ _ _ ↦ ih hrest
      simp only [Pstate.logApplyChunks, bind_apply (c := Exec.get), get_apply, hmem]
      exact hstep x m h

theorem logApplyDisk_sim (hwf : WfLog v.pdSize p₀) (hn : n ≤ phLogBlocks p₀) :
    Simulates (Shows p₀) (fun _ _ ↦ True) (logApplyDisk v n) (Pstate.logApplyDisk .perfect n) := by
  refine .bind .get fun x m h ↦ ?_
  rw [h.npages, h.byteoff]
  exact .bind (logInit_sim _) fun _ _ _ ↦
    .bind (logApplyChunks_sim v hwf n fun k hk ↦ ⟨k, by omega, rfl⟩) fun _ _ _ ↦ logInit_sim _

theorem pstateApplyDiskLog_sim (hwf : WfLog v.pdSize p₀) :
    Simulates (Shows p₀) (fun _ _ ↦ True) (pstateApplyDiskLog v)
      (Pstate.pstateApplyDiskLog .perfect) := by
  have hfit (h : Bytes) : Req.fits v.pdSize (.write 0 pstateBufSize h) = true := by
    have hlog : pstateBufSize ≤ v.pdSize :=
      (by decide : pstateBufSize ≤ logByteoff).trans (Nat.le_of_add_right_le hwf.log)
    simp [Req.fits, hlog]
  refine .bind .get fun x m h ↦ ?_
  rw [h.hdr]
  refine .bind (logInit_sim _) fun _ _ _ ↦ .bind (logApplyDisk_sim v hwf h.count) fun _ _ _ ↦
    .bind (diskIoOrFail_sim v hwf .flush rfl) fun _ _ _ ↦ .bind (.modify fun x m h ↦ ?_) fun _ _ _ ↦
    .bind .get fun x m h ↦ ?_
  · exact { h with
      hdr := by rw [headerOf_setPhLogBlocks, ← h.hdr]; rfl
      count := by simp [setPhLogBlocks, phLogBlocks, readLe_writeLe_same] }
  · rw [h.hdr]
    exact .bind (diskIoOrFail_sim v hwf (.header x.hdr) (hfit _)) fun _ _ _ ↦
      .bind (diskIo_sim v hwf .flush rfl) fun _ _ h ↦ .require fun _ ↦ h.1

theorem shows_boot (h : Agrees p₀ p d) (hcount : phLogBlocks p ≤ phLogBlocks p₀) :
    Shows p₀ (boot p) (Pstate.boot d) :=
  ⟨h, .nil, h.header, rfl, rfl, rfl, rfl, rfl, hcount⟩

/-- A replay of the bytes makes the requests of the replay of the blocks. -/
theorem replay_refines (hwf : WfLog v.pdSize p₀) (h : Agrees p₀ p d) (hd : Pstate.WfLog d)
    (hcount : phLogBlocks p ≤ phLogBlocks p₀) :
    ∃ x, pstateApplyDiskLog v (boot p) = (.ok (), x) ∧
      Agrees p₀ x.part (Pstate.pstateApplyDiskLog .perfect (Pstate.boot d)).2.dev.disk ∧
      List.Forall₂ (Matches p₀) (replayRequests v p) (Pstate.replayRequests d) := by
  obtain ⟨_, -, -, -, hok, -⟩ := boot_run hd
  obtain ⟨_, x, hx, -, hshow⟩ := pstateApplyDiskLog_sim v hwf _ _ (shows_boot h hcount) ()
    _ (Prod.ext hok rfl)
  exact ⟨x, hx, hshow.disk, by
    rw [replayRequests, hx]
    exact hshow.issued⟩

theorem logEntries_eq (d : Disk Bytes Bytes) (off n : Nat) :
    logEntries d off n = (List.range n).map fun k ↦ d.block (off + k * pgsize) := by
  induction n generalizing off with
  | zero => rfl
  | succ n ih =>
    rw [logEntries, ih, List.range_succ_eq_map, List.map_cons, List.map_map, Nat.zero_mul,
      Nat.add_zero]
    refine congrArg (d.block off :: ·) (List.map_congr_left fun k _ ↦ congrArg d.block ?_)
    rw [Nat.succ_mul]
    omega

theorem WfLog.blocks_wf (hwf : WfLog pdSize p₀) : Pstate.WfLog (diskOf p₀) := by
  refine ⟨hwf.pages, hwf.blocks, fun b hb ↦ ?_⟩
  rw [logEntries_eq] at hb
  obtain ⟨k, hk, rfl⟩ := List.mem_map.mp hb
  exact .inr (hwf.outside _ ⟨_, ⟨k, List.mem_range.mp hk, rfl⟩, rfl⟩)

theorem Agrees.count (h : Agrees p₀ p d) (hres : Resumable (diskOf p₀) d) :
    phLogBlocks p ≤ phLogBlocks p₀ := by
  have hp : phLogBlocks p = d.header.phLogBlocks := by rw [h.header]; rfl
  rcases hres.header with hd | hd
  · exact (hp.trans (by rw [hd]; rfl)).le
  · simp [hp, hd, Header.applied]

/-- What the bytes are between two runs. -/
theorem agrees_of_interrupted (hwf : WfLog pdSize p₀)
    (hcut : Relation.ReflTransGen (Interrupted pdSize) p₀ p) :
    ∃ d, Agrees p₀ p d ∧ Relation.ReflTransGen Pstate.Interrupted (diskOf p₀) d := by
  induction hcut with
  | refl => exact ⟨_, Agrees.refl p₀, .refl⟩
  | tail _ hi ih =>
    obtain ⟨d, hag, hd⟩ := ih
    obtain ⟨link, j, rfl⟩ := hi
    have hres := resumable_of_interrupted hwf.blocks_wf hd
    obtain ⟨_, -, -, hreq⟩ := replay_refines ⟨pdSize, link⟩ hwf hag (hres.wf hwf.blocks_wf)
      (hag.count hres)
    exact ⟨_, hag.landAll hwf (List.forall₂_take j hreq), hd.tail ⟨j, rfl⟩⟩

end Simulation

/-- The blocks in the log with their homes, in the order of the log. -/
def homes (p : Bytes) : List (Nat × Bytes) :=
  (List.range (phLogBlocks p)).map fun k ↦
    (nodeOffset (page p (logByteoff + k * pgsize)), contents (page p (logByteoff + k * pgsize)))

theorem homes_eq (p : Bytes) :
    homes p = (diskOf p).pending.map fun w ↦ (w.1, w.2.data) := by
  simp only [homes, Disk.pending, logEntries_eq, homeWrites, List.map_map]
  rfl

theorem lastWrite_map {β γ : Type} (f : β → γ) (ws : List (Nat × β)) (a : Nat) :
    lastWrite (ws.map fun w ↦ (w.1, f w.2)) a = (lastWrite ws a).map f := by
  simp only [lastWrite, ← List.map_reverse, List.find?_map, Option.map_map]
  rfl

theorem lastWrite_isSome {β : Type} {ws : List (Nat × β)} {w : Nat × β} (hw : w ∈ ws) :
    ∃ b, lastWrite ws w.1 = some b := by
  have hfind : (ws.reverse.find? fun v ↦ v.1 = w.1).isSome :=
    List.find?_isSome.mpr ⟨w, List.mem_reverse.mpr hw, by simp⟩
  obtain ⟨v, hv⟩ := Option.isSome_iff_exists.mp hfind
  exact ⟨v.2, by simp [lastWrite, hv]⟩

theorem lastWrite_home {p q : Bytes} {a : Nat} (ha : isHome p a)
    (hq : blockOf q = (lastWrite (diskOf p).pending a).getD ((diskOf p).block a)) :
    lastWrite (homes p) a = some (contents q) := by
  obtain ⟨e, ⟨k, hk, rfl⟩, rfl⟩ := ha
  have hmem : (nodeOffset (page p (logByteoff + k * pgsize)),
      blockOf (page p (logByteoff + k * pgsize))) ∈ (diskOf p).pending := by
    simp only [Disk.pending, logEntries_eq, homeWrites, List.map_map, List.mem_map]
    exact ⟨k, List.mem_range.mpr hk, rfl⟩
  obtain ⟨b, hb⟩ := lastWrite_isSome hmem
  rw [hb, Option.getD_some] at hq
  rw [homes_eq, lastWrite_map, hb, ← hq]
  rfl

theorem header_bytes {p q : Bytes} (h : headerOf p = (headerOf q).applied) {i : Nat}
    (hi : i < pstateBufSize) : p i = setPhLogBlocks q 0 i := by
  have hblocks : readLe p 112 8 = 0 % 256 ^ 8 := congrArg Header.phLogBlocks h
  have hrest : restOf p i = restOf q i := congrFun (congrArg Header.phRoots h) i
  simp only [setPhLogBlocks, writeLe]
  split
  · rename_i hf
    exact writeLe_eq_iff.mpr hblocks i hf.1 hf.2
  · have hout : i < pstateBufSize ∧ (i < 112 ∨ 120 ≤ i) := by omega
    simpa only [restOf, if_pos hout] using hrest

theorem matches_split {p₀ : Bytes} {pre post : List Req} {h : Bytes}
    {rs : List (Request Bytes Bytes)}
    (hrs : List.Forall₂ (Matches p₀) (pre ++ .write 0 pstateBufSize h :: post) rs) :
    ∃ pre' post', rs = pre' ++ .writeHeader (headerOf h) :: post' ∧
      List.Forall₂ (Matches p₀) pre pre' ∧ List.Forall₂ (Matches p₀) post post' := by
  induction pre generalizing rs with
  | nil =>
    obtain ⟨r', post', hr, hpost, rfl⟩ := List.forall₂_cons_left_iff.mp hrs
    generalize hw : Req.write 0 pstateBufSize h = r at hr
    cases hr with
    | header h' =>
      cases hw
      exact ⟨[], post', rfl, .nil, hpost⟩
    | write => exact absurd (Req.write.inj hw).2.1 (by decide)
    | read | flush => cases hw
  | cons r pre ih =>
    obtain ⟨r', rs', hr, hrest, rfl⟩ := List.forall₂_cons_left_iff.mp hrs
    obtain ⟨pre', post', rfl, hpre, hpost⟩ := ih hrest
    exact ⟨r' :: pre', post', rfl, .cons hr hpre, hpost⟩

theorem matches_blockWrites {p₀ : Bytes} {rs : List Req} {rs' : List (Request Bytes Bytes)}
    (hrs : List.Forall₂ (Matches p₀) rs rs') (hnone : blockWrites rs' = []) (off : Nat) (b : Bytes) :
    Req.write off pgsize b ∉ rs := by
  induction hrs with
  | nil => simp
  | @cons r r' rs rs' hr _ ih =>
    generalize hw : Req.write off pgsize b = w at ih ⊢
    cases hr with
    | write => simp [blockWrites] at hnone
    | header h =>
      rw [List.mem_cons, not_or]
      refine ⟨fun heq ↦ ?_, ih hnone⟩
      exact absurd (Req.write.inj (hw.trans heq)).2.1 (by decide)
    | read | flush =>
      rw [List.mem_cons, not_or]
      refine ⟨fun heq ↦ ?_, ih hnone⟩
      cases hw.trans heq

/-- However often the replay is cut off, the run that completes leaves each home as the
last block in the log for it, as one run would have left it; and whenever the header is
rewritten, all blocks are home. -/
theorem replay_survives_interruption {pdSize : Nat} {p₀ p : Bytes} (hwf : WfLog pdSize p₀)
    (hcut : Relation.ReflTransGen (Interrupted pdSize) p₀ p) (link link₀ : Nat → Bytes) :
    let final := pstateApplyDiskLog ⟨pdSize, link⟩ (boot p)
    let once := pstateApplyDiskLog ⟨pdSize, link₀⟩ (boot p₀)
    final.1 = .ok () ∧ once.1 = .ok () ∧
      (∀ a, isHome p₀ a → contents (page final.2.part a) = contents (page once.2.part a) ∧
        lastWrite (homes p₀) a = some (contents (page final.2.part a))) ∧
      (∀ i < pstateBufSize, final.2.part i = setPhLogBlocks p₀ 0 i) ∧
      (∀ i, pstateBufSize ≤ i → (∀ a, isHome p₀ a → i < a ∨ a + pgsize ≤ i) →
        final.2.part i = p₀ i) ∧
      ∀ pre h post, replayRequests ⟨pdSize, link⟩ p = pre ++ .write 0 pstateBufSize h :: post →
        phLogBlocks h = 0 ∧ (∀ off b, Req.write off pgsize b ∉ post) ∧
          ∀ a, isHome p₀ a → lastWrite (homes p₀) a = some (contents (page (landAll p pre) a)) := by
  obtain ⟨d, hag, hd⟩ := agrees_of_interrupted hwf hcut
  have hres := resumable_of_interrupted hwf.blocks_wf hd
  obtain ⟨x, hx, hfinal, hreq⟩ := replay_refines ⟨pdSize, link⟩ hwf hag (hres.wf hwf.blocks_wf)
    (hag.count hres)
  obtain ⟨x₀, hx₀, honce, -⟩ := replay_refines ⟨pdSize, link₀⟩ hwf (Agrees.refl p₀) hwf.blocks_wf
    le_rfl
  obtain ⟨-, hsame, hlast, hhdr, hsplit⟩ := replay_resumes hwf.blocks_wf hd
  simp only [hx, hx₀]
  refine ⟨trivial, trivial, fun a ha ↦ ⟨?_, ?_⟩, fun i hi ↦ ?_, hfinal.rest, fun pre h post hpre ↦ ?_⟩
  · have h₁ := hfinal.block a (.inr ha)
    have h₂ := honce.block a (.inr ha)
    exact congrArg Block.data (h₁.symm.trans ((congrFun hsame a).trans h₂))
  · exact lastWrite_home ha ((hfinal.block a (.inr ha)).symm.trans (hlast a))
  · exact header_bytes (hfinal.header.symm.trans hhdr) hi
  · rw [hpre] at hreq
    obtain ⟨pre', post', hrs, hpres, hposts⟩ := matches_split hreq
    obtain ⟨hzero, hnone, hhome⟩ := hsplit pre' _ post' hrs
    refine ⟨hzero, matches_blockWrites hposts hnone, fun a ha ↦ lastWrite_home ha ?_⟩
    exact ((hag.landAll hwf hpres).block a (.inr ha)).symm.trans (hhome a)

/-- A log with two blocks for one home and one for another. -/
def threeEntries : Bytes := fun a ↦
  if a = 112 then 3 else if a = 120 then 8
  else if a = 4096 + 9 then 160 else if a = 4096 + 100 then 1
  else if a = 8192 + 9 then 160 else if a = 8192 + 100 then 2
  else if a = 12288 + 9 then 176 else if a = 12288 + 100 then 3 else 0

/-- The first of them is home when the replay is cut off. -/
theorem threeEntries_replayed :
    let p := landAll threeEntries ((replayRequests ⟨65536, fun _ _ ↦ 7⟩ threeEntries).take 4)
    p (40960 + 100) = 1 ∧
      lastWrite (homes threeEntries) 40960 =
        some (contents (page (pstateApplyDiskLog ⟨65536, fun _ _ ↦ 9⟩ (boot p)).2.part 40960)) := by
  have hlog {a : Nat} (ha : isLogBlock threeEntries a) : a = 4096 ∨ a = 8192 ∨ a = 12288 := by
    obtain ⟨k, hk, rfl⟩ := ha
    have hk : k < 3 := hk
    simp only [logByteoff, pgsize]
    omega
  have hhome {a : Nat} (ha : isHome threeEntries a) : a = 40960 ∨ a = 45056 := by
    obtain ⟨e, he, rfl⟩ := ha
    rcases hlog he with rfl | rfl | rfl <;> decide
  have hwf : WfLog 65536 threeEntries := by
    refine ⟨by decide, by decide, by decide, fun a ha ↦ ?_, fun a ha ↦ ?_, fun a b ha hb ↦ ?_⟩
    · rcases hhome ha with rfl | rfl <;> decide
    · rcases hhome ha with rfl | rfl <;> decide
    · rcases hhome ha with rfl | rfl <;> rcases hhome hb with rfl | rfl <;> decide
  refine ⟨by decide +kernel, ?_⟩
  exact ((replay_survives_interruption hwf (.single ⟨fun _ _ ↦ 7, 4, rfl⟩) (fun _ _ ↦ 9)
    (fun _ _ ↦ 0)).2.2.1 40960 ⟨4096, ⟨0, by decide, rfl⟩, by decide⟩).2

/-- A log with one block, whose home is the header. -/
def headerEntry : Bytes := fun a ↦
  if a = 0 then 84 else if a = 112 then 1 else if a = 120 then 8 else 0

/-- Cut off after its only block is home, the replay does not find the header again. -/
theorem headerEntry_lost : ¬ ∀ p, Relation.ReflTransGen (Interrupted 65536) headerEntry p →
    ∀ i < pstateBufSize, (pstateApplyDiskLog ⟨65536, fun _ _ ↦ 0⟩ (boot p)).2.part i =
      (pstateApplyDiskLog ⟨65536, fun _ _ ↦ 0⟩ (boot headerEntry)).2.part i := by
  intro h
  have hcut := h _ (.single ⟨fun _ _ ↦ 0, 2, rfl⟩) 0 (by decide)
  revert hcut
  decide +kernel

end HiStar.Pstate.Part
