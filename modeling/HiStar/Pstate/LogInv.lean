import HiStar.Pstate.Apply

namespace HiStar.Pstate

open Lib Function HashTable

variable {α ρ : Type}

def memBlock (nodes : List (Node α)) (off : Nat) : Option (Block α) :=
  (nodes.map Node.toBlock).find? fun b ↦ b.offset = off

def Machine.logged (m : Machine α ρ) (off : Nat) : Option (Block α) :=
  (m.log.diskMap.val? off).map m.dev.disk.block

def Machine.pending (m : Machine α ρ) (off : Nat) : Option (Block α) :=
  (memBlock m.log.nodes off).or (m.logged off)

def Log.IsHome (l : Log α) (off : Nat) : Prop := l.outside off = true ∧ KeyOk off

structure LogOkAt (m : Machine α ρ) (k : Nat) : Prop where
  nodup : (m.log.nodes.map fun node ↦ node.offset).Nodup
  table : m.log.diskMap.Ok
  capacity : m.log.diskMap.capacity = m.log.npages
  size : m.log.diskMap.size ≤ k
  used : k ≤ m.log.npages
  mapped : ∀ key val, m.log.diskMap.val? key = some val → m.log.IsHome key ∧
    (∃ i < k, val = m.log.byteoff + i * pgsize) ∧ (m.dev.disk.block val).offset = key
  clean : ∀ node ∈ m.log.nodes, node.isDirty = false → m.logged node.offset = some node.toBlock
  home : ∀ node ∈ m.log.nodes, m.log.IsHome node.offset

structure SameView (m m' : Machine α ρ) : Prop where
  pending : m'.pending = m.pending
  blocks : ∀ a, m.log.outside a = true → m'.dev.disk.block a = m.dev.disk.block a
  header : m'.dev.disk.header = m.dev.disk.header
  stableHdr : m'.stableHdr = m.stableHdr
  log : m'.log = { m.log with
    nodes := m'.log.nodes, diskMap := m'.log.diskMap, onDisk := m'.log.onDisk }
  nodes : m'.log.nodes.map Node.toBlock = m.log.nodes.map Node.toBlock

theorem SameView.refl (m : Machine α ρ) : SameView m m := ⟨rfl, fun _ _ ↦ rfl, rfl, rfl, rfl, rfl⟩

theorem SameView.trans {m m' m'' : Machine α ρ} (h : SameView m m') (h' : SameView m' m'') :
    SameView m m'' where
  pending := h'.pending.trans h.pending
  blocks a ha := (h'.blocks a (by rw [h.log]; exact ha)).trans (h.blocks a ha)
  header := h'.header.trans h.header
  stableHdr := h'.stableHdr.trans h.stableHdr
  log := by rw [h'.log, h.log]
  nodes := h'.nodes.trans h.nodes

def Machine.putNode (m : Machine α ρ) (done rest : List (Node α)) (node : Node α) (k : Nat)
    (t : HashTable) : Machine α ρ where
  log := { m.log with diskMap := t, nodes := done ++ { node with isDirty := false } :: rest }
  dev := m.dev.after [.write (m.log.byteoff + k * pgsize) node.toBlock]
  stableHdr := m.stableHdr

section PutNode

variable {m : Machine α ρ} {done rest : List (Node α)} {node : Node α} {k : Nat} {t : HashTable}

theorem putNode_block_ne {i : Nat} (h : i ≠ k) :
    (m.putNode done rest node k t).dev.disk.block (m.log.byteoff + i * pgsize) =
      m.dev.disk.block (m.log.byteoff + i * pgsize) := by
  have hne : m.log.byteoff + i * pgsize ≠ m.log.byteoff + k * pgsize := by
    simp only [pgsize]
    omega
  simp only [Machine.putNode, Device.after, landAll_cons, landAll_nil, Request.land]
  exact update_of_ne hne _ _

theorem putNode_block_self :
    (m.putNode done rest node k t).dev.disk.block (m.log.byteoff + k * pgsize) = node.toBlock := by
  simp [Machine.putNode, Device.after, Request.land]

theorem putNode_logged (h : LogOkAt m k) (hc : m.log.diskMap.Clear node.offset)
    (hput : m.log.diskMap.hashPut node.offset (m.log.byteoff + k * pgsize) = .ok t) (off : Nat) :
    (m.putNode done rest node k t).logged off =
      if off = node.offset then some node.toBlock else m.logged off := by
  obtain ⟨-, -, hval⟩ := hashPut_ok h.table hc hput
  have hlog : (m.putNode done rest node k t).log.diskMap = t := rfl
  simp only [Machine.logged, hlog, hval off]
  split
  · simp [putNode_block_self]
  · cases hv : m.log.diskMap.val? off with
    | none => rfl
    | some v =>
      obtain ⟨-, ⟨i, hi, rfl⟩, -⟩ := h.mapped off v hv
      exact congrArg some (putNode_block_ne hi.ne)

theorem LogOkAt.putNode (h : LogOkAt m k) (hnodes : m.log.nodes = done ++ node :: rest)
    (hk : k < m.log.npages) (hc : m.log.diskMap.Clear node.offset)
    (hput : m.log.diskMap.hashPut node.offset (m.log.byteoff + k * pgsize) = .ok t) :
    LogOkAt (m.putNode done rest node k t) (k + 1) := by
  obtain ⟨htable, hcap, hval⟩ := hashPut_ok h.table hc hput
  have hnodup := h.nodup
  rw [hnodes] at hnodup
  have hother : ∀ n ∈ done ++ rest, n.offset ≠ node.offset := by
    simp only [List.map_append, List.map_cons, List.nodup_append, List.nodup_cons, List.mem_map,
      List.mem_cons] at hnodup
    intro n hn heq
    rcases List.mem_append.mp hn with hn | hn
    · exact hnodup.2.2 n.offset ⟨n, hn, rfl⟩ node.offset (.inl rfl) heq
    · exact hnodup.2.1.1 ⟨n, hn, heq⟩
  have hold : ∀ n ∈ done ++ rest, n ∈ m.log.nodes := by
    intro n hn
    rw [hnodes]
    simp only [List.mem_append, List.mem_cons] at hn ⊢
    tauto
  have hmem : ∀ n ∈ (m.putNode done rest node k t).log.nodes,
      n = { node with isDirty := false } ∨ n ∈ done ++ rest := by
    intro n hn
    simp only [Machine.putNode, List.mem_append, List.mem_cons] at hn ⊢
    tauto
  refine ⟨?_, htable, hcap.trans h.capacity, ?_, hk, fun key val hv ↦ ?_, fun n hn hclean ↦ ?_,
    fun n hn ↦ ?_⟩
  · simpa [Machine.putNode] using hnodup
  · exact (hashPut_size hput).trans (Nat.add_le_add_right h.size 1)
  · have hv : (if key = node.offset then some (m.log.byteoff + k * pgsize)
        else m.log.diskMap.val? key) = some val := (hval key).symm.trans hv
    split at hv
    next heq =>
      obtain rfl := Option.some.inj hv
      refine ⟨heq ▸ h.home node (by simp [hnodes]), ⟨k, by omega, rfl⟩, ?_⟩
      rw [putNode_block_self]
      exact heq.symm
    next =>
      obtain ⟨hhome, ⟨i, hi, rfl⟩, hoff⟩ := h.mapped key val hv
      refine ⟨hhome, ⟨i, by omega, rfl⟩, ?_⟩
      rw [putNode_block_ne hi.ne]
      exact hoff
  · rw [putNode_logged h hc hput]
    rcases hmem n hn with rfl | hn
    · simp
    · rw [if_neg (hother n hn)]
      exact h.clean n (hold n hn) hclean
  · rcases hmem n hn with rfl | hn
    · exact h.home node (by simp [hnodes])
    · exact h.home n (hold n hn)

theorem SameView.putNode (h : LogOkAt m k) (hnodes : m.log.nodes = done ++ node :: rest)
    (hk : k < m.log.npages) (hc : m.log.diskMap.Clear node.offset)
    (hput : m.log.diskMap.hashPut node.offset (m.log.byteoff + k * pgsize) = .ok t) :
    SameView m (m.putNode done rest node k t) where
  pending := by
    funext off
    have hmem : memBlock (m.putNode done rest node k t).log.nodes off = memBlock m.log.nodes off := by
      simp [memBlock, Machine.putNode, hnodes]
    simp only [Machine.pending, hmem, putNode_logged h hc hput]
    by_cases hoff : off = node.offset
    · -- the block itself is in memory
      have hsome : (memBlock m.log.nodes off).isSome := by
        simp [memBlock, hnodes, hoff]
      obtain ⟨b, hb⟩ := Option.isSome_iff_exists.mp hsome
      simp [hb]
    · simp [hoff]
  blocks a ha := by
    have hne : a ≠ m.log.byteoff + k * pgsize := by
      have := Log.outside_iff.mp ha
      simp only [pgsize] at this ⊢
      omega
    simp only [Machine.putNode, Device.after, landAll_cons, landAll_nil, Request.land]
    exact update_of_ne hne _ _
  header := rfl
  stableHdr := rfl
  log := rfl
  nodes := by simp [Machine.putNode, hnodes]

end PutNode

/-- The dirty blocks can be entered in the map: no tombstone hides an older entry
of theirs, and the search for them comes by every slot. -/
def FlushOk (m : Machine α ρ) : Prop :=
  ∀ node ∈ m.log.nodes, node.isDirty = true →
    m.log.diskMap.Clear node.offset ∧ m.log.diskMap.NoWrap node.offset

theorem LogOkAt.hashPut_succeeds {m : Machine α ρ} {k : Nat} {node : Node α} (h : LogOkAt m k)
    (hnode : node ∈ m.log.nodes) (hk : k < m.log.npages)
    (hw : m.log.diskMap.NoWrap node.offset) (val : Nat) :
    ∃ t, m.log.diskMap.hashPut node.offset val = .ok t :=
  HashTable.hashPut_succeeds h.table (h.home node hnode).2 hw
    (by rw [h.capacity]; exact h.size.trans_lt hk) val

theorem logWriteToLog_ok {io : IoEnv} (hio : io.WritesOk) {base n : Nat} {m : Machine α ρ}
    {done rest : List (Node α)} (h : LogOkAt m (base + n)) (hnodes : m.log.nodes = done ++ rest)
    (hroom : base + n + rest.length ≤ m.log.npages)
    (hdone : ∀ node ∈ done, node.isDirty = false)
    (hf : ∀ node ∈ rest, node.isDirty = true →
      m.log.diskMap.Clear node.offset ∧ m.log.diskMap.NoWrap node.offset) :
    ∃ m' n', logWriteToLog io (m.log.byteoff + base * pgsize) done rest n m = (.ok n', m') ∧
      n' ≤ n + rest.length ∧ LogOkAt m' (base + n') ∧ SameView m m' ∧
      (∀ node ∈ m'.log.nodes, node.isDirty = false) ∧ m'.log.onDisk = m.log.onDisk := by
  induction rest generalizing done n m with
  | nil =>
    refine ⟨m, n, rfl, le_rfl, h, SameView.refl m, ?_, rfl⟩
    simpa [hnodes] using hdone
  | cons node rest ih =>
    simp only [List.length_cons] at hroom
    cases hdirty : node.isDirty with
    | false =>
      have hsplit : m.log.nodes = (done ++ [node]) ++ rest := by simp [hnodes]
      obtain ⟨m', n', hrun, hn, hrest⟩ := ih h hsplit (by omega)
        (by simpa [or_imp, forall_and, hdirty] using hdone)
        fun x hx ↦ hf x (List.mem_cons_of_mem _ hx)
      refine ⟨m', n', ?_, by simp only [List.length_cons]; omega, hrest⟩
      simpa [logWriteToLog, hdirty] using hrun
    | true =>
      have hk : base + n < m.log.npages := by omega
      have hfn := hf node List.mem_cons_self hdirty
      obtain ⟨t, ht⟩ := h.hashPut_succeeds (show node ∈ m.log.nodes by simp [hnodes]) hk hfn.2
        (m.log.byteoff + (base + n) * pgsize)
      have hne : ∀ x ∈ rest, x.offset ≠ node.offset := by
        have hnodup := h.nodup
        simp only [hnodes, List.map_append, List.map_cons, List.nodup_append, List.nodup_cons,
          List.mem_map] at hnodup
        exact fun x hx heq ↦ hnodup.2.1.1 ⟨x, hx, heq⟩
      have hcap : t.capacity = m.log.diskMap.capacity := (hashPut_ok h.table hfn.1 ht).2.1
      have hsplit : (m.putNode done rest node (base + n) t).log.nodes =
          (done ++ [{ node with isDirty := false }]) ++ rest := by simp [Machine.putNode]
      have hlater : ∀ x ∈ rest, x.isDirty = true → t.Clear x.offset ∧ t.NoWrap x.offset := by
        intro x hx hd
        obtain ⟨hc, hw⟩ := hf x (List.mem_cons_of_mem _ hx) hd
        exact ⟨hc.hashPut h.table (hne x hx) ht, by simpa [NoWrap, hcap] using hw⟩
      obtain ⟨m', n', hrun, hn, hok, hview, hrest⟩ := ih (n := n + 1)
        (h.putNode hnodes hk hfn.1 ht) hsplit (by simp only [Machine.putNode]; omega)
        (by simpa [or_imp, forall_and] using hdone) hlater
      refine ⟨m', n', ?_, by simp only [List.length_cons]; omega, hok,
        (SameView.putNode h hnodes hk hfn.1 ht).trans hview, hrest⟩
      have hoff : m.log.byteoff + base * pgsize + n * pgsize =
          m.log.byteoff + (base + n) * pgsize := by
        rw [Nat.add_mul, Nat.add_assoc]
      have hbound : m.log.byteoff + (base + n) * pgsize <
          m.log.npages * pgsize + m.log.byteoff := by
        simp only [pgsize]
        omega
      have hreq := diskIoOrFail_ok (r := .write (m.log.byteoff + (base + n) * pgsize) node.toBlock)
        (m := m) (hio m.dev.issued.length)
      simp only [logWriteToLog, hdirty, if_true, bind_apply, get_apply, Exec.require, hoff, hbound,
        decide_true, pure_apply, hreq, putDiskMap, ht, modifyLog, modify_apply]
      exact hrun

end HiStar.Pstate
