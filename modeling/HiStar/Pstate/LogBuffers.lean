import HiStar.Pstate.LogRefines

namespace HiStar.Pstate

open Lib Function HashTable

variable {α ρ β : Type} {io : IoEnv} {m m' m'' : Machine α ρ}

/-- The calls of the log, with the ones that only read it and the one that replays
it. The retry loop around `log_apply_mem` is a sequence of `applyMem` calls. -/
inductive LogCall (α : Type)
  | write (b : Block α)
  | tryRead (off : Nat)
  | flush
  | free (off : Nat)
  | applyMem
  | applyDisk (n : Nat)

def LogCall.run (io : IoEnv) : LogCall α → Io α ρ Unit
  | .write b => logWrite io b
  | .tryRead off => do
    let _ ← logTryRead io off
  | .flush => do
    let _ ← logFlush io
  | .free off => logFree off
  | .applyMem => logApplyMem io
  | .applyDisk n => logApplyDisk io n

/-- The states that calls meeting `P` lead to, each with its own pattern of disk
errors. A call that stops at an assertion does not return. -/
inductive LogCalls (P : IoEnv → Machine α ρ → LogCall α → Prop) : Machine α ρ → Prop
  | init (npages : Nat) (d : Disk α ρ) : LogCalls P (logInitial npages d)
  | step {m : Machine α ρ} (h : LogCalls P m) (io : IoEnv) (op : LogCall α) (hp : P io m op)
      (hr : (op.run io m).1 ≠ .error .panic) : LogCalls P (op.run io m).2

structure Bufs (m : Machine α ρ) (out : Nat) : Prop where
  maxMem : m.log.maxMem = logMemory
  inMem : m.log.inMem = m.log.nodes.length
  bufs : m.log.freeNodes + m.log.nodes.length + out = logMemory

abbrev Conserved (m : Machine α ρ) : Prop := Bufs m 0

def FindsBuf (m : Machine α ρ) : Prop :=
  ∀ io, Wp (Exec.when (m.log.inMem = m.log.maxMem) (logEvict io)) m
    (fun _ m' ↦ 0 < m'.log.freeNodes) fun _ _ ↦ True

/-- A step that takes `k` buffers off the free list and nothing else from the log. -/
structure Takes (k : Nat) (m m' : Machine α ρ) : Prop where
  free : m'.log.freeNodes + k = m.log.freeNodes
  nodes : m'.log.nodes.length = m.log.nodes.length
  inMem : m'.log.inMem = m.log.inMem
  maxMem : m'.log.maxMem = m.log.maxMem
  issued : m.dev.issued.length ≤ m'.dev.issued.length

abbrev Kept : Machine α ρ → Machine α ρ → Prop := Takes 0

theorem Kept.refl (m : Machine α ρ) : Kept m m := ⟨rfl, rfl, rfl, rfl, le_rfl⟩

variable {k : Nat} {c : Io α ρ β} {P : Machine α ρ → Prop}

theorem Takes.trans {j : Nat} (h : Takes j m m') (h' : Takes k m' m'') : Takes (j + k) m m'' where
  free := by
    have := h.free
    have := h'.free
    omega
  nodes := h'.nodes.trans h.nodes
  inMem := h'.inMem.trans h.inMem
  maxMem := h'.maxMem.trans h.maxMem
  issued := h.issued.trans h'.issued

theorem Bufs.takes {out : Nat} (h : Bufs m out) (hk : Takes k m m') : Bufs m' (out + k) where
  maxMem := hk.maxMem.trans h.maxMem
  inMem := by rw [hk.inMem, hk.nodes, h.inMem]
  bufs := by
    have := h.bufs
    have := hk.free
    rw [hk.nodes]
    omega

theorem Takes.nodes_nil (h : Takes k m m') (hnil : m.log.nodes = []) : m'.log.nodes = [] := by
  simpa [hnil] using h.nodes

/-- The outcome of a call: unless it stops at an assertion, `P` holds. -/
def Returns (c : Io α ρ β) (m : Machine α ρ) (P : Machine α ρ → Prop) : Prop :=
  Wp c m (fun _ ↦ P) fun e m' ↦ e = .panic ∨ P m'

theorem Returns.of_rel [hc : Rel Kept c] (h : ∀ m', Kept m m' → P m') : Returns c m P := by
  have hk := hc.rel m
  unfold Returns Wp
  rcases hcm : c m with ⟨e | a, t⟩ <;> rw [hcm] at hk
  · exact .inr (h t hk)
  · exact h t hk

theorem Returns.bind {γ : Type} {f : β → Io α ρ γ} {Q : Machine α ρ → Prop} (hc : Returns c m Q)
    (hQ : ∀ m', Q m' → P m') (hf : ∀ a m', Q m' → Returns (f a) m' P) : Returns (c >>= f) m P :=
  Wp.bind (Wp.mono hc (fun a t h ↦ hf a t h) fun _ t h ↦ h.imp_right (hQ t))

theorem Returns.outcome (h : Returns c m P) (hc : (c m).1 ≠ .error .panic) : P (c m).2 := by
  unfold Returns Wp at h
  rcases hcm : c m with ⟨e | a, t⟩ <;> rw [hcm] at h hc
  · exact h.resolve_left fun he ↦ hc (he ▸ rfl)
  · exact h

theorem Returns.mono {Q : Machine α ρ → Prop} (h : Returns c m P)
    (hPQ : ∀ m', P m' → Q m') : Returns c m Q :=
  Wp.mono h (fun _ ↦ hPQ) fun _ t ht ↦ ht.imp_right (hPQ t)

theorem Returns.require {b : Bool} {e : Errno} (h : P m) : Returns (Exec.require b e) m P :=
  Wp.require (fun _ ↦ h) fun _ ↦ .inr h

section Moves

instance : Std.Refl (Kept : Machine α ρ → Machine α ρ → Prop) := ⟨.refl⟩

instance : IsTrans (Machine α ρ) Kept := ⟨fun _ _ _ h h' ↦ h.trans h'⟩

instance (off : Nat) : Rel Kept (blockAt off : Io α ρ (Block α)) := .of_unchanged fun _ ↦ rfl

instance (io : IoEnv) (r : Request α ρ) : Rel Kept (diskIo io r) :=
  ⟨fun _ ↦ ⟨rfl, rfl, rfl, rfl, by simp [diskIo, Device.issue]⟩⟩

instance (io : IoEnv) (r : Request α ρ) : Rel Kept (diskIoOrFail io r) := by
  unfold diskIoOrFail
  infer_instance

instance (key val : Nat) : Rel Kept (putDiskMap key val : Io α ρ Unit) := ⟨fun m ↦ by
  unfold putDiskMap
  split
  · exact ⟨rfl, rfl, rfl, rfl, le_rfl⟩
  · exact .refl m
  · exact .refl m⟩

theorem delAll_kept (bs : List (Block α)) (m : Machine α ρ) :
    Wp (delAll bs) m (fun _ m' ↦ Kept m m') fun _ _ ↦ False := by
  induction bs generalizing m with
  | nil => exact Wp.of_ok rfl (Kept.refl m)
  | cons b bs ih =>
    refine wp_modify (Wp.imp (ih _) fun _ m' h ↦ Takes.trans ?_ h)
    dsimp only
    split
    · exact ⟨rfl, rfl, rfl, rfl, le_rfl⟩
    · exact Kept.refl m

instance (io : IoEnv) (bs : List (Block α)) :
    Rel Kept (logWriteToDisk io bs : Io α ρ Unit) := by
  induction bs with
  | nil => exact .pure _
  | cons b bs ih =>
    unfold logWriteToDisk
    infer_instance

instance (io : IoEnv) (off : Nat) :
    Rel Kept (logTryRead io off : Io α ρ (Block α)) := by
  refine .bind_of inferInstance fun m ↦ ?_
  split
  · infer_instance
  · split <;> infer_instance

theorem logWriteToLog_kept {off n : Nat} {done rest : List (Node α)}
    (h : m.log.nodes.length = done.length + rest.length) :
    Returns (logWriteToLog io off done rest n) m (Kept m) := by
  induction rest generalizing done n m with
  | nil => exact Wp.of_ok rfl (.refl m)
  | cons node rest ih =>
    unfold logWriteToLog
    split
    · refine Returns.bind (Returns.of_rel fun _ h ↦ h) (fun _ h ↦ h) fun m₀ m₁ h₁ ↦ ?_
      refine Returns.bind (Q := Kept m) (Returns.require h₁) (fun _ h ↦ h) fun _ m₂ h₂ ↦ ?_
      refine Returns.bind (Returns.of_rel fun _ h ↦ h₂.trans h) (fun _ h ↦ h) fun _ m₃ h₃ ↦ ?_
      refine Returns.bind (Returns.of_rel fun _ h ↦ h₃.trans h) (fun _ h ↦ h) fun _ m₄ h₄ ↦ ?_
      -- the node is put back as a clean one
      have hlen : (done ++ { node with isDirty := false } :: rest).length = m.log.nodes.length := by
        simp [h]
      refine wp_modify ?_
      have h₅ : Kept m { m₄ with log := { m₄.log with
          nodes := done ++ { node with isDirty := false } :: rest } } :=
        ⟨h₄.free, hlen, h₄.inMem, h₄.maxMem, h₄.issued⟩
      refine Returns.mono (ih ?_) fun _ h ↦ h₅.trans h
      simp [Nat.add_assoc, Nat.add_comm 1]
    · refine ih ?_
      simp [h, Nat.add_assoc, Nat.add_comm 1]

theorem logFlush_kept (io : IoEnv) (m : Machine α ρ) : Returns (logFlush io) m (Kept m) := by
  refine wp_get ?_
  refine Returns.bind (Q := Kept m) (Returns.require (.refl m)) (fun _ h ↦ h) fun _ m₁ h₁ ↦ ?_
  have hlen : m₁.log.nodes.length = ([] : List (Node α)).length + m.log.nodes.length := by
    simp [h₁.nodes]
  refine Returns.bind (Returns.mono (logWriteToLog_kept hlen) fun _ h ↦ h₁.trans h)
    (fun _ h ↦ h) fun count m₂ h₂ ↦ ?_
  refine Returns.bind (Q := Kept m) (Returns.require h₂) (fun _ h ↦ h) fun _ m₃ h₃ ↦ ?_
  refine wp_modify (Wp.pure ?_)
  exact ⟨h₃.free, h₃.nodes, h₃.inMem, h₃.maxMem, h₃.issued⟩

end Moves

theorem Bufs.freeMem (h : Conserved m) :
    Conserved { m with log := { freeMem m.log with inMem := m.log.inMem - m.log.nodes.length } } where
  maxMem := h.maxMem
  inMem := by simp [Pstate.freeMem, h.inMem]
  bufs := by simpa [Pstate.freeMem] using h.bufs

theorem logEvict_returns (h : Conserved m) :
    Wp (logEvict io) m (fun _ m' ↦ Conserved m' ∧ m'.log.nodes = [])
      fun e m' ↦ e = .panic ∨ Conserved m' := by
  refine Wp.bind (Wp.mono (logFlush_kept io m) (fun _ m₁ h₁ ↦ ?_) fun _ t h' ↦
    h'.imp_right h.takes)
  refine wp_modify (wp_get ?_)
  have h₂ := (h.takes h₁).freeMem
  exact Wp.require (fun _ ↦ ⟨h₂, rfl⟩) fun _ ↦ .inr h₂

theorem Bufs.free_pos (h : Conserved m) (hfull : m.log.inMem ≠ m.log.maxMem) :
    0 < m.log.freeNodes := by
  have hbufs := h.bufs
  rw [h.inMem, h.maxMem] at hfull
  omega

theorem Bufs.free_eq (h : Conserved m) (hnil : m.log.nodes = []) : m.log.freeNodes = logMemory := by
  simpa [hnil] using h.bufs

theorem makeRoom_returns (h : Conserved m) :
    Wp (Exec.when (m.log.inMem = m.log.maxMem) (logEvict io)) m
      (fun _ m' ↦ Conserved m' ∧ 0 < m'.log.freeNodes) fun e m' ↦ e = .panic ∨ Conserved m' := by
  refine Wp.when (fun _ ↦ ?_) fun hn ↦ ⟨h, h.free_pos (by simpa using hn)⟩
  refine Wp.imp (logEvict_returns h) fun _ t ht ↦ ⟨ht.1, ?_⟩
  rw [ht.1.free_eq ht.2]
  decide

theorem Bufs.findsBuf (h : Conserved m) : FindsBuf m := fun _ ↦
  Wp.mono (makeRoom_returns h) (fun _ _ h ↦ h.2) fun _ _ _ ↦ trivial

theorem logWrite_returns (h : Conserved m) (b : Block α) :
    Returns (logWrite io b) m Conserved := by
  refine wp_get ?_
  split
  · -- the block in memory is replaced
    rename_i hmem
    have hlen := length_eraseNode hmem
    refine wp_modify (Wp.modify ⟨h.maxMem, ?_, ?_⟩)
    · simp [appendNode, h.inMem, ← hlen, eraseNode]
    · simpa [appendNode, ← hlen, eraseNode] using h.bufs
  · refine Wp.bind (wp_get ?_)
    refine Wp.seq (makeRoom_returns h) fun _ m₁ h₁ ↦ ?_
    refine Wp.bind (wp_get ?_)
    refine wp_require (fun _ ↦ ?_) fun hn ↦ ?_
    · refine Wp.modify (Wp.modify (Wp.modify ⟨h₁.1.maxMem, ?_, ?_⟩))
      · simp [appendNode, h₁.1.inMem]
      · have hbufs := h₁.1.bufs
        have hpos := h₁.2
        simp only [appendNode, List.length_append, List.length_singleton]
        omega
    · exact .inr h₁.1

theorem logFree_returns (h : Conserved m) (off : Nat) : Returns (logFree off) m Conserved := by
  have hdrop : Conserved { m with log := dropNode off m.log } := by
    unfold dropNode
    split
    · rename_i hmem
      have hlen := length_eraseNode hmem
      have hbufs := h.bufs
      have hin := h.inMem
      simp only [eraseNode] at hlen
      refine ⟨h.maxMem, ?_, ?_⟩ <;> simp only <;> omega
    · exact h
  refine Wp.modify ?_
  dsimp only [dropLogged]
  split
  · exact hdrop
  · split <;> exact ⟨hdrop.maxMem, hdrop.inMem, hdrop.bufs⟩

end HiStar.Pstate
