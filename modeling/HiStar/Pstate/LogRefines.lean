import HiStar.Pstate.LogApply

namespace HiStar.Pstate

open Lib Function HashTable

variable {α ρ : Type} {io : IoEnv} {m m' : Machine α ρ} {lost : Nat}

theorem find?_eq_none_iff (nodes : List (Node α)) (off : Nat) :
    (nodes.find? fun node ↦ node.offset = off).map Node.toBlock = memBlock nodes off := by
  rw [memBlock, List.find?_map]
  rfl

theorem logTryRead_wp (io : IoEnv) (h : LogOk m lost) (off : Nat) :
    Wp (logTryRead io off) m (fun b m' ↦ m.pending off = some b ∧ ReadOnly m m' 0)
      (fun e m' ↦ ReadOnly m m' 0 ∧ ((e = .notFound ∧ m.pending off = none) ∨
        (e = .io ∧ io.reads m.dev.issued.length = false ∧ memBlock m.log.nodes off = none ∧
          (m.logged off).isSome))) := by
  have hsame : ReadOnly m m 0 := ⟨Nat.zero_le _, rfl, rfl, rfl⟩
  have hmem := find?_eq_none_iff m.log.nodes off
  apply Wp.bind
  apply Wp.of_ok (get_apply m)
  cases hfind : m.log.nodes.find? fun node ↦ node.offset = off with
  | some node =>
    rw [hfind] at hmem
    exact Wp.of_ok rfl ⟨by simp [Machine.pending, ← hmem], hsame⟩
  | none =>
    rw [hfind] at hmem
    have hpend : m.pending off = m.logged off := by simp [Machine.pending, ← hmem]
    cases hget : m.log.diskMap.hashGet off with
    | error e =>
      refine Wp.of_error rfl ⟨hsame, .inl ⟨rfl, ?_⟩⟩
      simp [hpend, Machine.logged, hashGet_error h.table hget]
    | ok v =>
      have hval := hashGet_ok hget
      have hlogged : m.logged off = some (m.dev.disk.block v) := by simp [Machine.logged, hval]
      rw [hpend, hlogged]
      cases hread : io.reads m.dev.issued.length with
      | true =>
        refine Wp.of_ok (t := { m with dev := ⟨m.dev.disk, m.dev.issued ++ [.read v]⟩ })
          (a := m.dev.disk.block v) ?_ ⟨rfl, Nat.zero_le _, rfl, rfl, rfl⟩
        simp [diskIoOrFail, bind_apply, diskIo_read, hread, Exec.require, blockAt]
      | false =>
        refine Wp.of_error (t := { m with dev := ⟨m.dev.disk, m.dev.issued ++ [.read v]⟩ })
          (e := .io) ?_ ⟨⟨Nat.zero_le _, rfl, rfl, rfl⟩, .inr ⟨rfl, rfl, hmem.symm, rfl⟩⟩
        simp [diskIoOrFail, bind_apply, diskIo_read, hread, Exec.require]

inductive LogOp (α : Type)
  | write (b : Block α)
  | flush
  | free (off : Nat)
  | apply

def LogOp.run (io : IoEnv) : LogOp α → Io α ρ Unit
  | .write b => logWrite io b
  | .flush => do
    let _ ← logFlush io
  | .free off => logFree off
  | .apply => logApplyMem io

def LogOp.block? : LogOp α → Option Nat
  | .write b => some b.offset
  | .free off => some off
  | _ => none

/-- What the log stands for: the contents of a block that are not home yet, and
the last contents of it since it was freed. -/
structure LogView (α : Type) where
  pending : Nat → Option (Block α)
  latest : Nat → Option (Block α)

def LogView.step (v : LogView α) : LogOp α → LogView α
  | .write b => ⟨update v.pending b.offset (some b), update v.latest b.offset (some b)⟩
  | .flush => v
  | .free off => ⟨update v.pending off none, update v.latest off none⟩
  | .apply => ⟨fun _ ↦ none, v.latest⟩

/-- The log after `log_init`, over a disk with any contents. -/
def logInitial (npages : Nat) (d : Disk α ρ) : Machine α ρ :=
  ⟨resetLog npages {}, ⟨d, []⟩, d.header⟩

/-- A call that stays within the log: its block lies outside of it, and there is
room for the blocks it flushes. -/
def LogOp.InRange (m : Machine α ρ) : LogOp α → Prop
  | .write b => m.log.IsHome b.offset ∧
    (memBlock m.log.nodes b.offset = none → m.log.inMem = m.log.maxMem → HasRoom m)
  | .flush => HasRoom m
  | _ => True

def LogOp.FlushesOk (m : Machine α ρ) : LogOp α → Prop
  | .write b => memBlock m.log.nodes b.offset = none → m.log.inMem = m.log.maxMem → FlushOk m
  | .flush => FlushOk m
  | _ => True

/-- The runs of calls on a disk without errors that meet the condition `P`, with
what they stand for. -/
inductive LogRun (npages : Nat) (P : Machine α ρ → LogOp α → Prop) : Machine α ρ → LogView α → Prop
  | init (d : Disk α ρ) : LogRun npages P (logInitial npages d) ⟨fun _ ↦ none, fun _ ↦ none⟩
  | step {m m' : Machine α ρ} {v : LogView α} {op : LogOp α} (h : LogRun npages P m v) (hp : P m op)
      (hrun : op.run .perfect m = (.ok (), m')) : LogRun npages P m' (v.step op)

structure Represents (m : Machine α ρ) (v : LogView α) : Prop where
  log : LogOk m 0
  pending : m.pending = v.pending
  latest : ∀ off b, v.latest off = some b → m.log.outside off = true ∧
    (v.pending off = some b ∨ v.pending off = none ∧ m.dev.disk.block off = b)

theorem represents_initial {npages : Nat}
    (hpages : npages / entriesPerPage ≤ maxLogPages / entriesPerPage) (d : Disk α ρ) :
    Represents (logInitial npages d) ⟨fun _ ↦ none, fun _ ↦ none⟩ := by
  have hbufs : ({} : Log α).freeNodes + ({} : Log α).nodes.length + 0 = logMemory := rfl
  obtain ⟨hok, hpend⟩ := logOk_resetLog hpages hbufs ⟨d, []⟩ d.header
  exact ⟨hok, hpend, fun off b h ↦ by cases h⟩

theorem not_applyFails_perfect (e : Errno) : ¬ ApplyFails .perfect m 0 e m' := by
  rintro (⟨-, h⟩ | ⟨-, ⟨n, hn⟩, -⟩)
  · exact absurd h (lt_irrefl 0)
  · cases hn

/-- A call that stays within the log and flushes without tombstones in the way
returns, and does to the view what it should. -/
theorem Represents.step {v : LogView α} {op : LogOp α} (h : Represents m v) (hin : op.InRange m)
    (hf : op.FlushesOk m) :
    ∃ m', op.run .perfect m = (.ok (), m') ∧ m'.log.npages = m.log.npages ∧
      Represents m' (v.step op) := by
  cases op with
  | write b =>
    have hwrite : WriteOk m b := ⟨hin.1, fun hnew hfull ↦ ⟨hin.2 hnew hfull, hf hnew hfull⟩⟩
    obtain ⟨_, m', hrun, hok, hframe, hpend⟩ := (logWrite_wp writesOk_perfect h.log hwrite).exists_ok
      fun e t he ↦ absurd he.2 (lt_irrefl 0)
    refine ⟨m', hrun, hframe.npages, hok, by rw [hpend, h.pending]; rfl, fun off c hc ↦ ?_⟩
    have hout : m'.log.outside off = m.log.outside off := by
      simp [Log.outside, hok.byteoff, h.log.byteoff, hframe.npages]
    rw [hout]
    by_cases hoff : off = b.offset
    · subst hoff
      simp only [LogView.step, update_self] at hc ⊢
      exact ⟨hin.1.1, .inl hc⟩
    · simp only [LogView.step, update_of_ne hoff] at hc ⊢
      obtain ⟨ho, hlatest⟩ := h.latest off c hc
      rw [hframe.blocks off ho]
      exact ⟨ho, hlatest⟩
  | flush =>
    obtain ⟨m', hrun, hok, hview, -⟩ := logFlush_ok writesOk_perfect h.log hin hf
    refine ⟨m', by simp [LogOp.run, bind_apply, hrun], hview.frame.npages, hok,
      hview.pending.trans h.pending, fun off c hc ↦ ?_⟩
    obtain ⟨ho, hlatest⟩ := h.latest off c hc
    rw [hview.blocks off ho, hview.log]
    exact ⟨ho, hlatest⟩
  | free off =>
    obtain ⟨m', hrun, hok, hframe, hpend⟩ := logFree_ok h.log off
    refine ⟨m', hrun, hframe.npages, hok, by rw [hpend, h.pending]; rfl, fun off' c hc ↦ ?_⟩
    by_cases hoff : off' = off
    · simp [LogView.step, hoff] at hc
    · simp only [LogView.step, update_of_ne hoff] at hc ⊢
      obtain ⟨ho, hlatest⟩ := h.latest off' c hc
      rw [hframe.blocks off' ho]
      simpa [Log.outside, hok.byteoff, h.log.byteoff, hframe.npages] using And.intro ho hlatest
  | apply =>
    obtain ⟨_, m', hrun, hok, hflows, hnone, -⟩ := (logApplyMem_wp writesOk_perfect h.log).exists_ok
      fun e t ↦ not_applyFails_perfect e
    refine ⟨m', hrun, hflows.npages, hok, hnone, fun off c hc ↦ ?_⟩
    obtain ⟨ho, hlatest⟩ := h.latest off c hc
    refine ⟨by rw [hflows.outside, ho], .inr ⟨rfl, ?_⟩⟩
    have hblock := hflows.block off ho
    rw [hnone, h.pending] at hblock
    rcases hlatest with hp | ⟨hp, hb⟩ <;> rcases hblock with ⟨hp', hb'⟩ | ⟨-, hb'⟩
    · rw [hp] at hp'
      cases hp'
    · rw [hp] at hb'
      exact (Option.some.inj hb').symm
    · exact hb'.trans hb
    · rw [hp] at hb'
      cases hb'

theorem LogRun.represents {npages : Nat}
    (hpages : npages / entriesPerPage ≤ maxLogPages / entriesPerPage) {v : LogView α}
    (h : LogRun npages (fun m op ↦ op.InRange m ∧ op.FlushesOk m) m v) : Represents m v := by
  induction h with
  | init d => exact represents_initial hpages d
  | step h hp hrun ih =>
    obtain ⟨m', hrun', -, hrep⟩ := ih.step hp.1 hp.2
    rw [hrun] at hrun'
    cases hrun'
    exact hrep

/-- What a log that stands for `v` answers and leaves at home: a read returns the
last contents that are not home yet, and the last contents of every other block
are at its home. -/
def ServesView (m : Machine α ρ) (v : LogView α) : Prop :=
  (∀ off, (logTryRead .perfect off m).1 =
    match v.pending off with
    | some b => .ok b
    | none => .error .notFound) ∧
  ∀ off b, v.latest off = some b → v.pending off = none → m.dev.disk.block off = b

theorem Represents.serves {v : LogView α} (h : Represents m v) : ServesView m v := by
  refine ⟨fun off ↦ ?_, fun off b hb hnone ↦ ?_⟩
  · have hread := logTryRead_wp .perfect h.log off
    rw [h.pending] at hread
    unfold Wp at hread
    rcases hr : logTryRead .perfect off m with ⟨e | b, m'⟩ <;> rw [hr] at hread
    · rcases hread.2 with ⟨rfl, hnone⟩ | ⟨-, hfails, -⟩
      · simp [hnone]
      · cases hfails
    · simp [hread.1]
  · rcases (h.latest off b hb).2 with hp | ⟨-, hblock⟩
    · rw [hnone] at hp
      cases hp
    · exact hblock

/-- In every run of calls that stay within the log and never flush a block with
an older entry behind a tombstone, the log serves the contents last written, and
every call that meets these conditions returns. -/
theorem log_refines_view {npages : Nat}
    (hpages : npages / entriesPerPage ≤ maxLogPages / entriesPerPage) {m : Machine α ρ}
    {v : LogView α} (h : LogRun npages (fun m op ↦ op.InRange m ∧ op.FlushesOk m) m v) :
    ServesView m v ∧ ∀ op : LogOp α, op.InRange m → op.FlushesOk m →
      ∃ m', op.run .perfect m = (.ok (), m') :=
  ⟨(h.represents hpages).serves, fun op hin hf ↦ by
    obtain ⟨m', hrun, -⟩ := (h.represents hpages).step hin hf
    exact ⟨m', hrun⟩⟩

section Runs

instance (m : Machine α ρ) : Decidable (FlushOk m) :=
  inferInstanceAs (Decidable (∀ node ∈ m.log.nodes, _ → _))

instance [DecidableEq α] (m : Machine α ρ) (op : LogOp α) : Decidable (op.InRange m) :=
  match op with
  | .write _ => inferInstanceAs (Decidable ((_ ∧ _) ∧ (_ → _ → _ < _)))
  | .flush => inferInstanceAs (Decidable (_ < _))
  | .free _ => inferInstanceAs (Decidable True)
  | .apply => inferInstanceAs (Decidable True)

instance [DecidableEq α] (m : Machine α ρ) (op : LogOp α) : Decidable (op.FlushesOk m) :=
  match op with
  | .write _ => inferInstanceAs (Decidable (_ → _ → FlushOk m))
  | .flush => inferInstanceAs (Decidable (FlushOk m))
  | .free _ => inferInstanceAs (Decidable True)
  | .apply => inferInstanceAs (Decidable True)

section Checked

variable (P : Machine α ρ → LogOp α → Prop) [∀ m op, Decidable (P m op)]

def runCalls : List (LogOp α) → Machine α ρ → Option (Machine α ρ)
  | [], m => some m
  | op :: ops, m =>
    if P m op then
      match op.run .perfect m with
      | (.ok (), m') => runCalls ops m'
      | _ => none
    else none

theorem logRun_of_runCalls {npages : Nat} {ops : List (LogOp α)} {v : LogView α}
    (h : LogRun npages P m v) (hrun : runCalls P ops m = some m') :
    LogRun npages P m' (ops.foldl LogView.step v) := by
  induction ops generalizing m v with
  | nil =>
    cases hrun
    exact h
  | cons op ops ih =>
    rw [runCalls] at hrun
    split at hrun
    · rename_i hin
      split at hrun
      · rename_i m₁ hstep
        exact ih (h.step hin hstep) hrun
      · cases hrun
    · cases hrun

end Checked

def blankDisk : Disk Nat Unit := ⟨⟨true, 0, 0, 8, ()⟩, fun a ↦ ⟨a, 0⟩⟩

/-- Two blocks whose searches start at the same slot are flushed; one of them is written again,
and the other one freed. -/
theorem serves_after_flush : ∃ (m : Machine Nat Unit) (v : LogView Nat),
    LogRun 8 (fun m op ↦ op.InRange m ∧ op.FlushesOk m) m v ∧
      v.pending 45056 = some ⟨45056, 3⟩ ∧ v.pending 53248 = none ∧ ServesView m v := by
  have hsome : (runCalls (fun m op ↦ op.InRange m ∧ op.FlushesOk m)
      [.write ⟨45056, 1⟩, .write ⟨53248, 2⟩, .flush, .write ⟨45056, 3⟩, .free 53248, .flush]
      (logInitial 8 blankDisk)).isSome := by decide +kernel
  obtain ⟨m, hrun⟩ := Option.isSome_iff_exists.mp hsome
  have hlog := logRun_of_runCalls _ (.init blankDisk) hrun
  exact ⟨m, _, hlog, rfl, rfl, (log_refines_view (by decide) hlog).1⟩

/-- Two blocks whose searches start at the same slot. The first is freed, so that
the second, written again, is entered a second time; its older contents are the
last to come home. -/
def staleCalls : List (LogOp Nat) :=
  [.write ⟨45056, 1⟩, .write ⟨53248, 2⟩, .flush, .free 45056, .write ⟨53248, 3⟩, .flush, .apply]

theorem stale_home : ¬ ∀ (m : Machine Nat Unit) (v : LogView Nat),
    LogRun 8 (fun m op ↦ op.InRange m) m v → ServesView m v := by
  intro h
  have hblock : (runCalls (fun m op ↦ op.InRange m) staleCalls (logInitial 8 blankDisk)).map
      (fun m ↦ m.dev.disk.block 53248) = some ⟨53248, 2⟩ := by
    decide +kernel
  obtain ⟨m, hrun, hstale⟩ := Option.map_eq_some_iff.mp hblock
  have hserves := h m _ (logRun_of_runCalls _ (.init blankDisk) hrun)
  have hhome := hserves.2 53248 ⟨53248, 3⟩ rfl rfl
  rw [hstale] at hhome
  cases hhome

end Runs

end HiStar.Pstate
