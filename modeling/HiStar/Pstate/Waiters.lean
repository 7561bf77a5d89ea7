import HiStar.Pstate.OpQueue

namespace HiStar.Pstate.OpQueue

open Lib

theorem Op.prio_pos (op : Op) : 0 < op.prio := by
  rcases op with _ | _ | _ | _ <;> simp [Op.prio]

theorem pstateOpSchedule_eq (op : Op) (s : Sched) :
    ∃ q, pstateOpSchedule op s = { s with queue := some q } := by
  unfold pstateOpSchedule
  split
  · exact ⟨op, rfl⟩
  · rename_i h
    cases hq : s.queue with
    | none => simp [queuePrio, hq, op.prio_pos] at h
    | some q => exact ⟨q, by rw [← hq]⟩

theorem suspendCur_eq (cur : Option Nat) (s : Sched) :
    ∃ w, suspendCur cur s = { s with waiting := w } := by
  cases cur <;> exact ⟨_, rfl⟩

theorem await_eq (cur : Option Nat) (op : Op) (s : Sched) :
    ∃ w q, await cur op s = { s with waiting := w, queue := some q } := by
  obtain ⟨w, hw⟩ := suspendCur_eq cur s
  obtain ⟨q, hq⟩ := pstateOpSchedule_eq op (suspendCur cur s)
  exact ⟨w, q, by rw [await, hq, hw]⟩

def CanFormat (s : Sched) : Prop := s.magicOk = true ∨ ∀ size ∈ s.part, tooSmall size = false

/-- The lock is held by the operation that runs, and there are operations only
with a partition that they can work on. -/
structure Steady (s : Sched) : Prop where
  lock : s.locked = s.running.isSome
  part : s.queue.isSome ∨ s.running.isSome → s.part.isSome
  format : CanFormat s

structure Alive (s : Sched) : Prop extends Steady s where
  waits : s.waiting ≠ [] → s.queue.isSome ∨ s.running.isSome

theorem pstateSwapin_state (cur : Option Nat) (id : Nat) (s : Sched) :
    (pstateSwapin cur id s).2 = if s.part.isSome then await cur (.swapin id) s else s := by
  cases hp : s.part.isSome <;> simp [pstateSwapin, bind_apply, Exec.when, hp]

theorem pstateSync_state (cur : Option Nat) (gc : Bool) (s : Sched) :
    (pstateSync cur gc s).2 = if s.part.isSome then await cur (.sync gc) s else s := by
  cases hp : s.part.isSome <;> simp [pstateSync, bind_apply, Exec.when, hp]

namespace Steady

variable {s : Sched}

theorem await (h : Steady s) (hp : s.part.isSome) (cur : Option Nat) (op : Op) :
    Alive (await cur op s) := by
  obtain ⟨w, q, hw⟩ := await_eq cur op s
  rw [hw]
  exact ⟨⟨h.lock, fun _ ↦ hp, h.format⟩, fun _ ↦ .inl rfl⟩

theorem aside (h : Steady s) (a : Aside) : Steady (a.run s) := by
  cases a with
  | leave t => exact ⟨h.lock, h.part, h.format⟩
  | swapin id =>
    rw [Aside.run, pstateSwapin_state]
    split
    · exact (h.await ‹_› none _).toSteady
    · exact h
  | outOfMemory =>
    rw [Aside.run, pstateSync_state]
    split
    · exact (h.await ‹_› none _).toSteady
    · exact h

theorem gcScan (h : Steady s) (asides : List Aside) : Steady (gcScan asides s) := by
  induction asides generalizing s with
  | nil => exact h
  | cons a asides ih => exact ih (h.aside a)

theorem part_aside (a : Aside) (s : Sched) : (a.run s).part = s.part := by
  cases a with
  | leave t => rfl
  | swapin id =>
    obtain ⟨w, q, hw⟩ := await_eq none (.swapin id) s
    rw [Aside.run, pstateSwapin_state, hw]
    split <;> rfl
  | outOfMemory =>
    obtain ⟨w, q, hw⟩ := await_eq none (.sync true) s
    rw [Aside.run, pstateSync_state, hw]
    split <;> rfl

theorem part_gcScan (asides : List Aside) (s : Sched) :
    (OpQueue.gcScan asides s).part = s.part := by
  induction asides generalizing s with
  | nil => rfl
  | cons a asides ih => exact (ih (a.run s)).trans (part_aside a s)

theorem alive (h : Steady s) (hr : s.running.isSome) : Alive s := ⟨h, fun _ ↦ .inr hr⟩

theorem startOp (h : Steady s) (hp : s.part.isSome) (op : Op) :
    Alive (startOp op { s with locked := true }) := by
  have hrun (r : Op × Nat) (c : Nat) :
      Alive { s with locked := true, running := some r, counter := c } :=
    ⟨⟨rfl, fun _ ↦ hp, h.format⟩, fun _ ↦ .inr rfl⟩
  cases op with
  | swapin id => exact hrun _ s.counter
  | syncObject ko start nbytes => exact hrun _ _
  | sync gc =>
    obtain ⟨size, hsize⟩ := Option.isSome_iff_exists.mp hp
    have hfit : (!s.magicOk && tooSmall size) = false := by
      rcases h.format with hm | hm
      · simp [hm]
      · simp [hm size hsize]
    simpa [OpQueue.startOp, hsize, hfit, takeTs] using hrun (.sync gc, s.counter) (s.counter + 1)

end Steady

namespace Alive

variable {s : Sched}

theorem awaitIf (h : Alive s) (cur : Option Nat) (op : Op) :
    Alive (if s.part.isSome then OpQueue.await cur op s else s) := by
  split
  · exact h.toSteady.await ‹_› cur op
  · exact h

theorem released (hf : CanFormat s) (hp : s.part.isSome) (hw : s.waiting = [] ∨ s.queue.isSome) :
    Alive (release s) :=
  ⟨⟨rfl, fun _ ↦ hp, hf⟩, fun hne ↦ .inl (hw.resolve_left hne)⟩

theorem finishOp (h : Alive s) (o : Outcome) : Alive (finishOp o s) := by
  rcases hr : s.running with _ | ⟨_ | ⟨ko, start, n⟩ | gc, ts⟩
  · simpa [OpQueue.finishOp, hr] using h
  all_goals have hp : s.part.isSome := h.part (.inr (by simp [hr]))
  · simp only [OpQueue.finishOp, hr]
    exact released (s := wakeAll s) h.format hp (.inl rfl)
  · cases o with
    | done dirty =>
      simp only [OpQueue.finishOp, hr]
      exact released h.format hp (.inl rfl)
    | failed =>
      obtain ⟨q, hq⟩ := pstateOpSchedule_eq (.sync false) (release s)
      simp only [OpQueue.finishOp, hr, hq]
      exact ⟨⟨rfl, fun _ ↦ hp, h.format⟩, fun _ ↦ .inl rfl⟩
  · cases o with
    | done dirty =>
      simp only [OpQueue.finishOp, hr]
      exact released (.inl rfl) hp (.inl rfl)
    | failed =>
      simp only [OpQueue.finishOp, hr]
      exact released (s := wakeAll s) h.format hp (.inl rfl)

theorem finishOp_drains (hr : s.running.isSome) (o : Outcome) :
    (OpQueue.finishOp o s).waiting = [] ∨ (OpQueue.finishOp o s).queue.isSome := by
  obtain ⟨⟨_ | ⟨ko, start, n⟩ | gc, ts⟩, hr⟩ := Option.isSome_iff_exists.mp hr
  · simp [OpQueue.finishOp, hr, wakeAll]
  · cases o with
    | done dirty => simp [OpQueue.finishOp, hr, wakeAll, release]
    | failed =>
      obtain ⟨q, hq⟩ := pstateOpSchedule_eq (.sync false) (release s)
      simp [OpQueue.finishOp, hr, hq]
  · cases o <;> simp [OpQueue.finishOp, hr, wakeAll, release]

theorem opCheck (h : Alive s) (rounds : List (List Aside × Option Outcome)) :
    Alive (pstateOpCheck rounds s) := by
  induction rounds generalizing s with
  | nil => exact h
  | cons r rounds ih =>
    obtain ⟨asides, ends⟩ := r
    cases hq : s.queue with
    | none => simpa [pstateOpCheck, hq] using h
    | some op =>
      have hp : s.part.isSome := h.part (.inl (by simp [hq]))
      have hpop : Steady { s with queue := none } := ⟨h.lock, fun _ ↦ hp, h.format⟩
      simp only [pstateOpCheck, hq]
      generalize hs' : (if op = .sync true then gcScan asides { s with queue := none }
        else { s with queue := none }) = s'
      have hs : Steady s' ∧ s'.part.isSome := by
        rw [← hs']
        split
        · exact ⟨hpop.gcScan asides, by rwa [Steady.part_gcScan]⟩
        · exact ⟨hpop, hp⟩
      split
      · -- another operation has the lock and will wake whoever waits
        exact hs.1.alive (by rwa [← hs.1.lock])
      · cases ends with
        | none => exact ih (hs.1.startOp hs.2 op)
        | some o => exact ih ((hs.1.startOp hs.2 op).finishOp o)

theorem syncUser (h : Alive s) (cur : Option Nat) (ts : Nat) :
    Alive (pstateSyncUser cur ts s).2 := by
  simp only [pstateSyncUser, bind_apply, get_apply]
  split
  · exact h
  · rename_i hif
    exact h.await (by simp_all [Option.isSome_iff_ne_none]) cur _

theorem syncObject (h : Alive s) (cur : Option Nat) (ts ko start n : Nat) :
    Alive (pstateSyncObject cur ts ko start n s).2 := by
  simp only [pstateSyncObject, bind_apply, get_apply]
  split
  · exact h
  · rename_i hnone
    have hp : s.part.isSome := by simpa [Option.isSome_iff_ne_none] using hnone
    split
    · exact h.await hp cur _
    · split
      · exact h
      · exact h.await hp cur _

theorem syncNow (h : Alive s) (cur : Option Nat) : Alive (pstateSyncNow cur s).2 := by
  simp only [pstateSyncNow, bind_apply, get_apply]
  split
  · exact h
  · rename_i hnone
    have hp : s.part.isSome := by simpa [Option.isSome_iff_ne_none] using hnone
    split
    · rename_i hlock
      obtain ⟨w, hw⟩ := suspendCur_eq cur s
      change Alive (suspendCur cur s)
      rw [hw]
      exact Steady.alive ⟨h.lock, h.part, h.format⟩ (h.lock ▸ hlock)
    · exact h.startOp hp (.sync false)

theorem step (h : Alive s) (e : Step) : Alive (e.run s) := by
  cases e with
  | swapin cur id =>
    rw [Step.run, pstateSwapin_state]
    exact h.awaitIf cur _
  | sync cur gc =>
    rw [Step.run, pstateSync_state]
    exact h.awaitIf cur _
  | syncUser cur ts => exact h.syncUser cur ts
  | syncObject cur ts ko start n => exact h.syncObject cur ts ko start n
  | syncNow cur => exact h.syncNow cur
  | periodic => exact h.awaitIf none (.sync false)
  | timestamp => exact ⟨⟨h.lock, h.part, h.format⟩, h.waits⟩
  | opCheck rounds => exact h.opCheck rounds
  | finish o => exact h.finishOp o
  | leave t =>
    refine ⟨⟨h.lock, h.part, h.format⟩, fun hw ↦ h.waits fun hs ↦ hw ?_⟩
    simp [Step.run, Aside.run, hs]

end Alive

theorem alive_of_reachable {s₀ s : Sched} (h₀ : Alive s₀) (h : Reachable s₀ s) : Alive s := by
  induction h with
  | init => exact h₀
  | step _ e ih => exact ih.step e

structure NoneStranded (s : Sched) : Prop where
  awaited : s.waiting ≠ [] → s.queue.isSome ∨ (s.running.isSome ∧
    ∀ o, (finishOp o s).waiting = [] ∨ (finishOp o s).queue.isSome)
  lock : s.locked = true → s.running.isSome

theorem Alive.noneStranded {s : Sched} (h : Alive s) : NoneStranded s where
  awaited hw := (h.waits hw).imp_right fun hr ↦ ⟨hr, Alive.finishOp_drains hr⟩
  lock hl := h.lock ▸ hl

theorem stuck_of_tooSmall {size : Nat} (hsmall : tooSmall size = true) (syncTs counter : Nat)
    (koSyncTs : Nat → Option Nat) :
    ∃ s, Reachable (booted (some size) false syncTs counter koSyncTs) s ∧ s.waiting = [1] ∧
      s.queue = none ∧ s.running = none ∧ s.locked = true := by
  refine ⟨_, (Reachable.init.step (.syncUser (some 1) 0)).step (.opCheck [([], none)]), ?_⟩
  simp [Step.run, pstateSyncUser, bind_apply, booted, await, suspendCur, pstateOpSchedule, queuePrio,
    Op.prio, pstateOpCheck, startOp, hsmall]

/-- No waiter is ever stranded exactly when the header was valid at boot or the
partition has room besides the header and the log. -/
theorem none_stranded_iff (part : Option Nat) (magicOk : Bool) (syncTs counter : Nat)
    (koSyncTs : Nat → Option Nat) :
    (∀ s, Reachable (booted part magicOk syncTs counter koSyncTs) s → NoneStranded s) ↔
      (magicOk = true ∨ ∀ size ∈ part, headerPages + logMax size < size / pgsize) := by
  have hfits (size : Nat) : tooSmall size = false ↔ headerPages + logMax size < size / pgsize := by
    simp [tooSmall]
  simp only [← hfits]
  constructor
  · intro h
    by_contra hbad
    obtain ⟨hmagic, hsize⟩ := not_or.mp hbad
    obtain ⟨size, rfl, hsmall⟩ : ∃ size, part = some size ∧ tooSmall size = true := by
      simpa using hsize
    obtain rfl : magicOk = false := by simpa using hmagic
    obtain ⟨s, hs, -, -, hrun, hlock⟩ := stuck_of_tooSmall hsmall syncTs counter koSyncTs
    simpa [hrun] using (h s hs).lock hlock
  · intro hfmt s hs
    have h₀ : Alive (booted part magicOk syncTs counter koSyncTs) :=
      ⟨⟨rfl, by simp [booted], hfmt⟩, by simp [booted]⟩
    exact (alive_of_reachable h₀ hs).noneStranded

/-- A partition of one page: the thread waits for ever. -/
theorem one_page_strands :
    ¬ ∀ s, Reachable (booted (some 4096) false 0 0 fun _ ↦ none) s → NoneStranded s := by
  intro h
  have hsmall : tooSmall 4096 = true := by decide
  obtain ⟨s, hs, hwait, hqueue, hrun, -⟩ := stuck_of_tooSmall hsmall 0 0 fun _ ↦ none
  simpa [hqueue, hrun] using (h s hs).awaited (by simp [hwait])

end HiStar.Pstate.OpQueue
