import HiStar.Sched.Loops

namespace HiStar.Sched

open Lib Function

variable {s s' : Sys} {t : Nat} {f : ThreadList → List Nat} {ws : List Nat}

/-- One operation on the threads. Operations that are followed for too few rounds stand for a
moment in the middle of their loops. `schedule` is `sync_wakeup_timer`, then what the
periodic tasks do, then the rest. -/
inductive Step (s : Sys) : Sys → Prop
  | threadAlloc {kobject : Except Errno Nat} {segment : Except Errno Unit}
      (hfree : ∀ t, kobject = .ok t → t ∉ s.core) : Step s (threadAlloc kobject segment s).2
  | threadSetRunnable {t : Nat} (ht : t ∈ s.core) : Step s (threadSetRunnable t s).2
  | threadSuspend {t : Nat} {waitq : ThreadList} (ht : t ∈ s.core) (hq : waitq ≠ .runnable) :
      Step s (threadSuspend t waitq s).2
  | threadHalt {t : Nat} (ht : t ∈ s.core) : Step s (threadHalt t s).2
  | threadSwapin {t : Nat} (hfree : t ∉ s.core) (th : Thread) : Step s (kobjectSwapin t th s).2
  /-- In `kobject_gc` a thread has no pins. -/
  | threadGc {t : Nat} (ht : t ∈ s.core) (hpin : (s.thread t).koPin = 0)
      (hok : (threadSwapout t s).1 = .ok ()) : Step s (threadSwapout t s).2
  | threadSwapout {t : Nat} (ht : t ∈ s.core) (hok : (kobjectSwapout t s).1 = .ok ()) :
      Step s (kobjectSwapout t s).2
  /-- The caller is the current thread, which `thread_run` has found to be runnable. -/
  | syncWait {as : Except Errno Nat} {nowNsec wakeupNsec : UInt64} {wfs : List WaitFor}
      (hrun : ∀ t, s.curThread = some t → t ∈ s.core ∧ (s.thread t).thStatus = .runnable) :
      Step s (syncWait as nowNsec wfs wakeupNsec s).2
  | syncWakeupAddr {rounds : Nat} {as : Except Errno Nat}
      {inverted : Except Errno (UInt64 × UInt64)} : Step s (syncWakeupAddr rounds as inverted s).2
  | syncWakeupSegment {rounds : Nat} {seg : CobjRef} : Step s (syncWakeupSegment rounds seg s).2
  | syncWakeupTimer {rounds : Nat} {nowNsec : UInt64} : Step s (syncWakeupTimer rounds nowNsec s).2
  | threadOnDecref {p₀ p₁ : ParentLookup} {t : Nat} {parentCt : UInt64} (ht : t ∈ s.core) :
      Step s (threadOnDecref p₀ p₁ t parentCt s).2
  | schedulePick {rounds : Nat} {parents : Nat → ParentLookup × ParentLookup} :
      Step s (schedulePick parents rounds s).2
  | elsewhere {s' : Sys} (he : Elsewhere s s') : Step s s'

structure Boot (s : Sys) : Prop where
  core : s.core = ∅
  thLink : ∀ q, s.thLink.first q = none
  links : ∀ k h, (s.links k).first h = none
  globalTickets : s.globalTickets = 0

inductive Reached : Sys → Prop
  | boot {s : Sys} (h : Boot s) : Reached s
  | step {s s' : Sys} (hr : Reached s) (hs : Step s s') : Reached s'

theorem Boot.consistent (h : Boot s) : Consistent s (fun _ ↦ []) [] := by
  refine ⟨⟨⟨h.thLink, fun _ ↦ List.nodup_nil, fun _ _ x hx ↦ absurd hx List.not_mem_nil⟩,
    fun t ↦ by simp [h.core], by rw [h.core, h.globalTickets]; rfl, fun t ht ↦ by simp [h.core] at ht⟩,
    ⟨List.nodup_nil, fun t ↦ by simp [h.core], fun t ht ↦ absurd ht List.not_mem_nil, fun k ↦
      ⟨h.links k, fun _ ↦ List.nodup_nil, fun _ _ x hx ↦ absurd hx List.not_mem_nil⟩⟩,
    fun t ht ↦ by simp [h.core] at ht, fun q t ht ↦ absurd ht List.not_mem_nil⟩

theorem Wp.outcome {α : Type} {c : Kern α} {P : Sys → Prop}
    (h : Wp c s (fun _ s' ↦ P s') fun _ s' ↦ P s') : P (c s).2 := by
  unfold Wp at h
  rcases hc : c s with ⟨_ | _, s'⟩ <;> rw [hc] at h <;> exact h

theorem Wp.outcome_ok {α : Type} {c : Kern α} {P : Sys → Prop} {E : Errno → Sys → Prop} {a : α}
    (h : Wp c s (fun _ s' ↦ P s') E) (hok : (c s).1 = .ok a) : P (c s).2 := by
  unfold Wp at h
  rcases hc : c s with ⟨_ | _, s'⟩ <;> rw [hc] at h hok
  · cases hok
  · exact h

theorem Step.sound (hc : Consistent s f ws) (hs : Step s s') : Sound s' := by
  cases hs with
  | threadAlloc hfree => exact Wp.outcome (threadAlloc_wp hc hfree)
  | threadSetRunnable ht =>
    exact Wp.outcome (P := Sound) ((threadSetRunnable_consistent hc ht).mono
      (fun _ _ h ↦ ⟨_, _, h⟩) fun _ _ hf ↦ hf.elim)
  | threadSuspend ht hq =>
    exact Wp.outcome (P := Sound) ((threadSuspend_consistent hc ht hq).mono
      (fun _ _ h ↦ ⟨_, _, h⟩) fun _ _ hf ↦ hf.elim)
  | threadHalt ht =>
    exact Wp.outcome (P := Sound) ((threadHalt_consistent hc ht).mono
      (fun _ _ h ↦ ⟨_, _, h⟩) fun _ _ hf ↦ hf.elim)
  | threadSwapin hfree th =>
    exact Wp.outcome ((kobjectSwapin_wp hc hfree th).mono (fun _ _ h ↦ h) fun _ _ hf ↦ hf.elim)
  | threadGc ht hpin hok =>
    obtain ⟨h, -⟩ := Wp.outcome_ok (threadSwapout_wp hc ht hpin) hok
    exact ⟨_, _, h⟩
  | threadSwapout ht hok => exact Wp.outcome_ok (kobjectSwapout_wp hc ht) hok
  | syncWait hrun => exact Wp.outcome (syncWait_wp hc hrun)
  | syncWakeupAddr => exact Wp.outcome (syncWakeupAddr_wp hc)
  | syncWakeupSegment => exact Wp.outcome (wakeWaiters_wp hc)
  | syncWakeupTimer => exact Wp.outcome (syncWakeupTimer_wp hc)
  | threadOnDecref ht =>
    exact Wp.outcome ((threadOnDecref_wp hc ht).mono (fun _ _ h ↦ h) fun _ _ hf ↦ hf.elim)
  | schedulePick =>
    exact Wp.outcome ((schedulePick_wp hc).mono (fun _ _ h ↦ h) fun _ _ h ↦ h.2)
  | elsewhere he => exact ⟨f, ws, hc.elsewhere he⟩

theorem Reached.sound (h : Reached s) : Sound s := by
  induction h with
  | boot h => exact ⟨_, _, h.consistent⟩
  | step _ hs ih =>
    obtain ⟨f, ws, hc⟩ := ih
    exact hs.sound hc

/-- A runnable or suspended thread is on exactly one list and pinned, any other one is on no list
and not pinned. The runnable threads are those that `global_tickets` counts, and a thread
with wait slots in a table is suspended. -/
theorem scheduling_state_consistent (hr : Reached s) :
    (∀ t ∈ s.core,
      ((s.thread t).thStatus.active = true →
        (∃! q, s.thLink.On q t) ∧ (s.thread t).thPinned = true ∧ 0 < (s.thread t).koPin) ∧
      ((s.thread t).thStatus.active = false →
        (∀ q, ¬ s.thLink.On q t) ∧ (s.thread t).thPinned = false) ∧
      ((s.thread t).thSchedJoined = true ↔ (s.thread t).thStatus = .runnable) ∧
      ((∃ k h i, (s.links k).On h (t, i)) → (s.thread t).thStatus = .suspended)) ∧
    s.globalTickets = ∑ t ∈ s.core with (s.thread t).thStatus = .runnable,
      (s.thread t).thSchedTickets.setWidth 64 := by
  obtain ⟨f, ws, hc⟩ := hr.sound
  have hon : ∀ q t, s.thLink.On q t ↔ t ∈ f q := fun q t ↦ hc.base.lists.on_iff
  refine ⟨fun t ht ↦ ⟨fun ha ↦ ?_, fun ha ↦ ?_, ?_, ?_⟩, ?_⟩
  · have hfit := hc.fits t ht
    obtain ⟨q, hq⟩ := (hc.base.linked t).mpr ⟨ht, hfit.linked.trans ha⟩
    have hpin := hfit.pinned.trans ha
    refine ⟨⟨q, (hon q t).mpr hq, fun q' hq' ↦ ?_⟩, hpin, hc.base.pins t ht hpin⟩
    exact hc.base.lists.disjoint q' q t ((hon q' t).mp hq') hq
  · have hfit := hc.fits t ht
    refine ⟨fun q hq ↦ ?_, hfit.pinned.trans ha⟩
    have hl := ((hc.base.linked t).mp ⟨q, (hon q t).mp hq⟩).2
    rw [hfit.linked, ha] at hl
    cases hl
  · rw [(hc.fits t ht).joined]
    exact decide_eq_true_iff
  · rintro ⟨k, h, i, hi⟩
    have hmem := (hc.waits.mem_waiters ((hc.waits.lists k).on_iff.mp hi)).1
    exact (hc.fits t ht).waiting ((hc.waits.mem t).mp hmem).2
  · rw [hc.base.tickets, Finset.sum_filter]
    refine Finset.sum_congr rfl fun t ht ↦ ?_
    unfold Thread.share
    rw [(hc.fits t ht).joined]
    simp

def bootSys : Sys where
  core := ∅
  thread := fun _ ↦ newThread
  slot := fun _ ↦ ⟨0, 0, 0, ⟨0, 0⟩⟩
  thLink := ⟨fun _ ↦ none, fun _ ↦ none, fun t ↦ .inr t⟩
  swAddrLink := ⟨fun _ ↦ none, fun _ ↦ none, fun x ↦ .inr x⟩
  swCobjLink := ⟨fun _ ↦ none, fun _ ↦ none, fun x ↦ .inr x⟩
  asPin := fun _ ↦ 0
  curThread := none
  globalTickets := 0
  globalPass := 0
  lastTsc := 0
  tsc := fun _ ↦ 0

def startThread (t : Nat) (s : Sys) : Sys :=
  (schedulePick (fun _ ↦ (.holds, .holds)) 9
    (threadSetRunnable t (threadAlloc (.ok t) (.ok ()) s).2).2).2

theorem bootSys_boot : Boot bootSys :=
  ⟨rfl, fun _ ↦ rfl, fun k _ ↦ by cases k <;> rfl, rfl⟩

theorem Reached.startThread (hr : Reached s) (hfree : t ∉ s.core)
    (ht : t ∈ (threadAlloc (.ok t) (.ok ()) s).2.core) : Reached (startThread t s) := by
  have halloc : Reached (threadAlloc (.ok t) (.ok ()) s).2 :=
    hr.step (.threadAlloc (by rintro _ ⟨⟩; exact hfree))
  exact (halloc.step (.threadSetRunnable ht)).step .schedulePick

theorem startThread_reached : Reached (startThread 2 bootSys) :=
  (Reached.boot bootSys_boot).startThread (by decide) (by decide +kernel)

/-- The first thread sleeps while a second one runs. -/
def sleeperSys : Sys := startThread 3 (threadSuspend 2 (.waiting 0) (startThread 2 bootSys)).2

theorem sleeperSys_reached : Reached sleeperSys :=
  (startThread_reached.step (.threadSuspend (by decide +kernel) (by decide))).startThread
    (by decide +kernel) (by decide +kernel)

theorem sleeper_not_counted :
    (sleeperSys.thread 2).thStatus = .suspended ∧ (sleeperSys.thread 3).thStatus = .runnable ∧
    (∀ t ∈ sleeperSys.core, (∃! q, sleeperSys.thLink.On q t) ∧
      (sleeperSys.thread t).thPinned = true ∧ 0 < (sleeperSys.thread t).koPin) ∧
    sleeperSys.globalTickets = ∑ t ∈ sleeperSys.core with (sleeperSys.thread t).thStatus = .runnable,
      (sleeperSys.thread t).thSchedTickets.setWidth 64 := by
  have hactive : ∀ t ∈ sleeperSys.core, (sleeperSys.thread t).thStatus.active = true := by
    decide +kernel
  obtain ⟨hthreads, htickets⟩ := scheduling_state_consistent sleeperSys_reached
  exact ⟨by decide +kernel, by decide +kernel, fun t ht ↦ (hthreads t ht).1 (hactive t ht), htickets⟩

end HiStar.Sched
