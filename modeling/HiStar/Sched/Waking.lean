import HiStar.Sched.Exact

namespace HiStar.Sched

open Lib Function Relation

variable {s s' : Sys} {t : Nat} {f : ThreadList → List Nat} {ws : List Nat} {x : SlotId}
  {k : Table} {head : Fin 512} {hit : SyncWaitSlot → Bool}

/-- The threads with a matching slot are runnable and have no slot in any table. All other
waiting threads still sleep and have all their slots. -/
structure WakesExactly (k : Table) (hit : SyncWaitSlot → Bool) (s s' : Sys) : Prop where
  slot : s'.slot = s.slot
  woken : ∀ t ∈ s.core, (∃ h i, (s.links k).On h (t, i) ∧ hit (s.slot (t, i)) = true) →
    (s'.thread t).thStatus = .runnable ∧ ∀ k' h i, ¬ (s'.links k').On h (t, i)
  kept : ∀ t ∈ s.core, (s.thread t).thSyncWaiting = true →
    (¬ ∃ h i, (s.links k).On h (t, i) ∧ hit (s.slot (t, i)) = true) →
    (s'.thread t).thStatus = .suspended ∧
      ∀ k' h i, (s'.links k').On h (t, i) ↔ (s.links k').On h (t, i)

theorem Waits.on_iff (hw : Waits s ws) {h : Fin 512} :
    (s.links k).On h x ↔ x.1 ∈ ws ∧ x ∈ s.queue k h x.1 := by
  rw [(hw.lists k).on_iff]
  constructor
  · intro hx
    obtain ⟨u, hu, hxu⟩ := List.mem_flatMap.mp hx
    rw [hw.mem_queue_fst hu hxu]
    exact ⟨hu, hxu⟩
  · rintro ⟨hx, hxq⟩
    exact List.mem_flatMap.mpr ⟨x.1, hx, hxq⟩

theorem Waits.hits_iff (hw : Waits s ws) (ht : t ∈ ws)
    (hhead : ∀ sw, hit sw = true → sw.head k = head) :
    (∃ h i, (s.links k).On h (t, i) ∧ hit (s.slot (t, i)) = true) ↔
      s.hits k head hit t = true := by
  constructor
  · rintro ⟨h, i, hon, hi⟩
    obtain ⟨-, hq⟩ := hw.on_iff.mp hon
    have hh : h = head := (Sys.mem_queue hq).2.2.symm.trans (hhead _ hi)
    exact List.any_eq_true.mpr ⟨(t, i), hh ▸ hq, hi⟩
  · intro hh
    obtain ⟨⟨u, i⟩, hx, hi⟩ := List.any_eq_true.mp hh
    have hu : u = t := hw.mem_queue_fst ht hx
    subst hu
    exact ⟨head, i, hw.on_iff.mpr ⟨ht, hx⟩, hi⟩

theorem Wakes.exactly (hc : Consistent s f ws) (h : Wakes k head hit [] ws s s')
    (hhead : ∀ sw, hit sw = true → sw.head k = head) : WakesExactly k hit s s' := by
  obtain ⟨f', hc'⟩ := h.sound
  rw [List.nil_append] at hc'
  refine ⟨h.slot, fun t ht hm ↦ ?_, fun t ht hs hm ↦ ?_⟩
  · have htw : t ∈ ws := by
      obtain ⟨h, i, hon, -⟩ := hm
      exact (hc.waits.on_iff.mp hon).1
    have hh := (hc.waits.hits_iff htw hhead).mp hm
    refine ⟨(h.woken t htw hh).1, fun k' h' i hon ↦ ?_⟩
    have hmem := (List.mem_filter.mp (hc'.waits.on_iff.mp hon).1).2
    simp [hh] at hmem
  · have htw : t ∈ ws := (hc.waits.mem t).mpr ⟨ht, hs⟩
    have hh : s.hits k head hit t = false := by
      by_contra hh
      exact hm ((hc.waits.hits_iff htw hhead).mpr (by simpa using hh))
    have hth := h.kept t fun _ ↦ hh
    refine ⟨by rw [hth]; exact (hc.fits t ht).waiting hs, fun k' h' i ↦ ?_⟩
    rw [hc'.waits.on_iff, hc.waits.on_iff, Sys.queue_congr h.slot (by rw [hth])]
    refine and_congr_left fun _ ↦ ?_
    rw [List.mem_filter]
    simp [hh]

theorem wakeWaiters_run (rounds : Nat) : wakeWaiters k head hit rounds s =
    Cursor.run k head hit rounds ⟨s, (s.links k).first head, none⟩ := rfl

theorem Consistent.start (hc : Consistent s f ws) :
    (s.links k).first head = (s.waiters ws k head).head? :=
  ((hc.waits.lists k).seg head).head

theorem wakeWaiters_loops (hs : Sound s) (ht : Tangled s k head hit) (rounds : Nat) :
    (wakeWaiters k head hit rounds s).1 = .error .loops := by
  obtain ⟨f, ws, hc⟩ := hs
  have hc₀ : Consistent s f ([] ++ ws) := hc
  obtain ⟨s', y, p, hr, hst⟩ := (rounds_scan hc₀ .fresh).1 (hc.waits.catches_iff.mpr ht)
  rw [wakeWaiters_run, hc.start]
  exact rounds_loop hr hst.loops rounds

theorem wakeWaiters_ends (hs : Sound s) (ht : ¬ Tangled s k head hit)
    (hhead : ∀ sw, hit sw = true → sw.head k = head) :
    ∃ rounds s', wakeWaiters k head hit rounds s = (.ok (), s') ∧ WakesExactly k hit s s' := by
  obtain ⟨f, ws, hc⟩ := hs
  have hc₀ : Consistent s f ([] ++ ws) := hc
  obtain ⟨s', prev, hr, hw⟩ := (rounds_scan hc₀ .fresh).2 fun h ↦ ht (hc.waits.catches_iff.mp h)
  obtain ⟨n, hn⟩ := rounds_end hr rfl
  refine ⟨n, s', ?_, hw.exactly hc hhead⟩
  rw [wakeWaiters_run, hc.start]
  exact hn

theorem wakeWaiters_exact_iff (hs : Sound s) (hhead : ∀ sw, hit sw = true → sw.head k = head) :
    (∃ rounds s', wakeWaiters k head hit rounds s = (.ok (), s') ∧ WakesExactly k hit s s') ↔
      ¬ Tangled s k head hit := by
  refine ⟨?_, fun h ↦ wakeWaiters_ends hs h hhead⟩
  rintro ⟨rounds, s', hr, -⟩ ht
  have hl := wakeWaiters_loops hs ht rounds
  rw [hr] at hl
  cases hl

theorem addrHit_head (segId offset : UInt64) (sw : SyncWaitSlot)
    (h : addrHit segId offset sw = true) : sw.head .addr = syncAddrHead segId offset := by
  simp only [addrHit, Bool.and_eq_true, decide_eq_true_eq] at h
  rw [SyncWaitSlot.head, h.1, h.2]

theorem cobjHit_head (seg : CobjRef) (sw : SyncWaitSlot) (h : cobjHit seg sw = true) :
    sw.head .cobj = syncCobjHead seg := by
  simp only [cobjHit, Bool.and_eq_true, decide_eq_true_eq] at h
  rw [SyncWaitSlot.head, syncCobjHead, syncCobjHead, h.1, h.2]

theorem syncWakeupAddr_eq (a : Nat) (segId offset : UInt64) (ht : s.curThread = some t) :
    ∃ s₁, Elsewhere s s₁ ∧ ∀ rounds, syncWakeupAddr rounds (.ok a) (.ok (segId, offset)) s =
      wakeWaiters .addr (syncAddrHead segId offset) (addrHit segId offset) rounds s₁ := by
  have hcur : curThreadOf s = (.ok t, s) := by simp only [curThreadOf, Exec.read, ht]
  have hload : Wp (threadLoadAs (.ok a) t) s (fun _ s' ↦ ∃ a pins, s' = s.loadAs t a pins)
      fun _ _ ↦ False :=
    (threadLoadAs_wp (.ok a) t s).mono (fun _ _ h ↦ h) fun e _ h ↦ by cases h.2
  obtain ⟨_, s₁, hl, a', pins, rfl⟩ := hload.exists_ok fun _ _ h ↦ h
  refine ⟨_, .loadAs s t a' pins, fun rounds ↦ ?_⟩
  unfold syncWakeupAddr
  rw [bind_eq_of_ok hcur, bind_eq_of_ok hl]
  rfl

theorem Elsewhere.tangled_iff (h : Elsewhere s s') :
    Tangled s' k head hit ↔ Tangled s k head hit := by
  unfold Tangled
  rw [h.still k, h.slot]

theorem Elsewhere.wakesExactly_iff {s₁ : Sys} (h : Elsewhere s s₁) :
    WakesExactly k hit s₁ s' ↔ WakesExactly k hit s s' := by
  constructor
  · rintro ⟨h1, h2, h3⟩
    rw [h.core, h.still k, h.slot] at h2 h3
    refine ⟨h1.trans h.slot, h2, fun t ht hs hm ↦ ?_⟩
    have h3' := h3 t ht ((h.thread t).thSyncWaiting.trans hs) hm
    exact ⟨h3'.1, fun k' h' i ↦ by rw [← h.still k']; exact h3'.2 k' h' i⟩
  · rintro ⟨h1, h2, h3⟩
    refine ⟨h1.trans h.slot.symm, ?_, ?_⟩ <;> rw [h.core, h.still k, h.slot]
    · exact h2
    · intro t ht hs hm
      have h3' := h3 t ht ((h.thread t).thSyncWaiting.symm.trans hs) hm
      exact ⟨h3'.1, fun k' h' i ↦ by rw [h.still k']; exact h3'.2 k' h' i⟩

/-- A wakeup ends, and wakes exactly the threads that wait for the address or the segment, unless
its list is tangled. Then it never ends. -/
theorem wakeup_exact_iff_untangled (hr : Reached s) :
    (∀ t a segId offset, s.curThread = some t →
      ((∃ rounds s', syncWakeupAddr rounds (.ok a) (.ok (segId, offset)) s = (.ok (), s') ∧
          WakesExactly .addr (addrHit segId offset) s s') ↔
        ¬ Tangled s .addr (syncAddrHead segId offset) (addrHit segId offset))) ∧
    ∀ seg, (∃ rounds s', syncWakeupSegment rounds seg s = (.ok (), s') ∧
        WakesExactly .cobj (cobjHit seg) s s') ↔
      ¬ Tangled s .cobj (syncCobjHead seg) (cobjHit seg) := by
  refine ⟨fun t a segId offset ht ↦ ?_, fun seg ↦ wakeWaiters_exact_iff hr.sound (cobjHit_head seg)⟩
  obtain ⟨s₁, he, hrun⟩ := syncWakeupAddr_eq a segId offset ht
  have hs₁ : Sound s₁ := by
    obtain ⟨f, ws, hc⟩ := hr.sound
    exact ⟨f, ws, hc.elsewhere he⟩
  have hiff := wakeWaiters_exact_iff hs₁ (addrHit_head segId offset)
  rw [he.tangled_iff] at hiff
  rw [← hiff]
  refine exists_congr fun rounds ↦ exists_congr fun s' ↦ ?_
  rw [hrun rounds, he.wakesExactly_iff]

def giveSlots (t : Nat) (s : Sys) : Sys := s.setThread t fun th ↦ { th with thMultiSlots := 1 }

def waitAt (offset : UInt64) : WaitFor :=
  ⟨0, 0, .ok (), .ok (), 0, .ok (7, offset), .ok ()⟩

def sleepsOn (offsets : List UInt64) (s : Sys) : Sys :=
  (syncWait (.ok 100) 0 (offsets.map waitAt) 1000 s).2

/-- Thread 2 waits at offset 4096 of a segment, then thread 1 at offsets 0 and 4096. Thread 3 runs. -/
def twoSleepers : Sys :=
  startThread 3 (sleepsOn [0, 4096] (giveSlots 1 (startThread 1 (sleepsOn [4096]
    (startThread 2 bootSys)))))

theorem Reached.giveSlots (hr : Reached s) (t : Nat) : Reached (giveSlots t s) := by
  refine hr.step (.elsewhere ⟨rfl, rfl, fun k ↦ by cases k <;> rfl, rfl, rfl, fun u ↦ ?_⟩)
  by_cases hu : u = t
  · rw [hu, Sched.giveSlots, Sys.setThread_self]
    exact ⟨rfl, rfl, rfl, rfl, rfl, rfl, rfl, fun _ h ↦ h⟩
  · rw [Sched.giveSlots, Sys.setThread_ne _ _ hu]
    exact .refl _

theorem Reached.sleepsOn (hr : Reached s) (hcur : s.curThread = some t) (ht : t ∈ s.core)
    (hst : (s.thread t).thStatus = .runnable) (offsets : List UInt64) :
    Reached (sleepsOn offsets s) := by
  refine hr.step (.syncWait fun u hu ↦ ?_)
  cases hcur.symm.trans hu
  exact ⟨ht, hst⟩

theorem oneSleeper_reached : Reached (sleepsOn [4096] (startThread 2 bootSys)) :=
  startThread_reached.sleepsOn (t := 2)
    (by decide +kernel) (by decide +kernel) (by decide +kernel) [4096]

theorem twoSleepers_reached : Reached twoSleepers :=
  (((oneSleeper_reached.startThread (by decide +kernel) (by decide +kernel)).giveSlots 1).sleepsOn
    (t := 1) (by decide +kernel) (by decide +kernel) (by decide +kernel) [0, 4096]).startThread
    (by decide +kernel) (by decide +kernel)

theorem twoSleepers_tangled :
    Tangled twoSleepers .addr (syncAddrHead 7 4096) (addrHit 7 4096) := by
  refine ⟨[], (1, 0), [(1, 1)], (2, 0), [], ?_, ?_, ?_, ?_, ?_, ⟨(1, 1), ?_, ?_⟩, ?_⟩ <;>
    decide +kernel

/-- The wakeup at offset 4096 wakes thread 1, whose slots are next to each other on the list, then
thread 2, and then it never ends. -/
theorem wakeup_never_ends : Reached twoSleepers ∧ twoSleepers.curThread = some 3 ∧
    ∀ rounds, (syncWakeupAddr rounds (.ok 100) (.ok (7, 4096)) twoSleepers).1 = .error .loops := by
  have hcur : twoSleepers.curThread = some 3 := by decide +kernel
  refine ⟨twoSleepers_reached, hcur, fun rounds ↦ ?_⟩
  obtain ⟨s₁, he, hrun⟩ := syncWakeupAddr_eq 100 7 4096 hcur
  rw [hrun rounds]
  obtain ⟨f, ws, hc⟩ := twoSleepers_reached.sound
  exact wakeWaiters_loops ⟨f, ws, hc.elsewhere he⟩ (he.tangled_iff.mpr twoSleepers_tangled) rounds

theorem one_sleeper_woken : ∃ rounds s', syncWakeupAddr rounds (.ok 100) (.ok (7, 4096))
    (startThread 3 (sleepsOn [4096] (startThread 2 bootSys))) = (.ok (), s') ∧
      WakesExactly .addr (addrHit 7 4096)
        (startThread 3 (sleepsOn [4096] (startThread 2 bootSys))) s' := by
  have hr : Reached (startThread 3 (sleepsOn [4096] (startThread 2 bootSys))) :=
    oneSleeper_reached.startThread (by decide +kernel) (by decide +kernel)
  refine ((wakeup_exact_iff_untangled hr).1 3 100 7 4096 (by decide +kernel)).mpr ?_
  rintro ⟨l₁, x, m, y, l₂, hseg, hm, hl₁, hyx, hrest⟩
  have hs : (((startThread 3 (sleepsOn [4096] (startThread 2 bootSys))).links .addr)).Seg
      (.inl (syncAddrHead 7 4096)) [(2, 0)] := by
    decide +kernel
  have hlen := congrArg List.length (hseg.unique hs)
  simp at hlen
  omega

end HiStar.Sched
