import HiStar.Sched.Wait

namespace HiStar.Sched

open Lib Function

variable {s s' : Sys} {t u : Nat} {f : ThreadList → List Nat} {ws : List Nat}
  {x y : SlotId} {k : Table} {head : Fin 512} {hit : SyncWaitSlot → Bool}

/-- What the rest of the kernel does to a thread: it counts references and pins of its own, changes
its address space, its wait slots and its parents, and charges it for the time it has run. -/
structure SameFlags (th th' : Thread) : Prop where
  thStatus : th'.thStatus = th.thStatus
  thPinned : th'.thPinned = th.thPinned
  thSchedJoined : th'.thSchedJoined = th.thSchedJoined
  thSyncWaiting : th'.thSyncWaiting = th.thSyncWaiting
  thLinked : th'.thLinked = th.thLinked
  thSchedTickets : th'.thSchedTickets = th.thSchedTickets
  teWaitSlots : th'.teWaitSlots = th.teWaitSlots
  pins : th.thPinned = true → 0 < th.koPin → 0 < th'.koPin

structure Elsewhere (s s' : Sys) : Prop where
  core : s'.core = s.core
  slot : s'.slot = s.slot
  still : Still s s'
  thLink : s'.thLink = s.thLink
  globalTickets : s'.globalTickets = s.globalTickets
  thread : ∀ t, SameFlags (s.thread t) (s'.thread t)

theorem SameFlags.refl (th : Thread) : SameFlags th th :=
  ⟨rfl, rfl, rfl, rfl, rfl, rfl, rfl, fun _ h ↦ h⟩

theorem Consistent.elsewhere (hc : Consistent s f ws) (he : Elsewhere s s') :
    Consistent s' f ws := by
  refine ⟨⟨he.thLink ▸ hc.base.lists, fun t ↦ ?_, ?_, fun t ht hp ↦ ?_⟩, ?_, fun t ht ↦ ?_,
    fun q t ht ↦ ?_⟩
  · rw [hc.base.linked, he.core, (he.thread t).thLinked]
  · rw [he.core, he.globalTickets, hc.base.tickets]
    refine Finset.sum_congr rfl fun t _ ↦ ?_
    unfold Thread.share
    rw [(he.thread t).thSchedJoined, (he.thread t).thSchedTickets]
  · rw [he.core] at ht
    rw [(he.thread t).thPinned] at hp
    exact (he.thread t).pins hp (hc.base.pins t ht hp)
  · exact hc.waits.congr he.core he.slot he.still (fun t _ ↦ (he.thread t).thSyncWaiting)
      fun t _ ↦ (he.thread t).teWaitSlots
  · have h := hc.fits t (he.core ▸ ht)
    obtain ⟨h1, h2, h3, h4, h5, -⟩ := he.thread t
    constructor
    · rw [h5, h1, h.linked]
    · rw [h2, h1, h.pinned]
    · rw [h3, h1, h.joined]
    · rw [h4, h1]
      exact h.waiting
  · rw [(he.thread t).thStatus]
    exact hc.place q t ht

theorem Elsewhere.curThread (s : Sys) (c : Option Nat) : Elsewhere s { s with curThread := c } :=
  ⟨rfl, rfl, fun k ↦ by cases k <;> rfl, rfl, rfl, fun _ ↦ .refl _⟩

theorem Elsewhere.loadAs (s : Sys) (t : Nat) (a : Option Nat) (pins : Nat → Nat) :
    Elsewhere s (s.loadAs t a pins) := by
  refine ⟨rfl, rfl, fun k ↦ by cases k <;> rfl, rfl, rfl, fun u ↦ ?_⟩
  by_cases hu : u = t
  · rw [hu, Sys.loadAs_self]
    exact ⟨rfl, rfl, rfl, rfl, rfl, rfl, rfl, fun _ h ↦ h⟩
  · rw [Sys.loadAs_ne s a pins hu]
    exact .refl _

theorem globalPassUpdate_wp (hc : Consistent s f ws) (n : BitVec 64) :
    Wp (globalPassUpdate n) s (fun _ s' ↦ Consistent s' f ws) fun _ _ ↦ False :=
  hc.elsewhere ⟨rfl, rfl, fun k ↦ by cases k <;> rfl, rfl, rfl, fun _ ↦ .refl _⟩

structure Closed (V : SlotId → Prop) (k : Table) (s : Sys) (ws : List Nat) : Prop where
  queued : ∀ h, ∀ x ∈ s.waiters ws k h, V x
  next : ∀ x, V x → ∀ y, (s.links k).next x = some y → V y
  core : ∀ x, V x → (s.slot x).swT ∈ s.core

theorem Waits.next_mem (hw : Waits s ws) {h : Fin 512} (hx : x ∈ s.waiters ws k h)
    (hy : (s.links k).next x = some y) : y ∈ s.waiters ws k h := by
  obtain ⟨l, l', hl⟩ := List.append_of_mem hx
  have hseg := (hw.lists k).seg h
  rw [hl] at hseg ⊢
  rw [hseg.next_eq] at hy
  exact List.mem_append_right l (List.mem_cons_of_mem x (List.mem_of_mem_head? hy))

theorem Waits.closed (hw : Waits s ws) (k : Table) :
    Closed (fun x ↦ ∃ h, x ∈ s.waiters ws k h) k s ws := by
  refine ⟨fun h x hx ↦ ⟨h, hx⟩, fun x ⟨h, hx⟩ y hy ↦ ⟨h, hw.next_mem hx hy⟩, ?_⟩
  rintro x ⟨h, hx⟩
  obtain ⟨hws, hte, -⟩ := hw.mem_waiters hx
  rw [(hw.slots _ hws x hte).2]
  exact ((hw.mem _).mp hws).1

theorem Closed.released {V : SlotId → Prop} (h : Closed V k s ws) (hw : Waits s ws)
    (hw' : Waits s' (ws.erase t)) (hf : Frame t s s') (hr : Released ws t s s') :
    Closed V k s' (ws.erase t) := by
  have hne : ∀ u ∈ ws.erase t, u ≠ t := fun u hu ↦ (hw.nodup.mem_erase_iff.mp hu).1
  have hqueue : ∀ u ∈ ws.erase t, ∀ h, s'.queue k h u = s.queue k h u := fun u hu h ↦
    Sys.queue_congr hf.slot (by rw [hf.others u (hne u hu)]) k h
  have hsub : ∀ h, ∀ x ∈ s'.waiters (ws.erase t) k h, x ∈ s.waiters ws k h := by
    intro h x hx
    obtain ⟨u, hu, hx⟩ := List.mem_flatMap.mp hx
    rw [hqueue u hu] at hx
    exact List.mem_flatMap.mpr ⟨u, List.mem_of_mem_erase hu, hx⟩
  refine ⟨fun h' x hx ↦ h.queued h' x (hsub h' x hx), fun x hx y hy ↦ ?_, fun x hx ↦ ?_⟩
  · by_cases hq' : ∃ h', x ∈ s'.waiters (ws.erase t) k h'
    · obtain ⟨h', hq'⟩ := hq'
      exact h.queued h' y (hsub h' y (hw'.next_mem hq' hy))
    · by_cases hq : ∃ h', x ∈ s.waiters ws k h'
      · obtain ⟨h', hq⟩ := hq
        obtain ⟨u, hu, hxu⟩ := List.mem_flatMap.mp hq
        have hut : u = t := by
          by_contra hut
          have hu' : u ∈ ws.erase t := hw.nodup.mem_erase_iff.mpr ⟨hut, hu⟩
          exact hq' ⟨h', List.mem_flatMap.mpr ⟨u, hu', by rwa [hqueue u hu']⟩⟩
        subst hut
        obtain ⟨w₁, w₂, hws⟩ := List.append_of_mem hu
        obtain ⟨hxu, hxh⟩ := List.mem_filter.mp hxu
        obtain ⟨hte, hl⟩ := List.mem_filter.mp (List.mem_reverse.mp hxu)
        rw [hr.own w₁ w₂ hws k x hte hl] at hy
        refine h.queued ((s.slot x).head k) y ?_
        rw [hws, Sys.waiters_append, Sys.waiters_cons]
        exact List.mem_append_right _ (List.mem_append_right _ (List.mem_of_mem_head? hy))
      · rw [hr.other k x fun h' hx' ↦ hq ⟨h', hx'⟩] at hy
        exact h.next x hx y hy
  · rw [hf.slot, hf.core]
    exact h.core x hx

variable {rounds : Nat}

theorem wakeLoop_wp {V : SlotId → Prop} {sw prev : Option SlotId} (hc : Consistent s f ws)
    (hV : Closed V k s ws) (hsw : ∀ x, sw = some x → V x) (hprev : ∀ x, prev = some x → V x) :
    Wp (wakeLoop k head hit rounds sw prev) s (fun _ s' ↦ Sound s')
      fun _ s' ↦ Sound s' := by
  induction rounds generalizing s f ws sw prev with
  | zero => cases sw <;> exact ⟨f, ws, hc⟩
  | succ rounds ih =>
    cases sw with
    | none => exact ⟨f, ws, hc⟩
    | some x =>
      refine wp_get ?_
      split
      · have ht := hV.core x (hsw x rfl)
        refine Wp.bind ((((threadSetRunnable_wp hc.base ht).and
          (threadSetRunnable_consistent hc ht))).mono (fun _ s' h ↦ ?_) fun _ _ hf ↦ hf.1.elim)
        obtain ⟨hset, hc'⟩ := h
        have hV' := hV.released hc.waits hc'.waits hset.frame (hset.forgets.waits ws hc.waits).2
        refine wp_get (ih hc' hV' (fun y hy ↦ ?_) hprev)
        cases prev with
        | none =>
          have hfirst := ((hc'.waits.lists k).seg head).head
          exact hV'.queued head y (List.mem_of_mem_head? (hfirst.symm.trans hy))
        | some p => exact hV'.next p (hprev p rfl) y hy
      · refine ih hc hV (fun y hy ↦ hV.next x (hsw x rfl) y hy) ?_
        rintro _ ⟨⟩
        exact hsw x rfl

theorem wakeWaiters_wp (hc : Consistent s f ws) :
    Wp (wakeWaiters k head hit rounds) s (fun _ s' ↦ Sound s')
      fun _ s' ↦ Sound s' := by
  refine wp_get (wakeLoop_wp hc (hc.waits.closed k) (fun x hx ↦ ?_) (by rintro _ ⟨⟩))
  have hfirst := ((hc.waits.lists k).seg head).head
  exact ⟨head, List.mem_of_mem_head? (hfirst.symm.trans hx)⟩

theorem syncWakeupAddr_wp {as : Except Errno Nat}
    {inverted : Except Errno (UInt64 × UInt64)} (hc : Consistent s f ws) :
    Wp (syncWakeupAddr rounds as inverted) s (fun _ s' ↦ Sound s')
      fun _ s' ↦ Sound s' := by
  refine wp_curThreadOf (fun t _ ↦ ?_) fun _ ↦ ⟨f, ws, hc⟩
  refine Wp.bind ((threadLoadAs_wp as t s).mono ?_ ?_)
  · rintro _ _ ⟨a, pins, rfl⟩
    have hc' := hc.elsewhere (.loadAs s t a pins)
    refine Wp.bind ?_
    cases inverted with
    | error e => exact ⟨f, ws, hc'⟩
    | ok r => exact wakeWaiters_wp hc'
  · rintro _ _ ⟨rfl, -⟩
    exact ⟨f, ws, hc⟩

theorem Base.next_on (hb : Base s f) {q : ThreadList} (ht : t ∈ f q) (hn : s.thLink.next t = some u) :
    u ≠ t ∧ u ∈ f q := by
  obtain ⟨l, l', hl⟩ := List.append_of_mem ht
  have hseg := hb.lists.seg q
  have hnd := hb.lists.nodup q
  rw [hl] at hseg hnd
  have hu : u ∈ l' := List.mem_of_mem_head? (hseg.next_eq.symm.trans hn)
  refine ⟨?_, hl ▸ List.mem_append_right l (List.mem_cons_of_mem t hu)⟩
  rintro rfl
  exact (List.nodup_cons.mp (List.nodup_append.mp hnd).2.1).1 hu

theorem wakeupTimerFrom_wp {nowNsec : UInt64} {c : Option Nat}
    (hc : Consistent s f ws) (hon : ∀ t, c = some t → ∃ q, t ∈ f q) :
    Wp (wakeupTimerFrom nowNsec rounds c) s (fun _ s' ↦ Sound s')
      fun _ s' ↦ Sound s' := by
  induction rounds generalizing s f ws c with
  | zero => cases c <;> exact ⟨f, ws, hc⟩
  | succ rounds ih =>
    cases c with
    | none => exact ⟨f, ws, hc⟩
    | some t =>
      obtain ⟨q, hq⟩ := hon t rfl
      refine wp_get (wp_threadOf (Wp.bind (Wp.when (fun _ ↦ ?_) fun _ ↦ ?_)))
      · have ht := ((hc.base.linked t).mp ⟨q, hq⟩).1
        refine (threadSetRunnable_consistent hc ht).mono (fun _ s' hc' ↦ ?_) fun _ _ hf ↦ hf.elim
        refine ih hc' fun u hu ↦ ?_
        obtain ⟨hne, hu⟩ := hc.base.next_on hq hu
        exact ⟨q, hc.mem_relist_without.mpr (.inr ⟨hne, hu⟩)⟩
      · exact ih hc fun u hu ↦ ⟨q, (hc.base.next_on hq hu).2⟩

theorem syncWakeupTimer_wp {nowNsec : UInt64} (hc : Consistent s f ws) :
    Wp (syncWakeupTimer rounds nowNsec) s (fun _ s' ↦ Sound s')
      fun _ s' ↦ Sound s' := by
  refine wp_get (wakeupTimerFrom_wp hc fun t ht ↦ ⟨.syncTimeWaiting, ?_⟩)
  have hfirst := (hc.base.lists.seg .syncTimeWaiting).head
  exact List.mem_of_mem_head? (hfirst.symm.trans ht)

theorem minPassFrom_mem {c min r : Option Nat} (hb : Base s f)
    (hr : minPassFrom s rounds c min = .ok r) (hon : ∀ t, c = some t → t ∈ f .runnable)
    (hmin : ∀ t, min = some t → t ∈ f .runnable) : ∀ t, r = some t → t ∈ f .runnable := by
  induction rounds generalizing c min with
  | zero =>
    cases c with
    | none =>
      cases hr
      exact hmin
    | some t => cases hr
  | succ rounds ih =>
    cases c with
    | none =>
      cases hr
      exact hmin
    | some t =>
      have ht := hon t rfl
      refine ih hr (fun u hu ↦ (hb.next_on ht hu).2) fun u hu ↦ ?_
      cases min with
      | none =>
        cases hu
        exact ht
      | some m =>
        rw [minPassStep] at hu
        split at hu <;> cases hu
        · exact ht
        · exact hmin _ rfl

theorem schedulePick_wp {parents : Nat → ParentLookup × ParentLookup}
    (hc : Consistent s f ws) : Wp (schedulePick parents rounds) s
      (fun _ s' ↦ Sound s')
      fun e s' ↦ e ≠ .panic ∧ Sound s' := by
  induction rounds generalizing s f ws parents with
  | zero => exact ⟨by rintro ⟨⟩, f, ws, hc⟩
  | succ rounds ih =>
    have hloops : ∀ n c m, ∀ e, minPassFrom s n c m = .error e → e = .loops := by
      intro n
      induction n with
      | zero => rintro (_ | _) m e ⟨⟩; rfl
      | succ n ihn =>
        rintro (_ | t) m e he
        · cases he
        · exact ihn _ _ e he
    refine wp_read (fun min hmin ↦ wp_modify ?_) fun e he ↦ ⟨?_, f, ws, hc⟩
    · have hc₁ := hc.elsewhere (.curThread s min)
      cases min with
      | none => exact ⟨f, ws, hc₁⟩
      | some t =>
        have ht : t ∈ f .runnable := by
          refine minPassFrom_mem hc.base hmin (fun u hu ↦ ?_) (by rintro _ ⟨⟩) t rfl
          have hfirst := (hc.base.lists.seg .runnable).head
          exact List.mem_of_mem_head? (hfirst.symm.trans hu)
        have hcore := ((hc.base.linked t).mp ⟨_, ht⟩).1
        have hst := (hc.place .runnable t ht).mp rfl
        refine wp_threadOf (wp_require_of (decide_eq_true hst) (Wp.bind ?_))
        refine (threadCheckSchedParents_wp hc₁ hcore).mono ?_ fun _ _ hf ↦ hf.elim
        rintro _ s₂ ⟨f₂, ws₂, hc₂⟩
        refine wp_get ?_
        cases s₂.curThread with
        | none => exact ih hc₂
        | some u =>
          dsimp only
          split
          · exact (globalPassUpdate_wp hc₂ _).mono (fun _ _ h ↦ ⟨_, _, h⟩) fun _ _ hf ↦ hf.elim
          · exact ih hc₂
    · rw [hloops _ _ _ e he]
      rintro ⟨⟩

end HiStar.Sched
