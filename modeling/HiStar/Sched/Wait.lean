import HiStar.Sched.Swap

namespace HiStar.Sched

open Lib Function

variable {s s' s₁ s₂ : Sys} {t u i : Nat} {f : ThreadList → List Nat} {ws : List Nat}
  {x : SlotId} {k : Table}

theorem wp_curThreadOf {α : Type} {c : Nat → Kern α} {Q : α → Sys → Prop}
    {E : Errno → Sys → Prop} (h : ∀ t, s.curThread = some t → Wp (c t) s Q E)
    (hp : s.curThread = none → E .panic s) : Wp (curThreadOf >>= c) s Q E := by
  cases hc : s.curThread with
  | none =>
    have he : curThreadOf s = (.error .panic, s) := by
      simp only [curThreadOf, Exec.read, hc]
    exact Wp.bind (Wp.of_error he (hp hc))
  | some t =>
    have he : curThreadOf s = (.ok t, s) := by
      simp only [curThreadOf, Exec.read, hc]
    exact Wp.bind (Wp.of_ok he (h t hc))

theorem Waits.mem_waiters (hw : Waits s ws) {h : Fin 512} (hx : x ∈ s.waiters ws k h) :
    x.1 ∈ ws ∧ x ∈ (s.thread x.1).teWaitSlots ∧ (s.slot x).listed k = true ∧
      (s.slot x).head k = h := by
  obtain ⟨u, hu, hxu⟩ := List.mem_flatMap.mp hx
  obtain ⟨hxu, hh⟩ := List.mem_filter.mp hxu
  obtain ⟨hte, hl⟩ := List.mem_filter.mp (List.mem_reverse.mp hxu)
  obtain ⟨rfl, -⟩ := hw.slots u hu x hte
  exact ⟨hu, hte, hl, of_decide_eq_true hh⟩

theorem foldl_insertSlot (xs : List SlotId) (s : Sys) : xs.foldl Sys.insertSlot s =
    { s with
      swAddrLink := xs.foldl (fun L x ↦ L.insertHead ((s.slot x).head .addr) x) s.swAddrLink
      swCobjLink := (xs.filter fun x ↦ (s.slot x).listed .cobj).foldl
        (fun L x ↦ L.insertHead ((s.slot x).head .cobj) x) s.swCobjLink } := by
  induction xs generalizing s with
  | nil => rfl
  | cons x xs ih =>
    rw [List.foldl_cons, ih, List.filter_cons]
    by_cases hx : (s.slot x).swCobj.object = 0
    · simp [Sys.insertSlot, SyncWaitSlot.listed, SyncWaitSlot.head, hx]
    · simp [Sys.insertSlot, SyncWaitSlot.listed, SyncWaitSlot.head, hx]

theorem insertSlots_links (xs : List SlotId) (s : Sys) (k : Table) :
    (xs.foldl Sys.insertSlot s).links k = (xs.filter fun x ↦ (s.slot x).listed k).foldl
      (fun L x ↦ L.insertHead ((s.slot x).head k) x) (s.links k) := by
  rw [foldl_insertSlot]
  cases k with
  | addr => simp [Sys.links, SyncWaitSlot.listed]
  | cobj => rfl

/-- A running thread prepares its wait slots, of which it has filled those below `i`. -/
structure Preparing (t i : Nat) (s s' : Sys) : Prop where
  core : s'.core = s.core
  still : Still s s'
  thLink : s'.thLink = s.thLink
  tickets : s'.globalTickets = s.globalTickets
  others : ∀ u, u ≠ t → s'.thread u = s.thread u
  slot : ∀ x : SlotId, x.1 ≠ t → s'.slot x = s.slot x
  thread : ∃ a l, s'.thread t = { s.thread t with thAs := a, teWaitSlots := l }
  nodup : (s'.thread t).teWaitSlots.Nodup
  filled : ∀ x ∈ (s'.thread t).teWaitSlots, x.1 = t ∧ x.2 < i ∧ (s'.slot x).swT = t

theorem Preparing.consistent (hp : Preparing t i s s') (hc : Consistent s f ws)
    (ht : t ∈ s.core) (hs : (s.thread t).thSyncWaiting = false) : Consistent s' f ws := by
  obtain ⟨a, l, hth⟩ := hp.thread
  have hsame : ∀ {β : Type} (g : Thread → β) (u : Nat),
      g { s.thread t with thAs := a, teWaitSlots := l } = g (s.thread t) →
      g (s'.thread u) = g (s.thread u) := by
    intro β g u hg
    by_cases hu : u = t
    · rw [hu, hth]
      exact hg
    · rw [hp.others u hu]
  have hne : ∀ u ∈ ws, u ≠ t := by
    rintro u hu rfl
    rw [((hc.waits.mem u).mp hu).2] at hs
    cases hs
  have hbase : Base s' f := by
    refine ⟨hp.thLink ▸ hc.base.lists, fun u ↦ ?_, ?_, fun u hu ↦ ?_⟩
    · rw [hc.base.linked, hp.core, hsame Thread.thLinked u rfl]
    · rw [hp.core, hp.tickets, hc.base.tickets]
      exact Finset.sum_congr rfl fun u _ ↦ (hsame Thread.share u rfl).symm
    · rw [hsame Thread.thPinned u rfl, hsame Thread.koPin u rfl]
      exact hc.base.pins u (hp.core ▸ hu)
  have hqueue : ∀ u ∈ ws, ∀ k h, s'.queue k h u = s.queue k h u := by
    intro u hu k h
    have hsl : ∀ x ∈ (s.thread u).teWaitSlots, s'.slot x = s.slot x := fun x hx ↦
      hp.slot x ((hc.waits.slots u hu x hx).1 ▸ hne u hu)
    have hlisted : ((s.thread u).teWaitSlots.filter fun x ↦ (s'.slot x).listed k) =
        (s.thread u).teWaitSlots.filter fun x ↦ (s.slot x).listed k :=
      List.filter_congr fun x hx ↦ by rw [hsl x hx]
    unfold Sys.queue
    rw [hp.others u (hne u hu), hlisted]
    refine List.filter_congr fun x hx ↦ ?_
    rw [hsl x (List.mem_filter.mp (List.mem_reverse.mp hx)).1]
  have hwaits : Waits s' ws := by
    refine ⟨hc.waits.nodup, fun u ↦ ?_, fun u hu x hx ↦ ?_, fun k ↦ ?_⟩
    · rw [hc.waits.mem, hp.core, hsame Thread.thSyncWaiting u rfl]
    · rw [hp.others u (hne u hu)] at hx
      have hxu := hc.waits.slots u hu x hx
      rw [hp.slot x (hxu.1 ▸ hne u hu)]
      exact hxu
    · have hw : s'.waiters ws k = s.waiters ws k := by
        funext h
        exact List.flatMap_congr fun u hu ↦ hqueue u hu k h
      rw [hw, hp.still k]
      exact hc.waits.lists k
  refine hc.of_others (t := t) hbase hwaits (fun u hu _ ↦ hp.core ▸ hu) hp.others (fun _ ↦ ?_)
    (fun _ _ _ hu ↦ hu) fun q hq ↦ ?_
  · have h := hc.fits t ht
    rw [hth]
    exact ⟨h.linked, h.pinned, h.joined, h.waiting⟩
  · rw [hth]
    exact hc.place q t hq

theorem Sys.setThread_eq_self {g : Thread → Thread} (h : g (s.thread t) = s.thread t) :
    s.setThread t g = s := by
  unfold Sys.setThread
  rw [h, update_eq_self]

def Sys.loadAs (s : Sys) (t : Nat) (a : Option Nat) (pins : Nat → Nat) : Sys :=
  { s.setThread t (fun th ↦ { th with thAs := a }) with asPin := pins }

theorem Sys.loadAs_self (s : Sys) (t : Nat) (a : Option Nat) (pins : Nat → Nat) :
    (s.loadAs t a pins).thread t = { s.thread t with thAs := a } := update_self ..

theorem Sys.loadAs_ne (s : Sys) (a : Option Nat) (pins : Nat → Nat) (h : u ≠ t) :
    (s.loadAs t a pins).thread u = s.thread u := update_of_ne h ..

theorem threadLoadAs_wp (as : Except Errno Nat) (t : Nat) (s : Sys) : Wp (threadLoadAs as t) s
    (fun _ s' ↦ ∃ a pins, s' = s.loadAs t a pins) fun e s' ↦ s' = s ∧ as = .error e := by
  refine wp_threadOf ?_
  cases has : (s.thread t).thAs with
  | some a =>
    refine ⟨some a, s.asPin, ?_⟩
    unfold Sys.loadAs
    rw [Sys.setThread_eq_self (by rw [← has])]
  | none =>
    refine Wp.bind ?_
    cases as with
    | error e => exact ⟨rfl, rfl⟩
    | ok a => exact ⟨some a, _, rfl⟩

theorem Preparing.start (t : Nat) (s : Sys) (a : Option Nat) (pins : Nat → Nat) :
    Preparing t 0 s ((s.loadAs t a pins).setThread t fun th ↦ { th with teWaitSlots := [] }) := by
  have hth : ((s.loadAs t a pins).setThread t fun th ↦ { th with teWaitSlots := [] }).thread t =
      { s.thread t with thAs := a, teWaitSlots := [] } := by
    rw [Sys.setThread_self, Sys.loadAs_self]
  refine ⟨rfl, fun k ↦ by cases k <;> rfl, rfl, rfl, fun u hu ↦ ?_, fun _ _ ↦ rfl, ⟨a, [], hth⟩, ?_,
    ?_⟩
  · rw [Sys.setThread_ne _ _ hu, Sys.loadAs_ne s a pins hu]
  · rw [hth]
    exact List.nodup_nil
  · rw [hth]
    exact fun x hx ↦ absurd hx List.not_mem_nil

theorem Preparing.setSlot (hp : Preparing t i s s') (g : SyncWaitSlot → SyncWaitSlot) :
    Preparing t i s { s' with slot := update s'.slot (t, i) (g (s'.slot (t, i))) } := by
  refine ⟨hp.core, fun k ↦ hp.still k, hp.thLink, hp.tickets, hp.others, fun x hx ↦ ?_, hp.thread,
    hp.nodup, fun x hx ↦ ?_⟩
  · refine (update_of_ne ?_ ..).trans (hp.slot x hx)
    rintro rfl
    exact hx rfl
  · obtain ⟨h1, h2, h3⟩ := hp.filled x hx
    refine ⟨h1, h2, ?_⟩
    have hne : x ≠ (t, i) := by
      rintro rfl
      exact absurd h2 (lt_irrefl i)
    exact (congrArg SyncWaitSlot.swT (update_of_ne hne ..)).trans h3

def Sys.fill (s : Sys) (t i : Nat) : Sys :=
  { s.setThread t (fun th ↦ { th with teWaitSlots := (t, i) :: th.teWaitSlots }) with
    slot := update s.slot (t, i) { s.slot (t, i) with swT := t } }

theorem Sys.fill_self (s : Sys) (t i : Nat) : (s.fill t i).thread t =
    { s.thread t with teWaitSlots := (t, i) :: (s.thread t).teWaitSlots } := update_self ..

theorem Sys.fill_ne (s : Sys) (i : Nat) (h : u ≠ t) : (s.fill t i).thread u = s.thread u :=
  update_of_ne h ..

theorem Sys.fill_slot_ne (s : Sys) (h : x ≠ (t, i)) : (s.fill t i).slot x = s.slot x :=
  update_of_ne h ..

theorem Preparing.fill (hp : Preparing t i s s') : Preparing t (i + 1) s (s'.fill t i) := by
  obtain ⟨a, l, hth⟩ := hp.thread
  have hself : (s'.fill t i).thread t =
      { s.thread t with thAs := a, teWaitSlots := (t, i) :: l } := by
    rw [Sys.fill_self, hth]
  have hnd := hp.nodup
  have hfill := hp.filled
  rw [hth] at hnd hfill
  have hnew : (t, i) ∉ l := fun hm ↦ absurd (hfill _ hm).2.1 (lt_irrefl i)
  refine ⟨hp.core, fun k ↦ hp.still k, hp.thLink, hp.tickets, fun u hu ↦ ?_, fun x hx ↦ ?_,
    ⟨a, _, hself⟩, ?_, ?_⟩
  · rw [Sys.fill_ne s' i hu, hp.others u hu]
  · rw [Sys.fill_slot_ne s', hp.slot x hx]
    rintro rfl
    exact hx rfl
  · rw [hself]
    exact List.nodup_cons.mpr ⟨hnew, hnd⟩
  · rw [hself]
    intro x hx
    rcases List.mem_cons.mp hx with rfl | hx
    · refine ⟨rfl, Nat.lt_succ_self i, ?_⟩
      unfold Sys.fill
      simp
    · obtain ⟨h1, h2, h3⟩ := hfill x hx
      refine ⟨h1, Nat.lt_succ_of_lt h2, ?_⟩
      rw [Sys.fill_slot_ne s' fun he ↦ hnew (he ▸ hx), h3]

theorem syncWaitslotInit_wp (hp : Preparing t i s s') (w : WaitFor) :
    Wp (syncWaitslotInit w (t, i) t) s'
      (fun r s₁ ↦ if r then Preparing t (i + 1) s s₁ else Preparing t i s s₁)
      fun _ s₁ ↦ Preparing t i s s₁ := by
  unfold syncWaitslotInit
  refine Wp.bind ?_
  cases w.access with
  | error e => exact hp
  | ok _ =>
    show Wp (if w.current ≠ w.val then _ else _) s' _ _
    split
    · exact hp
    · refine Wp.bind ?_
      cases w.inverted with
      | error e => exact hp
      | ok r =>
        refine wp_modify ?_
        have hp₁ := hp.setSlot fun sw ↦ { sw with swSeg := r.1, swOffset := r.2 }
        split
        · refine wp_modify (Wp.bind ?_)
          have hp₂ := hp₁.setSlot fun sw ↦ { sw with swCobj := ⟨w.refct, r.1⟩ }
          cases w.segment with
          | error e => exact hp₂
          | ok _ => exact hp₂.fill
        · exact (hp₁.setSlot fun sw ↦ { sw with swCobj := ⟨0, 0⟩ }).fill

theorem initSlots_wp (hp : Preparing t i s s') (rest : List WaitFor) :
    Wp (initSlots t i rest) s' (fun _ s₁ ↦ ∃ n, Preparing t n s s₁)
      fun _ s₁ ↦ ∃ n, Preparing t n s s₁ := by
  induction rest generalizing i s' with
  | nil => exact ⟨i, hp⟩
  | cons w rest ih =>
    have hinit : Wp (do
        if ← syncWaitslotInit w (t, i) t then initSlots t (i + 1) rest else pure false : Kern Bool)
        s' (fun _ s₁ ↦ ∃ n, Preparing t n s s₁) fun _ s₁ ↦ ∃ n, Preparing t n s s₁ := by
      refine Wp.bind ((syncWaitslotInit_wp hp w).mono (fun r s₁ h ↦ ?_) fun _ _ h ↦ ⟨i, h⟩)
      cases r with
      | false => exact ⟨i, h⟩
      | true => exact ih h
    refine Wp.bind (Wp.when (fun _ ↦ ?_) fun _ ↦ hinit)
    cases w.page with
    | error e => exact ⟨i, hp⟩
    | ok _ => exact hinit

theorem Preparing.lists (hp : Preparing t i s s') (hc : Consistent s f ws) (ht : t ∈ s.core)
    (hs : (s.thread t).thSyncWaiting = false) (k : Table) :
    (((s'.thread t).teWaitSlots.foldl Sys.insertSlot s').links k).Lists
      fun h ↦ s'.queue k h t ++ s'.waiters ws k h := by
  have hw := (hp.consistent hc ht hs).waits
  have hnot : t ∉ ws := fun hm ↦ by
    rw [((hc.waits.mem t).mp hm).2] at hs
    cases hs
  rw [insertSlots_links]
  refine (hw.lists k).insertAll (hp.nodup.filter _) fun x hx h hm ↦ hnot ?_
  rw [← (hp.filled x (List.mem_of_mem_filter hx)).1]
  exact (hw.mem_waiters hm).1

theorem sleep_wp (hp : Preparing t i s s') (hc : Consistent s f ws) (ht : t ∈ s.core)
    (hs : (s.thread t).thSyncWaiting = false) (wakeupNsec : UInt64) :
    Wp (do
        let te ← threadOf t
        Exec.modify fun s ↦ te.teWaitSlots.foldl Sys.insertSlot s
        setThread t fun th ↦ { th with teWakeupNsec := wakeupNsec }
        threadSuspend t .syncTimeWaiting
        setThread t fun th ↦ { th with thSyncWaiting := true }
        pure true : Kern Bool) s'
      (fun _ s₁ ↦ Sound s₁) fun _ _ ↦ False := by
  have hc' := hp.consistent hc ht hs
  have ht' : t ∈ s'.core := hp.core ▸ ht
  have hs' : (s'.thread t).thSyncWaiting = false := by
    obtain ⟨a, l, hth⟩ := hp.thread
    rw [hth]
    exact hs
  have hlists := hp.lists hc ht hs
  refine wp_threadOf (wp_modify (wp_setThread ?_))
  generalize hs₁ : (s'.thread t).teWaitSlots.foldl Sys.insertSlot s' = s₁ at hlists
  have hrest : s₁.core = s'.core ∧ s₁.thread = s'.thread ∧ s₁.slot = s'.slot ∧
      s₁.thLink = s'.thLink ∧ s₁.globalTickets = s'.globalTickets := by
    rw [← hs₁, foldl_insertSlot]
    exact ⟨rfl, rfl, rfl, rfl, rfl⟩
  obtain ⟨hcore₁, hth₁, hslot₁, hlink₁, htick₁⟩ := hrest
  have ht₁ : t ∈ s₁.core := hcore₁ ▸ ht'
  have hb₁ : Base s₁ f := by
    have hb := hc'.base
    refine ⟨hlink₁ ▸ hb.lists, ?_, ?_, ?_⟩
    · rw [hcore₁, hth₁]
      exact hb.linked
    · rw [hcore₁, hth₁, htick₁]
      exact hb.tickets
    · rw [hcore₁, hth₁]
      exact hb.pins
  have h₂ := hb₁.setThread ht₁ (g := fun th ↦ { th with teWakeupNsec := wakeupNsec }) rfl rfl
    (hb₁.pins t ht₁)
  have ht₂ := h₂.frame.core.symm ▸ ht₁
  refine Wp.seq (threadSuspend_wp h₂.base ht₂ .syncTimeWaiting) fun _ s₃ h₃ ↦ ?_
  have ht₃ : t ∈ s₃.core := h₃.frame.core ▸ ht₂
  obtain ⟨hstill₃, hte₃⟩ := h₃.forgets.still (by
    rw [h₂.thread, hth₁]
    exact hs')
  have h₄ := h₃.base.setThread ht₃ (g := fun th ↦ { th with thSyncWaiting := true }) rfl rfl
    (h₃.base.pins t ht₃)
  have hothers : ∀ u, u ≠ t → (s₃.setThread t fun th ↦ { th with thSyncWaiting := true }).thread u =
      s'.thread u := fun u hu ↦ by
    rw [h₄.frame.others u hu, h₃.frame.others u hu, h₂.frame.others u hu, hth₁]
  have hcore : (s₃.setThread t fun th ↦ { th with thSyncWaiting := true }).core = s'.core := by
    rw [h₄.frame.core, h₃.frame.core, h₂.frame.core, hcore₁]
  have hslot : (s₃.setThread t fun th ↦ { th with thSyncWaiting := true }).slot = s'.slot := by
    rw [h₄.frame.slot, h₃.frame.slot, h₂.frame.slot, hslot₁]
  have hte : ((s₃.setThread t fun th ↦ { th with thSyncWaiting := true }).thread t).teWaitSlots =
      (s'.thread t).teWaitSlots := by
    rw [h₄.thread, hte₃, h₂.thread, hth₁]
  have hnot : t ∉ ws := fun hm ↦ by
    rw [((hc'.waits.mem t).mp hm).2] at hs'
    cases hs'
  have hne : ∀ u ∈ ws, u ≠ t := by
    rintro u hu rfl
    exact hnot hu
  have hwaits : Waits (s₃.setThread t fun th ↦ { th with thSyncWaiting := true }) (t :: ws) := by
    refine ⟨List.nodup_cons.mpr ⟨hnot, hc'.waits.nodup⟩, fun u ↦ ?_, fun u hu x hx ↦ ?_,
      fun k ↦ ?_⟩
    · by_cases hu : u = t
      · rw [hu, hcore, h₄.thread]
        simp [ht']
      · rw [hothers u hu, hcore, List.mem_cons, ← hc'.waits.mem]
        simp [hu]
    · rw [hslot]
      rcases List.mem_cons.mp hu with rfl | hu
      · rw [hte] at hx
        exact ⟨(hp.filled x hx).1, (hp.filled x hx).2.2⟩
      · rw [hothers u (hne u hu)] at hx
        exact hc'.waits.slots u hu x hx
    · have hlinks : (s₃.setThread t fun th ↦ { th with thSyncWaiting := true }).links k =
          s₁.links k := by
        rw [h₄.still k, hstill₃ k, h₂.still k]
      have hlist : (s₃.setThread t fun th ↦ { th with thSyncWaiting := true }).waiters (t :: ws) k =
          fun h ↦ s'.queue k h t ++ s'.waiters ws k h := by
        funext h
        rw [Sys.waiters_cons, Sys.queue_congr hslot hte]
        rw [Sys.waiters_congr hslot fun u hu ↦ by rw [hothers u (hne u hu)]]
      rw [hlinks, hlist]
      exact hlists k
  refine wp_modify ⟨relist t .syncTimeWaiting (without t f), t :: ws, ?_⟩
  refine hc'.of_others (t := t) h₄.base hwaits (fun u hu _ ↦ hcore ▸ hu) hothers (fun _ ↦ ?_)
    (fun q u hut hu ↦ ?_) fun q hq ↦ ?_
  · have hfit := h₃.fits
    rw [h₄.thread]
    exact ⟨hfit.linked, hfit.pinned, hfit.joined, fun _ ↦ h₃.status⟩
  · rcases hc'.mem_relist_without.mp hu with ⟨he, -⟩ | ⟨-, hu⟩
    · exact absurd he hut
    · exact hu
  · rw [h₄.thread]
    rcases hc'.mem_relist_without.mp hq with ⟨-, rfl⟩ | ⟨he, -⟩
    · exact iff_of_false (by rintro ⟨⟩) (by rw [h₃.status]; rintro ⟨⟩)
    · exact absurd rfl he

theorem syncWait_wp {as : Except Errno Nat} {nowNsec wakeupNsec : UInt64} {wfs : List WaitFor}
    (hc : Consistent s f ws)
    (hrun : ∀ t, s.curThread = some t → t ∈ s.core ∧ (s.thread t).thStatus = .runnable) :
    Wp (syncWait as nowNsec wfs wakeupNsec) s (fun _ s' ↦ Sound s')
      fun _ s' ↦ Sound s' := by
  refine wp_curThreadOf (fun t ht ↦ ?_) fun _ ↦ ⟨f, ws, hc⟩
  obtain ⟨hcore, hst⟩ := hrun t ht
  have hs : (s.thread t).thSyncWaiting = false := by
    by_contra h
    rw [(hc.fits t hcore).waiting (by simpa using h)] at hst
    cases hst
  split
  · exact ⟨f, ws, hc⟩
  · refine wp_threadOf (wp_require (fun _ ↦ ?_) fun _ ↦ ⟨f, ws, hc⟩)
    split
    · exact ⟨f, ws, hc⟩
    · refine Wp.bind ((threadLoadAs_wp as t s).mono ?_ ?_)
      · rintro _ _ ⟨a, pins, rfl⟩
        refine wp_setThread (Wp.bind ?_)
        refine (initSlots_wp (Preparing.start t s a pins) wfs).mono ?_ ?_
        · rintro r s' ⟨n, hp⟩
          cases r with
          | true =>
            rw [if_pos rfl]
            exact (sleep_wp hp hc hcore hs wakeupNsec).mono (fun _ _ h ↦ h) fun _ _ hf ↦ hf.elim
          | false => exact ⟨f, ws, hp.consistent hc hcore hs⟩
        · rintro _ s' ⟨n, hp⟩
          exact ⟨f, ws, hp.consistent hc hcore hs⟩
      · rintro _ _ ⟨rfl, -⟩
        exact ⟨f, ws, hc⟩

end HiStar.Sched
