import HiStar.Sched.Status

namespace HiStar.Sched

open Lib Function

variable {s s' : Sys} {t u : Nat} {f : ThreadList → List Nat} {ws : List Nat} {th : Thread}

def Sys.enter (s : Sys) (t : Nat) (th : Thread) : Sys :=
  { s with core := insert t s.core, thread := update s.thread t th }

theorem Sys.enter_self (s : Sys) (t : Nat) (th : Thread) : (s.enter t th).thread t = th :=
  update_self ..

theorem Sys.enter_ne (s : Sys) (th : Thread) (h : u ≠ t) : (s.enter t th).thread u = s.thread u :=
  update_of_ne h ..

theorem Sys.enter_setThread (s : Sys) (t : Nat) (th : Thread) (g : Thread → Thread) :
    (s.enter t th).setThread t g = s.enter t (g th) := by
  simp [Sys.enter, Sys.setThread]

theorem Base.enter (h : Base s f) (ht : t ∉ s.core) (hl : th.thLinked = false)
    (hj : th.thSchedJoined = false) (hp : th.thPinned = false) : Base (s.enter t th) f := by
  have hne : ∀ u ∈ s.core, u ≠ t := by
    rintro u hu rfl
    exact ht hu
  refine ⟨h.lists, fun u ↦ ?_, ?_, fun u hu ↦ ?_⟩
  · rw [h.linked]
    by_cases hu : u = t
    · rw [hu, Sys.enter_self, hl]
      simp [ht]
    · rw [Sys.enter_ne s th hu]
      exact and_congr_left fun _ ↦ by simp [Sys.enter, hu]
  · have hrest : ∑ u ∈ s.core, ((s.enter t th).thread u).share = ∑ u ∈ s.core, (s.thread u).share :=
      Finset.sum_congr rfl fun u hu ↦ by rw [Sys.enter_ne s th (hne u hu)]
    have hzero : th.share = 0 := by
      unfold Thread.share
      rw [hj]
      rfl
    rw [show (s.enter t th).core = insert t s.core from rfl, Finset.sum_insert ht, Sys.enter_self,
      hzero, zero_add, hrest]
    exact h.tickets
  · by_cases hut : u = t
    · rw [hut, Sys.enter_self, hp]
      rintro ⟨⟩
    · rw [Sys.enter_ne s th hut]
      exact h.pins u (Finset.mem_of_mem_insert_of_ne hu hut)

theorem Waits.enter (hw : Waits s ws) (ht : t ∉ s.core) (hs : th.thSyncWaiting = false) :
    Waits (s.enter t th) ws := by
  have hne : ∀ u ∈ ws, u ≠ t := by
    rintro u hu rfl
    exact ht ((hw.mem u).mp hu).1
  refine ⟨hw.nodup, fun u ↦ ?_, fun u hu x hx ↦ ?_, fun k ↦ ?_⟩
  · rw [hw.mem]
    by_cases hu : u = t
    · rw [hu, Sys.enter_self, hs]
      simp [ht]
    · rw [Sys.enter_ne s th hu]
      exact and_congr_left fun _ ↦ by simp [Sys.enter, hu]
  · rw [Sys.enter_ne s th (hne u hu)] at hx
    exact hw.slots u hu x hx
  · have hslot : (s.enter t th).slot = s.slot := rfl
    rw [Sys.waiters_congr hslot fun u hu ↦ by rw [Sys.enter_ne s th (hne u hu)]]
    exact hw.lists k

theorem Consistent.entered (hc : Consistent s f ws) (hb : Base s' f) (hw : Waits s' ws)
    (ht : t ∉ s.core) (hf : Frame t (s.enter t th) s') (hfit : Fits (s'.thread t)) :
    Consistent s' f ws := by
  have hnone : ∀ q, t ∉ f q := fun q hq ↦ ht ((hc.base.linked t).mp ⟨q, hq⟩).1
  refine hc.of_others (t := t) hb hw (fun u hu hut ↦ ?_) (fun u hut ↦ ?_) (fun _ ↦ hfit)
    (fun _ _ _ hu ↦ hu) fun q hq ↦ absurd hq (hnone q)
  · rw [hf.core] at hu
    exact Finset.mem_of_mem_insert_of_ne hu hut
  · rw [hf.others u hut, Sys.enter_ne s th hut]

theorem runEntered_wp (hc : Consistent s f ws) (ht : t ∉ s.core) (hl : th.thLinked = false)
    (hj : th.thSchedJoined = false) (hp : th.thPinned = false) (hs : th.thSyncWaiting = false)
    (hst : th.thStatus = .runnable) :
    Wp (do threadLink t .runnable; threadSchedAdjust t true; threadPin t : Kern Unit)
      (s.enter t th) (fun _ s' ↦ Consistent s' (relist t .runnable f) ws) fun _ _ ↦ False := by
  have hb := hc.base.enter ht hl hj hp
  have hcore : t ∈ (s.enter t th).core := Finset.mem_insert_self ..
  have hself := s.enter_self t th
  refine Wp.seq (threadLink_wp hb hcore (by rw [hself, hl]) .runnable) fun _ s₁ h₁ ↦ ?_
  have ht₁ : t ∈ s₁.core := h₁.frame.core ▸ hcore
  refine Wp.seq (threadSchedAdjust_wp h₁.base ht₁ true) fun _ s₂ h₂ ↦ ?_
  have ht₂ : t ∈ s₂.core := h₂.frame.core ▸ ht₁
  refine (threadPin_wp h₂.base ht₂).imp fun _ s₃ h₃ ↦ ?_
  obtain ⟨p, hp'⟩ := h₂.thread
  obtain ⟨n, hn⟩ := h₃.thread
  have hth : s₃.thread t = { th with
      thLinked := true, thSchedJoined := true, thSched := p, thPinned := true, koPin := n } := by
    rw [hn, hp', h₁.thread, hself]
  have hadj := (h₁.trans h₂).trans h₃
  have hw := (hc.waits.enter ht hs).of_frame hadj.frame hadj.still (by rw [hth, hself])
    (by rw [hth, hself])
  have hnone : ∀ q, t ∉ f q := fun q hq ↦ ht ((hc.base.linked t).mp ⟨q, hq⟩).1
  refine hc.of_others (t := t) hadj.base hw (fun u hu hut ↦ ?_) (fun u hut ↦ ?_) (fun _ ↦ ?_)
    (fun q u hut hu ↦ ?_) fun q hq ↦ ?_
  · rw [hadj.frame.core] at hu
    exact Finset.mem_of_mem_insert_of_ne hu hut
  · rw [hadj.frame.others u hut, Sys.enter_ne s th hut]
  · rw [hth]
    exact ⟨by rw [hst]; rfl, by rw [hst]; rfl, by simp [hst], by simp [hs]⟩
  · exact (mem_relist.mp hu).resolve_left fun h ↦ hut h.1
  · rw [hth]
    exact iff_of_true ((mem_relist.mp hq).resolve_right (hnone q)).2 hst

theorem threadSwapin_wp (hc : Consistent s f ws) (ht : t ∉ s.core) (th : Thread) :
    Wp (threadSwapin t) (s.enter t th) (fun _ s' ↦ Sound s')
      fun _ _ ↦ False := by
  refine wp_setThread (wp_threadOf ?_)
  rw [Sys.enter_setThread, Sys.enter_self]
  refine Wp.bind ?_
  have hrun : ∀ th₁ : Thread, th₁.thLinked = false → th₁.thSchedJoined = false →
      th₁.thPinned = false → th₁.thSyncWaiting = false → th₁.thStatus ≠ .suspended →
      Wp (threadOf t >>= fun th ↦ Exec.when (th.thStatus = .runnable)
        (do threadLink t .runnable; threadSchedAdjust t true; threadPin t : Kern Unit))
        (s.enter t th₁) (fun _ s' ↦ Sound s') fun _ _ ↦ False := by
    intro th₁ hl hj hp hs hst
    refine wp_threadOf ?_
    rw [Sys.enter_self]
    refine Wp.when (fun h ↦ ?_) fun h ↦ ?_
    · exact (runEntered_wp hc ht hl hj hp hs (of_decide_eq_true h)).imp fun _ s' h ↦ ⟨_, _, h⟩
    · have hnr : th₁.thStatus ≠ .runnable := of_decide_eq_false h
      refine ⟨f, ws, hc.entered (hc.base.enter ht hl hj hp) (hc.waits.enter ht hs) ht
        (.refl t _) ?_⟩
      rw [Sys.enter_self]
      exact ⟨by simp [hl, ThreadStatus.active, hnr, hst], by simp [hp, ThreadStatus.active, hnr, hst],
        by simp [hj, hnr], by simp [hs]⟩
  refine Wp.when (fun h ↦ ?_) fun h ↦ ?_
  · refine Wp.modify ?_
    rw [Sys.enter_setThread]
    exact hrun _ rfl rfl rfl rfl (by rintro ⟨⟩)
  · exact hrun _ rfl rfl rfl rfl (of_decide_eq_false h)

theorem kobjectSwapin_wp (hc : Consistent s f ws) (ht : t ∉ s.core) (th : Thread) :
    Wp (kobjectSwapin t th) s (fun _ s' ↦ Sound s') fun _ _ ↦ False :=
  wp_modify (threadSwapin_wp hc ht _)

theorem threadAlloc_wp {kobject : Except Errno Nat} {segment : Except Errno Unit}
    (hc : Consistent s f ws) (ht : ∀ t, kobject = .ok t → t ∉ s.core) :
    Wp (threadAlloc kobject segment) s (fun _ s' ↦ Sound s')
      fun _ s' ↦ Sound s' := by
  cases kobject with
  | error e => exact Wp.bind ⟨f, ws, hc⟩
  | ok t =>
    have ht' := ht t rfl
    refine Wp.bind (wp_modify (Wp.bind ?_))
    cases segment with
    | error e =>
      refine ⟨f, ws, hc.entered (hc.base.enter ht' rfl rfl rfl)
        (hc.waits.enter ht' rfl) ht' (Frame.refl t (s.enter t newThread)) ?_⟩
      show Fits ((s.enter t newThread).thread t)
      rw [Sys.enter_self]
      exact ⟨rfl, rfl, rfl, by rintro ⟨⟩⟩
    | ok u =>
      refine Wp.bind ((threadSwapin_wp hc ht' newThread).mono (fun _ s' h ↦ h) fun _ _ hf ↦ hf.elim)

theorem threadClearAs_wp (h : Base s f) (ht : t ∈ s.core) : Wp (threadClearAs t) s
    (fun _ s' ↦ Adjusts f t s s' fun th ↦ ∃ a, th = { s.thread t with thAs := a })
    fun e _ ↦ e = .panic := by
  refine wp_threadOf ?_
  cases has : (s.thread t).thAs with
  | none => exact .refl h ⟨none, by rw [← has]⟩
  | some as =>
    refine wp_get (wp_require (fun _ ↦ wp_modify (Wp.modify ?_)) fun _ ↦ rfl)
    have hs : Base { s with asPin := update s.asPin as (s.asPin as - 1) } f :=
      ⟨h.lists, h.linked, h.tickets, h.pins⟩
    have h' := hs.setThread ht (g := fun th ↦ { th with thAs := none }) rfl rfl (h.pins t ht)
    exact ⟨h'.base, ⟨rfl, rfl, h'.frame.others⟩, fun _ ↦ rfl, none, h'.thread⟩

theorem threadSwapout_wp (hc : Consistent s f ws) (ht : t ∈ s.core)
    (hpin : (s.thread t).koPin = 0) : Wp (threadSwapout t) s
      (fun _ s' ↦ Consistent s' (without t f) (ws.erase t) ∧ s'.core = s.core ∧
        (s'.thread t).thLinked = false ∧ (s'.thread t).thSchedJoined = false ∧
        (s'.thread t).thSyncWaiting = false) fun e _ ↦ e = .panic := by
  have hnp : (s.thread t).thPinned = false := by
    by_contra h
    exact absurd (hc.base.pins t ht (by simpa using h)) (by omega)
  have hna : (s.thread t).thStatus.active = false := (hc.fits t ht).pinned ▸ hnp
  refine Wp.bind ((threadUnpin_wp hc.base ht).mono (fun _ s₁ h₁ ↦ ?_) fun _ _ hf ↦ hf.elim)
  have ht₁ : t ∈ s₁.core := h₁.frame.core ▸ ht
  refine detach_wp h₁.base ht₁ fun s₂ h₂ ↦ ?_
  have ht₂ : t ∈ s₂.core := h₂.frame.core ▸ ht₁
  refine (threadClearAs_wp h₂.base ht₂).imp fun _ s₃ h₃ ↦ ?_
  obtain ⟨n, hn⟩ := h₁.thread
  obtain ⟨p, l, hl⟩ := h₂.thread
  obtain ⟨a, ha⟩ := h₃.thread
  have hth : s₃.thread t = { s.thread t with
      thPinned := false, koPin := n, thSchedJoined := false, thSched := p, thLinked := false,
      thSyncWaiting := false, teWaitSlots := l, thAs := a } := by
    rw [ha, hl, hn]
  have hforget : Forgets t s s₃ := h₂.forgets.congr h₁.frame h₁.still (by rw [hn]) (by rw [hn])
    h₃.frame h₃.still (by rw [ha]) (by rw [ha])
  have hframe := (h₁.frame.trans h₂.frame).trans h₃.frame
  refine ⟨hc.of_others (t := t) h₃.base (hforget.waits ws hc.waits).1
    (fun u hu _ ↦ hframe.core ▸ hu) hframe.others (fun _ ↦ ?_)
    (fun q u _ hu ↦ (hc.base.mem_without.mp hu).2)
    (fun q hq ↦ absurd rfl (hc.base.mem_without.mp hq).1), hframe.core, by rw [hth], by rw [hth],
    by rw [hth]⟩
  rw [hth]
  refine ⟨hna.symm, hna.symm, ?_, by rintro ⟨⟩⟩
  by_contra h
  have hrun : (s.thread t).thStatus = .runnable := by simpa using h
  rw [hrun] at hna
  cases hna

theorem Consistent.dismiss (hc : Consistent s f ws) (ht : t ∈ s.core)
    (hl : (s.thread t).thLinked = false) (hj : (s.thread t).thSchedJoined = false)
    (hs : (s.thread t).thSyncWaiting = false) :
    Consistent { s with core := s.core.erase t } f ws := by
  have hiff : ∀ {b : Thread → Bool}, b (s.thread t) = false → ∀ u,
      (u ∈ s.core ∧ b (s.thread u) = true ↔ u ∈ s.core.erase t ∧ b (s.thread u) = true) := by
    intro b hb u
    rw [Finset.mem_erase]
    constructor
    · rintro ⟨hu, hbu⟩
      refine ⟨⟨?_, hu⟩, hbu⟩
      rintro rfl
      rw [hb] at hbu
      cases hbu
    · rintro ⟨⟨-, hu⟩, hbu⟩
      exact ⟨hu, hbu⟩
  have hw := hc.waits
  refine ⟨⟨hc.base.lists, fun u ↦ (hc.base.linked u).trans (hiff hl u), ?_,
    fun u hu ↦ hc.base.pins u (Finset.mem_of_mem_erase hu)⟩,
    ⟨hw.nodup, fun u ↦ (hw.mem u).trans (hiff hs u), hw.slots, hw.lists⟩,
    fun u hu ↦ hc.fits u (Finset.mem_of_mem_erase hu), hc.place⟩
  have hzero : (s.thread t).share = 0 := by
    unfold Thread.share
    rw [hj]
    rfl
  refine hc.base.tickets.trans ?_
  rw [← Finset.add_sum_erase s.core _ ht, hzero, zero_add]

theorem kobjectSwapout_wp (hc : Consistent s f ws) (ht : t ∈ s.core) : Wp (kobjectSwapout t) s
    (fun _ s' ↦ Sound s') fun e _ ↦ e = .panic := by
  refine wp_threadOf (wp_require (fun hp ↦ ?_) fun _ ↦ rfl)
  refine Wp.seq (threadSwapout_wp hc ht (of_decide_eq_true hp)) fun _ s' h ↦ ?_
  obtain ⟨hc', hcore, hl, hj, hs⟩ := h
  exact Wp.modify ⟨_, _, hc'.dismiss (hcore ▸ ht) hl hj hs⟩

theorem checkParents_wp (hc : Consistent s f ws) (ht : t ∈ s.core) (ps : List ParentLookup) :
    Wp (checkParents t ps) s (fun _ s' ↦ Sound s') fun _ _ ↦ False := by
  induction ps with
  | nil => exact (threadHalt_consistent hc ht).imp fun _ _ h ↦ ⟨_, _, h⟩
  | cons p ps ih =>
    cases p with
    | holds => exact ⟨f, ws, hc⟩
    | fails => exact ih
    | restart waitq =>
      cases waitq with
      | none => exact ⟨f, ws, hc⟩
      | some n =>
        exact (threadSuspend_consistent hc ht (q := .waiting n) (by rintro ⟨⟩)).imp
          fun _ _ h ↦ ⟨_, _, h⟩

theorem threadCheckSchedParents_wp {p₀ p₁ : ParentLookup} (hc : Consistent s f ws)
    (ht : t ∈ s.core) : Wp (threadCheckSchedParents p₀ p₁ t) s
      (fun _ s' ↦ Sound s') fun _ _ ↦ False := by
  refine wp_get ?_
  split
  · exact ⟨f, ws, hc⟩
  · exact checkParents_wp hc ht _

theorem threadOnDecref_wp {p₀ p₁ : ParentLookup} {parentCt : UInt64} (hc : Consistent s f ws)
    (ht : t ∈ s.core) : Wp (threadOnDecref p₀ p₁ t parentCt) s
      (fun _ s' ↦ Sound s') fun _ _ ↦ False := by
  refine wp_threadOf ?_
  split
  · exact (threadHalt_consistent hc ht).imp fun _ _ h ↦ ⟨_, _, h⟩
  · split
    · exact threadCheckSchedParents_wp hc ht
    · exact ⟨f, ws, hc⟩

end HiStar.Sched
