import HiStar.Sched.Unlink

namespace HiStar.Sched

open Lib Function

variable {α : Type} {s s' : Sys} {t u : Nat} {f f' : ThreadList → List Nat} {ws ws' : List Nat}
  {th : Thread} {Q : α → Sys → Prop} {E : Errno → Sys → Prop}

def ThreadStatus.active (st : ThreadStatus) : Bool := st = .runnable ∨ st = .suspended

structure Fits (th : Thread) : Prop where
  linked : th.thLinked = th.thStatus.active
  pinned : th.thPinned = th.thStatus.active
  joined : th.thSchedJoined = decide (th.thStatus = .runnable)
  waiting : th.thSyncWaiting = true → th.thStatus = .suspended

structure Consistent (s : Sys) (f : ThreadList → List Nat) (ws : List Nat) : Prop where
  base : Base s f
  waits : Waits s ws
  fits : ∀ t ∈ s.core, Fits (s.thread t)
  place : ∀ q t, t ∈ f q → (q = .runnable ↔ (s.thread t).thStatus = .runnable)

def Sound (s : Sys) : Prop := ∃ f ws, Consistent s f ws

theorem Consistent.of_others (h : Consistent s f ws) (hb : Base s' f') (hw : Waits s' ws')
    (hcore : ∀ u ∈ s'.core, u ≠ t → u ∈ s.core) (hth : ∀ u, u ≠ t → s'.thread u = s.thread u)
    (hfit : t ∈ s'.core → Fits (s'.thread t)) (hother : ∀ q u, u ≠ t → u ∈ f' q → u ∈ f q)
    (hself : ∀ q, t ∈ f' q → (q = .runnable ↔ (s'.thread t).thStatus = .runnable)) :
    Consistent s' f' ws' := by
  refine ⟨hb, hw, fun u hu ↦ ?_, fun q u hu ↦ ?_⟩
  · by_cases hut : u = t
    · rw [hut] at hu ⊢
      exact hfit hu
    · rw [hth u hut]
      exact h.fits u (hcore u hu hut)
  · by_cases hut : u = t
    · rw [hut]
      exact hself q (hut ▸ hu)
    · rw [hth u hut]
      exact h.place q u (hother q u hut hu)

structure Detached (f : ThreadList → List Nat) (t : Nat) (s s' : Sys) : Prop where
  base : Base s' (without t f)
  frame : Frame t s s'
  forgets : Forgets t s s'
  thread : ∃ p l, s'.thread t =
    { s.thread t with
      thSchedJoined := false
      thSched := p
      thLinked := false
      thSyncWaiting := false
      teWaitSlots := l }

theorem detach_wp {c : Unit → Kern α} (h : Base s f) (ht : t ∈ s.core)
    (hc : ∀ s', Detached f t s s' → Wp (c ()) s' Q E) :
    Wp (threadSchedAdjust t false >>= fun _ ↦ threadUnlink t >>= c) s Q E := by
  refine Wp.bind ((threadSchedAdjust_wp h ht false).mono (fun _ s₁ h₁ ↦ ?_) fun _ _ hf ↦ hf.elim)
  obtain ⟨p, hp⟩ := h₁.thread
  have ht₁ : t ∈ s₁.core := h₁.frame.core ▸ ht
  refine Wp.bind ((threadUnlink_wp h₁.base ht₁).mono (fun _ s₂ h₂ ↦ ?_) fun _ _ hf ↦ hf.elim)
  obtain ⟨l, hl⟩ := h₂.thread
  refine hc s₂ ⟨h₂.base, h₁.frame.trans h₂.frame, ?_, p, l, by rw [hl, hp]⟩
  exact h₂.forgets.congr h₁.frame h₁.still (by rw [hp]) (by rw [hp]) (.refl t s₂) (fun _ ↦ rfl)
    rfl rfl

structure Settles (f : ThreadList → List Nat) (t : Nat) (st : ThreadStatus) (s s' : Sys) :
    Prop where
  base : Base s' f
  frame : Frame t s s'
  forgets : Forgets t s s'
  fits : Fits (s'.thread t)
  status : (s'.thread t).thStatus = st
  waiting : (s'.thread t).thSyncWaiting = false

variable {st : ThreadStatus}

theorem Detached.settles {P : Thread → Prop} {s₂ : Sys} (h : Detached f t s s₂)
    (h' : Adjusts f' t s₂ s' P) (hfit : Fits (s'.thread t)) (hst : (s'.thread t).thStatus = st)
    (hs : (s'.thread t).thSyncWaiting = (s₂.thread t).thSyncWaiting)
    (hte : (s'.thread t).teWaitSlots = (s₂.thread t).teWaitSlots) : Settles f' t st s s' := by
  refine ⟨h'.base, h.frame.trans h'.frame, ?_, hfit, hst, ?_⟩
  · exact h.forgets.congr (.refl t s) (fun _ ↦ rfl) rfl rfl h'.frame h'.still hs hte
  · obtain ⟨p, l, hth⟩ := h.thread
    rw [hs, hth]

theorem Adjusts.trans {P P' : Thread → Prop} {s₂ : Sys} (h : Adjusts f t s s₂ P)
    (h' : Adjusts f' t s₂ s' P') : Adjusts f' t s s' P' :=
  ⟨h'.base, h.frame.trans h'.frame, h.still.trans h'.still, h'.thread⟩

theorem threadSetRunnable_wp (h : Base s f) (ht : t ∈ s.core) : Wp (threadSetRunnable t) s
    (fun _ s' ↦ Settles (relist t .runnable (without t f)) t .runnable s s') fun _ _ ↦ False := by
  refine detach_wp h ht fun s₂ h₂ ↦ ?_
  obtain ⟨p, l, hth⟩ := h₂.thread
  have ht₂ : t ∈ s₂.core := h₂.frame.core ▸ ht
  refine Wp.seq (threadLink_wp h₂.base ht₂ (by rw [hth]) .runnable) fun _ s₃ h₃ ↦ ?_
  have ht₃ : t ∈ s₃.core := h₃.frame.core ▸ ht₂
  have h₄ := h₃.base.setThread ht₃ (g := fun th ↦ { th with thStatus := .runnable })
    rfl rfl (h₃.base.pins t ht₃)
  have ht₄ := h₄.frame.core.symm ▸ ht₃
  refine wp_setThread (Wp.seq (threadSchedAdjust_wp h₄.base ht₄ true) fun _ s₅ h₅ ↦ ?_)
  have ht₅ : t ∈ s₅.core := h₅.frame.core ▸ ht₄
  refine (threadPin_wp h₅.base ht₅).imp fun _ s₆ h₆ ↦ ?_
  obtain ⟨p', hp'⟩ := h₅.thread
  obtain ⟨n, hn⟩ := h₆.thread
  have hth₆ : s₆.thread t = { s₂.thread t with
      thLinked := true, thStatus := .runnable, thSchedJoined := true, thSched := p',
      thPinned := true, koPin := n } := by
    rw [hn, hp', h₄.thread, h₃.thread]
  refine h₂.settles (((h₃.trans h₄).trans h₅).trans h₆) ?_ (by rw [hth₆]) (by rw [hth₆])
    (by rw [hth₆])
  rw [hth₆, hth]
  exact ⟨rfl, rfl, rfl, by rintro ⟨⟩⟩

theorem threadSuspend_wp (h : Base s f) (ht : t ∈ s.core) (q : ThreadList) :
    Wp (threadSuspend t q) s
      (fun _ s' ↦ Settles (relist t q (without t f)) t .suspended s s') fun _ _ ↦ False := by
  refine detach_wp h ht fun s₂ h₂ ↦ ?_
  obtain ⟨p, l, hth⟩ := h₂.thread
  have ht₂ : t ∈ s₂.core := h₂.frame.core ▸ ht
  refine Wp.seq (threadLink_wp h₂.base ht₂ (by rw [hth]) q) fun _ s₃ h₃ ↦ ?_
  have ht₃ : t ∈ s₃.core := h₃.frame.core ▸ ht₂
  have h₄ := h₃.base.setThread ht₃ (g := fun th ↦ { th with thStatus := .suspended })
    rfl rfl (h₃.base.pins t ht₃)
  have ht₄ := h₄.frame.core.symm ▸ ht₃
  refine wp_setThread ((threadPin_wp h₄.base ht₄).imp fun _ s₅ h₅ ↦ ?_)
  obtain ⟨n, hn⟩ := h₅.thread
  have hth₅ : s₅.thread t = { s₂.thread t with
      thLinked := true, thStatus := .suspended, thPinned := true, koPin := n } := by
    rw [hn, h₄.thread, h₃.thread]
  refine h₂.settles ((h₃.trans h₄).trans h₅) ?_ (by rw [hth₅]) (by rw [hth₅]) (by rw [hth₅])
  rw [hth₅, hth]
  exact ⟨rfl, rfl, rfl, by rintro ⟨⟩⟩

theorem Settles.of_curThread (h : Settles f t st s s') (c : Option Nat) :
    Settles f t st s { s' with curThread := c } :=
  ⟨⟨h.base.lists, h.base.linked, h.base.tickets, h.base.pins⟩,
    ⟨h.frame.core, h.frame.slot, h.frame.others⟩,
    h.forgets.congr (.refl t s) (fun _ ↦ rfl) rfl rfl ⟨rfl, rfl, fun _ _ ↦ rfl⟩ (fun _ ↦ rfl) rfl
      rfl, h.fits, h.status, h.waiting⟩

theorem threadHalt_wp (h : Base s f) (ht : t ∈ s.core) : Wp (threadHalt t) s
    (fun _ s' ↦ Settles (without t f) t .halted s s') fun _ _ ↦ False := by
  refine detach_wp h ht fun s₂ h₂ ↦ ?_
  obtain ⟨p, l, hth⟩ := h₂.thread
  have ht₂ : t ∈ s₂.core := h₂.frame.core ▸ ht
  have h₃ := h₂.base.setThread ht₂ (g := fun th ↦ { th with thStatus := .halted })
    rfl rfl (h₂.base.pins t ht₂)
  have ht₃ := h₃.frame.core.symm ▸ ht₂
  refine wp_setThread (Wp.seq (threadUnpin_wp h₃.base ht₃) fun _ s₄ h₄ ↦ ?_)
  obtain ⟨n, hn⟩ := h₄.thread
  have hth₄ : s₄.thread t = { s₂.thread t with
      thStatus := .halted, thPinned := false, koPin := n } := by
    rw [hn, h₃.thread]
  have hset : Settles (without t f) t .halted s s₄ := by
    refine h₂.settles (h₃.trans h₄) ?_ (by rw [hth₄]) (by rw [hth₄]) (by rw [hth₄])
    rw [hth₄, hth]
    exact ⟨rfl, rfl, rfl, by rintro ⟨⟩⟩
  refine Wp.modify ?_
  split
  · exact hset.of_curThread none
  · exact hset

theorem Settles.consistent (h : Settles f' t st s s') (hc : Consistent s f ws)
    (hother : ∀ q u, u ≠ t → u ∈ f' q → u ∈ f q)
    (hself : ∀ q, t ∈ f' q → (q = .runnable ↔ st = .runnable)) : Consistent s' f' (ws.erase t) :=
  hc.of_others h.base (h.forgets.waits ws hc.waits).1 (fun _ hu _ ↦ h.frame.core ▸ hu)
    h.frame.others (fun _ ↦ h.fits) hother fun q hq ↦ by
      rw [h.status]
      exact hself q hq

theorem Consistent.mem_relist_without (hc : Consistent s f ws) {q q' : ThreadList} :
    u ∈ relist t q (without t f) q' ↔ u = t ∧ q' = q ∨ u ≠ t ∧ u ∈ f q' := by
  rw [mem_relist, hc.base.mem_without]

theorem threadSetRunnable_consistent (hc : Consistent s f ws) (ht : t ∈ s.core) :
    Wp (threadSetRunnable t) s
      (fun _ s' ↦ Consistent s' (relist t .runnable (without t f)) (ws.erase t))
      fun _ _ ↦ False := by
  refine (threadSetRunnable_wp hc.base ht).imp fun _ s' h ↦ ?_
  refine h.consistent hc (fun q u hu hm ↦ ?_) fun q hm ↦ ?_ <;>
    rcases hc.mem_relist_without.mp hm with ⟨h₁, h₂⟩ | ⟨h₁, h₂⟩
  · exact absurd h₁ hu
  · exact h₂
  · exact iff_of_true h₂ rfl
  · exact absurd rfl h₁

theorem threadSuspend_consistent (hc : Consistent s f ws) (ht : t ∈ s.core) {q : ThreadList}
    (hq : q ≠ .runnable) : Wp (threadSuspend t q) s
      (fun _ s' ↦ Consistent s' (relist t q (without t f)) (ws.erase t)) fun _ _ ↦ False := by
  refine (threadSuspend_wp hc.base ht q).imp fun _ s' h ↦ ?_
  refine h.consistent hc (fun q u hu hm ↦ ?_) fun q' hm ↦ ?_ <;>
    rcases hc.mem_relist_without.mp hm with ⟨h₁, h₂⟩ | ⟨h₁, h₂⟩
  · exact absurd h₁ hu
  · exact h₂
  · exact iff_of_false (h₂ ▸ hq) (by rintro ⟨⟩)
  · exact absurd rfl h₁

theorem threadHalt_consistent (hc : Consistent s f ws) (ht : t ∈ s.core) : Wp (threadHalt t) s
    (fun _ s' ↦ Consistent s' (without t f) (ws.erase t)) fun _ _ ↦ False := by
  refine (threadHalt_wp hc.base ht).imp fun _ s' h ↦ ?_
  refine h.consistent hc (fun q u _ hm ↦ (hc.base.mem_without.mp hm).2) fun q hm ↦ ?_
  exact absurd rfl (hc.base.mem_without.mp hm).1

end HiStar.Sched
