import HiStar.Sched.Base

namespace HiStar.Sched

open Lib Function

variable {α : Type} {s s' : Sys} {t u : Nat} {f : ThreadList → List Nat}
  {Q : α → Sys → Prop} {E : Errno → Sys → Prop}

theorem wp_threadOf {c : Thread → Kern α} (h : Wp (c (s.thread t)) s Q E) :
    Wp (threadOf t >>= c) s Q E := h

theorem wp_setThread {g : Thread → Thread} {c : Unit → Kern α}
    (h : Wp (c ()) (s.setThread t g) Q E) : Wp (setThread t g >>= c) s Q E := h

/-- The outcome of a step that changes the thread `t` and not the tables of wait slots. -/
structure Adjusts (f : ThreadList → List Nat) (t : Nat) (s s' : Sys) (P : Thread → Prop) :
    Prop where
  base : Base s' f
  frame : Frame t s s'
  still : Still s s'
  thread : P (s'.thread t)

theorem Adjusts.refl {P : Thread → Prop} (h : Base s f) (hP : P (s.thread t)) :
    Adjusts f t s s P := ⟨h, .refl t s, fun _ ↦ rfl, hP⟩

theorem Base.setThread (h : Base s f) (ht : t ∈ s.core) {g : Thread → Thread}
    (hl : (g (s.thread t)).thLinked = (s.thread t).thLinked)
    (hsh : (g (s.thread t)).share = (s.thread t).share)
    (hp : (g (s.thread t)).thPinned = true → 0 < (g (s.thread t)).koPin) :
    Adjusts f t s (s.setThread t g) (· = g (s.thread t)) := by
  have hself := s.setThread_self t g
  refine ⟨h.of_still ht (.setThread s t g) rfl ?_ ?_ ?_, .setThread s t g,
    fun _ ↦ rfl, hself⟩
  · rw [hself, hl]
  · rw [hself, hsh, sub_add_cancel]
    rfl
  · rw [hself]
    exact hp

theorem threadPin_wp (h : Base s f) (ht : t ∈ s.core) : Wp (threadPin t) s
    (fun _ s' ↦ Adjusts f t s s' fun th ↦
      ∃ n, th = { s.thread t with thPinned := true, koPin := n }) fun _ _ ↦ False := by
  refine wp_threadOf (Wp.when (fun hp ↦ ?_) fun hp ↦ ?_)
  · refine wp_setThread (Wp.modify ?_)
    have h2 := h.setThread ht
      (g := fun th ↦ { th with thPinned := true, koPin := th.koPin + 1 }) rfl rfl
      fun _ ↦ Nat.succ_pos _
    have he : (s.setThread t fun th ↦ { th with thPinned := true }).setThread t
        (fun th ↦ { th with koPin := th.koPin + 1 }) =
        s.setThread t fun th ↦ { th with thPinned := true, koPin := th.koPin + 1 } := by
      simp [Sys.setThread]
    rw [he]
    exact ⟨h2.base, h2.frame, h2.still, _, h2.thread⟩
  · have hp' : (s.thread t).thPinned = true := by simpa using hp
    exact .refl h ⟨(s.thread t).koPin, by rw [← hp']⟩

theorem threadUnpin_wp (h : Base s f) (ht : t ∈ s.core) : Wp (threadUnpin t) s
    (fun _ s' ↦ Adjusts f t s s' fun th ↦
      ∃ n, th = { s.thread t with thPinned := false, koPin := n }) fun _ _ ↦ False := by
  refine wp_threadOf (Wp.when (fun hp ↦ ?_) fun hp ↦ ?_)
  · have hpin := h.pins t ht hp
    refine wp_setThread (wp_threadOf (wp_require_of ?_ (Wp.modify ?_)))
    · rw [Sys.setThread_self]
      simpa using hpin.ne'
    · have h2 := h.setThread ht
        (g := fun th ↦ { th with thPinned := false, koPin := th.koPin - 1 }) rfl rfl
        (by rintro ⟨⟩)
      have he : (s.setThread t fun th ↦ { th with thPinned := false }).setThread t
          (fun th ↦ { th with koPin := th.koPin - 1 }) =
          s.setThread t fun th ↦ { th with thPinned := false, koPin := th.koPin - 1 } := by
        simp [Sys.setThread]
      rw [he]
      exact ⟨h2.base, h2.frame, h2.still, _, h2.thread⟩
  · exact .refl h ⟨(s.thread t).koPin, by rw [← hp]⟩

structure Recounts (t : Nat) (s s' : Sys) (tickets : BitVec 64) : Prop where
  frame : Frame t s s'
  still : Still s s'
  thLink : s'.thLink = s.thLink
  tickets : s'.globalTickets = tickets
  thread : ∃ p, s'.thread t = { s.thread t with thSched := p }

theorem schedLeave_wp (t : Nat) (s : Sys) : Wp (schedLeave t) s
    (fun _ s' ↦ Recounts t s s'
      (s.globalTickets - (s.thread t).thSchedTickets.setWidth 64)) fun _ _ ↦ False := by
  refine ⟨⟨rfl, rfl, fun u hu ↦ update_of_ne hu ..⟩, fun k ↦ by cases k <;> rfl, rfl, ?_, _,
    update_self ..⟩
  show _ - BitVec.setWidth 64 (Sys.thread (Sys.setThread _ t _) t).thSchedTickets = _
  rw [Sys.setThread_self]
  rfl

theorem schedJoin_wp (t : Nat) (s : Sys) : Wp (schedJoin t) s
    (fun _ s' ↦ Recounts t s s'
      (s.globalTickets + (s.thread t).thSchedTickets.setWidth 64)) fun _ _ ↦ False := by
  refine ⟨⟨rfl, rfl, fun u hu ↦ update_of_ne hu ..⟩, fun k ↦ by cases k <;> rfl, rfl, ?_, _,
    update_self ..⟩
  show _ + BitVec.setWidth 64 (Sys.thread (Sys.setThread _ t _) t).thSchedTickets = _
  rw [Sys.setThread_self]
  rfl

theorem Recounts.joined {tickets : BitVec 64} {b : Bool} (hr : Recounts t s s' tickets)
    (h : Base s f) (ht : t ∈ s.core)
    (htick : tickets = s.globalTickets - (s.thread t).share +
      { s.thread t with thSchedJoined := b }.share) :
    Adjusts f t s (s'.setThread t fun th ↦ { th with thSchedJoined := b }) fun th ↦
      ∃ p, th = { s.thread t with thSchedJoined := b, thSched := p } := by
  obtain ⟨p, hp⟩ := hr.thread
  have hself : (s'.setThread t fun th ↦ { th with thSchedJoined := b }).thread t =
      { s.thread t with thSchedJoined := b, thSched := p } := by
    rw [Sys.setThread_self, hp]
  have hframe := hr.frame.trans (.setThread s' t fun th ↦ { th with thSchedJoined := b })
  refine ⟨h.of_still ht hframe hr.thLink ?_ ?_ ?_, hframe, hr.still, p, hself⟩
  · rw [hself]
  · rw [hself]
    exact hr.tickets.trans htick
  · rw [hself]
    exact h.pins t ht

theorem threadSchedAdjust_wp (h : Base s f) (ht : t ∈ s.core) (runnable : Bool) :
    Wp (threadSchedAdjust t runnable) s
      (fun _ s' ↦ Adjusts f t s s' fun th ↦
        ∃ p, th = { s.thread t with thSchedJoined := runnable, thSched := p })
      fun _ _ ↦ False := by
  have hkeep : ∀ b, (s.thread t).thSchedJoined = b → Adjusts f t s s fun th ↦
      ∃ p, th = { s.thread t with thSchedJoined := b, thSched := p } := by
    rintro b rfl
    exact .refl h ⟨_, rfl⟩
  refine wp_threadOf (Wp.bind ?_)
  cases hj : (s.thread t).thSchedJoined <;> cases runnable
  · refine wp_threadOf ?_
    rw [hj]
    exact hkeep false hj
  · refine wp_threadOf ?_
    rw [hj]
    refine Wp.seq (schedJoin_wp t s) fun _ s' hr ↦ ?_
    refine hr.joined h ht ?_
    simp [Thread.share, hj]
  · refine Wp.seq (schedLeave_wp t s) fun _ s' hr ↦ ?_
    have hadj := hr.joined (b := false) h ht (by simp [Thread.share, hj])
    refine Wp.modify (wp_threadOf ?_)
    rw [Sys.setThread_self]
    exact hadj
  · refine wp_threadOf ?_
    rw [hj]
    exact hkeep true hj

end HiStar.Sched
