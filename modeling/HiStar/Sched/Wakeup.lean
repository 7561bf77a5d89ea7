import HiStar.Sched.Wait

namespace HiStar.Sched

open Lib Function Relation

variable {s s' : Sys} {t u : Nat} {f : ThreadList → List Nat} {ws w₁ w₂ : List Nat}
  {x y p : SlotId} {k : Table} {head : Fin 512} {hit : SyncWaitSlot → Bool}

structure Cursor where
  sys : Sys
  sw : Option SlotId
  prev : Option SlotId

def Cursor.run (k : Table) (head : Fin 512) (hit : SyncWaitSlot → Bool) (n : Nat) (c : Cursor) :
    Except Errno Unit × Sys := wakeLoop k head hit n c.sw c.prev c.sys

inductive Round (k : Table) (head : Fin 512) (hit : SyncWaitSlot → Bool) : Cursor → Cursor → Prop
  | skip {s : Sys} {x : SlotId} {prev : Option SlotId} (hx : hit (s.slot x) = false) :
      Round k head hit ⟨s, some x, prev⟩ ⟨s, (s.links k).next x, some x⟩
  | wake {s s' : Sys} {x : SlotId} {prev : Option SlotId} (hx : hit (s.slot x) = true)
      (hw : threadSetRunnable (s.slot x).swT s = (.ok (), s')) :
      Round k head hit ⟨s, some x, prev⟩ ⟨s', after k head prev s', prev⟩

variable {c c' : Cursor}

theorem Round.run_succ (h : Round k head hit c c') (n : Nat) :
    c.run k head hit (n + 1) = c'.run k head hit n := by
  cases h with
  | skip hx =>
    show (Exec.get >>= _) _ = _
    rw [bind_apply, get_apply]
    dsimp only
    rw [hx]
    rfl
  | wake hx hw =>
    show (Exec.get >>= _) _ = _
    rw [bind_apply, get_apply]
    dsimp only
    rw [hx, if_pos rfl, bind_eq_of_ok hw]
    rfl

theorem Round.run_zero (h : Round k head hit c c') : (c.run k head hit 0).1 = .error .loops := by
  cases h <;> rfl

theorem rounds_end (h : ReflTransGen (Round k head hit) c c')
    (hend : c'.sw = none) : ∃ n, c.run k head hit n = (.ok (), c'.sys) := by
  induction h using ReflTransGen.head_induction_on with
  | refl =>
    obtain ⟨s, sw, prev⟩ := c'
    cases hend
    exact ⟨0, rfl⟩
  | head hr _ ih =>
    obtain ⟨n, hn⟩ := ih
    exact ⟨n + 1, (hr.run_succ n).trans hn⟩

theorem rounds_loop (h : ReflTransGen (Round k head hit) c c')
    (hloop : ∀ n, (c'.run k head hit n).1 = .error .loops) (n : Nat) :
    (c.run k head hit n).1 = .error .loops := by
  induction h using ReflTransGen.head_induction_on generalizing n with
  | refl => exact hloop n
  | head hr _ ih =>
    cases n with
    | zero => exact hr.run_zero
    | succ n =>
      rw [hr.run_succ]
      exact ih n

theorem rounds_skip {A b C : List SlotId} (prev : Option SlotId)
    (hseg : (s.links k).Seg (.inl head) (A ++ (b ++ C)))
    (hb : ∀ x ∈ b, hit (s.slot x) = false) :
    ReflTransGen (Round k head hit) ⟨s, (b ++ C).head?, prev⟩
      ⟨s, C.head?, b.getLast?.or prev⟩ := by
  induction b generalizing A prev with
  | nil => exact .refl
  | cons x b ih =>
    have hnext : (s.links k).next x = (b ++ C).head? := hseg.next_eq
    have hseg' : (s.links k).Seg (.inl head) ((A ++ [x]) ++ (b ++ C)) := by simpa using hseg
    have hlast : (x :: b).getLast?.or prev = b.getLast?.or (some x) := by
      rw [List.getLast?_cons]
      cases b.getLast? <;> rfl
    have hstep : Round k head hit ⟨s, some x, prev⟩ ⟨s, (b ++ C).head?, some x⟩ :=
      hnext ▸ .skip (hb x List.mem_cons_self)
    rw [hlast]
    exact .head hstep (ih (some x) hseg' fun y hy ↦ hb y (List.mem_cons_of_mem x hy))

/-- Whether the loop would come to a matching slot with a `prev` that has been taken out of its list.
A thread whose first slot on the list does not match but a later one does leaves such a `prev`
behind. -/
def Sys.Catches (s : Sys) (k : Table) (head : Fin 512) (hit : SyncWaitSlot → Bool) :
    Bool → List Nat → Prop
  | _, [] => False
  | stale, t :: ws =>
    match s.queue k head t with
    | [] => s.Catches k head hit stale ws
    | x :: b =>
      if hit (s.slot x) then stale = true ∨ s.Catches k head hit false ws
      else s.Catches k head hit (b.any fun y ↦ hit (s.slot y)) ws

theorem Sys.catches_congr (hslot : s'.slot = s.slot) (hth : ∀ t ∈ ws, s'.thread t = s.thread t)
    (stale : Bool) : s'.Catches k head hit stale ws ↔ s.Catches k head hit stale ws := by
  induction ws generalizing stale with
  | nil => exact Iff.rfl
  | cons t ws ih =>
    have ih' := ih fun u hu ↦ hth u (List.mem_cons_of_mem t hu)
    have hq : s'.queue k head t = s.queue k head t :=
      Sys.queue_congr hslot (by rw [hth t List.mem_cons_self]) k head
    unfold Sys.Catches
    rw [hq]
    cases s.queue k head t with
    | nil => exact ih' stale
    | cons x b =>
      dsimp only
      rw [hslot]
      split
      · exact or_congr_right (ih' false)
      · exact ih' _

def Sys.hits (s : Sys) (k : Table) (head : Fin 512) (hit : SyncWaitSlot → Bool) (t : Nat) : Bool :=
  (s.queue k head t).any fun x ↦ hit (s.slot x)

/-- The threads of `w₂` with a matching slot have been woken up, and nothing else has happened. -/
structure Wakes (k : Table) (head : Fin 512) (hit : SyncWaitSlot → Bool) (w₁ w₂ : List Nat)
    (s s' : Sys) : Prop where
  sound : ∃ f, Consistent s' f (w₁ ++ w₂.filter fun t ↦ !s.hits k head hit t)
  core : s'.core = s.core
  slot : s'.slot = s.slot
  woken : ∀ t ∈ w₂, s.hits k head hit t = true →
    (s'.thread t).thStatus = .runnable ∧ (s'.thread t).thSyncWaiting = false
  kept : ∀ t, (t ∈ w₂ → s.hits k head hit t = false) → s'.thread t = s.thread t

/-- The thread to which `prev` belongs is still waiting, or its slots are out of the table. -/
inductive Behind (k : Table) (head : Fin 512) (s : Sys) (w₁ w₂ : List Nat) :
    Bool → Option SlotId → Prop
  | fresh : Behind k head s w₁ w₂ false (s.waiters w₁ k head).getLast?
  | stale {p : SlotId} (hout : ∀ h, p ∉ s.waiters (w₁ ++ w₂) k h)
      (hnext : (s.links k).next p = (s.waiters w₂ k head).head?) :
      Behind k head s w₁ w₂ true (some p)

theorem Waits.seg (hw : Waits s (w₁ ++ w₂)) (k : Table) (h : Fin 512) :
    (s.links k).Seg (.inl h) (s.waiters w₁ k h ++ s.waiters w₂ k h) := by
  have := (hw.lists k).seg h
  rwa [Sys.waiters_append] at this

theorem Behind.after_fresh (hw : Waits s (w₁ ++ w₂)) :
    after k head (s.waiters w₁ k head).getLast? s = (s.waiters w₂ k head).head? := by
  have hseg := hw.seg k head
  rcases List.eq_nil_or_concat' (s.waiters w₁ k head) with hl | ⟨l, x, hl⟩
  · rw [hl] at hseg ⊢
    exact hseg.head
  · rw [hl, List.append_assoc] at hseg
    rw [hl, List.getLast?_concat]
    exact hseg.next_eq

/-- A loop that never ends: `sw` matches, its thread no longer waits, and `prev` is not
on any list but still leads to `sw`. -/
structure Stuck (k : Table) (hit : SyncWaitSlot → Bool) (s : Sys) (y p : SlotId) : Prop where
  sound : Sound s
  core : (s.slot y).swT ∈ s.core
  hits : hit (s.slot y) = true
  awake : (s.thread (s.slot y).swT).thSyncWaiting = false
  next : (s.links k).next p = some y

theorem Stuck.loops (h : Stuck k hit s y p) (n : Nat) :
    (Cursor.run k head hit n ⟨s, some y, some p⟩).1 = .error .loops := by
  induction n generalizing s with
  | zero => rfl
  | succ n ih =>
    obtain ⟨f, ws, hc⟩ := h.sound
    obtain ⟨_, s', hr, hset, hc'⟩ := ((threadSetRunnable_wp hc.base h.core).and
      (threadSetRunnable_consistent hc h.core)).exists_ok fun _ _ hf ↦ hf.1
    have hround : Round k head hit ⟨s, some y, some p⟩ ⟨s', (s'.links k).next p, some p⟩ :=
      .wake h.hits hr
    have hnext : (s'.links k).next p = some y := by
      rw [(hset.forgets.still h.awake).1 k, h.next]
    rw [hround.run_succ, hnext]
    refine ih ⟨⟨_, _, hc'⟩, ?_, ?_, ?_, hnext⟩
    · rw [hset.frame.core, hset.frame.slot]
      exact h.core
    · rw [hset.frame.slot]
      exact h.hits
    · rw [hset.frame.slot]
      exact hset.waiting

structure WokenUp (w₁ w₂ : List Nat) (t : Nat) (s s' : Sys) : Prop where
  sound : ∃ f, Consistent s' f (w₁ ++ w₂)
  frame : Frame t s s'
  released : Released (w₁ ++ t :: w₂) t s s'
  status : (s'.thread t).thStatus = .runnable
  waiting : (s'.thread t).thSyncWaiting = false

theorem Consistent.notMem (hc : Consistent s f (w₁ ++ t :: w₂)) : t ∉ w₁ ∧ t ∉ w₂ := by
  have hnd := hc.waits.nodup
  rw [List.nodup_middle, List.nodup_cons, List.mem_append, not_or] at hnd
  exact hnd.1

theorem wakes_thread (hc : Consistent s f (w₁ ++ t :: w₂)) :
    ∃ s', threadSetRunnable t s = (.ok (), s') ∧ WokenUp w₁ w₂ t s s' := by
  have ht : t ∈ s.core := ((hc.waits.mem t).mp (by simp)).1
  obtain ⟨_, s', hr, hset, hc'⟩ := ((threadSetRunnable_wp hc.base ht).and
    (threadSetRunnable_consistent hc ht)).exists_ok fun _ _ hf ↦ hf.1
  have herase : (w₁ ++ t :: w₂).erase t = w₁ ++ w₂ := by
    rw [List.erase_append_right _ hc.notMem.1, List.erase_cons_head]
  rw [herase] at hc'
  exact ⟨s', hr, ⟨_, hc'⟩, hset.frame, (hset.forgets.waits _ hc.waits).2, hset.status, hset.waiting⟩

theorem WokenUp.waiters_eq (h : WokenUp w₁ w₂ t s s') {w : List Nat} (hw : t ∉ w) (k : Table) :
    s'.waiters w k = s.waiters w k :=
  Sys.waiters_congr h.frame.slot (fun u hu ↦ by rw [h.frame.others u fun he ↦ hw (he ▸ hu)]) k

theorem WokenUp.hits_eq (h : WokenUp w₁ w₂ t s s') (hu : u ≠ t) :
    s'.hits k head hit u = s.hits k head hit u := by
  unfold Sys.hits
  rw [Sys.queue_congr h.frame.slot (by rw [h.frame.others u hu]), h.frame.slot]

theorem Wakes.of_wokenUp {s'' : Sys} (hc : Consistent s f (w₁ ++ t :: w₂))
    (hh : s.hits k head hit t = true) (h : WokenUp w₁ w₂ t s s')
    (hw : Wakes k head hit w₁ w₂ s' s'') : Wakes k head hit w₁ (t :: w₂) s s'' := by
  have hne : ∀ u ∈ w₂, u ≠ t := by
    rintro u hu rfl
    exact hc.notMem.2 hu
  have hfilter : (t :: w₂).filter (fun u ↦ !s.hits k head hit u) =
      w₂.filter fun u ↦ !s'.hits k head hit u := by
    rw [List.filter_cons_of_neg (by simp [hh])]
    exact List.filter_congr fun u hu ↦ by rw [h.hits_eq (hne u hu)]
  refine ⟨hfilter ▸ hw.sound, hw.core.trans h.frame.core, hw.slot.trans h.frame.slot,
    fun u hu hhu ↦ ?_, fun u hu ↦ ?_⟩
  · rcases List.mem_cons.mp hu with rfl | hu
    · rw [hw.kept u fun hm ↦ absurd hm hc.notMem.2]
      exact ⟨h.status, h.waiting⟩
    · exact hw.woken u hu (by rwa [h.hits_eq (hne u hu)])
  · have hut : u ≠ t := by
      rintro rfl
      rw [hu List.mem_cons_self] at hh
      cases hh
    rw [hw.kept u fun hm ↦ by rw [h.hits_eq hut]; exact hu (List.mem_cons_of_mem t hm),
      h.frame.others u hut]

theorem Wakes.of_passed (hh : s.hits k head hit t = false)
    (hw : Wakes k head hit (w₁ ++ [t]) w₂ s s') : Wakes k head hit w₁ (t :: w₂) s s' := by
  refine ⟨?_, hw.core, hw.slot, fun u hu hhu ↦ ?_, fun u hu ↦ hw.kept u fun hm ↦
    hu (List.mem_cons_of_mem t hm)⟩
  · rw [List.filter_cons_of_pos (by simp [hh])]
    simpa using hw.sound
  · rcases List.mem_cons.mp hu with rfl | hu
    · rw [hh] at hhu
      cases hhu
    · exact hw.woken u hu hhu

theorem rounds_pass {stale : Bool} {prev : Option SlotId} (hw : Waits s (w₁ ++ t :: w₂))
    (hb : Behind k head s w₁ (t :: w₂) stale prev) (hh : s.hits k head hit t = false) :
    ∃ stale' prev', ReflTransGen (Round k head hit)
        ⟨s, (s.waiters (t :: w₂) k head).head?, prev⟩ ⟨s, (s.waiters w₂ k head).head?, prev'⟩ ∧
      Behind k head s (w₁ ++ [t]) w₂ stale' prev' ∧
      (s.Catches k head hit stale (t :: w₂) ↔ s.Catches k head hit stale' w₂) := by
  have hseg := hw.seg k head
  have hno : ∀ x ∈ s.queue k head t, hit (s.slot x) = false := by
    intro x hx
    have := List.any_eq_false.mp hh x hx
    simpa using this
  have hwait : s.waiters (w₁ ++ [t]) k head = s.waiters w₁ k head ++ s.queue k head t := by
    rw [Sys.waiters_append, Sys.waiters_cons]
    exact congrArg _ (List.append_nil _)
  rw [Sys.waiters_cons] at hseg ⊢
  have hrounds := rounds_skip prev hseg hno
  cases hq : s.queue k head t with
  | nil =>
    rw [hq] at hrounds hwait
    refine ⟨stale, prev, hrounds, ?_, by rw [Sys.Catches, hq]⟩
    cases hb with
    | fresh =>
      rw [List.append_nil] at hwait
      rw [← hwait]
      exact .fresh
    | stale hout hnext =>
      refine .stale (by simpa using hout) ?_
      rw [hnext, Sys.waiters_cons, hq]
      rfl
  | cons x b =>
    rw [hq] at hrounds hno hwait
    have hlast : (x :: b).getLast?.or prev = (s.waiters (w₁ ++ [t]) k head).getLast? := by
      rw [hwait, List.getLast?_append_of_ne_nil _ (by simp), List.getLast?_cons]
      rfl
    rw [hlast] at hrounds
    refine ⟨false, _, hrounds, .fresh, ?_⟩
    have hany : (b.any fun y ↦ hit (s.slot y)) = false :=
      List.any_eq_false.mpr fun y hy ↦ by simp [hno y (List.mem_cons_of_mem x hy)]
    rw [Sys.Catches, hq]
    dsimp only
    rw [hno x List.mem_cons_self, hany]
    simp

end HiStar.Sched
