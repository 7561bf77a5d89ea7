import HiStar.Sched.Flags

namespace HiStar.Sched

open Lib Function

variable {s s' : Sys} {t u : Nat} {f : ThreadList → List Nat} {ws : List Nat} {k : Table}

def without (t : Nat) (f : ThreadList → List Nat) (q : ThreadList) : List Nat := (f q).erase t

theorem without_eq_self (h : ∀ q, t ∉ f q) : without t f = f := by
  funext q
  exact List.erase_of_not_mem (h q)

theorem Base.mem_without (h : Base s f) {q : ThreadList} :
    u ∈ without t f q ↔ u ≠ t ∧ u ∈ f q := (h.lists.nodup q).mem_erase_iff

def Sys.unlinked (s : Sys) (t : Nat) : Sys :=
  ({ s with thLink := s.thLink.remove t }).setThread t fun th ↦ { th with thLinked := false }

theorem Sys.unlinked_self (s : Sys) (t : Nat) :
    (s.unlinked t).thread t = { s.thread t with thLinked := false } := update_self ..

theorem Sys.unlinked_frame (s : Sys) (t : Nat) : Frame t s (s.unlinked t) :=
  ⟨rfl, rfl, fun _ hu ↦ update_of_ne hu ..⟩

theorem Base.without_eq (h : Base s f) {q : ThreadList} {l l' : List Nat}
    (hq : f q = l ++ t :: l') : without t f = update f q (l ++ l') := by
  have hmem : t ∈ f q := by simp [hq]
  have hnot : t ∉ l := by
    have hnd := h.lists.nodup q
    rw [hq] at hnd
    exact fun hm ↦ (List.nodup_append.mp hnd).2.2 t hm t List.mem_cons_self rfl
  funext q'
  unfold without
  by_cases hqq : q' = q
  · rw [hqq, update_self, hq, List.erase_append_right _ hnot, List.erase_cons_head]
  · rw [update_of_ne hqq, List.erase_of_not_mem]
    exact fun hm ↦ hqq (h.lists.disjoint q' q t hm hmem)

theorem Base.unlinked (h : Base s f) (ht : t ∈ s.core) (hl : (s.thread t).thLinked = true) :
    Base (s.unlinked t) (without t f) := by
  obtain ⟨q, hq⟩ := (h.linked t).mpr ⟨ht, hl⟩
  obtain ⟨l, l', hll⟩ := List.append_of_mem hq
  have hself := s.unlinked_self t
  have hframe := s.unlinked_frame t
  refine h.of_frame ht hframe ?_ (fun u hu ↦ ?_) ?_ ?_ ?_
  · rw [h.without_eq hll]
    exact h.lists.remove hll
  · simp [h.mem_without, hu]
  · rw [hself]
    simp [h.mem_without]
  · rw [hself]
    exact (sub_add_cancel ..).symm
  · rw [hself]
    exact h.pins t ht

theorem foldl_removeSlot (xs : List SlotId) (s : Sys) : xs.foldl Sys.removeSlot s =
    { s with
      swAddrLink := xs.foldl (fun L x ↦ L.remove x) s.swAddrLink
      swCobjLink := (xs.filter fun x ↦ (s.slot x).listed .cobj).foldl (fun L x ↦ L.remove x)
        s.swCobjLink } := by
  induction xs generalizing s with
  | nil => rfl
  | cons x xs ih =>
    rw [List.foldl_cons, ih, List.filter_cons]
    by_cases hx : (s.slot x).swCobj.object = 0
    · simp [Sys.removeSlot, SyncWaitSlot.listed, hx]
    · simp [Sys.removeSlot, SyncWaitSlot.listed, hx]

theorem removeSlots_links (xs : List SlotId) (s : Sys) (k : Table) :
    (xs.foldl Sys.removeSlot s).links k =
      (xs.filter fun x ↦ (s.slot x).listed k).foldl (fun L x ↦ L.remove x) (s.links k) := by
  rw [foldl_removeSlot]
  cases k with
  | addr => simp [Sys.links, SyncWaitSlot.listed]
  | cobj => rfl

/-- Where the links of the slots point to after the slots of a thread have been taken out.
Its own ones still lead to what followed them in their lists. -/
structure Released (ws : List Nat) (t : Nat) (s s' : Sys) : Prop where
  own : ∀ w₁ w₂, ws = w₁ ++ t :: w₂ → ∀ k, ∀ x ∈ (s.thread t).teWaitSlots,
    (s.slot x).listed k = true →
      (s'.links k).next x = (s.waiters w₂ k ((s.slot x).head k)).head?
  other : ∀ k x, (∀ h, x ∉ s.waiters ws k h) → (s'.links k).next x = (s.links k).next x

theorem Sys.waiters_append (s : Sys) (w₁ w₂ : List Nat) (k : Table) (h : Fin 512) :
    s.waiters (w₁ ++ w₂) k h = s.waiters w₁ k h ++ s.waiters w₂ k h := List.flatMap_append

theorem Sys.waiters_cons (s : Sys) (t : Nat) (w : List Nat) (k : Table) (h : Fin 512) :
    s.waiters (t :: w) k h = s.queue k h t ++ s.waiters w k h := List.flatMap_cons

def Sys.removed (s : Sys) (t : Nat) : Sys :=
  (s.thread t).teWaitSlots.foldl Sys.removeSlot
    (s.setThread t fun th ↦ { th with thSyncWaiting := false, teWaitSlots := [] })

theorem Sys.removed_links (s : Sys) (t : Nat) (k : Table) : (s.removed t).links k =
    ((s.thread t).teWaitSlots.filter fun x ↦ (s.slot x).listed k).foldl
      (fun L x ↦ L.remove x) (s.links k) := removeSlots_links ..

theorem Sys.removed_frame (s : Sys) (t : Nat) : Frame t s (s.removed t) := by
  unfold Sys.removed
  rw [foldl_removeSlot]
  exact ⟨rfl, rfl, fun u hu ↦ update_of_ne hu ..⟩

theorem Sys.removed_self (s : Sys) (t : Nat) : (s.removed t).thread t =
    { s.thread t with thSyncWaiting := false, teWaitSlots := [] } := by
  unfold Sys.removed
  rw [foldl_removeSlot]
  exact update_self ..

theorem Waits.removed (hw : Waits s ws) (ht : t ∈ ws) :
    Waits (s.removed t) (ws.erase t) ∧ Released ws t s (s.removed t) := by
  obtain ⟨w₁, w₂, rfl⟩ := List.append_of_mem ht
  have hnd := hw.nodup
  rw [List.nodup_middle, List.nodup_cons, List.mem_append, not_or] at hnd
  have herase : (w₁ ++ t :: w₂).erase t = w₁ ++ w₂ := by
    rw [List.erase_append_right _ hnd.1.1, List.erase_cons_head]
  have hframe := s.removed_frame t
  have hself := s.removed_self t
  have hlists : ∀ k, (s.links k).Lists fun h ↦ s.waiters w₁ k h ++
      ((s.thread t).teWaitSlots.filter fun x ↦ (s.slot x).listed k).reverse.filter
        (fun x ↦ (s.slot x).head k = h) ++ s.waiters w₂ k h := by
    intro k
    have hl := hw.lists k
    have he : s.waiters (w₁ ++ t :: w₂) k = fun h ↦
        s.waiters w₁ k h ++ s.queue k h t ++ s.waiters w₂ k h := by
      funext h
      rw [Sys.waiters_append, Sys.waiters_cons, List.append_assoc]
    rw [he] at hl
    exact hl
  have hothers : ∀ u ∈ w₁ ++ w₂, u ≠ t := by
    rintro u hu rfl
    rcases List.mem_append.mp hu with hu | hu
    · exact hnd.1.1 hu
    · exact hnd.1.2 hu
  refine ⟨⟨?_, fun u ↦ ?_, fun u hu x hx ↦ ?_, fun k ↦ ?_⟩, fun v₁ v₂ hv k x hx hlx ↦ ?_,
    fun k x hx ↦ ?_⟩
  · exact herase ▸ hnd.2
  · rw [hw.nodup.mem_erase_iff, hw.mem, hframe.core]
    by_cases hu : u = t
    · rw [hu, hself]
      simp
    · rw [hframe.others u hu]
      simp [hu]
  · rw [herase] at hu
    rw [hframe.others u (hothers u hu)] at hx
    rw [hframe.slot]
    refine hw.slots u ?_ x hx
    rcases List.mem_append.mp hu with hu | hu
    · exact List.mem_append_left _ hu
    · exact List.mem_append_right _ (List.mem_cons_of_mem t hu)
  · rw [herase, Sys.removed_links]
    have hcongr : (s.removed t).waiters (w₁ ++ w₂) k =
        fun h ↦ s.waiters w₁ k h ++ s.waiters w₂ k h := by
      rw [Sys.waiters_congr hframe.slot fun u hu ↦ by rw [hframe.others u (hothers u hu)]]
      funext h
      exact s.waiters_append w₁ w₂ k h
    rw [hcongr]
    exact (hlists k).removeAll.1
  · have hv' := (List.append_cons_inj_of_notMem hnd.1.1 hnd.1.2).mp hv
    rw [Sys.removed_links, ← hv'.2.2]
    exact (hlists k).removeAll.2.1 x (List.mem_filter.mpr ⟨hx, hlx⟩)
  · rw [Sys.removed_links]
    refine (hlists k).removeAll.2.2 x fun h hm ↦ hx h ?_
    rw [Sys.waiters_append, Sys.waiters_cons, ← List.append_assoc]
    exact hm

theorem Base.removed (h : Base s f) (ht : t ∈ s.core) : Base (s.removed t) f := by
  have hself := s.removed_self t
  have hrest : (s.removed t).thLink = s.thLink ∧
      (s.removed t).globalTickets = s.globalTickets := by
    unfold Sys.removed
    rw [foldl_removeSlot]
    exact ⟨rfl, rfl⟩
  refine h.of_still ht (s.removed_frame t) hrest.1 (by rw [hself]) ?_ ?_
  · rw [hself, hrest.2]
    exact (sub_add_cancel ..).symm
  · rw [hself]
    exact h.pins t ht

theorem syncRemoveThread_wp (hs : (s.thread t).thSyncWaiting = true) :
    Wp (syncRemoveThread t) s (fun _ s' ↦ s' = s.removed t) fun _ _ ↦ False := by
  have he : (s.setThread t fun th ↦ { th with thSyncWaiting := false }).setThread t
      (fun th ↦ { th with teWaitSlots := [] }) =
      s.setThread t fun th ↦ { th with thSyncWaiting := false, teWaitSlots := [] } := by
    simp [Sys.setThread]
  have hte : ((s.setThread t fun th ↦ { th with thSyncWaiting := false }).thread t).teWaitSlots =
      (s.thread t).teWaitSlots := by
    rw [Sys.setThread_self]
  refine wp_threadOf (wp_require_of hs (wp_setThread (wp_threadOf (wp_setThread (Wp.modify ?_)))))
  unfold Sys.removed
  rw [← he, hte]

theorem Released.of_still (hst : Still s s') (ht : t ∉ ws) : Released ws t s s' :=
  ⟨fun w₁ w₂ hw ↦ absurd (by simp [hw]) ht, fun k x _ ↦ by rw [hst k]⟩

theorem Released.congr {s₁ s₂ : Sys} (h : Released ws t s₁ s₂) (hslot : s₁.slot = s.slot)
    (hte : ∀ u, (s₁.thread u).teWaitSlots = (s.thread u).teWaitSlots) (hst : Still s s₁)
    (hst' : Still s₂ s') : Released ws t s s' := by
  refine ⟨fun w₁ w₂ hw k x hx hlx ↦ ?_, fun k x hx ↦ ?_⟩
  · rw [← hte t] at hx
    rw [hst' k, ← hslot, ← Sys.waiters_congr hslot fun u _ ↦ hte u]
    exact h.own w₁ w₂ hw k x hx (by rwa [hslot])
  · rw [hst' k, ← hst k]
    refine h.other k x fun h hm ↦ hx h ?_
    rwa [← Sys.waiters_congr hslot fun u _ ↦ hte u]

structure Forgets (t : Nat) (s s' : Sys) : Prop where
  waits : ∀ ws, Waits s ws → Waits s' (ws.erase t) ∧ Released ws t s s'
  still : (s.thread t).thSyncWaiting = false →
    Still s s' ∧ (s'.thread t).teWaitSlots = (s.thread t).teWaitSlots

theorem Forgets.of_still (hf : Frame t s s') (hst : Still s s')
    (hs : (s.thread t).thSyncWaiting = false)
    (hs' : (s'.thread t).thSyncWaiting = (s.thread t).thSyncWaiting)
    (hte : (s'.thread t).teWaitSlots = (s.thread t).teWaitSlots) : Forgets t s s' := by
  refine ⟨fun ws hw ↦ ?_, fun _ ↦ ⟨hst, hte⟩⟩
  have hnot : t ∉ ws := fun hm ↦ by rw [((hw.mem t).mp hm).2] at hs; cases hs
  rw [List.erase_of_not_mem hnot]
  exact ⟨hw.of_frame hf hst hs' hte, .of_still hst hnot⟩

theorem Forgets.congr {s₁ s₂ : Sys} (h : Forgets t s₁ s₂) (hf : Frame t s s₁) (hst : Still s s₁)
    (hs : (s₁.thread t).thSyncWaiting = (s.thread t).thSyncWaiting)
    (hte : (s₁.thread t).teWaitSlots = (s.thread t).teWaitSlots) (hf' : Frame t s₂ s')
    (hst' : Still s₂ s') (hs' : (s'.thread t).thSyncWaiting = (s₂.thread t).thSyncWaiting)
    (hte' : (s'.thread t).teWaitSlots = (s₂.thread t).teWaitSlots) : Forgets t s s' := by
  refine ⟨fun ws hw ↦ ?_, fun hns ↦ ?_⟩
  · obtain ⟨hw₂, hr⟩ := h.waits ws (hw.of_frame hf hst hs hte)
    exact ⟨hw₂.of_frame hf' hst' hs' hte', hr.congr hf.slot (hf.same _ hte) hst hst'⟩
  · obtain ⟨hst₂, hte₂⟩ := h.still (hs.trans hns)
    exact ⟨(hst.trans hst₂).trans hst', hte'.trans (hte₂.trans hte)⟩

theorem Forgets.removed (s : Sys) (hs : (s.thread t).thSyncWaiting = true) (ht : t ∈ s.core) :
    Forgets t s (s.removed t) :=
  ⟨fun ws hw ↦ hw.removed ((hw.mem t).mpr ⟨ht, hs⟩), fun hns ↦ by rw [hs] at hns; cases hns⟩

structure Unlinks (f : ThreadList → List Nat) (t : Nat) (s s' : Sys) : Prop where
  base : Base s' (without t f)
  frame : Frame t s s'
  forgets : Forgets t s s'
  thread : ∃ l, s'.thread t =
    { s.thread t with thLinked := false, thSyncWaiting := false, teWaitSlots := l }

theorem threadUnlink_wp (h : Base s f) (ht : t ∈ s.core) :
    Wp (threadUnlink t) s (fun _ s' ↦ Unlinks f t s s') fun _ _ ↦ False := by
  have hsecond : ∀ s₁, Base s₁ (without t f) → Frame t s s₁ → Still s s₁ →
      s₁.thread t = { s.thread t with thLinked := false } →
      Wp (threadOf t >>= fun th ↦ Exec.when th.thSyncWaiting (syncRemoveThread t)) s₁
        (fun _ s' ↦ Unlinks f t s s') fun _ _ ↦ False := by
    intro s₁ h₁ hf hst hth
    have ht₁ : t ∈ s₁.core := hf.core ▸ ht
    refine wp_threadOf (Wp.when (fun hs ↦ ?_) fun hs ↦ ?_)
    · refine (syncRemoveThread_wp hs).mono ?_ fun _ _ hf ↦ hf
      rintro _ _ rfl
      refine ⟨h₁.removed ht₁, hf.trans (s₁.removed_frame t), ?_, [], ?_⟩
      · exact (Forgets.removed s₁ hs ht₁).congr hf hst (by rw [hth]) (by rw [hth]) (.refl t _)
          (fun _ ↦ rfl) rfl rfl
      · rw [Sys.removed_self, hth]
    · have hs' : (s.thread t).thSyncWaiting = false := by rwa [hth] at hs
      refine ⟨h₁, hf, .of_still hf hst hs' (by rw [hth]) (by rw [hth]), (s.thread t).teWaitSlots, ?_⟩
      rw [hth, ← hs']
  refine wp_threadOf (Wp.bind (Wp.when (fun hl ↦ ?_) fun hl ↦ ?_))
  · exact wp_modify (Wp.modify (hsecond _ (h.unlinked ht hl) (s.unlinked_frame t) (fun _ ↦ rfl)
      (s.unlinked_self t)))
  · have hnone : ∀ q, t ∉ f q := fun q hq ↦ by
      rw [((h.linked t).mp ⟨q, hq⟩).2] at hl
      cases hl
    exact hsecond s ((without_eq_self hnone).symm ▸ h) (.refl t s) (fun _ ↦ rfl) (by rw [← hl])

def relist (t : Nat) (q : ThreadList) (f : ThreadList → List Nat) : ThreadList → List Nat :=
  update f q (t :: f q)

theorem mem_relist {q q' : ThreadList} : u ∈ relist t q f q' ↔ u = t ∧ q' = q ∨ u ∈ f q' := by
  unfold relist
  by_cases hq : q' = q
  · rw [hq, update_self, List.mem_cons]
    simp
  · rw [update_of_ne hq]
    simp [hq]

theorem threadLink_wp (h : Base s f) (ht : t ∈ s.core) (hl : (s.thread t).thLinked = false)
    (q : ThreadList) : Wp (threadLink t q) s
      (fun _ s' ↦ Adjusts (relist t q f) t s s' (· = { s.thread t with thLinked := true }))
      fun _ _ ↦ False := by
  refine wp_threadOf (wp_require_of (by rw [hl]; rfl) (wp_modify (Wp.modify ?_)))
  have hself : ((({ s with thLink := s.thLink.insertHead q t }).setThread t fun th ↦
      { th with thLinked := true }).thread t) = { s.thread t with thLinked := true } :=
    update_self ..
  have hframe : Frame t s (({ s with thLink := s.thLink.insertHead q t }).setThread t fun th ↦
      { th with thLinked := true }) := ⟨rfl, rfl, fun _ hu ↦ update_of_ne hu ..⟩
  have hnone : ∀ q, t ∉ f q := fun q hq ↦ by
    rw [((h.linked t).mp ⟨q, hq⟩).2] at hl
    cases hl
  refine ⟨h.of_frame ht hframe (h.lists.insertHead hnone) (fun u hu ↦ ?_) ?_ ?_ ?_, hframe,
    fun _ ↦ rfl, hself⟩
  · exact exists_congr fun q' ↦ by rw [mem_relist]; simp [hu]
  · rw [hself]
    exact iff_of_true ⟨q, mem_relist.mpr (.inl ⟨rfl, rfl⟩)⟩ rfl
  · rw [hself]
    exact (sub_add_cancel ..).symm
  · rw [hself]
    exact h.pins t ht

end HiStar.Sched
