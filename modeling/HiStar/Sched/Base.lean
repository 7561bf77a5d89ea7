import HiStar.Sched.Sync

namespace HiStar.Sched

open Lib Function

variable {s s' : Sys} {t u : Nat} {f : ThreadList → List Nat} {ws : List Nat}

def SyncWaitSlot.listed (sw : SyncWaitSlot) : Table → Bool
  | .addr => true
  | .cobj => sw.swCobj.object ≠ 0

def SyncWaitSlot.head (sw : SyncWaitSlot) : Table → Fin 512
  | .addr => syncAddrHead sw.swSeg sw.swOffset
  | .cobj => syncCobjHead sw.swCobj

/-- The slots of a waiting thread on one list of a table, in the order of the list. -/
def Sys.queue (s : Sys) (k : Table) (h : Fin 512) (t : Nat) : List SlotId :=
  ((s.thread t).teWaitSlots.filter fun x ↦ (s.slot x).listed k).reverse.filter
    fun x ↦ (s.slot x).head k = h

def Sys.waiters (s : Sys) (ws : List Nat) (k : Table) (h : Fin 512) : List SlotId :=
  ws.flatMap (s.queue k h)

structure Waits (s : Sys) (ws : List Nat) : Prop where
  nodup : ws.Nodup
  mem : ∀ t, t ∈ ws ↔ t ∈ s.core ∧ (s.thread t).thSyncWaiting = true
  slots : ∀ t ∈ ws, ∀ x ∈ (s.thread t).teWaitSlots, x.1 = t ∧ (s.slot x).swT = t
  lists : ∀ k, (s.links k).Lists (s.waiters ws k)

def Thread.share (th : Thread) : BitVec 64 :=
  if th.thSchedJoined then th.thSchedTickets.setWidth 64 else 0

/-- The flags of the threads say whether they are on a list, counted and pinned. This holds
at every moment, also while a thread changes its status. -/
structure Base (s : Sys) (f : ThreadList → List Nat) : Prop where
  lists : s.thLink.Lists f
  linked : ∀ t, (∃ q, t ∈ f q) ↔ t ∈ s.core ∧ (s.thread t).thLinked = true
  tickets : s.globalTickets = ∑ t ∈ s.core, (s.thread t).share
  pins : ∀ t ∈ s.core, (s.thread t).thPinned = true → 0 < (s.thread t).koPin

structure Frame (t : Nat) (s s' : Sys) : Prop where
  core : s'.core = s.core
  slot : s'.slot = s.slot
  others : ∀ u, u ≠ t → s'.thread u = s.thread u

def Still (s s' : Sys) : Prop := ∀ k, s'.links k = s.links k

theorem Frame.refl (t : Nat) (s : Sys) : Frame t s s := ⟨rfl, rfl, fun _ _ ↦ rfl⟩

theorem Frame.trans {s₁ s₂ s₃ : Sys} (h : Frame t s₁ s₂) (h' : Frame t s₂ s₃) : Frame t s₁ s₃ :=
  ⟨h'.core.trans h.core, h'.slot.trans h.slot,
    fun u hu ↦ (h'.others u hu).trans (h.others u hu)⟩

theorem Still.trans {s₁ s₂ s₃ : Sys} (h : Still s₁ s₂) (h' : Still s₂ s₃) : Still s₁ s₃ :=
  fun k ↦ (h' k).trans (h k)

theorem Sys.setThread_self (s : Sys) (t : Nat) (g : Thread → Thread) :
    (s.setThread t g).thread t = g (s.thread t) := update_self ..

theorem Sys.setThread_ne (s : Sys) {t u : Nat} (g : Thread → Thread) (h : u ≠ t) :
    (s.setThread t g).thread u = s.thread u := update_of_ne h ..

theorem Frame.setThread (s : Sys) (t : Nat) (g : Thread → Thread) : Frame t s (s.setThread t g) :=
  ⟨rfl, rfl, fun _ hu ↦ s.setThread_ne g hu⟩

theorem Sys.queue_congr (hslot : s'.slot = s.slot)
    (hte : (s'.thread t).teWaitSlots = (s.thread t).teWaitSlots) (k : Table) (h : Fin 512) :
    s'.queue k h t = s.queue k h t := by
  unfold Sys.queue
  rw [hslot, hte]

theorem Sys.waiters_congr (hslot : s'.slot = s.slot)
    (hte : ∀ t ∈ ws, (s'.thread t).teWaitSlots = (s.thread t).teWaitSlots) (k : Table) :
    s'.waiters ws k = s.waiters ws k := by
  funext h
  exact List.flatMap_congr fun t ht ↦ Sys.queue_congr hslot (hte t ht) k h

theorem Waits.congr (hw : Waits s ws) (hcore : s'.core = s.core) (hslot : s'.slot = s.slot)
    (hlinks : Still s s')
    (hsync : ∀ t ∈ s.core, (s'.thread t).thSyncWaiting = (s.thread t).thSyncWaiting)
    (hte : ∀ t ∈ s.core, (s'.thread t).teWaitSlots = (s.thread t).teWaitSlots) : Waits s' ws := by
  have hin : ∀ t ∈ ws, t ∈ s.core := fun t ht ↦ ((hw.mem t).mp ht).1
  refine ⟨hw.nodup, fun t ↦ ?_, fun t ht x hx ↦ ?_, fun k ↦ ?_⟩
  · rw [hw.mem, hcore]
    exact and_congr_right fun ht ↦ by rw [hsync t ht]
  · rw [hte t (hin t ht)] at hx
    rw [hslot]
    exact hw.slots t ht x hx
  · rw [hlinks k, Sys.waiters_congr hslot fun t ht ↦ hte t (hin t ht)]
    exact hw.lists k

theorem Frame.share_sum (hf : Frame t s s') (ht : t ∈ s.core) :
    ∑ u ∈ s'.core, (s'.thread u).share =
      ∑ u ∈ s.core, (s.thread u).share - (s.thread t).share + (s'.thread t).share := by
  have hrest : ∑ u ∈ s.core.erase t, (s'.thread u).share =
      ∑ u ∈ s.core.erase t, (s.thread u).share :=
    Finset.sum_congr rfl fun u hu ↦ by rw [hf.others u (Finset.ne_of_mem_erase hu)]
  rw [hf.core, ← Finset.add_sum_erase s.core _ ht, ← Finset.add_sum_erase s.core _ ht, hrest]
  ring

theorem Base.of_frame {f' : ThreadList → List Nat} (h : Base s f) (ht : t ∈ s.core)
    (hf : Frame t s s') (hl : s'.thLink.Lists f')
    (hother : ∀ u, u ≠ t → ((∃ q, u ∈ f' q) ↔ ∃ q, u ∈ f q))
    (hself : (∃ q, t ∈ f' q) ↔ (s'.thread t).thLinked = true)
    (htick : s'.globalTickets = s.globalTickets - (s.thread t).share + (s'.thread t).share)
    (hpin : (s'.thread t).thPinned = true → 0 < (s'.thread t).koPin) : Base s' f' := by
  refine ⟨hl, fun u ↦ ?_, by rw [hf.share_sum ht, htick, h.tickets], fun u hu ↦ ?_⟩
  · by_cases hut : u = t
    · rw [hut, hself, hf.core]
      exact (and_iff_right ht).symm
    · rw [hother u hut, h.linked, hf.core, hf.others u hut]
  · by_cases hut : u = t
    · rw [hut]
      exact hpin
    · rw [hf.others u hut]
      exact h.pins u (hf.core ▸ hu)

theorem Base.of_still (h : Base s f) (ht : t ∈ s.core) (hf : Frame t s s')
    (hlink : s'.thLink = s.thLink) (hl : (s'.thread t).thLinked = (s.thread t).thLinked)
    (htick : s'.globalTickets = s.globalTickets - (s.thread t).share + (s'.thread t).share)
    (hpin : (s'.thread t).thPinned = true → 0 < (s'.thread t).koPin) : Base s' f := by
  refine h.of_frame ht hf (hlink ▸ h.lists) (fun _ _ ↦ Iff.rfl) ?_ htick hpin
  rw [h.linked, hl]
  exact and_iff_right ht

theorem Frame.same {β : Type} (hf : Frame t s s') (g : Thread → β)
    (hg : g (s'.thread t) = g (s.thread t)) (u : Nat) : g (s'.thread u) = g (s.thread u) := by
  by_cases hu : u = t
  · rw [hu, hg]
  · rw [hf.others u hu]

theorem Waits.of_frame (hw : Waits s ws) (hf : Frame t s s') (hstill : Still s s')
    (hs : (s'.thread t).thSyncWaiting = (s.thread t).thSyncWaiting)
    (hte : (s'.thread t).teWaitSlots = (s.thread t).teWaitSlots) : Waits s' ws :=
  hw.congr hf.core hf.slot hstill (fun u _ ↦ hf.same _ hs u) fun u _ ↦ hf.same _ hte u

end HiStar.Sched
