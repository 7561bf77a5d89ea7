import HiStar.Sched.Reach
import HiStar.Sched.Wakeup

namespace HiStar.Sched

open Lib Function Relation

variable {s s' : Sys} {t u : Nat} {f : ThreadList → List Nat} {ws w₁ w₂ : List Nat}
  {x y p : SlotId} {k : Table} {head : Fin 512} {hit : SyncWaitSlot → Bool}

theorem Sys.mem_queue (hx : x ∈ s.queue k head t) :
    x ∈ (s.thread t).teWaitSlots ∧ (s.slot x).listed k = true ∧ (s.slot x).head k = head := by
  obtain ⟨hx, hh⟩ := List.mem_filter.mp hx
  obtain ⟨hte, hl⟩ := List.mem_filter.mp (List.mem_reverse.mp hx)
  exact ⟨hte, hl, of_decide_eq_true hh⟩

/-- The loop comes to the first matching slot of a thread and wakes it up. If it has passed another
slot of this thread, then `prev` is out of the table afterwards. -/
theorem rounds_wake {stale : Bool} {prev : Option SlotId}
    (hc : Consistent s f (w₁ ++ t :: w₂)) (hb : Behind k head s w₁ (t :: w₂) stale prev)
    (hh : s.hits k head hit t = true) :
    (∃ s' y p, stale = true ∧ (s.queue k head t).head? = some y ∧ hit (s.slot y) = true ∧
      ReflTransGen (Round k head hit) ⟨s, (s.waiters (t :: w₂) k head).head?, prev⟩
        ⟨s', some y, some p⟩ ∧ Stuck k hit s' y p) ∨
    ∃ s' stale' prev', ReflTransGen (Round k head hit)
        ⟨s, (s.waiters (t :: w₂) k head).head?, prev⟩ ⟨s', (s'.waiters w₂ k head).head?, prev'⟩ ∧
      WokenUp w₁ w₂ t s s' ∧ Behind k head s' w₁ w₂ stale' prev' ∧
      (s.Catches k head hit stale (t :: w₂) ↔ s.Catches k head hit stale' w₂) := by
  have hslots := hc.waits.slots t (by simp)
  have hseg := hc.waits.seg k head
  obtain ⟨s', hrun, hwoke⟩ := wakes_thread hc
  obtain ⟨f', hc'⟩ := hwoke.sound
  obtain ⟨x, hfind⟩ := Option.isSome_iff_exists.mp (List.find?_isSome.mpr (List.any_eq_true.mp hh))
  obtain ⟨hx, b₁, b₂, hq, hb₁⟩ := List.find?_eq_some_iff_append.mp hfind
  have hxt : (s.slot x).swT = t :=
    (hslots x (Sys.mem_queue (hq ▸ List.mem_append_right _ List.mem_cons_self)).1).2
  rw [Sys.waiters_cons, hq, List.append_assoc, List.cons_append] at hseg
  have hno : ∀ y ∈ b₁, hit (s.slot y) = false := fun y hy ↦ by simpa using hb₁ y hy
  have hskip := rounds_skip prev hseg hno
  have hwake : Round k head hit ⟨s, some x, b₁.getLast?.or prev⟩
      ⟨s', after k head (b₁.getLast?.or prev) s', b₁.getLast?.or prev⟩ := .wake hx (hxt ▸ hrun)
  have hall := hskip.tail hwake
  rw [← List.cons_append, ← List.append_assoc, ← hq, ← Sys.waiters_cons] at hall
  rcases List.eq_nil_or_concat' b₁ with rfl | ⟨b, p, rfl⟩
  · rw [List.nil_append] at hq
    cases hb with
    | fresh =>
      refine .inr ⟨s', false, (s.waiters w₁ k head).getLast?, ?_, hwoke, ?_, ?_⟩
      · rwa [List.getLast?_nil, Option.none_or, ← hwoke.waiters_eq hc.notMem.1,
          Behind.after_fresh hc'.waits, hwoke.waiters_eq hc.notMem.1] at hall
      · rw [← hwoke.waiters_eq hc.notMem.1]
        exact .fresh
      · rw [Sys.Catches, hq]
        dsimp only
        rw [hx]
        simp
    | @stale p hout hnext =>
      have hnext' : (s'.links k).next p = some x := by
        rw [hwoke.released.other k p hout, hnext, Sys.waiters_cons, hq]
        rfl
      refine .inl ⟨s', x, p, rfl, by rw [hq]; rfl, hx, ?_, ⟨f', _, hc'⟩, ?_, ?_, ?_, hnext'⟩
      · rw [List.getLast?_nil, Option.none_or] at hall
        rwa [show after k head (some p) s' = some x from hnext'] at hall
      · rw [hwoke.frame.slot, hxt, hwoke.frame.core]
        exact ((hc.waits.mem t).mp (by simp)).1
      · rw [hwoke.frame.slot]
        exact hx
      · rw [hwoke.frame.slot, hxt]
        exact hwoke.waiting
  · right
    have hpq : p ∈ s.queue k head t := by simp [hq]
    obtain ⟨hpte, hpl, hph⟩ := Sys.mem_queue hpq
    have hp1 := (hslots p hpte).1
    have hnext : (s'.links k).next p = (s'.waiters w₂ k head).head? := by
      rw [hwoke.released.own w₁ w₂ rfl k p hpte hpl, hph, hwoke.waiters_eq hc.notMem.2]
    refine ⟨s', true, some p, ?_, hwoke, .stale (fun h hm ↦ ?_) hnext, ?_⟩
    · rw [List.getLast?_concat] at hall
      rwa [show after k head ((some p).or prev) s' = _ from hnext] at hall
    · have hmem := (hc'.waits.mem_waiters hm).1
      rw [hp1] at hmem
      exact (List.mem_append.mp hmem).elim hc.notMem.1 hc.notMem.2
    · rw [Sys.Catches, hq]
      cases b with
      | nil =>
        have hpn := hb₁ p (by simp)
        dsimp only [List.nil_append, List.cons_append]
        rw [if_neg (by simpa using hpn), List.any_cons, hx]
        rfl
      | cons z b =>
        have hzn := hb₁ z (by simp)
        dsimp only [List.cons_append]
        rw [if_neg (by simpa using hzn)]
        have hany : ((b ++ [p] ++ x :: b₂).any fun y ↦ hit (s.slot y)) = true :=
          List.any_eq_true.mpr ⟨x, by simp, hx⟩
        rw [hany]

theorem rounds_scan {stale : Bool} {prev : Option SlotId} (hc : Consistent s f (w₁ ++ w₂))
    (hb : Behind k head s w₁ w₂ stale prev) :
    (s.Catches k head hit stale w₂ → ∃ s' y p, ReflTransGen (Round k head hit)
      ⟨s, (s.waiters w₂ k head).head?, prev⟩ ⟨s', some y, some p⟩ ∧ Stuck k hit s' y p) ∧
    (¬ s.Catches k head hit stale w₂ → ∃ s' prev', ReflTransGen (Round k head hit)
      ⟨s, (s.waiters w₂ k head).head?, prev⟩ ⟨s', none, prev'⟩ ∧
        Wakes k head hit w₁ w₂ s s') := by
  -- One thread after the other; those that have been passed move to `w₁`.
  induction w₂ generalizing w₁ s f stale prev with
  | nil =>
    refine ⟨fun h ↦ h.elim, fun _ ↦ ⟨s, prev, .refl, ⟨f, hc⟩, rfl, rfl, ?_, fun _ _ ↦ rfl⟩⟩
    exact fun t ht ↦ absurd ht List.not_mem_nil
  | cons t w₂ ih =>
    cases hh : s.hits k head hit t with
    | false =>
      obtain ⟨stale', prev', hr, hb', hcatch⟩ := rounds_pass hc.waits hb hh
      have hc' : Consistent s f ((w₁ ++ [t]) ++ w₂) := by simpa using hc
      obtain ⟨ih₁, ih₂⟩ := ih hc' hb'
      refine ⟨fun h ↦ ?_, fun h ↦ ?_⟩
      · obtain ⟨s', y, p, hr', hs⟩ := ih₁ (hcatch.mp h)
        exact ⟨s', y, p, hr.trans hr', hs⟩
      · obtain ⟨s', prev'', hr', hw⟩ := ih₂ fun h' ↦ h (hcatch.mpr h')
        exact ⟨s', prev'', hr.trans hr', .of_passed hh hw⟩
    | true =>
      rcases rounds_wake hc hb hh with ⟨s', y, p, rfl, hy, hyh, hr, hs⟩ |
        ⟨s', stale', prev', hr, hwoke, hb', hcatch⟩
      · refine ⟨fun _ ↦ ⟨s', y, p, hr, hs⟩, fun h ↦ absurd ?_ h⟩
        rw [Sys.Catches]
        cases hq : s.queue k head t with
        | nil =>
          rw [hq] at hy
          cases hy
        | cons z b =>
          rw [hq] at hy
          cases hy
          dsimp only
          rw [if_pos hyh]
          exact .inl rfl
      · obtain ⟨f', hc'⟩ := hwoke.sound
        obtain ⟨ih₁, ih₂⟩ := ih hc' hb'
        have hcongr : s'.Catches k head hit stale' w₂ ↔ s.Catches k head hit stale' w₂ :=
          Sys.catches_congr hwoke.frame.slot
            (fun u hu ↦ hwoke.frame.others u fun he ↦ hc.notMem.2 (he ▸ hu)) stale'
        refine ⟨fun h ↦ ?_, fun h ↦ ?_⟩
        · obtain ⟨s'', y, p, hr', hs⟩ := ih₁ (hcongr.mpr (hcatch.mp h))
          exact ⟨s'', y, p, hr.trans hr', hs⟩
        · obtain ⟨s'', prev'', hr', hw⟩ := ih₂ fun h' ↦ h (hcatch.mpr (hcongr.mp h'))
          exact ⟨s'', prev'', hr.trans hr', .of_wokenUp hc hh hwoke hw⟩

/-- In one list of a table, the slots `x :: m` of a thread are followed by a slot `y` of another one
that matches. Of the first thread's slots `x` does not match, but a later one does. -/
def Tangled (s : Sys) (k : Table) (head : Fin 512) (hit : SyncWaitSlot → Bool) : Prop :=
  ∃ l₁ x m y l₂, (s.links k).Seg (.inl head) (l₁ ++ x :: m ++ y :: l₂) ∧
    (∀ z ∈ m, z.1 = x.1) ∧ (∀ z ∈ l₁, z.1 ≠ x.1) ∧ y.1 ≠ x.1 ∧
    hit (s.slot x) = false ∧ (∃ z ∈ m, hit (s.slot z) = true) ∧ hit (s.slot y) = true

theorem append_split_unique {α : Type} {P : α → Prop} {A B C D : List α} (h : A ++ B = C ++ D)
    (hA : ∀ a ∈ A, P a) (hC : ∀ a ∈ C, P a) (hB : ∀ a ∈ B.head?, ¬ P a)
    (hD : ∀ a ∈ D.head?, ¬ P a) : A = C ∧ B = D := by
  induction A generalizing C with
  | nil =>
    cases C with
    | nil => exact ⟨rfl, h⟩
    | cons c C =>
      rw [List.nil_append] at h
      exact absurd (hC c List.mem_cons_self) (hB c (by simp [h]))
  | cons a A ih =>
    cases C with
    | nil =>
      rw [List.nil_append] at h
      exact absurd (hA a List.mem_cons_self) (hD a (by simp [← h]))
    | cons c C =>
      rw [List.cons_append, List.cons_append] at h
      injection h with hac h
      obtain ⟨h1, h2⟩ := ih h (fun b hb ↦ hA b (List.mem_cons_of_mem a hb))
        fun b hb ↦ hC b (List.mem_cons_of_mem c hb)
      exact ⟨by rw [hac, h1], h2⟩

theorem Waits.mem_waiters_sub (hw : Waits s ws) {w : List Nat} (hsub : ∀ t ∈ w, t ∈ ws)
    (hx : x ∈ s.waiters w k head) : x.1 ∈ w := by
  obtain ⟨u, hu, hxu⟩ := List.mem_flatMap.mp hx
  rwa [(hw.slots u (hsub u hu) x (Sys.mem_queue hxu).1).1]

theorem Waits.mem_queue_fst (hw : Waits s ws) (ht : t ∈ ws) (hx : x ∈ s.queue k head t) :
    x.1 = t := (hw.slots t ht x (Sys.mem_queue hx).1).1

theorem Tangled.of_catches {stale : Bool} (hw : Waits s (w₁ ++ w₂))
    (h : s.Catches k head hit stale w₂)
    (htrail : stale = true → ∃ l₁ x m, s.waiters w₁ k head = l₁ ++ x :: m ∧
      (∀ z ∈ m, z.1 = x.1) ∧ (∀ z ∈ l₁, z.1 ≠ x.1) ∧ hit (s.slot x) = false ∧
      ∃ z ∈ m, hit (s.slot z) = true) : Tangled s k head hit := by
  induction w₂ generalizing w₁ stale with
  | nil => exact h.elim
  | cons t w₂ ih =>
    have hw' : Waits s ((w₁ ++ [t]) ++ w₂) := by simpa using hw
    have hwait : s.waiters (w₁ ++ [t]) k head = s.waiters w₁ k head ++ s.queue k head t := by
      rw [Sys.waiters_append, Sys.waiters_cons]
      exact congrArg _ (List.append_nil _)
    have hnd := hw.nodup
    rw [List.nodup_middle, List.nodup_cons, List.mem_append, not_or] at hnd
    have hw₁ : ∀ z ∈ s.waiters w₁ k head, z.1 ≠ t := by
      rintro z hz rfl
      exact hnd.1.1 (hw.mem_waiters_sub (fun u hu ↦ List.mem_append_left _ hu) hz)
    have hfst : ∀ z ∈ s.queue k head t, z.1 = t := fun z hz ↦ hw.mem_queue_fst (by simp) hz
    rw [Sys.Catches] at h
    cases hq : s.queue k head t with
    | nil =>
      rw [hq] at h hwait
      rw [List.append_nil] at hwait
      exact ih hw' h (hwait ▸ htrail)
    | cons y b =>
      rw [hq] at h hwait hfst
      dsimp only at h
      split at h
      next hy =>
        rcases h with rfl | h
        · obtain ⟨l₁, x, m, hl, hm, hl₁, hx, hz⟩ := htrail rfl
          have hseg := hw.seg k head
          rw [Sys.waiters_cons, hq, hl, List.cons_append] at hseg
          refine ⟨l₁, x, m, y, b ++ s.waiters w₂ k head, hseg, hm, hl₁, ?_, hx, hz, hy⟩
          rw [hfst y List.mem_cons_self]
          exact (hw₁ x (by simp [hl])).symm
        · exact ih hw' h (by rintro ⟨⟩)
      next hy =>
        refine ih hw' h fun hany ↦ ?_
        obtain ⟨z, hz, hzh⟩ := List.any_eq_true.mp hany
        refine ⟨_, y, b, hwait, fun w hwb ↦ ?_, fun w hww ↦ ?_, by simpa using hy, z, hz, hzh⟩
        · rw [hfst w (List.mem_cons_of_mem y hwb), hfst y List.mem_cons_self]
        · rw [hfst y List.mem_cons_self]
          exact hw₁ w hww

theorem Sys.catches_append (h : ∀ stale, s.Catches k head hit stale w₂) (stale : Bool) :
    s.Catches k head hit stale (w₁ ++ w₂) := by
  induction w₁ generalizing stale with
  | nil => exact h stale
  | cons t w₁ ih =>
    rw [List.cons_append, Sys.Catches]
    cases s.queue k head t with
    | nil => exact ih stale
    | cons x b =>
      dsimp only
      split
      · exact .inr (ih false)
      · exact ih _

theorem Sys.catches_of_head (hy : (s.waiters ws k head).head? = some y)
    (hh : hit (s.slot y) = true) : s.Catches k head hit true ws := by
  induction ws with
  | nil => cases hy
  | cons t ws ih =>
    rw [Sys.waiters_cons] at hy
    rw [Sys.Catches]
    cases hq : s.queue k head t with
    | nil =>
      rw [hq] at hy
      exact ih hy
    | cons x b =>
      rw [hq] at hy
      cases hy
      dsimp only
      rw [if_pos hh]
      exact .inl rfl

theorem Tangled.catches (hw : Waits s ws) (h : Tangled s k head hit) :
    s.Catches k head hit false ws := by
  obtain ⟨l₁, x, m, y, l₂, hseg, hm, hl₁, hyx, hx, ⟨z, hz, hzh⟩, hy⟩ := h
  have hl := hseg.unique ((hw.lists k).seg head)
  have hmem : x ∈ s.waiters ws k head := by simp [← hl]
  obtain ⟨hxw, hxte, hxl, hxh⟩ := hw.mem_waiters hmem
  obtain ⟨v₁, v₂, rfl⟩ := List.append_of_mem hxw
  have hnd := hw.nodup
  rw [List.nodup_middle, List.nodup_cons, List.mem_append, not_or] at hnd
  have hxq : x ∈ s.queue k head x.1 :=
    List.mem_filter.mpr ⟨List.mem_reverse.mpr (List.mem_filter.mpr ⟨hxte, hxl⟩),
      decide_eq_true hxh⟩
  have hfst : ∀ z ∈ s.queue k head x.1, z.1 = x.1 := fun z hz ↦ hw.mem_queue_fst (by simp) hz
  have hv₁ : ∀ z ∈ s.waiters v₁ k head, z.1 ≠ x.1 := fun z hz he ↦
    hnd.1.1 (he ▸ hw.mem_waiters_sub (fun u hu ↦ List.mem_append_left _ hu) hz)
  have hv₂ : ∀ z ∈ s.waiters v₂ k head, z.1 ≠ x.1 := fun z hz he ↦
    hnd.1.2 (he ▸ hw.mem_waiters_sub
      (fun u hu ↦ List.mem_append_right _ (List.mem_cons_of_mem _ hu)) hz)
  rw [Sys.waiters_append, Sys.waiters_cons, List.append_assoc] at hl
  -- The part before the slots of `x`'s thread, then those slots themselves.
  obtain ⟨-, hl⟩ := append_split_unique (P := fun z ↦ z.1 ≠ x.1) hl hl₁ hv₁
    (fun a ha ↦ by
      cases ha
      exact fun h ↦ h rfl)
    fun a ha ↦ by
      cases hq : s.queue k head x.1 with
      | nil =>
        rw [hq] at hxq
        exact absurd hxq List.not_mem_nil
      | cons w b =>
        rw [hq] at ha hfst
        cases ha
        exact fun h ↦ h (hfst _ List.mem_cons_self)
  obtain ⟨hq, hrest⟩ := append_split_unique (P := fun z ↦ z.1 = x.1) hl
    (fun a ha ↦ by
      rcases List.mem_cons.mp ha with rfl | ha
      · rfl
      · exact hm a ha)
    hfst
    (fun a ha ↦ by
      cases ha
      exact hyx)
    fun a ha ↦ hv₂ a (List.mem_of_mem_head? ha)
  refine Sys.catches_append (fun stale ↦ ?_) false
  rw [Sys.Catches, ← hq]
  dsimp only
  rw [if_neg (by simp [hx]), List.any_eq_true.mpr ⟨z, hz, hzh⟩]
  exact Sys.catches_of_head (by rw [← hrest]; rfl) hy

theorem Waits.catches_iff (hw : Waits s ws) :
    s.Catches k head hit false ws ↔ Tangled s k head hit :=
  ⟨fun h ↦ .of_catches (show Waits s ([] ++ ws) from hw) h (by rintro ⟨⟩), fun h ↦ h.catches hw⟩

end HiStar.Sched
