import HiStar.Pagetree.Keeps

namespace HiStar.Pagetree

open Lib Function

variable {α : Type} {s s' : Mem α} {pt i j p new parent : Nat} {path : List Nat} {e x : Ent}
  {π : Pos} {other : Set Nat} {pos : Nat → Pos} {holders : Nat → Finset Ent}

namespace PageInfo

def drop (i : PageInfo) : PageInfo :=
  if i.piRef = 1 then { piFreepage := true } else { i with piRef := i.piRef - 1 }

end PageInfo

structure Put (s s' : Mem α) (e : Ent) (new parent : Nat) : Prop where
  page : s'.page = update s.page e new
  data : s'.data = s.data
  info_new : new ≠ 0 → s'.info new = { piRef := 1, piParent := parent }
  info_old : s.page e ≠ 0 → s'.info (s.page e) = (s.info (s.page e)).drop
  info_other : ∀ p, p ≠ 0 → p ≠ new → p ≠ s.page e → s'.info p = s.info p
  info_null : s'.info 0 = s.info 0
  free : s'.freeList = if s.page e ≠ 0 ∧ (s.info (s.page e)).piRef = 1 then s.page e :: s.freeList
    else s.freeList

structure PutOf (other : Set Nat) (pos : Nat → Pos) (holders : Nat → Finset Ent) (s s' : Mem α)
    (e : Ent) (new parent : Nat) : Prop extends Put s s' e new parent, Wf other pos holders s where
  live : s.Live e
  leaf : ¬ (posOf pos e).Inner
  fresh : new = 0 ∨ new ∈ other

namespace PutOf

variable (hp : PutOf other pos holders s s' e new parent)

include hp

theorem new_ref : (s.info new).piRef = 0 := by
  rcases hp.fresh with rfl | ho
  · exact hp.null
  · exact hp.other_ref new ho

theorem page_ne_new (hx : s.Live x) (h0 : s.page x ≠ 0) : s.page x ≠ new := by
  intro hn
  have := hp.ref_pos hx h0
  rw [hn, hp.new_ref] at this
  exact absurd this (lt_irrefl 0)

theorem page_e : s'.page e = new := by
  rw [hp.page, update_self]

theorem page_ne (hx : x ≠ e) : s'.page x = s.page x := by
  rw [hp.page, update_of_ne hx]

theorem old_not_indir (h0 : s.page e ≠ 0) : (s.info (s.page e)).piIndir = false := by
  by_contra hi
  rw [Bool.not_eq_false] at hi
  have hpos := hp.pos_eq e hp.live h0
  exact hp.leaf (hpos ▸ (hp.indir_iff _ (hp.ref_pos hp.live h0)).mp hi)

theorem info_indir {q : Nat}
    (hq : (s.info q).piIndir = true ∨ (s'.info q).piIndir = true) : s'.info q = s.info q := by
  by_cases h0 : q = 0
  · rw [h0, hp.info_null]
  by_cases hn : q = new
  · subst hn
    rw [hp.info_new h0, hp.clean q hp.new_ref] at hq
    rcases hq with hq | hq <;> cases hq
  by_cases ho : q = s.page e
  · subst ho
    have hi := hp.old_not_indir h0
    rw [hp.info_old h0, hi] at hq
    unfold PageInfo.drop at hq
    split at hq
    · rcases hq with hq | hq <;> cases hq
    · rcases hq with hq | hq
      · cases hq
      · rw [show ((s.info (s.page e)).piIndir) = false from hi] at hq
        cases hq
  · exact hp.info_other q h0 hn ho

theorem live_iff : s'.Live x ↔ s.Live x := by
  cases x with
  | direct => exact Iff.rfl
  | indirect => exact Iff.rfl
  | entry q j =>
    rw [Mem.live_entry, Mem.live_entry]
    constructor
    · rintro ⟨hr, hi, hj⟩
      rw [hp.info_indir (.inr hi)] at hr hi
      exact ⟨hr, hi, hj⟩
    · rintro ⟨hr, hi, hj⟩
      rw [hp.info_indir (.inl hi)]
      exact ⟨hr, hi, hj⟩

def newHolders (holders : Nat → Finset Ent) (e : Ent) (new p : Nat) : Finset Ent :=
  if p = new then {e} else (holders p).erase e

theorem mem_newHolders (h0 : p ≠ 0) :
    x ∈ newHolders holders e new p ↔ s'.Live x ∧ s'.page x = p := by
  rw [hp.live_iff]
  unfold newHolders
  split
  next hpn =>
    subst hpn
    rw [Finset.mem_singleton]
    constructor
    · rintro rfl
      exact ⟨hp.live, hp.page_e⟩
    · rintro ⟨hl, hpg⟩
      by_contra hxe
      rw [hp.page_ne hxe] at hpg
      exact hp.page_ne_new hl (hpg ▸ h0) hpg
  next hpn =>
    rw [Finset.mem_erase, hp.mem_holders p h0]
    constructor
    · rintro ⟨hxe, hl, hpg⟩
      exact ⟨hl, (hp.page_ne hxe).trans hpg⟩
    · rintro ⟨hl, hpg⟩
      have hxe : x ≠ e := by
        rintro rfl
        exact hpn (hp.page_e ▸ hpg).symm
      exact ⟨hxe, hl, (hp.page_ne hxe).symm.trans hpg⟩

theorem card_newHolders (h0 : p ≠ 0) : (s'.info p).piRef = (newHolders holders e new p).card := by
  unfold newHolders
  split
  next hpn =>
    subst hpn
    rw [hp.info_new h0]
    rfl
  next hpn =>
    by_cases ho : p = s.page e
    · subst ho
      have hmem : e ∈ holders (s.page e) := (hp.mem_holders _ h0 e).mpr ⟨hp.live, rfl⟩
      rw [hp.info_old h0, Finset.card_erase_of_mem hmem, ← hp.ref_eq _ h0]
      unfold PageInfo.drop
      split
      next h1 => rw [h1]
      next => rfl
    · rw [hp.info_other p h0 hpn ho, hp.ref_eq p h0, Finset.erase_eq_of_notMem]
      exact fun he ↦ ho ((hp.mem_holders p h0 e).mp he).2.symm

theorem newPos_eq (hx : s'.Live x) (h0 : s'.page x ≠ 0) : update pos new (posOf pos e) (s'.page x) =
      posOf (update pos new (posOf pos e)) x := by
  have hl := hp.live_iff.mp hx
  have hxn : ∀ j, x ≠ .entry new j := by
    rintro j rfl
    exact absurd hl.1 (by rw [hp.new_ref]; exact lt_irrefl 0)
  rw [posOf_update hxn]
  by_cases hxe : x = e
  · rw [hxe, hp.page_e, update_self]
  · rw [hp.page_ne hxe] at h0 ⊢
    rw [update_of_ne (hp.page_ne_new hl h0)]
    exact hp.pos_eq x hl h0

theorem unused_cases (hr : (s'.info p).piRef = 0) :
    (p = s.page e ∧ s.page e ≠ 0 ∧ (s.info (s.page e)).piRef = 1) ∨
      (p ≠ new ∨ p = 0) ∧ (s.info p).piRef = 0 ∧ s'.info p = s.info p := by
  by_cases h0 : p = 0
  · subst h0
    exact .inr ⟨.inr rfl, hp.null, hp.info_null⟩
  have hn : p ≠ new := by
    rintro rfl
    rw [hp.info_new h0] at hr
    cases hr
  by_cases ho : p = s.page e
  · subst ho
    refine .inl ⟨rfl, h0, ?_⟩
    have hpos := hp.ref_pos hp.live h0
    rw [hp.info_old h0] at hr
    unfold PageInfo.drop at hr
    split at hr
    next h1 => exact h1
    next h1 =>
      replace hr : (s.info (s.page e)).piRef - 1 = 0 := hr
      omega
  · have hi := hp.info_other p h0 hn ho
    rw [hi] at hr
    exact .inr ⟨.inl hn, hr, hi⟩

theorem mem_free' : p ∈ s'.freeList ↔
    p ∈ s.freeList ∨ p = s.page e ∧ s.page e ≠ 0 ∧ (s.info (s.page e)).piRef = 1 := by
  rw [hp.free]
  split
  next h =>
    rw [List.mem_cons]
    constructor
    · rintro (rfl | hm)
      · exact .inr ⟨rfl, h⟩
      · exact .inl hm
    · rintro (hm | ⟨rfl, -⟩)
      · exact .inr hm
      · exact .inl rfl
  next h => exact ⟨.inl, fun hm ↦ hm.resolve_right fun h' ↦ h h'.2⟩

theorem ref_pos' (hr : 0 < (s'.info p).piRef) : p = new ∨ 0 < (s.info p).piRef := by
  by_cases h0 : p = 0
  · subst h0
    rw [hp.info_null] at hr
    exact .inr hr
  by_cases hn : p = new
  · exact .inl hn
  by_cases ho : p = s.page e
  · subst ho
    exact .inr (hp.ref_pos hp.live h0)
  · rw [hp.info_other p h0 hn ho] at hr
    exact .inr hr

theorem info_same (hr : 0 < (s.info p).piRef) (hr' : 0 < (s'.info p).piRef) :
    (s'.info p).piRef ≤ (s.info p).piRef ∧ (s'.info p).piIndir = (s.info p).piIndir ∧
    (s'.info p).piHwWritePin = (s.info p).piHwWritePin ∧
    (s'.info p).piWriteSharedRef = (s.info p).piWriteSharedRef := by
  have h0 := hp.toWf.ne_zero hr
  have hn : p ≠ new := by
    rintro rfl
    rw [hp.new_ref] at hr
    exact absurd hr (lt_irrefl 0)
  by_cases ho : p = s.page e
  · subst ho
    rw [hp.info_old h0] at hr' ⊢
    unfold PageInfo.drop at hr' ⊢
    split at hr'
    · exact absurd hr' (lt_irrefl 0)
    next h1 =>
      rw [if_neg h1]
      exact ⟨Nat.sub_le _ _, rfl, rfl, rfl⟩
  · rw [hp.info_other p h0 hn ho]
    exact ⟨le_rfl, rfl, rfl, rfl⟩

theorem not_pinned_new (h0 : new ≠ 0) : (s'.info new).piHwWritePin = 0 := by
  rw [hp.info_new h0]

theorem pinned (hpin : (s'.info p).piHwWritePin ≠ 0) :
    0 < (s.info p).piRef ∧ 0 < (s'.info p).piRef ∧ (s.info p).piHwWritePin ≠ 0 := by
  have hr' : 0 < (s'.info p).piRef := by
    by_contra hz
    obtain ⟨rfl, h0, h1⟩ | ⟨-, hr, hi⟩ := hp.unused_cases (p := p) (by omega)
    · rw [hp.info_old h0, PageInfo.drop, if_pos h1] at hpin
      exact hpin rfl
    · rw [hi, hp.clean p hr] at hpin
      exact hpin rfl
  rcases hp.ref_pos' hr' with rfl | hr
  · by_cases h0 : p = 0
    · subst h0
      rw [hp.info_null, hp.null] at hr'
      exact absurd hr' (lt_irrefl 0)
    · exact absurd (hp.not_pinned_new h0) hpin
  · exact ⟨hr, hr', (hp.info_same hr hr').2.2.1 ▸ hpin⟩

theorem wf : Wf (other \ {new}) (update pos new (posOf pos e)) (newHolders holders e new) s' where
  null := by rw [hp.info_null]; exact hp.null
  mem_holders p h0 x := hp.mem_newHolders h0
  ref_eq p h0 := hp.card_newHolders h0
  pos_eq x hx h0 := hp.newPos_eq hx h0
  indir_iff p hr' := by
    by_cases hn : p = new
    · subst hn
      have h0 : p ≠ 0 := by
        rintro rfl
        rw [hp.info_null, hp.null] at hr'
        exact absurd hr' (lt_irrefl 0)
      rw [hp.info_new h0, update_self]
      exact iff_of_false (fun h ↦ by cases h) hp.leaf
    · have hr := (hp.ref_pos' hr').resolve_left hn
      rw [(hp.info_same hr hr').2.1, update_of_ne hn]
      exact hp.indir_iff p hr
  mem_free p := by
    rw [hp.mem_free']
    constructor
    · rintro (hm | ⟨rfl, h0, h1⟩)
      · obtain ⟨h0, hr, ho⟩ := (hp.mem_free p).mp hm
        refine ⟨h0, ?_, fun h ↦ ho h.1⟩
        have hn : p ≠ new := by
          rintro rfl
          exact ho (hp.fresh.resolve_left h0)
        have hold : p ≠ s.page e := by
          rintro rfl
          have := hp.ref_pos hp.live h0
          omega
        rw [hp.info_other p h0 hn hold, hr]
      · refine ⟨h0, ?_, fun h ↦ ?_⟩
        · rw [hp.info_old h0, PageInfo.drop, if_pos h1]
        · have := hp.other_ref _ h.1
          omega
    · rintro ⟨h0, hr', ho⟩
      rcases hp.unused_cases hr' with h | ⟨hn, hr, -⟩
      · exact .inr h
      · exact .inl ((hp.mem_free p).mpr ⟨h0, hr, fun hm ↦ ho ⟨hm, hn.resolve_right h0⟩⟩)
  nodup := by
    rw [hp.free]
    split
    next h => exact List.nodup_cons.mpr ⟨hp.not_free (by omega), hp.nodup⟩
    next => exact hp.nodup
  other_ref p ho := by
    by_contra hr'
    rcases hp.ref_pos' (Nat.pos_of_ne_zero hr') with hn | hr
    · exact ho.2 hn
    · rw [hp.other_ref p ho.1] at hr
      exact absurd hr (lt_irrefl 0)
  clean p hr' := by
    rcases hp.unused_cases hr' with ⟨rfl, h0, h1⟩ | ⟨hn, hr, hi⟩
    · have hm : s.page e ∈ s'.freeList := hp.mem_free'.mpr (.inr ⟨rfl, h0, h1⟩)
      rw [hp.info_old h0, PageInfo.drop, if_pos h1]
      simp [hm]
    · rw [hi, hp.clean p hr]
      have : p ∈ s'.freeList ↔ p ∈ s.freeList := by
        rw [hp.mem_free']
        refine ⟨fun hm ↦ hm.resolve_right ?_, .inl⟩
        rintro ⟨rfl, h0, h1⟩
        omega
      simp [this]
  read_pin p hi := by
    have hs := hp.info_indir (.inr hi)
    rw [hs] at hi ⊢
    exact hp.read_pin p hi
  pin_ref p hpin := by
    obtain ⟨hr, hr', hpin'⟩ := hp.pinned hpin
    obtain ⟨hle, -, -, hws⟩ := hp.info_same hr hr'
    rw [hws]
    exact hle.trans (hp.pin_ref p hpin')
  pin_up p i hl h0 hpin := by
    have hl' := hp.live_iff.mp hl
    rw [hp.info_indir (.inr hl.2.1)]
    by_cases hxe : Ent.entry p i = e
    · rw [hxe, hp.page_e] at h0 hpin
      exact absurd (hp.not_pinned_new h0) hpin
    · rw [hp.page_ne hxe] at h0 hpin
      exact hp.pin_up p i hl' h0 (hp.pinned hpin).2.2

theorem node_eq (hb : (Pos.node i path).Bounded)
    (hl : path.length ≤ i) : s'.node pt i path = s.node pt i path := by
  induction path with
  | nil =>
    refine hp.page_ne ?_
    rintro rfl
    exact hp.leaf (Nat.zero_le i)
  | cons j path ih =>
    have hlen : path.length ≤ i := Nat.le_of_succ_le hl
    have hr := ih hb.tail hlen
    by_cases h0 : s.node pt i path = 0
    · rw [Mem.node_cons_zero h0, Mem.node_cons_zero (hr.trans h0)]
    · rw [Mem.node_cons (hr ▸ h0), Mem.node_cons h0, hr]
      refine hp.page_ne fun he ↦ hp.leaf ?_
      rw [← he, posOf, (hp.node_pos hb.tail (by omega) h0).1]
      exact hl

theorem pageAt_other (hb : π.Bounded)
    (hl : π.Leaf) (hne : π ≠ posOf pos e) : s'.pageAt pt π = s.pageAt pt π := by
  rcases π with i | ⟨i, _ | ⟨j, path⟩⟩
  · refine hp.page_ne ?_
    rintro rfl
    exact hne rfl
  · cases hl
  · have hlen : path.length ≤ i := Pos.length_le (.inl hl)
    have hr : s'.node pt i path = s.node pt i path := hp.node_eq hb.tail hlen
    rw [Mem.pageAt_node, Mem.pageAt_node]
    by_cases h0 : s.node pt i path = 0
    · rw [Mem.node_cons_zero h0, Mem.node_cons_zero (hr.trans h0)]
    · rw [Mem.node_cons (hr ▸ h0), Mem.node_cons h0, hr]
      refine hp.page_ne fun he ↦ hne ?_
      rw [← he, posOf, (hp.node_pos hb.tail (by omega) h0).1]
      rfl

theorem pageAt_self (hb : π.Bounded)
    (hl : π.Leaf) (he : s.entAt pt π = e) : s'.pageAt pt π = new := by
  rcases π with i | ⟨i, _ | ⟨j, path⟩⟩
  · exact (congrArg s'.page he).trans hp.page_e
  · cases hl
  · have hlen : path.length ≤ i := Pos.length_le (.inl hl)
    have hr : s'.node pt i path = s.node pt i path := hp.node_eq hb.tail hlen
    have h0 : s.node pt i path ≠ 0 := by
      intro h0
      have hlive := hp.live
      rw [← he, Mem.entAt, h0] at hlive
      exact absurd hlive.1 (by rw [hp.null]; exact lt_irrefl 0)
    rw [Mem.pageAt_node, Mem.node_cons (hr ▸ h0), hr]
    exact (congrArg s'.page he).trans hp.page_e

end PutOf

theorem Wf.posOf_entAt (h : Wf other pos holders s) (hb : π.Bounded) (hl : π.Leaf ∨ π.Inner)
    (hlive : s.Live (s.entAt pt π)) : posOf pos (s.entAt pt π) = π := by
  rcases π with i | ⟨i, _ | ⟨j, path⟩⟩
  · rfl
  · rfl
  · have hlen : path.length ≤ i := Pos.length_le hl
    have h0 : s.node pt i path ≠ 0 := by
      intro h0
      rw [Mem.entAt, h0] at hlive
      exact absurd hlive.1 (by rw [h.null]; exact lt_irrefl 0)
    rw [Mem.entAt, posOf, (h.node_pos hb.tail (by omega) h0).1]
    rfl

end HiStar.Pagetree
