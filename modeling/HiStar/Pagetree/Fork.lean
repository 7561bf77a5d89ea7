import HiStar.Pagetree.Wf

namespace HiStar.Pagetree

open Lib Function

variable {α : Type} {s s' : Mem α} {pt i j p q : Nat} {path : List Nat} {e x : Ent} {ind : Bool}
  {other : Set Nat} {pos : Nat → Pos} {holders : Nat → Finset Ent}

namespace Mem

/-- The entries after the page `q` has been filled. -/
def filled (s : Mem α) (q : Nat) (sub : Nat → Nat) : Ent → Nat
  | .entry p j => if p = q then sub j else s.page (.entry p j)
  | x => s.page x

theorem filled_self (sub : Nat → Nat) : s.filled q sub (.entry q j) = sub j := if_pos rfl

theorem filled_other (sub : Nat → Nat) (h : ∀ j, x ≠ .entry q j) :
    s.filled q sub x = s.page x := by
  cases x with
  | direct pt i => rfl
  | indirect pt i => rfl
  | entry p j =>
    rw [filled, if_neg]
    rintro rfl
    exact h j rfl

/-- What is in a slot of the page behind `e`, which is nothing where there is no page. -/
def below (s : Mem α) (e : Ent) (j : Nat) : Nat :=
  if s.page e = 0 then 0 else s.page (.entry (s.page e) j)

theorem copyPage_below (s : Mem α) (h0 : s.page e ≠ 0) :
    (s.copyPage (s.page e) q).page = s.filled q (s.below e) := by
  funext x
  cases x <;> simp [copyPage, filled, below, h0]

theorem clear_below [Zero α] (s : Mem α) (h0 : s.page e = 0) :
    (s.clear q).page = s.filled q (s.below e) := by
  funext x
  cases x <;> simp [clear, filled, below, h0]

/-- The slots of the indirect page `q` that hold `p`. -/
def slotsOf (s : Mem α) (q p : Nat) : Finset Nat :=
  if (s.info q).piIndir then {j ∈ Finset.range pagetreeEntriesPerPage | s.page (.entry q j) = p}
  else ∅

theorem mem_slotsOf : j ∈ s.slotsOf q p ↔
    (s.info q).piIndir = true ∧ j < pagetreeEntriesPerPage ∧ s.page (.entry q j) = p := by
  unfold slotsOf
  split
  next h => simp [h]
  next h => simp [h]

theorem live_entry : s.Live (.entry p j) ↔
    0 < (s.info p).piRef ∧ (s.info p).piIndir = true ∧ j < pagetreeEntriesPerPage := Iff.rfl

end Mem

theorem slotsOf_live (hq : 0 < (s.info q).piRef) (hj : j ∈ s.slotsOf q p) :
    s.Live (.entry q j) := ⟨hq, (Mem.mem_slotsOf.mp hj).1, (Mem.mem_slotsOf.mp hj).2.1⟩

theorem Wf.slotsOf_self (h : Wf other pos holders s) (hq : 0 < (s.info q).piRef) :
    s.slotsOf q q = ∅ := by
  refine Finset.eq_empty_of_forall_notMem fun j hj ↦ ?_
  have hlive := slotsOf_live hq hj
  obtain ⟨hi, -, hp⟩ := Mem.mem_slotsOf.mp hj
  have hpos := h.pos_eq _ hlive (by rw [hp]; exact h.ne_zero hq)
  rw [hp] at hpos
  exact Pos.child_ne _ ((h.indir_iff q hq).mp hi) hpos.symm

theorem Wf.slotsOf_eq_empty (h : Wf other pos holders s) (hq : 0 < (s.info q).piRef) (hp : p ≠ 0)
    (hr : (s.info p).piRef = 0) : s.slotsOf q p = ∅ := by
  refine Finset.eq_empty_of_forall_notMem fun j hj ↦ ?_
  have hlive := slotsOf_live hq hj
  obtain ⟨-, -, rfl⟩ := Mem.mem_slotsOf.mp hj
  exact absurd (h.ref_pos hlive hp) (by omega)

namespace PageInfo

def shed (i : PageInfo) (r : Nat) : PageInfo := { i with piRef := i.piRef - 1, piHwReadPin := r }

def addRefs (i : PageInfo) (n : Nat) : PageInfo := { i with piRef := i.piRef + n }

end PageInfo

/-- What the copy of a shared page and the adding of an indirect page do: `e` points to the new
page `q`, and the entries on it to the pages below the old one, if there was one. -/
structure Fork (s s' : Mem α) (e : Ent) (q : Nat) (ind : Bool) : Prop where
  free : s.freeList = q :: s'.freeList
  page : s'.page = update (s.filled q (s.below e)) e q
  data : ∀ p, p ≠ q → s'.data p = s.data p
  info_new : ∃ d, s'.info q = { piRef := 1, piIndir := ind, piDirty := d }
  info_old : s.page e ≠ 0 → ∃ r, s'.info (s.page e) = (s.info (s.page e)).shed r ∧
    ((s.info (s.page e)).piIndir = true → r = (s.info (s.page e)).piHwReadPin)
  info_other : ∀ p, p ≠ q → p ≠ s.page e → p ≠ 0 →
    s'.info p = (s.info p).addRefs (s.slotsOf (s.page e) p).card
  info_null : s'.info 0 = s.info 0

structure ForkOf (other : Set Nat) (pos : Nat → Pos) (holders : Nat → Finset Ent) (s s' : Mem α)
    (e : Ent) (q : Nat) (ind : Bool) : Prop extends Fork s s' e q ind, Wf other pos holders s where
  live : s.Live e
  inner : ind = true ↔ (posOf pos e).Inner
  shared : s.page e ≠ 0 → 1 + (s.info (s.page e)).piWriteSharedRef < (s.info (s.page e)).piRef

namespace ForkOf

variable (hf : ForkOf other pos holders s s' e q ind)

include hf

theorem new_free : q ∈ s.freeList := by
  rw [hf.free]
  exact List.mem_cons_self

theorem new_ne_zero : q ≠ 0 :=
  ((hf.mem_free q).mp hf.new_free).1

theorem ne_new (hx : s.Live x) : ∀ j, x ≠ .entry q j := by
  rintro j rfl
  exact hf.not_live_of_free hf.new_free hx

theorem page_live (hx : s.Live x) (hxe : x ≠ e) : s'.page x = s.page x := by
  rw [hf.page, update_of_ne hxe, Mem.filled_other _ (hf.ne_new hx)]

theorem page_e : s'.page e = q := by
  rw [hf.page, update_self]

theorem page_new (j : Nat) : s'.page (.entry q j) = s.below e j := by
  rw [hf.page, update_of_ne (hf.ne_new hf.live j).symm, Mem.filled_self]

theorem indir_old (h0 : s.page e ≠ 0) : (s.info (s.page e)).piIndir = ind := by
  rw [Bool.eq_iff_iff, hf.indir_iff _ (hf.ref_pos hf.live h0), hf.pos_eq e hf.live h0, hf.inner]

theorem live_new : s'.Live (.entry q j) ↔ ind = true ∧ j < pagetreeEntriesPerPage := by
  obtain ⟨d, hd⟩ := hf.info_new
  rw [Mem.live_entry, hd]
  simp

/-- A page on the new page was on the old one. -/
theorem old_of_new (hl : s'.Live (.entry q j)) (h0 : s'.page (.entry q j) ≠ 0) :
    s.page e ≠ 0 ∧ s.Live (.entry (s.page e) j) ∧
      s'.page (.entry q j) = s.page (.entry (s.page e) j) := by
  rw [hf.page_new, Mem.below] at h0 ⊢
  have he : s.page e ≠ 0 := fun he ↦ h0 (if_pos he)
  obtain ⟨hi, hj⟩ := hf.live_new.mp hl
  exact ⟨he, ⟨hf.ref_pos hf.live he, (hf.indir_old he).trans hi, hj⟩, if_neg he⟩

theorem mem_slots (hp : p ≠ 0) : j ∈ s.slotsOf (s.page e) p ↔
    s'.Live (.entry q j) ∧ s'.page (.entry q j) = p := by
  rw [Mem.mem_slotsOf]
  constructor
  · rintro ⟨hi, hj, hpg⟩
    have he : s.page e ≠ 0 := by
      intro he
      rw [he, hf.clean 0 hf.null] at hi
      cases hi
    rw [hf.live_new, hf.page_new, Mem.below, if_neg he]
    exact ⟨⟨(hf.indir_old he).symm.trans hi, hj⟩, hpg⟩
  · rintro ⟨hl, rfl⟩
    obtain ⟨-, hold, hpg⟩ := hf.old_of_new hl hp
    exact ⟨hold.2.1, hold.2.2, hpg.symm⟩

/-- Only pages in use are in a slot. -/
theorem slots_empty (hp : p ≠ 0) (h : ∀ j, s.Live (.entry (s.page e) j) → s.page e ≠ 0 →
    s.page (.entry (s.page e) j) ≠ p) : s.slotsOf (s.page e) p = ∅ := by
  refine Finset.eq_empty_of_forall_notMem fun j hj ↦ ?_
  obtain ⟨hl, rfl⟩ := (hf.mem_slots hp).mp hj
  obtain ⟨he, hold, hpg⟩ := hf.old_of_new hl hp
  exact h j hold he hpg.symm

theorem slots_unused (hp : p ≠ 0) (hr : (s.info p).piRef = 0) : s.slotsOf (s.page e) p = ∅ := by
  refine hf.slots_empty hp fun j hl _ ↦ ?_
  rintro rfl
  have := hf.ref_pos hl hp
  omega

theorem slots_old (h0 : s.page e ≠ 0) : s.slotsOf (s.page e) (s.page e) = ∅ :=
  hf.toWf.slotsOf_self (hf.ref_pos hf.live h0)

theorem ref_eq' (hp : p ≠ q) (h0 : p ≠ 0) :
    (s'.info p).piRef = (s.info p).piRef - (if p = s.page e then 1 else 0) +
      (s.slotsOf (s.page e) p).card := by
  by_cases he : p = s.page e
  · subst he
    obtain ⟨r, hr, -⟩ := hf.info_old h0
    rw [if_pos rfl, hr, hf.slots_old h0]
    rfl
  · rw [if_neg he, hf.info_other p hp he h0]
    rfl

theorem ref_pos_iff (hp : p ≠ q) : 0 < (s'.info p).piRef ↔ 0 < (s.info p).piRef := by
  by_cases h0 : p = 0
  · rw [h0, hf.info_null]
  rw [hf.ref_eq' hp h0]
  by_cases he : p = s.page e
  · subst he
    have := hf.shared h0
    rw [if_pos rfl, hf.slots_old h0, Finset.card_empty]
    omega
  · rw [if_neg he]
    refine ⟨fun hpos ↦ ?_, fun hpos ↦ by omega⟩
    by_contra hz
    rw [hf.slots_unused h0 (by omega), Finset.card_empty] at hpos
    omega

theorem info_same (hp : p ≠ q) :
    (s'.info p).piIndir = (s.info p).piIndir ∧
    (s'.info p).piHwWritePin = (s.info p).piHwWritePin ∧
    (s'.info p).piWriteSharedRef = (s.info p).piWriteSharedRef ∧
    ((p = s.page e → p ≠ 0 → (s.info p).piIndir = true) →
      (s'.info p).piHwReadPin = (s.info p).piHwReadPin) := by
  by_cases h0 : p = 0
  · rw [h0, hf.info_null]
    exact ⟨rfl, rfl, rfl, fun _ ↦ rfl⟩
  by_cases he : p = s.page e
  · subst he
    obtain ⟨r, hr, hi⟩ := hf.info_old h0
    rw [hr]
    exact ⟨rfl, rfl, rfl, fun h ↦ hi (h rfl h0)⟩
  · rw [hf.info_other p hp he h0]
    exact ⟨rfl, rfl, rfl, fun _ ↦ rfl⟩

theorem live_iff (hx : ∀ j, x ≠ .entry q j) : s'.Live x ↔ s.Live x := by
  cases x with
  | direct => exact Iff.rfl
  | indirect => exact Iff.rfl
  | entry p j =>
    have hp : p ≠ q := by
      rintro rfl
      exact hx j rfl
    rw [Mem.live_entry, Mem.live_entry, hf.ref_pos_iff hp, (hf.info_same hp).1]

theorem below_not_pinned (hl : s.Live (.entry (s.page e) j)) (he : s.page e ≠ 0)
    (h0 : s.page (.entry (s.page e) j) ≠ 0) :
    (s.info (s.page (.entry (s.page e) j))).piHwWritePin = 0 := by
  by_contra hpin
  have := hf.pin_ref _ (hf.pin_up _ j hl h0 hpin)
  have := hf.shared he
  omega

def newHolders (holders : Nat → Finset Ent) (s : Mem α) (e : Ent) (q p : Nat) : Finset Ent :=
  if p = q then {e} else (holders p).erase e ∪ (s.slotsOf (s.page e) p).image (.entry q)

theorem page_new_ne (hl : s'.Live (.entry q j)) : s'.page (.entry q j) ≠ q := by
  intro h
  obtain ⟨-, hold, hpg⟩ := hf.old_of_new hl (h.symm ▸ hf.new_ne_zero)
  exact hf.page_ne_of_free hf.new_free hold (hpg.symm.trans h)

theorem mem_newHolders (hp : p ≠ 0) :
    x ∈ newHolders holders s e q p ↔ s'.Live x ∧ s'.page x = p := by
  unfold newHolders
  by_cases hx : ∃ j, x = .entry q j
  · obtain ⟨j, rfl⟩ := hx
    split
    next hq =>
      rw [Finset.mem_singleton, hq]
      exact iff_of_false (hf.ne_new hf.live j).symm fun ⟨hl, hpg⟩ ↦ hf.page_new_ne hl hpg
    next hq =>
      rw [Finset.mem_union, Finset.mem_erase, hf.mem_holders p hp, Finset.mem_image,
        ← hf.mem_slots hp]
      constructor
      · rintro (⟨-, hl, -⟩ | ⟨j', hj', he'⟩)
        · exact absurd hl (hf.not_live_of_free hf.new_free)
        · cases he'
          exact hj'
      · exact fun hj ↦ .inr ⟨j, hj, rfl⟩
  · have hx : ∀ j, x ≠ .entry q j := fun j hj ↦ hx ⟨j, hj⟩
    rw [hf.live_iff hx]
    by_cases hxe : x = e
    · subst hxe
      rw [hf.page_e]
      split
      next hq => simp [hq, hf.live]
      next hq =>
        rw [Finset.mem_union, Finset.mem_image]
        refine iff_of_false ?_ fun ⟨_, h⟩ ↦ hq h.symm
        rintro (h | ⟨j, -, hj⟩)
        · exact Finset.notMem_erase _ _ h
        · exact hx j hj.symm
    · have hpg : s.Live x → s'.page x = s.page x := fun hl ↦ hf.page_live hl hxe
      split
      next hq =>
        rw [Finset.mem_singleton, hq]
        refine iff_of_false hxe fun ⟨hl, h⟩ ↦ ?_
        exact hf.page_ne_of_free hf.new_free hl ((hpg hl).symm.trans h)
      next hq =>
        rw [Finset.mem_union, Finset.mem_erase, hf.mem_holders p hp, Finset.mem_image]
        constructor
        · rintro (⟨-, hl, h⟩ | ⟨j, -, hj⟩)
          · exact ⟨hl, (hpg hl).trans h⟩
          · exact absurd hj.symm (hx j)
        · rintro ⟨hl, h⟩
          exact .inl ⟨hxe, hl, (hpg hl).symm.trans h⟩

theorem card_newHolders (hp : p ≠ 0) :
    (s'.info p).piRef = (newHolders holders s e q p).card := by
  unfold newHolders
  split
  next hq =>
    obtain ⟨d, hd⟩ := hf.info_new
    rw [hq, hd]
    rfl
  next hq =>
    have hdisj : Disjoint ((holders p).erase e) ((s.slotsOf (s.page e) p).image (.entry q)) := by
      refine Finset.disjoint_left.mpr fun x hx hx' ↦ ?_
      obtain ⟨j, -, rfl⟩ := Finset.mem_image.mp hx'
      have hl := ((hf.mem_holders p hp _).mp (Finset.mem_of_mem_erase hx)).1
      exact hf.not_live_of_free hf.new_free hl
    have hinj : Function.Injective (Ent.entry q) := fun _ _ h ↦ by injection h
    rw [Finset.card_union_of_disjoint hdisj, Finset.card_image_of_injective _ hinj,
      hf.ref_eq' hq hp, hf.ref_eq p hp]
    split
    next he => rw [Finset.card_erase_of_mem ((hf.mem_holders p hp e).mpr ⟨hf.live, he.symm⟩)]
    next he =>
      rw [Finset.erase_eq_of_notMem, Nat.sub_zero]
      exact fun h ↦ he ((hf.mem_holders p hp e).mp h).2.symm

theorem newPos_eq (hx : s'.Live x) (h0 : s'.page x ≠ 0) :
    update pos q (posOf pos e) (s'.page x) = posOf (update pos q (posOf pos e)) x := by
  by_cases hxq : ∃ j, x = .entry q j
  · obtain ⟨j, rfl⟩ := hxq
    obtain ⟨he, hl, hpg⟩ := hf.old_of_new hx h0
    rw [update_of_ne (hf.page_new_ne hx), posOf, update_self, hpg, hf.pos_eq _ hl (hpg ▸ h0), posOf,
      hf.pos_eq e hf.live he]
  · have hxq : ∀ j, x ≠ .entry q j := fun j hj ↦ hxq ⟨j, hj⟩
    rw [posOf_update hxq]
    have hl := (hf.live_iff hxq).mp hx
    by_cases hxe : x = e
    · rw [hxe, hf.page_e, update_self]
    · rw [hf.page_live hl hxe] at h0 ⊢
      rw [update_of_ne (hf.page_ne_of_free hf.new_free hl), hf.pos_eq _ hl h0]

theorem mem_free' : p ∈ s'.freeList ↔ p ∈ s.freeList ∧ p ≠ q := mem_tail_iff hf.free hf.nodup

theorem info_unused (hr : (s'.info p).piRef = 0) :
    p ≠ q ∧ (s.info p).piRef = 0 ∧ s'.info p = s.info p := by
  have hq : p ≠ q := by
    rintro rfl
    obtain ⟨d, hd⟩ := hf.info_new
    rw [hd] at hr
    cases hr
  have hr0 : (s.info p).piRef = 0 := by
    by_contra h0
    have := (hf.ref_pos_iff hq).mpr (Nat.pos_of_ne_zero h0)
    omega
  refine ⟨hq, hr0, ?_⟩
  by_cases h0 : p = 0
  · rw [h0, hf.info_null]
  · have he : p ≠ s.page e := by
      rintro rfl
      have := hf.shared h0
      omega
    rw [hf.info_other p hq he h0, hf.slots_unused h0 hr0]
    rfl

theorem wf : Wf other (update pos q (posOf pos e)) (newHolders holders s e q) s' where
  null := by rw [hf.info_null]; exact hf.null
  mem_holders p hp x := hf.mem_newHolders hp
  ref_eq p hp := hf.card_newHolders hp
  pos_eq x hx h0 := hf.newPos_eq hx h0
  indir_iff p hp := by
    by_cases hq : p = q
    · subst hq
      obtain ⟨d, hd⟩ := hf.info_new
      rw [hd, update_self]
      exact hf.inner
    · rw [update_of_ne hq, (hf.info_same hq).1]
      exact hf.indir_iff p ((hf.ref_pos_iff hq).mp hp)
  mem_free p := by
    rw [hf.mem_free', hf.mem_free]
    constructor
    · rintro ⟨⟨h0, hr, ho⟩, hq⟩
      refine ⟨h0, ?_, ho⟩
      by_contra hr'
      have := (hf.ref_pos_iff hq).mp (Nat.pos_of_ne_zero hr')
      omega
    · rintro ⟨h0, hr, ho⟩
      obtain ⟨hq, hr0, -⟩ := hf.info_unused hr
      exact ⟨⟨h0, hr0, ho⟩, hq⟩
  nodup := by
    have hnd := hf.nodup
    rw [hf.free] at hnd
    exact (List.nodup_cons.mp hnd).2
  other_ref p ho := by
    have hq : p ≠ q := by
      rintro rfl
      exact ((hf.mem_free _).mp hf.new_free).2.2 ho
    by_contra hr
    have := (hf.ref_pos_iff hq).mp (Nat.pos_of_ne_zero hr)
    rw [hf.other_ref p ho] at this
    exact absurd this (lt_irrefl 0)
  clean p hr := by
    obtain ⟨hq, hr0, hi⟩ := hf.info_unused hr
    rw [hi, hf.clean p hr0]
    have : p ∈ s'.freeList ↔ p ∈ s.freeList := by simp [hf.mem_free', hq]
    simp [this]
  read_pin p hi := by
    by_cases hq : p = q
    · obtain ⟨d, hd⟩ := hf.info_new
      rw [hq, hd]
    · rw [(hf.info_same hq).1] at hi
      rw [(hf.info_same hq).2.2.2 fun _ _ ↦ hi, hf.read_pin p hi]
  pin_ref p hpin := by
    by_cases hq : p = q
    · obtain ⟨d, hd⟩ := hf.info_new
      rw [hq, hd]
      exact Nat.le_add_right 1 _
    · rw [(hf.info_same hq).2.1] at hpin
      rw [(hf.info_same hq).2.2.1]
      have hle := hf.pin_ref p hpin
      by_cases h0 : p = 0
      · rw [h0, hf.info_null, hf.null]
        exact Nat.zero_le _
      have hslots : s.slotsOf (s.page e) p = ∅ := by
        refine hf.slots_empty h0 fun j hl he ↦ ?_
        rintro rfl
        exact hpin (hf.below_not_pinned hl he h0)
      rw [hf.ref_eq' hq h0, hslots, Finset.card_empty]
      omega
  pin_up p i hl h0 hpin := by
    by_cases hq : p = q
    · subst hq
      rw [(hf.info_same (hf.page_new_ne hl)).2.1] at hpin
      obtain ⟨he, hold, hpg⟩ := hf.old_of_new hl h0
      rw [hpg] at h0 hpin
      exact absurd (hf.below_not_pinned hold he h0) hpin
    · have hx : ∀ j, Ent.entry p i ≠ .entry q j := fun j hj ↦ hq (by injection hj)
      have hl' := (hf.live_iff hx).mp hl
      rw [(hf.info_same hq).2.1]
      by_cases hxe : Ent.entry p i = e
      · obtain ⟨d, hd⟩ := hf.info_new
        rw [hxe, hf.page_e, hd] at hpin
        exact absurd rfl hpin
      · rw [hf.page_live hl' hxe] at h0 hpin
        rw [(hf.info_same (hf.page_ne_of_free hf.new_free hl')).2.1] at hpin
        exact hf.pin_up p i hl' h0 hpin

end ForkOf

end HiStar.Pagetree
