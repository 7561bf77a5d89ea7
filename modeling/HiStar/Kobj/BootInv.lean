import HiStar.Kobj.ThreadLabel

namespace HiStar.Kobj

open Lib Function

variable {q : Prop} {root e n m t c l cl p size : Nat} {r : Nat → Nat} {k k' : Store}
  {env : Env} {type : KobjType}

/-- `c` ends in `Q` if it returns at all; every failure at boot is fatal. -/
abbrev Ends {α : Type} (c : Sys α) (k : Store) (Q : α → Store → Prop) : Prop :=
  Wp c k Q fun _ _ ↦ True

/-- The invariant at boot, with `n` bytes of quota that can still be handed out,
and what it keeps of the state before. -/
structure Boots (q : Prop) (root n : Nat) (k k' : Store) : Prop where
  inv : Inv q root 0 n noResv k'
  kept : Kept q k k'
  same : ∀ z ∈ k.ids, (k.obj z).koType = .thread ∨ (k.obj z).koType = .segment → Same k k' z

theorem Boots.refl (h : Inv q root 0 n noResv k) : Boots q root n k k :=
  ⟨h, ⟨fun _ hz ↦ hz, fun _ _ ↦ rfl, fun _ _ _ _ ↦ rfl⟩, fun z _ _ ↦ (QuotaOnly.refl k).same z⟩

theorem Boots.trans {k'' : Store} (h : Boots q root m k k') (h' : Boots q root n k' k'') :
    Boots q root n k k'' :=
  ⟨h'.inv, h.kept.trans h'.kept, fun z hz ht ↦
    (h.same z hz ht).trans (h'.same z (h.kept.mem z hz) (by rwa [h.kept.type z hz]))⟩

structure IsLabel (q : Prop) (l : Nat) (k : Store) : Prop where
  mem : l ∈ k.ids
  type : (k.obj l).koType = .label
  total : q → k.total l ≤ kobjDiskSize

structure IsContainer (c : Nat) (k : Store) : Prop where
  mem : c ∈ k.ids
  type : (k.obj c).koType = .container

theorem Kept.isLabel (h : Kept q k k') (hl : IsLabel q l k) : IsLabel q l k' :=
  ⟨h.mem l hl.mem, (h.type l hl.mem).trans hl.type, fun hq ↦
    (h.label_total hq l hl.mem hl.type).trans_le (hl.total hq)⟩

theorem Kept.isContainer (h : Kept q k k') (hc : IsContainer c k) : IsContainer c k' :=
  ⟨h.mem c hc.mem, (h.type c hc.mem).trans hc.type⟩

theorem Boots.put (h : Boots q root m k k') (hc : IsContainer c k') {k'' : Store}
    (h' : Inv q root 0 n noResv k'' ∧ Kept q k' k'' ∧ ∀ z, z ≠ c → Same k' k'' z) :
    Boots q root n k k'' := by
  refine h.trans ⟨h'.1, h'.2.1, fun z _ ht ↦ h'.2.2 z ?_⟩
  rintro rfl
  rw [hc.type] at ht
  rcases ht with ht | ht <;> cases ht

theorem newObject_ends (h : Inv q root 0 (kobjDiskSize + kobjDiskSize + n) noResv k)
    (hl : IsLabel q l k) (hty : type ≠ .dead) :
    Ends (kobjectAlloc env type l 0) k fun id k' ↦ Boots q root n k k' ∧ Unplaced type id k' ∧
      id ∉ k.ids ∧ (q → k'.total id ≤ kobjDiskSize + kobjDiskSize) := by
  have hle : q → (if l = 0 then 0 else k.total l) ≤ kobjDiskSize := fun hq ↦ by
    split
    · exact Nat.zero_le _
    · exact hl.total hq
  refine (kobjectAlloc_wp h (fun _ _ ↦ rfl) hty (fun _ ↦ ⟨hl.mem, hl.type⟩)
    (fun h0 ↦ absurd rfl h0) fun hq ↦ ?_).mono (fun id k' ha ↦
    ⟨⟨ha.inv, ha.kept, fun z hz _ ↦ ha.old z hz⟩, ha.unplaced, ha.notMem, fun hq ↦ ?_⟩)
    fun _ _ _ ↦ trivial
  · have := hle hq
    rw [if_pos rfl]
    omega
  · have h1 := hle hq
    have h2 := ha.total_new hq
    rw [if_pos rfl] at h2
    omega

theorem newLabel_ends (h : Inv q root 0 (kobjDiskSize + n) noResv k) :
    Ends (kobjectAlloc env .label 0 0) k fun l k' ↦ Boots q root n k k' ∧ IsLabel q l k' := by
  refine (kobjectAlloc_wp h (fun _ _ ↦ rfl) (by decide) (fun h0 ↦ absurd rfl h0)
    (fun h0 ↦ absurd rfl h0) fun _ ↦ le_rfl).mono (fun l k' ha ↦
    ⟨⟨ha.inv, ha.kept, fun z hz _ ↦ ha.old z hz⟩, ha.unplaced.mem, ha.unplaced.type_eq,
      fun hq ↦ ha.total_new hq⟩)
    fun _ _ _ ↦ trivial

theorem bootContainer_ends {avoid : KobjType → Bool}
    (h : Inv q root 0 (kobjDiskSize + kobjDiskSize + (pgsize + (t + n))) noResv k)
    (hl : IsLabel q l k) (hp : IsContainer p k) (ht : kobjDiskSize + kobjDiskSize ≤ t)
    (hn : q → t + (t + n) + pgsize < 2 ^ 64) :
    Ends (bootContainer env p l avoid t) k fun c k' ↦ Boots q root n k k' ∧ IsContainer c k' := by
  unfold bootContainer
  refine Wp.seq (newObject_ends h hl (by decide)) fun c k1 ⟨hb, hu, hc, htot⟩ ↦ ?_
  refine wp_modify ?_
  have hs : SameRefs k1 (k1.mapObj c (setTotal avoid t)) := sameRefs_setTotal
  have hne : p ≠ c := fun he ↦ hc (he ▸ hp.mem)
  have h2 : Inv q root 0 (pgsize + (t + n)) noResv (k1.mapObj c (setTotal avoid t)) := by
    refine hb.inv.setTotal hu.mem hu.ref_zero fun hq ↦ ⟨?_, fun _ ↦ ⟨?_, ?_, ?_⟩⟩
    · have := hn hq
      omega
    · have := htot hq
      unfold kobjDiskSize at this
      unfold ctQuotaInf
      omega
    · exact (htot hq).trans ht
    · have := hn hq
      omega
  have hk : Kept q k1 (k1.mapObj c (setTotal avoid t)) := hs.toFrame.kept fun _ z hz hzl ↦ by
    have hzc : z ≠ c := hu.ne hzl (by decide)
    unfold Store.total
    rw [Store.mapObj_obj, if_neg hzc]
  have hb2 : Boots q root (pgsize + (t + n)) k (k1.mapObj c (setTotal avoid t)) := by
    refine hb.trans ⟨h2, hk, fun z _ ht ↦ same_mapObj ?_⟩
    rintro rfl
    rw [hu.type_eq] at ht
    rcases ht with ht | ht <;> cases ht
  have hp2 := hb2.kept.isContainer hp
  have hu2 := hu.of_sameRefs hs
  refine Wp.bind ((addref_wp h2 hp2.mem hp2.type hu2.mem (fun _ ↦ ?_) fun _ ↦
    hu2.not_ctParent h2.shape hp2.mem hp2.type hne).mono (fun _ k3 h3 ↦ Wp.pure ?_)
    fun _ _ _ ↦ trivial)
  · unfold Store.total
    rw [Store.mapObj_obj, if_pos rfl]
    exact le_rfl
  · exact ⟨hb2.put hp2 h3, h3.2.1.isContainer ⟨hu2.mem, hu2.type_eq⟩⟩

def segmentBytes (size : Nat) : Nat :=
  2 * (kobjDiskSize + kobjDiskSize + roundupPage size) + pgsize

theorem segmentCreateEmbed_ends (h : Inv q root 0 (segmentBytes size + n) noResv k)
    (hl : IsLabel q l k) (hc : IsContainer c k) :
    Ends (segmentCreateEmbed env c l size) k fun _ ↦ Boots q root n k := by
  have h0 : Inv q root 0 (kobjDiskSize + kobjDiskSize + (roundupPage size + (pgsize +
      (kobjDiskSize + kobjDiskSize + roundupPage size + n)))) noResv k :=
    h.mono (by unfold segmentBytes; omega)
  have hle : q → (if l = 0 then 0 else k.total l) ≤ kobjDiskSize := fun hq ↦ by
    split
    · exact Nat.zero_le _
    · exact hl.total hq
  unfold segmentCreateEmbed
  refine Wp.bind ((kobjectAlloc_wp h0 (fun _ _ ↦ rfl) (by decide) (fun _ ↦ ⟨hl.mem, hl.type⟩)
    (fun h0 ↦ absurd rfl h0) fun hq ↦ ?_).mono (fun sg k1 ha ↦ ?_) fun _ _ _ ↦ trivial)
  · have := hle hq
    rw [if_pos rfl]
    omega
  refine Wp.bind ((segmentSetNbytes_wp ha.created fun _ ↦ le_rfl).mono (fun _ k2 ⟨hc2, _⟩ ↦ ?_)
    fun _ _ _ ↦ trivial)
  have hct := hc2.kept.isContainer hc
  have hb2 : Boots q root _ k k2 := ⟨hc2.inv, hc2.kept, fun z hz _ ↦ hc2.old z hz⟩
  refine (addref_wp hc2.inv hct.mem hct.type hc2.unplaced.mem (fun hq ↦ ?_) fun ht ↦ ?_).mono
    (fun _ k3 h3 ↦ hb2.put hct h3) fun _ _ _ ↦ trivial
  · have h1 := hc2.total_new hq
    have h2 := hle hq
    rw [if_pos rfl] at h1
    omega
  · rw [hc2.unplaced.type_eq] at ht
    cases ht

def segmentsBytes (sizes : List Nat) : Nat := (sizes.map segmentBytes).sum

theorem fsInit_ends (sizes : List Nat) (h : Inv q root 0 (segmentsBytes sizes + n) noResv k)
    (hl : IsLabel q l k) (hc : IsContainer c k) :
    Ends (fsInit env c l sizes) k fun _ ↦ Boots q root n k := by
  induction sizes generalizing k with
  | nil => exact Wp.pure (.refl (h.mono (Nat.le_add_left n _)))
  | cons size sizes ih =>
    have h0 : Inv q root 0 (segmentBytes size + (segmentsBytes sizes + n)) noResv k :=
      h.mono (by simp only [segmentsBytes, List.map_cons, List.sum_cons]; omega)
    refine Wp.bind ((segmentCreateEmbed_ends h0 hl hc).mono (fun _ k1 h1 ↦ ?_) fun _ _ _ ↦ trivial)
    exact (ih h1.inv (h1.kept.isLabel hl) (h1.kept.isContainer hc)).mono
      (fun _ _ h2 ↦ h1.trans h2) fun _ _ _ ↦ trivial

end HiStar.Kobj
