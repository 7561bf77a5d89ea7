import HiStar.Kobj.BootInv

namespace HiStar.Kobj

open Lib Function

variable {q : Prop} {root n m t c l cl sg size : Nat} {r : Nat → Nat} {k k' : Store} {env : Env}

/-- A thread that has been set up: it has the label `l` and a segment of the
default size. -/
structure IsThread (t l : Nat) (k : Store) : Prop where
  mem : t ∈ k.ids
  type : (k.obj t).koType = .thread
  label : (k.obj t).koLabel .tracking = l
  sg_mem : (k.obj t).thSg ∈ k.ids
  sg_type : (k.obj (k.obj t).thSg).koType = .segment
  sg_nbytes : (k.obj (k.obj t).thSg).koNbytes = utlsDefsize

theorem Boots.isThread (h : Boots q root n k k') (ht : IsThread t l k) : IsThread t l k' := by
  obtain ⟨_, _, _, _, h1⟩ := h.same t ht.mem (.inl ht.type)
  obtain ⟨_, _, _, _, h2⟩ := h.same _ ht.sg_mem (.inr ht.sg_type)
  have hsg : (k'.obj t).thSg = (k.obj t).thSg := by rw [h1]
  refine ⟨h.kept.mem t ht.mem, (h.kept.type t ht.mem).trans ht.type, by rw [h1]; exact ht.label,
    ?_, ?_, ?_⟩ <;> rw [hsg]
  · exact h.kept.mem _ ht.sg_mem
  · exact (h.kept.type _ ht.sg_mem).trans ht.sg_type
  · rw [h2]
    exact ht.sg_nbytes

def threadBytes : Nat := 5 * kobjDiskSize + pgsize

theorem takeSg_ends (h : Inv q root 0 (m + n) noResv k) (ht : t ∈ k.ids)
    (htt : (k.obj t).koType = .thread) (h0 : (k.obj t).thSg = 0) (hu : Unplaced .segment sg k)
    (hm : q → k.total sg ≤ m) :
    Ends (do
      kobjectIncref env sg t
      modifyObj t (setThSg sg)
      pure t) k fun t' k' ↦ t' = t ∧ Inv q root 0 n noResv k' ∧ Kept q k k' ∧
        (∀ z, z ≠ t → Same k k' z) ∧ (k'.obj t).thSg = sg ∧
        (k'.obj t).koLabel = (k.obj t).koLabel ∧ (q → k'.total t ≤ k.total t + k.total sg) := by
  have hne : t ≠ sg := hu.ne htt (by decide)
  have htl : (k.obj t).koType ≠ .label := by rw [htt]; decide
  have hsg0 : sg ≠ 0 := fun h0 ↦ h.shape.zero_notMem (h0 ▸ hu.mem)
  have hup : ¬ Above k.up t sg :=
    h.shape.not_above_of_held ht htl (Ne.symm hne) hu.labels_only
  unfold kobjectIncref
  refine Wp.bind (Wp.bind ((kobjectQresReserve_wp 0 h ht hu.mem hm (fun _ ↦ hup)
    (fun _ hl ↦ absurd hl htl) fun _ _ ↦ rfl).mono (fun qr k1 hres ↦ ?_) fun _ _ _ ↦ trivial))
  obtain ⟨ko, nb⟩ := qr
  obtain rfl : ko = t := hres.ko
  have hs := hres.sameRefs
  refine Wp.bind ((kobjectIncrefResv_wp (hs.ids ▸ ht) (hs.ids ▸ hu.mem)).mono
    (fun qr' k2 ⟨hk2, _, _⟩ ↦ Wp.pure (wp_modify (Wp.pure ?_))) fun _ _ _ ↦ trivial)
  subst hk2
  have hobj1 : k1.obj ko = { k.obj ko with
      koQuotaUsed := (k1.obj ko).koQuotaUsed, koQuotaTotal := (k1.obj ko).koQuotaTotal } := hres.obj ko
  have hlink : Link ko sg k1 ((k1.mapObj sg (gainRef ko)).mapObj ko (setThSg sg)) := by
    refine link_of (refsOnly_setThSg sg) hne ?_ rfl rfl rfl ?_ ?_ fun z h1 h2 ↦ ?_
    · have hh := held_setThSg (k1.obj ko) ((hs.type ko).trans htt) sg
      have h1 : (k1.obj ko).thSg = 0 := by rw [hobj1]; exact h0
      rw [h1, idRef_of_ne hsg0, Kobject.idRef, if_pos rfl, add_zero] at hh
      rw [hh, Multiset.add_comm, Multiset.singleton_add]
    · simp [Store.mapObj_obj, hne]
    · simp [Store.mapObj_obj, Ne.symm hne]
    · simp [Store.mapObj_obj, h1, h2]
  have hinv : Inv q root 0 n noResv ((k1.mapObj sg (gainRef ko)).mapObj ko (setThSg sg)) := by
    refine hres.inv.link hlink (hs.ids ▸ ht) (hs.ids ▸ hu.mem) ?_ ?_ ?_ ?_ ?_
    · rw [hs.type, hs.type, htt, hu.type_eq]
      exact .inr rfl
    · rw [hs.type, hu.type_eq]
      exact fun hc ↦ absurd hc (by decide)
    · exact fun _ ↦ .inr (.inl ((hs.ref sg).trans hu.ref_zero))
    · intro hq _
      rw [update_self, hres.total_other hq sg hup]
    · exact fun z hz ↦ (update_of_ne hz _ _).symm
  refine ⟨rfl, hinv, ?_, fun z hz ↦ ?_, ?_, ?_, fun hq ↦ ?_⟩
  · refine (hs.toFrame.kept fun hq z hz hzl ↦ hres.total_other hq z
      (h.shape.not_above_label ht htl hz hzl)).trans (hlink.kept fun _ z _ _ ↦ hlink.total z)
  · refine (hres.same z).trans (Same.trans ?_ (same_mapObj hz))
    unfold Same
    rw [Store.mapObj_obj]
    split <;> exact ⟨_, _, _, _, rfl⟩
  · simp [Store.mapObj_obj, setThSg]
  · rw [Store.mapObj_obj, if_pos rfl, Store.mapObj_obj, if_neg hne, hobj1]
    rfl
  · rw [hlink.total]
    exact hres.total_self hq

theorem IsLabel.charge (h : IsLabel q l k) : q → (if l = 0 then 0 else k.total l) ≤ kobjDiskSize := by
  intro hq
  split
  · exact Nat.zero_le _
  · exact h.total hq

theorem threadAlloc_ends (h : Inv q root 0 (2 * threadBytes + n) noResv k) (hl : IsLabel q l k)
    (hcl : IsLabel q cl k) :
    Ends (threadAlloc env l cl) k fun t k' ↦ Boots q root n k k' ∧ IsThread t l k' ∧
      (q → k'.total t ≤ threadBytes) := by
  have h0 : Inv q root 0 (3 * kobjDiskSize + (2 * kobjDiskSize + (pgsize +
      (2 * kobjDiskSize + pgsize + n)))) noResv k := h.mono (by unfold threadBytes; omega)
  unfold threadAlloc
  refine Wp.bind ((kobjectAlloc_wp h0 (fun _ _ ↦ rfl) (by decide) (fun _ ↦ ⟨hl.mem, hl.type⟩)
    (fun _ ↦ ⟨hcl.mem, hcl.type⟩) fun hq ↦ ?_).mono (fun t k1 ha ↦ ?_) fun _ _ _ ↦ trivial)
  · have h1 := hl.charge hq
    have h2 := hcl.charge hq
    omega
  have hl1 := ha.kept.isLabel hl
  refine Wp.bind ((kobjectAlloc_wp ha.inv (fun _ _ ↦ rfl) (by decide) (fun _ ↦ ⟨hl1.mem, hl1.type⟩)
    (fun h0 ↦ absurd rfl h0) fun hq ↦ ?_).mono (fun sg k2 ha2 ↦ ?_) fun _ _ _ ↦ trivial)
  · have h1 := hl1.charge hq
    rw [if_pos rfl]
    omega
  refine Wp.bind ((segmentSetNbytes_wp ha2.created fun _ ↦ by decide).mono
    (fun _ k3 ⟨hc3, hn3⟩ ↦ ?_) fun _ _ _ ↦ trivial)
  have htm : t ∈ k1.ids := ha.unplaced.mem
  obtain ⟨_, _, hnew⟩ := ha.new
  obtain ⟨_, _, _, _, ht3⟩ := hc3.old t htm
  have htt : (k3.obj t).koType = .thread := by rw [ht3]; exact ha.unplaced.type_eq
  have hround : roundupPage utlsDefsize = pgsize := by decide
  have hsgt : q → k3.total sg ≤ 2 * kobjDiskSize + pgsize := fun hq ↦ by
    have h1 := hc3.total_new hq
    have h2 := hl1.charge hq
    rw [if_pos rfl] at h1
    omega
  refine (takeSg_ends hc3.inv (hc3.mem t htm) htt ?_ hc3.unplaced hsgt).mono
    (fun t' k4 ⟨ht', h4, hk4, hs4, hsg4, hl4, ht4⟩ ↦ ?_) fun _ _ _ ↦ trivial
  · rw [ht3, hnew]
    rfl
  have ht' := ht'.symm
  subst ht'
  have hold : ∀ z ∈ k.ids, z ≠ t := fun z hz he ↦ ha.notMem (he ▸ hz)
  have hsgt4 : sg ≠ t := fun he ↦ by
    have := hc3.unplaced.type_eq
    rw [he, htt] at this
    cases this
  refine ⟨⟨h4, (ha.kept.trans hc3.kept).trans hk4, fun z hz _ ↦ ?_⟩, ⟨?_, ?_, ?_, ?_, ?_, ?_⟩,
    fun hq ↦ ?_⟩
  · exact (ha.old z hz).trans ((hc3.old z (ha.kept.mem z hz)).trans (hs4 z (hold z hz)))
  · exact hk4.mem t (hc3.mem t htm)
  · exact (hk4.type t (hc3.mem t htm)).trans htt
  · rw [hl4, ht3, hnew]
    simp
  · rw [hsg4]
    exact hk4.mem sg hc3.unplaced.mem
  · rw [hsg4]
    exact (hk4.type sg hc3.unplaced.mem).trans hc3.unplaced.type_eq
  · obtain ⟨_, _, _, _, hz⟩ := hs4 sg hsgt4
    rw [hsg4, hz]
    exact hn3
  · have h1 := ht4 hq
    have h2 := hsgt hq
    have h3 := hc3.total_old hq t htm
    have h5 := ha.total_new hq
    have h6 := hl.charge hq
    have h7 := hcl.charge hq
    unfold threadBytes
    omega

def jumpBytes : Nat := kobjDiskSize + (2 * (2 * kobjDiskSize + 2 * pgsize) + 4 * kobjDiskSize)

theorem wp_onError_any {α : Type} {f : Sys α} {g : Sys Unit} {Q : α → Store → Prop}
    (h : Ends f k Q) : Ends (onError f g) k Q := by
  unfold Ends Wp at h ⊢
  unfold onError
  rcases hf : f k with ⟨e | a, k'⟩ <;> rw [hf] at h
  · by_cases hs : Stopped e
    · simp only [hs, if_true]
    · simp only [hs, if_false]
      rcases hg : g k' with ⟨e' | u, k''⟩ <;> simp [bind_apply, hg]
  · exact h

theorem threadJump_ends (h : Inv q root 0 (jumpBytes + n) noResv k) (ht : IsThread t l k)
    (hl : IsLabel q l k) (hcl : IsLabel q cl k) :
    Ends (threadJump env t l cl) k fun _ ↦ Inv q root 0 n noResv := by
  have h0 : Inv q root 0 (kobjDiskSize + ((2 * (2 * kobjDiskSize + 2 * pgsize) +
      4 * kobjDiskSize) + n)) noResv k := h.mono (by unfold jumpBytes; omega)
  have htl : (k.obj t).koType ≠ .label := by rw [ht.type]; decide
  have hup : ¬ Above k.up t cl := h.shape.not_above_label ht.mem htl hcl.mem hcl.type
  unfold threadJump
  refine wp_read (fun cur _ ↦ ?_) fun _ _ ↦ trivial
  refine Wp.bind ((kobjectQresReserve_wp 0 h0 ht.mem hcl.mem hcl.total (fun _ ↦ hup)
    (fun _ hl ↦ absurd hl htl) fun _ _ ↦ rfl).mono (fun qr k1 hres ↦ ?_) fun _ _ _ ↦ trivial)
  obtain ⟨ko, nb⟩ := qr
  obtain rfl : ko = t := hres.ko
  have hs := hres.sameRefs
  have hk1 : Kept q k k1 := hs.toFrame.kept fun hq z hz hzl ↦
    hres.total_other hq z (h.shape.not_above_label ht.mem htl hz hzl)
  have hl1 := hk1.isLabel hl
  have hcl1 := hk1.isLabel hcl
  have ho : ∀ z, Same k k1 z := fun z ↦ hres.same z
  obtain ⟨_, _, _, _, ht1⟩ := ho ko
  have hsg1 : (k1.obj ko).thSg = (k.obj ko).thSg := by rw [ht1]
  obtain ⟨_, _, _, _, hsg⟩ := ho (k.obj ko).thSg
  have hbytes : q → changeLabelBytes ko l k1 ≤
      2 * (2 * kobjDiskSize + 2 * pgsize) + 4 * kobjDiskSize := fun hq ↦ by
    have h1 := hl1.total hq
    have hlab : (k1.obj ko).koLabel .tracking = l := by rw [ht1]; exact ht.label
    have hround : roundupPage (k1.obj (k.obj ko).thSg).koNbytes = pgsize := by
      rw [hsg]
      show roundupPage (k.obj (k.obj ko).thSg).koNbytes = pgsize
      rw [ht.sg_nbytes]
      decide
    unfold changeLabelBytes
    rw [hlab, hsg1, hround]
    omega
  refine Wp.bind (wp_onError_any ((threadChangeLabel_wp hres.inv (fun z hz ↦ ?_) (hk1.mem _ ht.mem)
    ((hs.type _).trans ht.type) hl1.mem hl1.type hbytes fun hq ↦ ?_).mono
    (fun _ k2 ⟨h2, hk2⟩ ↦ ?_) fun _ _ _ ↦ trivial))
  · exact update_of_ne (fun he : z = ko ↦ hz (he ▸ hk1.mem _ ht.mem)) _ _
  · exact (hbytes hq).trans_lt (by decide)
  have hcl2 := hk2.isLabel hcl1
  have htot : q → k2.total cl = k.total cl := fun hq ↦
    (hk2.label_total hq cl hcl1.mem hcl1.type).trans (hk1.label_total hq cl hcl.mem hcl.type)
  refine Wp.bind ((kobjectSetLabelPrepared_wp h2 (hk2.mem _ (hk1.mem _ ht.mem)) hcl2.mem hcl2.type
    ?_ fun hq _ ↦ ?_).mono (fun _ k3 ⟨h3, _, _⟩ ↦ Wp.pure (h3.congr_resv fun hq ↦ ?_))
    fun _ _ _ ↦ trivial)
  · rw [hk2.type _ (hk1.mem _ ht.mem), hs.type, ht.type]
    exact .inl rfl
  · have h1 : nb ≤ 0 + k1.total cl := hres.bound
    have h2 := hk1.label_total hq cl hcl.mem hcl.type
    rw [update_self]
    omega
  · funext z
    by_cases hz : z = ko
    · subst hz
      rw [update_self, update_self, htot hq]
      omega
    · rw [update_of_ne hz, update_of_ne hz]

end HiStar.Kobj
