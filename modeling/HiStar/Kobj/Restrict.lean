import HiStar.Kobj.Masks

namespace HiStar.Kobj

open Lib Function

variable {root c x y ko : Nat} {k k' : Store} {env : Env}

theorem Quietly.restricted {f g : Sys Unit} [Quietly f] (h : Restricted k)
    (hg : ∀ k', Restricted k' → Wp g k' (fun _ ↦ Restricted) fun _ ↦ Restricted) :
    Wp (f >>= fun _ ↦ g) k (fun _ ↦ Restricted) fun _ ↦ Restricted :=
  (Grows.of_quiet h).seq fun _ k' h1 ↦ hg k' h1.1.toRestricted

theorem handleAlloc_grows (h : Restricted k) (type : KobjType) :
    Wp handleAlloc k (fun id k' ↦ id ∉ k.ids ∧ Extends k (addObj id (newKobject type) k') ∧
      Fresh type id (addObj id (newKobject type) k')) fun _ ↦ Restricted := by
  unfold Wp handleAlloc
  rcases ha : handleAllocFrom k.bf61Encipher (2 ^ 61 - k.handleCounter) k.handleCounter with
    e | ⟨id, c'⟩
  · exact h
  · obtain ⟨d, h1, rfl, h3, rfl, h5⟩ := handleAllocFrom_ok ha
    exact ⟨h.fresh d h1 (by omega), h.addObj type h1 (by omega) h5⟩

theorem kobjectAlloc_grows (h : Restricted k) (type : KobjType) (l c : Nat) :
    Grows (kobjectAlloc env type l c) k fun id k' ↦ id ∉ k.ids ∧ Fresh type id k' := by
  refine .require h fun _ ↦ .require h fun _ ↦ .read h fun _ _ ↦ ?_
  refine Wp.seq (handleAlloc_grows h type) fun id _ ⟨hn, h1, hf⟩ ↦ wp_modify ?_
  refine Wp.imp (?_ : Grows _ _ fun id k' ↦ id ∉ k.ids ∧ Fresh type id k')
    fun _ _ ⟨h2, hf⟩ ↦ ⟨h1.trans h2, hf⟩
  refine .bind (.onError (.of_quiet h1.toRestricted)
    fun _ hr ↦ hr.removeObj id) fun _ k2 h2 hc2 ↦ ?_
  refine .bind (.onError (.of_quiet h2.toRestricted)
    fun _ hr ↦ Quietly.restricted hr fun _ hr ↦ hr.removeObj id) fun _ k3 h3 hc3 ↦ ?_
  refine .bind (.onError (.of_quiet h3.toRestricted)
    fun _ hr ↦ Quietly.restricted hr fun _ hr ↦
      Quietly.restricted hr fun _ hr ↦ hr.removeObj id) fun _ k4 h4 hc4 ↦ ?_
  exact .pure h4.toRestricted ⟨hn, ((hf.of_calm hc2).of_calm hc3).of_calm hc4⟩

theorem containerSlotAddref_grows {i n : Nat} (h : Restricted k) (ha : Admits k c ko) :
    Grows (containerSlotAddref env c i ko n) k fun _ _ ↦ True := by
  refine .deref h fun _ ↦ ?_
  split
  · refine .deref h fun hko ↦ .require h fun _ ↦ ?_
    refine .bind (.of_quiet h) fun _ k1 h1 hc ↦ ?_
    have ha1 := ha.of_same (hc.avoid c) (hc.avoid ko) (hc.type ko)
    exact ⟨h1.toRestricted.setSlot (h1.mem ko hko) ha1, trivial⟩
  next hr =>
    have hc : Calm k _ := setSlot_calm (k := k) (c := c) (i := i)
      (n := ((k.obj c).slot i).csRef + 1) fun _ ↦ Nat.pos_of_ne_zero hr
    exact ⟨hc.extends h, trivial⟩

/-- A container that is put into another one has all the restrictions of that
one. -/
def MaskKept (k : Store) (c ko : Nat) : Prop :=
  (k.obj ko).koType = .container →
    ∀ ty, (k.obj c).ctAvoidTypes ty = true → (k.obj ko).ctAvoidTypes ty = true

theorem containerPut_grows {n : Nat} (h : Restricted k) (hm : MaskKept k c ko) :
    Grows (containerPut env c ko n) k fun _ _ ↦ True := by
  refine .deref h fun _ ↦ .deref h fun _ ↦ .require h fun ht ↦ ?_
  refine .bind (.of_quiet h) fun i k1 h1 hc ↦ ?_
  have ha : Admits k c ko := ⟨by simpa using ht, hm⟩
  exact containerSlotAddref_grows h1.toRestricted
    (ha.of_same (hc.avoid c) (hc.avoid ko) (hc.type ko))

theorem Fresh.maskKept {type : KobjType} (h : Fresh type ko k) (ht : type ≠ .container) :
    MaskKept k c ko := fun hc ↦ absurd (h.type_eq.symm.trans hc) ht

theorem Fresh.setMask {type : KobjType} {f : Kobject → Kobject} (h : Fresh type x k)
    (hk : Restricted k) (hs : ∀ o, (f o).ctSlots = o.ctSlots) : Restricted (k.mapObj x f) := by
  refine hk.mapObj h.not_in ?_
  rintro y ⟨-, -, cs, hcs, hid, hr⟩
  rw [Store.mapObj_obj, if_pos rfl, hs] at hcs
  exact h.empty y ⟨cs, hcs, hid, hr⟩

theorem allocUlabel_grows (h : Restricted k) :
    Grows (allocUlabel env x) k fun _ _ ↦ True := by
  unfold allocUlabel
  split
  · exact .fail h
  · refine .bind (kobjectAlloc_grows h _ _ _) fun _ _ h1 _ ↦ ?_
    refine .bind (.of_quiet h1.toRestricted) fun _ _ h2 _ ↦ ?_
    exact .pure h2.toRestricted trivial
  · exact .read h fun _ _ ↦ .require h fun _ ↦ .pure h trivial

theorem sysContainerAlloc_restricted (h : Restricted k) (avoidTypes : KobjType → Bool)
    (quota : Nat) : Wp (sysContainerAlloc env c avoidTypes quota) k (fun _ ↦ Restricted)
      fun _ ↦ Restricted := by
  refine wp_read (fun parent _ ↦ ?_) fun _ _ ↦ h
  refine Wp.seq (allocUlabel_grows h) fun l k1 ⟨h1, _⟩ ↦ ?_
  refine Wp.seq (kobjectAlloc_grows h1.toRestricted _ _ _) fun ct k2 ⟨h2, _, hf⟩ ↦ ?_
  refine wp_lift (fun _ _ ↦ ?_) fun _ ↦ h2.toRestricted
  refine wp_read (fun po hpo ↦ ?_) fun _ _ ↦ h2.toRestricted
  obtain rfl : k2.obj parent = po := by
    split at hpo <;> cases hpo
    rfl
  refine wp_modify ?_
  set k3 := k2.mapObj ct _ with hk3
  have h3 : Restricted k3 := hf.setMask h2.toRestricted fun _ ↦ rfl
  have hm : MaskKept k3 parent ct := by
    intro _ ty hty
    by_cases hp : parent = ct
    · rwa [hp] at hty
    · rw [hk3, Store.mapObj_obj, if_neg hp] at hty
      rw [hk3, Store.mapObj_obj, if_pos rfl]
      simp [setupContainer, hty]
  exact Wp.seq (containerPut_grows h3 hm) fun _ _ h4 ↦ Wp.pure h4.1.toRestricted

theorem segmentCopy_grows (h : Restricted k) {src newl : Nat} :
    Grows (segmentCopy env src newl) k fun _ _ ↦ True := by
  refine .bind (kobjectAlloc_grows h _ _ _) fun _ _ h1 _ ↦ ?_
  refine .bind (.of_quiet h1.toRestricted) fun _ _ h2 _ ↦ ?_
  exact .pure h2.toRestricted trivial

theorem threadChangeLabel_grows (h : Restricted k) {t newLabel : Nat} :
    Grows (threadChangeLabel env t newLabel) k fun _ _ ↦ True := by
  refine .deref h fun _ ↦ .read h fun _ _ ↦ .read h fun _ _ ↦ .read h fun _ _ ↦ ?_
  refine .bind (segmentCopy_grows h) fun _ _ h1 _ ↦ ?_
  refine .bind (.of_quiet h1.toRestricted) fun _ _ h2 _ ↦ ?_
  exact (Grows.of_quiet h2.toRestricted).mono fun _ _ _ _ ↦ trivial

end HiStar.Kobj
