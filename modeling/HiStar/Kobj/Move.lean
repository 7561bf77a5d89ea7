import HiStar.Kobj.Place

namespace HiStar.Kobj

open Lib Function

variable {q : Prop} {root e n m x y c i extra : Nat} {r : Nat → Nat} {k k' : Store} {env : Env}

section Lookup

variable {id container object : Nat} {type : Option KobjType} {iflow : InfoFlowType}

theorem containerFind_ok (h : containerFind env id iflow k = .ok c) :
    kobjectTranslateId id k = .ok c ∧ c ∈ k.ids ∧ (k.obj c).koType = .container := by
  obtain ⟨ht, hm, -, hty⟩ := kobjectGet_ok h
  exact ⟨ht, hm, (Option.some.inj (hty.resolve_left (by simp))).symm⟩

theorem containedGet_ok {r0 : Except Errno Nat}
    (h : containedGet env container object r0 k = .ok x) : r0 = .ok x := by
  unfold containedGet at h
  split at h
  · split at h <;> cases h
  · split at h
    · exact h
    · obtain ⟨_, -, h⟩ := except_bind_ok h
      exact h

theorem cobjGet_ok (h : cobjGet env container object type iflow k = .ok x) :
    kobjectTranslateId object k = .ok x ∧ x ∈ k.ids ∧ (k.obj x).koRef ≠ 0 ∧
      (type = none ∨ type = some (k.obj x).koType) := by
  unfold cobjGet at h
  split at h
  · exact kobjectGet_ok h
  · exact kobjectGet_ok (containedGet_ok h)

end Lookup

section Move

variable {container object newParent ancestor : Nat}

def MovesDown (object newParent : Nat) (k : Store) : Prop :=
  ∀ ko dst, kobjectTranslateId object k = .ok ko → kobjectTranslateId newParent k = .ok dst →
    (k.obj ko).koType = .container → ¬ Above k.ctParent dst ko

/-- The old parent lets go of the object: it has taken only one reference to it,
or it is the new parent as well. An object of fixed quota may stay in both. -/
def MovesWhole (env : Env) (container object newParent : Nat) (k : Store) : Prop :=
  ∀ ko src i, kobjectTranslateId object k = .ok ko → kobjectTranslateId container k = .ok src →
    containerSlotFind env src ko k = .ok i →
    (k.obj ko).koFixedQuota = true ∨ ((k.obj src).slot i).csRef = 1 ∨
      kobjectTranslateId newParent k = .ok src

theorem Inv.settle (h : Inv q root e n r k)
    (he : q → (k.obj e).koFixedQuota = true ∨ (k.obj e).koRef ≤ 1 ∧ (k.obj e).koParent ≠ 0) :
    Inv q root 0 n r k := by
  refine ⟨h.shape, fun hq ↦ ⟨?_, (h.books hq).charged, (h.books hq).room⟩⟩
  intro z hz hroot _ hf ht hr
  by_cases hze : z = e
  · subst hze
    rcases he hq with h1 | ⟨h1, h2⟩
    · rw [h1] at hf
      cases hf
    · exact ⟨by omega, h2⟩
  · exact (h.books hq).single z hz hroot hze hf ht hr

theorem containerSlotFind_congr (h : (k'.obj c).ctSlots = (k.obj c).ctSlots) :
    containerSlotFind env c y k' = containerSlotFind env c y k := by
  unfold containerSlotFind
  rw [h]

theorem dropMoved_wp {src dst ko : Nat} (hinv : Inv q root ko n noResv k')
    (hl : Linked dst ko 1 k k') (ha : Aside q dst k k') (hsrc : src ∈ k.ids)
    (ht : (k.obj src).koType = .container) (hdst : dst ≠ 0) (hne : src ≠ dst)
    (hwhole : q → ∀ i, containerSlotFind env src ko k = .ok i →
      (k.obj ko).koFixedQuota = true ∨ ((k.obj src).slot i).csRef = 1) :
    Wp ((containerUnref env src ko false).mapErr fun _ ↦ .panic) k'
      (fun _ ↦ Inv q root 0 n noResv) (Fails (Inv q root 0 n noResv)) := by
  refine Wp.mapErr ((containerUnref_wp hinv (hl.ids ▸ hsrc) ((hl.type src).trans ht)).mono
    (fun _ k2 ⟨h2, i, hi, hd⟩ ↦ ?_) fun _ _ _ ↦ .inl (.inl rfl))
  obtain ⟨_, _, _, _, hsame⟩ := ha.same src hne
  have hslots : (k'.obj src).ctSlots = (k.obj src).ctSlots := by rw [hsame]
  have hslot : (k'.obj src).slot i = (k.obj src).slot i := by
    unfold Kobject.slot
    rw [hslots]
  rw [containerSlotFind_congr hslots] at hi
  refine h2.settle fun hq ↦ ?_
  rcases hd.refs with ⟨h1, hs⟩ | ⟨-, hu⟩
  · left
    rw [hs.fixed, hl.fixed]
    exact (hwhole hq i hi).resolve_right (hslot ▸ h1)
  · have href := hu.ref ko
    rw [if_pos rfl, hl.ref, if_pos rfl] at href
    have hparent : (k2.obj ko).koParent = dst := by
      rw [hu.parent, hl.parent, if_pos rfl, if_neg fun h ↦ hne h.2.symm]
    rcases hl.allowed with h1 | h1
    · exact .inr ⟨by omega, hparent ▸ hdst⟩
    · left
      rwa [hu.fixed, hl.fixed]

theorem sysObjMove_wp (h : Inv q root 0 (pgsize + (m + n)) noResv k)
    (hm : q → ∀ ko, kobjectTranslateId object k = .ok ko → k.total ko ≤ m)
    (hdown : MovesDown object newParent k) (hwhole : q → MovesWhole env container object newParent k) :
    Wp (sysObjMove env container object newParent ancestor) k (fun _ ↦ Inv q root 0 n noResv)
      (Fails (Inv q root 0 n noResv)) := by
  have hinv : Inv q root 0 n noResv k := h.mono (by omega)
  unfold sysObjMove
  refine wp_read (fun ko hko ↦ ?_) fun _ _ ↦ .inr hinv
  refine wp_read (fun src hsrc ↦ ?_) fun _ _ ↦ .inr hinv
  refine wp_read (fun dst hdst ↦ ?_) fun _ _ ↦ .inr hinv
  refine wp_read (fun _ _ ↦ ?_) fun _ _ ↦ .inr hinv
  refine wp_read (fun _ _ ↦ ?_) fun _ _ ↦ .inr hinv
  obtain ⟨hko, hkom, -⟩ := cobjGet_ok hko
  obtain ⟨hsrc, hsrcm, hsrct⟩ := containerFind_ok hsrc
  obtain ⟨hdst, hdstm, hdstt⟩ := containerFind_ok hdst
  refine Wp.bind (wp_read (fun i hi ↦ Wp.pure ?_) fun _ _ ↦ .inr hinv)
  refine Wp.seq (containerPut_wp h hdstm hdstt hkom (fun hq ↦ hm hq ko hko)
    (hdown ko dst hko hdst)) fun _ k1 hp ↦ ?_
  rcases hp.refs with ⟨h1, hs⟩ | ⟨hnone, h1, hl⟩
  · exact Wp.mapErr ((containerUnref_wp h1 (hs.ids ▸ hsrcm) ((hs.type src).trans hsrct)).mono
      (fun _ _ h2 ↦ h2.1) fun _ _ _ ↦ .inl (.inl rfl))
  · have hne : src ≠ dst := by
      rintro rfl
      rw [hi] at hnone
      cases hnone
    refine dropMoved_wp h1 hl hp.toAside hsrcm hsrct
      (fun h0 ↦ h.shape.zero_notMem (h0 ▸ hdstm)) hne fun hq j hj ↦ ?_
    refine (hwhole hq ko src j hko hsrc hj).imp_right fun h2 ↦ h2.resolve_right fun h3 ↦ hne ?_
    rw [hdst] at h3
    cases h3
    rfl

end Move

end HiStar.Kobj
