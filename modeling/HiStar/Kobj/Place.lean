import HiStar.Kobj.Put

namespace HiStar.Kobj

open Lib Function

variable {q : Prop} {root e n m x y c i extra : Nat} {r : Nat → Nat} {k k' : Store} {env : Env}

theorem Shape.above_container (hk : Shape root k) (hc : c ∈ k.ids)
    (ht : (k.obj c).koType = .container) (h : Above k.up c y) :
    (k.obj y).koType = .container ∧ Above k.ctParent c y := by
  induction h using Relation.ReflTransGen.head_induction_on with
  | refl => exact ⟨ht, .refl⟩
  | @head a b hp hab ih =>
    obtain ⟨h0, rfl⟩ := Store.up_eq_some.mp hp
    obtain ⟨hm, hpt⟩ := hk.parent_container hc ht h0
    obtain ⟨h1, h2⟩ := ih hm hpt
    exact ⟨h1, h2.head (by simp [Store.ctParent, ht, h0])⟩

structure Aside (q : Prop) (c : Nat) (k k' : Store) : Prop where
  total_other : q → ∀ z, ¬ Above k.up c z → k'.total z = k.total z
  same : ∀ z, z ≠ c → Same k k' z

theorem Aside.trans {k'' : Store} (hs : SameRefs k k') (h : Aside q c k k')
    (h' : Aside q c k' k'') : Aside q c k k'' where
  total_other hq z hz := by
    rw [h'.total_other hq z (by rwa [hs.up]), h.total_other hq z hz]
  same z hz := (h.same z hz).trans (h'.same z hz)

structure SlotReady (q : Prop) (c i : Nat) (k k' : Store) : Prop extends Aside q c k k' where
  refs : SameRefs k k'
  lt : i < (k'.obj c).ctSlots.length
  free : ((k'.obj c).slot i).csRef = 0

theorem refsOnly_addSlots : RefsOnly addSlots :=
  ⟨fun _ ↦ rfl, fun _ ↦ rfl, fun _ ↦ rfl, fun _ ↦ rfl, fun _ ↦ rfl, fun _ ↦ rfl, fun _ ↦ rfl⟩

theorem held_addSlots (o : Kobject) : (addSlots o).held = o.held := by
  rcases o with ⟨ty⟩
  cases ty <;> simp [Kobject.held, Kobject.typeHeld, addSlots, Kobject.slotRef]

theorem roundupPage_nextPage (o : Kobject) :
    roundupPage ((o.npages + 1) * pgsize) ≤ roundupPage o.koNbytes + pgsize := by
  have h1 := roundupPage_lt o.koNbytes
  have h2 : o.npages * pgsize = roundupPage o.koNbytes := npagesFor_mul _
  have h3 : (o.npages + 1) * pgsize = roundupPage o.koNbytes + pgsize := by rw [Nat.add_mul, h2]; omega
  rw [h3]
  have h4 : roundupPage o.koNbytes % pgsize = 0 := by rw [← h2]; exact Nat.mul_mod_left _ _
  unfold roundupPage add64 at *
  unfold pgsize at *
  omega

theorem containerSlotAlloc_wp (h : Inv q root 0 (pgsize + n) r k) (hc : c ∈ k.ids)
    (ht : (k.obj c).koType = .container) :
    Wp (containerSlotAlloc env c) k (fun i k' ↦ Inv q root 0 n r k' ∧ SlotReady q c i k k')
      (Fails (Inv q root 0 n r)) := by
  have hinv : Inv q root 0 n r k := h.mono (Nat.le_add_left n pgsize)
  unfold containerSlotAlloc
  refine wp_deref hc ?_
  split
  next i hi =>
    obtain ⟨hlt, hp, -⟩ := List.findIdx?_eq_some_iff_getElem.mp hi
    refine wp_lift (fun _ _ ↦ Wp.pure ⟨hinv, ⟨fun _ _ _ ↦ rfl,
      fun z _ ↦ (QuotaOnly.refl k).same z⟩, .refl k, hlt, ?_⟩)
      fun _ ↦ .inr hinv
    simpa [Kobject.slot, hlt] using hp
  next =>
    refine wp_lift (fun _ _ ↦ ?_) fun _ ↦ .inr hinv
    refine Wp.bind ((kobjectSetNbytes_wp h hc (fun _ ↦ roundupPage_nextPage _)
      fun _ hl ↦ absurd (ht.symm.trans hl) (by decide)).mono (fun _ k1 hk1 ↦ ?_)
      fun _ _ he ↦ he.imp_right And.left)
    obtain ⟨h1, hr⟩ := hk1
    refine wp_modify (Wp.pure ?_)
    have hheld : (addSlots (k1.obj c)).held = (k1.obj c).held := held_addSlots _
    have hself : ((k1.mapObj c addSlots).obj c).ctSlots =
        (k.obj c).ctSlots ++ List.replicate numCtSlotPerPage ({} : CtSlot) := by
      rw [Store.mapObj_obj, if_pos rfl]
      simp only [addSlots]
      rw [hr.obj c, Store.mapObj_obj, if_pos rfl]
      rfl
    refine ⟨h1.mapObj_same refsOnly_addSlots hheld, ⟨fun hq z hz ↦ ?_, fun z hz ↦ ?_⟩,
      hr.sameRefs.trans (refsOnly_addSlots.sameRefs hheld), ?_, ?_⟩
    · rw [total_mapObj refsOnly_addSlots.total, hr.total_other hq z hz]
    · exact (hr.same hz).trans (same_mapObj hz)
    · rw [hself, List.length_append, List.length_replicate]
      exact Nat.lt_add_of_pos_right (by decide)
    · unfold Kobject.slot
      rw [hself, List.getD, List.getElem?_append_right le_rfl, Nat.sub_self]
      rfl

structure Linked (c y extra : Nat) (k k' : Store) : Prop extends Frame k k' where
  allowed : (k.obj y).koRef ≤ extra ∨ (k.obj y).koFixedQuota = true
  ref : ∀ z, (k'.obj z).koRef = (k.obj z).koRef + if z = y then 1 else 0
  parent : ∀ z, (k'.obj z).koParent = if z = y then c else (k.obj z).koParent

theorem Single.exempt (h : Single root 0 k) (e : Nat) (h0 : 0 ∉ k.ids) : Single root e k :=
  fun y hy hroot _ ↦ h y hy hroot fun he ↦ h0 (he ▸ hy)

theorem Inv.exempt (h : Inv q root 0 n r k) (e : Nat) : Inv q root e n r k :=
  ⟨h.shape, fun hq ↦ ⟨(h.books hq).single.exempt e h.shape.zero_notMem, (h.books hq).charged,
    (h.books hq).room⟩⟩

theorem containerSlotAddref_free_wp (h : Inv q root 0 (m + n) noResv k) (hc : c ∈ k.ids)
    (ht : (k.obj c).koType = .container) (hy : y ∈ k.ids) (hm : q → k.total y ≤ m)
    (hi : i < (k.obj c).ctSlots.length) (hfree : ((k.obj c).slot i).csRef = 0)
    (hcy : (k.obj y).koType = .container → ¬ Above k.ctParent c y) :
    Wp (containerSlotAddref env c i y extra) k
      (fun _ k' ↦ (Inv q root (if extra = 0 then 0 else y) n noResv k' ∧ Linked c y extra k k') ∧
        Aside q c k k')
      (Fails (Inv q root 0 n noResv)) := by
  have hinv : Inv q root 0 n noResv k := h.mono (Nat.le_add_left n m)
  have htl : (k.obj c).koType ≠ .label := by rw [ht]; decide
  have hup : ¬ Above k.up c y := fun ha ↦ by
    obtain ⟨h1, h2⟩ := h.shape.above_container hc ht ha
    exact hcy h1 h2
  have hne : c ≠ y := fun he ↦ hup (he ▸ .refl)
  unfold containerSlotAddref kobjectIncref
  refine wp_deref hc ?_
  rw [if_pos hfree]
  refine wp_deref hy (wp_require (fun hb ↦ ?_) fun _ ↦ .inr hinv)
  have hallowed : (k.obj y).koRef ≤ extra ∨ (k.obj y).koFixedQuota = true := by
    simpa using hb
  refine Wp.bind (Wp.bind ((kobjectQresReserve_wp 0 h hc hy hm (fun _ ↦ hup)
    (fun _ hl ↦ absurd hl htl) fun _ _ ↦ rfl).mono (fun qr k1 hres ↦ ?_)
    fun _ _ he ↦ he.imp_right fun ⟨h1, _⟩ ↦ h1.inv))
  obtain ⟨ko, nb⟩ := qr
  obtain rfl : ko = c := hres.ko
  have hs := hres.sameRefs
  have hslots : ∀ z, (k1.obj z).ctSlots = (k.obj z).ctSlots := fun z ↦ by rw [hres.obj z]
  refine Wp.bind ((kobjectIncrefResv_wp (hs.ids ▸ hc) (hs.ids ▸ hy)).mono
    (fun qr' k2 ⟨hk2, _, _⟩ ↦ ?_) fun _ _ he ↦ .inl he)
  refine Wp.pure (Wp.modify ?_)
  subst hk2
  have hlink : Link ko y k1 ((k1.mapObj y (gainRef ko)).mapObj ko (setSlot i ⟨y, 1⟩)) := by
    refine link_of (refsOnly_setSlot i ⟨y, 1⟩) hne ?_ rfl rfl rfl ?_ ?_ fun z h1 h2 ↦ ?_
    · have hh := held_setSlot (k1.obj ko) ((hs.type ko).trans ht) (by rwa [hslots]) ⟨y, 1⟩
      have hfree1 : ((k1.obj ko).slot i).csRef = 0 := by
        unfold Kobject.slot
        rw [hslots]
        exact hfree
      rw [slotRef_zero hfree1, slotRef_pos (by show 0 < 1; decide), add_zero] at hh
      rw [hh, Multiset.add_comm, Multiset.singleton_add]
    · simp [Store.mapObj_obj, hne]
    · simp [Store.mapObj_obj, Ne.symm hne]
    · simp [Store.mapObj_obj, h1, h2]
  refine ⟨⟨(hres.inv.exempt _).link hlink (hs.ids ▸ hc) (hs.ids ▸ hy) ?_ ?_ ?_ ?_ ?_, ?_⟩,
    fun hq z hz ↦ (hlink.total z).trans (hres.total_other hq z hz), fun z hz ↦ ?_⟩
  · rw [hs.type, ht]
    trivial
  · rw [hs.type, hs.ctParent]
    exact hcy
  · intro _
    rw [hs.ref, hs.fixed]
    rcases hallowed with h1 | h1
    · by_cases he : extra = 0
      · exact .inr (.inl (by omega))
      · exact .inl (if_neg he).symm
    · exact .inr (.inr (.inl h1))
  · intro hq _
    rw [update_self, hres.total_other hq y hup]
  · exact fun z hz ↦ (update_of_ne hz _ _).symm
  · refine ⟨⟨hlink.ids.trans hs.ids, hlink.counter.trans hs.counter, hlink.encipher.trans hs.encipher,
      fun z ↦ (hlink.type z).trans (hs.type z), fun z ↦ (hlink.fixed z).trans (hs.fixed z)⟩,
      hallowed, fun z ↦ ?_, fun z ↦ ?_⟩
    · rw [hlink.ref, hs.ref]
    · rw [hlink.parent, hs.parent]
  · refine (hres.same z).trans (Same.trans ?_ (same_mapObj hz))
    unfold Same
    rw [Store.mapObj_obj]
    split
    · exact ⟨_, _, _, _, rfl⟩
    · exact ⟨_, _, _, _, rfl⟩

theorem containerSlotAddref_again_wp (h : Inv q root 0 n noResv k) (hc : c ∈ k.ids)
    (ht : (k.obj c).koType = .container) (hr : 0 < ((k.obj c).slot i).csRef) :
    Wp (containerSlotAddref env c i y extra) k
      (fun _ k' ↦ (Inv q root 0 n noResv k' ∧ SameRefs k k') ∧ Aside q c k k')
      (Fails (Inv q root 0 n noResv)) := by
  have hf := refsOnly_setSlot i ⟨((k.obj c).slot i).csId, ((k.obj c).slot i).csRef + 1⟩
  have hheld : (setSlot i ⟨((k.obj c).slot i).csId, ((k.obj c).slot i).csRef + 1⟩
      (k.obj c)).held = (k.obj c).held :=
    held_setSlot_same ht (slot_lt hr) ((slotRef_pos (Nat.succ_pos _)).trans (slotRef_pos hr).symm)
  unfold containerSlotAddref
  refine wp_deref hc ?_
  rw [if_neg (by omega)]
  refine ⟨⟨h.mapObj_same hf hheld, hf.sameRefs hheld⟩, fun _ z _ ↦ total_mapObj hf.total z,
    fun z hz ↦ same_mapObj hz⟩

theorem Linked.of_sameRefs {k1 : Store} (hs : SameRefs k k1) (h : Linked c y extra k1 k') :
    Linked c y extra k k' where
  ids := h.ids.trans hs.ids
  counter := h.counter.trans hs.counter
  encipher := h.encipher.trans hs.encipher
  type z := (h.type z).trans (hs.type z)
  fixed z := (h.fixed z).trans (hs.fixed z)
  allowed := by rw [← hs.ref, ← hs.fixed]; exact h.allowed
  ref z := by rw [h.ref, hs.ref]
  parent z := by rw [h.parent, hs.parent]

theorem wp_slotFor {Q : Nat → Store → Prop} {E : Errno → Store → Prop}
    (hok : ∀ i, containerSlotFind env c y k = .ok i → Q i k)
    (hnone : containerSlotFind env c y k = .error .notFound → Wp (containerSlotAlloc env c) k Q E)
    (herr : ∀ e, E e k) : Wp (containerSlotFor env c y) k Q E := by
  rcases hfind : containerSlotFind env c y k with e | i
  · by_cases he : e = .notFound
    · subst he
      refine Wp.congr ?_ (hnone hfind)
      simp only [containerSlotFor, hfind]
    · refine Wp.congr (d := Exec.fail e) ?_ (herr e)
      simp only [containerSlotFor, hfind]
      cases e <;> first | rfl | exact absurd rfl he
  · refine Wp.congr (d := pure i) ?_ (hok i hfind)
    simp only [containerSlotFor, hfind]
    rfl

/-- What `container_put` does: `c` counts one more reference of an object it has
already, or takes its first one. -/
structure Placed (env : Env) (q : Prop) (root n c y extra : Nat) (k k' : Store) : Prop
    extends Aside q c k k' where
  refs : Inv q root 0 n noResv k' ∧ SameRefs k k' ∨
    containerSlotFind env c y k = .error .notFound ∧
      Inv q root (if extra = 0 then 0 else y) n noResv k' ∧ Linked c y extra k k'

theorem containerPut_wp (h : Inv q root 0 (pgsize + (m + n)) noResv k) (hc : c ∈ k.ids)
    (ht : (k.obj c).koType = .container) (hy : y ∈ k.ids) (hm : q → k.total y ≤ m)
    (hcy : (k.obj y).koType = .container → ¬ Above k.ctParent c y) :
    Wp (containerPut env c y extra) k (fun _ ↦ Placed env q root n c y extra k)
      (Fails (Inv q root 0 n noResv)) := by
  have hinv : Inv q root 0 n noResv k := h.mono (by omega)
  have hup : ¬ Above k.up c y := fun ha ↦ by
    obtain ⟨h1, h2⟩ := h.shape.above_container hc ht ha
    exact hcy h1 h2
  unfold containerPut
  refine wp_deref hc (wp_deref hy (wp_require (fun _ ↦ ?_) fun _ ↦ .inr hinv))
  refine Wp.bind (wp_slotFor (fun i hfind ↦ ?_) (fun hfind ↦ ?_) fun _ ↦ .inr hinv)
  · exact (containerSlotAddref_again_wp hinv hc ht (containerSlotFind_ok hfind).2.2).imp
      fun _ _ h1 ↦ ⟨h1.2, .inl h1.1⟩
  · refine (containerSlotAlloc_wp h hc ht).mono (fun i k1 ⟨h1, hs⟩ ↦ ?_)
      fun _ _ hf ↦ hf.imp_right fun h2 ↦ h2.mono (by omega)
    have hids := hs.refs.ids
    refine (containerSlotAddref_free_wp h1 (hids ▸ hc) ((hs.refs.type c).trans ht) (hids ▸ hy)
      (fun hq ↦ ?_) hs.lt hs.free ?_).imp fun _ k2 ⟨⟨h2, hl⟩, ha⟩ ↦ ⟨hs.toAside.trans hs.refs ha,
        .inr ⟨hfind, h2, .of_sameRefs hs.refs hl⟩⟩
    · rw [hs.total_other hq y hup]
      exact hm hq
    · rw [hs.refs.type, hs.refs.ctParent]
      exact hcy

end HiStar.Kobj
