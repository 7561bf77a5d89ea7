import HiStar.Kobj.BootMasks

namespace HiStar.Kobj

open Lib Function Relation
open Handle (ident)

variable {root c d x ko t : Nat} {k k' : Store} {env : Env}

theorem Shape.not_contains (h : Shape root k) (hx : x ∈ k.ids) (hr : (k.obj x).koRef = 0) :
    ¬ Contains k c x := fun ⟨hc, ht, hs⟩ ↦ h.not_held_of_ref_zero hx hr hc (hs.held ht)

def Sound (root : Nat) (k : Store) : Prop := Shape root k ∧ Restricted k

theorem Sound.setCurThread (h : Sound root k) (t : Nat) : Sound root { k with curThread := t } :=
  ⟨h.1.setCurThread t, h.2.setCurThread t⟩

theorem kobjectGc_sound (h : Sound root k) (hx : x ∈ k.ids) (hr : (k.obj x).koRef = 0) :
    Wp (kobjectGc env x) k (fun _ ↦ Sound root) (Fails (Sound root)) := by
  refine wp_deref hx (wp_read (fun _ _ ↦ ?_) fun _ _ ↦ .inr h)
  refine Wp.bind (((gcByType_ending h.1 hx hr).and (Grows.of_quiet h.2)).mono
    (fun _ k1 ⟨h1, h1', _⟩ ↦ ?_) fun _ _ ⟨he, he'⟩ ↦ he.imp_right fun hs ↦ ⟨hs, he'⟩)
  refine Wp.bind (((gcDropLabels_ending koLabels h1).and
    (Grows.of_quiet h1'.toRestricted)).mono
    (fun _ k2 ⟨⟨h2, hall, _⟩, h2', _⟩ ↦ ?_) fun _ _ ⟨he, he'⟩ ↦ he.imp_right fun hs ↦ ⟨hs, he'⟩)
  refine Wp.modify ⟨h2.retire fun i ↦ hall i (by cases i <;> simp [koLabels]), ?_⟩
  refine h2'.toRestricted.mapObj (fun c ↦ h2.toShape.not_contains h2.mem h2.ref_zero) ?_
  rintro y ⟨-, ht, -⟩
  rw [Store.mapObj_obj, if_pos rfl] at ht
  cases ht

theorem sound_collectable : Collectable env (Sound root) where
  gc _ _ h hx hr := kobjectGc_sound h hx hr
  remove _ x h hx hr ht := ⟨h.1.removeObj hx hr (h.1.held_dead hx ht), h.2.removeObj x⟩
  cur _ t h := h.setCurThread t

/-- A container is moved only to where its own restrictions include those of the
new place. -/
def MovesMask (object newParent : Nat) (k : Store) : Prop :=
  ∀ ko dst, kobjectTranslateId object k = .ok ko → kobjectTranslateId newParent k = .ok dst →
    MaskKept k dst ko

def RefOp.KeepsMask : RefOp → Store → Prop
  | call (.objMove _ object newParent _), k => MovesMask object newParent k
  | op (.objMove _ object newParent _), k => MovesMask object newParent k
  | op (.put c ko), k => MaskKept k c ko
  | _, _ => True

/-- A function that keeps the containers restricted however it ends. -/
abbrev Keeps {α : Type} (f : Sys α) (k : Store) : Prop :=
  Wp f k (fun _ ↦ Restricted) fun _ ↦ Restricted

theorem Grows.keeps {α : Type} {f : Sys α} {Q : α → Store → Prop} (h : Grows f k Q) :
    Keeps f k := Wp.imp h fun _ _ h1 ↦ h1.1.toRestricted

theorem Quietly.keeps {α : Type} {f : Sys α} [Quietly f] (h : Restricted k) : Keeps f k :=
  (Grows.of_quiet h).keeps

theorem sysObjMove_keeps {container object newParent ancestor : Nat} (h : Restricted k)
    (hm : MovesMask object newParent k) :
    Keeps (sysObjMove env container object newParent ancestor) k := by
  refine Grows.keeps (Q := fun _ _ ↦ True) ?_
  refine .read h fun ko hko ↦ .read h fun src _ ↦ .read h fun dst hdst ↦ ?_
  refine .read h fun _ _ ↦ .read h fun _ _ ↦ ?_
  refine .bind (.of_quiet h) fun _ k1 h1 hc ↦ ?_
  have hput := hm ko dst (cobjGet_ok hko).1 (containerFind_ok hdst).1
  have hput' : MaskKept k1 dst ko := by
    unfold MaskKept
    rw [hc.type, hc.avoid, hc.avoid]
    exact hput
  refine .bind (containerPut_grows h1.toRestricted hput') fun _ k2 h2 _ ↦ ?_
  exact (Grows.of_quiet h2.toRestricted).mono fun _ _ _ _ ↦ trivial

theorem sysObjUnref_sound {container object : Nat} (h : Sound root k) :
    Wp (sysObjUnref env container object) k (fun _ ↦ Sound root) (Fails (Sound root)) := by
  refine wp_read (fun c hc ↦ ?_) fun _ _ ↦ .inr h
  refine wp_read (fun ko _ ↦ ?_) fun _ _ ↦ .inr h
  obtain ⟨-, hcm, hct⟩ := containerFind_ok hc
  have h0 : Inv False root 0 0 noResv k := .ofShape h.1
  refine Wp.bind (((containerUnref_wp h0 hcm hct).and
    (Grows.of_quiet h.2)).mono (fun _ k1 ⟨h1, h1', _⟩ ↦ ?_)
    fun _ _ ⟨he, _⟩ ↦ he.imp_right fun ⟨hk, _⟩ ↦ hk ▸ h)
  exact (sound_collectable.scan ⟨h1.1.shape, h1'.toRestricted⟩).mono (fun _ _ h2 ↦ h2)
    fun _ _ he ↦ .inl he

theorem Call.run_restricted (call : Call) (h : Sound root k)
    (hth : (k.obj k.curThread).koType = .thread) (hp : (RefOp.call call).KeepsMask k) :
    Wp (call.run env) k (fun _ ↦ Restricted) (Fails Restricted) := by
  have lift : ∀ {f : Sys Unit}, Keeps f k → Wp f k (fun _ ↦ Restricted) (Fails Restricted) :=
    fun hf ↦ Wp.mono hf (fun _ _ h1 ↦ h1) fun _ _ he ↦ .inr he
  cases call with
  | containerAlloc parentCt avoidTypes quota =>
    exact lift (Wp.seq (sysContainerAlloc_restricted h.2 avoidTypes quota) fun _ _ h1 ↦ Wp.pure h1)
  | objMove container object newParent ancestor => exact lift (sysObjMove_keeps h.2 hp)
  | objUnref container object =>
    exact (sysObjUnref_sound h).mono (fun _ _ h1 ↦ h1.2) fun _ _ he ↦ he.imp_right And.right
  | segmentAddref container object ct =>
    refine lift (Grows.keeps (Q := fun _ _ ↦ True) (.read h.2 fun c _ ↦ .read h.2 fun ko hko ↦ ?_))
    refine containerPut_grows h.2 fun hct ↦ ?_
    obtain ⟨-, -, -, hty⟩ := cobjGet_ok hko
    rw [hct] at hty
    cases hty.resolve_left (by simp)
  | selfAddref ct =>
    refine lift (Grows.keeps (Q := fun _ _ ↦ True) (.read h.2 fun c _ ↦ ?_))
    refine containerPut_grows h.2 fun hct ↦ ?_
    rw [hth] at hct
    cases hct

theorem QuotaOp.run_keeps (op : QuotaOp) (h : Restricted k) (hp : (RefOp.op op).KeepsMask k) :
    Keeps (op.run env) k := by
  cases op <;> dsimp only [QuotaOp.run]
  case alloc type l c =>
    exact (kobjectAlloc_grows h type l c).seq fun _ _ h1 ↦ Wp.pure h1.1.toRestricted
  case put => exact (containerPut_grows h hp).keeps
  case changeLabel => exact (threadChangeLabel_grows h).keeps
  case objMove => exact sysObjMove_keeps h hp
  -- the others put nothing into a container
  all_goals exact Quietly.keeps h

theorem RefOp.run_sound (op : RefOp) (h : Sound root k) (ht : k.curThread ∈ k.ids)
    (hth : (k.obj k.curThread).koType = .thread) (htyped : op.Typed k)
    (hp : op.KeepsOrder k ∧ op.KeepsMask k) :
    Wp (op.run env) k (fun _ ↦ Sound root) (Fails (Sound root)) := by
  have hr : Wp (op.run env) k (fun _ ↦ Restricted) (Fails Restricted) := by
    cases op with
    | call c => exact c.run_restricted h hth hp.2
    | op o => exact Wp.mono (o.run_keeps h.2 hp.2) (fun _ _ h1 ↦ h1) fun _ _ he ↦ .inr he
  refine ((op.run_shape h.1 ht hth htyped hp.1).and hr).mono (fun _ _ h1 ↦ h1) fun e k' he ↦ ?_
  rcases he with ⟨hstop | hs, hstop' | hr⟩
  · exact .inl hstop
  · exact .inl hstop
  · exact .inl hstop'
  · exact .inr ⟨hs, hr⟩

theorem RefOp.KeepsMask.cut {top : Nat} {op : RefOp} (h : op.KeepsMask k) :
    op.KeepsMask (k.cut top) := by
  cases op with
  | call c => cases c <;> exact h
  | op o => cases o <;> exact h

/-- The runs in which no container is put below itself or out of its
restrictions. -/
abbrev MaskReachable : Store → Prop :=
  RefReachable fun op k ↦ op.KeepsOrder k ∧ op.KeepsMask k

theorem MaskReachable.sound {top : Nat} (h : MaskReachable k) (hcount : k.handleCounter ≤ top)
    (htop : top ≤ 2 ^ 59) : ∃ root, Sound root (k.cut top) := by
  refine h.cut_invariant (J := fun k ↦ ∃ root, Sound root k) htop (fun _ _ ↦ inferInstance)
    (fun _ _ _ hp ↦ ⟨hp.1.cut, hp.2.1.cut, hp.2.2.cut⟩) (fun he _ hb ↦ ?_)
    (fun ⟨root, hs⟩ ht hth hp hrun hres ↦ ?_) hcount
  · obtain ⟨root, h0⟩ := userBootstrap_inv (q := False) (n := 0) he False.elim hb
    exact ⟨root, h0.shape, userBootstrap_restricted he hb⟩
  · exact ⟨root, Wp.of_eq (RefOp.run_sound _ (hs.setCurThread _) ht hth hp.1 hp.2)
      (fun _ _ h1 ↦ h1) hrun hres⟩

theorem Restricted.admits_below (h : Restricted k) (hcd : TransGen (Contains k) c d) :
    Admits k c d := by
  induction hcd with
  | single hcd => exact h.admits _ _ hcd
  | @tail m d _ hmd ih =>
    have hm := ih.inherits hmd.2.1
    obtain ⟨ht, hi⟩ := h.admits m d hmd
    refine ⟨?_, fun hd ty hty ↦ hi hd ty (hm ty hty)⟩
    by_contra hc
    rw [Bool.not_eq_false] at hc
    rw [hm _ hc] at ht
    cases ht

/-- No type that a container avoids occurs anywhere below it, and every container
below it avoids that type too, while at most `2 ^ 59` counters have been used. -/
theorem type_restrictions_hereditary (h : MaskReachable k) (hcount : k.handleCounter ≤ 2 ^ 59)
    (hcd : TransGen (Contains k) c d) :
    ((k.obj d).koType = .container →
      ∀ ty, (k.obj c).ctAvoidTypes ty = true → (k.obj d).ctAvoidTypes ty = true) ∧
    (k.obj c).ctAvoidTypes (k.obj d).koType = false := by
  obtain ⟨root, -, hr⟩ := h.sound le_rfl hcount
  have ha := hr.admits_below (show TransGen (Contains (k.cut k.handleCounter)) c d from hcd)
  exact ⟨ha.inherits, ha.type⟩

theorem first_thread_admitted : TransGen (Contains bootedStore) (ident 5) (ident 12) ∧
    (bootedStore.obj (ident 5)).ctAvoidTypes (bootedStore.obj (ident 12)).koType = false := by
  have h5 : Contains bootedStore (ident 5) (ident 11) := by
    unfold Contains Slotted
    decide +kernel
  have h11 : Contains bootedStore (ident 11) (ident 12) := by
    unfold Contains Slotted
    decide +kernel
  have hcd : TransGen (Contains bootedStore) (ident 5) (ident 12) := .tail (.single h5) h11
  exact ⟨hcd, (type_restrictions_hereditary (bootedStore_runs trivial) (by decide +kernel) hcd).2⟩

/-- The container of the first thread is moved into the one that holds the
embedded programs. -/
@[irreducible] def enclosedStore : Store :=
  (sysObjMove quietEnv (ident 5) (ident 11) (ident 6) (ident 5)
    { bootedStore with curThread := ident 12 }).2

theorem enclosed_keepsOrder : (RefOp.call (.objMove (ident 5) (ident 11) (ident 6) (ident 5))).KeepsOrder
    { bootedStore with curThread := ident 12 } := by
  rintro ko dst hko hdst -
  cases hko
  cases hdst
  have h6 : Store.ctParent { bootedStore with curThread := ident 12 } (ident 6) = some (ident 5) := by
    decide +kernel
  have h5 : Store.ctParent { bootedStore with curThread := ident 12 } (ident 5) = some (ident 4) := by
    decide +kernel
  have h4 : Store.ctParent { bootedStore with curThread := ident 12 } (ident 4) = none := by
    decide +kernel
  intro h
  obtain hne | ⟨p, hp, h⟩ := above_iff.mp h
  · exact absurd hne (by decide +kernel)
  obtain rfl : ident 5 = p := Option.some.inj (h6.symm.trans hp)
  obtain hne | ⟨p, hp, h⟩ := above_iff.mp h
  · exact absurd hne (by decide +kernel)
  obtain rfl : ident 4 = p := Option.some.inj (h5.symm.trans hp)
  obtain hne | ⟨p, hp, -⟩ := above_iff.mp h
  · exact absurd hne (by decide +kernel)
  · cases h4.symm.trans hp

/-- `sys_obj_move` looks at the type of the container that is moved, and not at
what is in it: a thread ends up below a container that avoids threads. -/
theorem thread_below_avoiding_container : ∃ k, RefReachable RefOp.KeepsOrder k ∧
    k.handleCounter ≤ 2 ^ 59 ∧ ∃ c d t, Contains k c d ∧ (k.obj d).koType = .container ∧
      Contains k d t ∧ (k.obj c).ctAvoidTypes (k.obj t).koType = true ∧
      (k.obj d).ctAvoidTypes (k.obj t).koType = false := by
  have hreach : RefReachable RefOp.KeepsOrder enclosedStore := by
    unfold enclosedStore
    exact bootedStore_step RefOp.run quietEnv
      (.call (.objMove (ident 5) (ident 11) (ident 6) (ident 5))) trivial
      ⟨trivial, enclosed_keepsOrder⟩ (by decide +kernel)
  refine ⟨enclosedStore, hreach, by decide +kernel, ident 6, ident 11, ident 12, ?_⟩
  unfold Contains Slotted
  decide +kernel

end HiStar.Kobj
