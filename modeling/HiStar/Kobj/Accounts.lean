import HiStar.Kobj.Hierarchy
import HiStar.Kobj.MoveQuota

namespace HiStar.Kobj

open Lib Function
open Handle (ident)

variable {root x n : Nat} {k k' : Store} {env : Env}

/-- The operations that charge objects for what they hold. A second reference to
a variable-quota object is taken only inside `sys_obj_move`, and a label is set
with a reservation only inside `kobject_set_label` and `thread_change_label`. -/
inductive QuotaOp
  | alloc (type : KobjType) (l c : Nat)
  | put (c ko : Nat)
  | unref (c ko : Nat)
  | gc (c : Nat)
  | setNbytes (ko nbytes : Nat)
  | setLabel (ko : Nat) (idx : KoLabel) (newLabel : Nat)
  | clearLabel (ko : Nat) (idx : KoLabel) (oldLabel : Nat)
  | changeLabel (t newLabel : Nat)
  | objMove (container object newParent ancestor : Nat)
  | moveQuota (parentId childId : Nat) (nbytes : Int)

namespace QuotaOp

def run (env : Env) : QuotaOp → Sys Unit
  | alloc type l c => do
    let _ ← kobjectAlloc env type l c
    pure ()
  | put c ko => containerPut env c ko 0
  | unref c ko => containerUnref env c ko false
  | gc c => containerGc env c
  | setNbytes ko nbytes => kobjectSetNbytes env ko nbytes
  | setLabel ko idx newLabel => kobjectSetLabel env ko idx newLabel
  | clearLabel ko idx oldLabel => dropLabel ko idx oldLabel
  | changeLabel t newLabel => threadChangeLabel env t newLabel
  | objMove container object newParent ancestor =>
    sysObjMove env container object newParent ancestor
  | moveQuota parentId childId nbytes => sysContainerMoveQuota env parentId childId nbytes

def IsContainerPtr (c : Nat) (k : Store) : Prop := c ∈ k.ids ∧ (k.obj c).koType = .container

def IsLabelPtr (l : Nat) (k : Store) : Prop := l ∈ k.ids ∧ (k.obj l).koType = .label

/-- What the kernel passes: pointers to objects of the types that the operation
is for. Containers grow only inside `container_put`, and labels only before they
are used. -/
def Typed : QuotaOp → Store → Prop
  | alloc type l c, k =>
    type ≠ .dead ∧ (l ≠ 0 → IsLabelPtr l k) ∧ (c ≠ 0 → IsLabelPtr c k)
  | put c ko, k => IsContainerPtr c k ∧ ko ∈ k.ids
  | unref c _, k => IsContainerPtr c k
  | gc c, k => IsContainerPtr c k
  | setNbytes ko _, k => ko ∈ k.ids ∧ (k.obj ko).koType ≠ .container ∧
    ((k.obj ko).koType = .label → (k.obj ko).koRef = 0)
  | setLabel ko _ newLabel, k => ko ∈ k.ids ∧
    (newLabel ≠ 0 → IsLabelPtr newLabel k ∧ MayHold (k.obj ko).koType .label)
  | clearLabel ko _ _, k => ko ∈ k.ids
  | changeLabel t newLabel, k => t ∈ k.ids ∧ (k.obj t).koType = .thread ∧ IsLabelPtr newLabel k
  | objMove .., _ => True
  | moveQuota .., _ => True

def namedTotal (object : Nat) (k : Store) : Nat :=
  match kobjectTranslateId object k with
  | .ok ko => k.total ko
  | .error _ => 0

/-- The quota that the operation hands out overflows nothing, a container is not
put below itself, the moved object leaves its old parent, and quota is moved
between two objects and not below zero. -/
def Fits (env : Env) : QuotaOp → Store → Prop
  | alloc _ l c, k =>
    Room (kobjDiskSize + ((if l = 0 then 0 else k.total l) + if c = 0 then 0 else k.total c)) k
  | put c ko, k => Room (pgsize + k.total ko) k ∧
    ((k.obj ko).koType = .container → ¬ Above k.ctParent c ko)
  | setNbytes ko nbytes, k => Room (roundupPage nbytes - roundupPage (k.obj ko).koNbytes) k
  | setLabel _ _ newLabel, k => Room (if newLabel = 0 then 0 else k.total newLabel) k
  | changeLabel t newLabel, k =>
    Room (changeLabelBytes t newLabel k) k ∧ changeLabelBytes t newLabel k < ctQuotaInf
  | objMove container object newParent _, k =>
    Room (pgsize + namedTotal object k) k ∧ MovesDown object newParent k ∧
      MovesWhole env container object newParent k
  | moveQuota parentId childId nbytes, k => QuotaMovable parentId childId nbytes k
  | _, _ => True

/-- No container is put below itself. -/
def KeepsOrder : QuotaOp → Store → Prop
  | put c ko, k => (k.obj ko).koType = .container → ¬ Above k.ctParent c ko
  | objMove _ object newParent _, k => MovesDown object newParent k
  | _, _ => True

theorem Fits.keepsOrder {op : QuotaOp} (h : op.Fits env k) : op.KeepsOrder k := by
  cases op with
  | put => exact h.2
  | objMove => exact h.2.1
  | _ => trivial

end QuotaOp

instance {top : Nat} (op : QuotaOp) : Cuts top (op.run env) := by
  cases op <;> unfold QuotaOp.run <;> infer_instance

/-- The states of a run that starts with the boot of images that fit and in which
`P` holds before every operation. -/
abbrev QuotaReachable (P : Env → QuotaOp → Store → Prop) : Store → Prop :=
  Runs QuotaOp.run (fun image ↦ bootBytes image < 2 ^ 62) fun env op k ↦ op.Typed k ∧ P env op k

abbrev Balanced (root : Nat) : Store → Prop := Inv True root 0 0 noResv

theorem Inv.withRoom {q : Prop} (h : Inv q root 0 0 noResv k) (hn : q → Room n k) :
    Inv q root 0 n noResv k :=
  ⟨h.shape, fun hq ↦ ⟨(h.books hq).single, (h.books hq).charged, hn hq⟩⟩

theorem Balanced.setCurThread (h : Balanced root k) (t : Nat) :
    Balanced root { k with curThread := t } :=
  ⟨h.shape.setCurThread t, fun hq ↦ ⟨(h.books hq).single, ⟨(h.books hq).charged.root_inf,
    (h.books hq).charged.total_lt, (h.books hq).charged.size, (h.books hq).charged.balance,
    (h.books hq).charged.within⟩, (h.books hq).room⟩⟩

theorem QuotaOp.run_wp {q : Prop} (op : QuotaOp) (h : Inv q root 0 0 noResv k)
    (htyped : op.Typed k) (hdown : op.KeepsOrder k) (hfits : q → op.Fits env k) :
    Wp (op.run env) k (fun _ ↦ Inv q root 0 0 noResv) (Fails (Inv q root 0 0 noResv)) := by
  cases op with
  | alloc type l c =>
    obtain ⟨hd, hl, hc⟩ := htyped
    have h0 : Inv q root 0 (_ + 0) noResv k := h.withRoom hfits
    exact Wp.seq (kobjectAlloc_wp h0 (fun _ _ ↦ rfl) hd hl hc fun _ ↦ le_rfl)
      fun _ _ ha ↦ Wp.pure ha.inv
  | put c ko =>
    obtain ⟨⟨hc, hct⟩, hko⟩ := htyped
    have h0 : Inv q root 0 (pgsize + (k.total ko + 0)) noResv k := h.withRoom fun hq ↦ (hfits hq).1
    exact (addref_wp h0 hc hct hko (fun _ ↦ le_rfl) hdown).imp fun _ _ h1 ↦ h1.1
  | unref c ko =>
    exact (containerUnref_wp h htyped.1 htyped.2).mono (fun _ _ h1 ↦ h1.1)
      fun _ _ he ↦ he.imp_right fun ⟨hk, _⟩ ↦ hk ▸ h
  | gc c => exact (containerGc_wp h htyped.1 htyped.2).imp fun _ _ h1 ↦ h1.1
  | setNbytes ko nbytes =>
    obtain ⟨hko, -, hl⟩ := htyped
    have h0 : Inv q root 0 (roundupPage nbytes - roundupPage (k.obj ko).koNbytes + 0) noResv k :=
      h.withRoom hfits
    exact (kobjectSetNbytes_wp h0 hko (fun _ ↦ by omega) fun _ ↦ hl).mono (fun _ _ h1 ↦ h1.1)
      fun _ _ he ↦ he.imp_right fun h1 ↦ h1.1
  | setLabel ko idx newLabel =>
    obtain ⟨hko, hnew⟩ := htyped
    have h0 : Inv q root 0 ((if newLabel = 0 then 0 else k.total newLabel) + 0) noResv k :=
      h.withRoom hfits
    refine (kobjectSetLabel_wp h0 hko (fun hn ↦ ?_) (fun _ hn ↦ ?_) fun _ ↦ rfl).mono
      (fun _ _ h1 ↦ h1.1) fun _ _ he ↦ he.imp_right fun h1 ↦ h1.1
    · exact ⟨(hnew hn).1.1, (hnew hn).1.2, (hnew hn).2⟩
    · rw [if_neg hn]
  | clearLabel ko idx oldLabel =>
    exact Wp.bind ((dropLabel_wp h htyped).mono (fun _ _ h1 ↦ Wp.pure h1.1)
      fun _ _ he ↦ .inl he)
  | changeLabel t newLabel =>
    obtain ⟨ht, hth, hnm, hnl⟩ := htyped
    have h0 : Inv q root 0 (changeLabelBytes t newLabel k + 0) noResv k :=
      (h.withRoom fun hq ↦ (hfits hq).1).mono (Nat.add_zero _).le
    exact (threadChangeLabel_wp h0 (fun _ _ ↦ rfl) ht hth hnm hnl (fun _ ↦ le_rfl)
      fun hq ↦ (hfits hq).2).imp fun _ _ h1 ↦ h1.1
  | objMove container object newParent ancestor =>
    have h0 : Inv q root 0 (pgsize + (namedTotal object k + 0)) noResv k :=
      h.withRoom fun hq ↦ (hfits hq).1
    refine sysObjMove_wp h0 (fun _ ko hko ↦ ?_) hdown fun hq ↦ (hfits hq).2.2
    unfold namedTotal
    rw [hko]
  | moveQuota parentId childId nbytes => exact sysContainerMoveQuota_wp h hfits

theorem QuotaReachable.balanced {top : Nat} (h : QuotaReachable (fun env op k ↦ op.Fits env k) k)
    (hcount : k.handleCounter ≤ top) (htop : top ≤ 2 ^ 59) : ∃ root, Balanced root (k.cut top) := by
  refine h.cut_invariant (J := fun k ↦ ∃ root, Balanced root k) htop (fun _ _ ↦ inferInstance)
    (fun _ op _ hp ↦ ?_) (fun he hfit hb ↦ ?_) (fun ⟨root, hb⟩ _ _ hp hrun hres ↦ ?_) hcount
  · cases op <;> exact hp
  · exact userBootstrap_inv he (fun _ ↦ (Nat.add_zero _).trans_lt hfit) hb
  · exact ⟨root, Wp.of_eq (QuotaOp.run_wp _ (hb.setCurThread _) hp.1 hp.2.keepsOrder fun _ ↦ hp.2)
      (fun _ _ h1 ↦ h1) hrun hres⟩

/-- Every object with a finite quota is charged exactly for itself and for what
it refers to, and stays within its quota, while at most `2 ^ 59` counters have been used. -/
theorem quota_conserved (h : QuotaReachable (fun env op k ↦ op.Fits env k) k)
    (hcount : k.handleCounter ≤ 2 ^ 59) (hx : x ∈ k.ids)
    (hi : (k.obj x).koQuotaTotal ≠ ctQuotaInf) :
    (k.obj x).koQuotaUsed ≤ (k.obj x).koQuotaTotal ∧
      (k.obj x).koQuotaUsed = kobjDiskSize + pgsize * (k.obj x).npages +
        ((k.obj x).held.map fun y ↦ (k.obj y).koQuotaTotal).sum := by
  obtain ⟨root, hb⟩ := h.balanced le_rfl hcount
  have hc := (hb.books trivial).charged
  exact ⟨hc.within x hx hi, hc.balance x hx hi⟩

theorem bootedStore_quotaReachable {P : Env → QuotaOp → Store → Prop} :
    QuotaReachable P bootedStore :=
  bootedStore_runs (by decide +kernel)

theorem boot_quota_conserved :
    (bootedStore.obj (ident 11)).koQuotaUsed ≤ (bootedStore.obj (ident 11)).koQuotaTotal :=
  (quota_conserved bootedStore_quotaReachable (by decide +kernel) (by decide +kernel)
    (by decide +kernel)).1

@[irreducible] def wrappedStore : Store :=
  (sysContainerMoveQuota quietEnv (ident 11) (ident 12) (-2 ^ 62)
    { bootedStore with curThread := ident 12 }).2

/-- A negative amount that wraps leaves the container above its quota. -/
theorem move_quota_wraps : ∃ k, QuotaReachable (fun _ _ _ ↦ True) k ∧ k.handleCounter ≤ 2 ^ 59 ∧
    ∃ x ∈ k.ids, (k.obj x).koQuotaTotal ≠ ctQuotaInf ∧
      (k.obj x).koQuotaTotal < (k.obj x).koQuotaUsed := by
  have hreach : QuotaReachable (fun _ _ _ ↦ True) wrappedStore := by
    unfold wrappedStore
    exact bootedStore_step QuotaOp.run quietEnv (.moveQuota (ident 11) (ident 12) (-2 ^ 62))
      (by decide +kernel) ⟨trivial, trivial⟩ (by decide +kernel)
  exact ⟨wrappedStore, hreach, by decide +kernel, ident 11, by decide +kernel, by decide +kernel,
    by decide +kernel⟩

end HiStar.Kobj
