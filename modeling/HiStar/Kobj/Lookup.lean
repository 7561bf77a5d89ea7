import HiStar.Kobj.Accounts

namespace HiStar.Kobj

open Lib Function
open Handle (ident)

variable {root c x : Nat} {k k' : Store} {env : Env}

/-- A system call on references, or one of the operations on references and quota
that the other calls are made of. -/
inductive RefOp
  | call (c : Call)
  | op (o : QuotaOp)

namespace RefOp

def run (env : Env) : RefOp → Sys Unit
  | call c => c.run env
  | op o => o.run env

def Typed : RefOp → Store → Prop
  | call _, _ => True
  | op o, k => o.Typed k

def KeepsOrder : RefOp → Store → Prop
  | call c, k => c.KeepsOrder k
  | op o, k => o.KeepsOrder k

end RefOp

instance {top : Nat} (op : RefOp) : Cuts top (op.run env) := by
  cases op <;> unfold RefOp.run <;> infer_instance

abbrev RefReachable (P : RefOp → Store → Prop) : Store → Prop :=
  Runs RefOp.run (fun _ ↦ True) fun _ op k ↦ op.Typed k ∧ P op k

theorem RefOp.run_shape (op : RefOp) (h : Shape root k) (ht : k.curThread ∈ k.ids)
    (hth : (k.obj k.curThread).koType = .thread) (htyped : op.Typed k) (hp : op.KeepsOrder k) :
    Wp (op.run env) k (fun _ ↦ Shape root) (Fails (Shape root)) := by
  cases op with
  | call c => exact Call.run_wp c h ht hth hp
  | op o =>
    exact (o.run_wp (.ofShape h) htyped hp False.elim).mono (fun _ _ h1 ↦ h1.shape)
      fun _ _ he ↦ he.imp_right Inv.shape

theorem RefOp.Typed.cut {top : Nat} {op : RefOp} (h : op.Typed k) : op.Typed (k.cut top) := by
  cases op with
  | call c => trivial
  | op o => cases o <;> exact h

theorem RefOp.KeepsOrder.cut {top : Nat} {op : RefOp} (h : op.KeepsOrder k) :
    op.KeepsOrder (k.cut top) := by
  cases op with
  | call c => cases c <;> exact h
  | op o => cases o <;> exact h

theorem RefReachable.shape {top : Nat} (h : RefReachable RefOp.KeepsOrder k)
    (hcount : k.handleCounter ≤ top) (htop : top ≤ 2 ^ 59) : ∃ root, Shape root (k.cut top) := by
  refine h.cut_invariant (J := fun k ↦ ∃ root, Shape root k) htop (fun _ _ ↦ inferInstance)
    (fun _ _ _ hp ↦ ⟨hp.1.cut, hp.2.cut⟩) (fun he _ hb ↦ ?_)
    (fun ⟨root, hs⟩ ht hth hp hrun hres ↦ ?_) hcount
  · obtain ⟨root, h0⟩ := userBootstrap_inv (q := False) (n := 0) he False.elim hb
    exact ⟨root, h0.shape⟩
  · exact ⟨root, Wp.of_eq (RefOp.run_shape _ (hs.setCurThread _) ht hth hp.1 hp.2)
      (fun _ _ h1 ↦ h1) hrun hres⟩

def Slotted (c x : Nat) (k : Store) : Prop := ∃ cs ∈ (k.obj c).ctSlots, cs.csId = x ∧ 0 < cs.csRef

theorem mem_slotRef {cs : CtSlot} : x ∈ Kobject.slotRef cs ↔ cs.csId = x ∧ 0 < cs.csRef := by
  rcases Nat.eq_zero_or_pos cs.csRef with h | h
  · simp [slotRef_zero h, h]
  · simp [slotRef_pos h, h, eq_comm]

theorem mem_slotRef_sum {l : List CtSlot} :
    x ∈ (l.map Kobject.slotRef).sum ↔ ∃ cs ∈ l, cs.csId = x ∧ 0 < cs.csRef := by
  induction l with
  | nil => simp
  | cons cs l ih =>
    rw [List.map_cons, List.sum_cons, Multiset.mem_add, ih, mem_slotRef]
    simp only [List.mem_cons, exists_eq_or_imp]

theorem Slotted.held (h : Slotted c x k) (ht : (k.obj c).koType = .container) : x ∈ k.held c := by
  refine Multiset.mem_add.mpr (.inl ?_)
  rw [Kobject.typeHeld_container ht]
  exact mem_slotRef_sum.mpr h

/-- The first thread makes a container with a label of its own. -/
def labelEnv : Env := { quietEnv with ulabel := some (.ok 0) }

/-- After the call 19 is the counter of the new label and 20 that of the new container. -/
@[irreducible] def labelledStore : Store :=
  ((Call.containerAlloc (ident 11) (fun _ ↦ false) pgsize).run labelEnv
    { bootedStore with curThread := ident 12 }).2

theorem labelledStore_reachable : RefReachable RefOp.KeepsOrder labelledStore := by
  unfold labelledStore
  exact bootedStore_step RefOp.run labelEnv
    (.call (.containerAlloc (ident 11) (fun _ ↦ false) pgsize)) trivial ⟨trivial, trivial⟩
    (by decide +kernel)

/-- While no container is moved below itself and at most `2 ^ 59` counters have been used,
every reference leads to an object of a type that the holder may refer to, `ko_ref` counts the
references, with one more for the root parent, and `ko_parent` is one of the holders. -/
theorem references_counted (h : RefReachable RefOp.KeepsOrder k)
    (hcount : k.handleCounter ≤ 2 ^ 59) : ∃ root, ∀ x ∈ k.ids,
    (∀ y ∈ k.held x, y ∈ k.ids ∧ MayHold (k.obj x).koType (k.obj y).koType) ∧
      (k.obj x).koRef = refCount k.ids k.held x + (if x = root then 1 else 0) ∧
      ((k.obj x).koParent ≠ 0 →
        (k.obj x).koParent ∈ k.ids ∧ x ∈ k.held (k.obj x).koParent) := by
  obtain ⟨root, hk⟩ := h.shape le_rfl hcount
  exact ⟨root, fun x hx ↦ ⟨fun y hy ↦ ⟨hk.held_mem x hx y hy, hk.held_type x hx y hy⟩,
    hk.ref_eq x hx, hk.parent_holds x hx⟩⟩

theorem new_container_counted : (labelledStore.obj (ident 20)).koParent = ident 11 ∧
    ident 20 ∈ labelledStore.held (ident 11) := by
  obtain ⟨_, hall⟩ := references_counted labelledStore_reachable (by decide +kernel)
  have hp : (labelledStore.obj (ident 20)).koParent = ident 11 := by decide +kernel
  exact ⟨hp, hp ▸ ((hall (ident 20) (by decide +kernel)).2.2 (by decide +kernel)).2⟩

end HiStar.Kobj
