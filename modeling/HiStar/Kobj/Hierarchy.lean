import HiStar.Kobj.Calls
import HiStar.Kobj.Runs

namespace HiStar.Kobj

open Lib Function
open Handle (ident)

variable {root c : Nat} {k k' : Store} {env : Env}

/-- The system calls that create, move and drop references to containers. -/
inductive Call
  | containerAlloc (parentCt : Nat) (avoidTypes : KobjType → Bool) (quota : Nat)
  | objMove (container object newParent ancestor : Nat)
  | objUnref (container object : Nat)
  | segmentAddref (container object ct : Nat)
  | selfAddref (ct : Nat)

def Call.run (env : Env) : Call → Sys Unit
  | .containerAlloc parentCt avoidTypes quota => do
    let _ ← sysContainerAlloc env parentCt avoidTypes quota
    pure ()
  | .objMove container object newParent ancestor =>
    sysObjMove env container object newParent ancestor
  | .objUnref container object => sysObjUnref env container object
  | .segmentAddref container object ct => sysSegmentAddref env container object ct
  | .selfAddref ct => sysSelfAddref env ct

def Call.KeepsOrder : Call → Store → Prop
  | .objMove _ object newParent _, k => MovesDown object newParent k
  | _, _ => True

instance {top : Nat} (call : Call) : Cuts top (call.run env) := by
  cases call <;> unfold Call.run <;> infer_instance

/-- The states between the calls of a run in which `P` holds before every call. -/
abbrev Reachable (P : Call → Store → Prop) : Store → Prop :=
  Runs Call.run (fun _ ↦ True) fun _ ↦ P

theorem Call.run_wp (call : Call) (h : Shape root k) (ht : k.curThread ∈ k.ids)
    (hth : (k.obj k.curThread).koType = .thread) (hp : call.KeepsOrder k) :
    Wp (call.run env) k (fun _ ↦ Shape root) (Fails (Shape root)) := by
  cases call with
  | containerAlloc parentCt avoidTypes quota =>
    exact Wp.seq (sysContainerAlloc_wp h) fun _ _ h1 ↦ Wp.pure h1
  | objMove container object newParent ancestor =>
    have h0 : Inv False root 0 (pgsize + (0 + 0)) noResv k := .ofShape h
    exact (sysObjMove_wp h0 False.elim hp False.elim).mono (fun _ _ h1 ↦ h1.shape)
      fun _ _ he ↦ he.imp_right Inv.shape
  | objUnref container object => exact sysObjUnref_wp h
  | segmentAddref container object ct => exact sysSegmentAddref_wp h
  | selfAddref ct => exact sysSelfAddref_wp h ht hth

theorem Reachable.shape {top : Nat} (h : Reachable Call.KeepsOrder k)
    (hcount : k.handleCounter ≤ top) (htop : top ≤ 2 ^ 59) : ∃ root, Shape root (k.cut top) := by
  refine h.cut_invariant (J := fun k ↦ ∃ root, Shape root k) htop (fun _ _ ↦ inferInstance)
    (fun _ call _ hp ↦ ?_) (fun he _ hb ↦ ?_) (fun ⟨root, hs⟩ ht hth hp hrun hres ↦ ?_) hcount
  · cases call <;> exact hp
  · obtain ⟨root, h0⟩ := userBootstrap_inv (q := False) (n := 0) he False.elim hb
    exact ⟨root, h0.shape⟩
  · exact ⟨root, Wp.of_eq (Call.run_wp _ (hs.setCurThread _) ht hth hp) (fun _ _ h1 ↦ h1)
      hrun hres⟩

abbrev Store.koParent (k : Store) (c : Nat) : Nat := (k.obj c).koParent

theorem Shape.ctParent_of_ne (hk : Shape root k) (hc : c ∈ k.ids)
    (ht : (k.obj c).koType = .container) (hp : k.koParent c ≠ 0) :
    k.ctParent c = some (k.koParent c) ∧ k.koParent c ∈ k.ids ∧
      (k.obj (k.koParent c)).koType = .container := by
  obtain ⟨hm, hheld⟩ := hk.parent_holds c hc hp
  have hty := hk.held_type _ hm c hheld
  rw [ht] at hty
  exact ⟨if_pos ⟨ht, hp⟩, hm, mayHold_container hty⟩

theorem Shape.reaches_top (hk : Shape root k) (hc : c ∈ k.ids)
    (ht : (k.obj c).koType = .container) :
    ∃ j, (∀ i ≤ j, k.koParent^[i] c ∈ k.ids) ∧ k.koParent (k.koParent^[j] c) = 0 := by
  have hg := hk.grounded c hc
  induction hg with
  | intro c _ ih =>
    by_cases hp : k.koParent c = 0
    · exact ⟨0, fun i hi ↦ by rwa [Nat.le_zero.mp hi], hp⟩
    · obtain ⟨hup, hm, hty⟩ := hk.ctParent_of_ne hc ht hp
      obtain ⟨j, hj, htop⟩ := ih _ hup hm hty
      refine ⟨j + 1, fun i hi ↦ ?_, htop⟩
      cases i with
      | zero => exact hc
      | succ i => exact hj i (Nat.le_of_succ_le_succ hi)

theorem Shape.hasAncestor_ends (hk : Shape root k) (hc : c ∈ k.ids)
    (ht : (k.obj c).koType = .container) :
    ∃ limit, ∀ env ancestor, containerHasAncestor env ancestor k limit c ≠ none := by
  have hg := hk.grounded c hc
  induction hg with
  | intro c _ ih =>
    by_cases hp : k.koParent c = 0
    · refine ⟨1, fun env ancestor ↦ ?_⟩
      unfold containerHasAncestor
      split <;> simp
    · obtain ⟨hup, hm, hty⟩ := hk.ctParent_of_ne hc ht hp
      obtain ⟨limit, hl⟩ := ih _ hup hm hty
      refine ⟨limit + 1, fun env ancestor ↦ ?_⟩
      unfold containerHasAncestor
      split
      · simp
      · cases cobjGet env (k.koParent c) c (some .container) .none k with
        | error e => simp
        | ok _ =>
          cases hget : kobjectGet env (k.koParent c) (some .container) .read k with
          | error e => simp
          | ok p =>
            have htr := (kobjectGet_ok hget).1
            rw [hk.translate hm, Except.ok.injEq] at htr
            exact htr ▸ hl env ancestor

/-- While no container is moved below itself and at most `2 ^ 59` counters have been used,
every chain of parents ends and so does every walk along it. -/
theorem container_hierarchy_acyclic (h : Reachable Call.KeepsOrder k)
    (hcount : k.handleCounter ≤ 2 ^ 59) (hc : c ∈ k.ids) (ht : (k.obj c).koType = .container) :
    (∃ j, (∀ i ≤ j, k.koParent^[i] c ∈ k.ids) ∧ k.koParent (k.koParent^[j] c) = 0) ∧
      ∃ limit, ∀ env ancestor, containerHasAncestor env ancestor k limit c ≠ none := by
  obtain ⟨root, hk⟩ := h.shape le_rfl hcount
  obtain ⟨limit, hends⟩ := hk.hasAncestor_ends hc ht
  refine ⟨hk.reaches_top hc ht, limit, fun env ancestor ↦ ?_⟩
  have := hends env ancestor
  rwa [containerHasAncestor_cut] at this

theorem boot_hierarchy_acyclic :
    ∃ j, (∀ i ≤ j, bootedStore.koParent^[i] (ident 11) ∈ bootedStore.ids) ∧
      bootedStore.koParent (bootedStore.koParent^[j] (ident 11)) = 0 :=
  (container_hierarchy_acyclic (bootedStore_runs trivial) (by decide +kernel) (by decide +kernel)
    (by decide +kernel)).1

@[irreducible] def movedStore : Store :=
  (sysObjMove quietEnv (ident 5) (ident 11) (ident 11) (ident 5)
    { bootedStore with curThread := ident 12 }).2

theorem move_reachable : Reachable (fun _ _ ↦ True) movedStore := by
  unfold movedStore
  exact bootedStore_step Call.run quietEnv (.objMove (ident 5) (ident 11) (ident 11) (ident 5))
    trivial trivial (by decide +kernel)

/-- After the move the container is its own parent, and the walk never ends. -/
theorem move_below_itself : ∃ k, Reachable (fun _ _ ↦ True) k ∧ k.handleCounter ≤ 2 ^ 59 ∧
    ∃ c ∈ k.ids, (k.obj c).koType = .container ∧ (∀ j, k.koParent (k.koParent^[j] c) ≠ 0) ∧
      ∃ env ancestor, ∀ limit, containerHasAncestor env ancestor k limit c = none := by
  have hself : movedStore.koParent (ident 11) = ident 11 := by decide +kernel
  have hne : ident 11 ≠ 0 := by decide +kernel
  refine ⟨movedStore, move_reachable, by decide +kernel, ident 11, by decide +kernel,
    by decide +kernel, fun j ↦ ?_, quietEnv, 0, fun limit ↦ ?_⟩
  · rw [Function.iterate_fixed hself, hself]
    exact hne
  · induction limit with
    | zero => rfl
    | succ limit ih =>
      have h1 : cobjGet quietEnv (movedStore.koParent (ident 11)) (ident 11) (some .container) .none
        movedStore = .ok (ident 11) := by decide +kernel
      have h2 : kobjectGet quietEnv (movedStore.koParent (ident 11)) (some .container) .read
        movedStore = .ok (ident 11) := by decide +kernel
      unfold containerHasAncestor
      rw [if_neg hne, if_neg fun h0 ↦ absurd (hself.symm.trans h0) hne, h1]
      simp only [h2]
      exact ih

end HiStar.Kobj
