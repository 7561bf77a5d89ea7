import HiStar.Pagetree.Mem

namespace HiStar.Pagetree

open Lib Function

variable {α β γ : Type}

/-- A call that ends with `-E_RESTART` has been refused memory on its way. -/
def Honest (c : Sys α β) : Prop :=
  ∀ s, Wp c s (fun _ t ↦ s.refused ≤ t.refused) fun er t ↦
    s.refused ≤ t.refused ∧ (er = .restart → s.refused < t.refused)

namespace Honest

theorem pure (b : β) : Honest (Pure.pure b : Sys α β) := fun _ ↦ Wp.pure le_rfl

theorem fail {er : Errno} (h : er ≠ .restart) : Honest (Exec.fail er : Sys α β) := fun _ ↦
  Wp.fail ⟨le_rfl, fun he ↦ absurd he h⟩

theorem modify {f : Mem α → Mem α} (h : ∀ s, (f s).refused = s.refused) :
    Honest (Exec.modify f : Sys α Unit) := fun s ↦ Wp.modify (h s).ge

theorem read (f : Mem α → β) : Honest (Exec.read fun s ↦ .ok (f s) : Sys α β) := fun _ ↦
  Wp.read (fun _ _ ↦ le_rfl) fun _ h ↦ by cases h

theorem require {b : Bool} {er : Errno} (h : er ≠ .restart) :
    Honest (Exec.require b er : Sys α Unit) := fun _ ↦
  Wp.require (fun _ ↦ le_rfl) fun _ ↦ ⟨le_rfl, fun he ↦ absurd he h⟩

theorem bind {c : Sys α β} {f : β → Sys α γ} (hc : Honest c) (hf : ∀ b, Honest (f b)) :
    Honest (c >>= f) := by
  intro s
  refine Wp.seq (hc s) fun b t ht ↦ ?_
  exact (hf b t).mono (fun _ _ hu ↦ ht.trans hu) fun _ _ hu ↦
    ⟨ht.trans hu.1, fun he ↦ ht.trans_lt (hu.2 he)⟩

theorem when {b : Bool} {c : Sys α Unit} (hc : Honest c) : Honest (Exec.when b c) := fun s ↦
  Wp.when (fun _ ↦ hc s) fun _ ↦ le_rfl

/-- The error of the call stays when the cleanup succeeds, and so does the refusal. -/
theorem onFail {c : Sys α β} {f : Sys α Unit} (hc : Honest c) (hf : Honest f) :
    Honest (c.onFail f) := by
  intro s
  refine Wp.onFail ((hc s).mono (fun _ _ h ↦ h) fun er t ht ↦ ?_)
  exact (hf t).mono (fun _ u hu ↦ ⟨ht.1.trans hu, fun he ↦ (ht.2 he).trans_le hu⟩) fun _ u hu ↦
    ⟨ht.1.trans hu.1, fun he ↦ ht.1.trans_lt (hu.2 he)⟩

theorem forLoop {f : Nat → Sys α Unit} (hf : ∀ i, Honest (f i)) (i n : Nat) :
    Honest (Pagetree.forLoop f i n) := by
  induction n generalizing i with
  | zero => exact .pure ()
  | succ n ih => exact (hf i).bind fun _ ↦ ih (i + 1)

theorem infoOf (p : Nat) : Honest (Pagetree.infoOf p : Sys α PageInfo) := .read _

theorem pageOf (e : Ent) : Honest (Pagetree.pageOf e : Sys α Nat) := .read _

theorem setInfo (p : Nat) (f : PageInfo → PageInfo) : Honest (Pagetree.setInfo p f : Sys α Unit) :=
  .modify fun _ ↦ rfl

theorem setEntry (e : Ent) (p : Nat) : Honest (pagetreeSetEntry e p : Sys α Unit) :=
  .modify fun _ ↦ rfl

theorem pageAlloc (env : Env) : Honest (Pagetree.pageAlloc env : Sys α Nat) := by
  intro s
  unfold Wp Pagetree.pageAlloc
  rcases s.freeList with _ | ⟨p, rest⟩
  · exact ⟨Nat.le_succ _, fun _ ↦ Nat.lt_succ_self _⟩
  · dsimp only
    split_ifs
    · exact ⟨Nat.le_succ _, fun _ ↦ Nat.lt_succ_self _⟩
    · exact le_rfl
    · exact ⟨le_rfl, fun h ↦ by cases h⟩

theorem pageFree (p : Nat) : Honest (Pagetree.pageFree p : Sys α Unit) :=
  (infoOf p).bind fun _ ↦ (require (by decide)).bind fun _ ↦ (setInfo p _).bind fun _ ↦
    modify fun _ ↦ rfl

theorem freePage {decref : Nat → Sys α Unit} (h : ∀ p, Honest (decref p)) (p : Nat) :
    Honest (pagetreeFreePage decref p) := by
  refine (infoOf p).bind fun _ ↦ (require (by decide)).bind fun _ ↦ (when ?_).bind fun _ ↦
    (setInfo p _).bind fun _ ↦ pageFree p
  exact forLoop (fun j ↦ (pageOf _).bind fun c ↦ when ((h c).bind fun _ ↦ setEntry _ _)) _ _

theorem decref (depth p : Nat) : Honest (pagetreeDecref depth p : Sys α Unit) := by
  induction depth generalizing p with
  | zero => exact fail (by decide)
  | succ depth ih =>
    exact (setInfo p _).bind fun _ ↦ (infoOf p).bind fun _ ↦ when (freePage ih p)

theorem indirCopy {cow : Ent → Sys α Bool} (h : ∀ e, Honest (cow e)) (src dst : Nat) :
    Honest (pagetreeIndirCopy cow src dst) := by
  refine bind ?_ fun _ ↦ bind ?_ fun _ ↦ (infoOf src).bind fun _ ↦ (require (by decide)).bind fun _ ↦
    setInfo dst _
  · exact forLoop (fun j ↦ (pageOf _).bind fun c ↦ when (setInfo c _)) _ _
  · exact forLoop (fun j ↦ (pageOf _).bind fun c ↦ (infoOf c).bind fun _ ↦
      when ((h _).bind fun _ ↦ .pure ())) _ _

theorem cowCopy (env : Env) {cow : Ent → Sys α Bool} (h : ∀ e, Honest (cow e)) (e : Ent) (p : Nat) :
    Honest (Pagetree.cowCopy env cow e p) :=
  (pageAlloc env).bind fun copy ↦ (infoOf copy).bind fun _ ↦ (require (by decide)).bind fun _ ↦
    (modify (f := Mem.copyPage p copy) fun _ ↦ rfl).bind fun _ ↦ (setInfo copy _).bind fun _ ↦
    (infoOf p).bind fun _ ↦ (when ((indirCopy h p copy).onFail (decref _ copy))).bind fun _ ↦
    (infoOf p).bind fun _ ↦ (setInfo copy _).bind fun _ ↦ (decref _ p).bind fun _ ↦ setEntry e copy

theorem cow (env : Env) (depth : Nat) (e : Ent) : Honest (pagetreeCow env depth e : Sys α Bool) := by
  induction depth generalizing e with
  | zero => exact fail (by decide)
  | succ depth ih =>
    refine (pageOf e).bind fun p ↦ (infoOf p).bind fun i ↦ ?_
    split
    · exact .pure false
    · refine (require (by decide)).bind fun _ ↦ ?_
      split
      · exact .pure false
      · exact (when ((require (by decide)).bind fun _ ↦ setInfo p _)).bind fun _ ↦
          (cowCopy env ih e p).bind fun _ ↦ .pure true

variable [Zero α] (env : Env) (rw : PageSharingMode)

theorem newIndirect (indir : Ent) : Honest (Pagetree.newIndirect env indir : Sys α Nat) :=
  (pageAlloc env).bind fun p ↦ (modify (f := Mem.clear p) fun _ ↦ rfl).bind fun _ ↦
    (setInfo p _).bind fun _ ↦ (setEntry indir p).bind fun _ ↦ (setInfo p _).bind fun _ ↦ .pure p

theorem enterIndirect (indir : Ent) (parent : Nat) :
    Honest (Pagetree.enterIndirect env rw indir parent : Sys α Nat) := by
  refine (when ((cow env _ indir).bind fun _ ↦ .pure ())).bind fun _ ↦ (pageOf indir).bind fun p ↦ ?_
  dsimp only
  split
  · exact (newIndirect env indir).bind fun pip ↦ (when (setInfo pip _)).bind fun _ ↦ .pure pip
  · exact (Honest.pure p).bind fun pip ↦ (when (setInfo pip _)).bind fun _ ↦ .pure pip

theorem getEntpIndirect (level : Nat) (indir : Ent) (npage parent : Nat) :
    Honest (pagetreeGetEntpIndirect env rw level indir npage parent : Sys α _) := by
  induction level generalizing indir npage parent with
  | zero =>
    refine (enterIndirect env rw indir parent).bind fun pip ↦ ?_
    split <;> exact .pure _
  | succ level ih =>
    refine (enterIndirect env rw indir parent).bind fun pip ↦ ?_
    split
    · exact .pure _
    · exact (require (by decide)).bind fun _ ↦ ih _ _ _

theorem getEntp (pt npage : Nat) : Honest (pagetreeGetEntp env rw pt npage : Sys α _) := by
  have hfrom : ∀ k i npage, Honest (getEntpFrom env rw pt k i npage : Sys α _) := by
    intro k
    induction k with
    | zero => exact fun _ _ ↦ fail (by decide)
    | succ k ih =>
      intro i npage
      unfold getEntpFrom
      split
      · exact getEntpIndirect env rw _ _ _ _
      · exact ih _ _
  unfold pagetreeGetEntp
  split
  · exact .pure _
  · exact hfrom _ _ _

theorem getPage (pt npage : Nat) : Honest (pagetreeGetPage env pt npage rw : Sys α _) := by
  refine (getEntp env rw pt npage).bind fun r ↦ ?_
  obtain ⟨_ | e, parent⟩ := r
  · exact .pure _
  · refine (pageOf e).bind fun p ↦ ?_
    split
    · exact .pure _
    · exact (cow env _ e).bind fun _ ↦ (pageOf e).bind fun _ ↦ (setInfo _ _).bind fun _ ↦ .pure _

theorem putPage (pt npage page : Nat) : Honest (pagetreePutPage env pt npage page : Sys α Unit) := by
  refine (getEntp env _ pt npage).bind fun r ↦ ?_
  obtain ⟨_ | e, parent⟩ := r
  · exact fail (by decide)
  · exact (pageOf e).bind fun old ↦ (when (decref _ old)).bind fun _ ↦
      (when ((setInfo page _).bind fun _ ↦ setInfo page _)).bind fun _ ↦ setEntry e page

end Honest

end HiStar.Pagetree
