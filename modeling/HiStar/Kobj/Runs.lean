import HiStar.Kobj.CutCipher

namespace HiStar.Kobj

open Lib Function
open Handle (ident)

variable {ι : Type} {run : Env → ι → Sys Unit} {I : Image → Prop} {P : Env → ι → Store → Prop}
  {k k' : Store}

/-- The states between the operations of a run that boots with some key and an image that
meets `I`, and in which `P` holds before every operation. Any thread may be the one that
runs; a machine that has stopped goes nowhere. -/
inductive Runs (run : Env → ι → Sys Unit) (I : Image → Prop) (P : Env → ι → Store → Prop) :
    Store → Prop
  | boot {env : Env} {image : Image} {bfc : Handle.BfCtx} {k : Store} (hfit : I image)
      (h : userBootstrap env image (emptyStore (Handle.bf61Encipher bfc)) = (.ok (), k)) :
      Runs run I P k
  | step {k k' : Store} {t : Nat} {env : Env} {op : ι} {res : Except Errno Unit}
      (h : Runs run I P k) (ht : t ∈ k.ids) (hth : (k.obj t).koType = .thread)
      (hp : P env op { k with curThread := t })
      (hrun : run env op { k with curThread := t } = (res, k'))
      (hres : ∀ e, res = .error e → ¬ Stopped e) : Runs run I P k'

/-- The rule for runs that use few counters: an invariant of the runs with ciphers that give
no id twice holds of the cut of every state. -/
theorem Runs.cut_invariant {J : Store → Prop} {top : Nat} (htop : top ≤ 2 ^ 59)
    (hcut : ∀ env op, Cuts top (run env op))
    (hP : ∀ env op k, P env op k → P env op (k.cut top))
    (hboot : ∀ {env image encipher k}, Unrepeated encipher → I image →
      userBootstrap env image (emptyStore encipher) = (.ok (), k) → J k)
    (hstep : ∀ {k k' : Store} {t env op res}, J k → t ∈ k.ids → (k.obj t).koType = .thread →
      P env op { k with curThread := t } → run env op { k with curThread := t } = (res, k') →
      (∀ e, res = .error e → ¬ Stopped e) → J k')
    (h : Runs run I P k) (hcount : k.handleCounter ≤ top) : J (k.cut top) := by
  induction h with
  | @boot env image bfc k hfit hb =>
    have hin : ((userBootstrap env image (emptyStore (Handle.bf61Encipher bfc))).2).Within top := by
      rw [hb]
      exact hcount
    have hc := Transports.comm (φ := Store.cut top) _ hin
    rw [hb] at hc
    exact hboot (unrepeated_cutAt bfc htop) hfit hc
  | @step k k' t env op res _ ht hth hp hrun hres ih =>
    have hin : ((run env op { k with curThread := t }).2).Within top := by
      rw [hrun]
      exact hcount
    have hc := (hcut env op).comm _ hin
    rw [hrun] at hc
    exact hstep (ih ((hcut env op).back { k with curThread := t } hin)) ht hth (hP env op _ hp) hc hres

theorem Wp.of_eq {α : Type} {f : Sys α} {Q : α → Store → Prop} {P : Store → Prop}
    {res : Except Errno α} (h : Wp f k Q (Fails P)) (hQ : ∀ a k', Q a k' → P k')
    (hf : f k = (res, k')) (hres : ∀ e, res = .error e → ¬ Stopped e) : P k' := by
  unfold Wp at h
  rw [hf] at h
  cases res with
  | ok a => exact hQ a k' h
  | error e => exact h.resolve_left (hres e rfl)

section Example

def quietEnv : Env where
  kobjectIflowCheck _ _ := .ok ()
  pstateSwapin _ := .restart
  pageAlloc _ := .ok ()
  pagetreePutPage _ _ := .ok ()
  pagetreeCopy _ := .ok ()
  kobjectGetPage _ := true
  checkUserAccess := .ok ()
  ulabel := none
  koPinPg _ := false
  koPin _ := false
  koOnDisk _ := false
  gcVisits := []
  chainLimit := 8
  borrowLimit := 8

/-- One program, with a file of three pages and two segments to load. -/
def smallImage : Image := [⟨"init", 3 * pgsize, .ok [pgsize, pgsize]⟩]

/-- After this boot 5 is the counter of the root container, 6 that of the container of the
programs, 11 that of the container of the first thread and 12 that of the thread. -/
@[irreducible] def bootedStore : Store :=
  (userBootstrap quietEnv smallImage (emptyStore ident)).2

theorem run_eq_of_ok {f : Sys Unit} (h : (f k).1 = .ok ()) : f k = (.ok (), (f k).2) := by
  rw [← h]

theorem boot_run : userBootstrap quietEnv smallImage (emptyStore ident) = (.ok (), bootedStore) := by
  have h : (userBootstrap quietEnv smallImage (emptyStore ident)).1 = .ok () := by decide +kernel
  unfold bootedStore
  exact run_eq_of_ok h

theorem bootedStore_runs (hfit : I smallImage) : Runs run I P bootedStore := .boot hfit boot_run

/-- One operation of the first thread after the boot. -/
theorem bootedStore_step (run : Env → ι → Sys Unit) (env : Env) (op : ι) (hfit : I smallImage)
    (hp : P env op { bootedStore with curThread := ident 12 })
    (hok : (run env op { bootedStore with curThread := ident 12 }).1 = .ok ()) :
    Runs run I P (run env op { bootedStore with curThread := ident 12 }).2 :=
  .step (bootedStore_runs hfit) (by decide +kernel) (by decide +kernel) hp (run_eq_of_ok hok)
    fun e he ↦ by cases he

end Example

end HiStar.Kobj
