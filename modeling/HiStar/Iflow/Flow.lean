import HiStar.Iflow.Commit

namespace HiStar.Iflow

open Lib Function LevelComparator
open Handle (ident)

/-- What a thread does to observe and change objects, short of entering a
gate. -/
inductive Access
  | setLabel (ul : Option ULabel)
  | get (container object : Nat) (type : Option KobjType) (iflow : InfoFlowType)
  | check (ko : Kobject) (iflow : InfoFlowType)
  | alloc (type : KobjType) (hty : type ≠ .thread ∧ type ≠ .gate ∧ type ≠ .label) (l c : Nat)

def Access.run : Access → Sys Nat
  | setLabel ul => syscallExec (.selfSetLabel ul)
  | get container object type iflow => cobjGet container object type iflow
  | check ko iflow => do
    kobjectIflowCheck ko iflow
    return 0
  | alloc type _ l c => kobjectAlloc type l c

def accessBy (t : Nat) (a : Access) : Sys Nat := asThread t a.run

def trackingOf (k : Kernel) (t h : Nat) : Nat :=
  match k.view t with
  | some p => p.tracking h
  | none => lbLevelStar

/-- The thread `t` goes from one state to another with `P` on the way. An access may fail; a
panic ends the run. -/
inductive Accesses (t : Nat) (P : Kernel → Prop) : Kernel → Kernel → Prop
  | refl {k : Kernel} (hs : P k) : Accesses t P k k
  | step {k k' : Kernel} (a : Access) (hs : P k) (hrun : (accessBy t a k).1 ≠ .error .panic)
      (hrest : Accesses t P (accessBy t a k).2 k') : Accesses t P k k'

variable {t h tl tc : Nat} {P : Kernel → Prop} {k k' : Kernel}

theorem Accesses.head (h : Accesses t P k k') : P k := by
  cases h with
  | refl hs => exact hs
  | step _ hs _ _ => exact hs

theorem trackingOf_eq (hp : k.principal t = some (tl, tc)) : trackingOf k t h = k.lev tl h := by
  simp only [trackingOf, Kernel.view, hp, Option.map_some]

theorem access_evolve_or_setLabel (a : Access) : Rel Evolve a.run ∨ ∃ ul, a = .setLabel ul := by
  cases a with
  | setLabel ul => exact .inr ⟨ul, rfl⟩
  | get => exact .inl (inferInstanceAs (Rel Evolve (cobjGet _ _ _ _)))
  | check => exact .inl (.bind_of inferInstance fun _ ↦ inferInstance)
  | alloc _ hty => exact .inl (kobjectAlloc_evolve hty _ _)

theorem syscallExec_setLabel_failsQuietly (ul : Option ULabel) :
    FailsQuietly (syscallExec (.selfSetLabel ul)) :=
  .bind fun _ ↦ .bind fun _ ↦ .bind fun _ ↦ .bind fun _ ↦ sysSelfSetLabel_failsQuietly _ _ ul

theorem syscallExec_setLabel_ok {r : Nat} {ul : Option ULabel} (hk : k.Ok)
    (hp : k.principal k.curThread = some (tl, tc))
    (h : syscallExec (.selfSetLabel ul) k = (.ok r, k')) :
    ∃ l, Installs k k' k.curThread l tc ∧ k'.LabelBelow .starlo tl l := by
  obtain ⟨_, _, hget, h⟩ := bind_ok h
  cases hget
  obtain ⟨ko, hko, h⟩ := deref_bind_ok h
  obtain ⟨hproper, rfl, rfl⟩ := principal_obj hk hp hko
  have h := kobjectGetLabel_bind_ok hproper.1 h
  have h := kobjectGetLabel_bind_ok hproper.2 h
  obtain ⟨l, hi, hb, -⟩ := sysSelfSetLabel_ok hk hp h
  exact ⟨l, hi, hb⟩

theorem accessBy_raises {a : Access} (hk : k.Ok)
    (hp : k.principal t = some (tl, tc)) (hrun : (accessBy t a k).1 ≠ .error .panic) :
    (accessBy t a k).2.Ok ∧ (∃ tl' tc', (accessBy t a k).2.principal t = some (tl', tc')) ∧
      starlo.cmp (trackingOf k t h) (trackingOf (accessBy t a k).2 t h) = true := by
  have hk0 := ok_curThread hk t
  have hquiet : ∀ k', Quiet { k with curThread := t } k' → k'.Ok ∧
      (∃ tl' tc', k'.principal t = some (tl', tc')) ∧
      starlo.cmp (trackingOf k t h) (trackingOf k' t h) = true := by
    intro k' he
    have hp' : k'.principal t = some (tl, tc) := (he.principals hk0 t).trans hp
    refine ⟨he.ok hk0, ⟨tl, tc, hp'⟩, ?_⟩
    rw [trackingOf_eq hp, trackingOf_eq hp', (lev_of_principal hk (he.labels hk0) hp).1]
    exact cmp_refl _ _
  rcases access_evolve_or_setLabel a with he | ⟨ul, rfl⟩
  · exact hquiet _ (he.rel _).toQuiet
  · unfold accessBy asThread at hrun ⊢
    rcases hc : (Access.setLabel ul).run { k with curThread := t } with ⟨e | r, k'⟩
    · rw [hc] at hrun
      refine hquiet k' (syscallExec_setLabel_failsQuietly ul _ e k' hc ?_).toQuiet
      rintro rfl
      exact hrun rfl
    · obtain ⟨l, hi, hb⟩ := syscallExec_setLabel_ok hk0 hp hc
      have hp' : k'.principal t = some (l, tc) := by rw [hi.principals, if_pos rfl]
      refine ⟨hi.ok, ⟨l, tc, hp'⟩, ?_⟩
      rw [trackingOf_eq hp, trackingOf_eq hp', ← (lev_of_principal hk hi.labels hp).1]
      exact LabelBelow.leq hb h

theorem Accesses.keeps (hrun : Accesses t P k k') (hk : k.Ok) (hp : k.principal t = some (tl, tc)) :
    k'.Ok ∧ ∃ tl' tc', k'.principal t = some (tl', tc') := by
  induction hrun generalizing tl tc with
  | refl => exact ⟨hk, tl, tc, hp⟩
  | step a _ hnp _ ih =>
    obtain ⟨hk', ⟨tl', tc', hp'⟩, -⟩ := accessBy_raises (h := 0) hk hp hnp
    exact ih hk' hp'

instance (top t : Nat) (a : Access) : Cuts top (accessBy t a) := by
  unfold accessBy
  cases a <;> unfold Access.run <;> infer_instance

theorem Accesses.cut {top : Nat} (hrun : Accesses t P k k') (hP : ∀ k, P k → P (k.cut top))
    (hw : k'.Within top) : k.Within top ∧ Accesses t P (k.cut top) (k'.cut top) := by
  induction hrun with
  | refl hs => exact ⟨hw, .refl (hP _ hs)⟩
  | @step k k' a hs hnp _ ih =>
    obtain ⟨hmid, hrest⟩ := ih hw
    have hcut : Cuts top (accessBy t a) := inferInstance
    have hstep := hcut.comm k hmid
    exact ⟨hcut.back k hmid, .step a (hP _ hs) (by rw [hstep]; exact hnp)
      (by rw [hstep]; exact hrest)⟩

section Runs

variable (t : Nat) (P : Kernel → Prop) [DecidablePred P]

variable {t P}

end Runs

end HiStar.Iflow
