import HiStar.Iflow.Entry
import HiStar.Iflow.Boot

namespace HiStar.Iflow

open Lib Function LevelComparator
open Handle (ident)

def callBy (t : Nat) (c : Call) : Sys Nat := asThread t (syscallExec c)

def isThread (k : Kernel) (t : Nat) : Prop :=
  t ≠ 0 ∧ ∃ ko, k.obj t = some ko ∧ ko.koType = .thread

/-- Successful calls by any threads, one after the other, in which no new
category is `h`. -/
inductive Calls (h : Nat) : Kernel → List (Nat × Call) → Kernel → Prop
  | nil (k : Kernel) : Calls h k [] k
  | cons {k k' : Kernel} {t r : Nat} {c : Call} {rest : List (Nat × Call)}
      (ht : isThread k t) (hok : (callBy t c k).1 = .ok r) (hh : c = .handleCreate → r ≠ h)
      (hrest : Calls h (callBy t c k).2 rest k') : Calls h k ((t, c) :: rest) k'

variable {k k' : Kernel} {h t : Nat} {cs : List (Nat × Call)}

theorem ok_curThread (hk : k.Ok) (t : Nat) : ({ k with curThread := t } : Kernel).Ok :=
  { hk with }

theorem callBy_conforms {r : Nat} {c : Call} (hk : k.Ok) (ht : isThread k t)
    (hok : (callBy t c k).1 = .ok r) (hh : c = .handleCreate → r ≠ h) :
    ∃ cur, k.view t = some cur ∧ Conforms h k (callBy t c k).2 cur := by
  obtain ⟨ht0, ko, hko, hty⟩ := ht
  set k0 : Kernel := { k with curThread := t } with hk0
  have hk0' : k0.Ok := ok_curThread hk t
  have hp : k0.principal t = some (ko.koLabel .tracking, ko.koLabel .clearance) := by
    simp [hk0, Kernel.principal, hko, hty]
  obtain ⟨hproper, -, -⟩ := principal_obj hk0' hp hko
  refine ⟨⟨k0.lev (ko.koLabel .tracking), k0.lev (ko.koLabel .clearance)⟩, ?_, ?_⟩
  · change k0.view t = _
    simp only [Kernel.view, hp, Option.map_some]
  · change Conforms h k0 (callBy t c k).2 _
    have hrun : callBy t c k = (.ok r, (callBy t c k).2) := Prod.ext hok rfl
    generalize (callBy t c k).2 = k' at hrun
    unfold callBy asThread syscallExec at hrun
    obtain ⟨_, _, hget, hrun⟩ := bind_ok hrun
    cases hget
    obtain ⟨ko', hko', hrun⟩ := deref_bind_ok hrun
    obtain rfl := Option.some.inj (hko.symm.trans hko')
    have hrun := kobjectGetLabel_bind_ok hproper.1 hrun
    have hrun := kobjectGetLabel_bind_ok hproper.2 hrun
    cases c with
    | selfSetLabel ul => exact sysSelfSetLabel_conforms hk0' hp hrun
    | selfSetClearance ul => exact sysSelfSetClearance_conforms hk0' hp hrun
    | handleCreate => exact sysHandleCreate_conforms hk0' hp (hh rfl) hrun
    | gateCreate => exact sysGateCreate_conforms hk0' ht0 hp hrun
    | threadCreate => exact sysThreadCreate_conforms hk0' ht0 hp hrun
    | gateEnter => exact sysGateEnter_conforms hk0' hp hrun
    | threadStart => exact sysThreadStart_conforms hk0' hp hrun

def Cleared (k : Kernel) : Prop :=
  ∀ i p, k.view i = some p → Leq .starlo p.tracking p.clearance

theorem Conforms.cleared {cur : Principal} (hc : Conforms h k k' cur)
    (hcur : k.view t = some cur) (hcl : Cleared k) : Cleared k' := by
  obtain ⟨-, id, p, hg, hv⟩ := hc
  intro i q hq
  rw [hv] at hq
  split at hq
  · cases hq
    exact hg.tracking_leq_clearance (hcl t cur hcur)
  · exact hcl i q hq

theorem Conforms.bounded {lo hi : Nat} {cur : Principal}
    (hc : Conforms h k k' cur) (hcur : k.view t = some cur) (hcl : Cleared k)
    (hb : ∀ i p, k.view i = some p → Bounded h lo hi p) :
    ∀ i p, k'.view i = some p → Bounded h lo hi p := by
  obtain ⟨-, id, p, hg, hv⟩ := hc
  intro i q hq
  rw [hv] at hq
  split at hq
  · cases hq
    exact hg.bounded (fun j q hq ↦ ⟨hb j q hq, hcl j q hq⟩) (hb t cur hcur) (hcl t cur hcur)
  · exact hb i q hq

theorem Calls.bounded {lo hi : Nat} (hrun : Calls h k cs k') (hk : k.Ok) (hcl : Cleared k)
    (hb : ∀ i p, k.view i = some p → Bounded h lo hi p) :
    k'.Ok ∧ Cleared k' ∧ ∀ i p, k'.view i = some p → Bounded h lo hi p := by
  induction hrun with
  | nil => exact ⟨hk, hcl, hb⟩
  | cons ht hok hh _ ih =>
    obtain ⟨cur, hcur, hc⟩ := callBy_conforms hk ht hok hh
    exact ih hc.1 (hc.cleared hcur hcl) (hc.bounded hcur hcl hb)

instance (top t : Nat) (c : Call) : Cuts top (callBy t c) := by
  unfold callBy
  infer_instance

theorem Calls.cut {top : Nat} (hrun : Calls h k cs k')
    (hw : k'.Within top) : k.Within top ∧ Calls h (k.cut top) cs (k'.cut top) := by
  induction hrun with
  | nil k => exact ⟨hw, .nil _⟩
  | @cons k k' t r c rest ht hok hh _ ih =>
    obtain ⟨hmid, hrest⟩ := ih hw
    have hcut : Cuts top (callBy t c) := inferInstance
    have hstep := hcut.comm k hmid
    exact ⟨hcut.back k hmid, .cons (k := k.cut top) ht (by rw [hstep]; exact hok) hh
      (by rw [hstep]; exact hrest)⟩

end HiStar.Iflow
