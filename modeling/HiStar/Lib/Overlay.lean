import Mathlib.Tactic
import Mathlib.Logic.Function.Basic

namespace HiStar.Lib

open Function

variable {ι β : Type} [DecidableEq ι]

/-- The contents `f` after the writes `ws`, in this order. -/
def overlay (ws : List (ι × β)) (f : ι → β) : ι → β := ws.foldl (fun g w ↦ update g w.1 w.2) f

@[simp] theorem overlay_nil (f : ι → β) : overlay [] f = f := rfl

@[simp] theorem overlay_cons (w : ι × β) (ws : List (ι × β)) (f : ι → β) :
    overlay (w :: ws) f = overlay ws (update f w.1 w.2) := rfl

theorem overlay_append (ws vs : List (ι × β)) (f : ι → β) :
    overlay (ws ++ vs) f = overlay vs (overlay ws f) := List.foldl_append

theorem overlay_of_notMem {ws : List (ι × β)} {f : ι → β} {a : ι} (h : ∀ w ∈ ws, w.1 ≠ a) :
    overlay ws f a = f a := by
  induction ws generalizing f with
  | nil => rfl
  | cons w ws ih =>
    simp only [List.mem_cons, forall_eq_or_imp] at h
    simp [ih h.2, Ne.symm h.1]

theorem overlay_congr {ws : List (ι × β)} {f g : ι → β} {a : ι}
    (h : (∃ w ∈ ws, w.1 = a) ∨ f a = g a) : overlay ws f a = overlay ws g a := by
  induction ws generalizing f g with
  | nil => simpa using h
  | cons w ws ih =>
    simp only [overlay_cons]
    apply ih
    by_cases hw : w.1 = a
    · subst hw
      simp
    · simpa [hw, update_of_ne (Ne.symm hw)] using h

theorem overlay_overlay {ws vs : List (ι × β)} (h : ∀ w ∈ ws, ∃ v ∈ vs, v.1 = w.1) (f : ι → β) :
    overlay vs (overlay ws f) = overlay vs f := by
  funext a
  apply overlay_congr
  by_cases ha : ∃ v ∈ vs, v.1 = a
  · exact .inl ha
  · refine .inr (overlay_of_notMem fun w hw hwa ↦ ha ?_)
    obtain ⟨v, hv, hvw⟩ := h w hw
    exact ⟨v, hv, hvw.trans hwa⟩

def lastWrite (ws : List (ι × β)) (a : ι) : Option β :=
  (ws.reverse.find? fun w ↦ w.1 = a).map Prod.snd

theorem overlay_eq_lastWrite (ws : List (ι × β)) (f : ι → β) (a : ι) :
    overlay ws f a = (lastWrite ws a).getD (f a) := by
  induction ws using List.reverseRecOn with
  | nil => rfl
  | append_singleton ws w ih =>
    by_cases hw : w.1 = a
    · subst hw
      simp [overlay_append, lastWrite]
    · simpa [overlay_append, lastWrite, hw, Ne.symm hw] using ih

end HiStar.Lib
