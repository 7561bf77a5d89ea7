import HiStar.Vm.Calls

namespace HiStar.Vm

open Function

/-- Every entry of `a'` was there in `a`, at least as permissive. -/
def Weaker (a a' : AddressSpace) : Prop :=
  ∀ vpn e', a'.pte vpn = some e' → ∃ e, a.pte vpn = some e ∧ e.obj = e'.obj ∧ (e'.w → e.w)

namespace Weaker

theorem refl (a : AddressSpace) : Weaker a a := fun _ e h ↦ ⟨e, h, rfl, id⟩

variable {a a' : AddressSpace}

theorem trans {b c : AddressSpace} (h : Weaker a b) (h' : Weaker b c) : Weaker a c := by
  intro vpn e he
  obtain ⟨e₁, he₁, hobj₁, hw₁⟩ := h' vpn e he
  obtain ⟨e₀, he₀, hobj₀, hw₀⟩ := h vpn e₁ he₁
  exact ⟨e₀, he₀, hobj₀.trans hobj₁, hw₀ ∘ hw₁⟩

theorem of_asPgmap_eq (h : a'.asPgmap = a.asPgmap) : Weaker a a' := by
  intro vpn e he
  exact ⟨e, by rwa [AddressSpace.pte, h] at he, rfl, id⟩

theorem of_none (h : a'.asPgmap = none) : Weaker a a' := by
  intro vpn e he
  simp [AddressSpace.pte, h] at he

theorem mapPgmap {f : Pagemap → Pagemap}
    (hf : ∀ (pm : Pagemap) vpn e', f pm vpn = some e' →
      ∃ e, pm vpn = some e ∧ e.obj = e'.obj ∧ (e'.w → e.w)) : Weaker a (a.mapPgmap f) := by
  intro vpn e' he
  cases hpm : a.asPgmap with
  | none => simp [AddressSpace.pte, AddressSpace.mapPgmap, hpm] at he
  | some pm =>
    simp only [AddressSpace.pte, AddressSpace.mapPgmap, hpm, Option.map_some, Option.bind_some]
      at he ⊢
    exact hf pm vpn e' he

theorem invalidate (a : AddressSpace) (first last : UInt64) :
    Weaker a (a.mapPgmap (·.invalidate first last)) := by
  refine mapPgmap fun pm vpn e' he ↦ ?_
  simp only [Pagemap.invalidate] at he
  split at he
  · cases he
  · exact ⟨e', he, rfl, id⟩

theorem mapRo (a : AddressSpace) (first last : UInt64) :
    Weaker a (a.mapPgmap (·.mapRo first last)) := by
  refine mapPgmap fun pm vpn e' he ↦ ?_
  simp only [Pagemap.mapRo] at he
  split at he
  · obtain ⟨e, hpm, rfl⟩ := Option.map_eq_some_iff.mp he
    exact ⟨e, hpm, rfl, by simp⟩
  · exact ⟨e', he, rfl, id⟩

theorem setSm (a : AddressSpace) (i : Nat) (f : SegmentMapping → SegmentMapping) :
    Weaker a (a.setSm i f) := of_asPgmap_eq rfl

theorem foldl {ι : Type} {f : AddressSpace → ι → AddressSpace} (hf : ∀ a i, Weaker a (f a i))
    (l : List ι) (a : AddressSpace) : Weaker a (l.foldl f a) := by
  induction l generalizing a with
  | nil => exact refl a
  | cons i l ih => exact (hf a i).trans (ih _)

theorem asInvalidateSm (a : AddressSpace) (i : Nat) : Weaker a (a.asInvalidateSm i) := by
  unfold AddressSpace.asInvalidateSm
  split
  · exact (invalidate a _ _).trans (setSm _ i _)
  · exact refl a

theorem asMapRoSm (a : AddressSpace) (i : Nat) : Weaker a (a.asMapRoSm i) := by
  unfold AddressSpace.asMapRoSm
  split
  · exact (mapRo a _ _).trans (setSm _ i _)
  · exact refl a

theorem segmentInvalidate (a : AddressSpace) (ko ct : Nat) :
    Weaker a (a.segmentInvalidate ko ct) := by
  refine foldl (fun a i ↦ ?_) _ a
  split
  · exact asInvalidateSm a i
  · exact refl a

theorem segmentMapRo (a : AddressSpace) (ko : Nat) : Weaker a (a.segmentMapRo ko) := by
  refine foldl (fun a i ↦ ?_) _ a
  split
  · exact asMapRoSm a i
  · exact refl a

theorem asSetUslot {u : USegmentMapping} (h : a.asSetUslot u = .ok a') : Weaker a a' := by
  unfold AddressSpace.asSetUslot at h
  simp only at h
  split at h
  · cases h
  · obtain rfl := Except.ok.inj h
    split
    · exact of_asPgmap_eq rfl
    · exact (asInvalidateSm a _).trans (of_asPgmap_eq rfl)

theorem asSwitchInvalidate {D : Type} {leq : LabelOrder} {ct : Nat → Option Errno}
    (s : Machine D) (a : AddressSpace) (tls lbl : Bool) :
    Weaker a (s.asSwitchInvalidate leq ct a tls lbl) := by
  unfold Machine.asSwitchInvalidate
  split
  · exact refl a
  · refine foldl (fun a i ↦ ?_) _ a
    split
    · split
      · exact asInvalidateSm a i
      · exact refl a
    · exact refl a

end Weaker

end HiStar.Vm
