import HiStar.Iflow.Conservation

namespace HiStar.Iflow

open Lib Function LevelComparator

/-- A computation that leaves the labels of threads and gates alone whenever it
returns an error. -/
def FailsQuietly {α : Type} (c : Sys α) : Prop :=
  ∀ k e k', c k = (.error e, k') → e ≠ .panic → Evolve k k'

namespace FailsQuietly

variable {α β : Type} {c : Sys α}

theorem bind {f : α → Sys β} [hc : Rel Evolve c] (hf : ∀ a, FailsQuietly (f a)) :
    FailsQuietly (c >>= f) := by
  intro k e k' h hne
  have he := hc.rel k
  rw [bind_apply] at h
  rcases hcs : c k with ⟨e' | a, k1⟩
  · rw [hcs] at he h
    cases h
    exact he
  · rw [hcs] at he h
    exact he.trans (hf a k1 e k' h hne)

theorem bind_pure (hc : FailsQuietly c) (b : β) :
    FailsQuietly (c >>= fun _ ↦ (pure b : Sys β)) := by
  intro k e k' h hne
  rw [bind_apply] at h
  rcases hcs : c k with ⟨e' | a, k1⟩
  · rw [hcs] at h
    cases h
    exact hc k e k' hcs hne
  · rw [hcs] at h
    cases h

end FailsQuietly

def OnlyPanics {α : Type} (c : Sys α) : Prop := ∀ k e k', c k = (.error e, k') → e = .panic

namespace OnlyPanics

variable {α β : Type} {c : Sys α}

theorem bind {f : α → Sys β} (hc : OnlyPanics c) (hf : ∀ a, OnlyPanics (f a)) :
    OnlyPanics (c >>= f) := by
  intro k e k' h
  rw [bind_apply] at h
  rcases hcs : c k with ⟨e' | a, k1⟩
  · rw [hcs] at h
    cases h
    exact hc k e k' hcs
  · rw [hcs] at h
    exact hf a k1 e k' h

theorem of_ok (h : ∀ k, ∃ a k', c k = (.ok a, k')) : OnlyPanics c := by
  intro k e k' hc
  obtain ⟨a, k1, hk⟩ := h k
  rw [hc] at hk
  cases hk

theorem require (b : Bool) : OnlyPanics (Exec.require b .panic : Sys Unit) := by
  intro k e k' h
  cases b
  · cases h; rfl
  · cases h

theorem deref (id : Nat) : OnlyPanics (deref id) := by
  intro k e k' h
  rw [Iflow.deref, read_apply] at h
  cases ho : k.obj id with
  | some o => simp [ho] at h
  | none =>
    simp only [ho] at h
    cases h
    rfl

theorem decref (id : Nat) : OnlyPanics (kobjectDecref id) :=
  (deref id).bind fun _ ↦ (require _).bind fun _ ↦ of_ok fun _ ↦ ⟨_, _, rfl⟩

theorem setLabelPrepared (kp : Nat) (idx : KoLabel) (old new : Nat) :
    OnlyPanics (kobjectSetLabelPrepared kp idx old new) := by
  refine (deref kp).bind fun _ ↦ (require _).bind fun _ ↦ bind ?_ fun _ ↦ bind ?_ fun _ ↦
    of_ok fun _ ↦ ⟨_, _, rfl⟩
  · unfold dropLabel
    split
    · exact decref old
    · exact of_ok fun _ ↦ ⟨_, _, rfl⟩
  · unfold addLabelRef
    split <;> exact of_ok fun _ ↦ ⟨_, _, rfl⟩

theorem checkSchedParents (t : Nat) : OnlyPanics (threadCheckSchedParents t) := by
  refine bind (of_ok fun _ ↦ ⟨_, _, rfl⟩) fun k ↦ ?_
  split
  · exact of_ok fun _ ↦ ⟨_, _, rfl⟩
  · refine (deref t).bind fun th ↦ bind (of_ok fun _ ↦ ⟨_, _, rfl⟩) fun r0 ↦ ?_
    split
    · exact of_ok fun _ ↦ ⟨_, _, rfl⟩
    · refine bind (of_ok fun _ ↦ ⟨_, _, rfl⟩) fun r1 ↦ ?_
      split <;> exact of_ok fun _ ↦ ⟨_, _, rfl⟩

end OnlyPanics

theorem threadChangeLabelCommit_onlyPanics (t new koSg curSgLabel curThLabel sgNew : Nat) :
    OnlyPanics (threadChangeLabelCommit t new koSg curSgLabel curThLabel sgNew) :=
  .bind (.of_ok fun _ ↦ ⟨_, _, rfl⟩) fun _ ↦ .bind (.decref koSg) fun _ ↦
    .bind (.of_ok fun _ ↦ ⟨_, _, rfl⟩) fun _ ↦ .bind (.setLabelPrepared _ _ _ _) fun _ ↦
    .bind (.setLabelPrepared _ _ _ _) fun _ ↦ .checkSchedParents t

theorem threadChangeLabel_failsQuietly (t new : Nat) : FailsQuietly (threadChangeLabel t new) :=
  .bind fun _ k e k' h hne ↦
    absurd (threadChangeLabelCommit_onlyPanics _ _ _ _ _ _ k e k' h) hne

theorem sysSelfSetLabel_failsQuietly (tl tc : Nat) (ul : Option ULabel) :
    FailsQuietly (sysSelfSetLabel tl tc ul) :=
  .bind fun _ ↦ .bind fun _ ↦ .bind fun _ ↦ .bind fun _ ↦
    .bind_pure (threadChangeLabel_failsQuietly _ _) 0

end HiStar.Iflow
