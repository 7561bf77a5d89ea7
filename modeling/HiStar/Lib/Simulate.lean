import HiStar.Lib.Exec

namespace HiStar.Lib

variable {σ τ ε α α' β β' : Type} {R : σ → τ → Prop}

/-- Where the abstract computation `g` returns, so does `f` from a related state, with
a related result and again in related states. -/
def Simulates (R : σ → τ → Prop) (Q : α → β → Prop) (f : Exec σ ε α) (g : Exec τ ε β) : Prop :=
  ∀ s t, R s t → ∀ b t', g t = (.ok b, t') → ∃ a s', f s = (.ok a, s') ∧ Q a b ∧ R s' t'

namespace Simulates

variable {Q : α → β → Prop} {Q' : α' → β' → Prop} {f : Exec σ ε α} {g : Exec τ ε β}

theorem pure {a : α} {b : β} (h : Q a b) :
    Simulates R Q (Pure.pure a : Exec σ ε α) (Pure.pure b : Exec τ ε β) := by
  intro s t hR b' t' hg
  cases hg
  exact ⟨a, s, rfl, h, hR⟩

theorem bind {k : α → Exec σ ε α'} {l : β → Exec τ ε β'} (hf : Simulates R Q f g)
    (hk : ∀ a b, Q a b → Simulates R Q' (k a) (l b)) : Simulates R Q' (f >>= k) (g >>= l) := by
  intro s t hR b' t' hg
  obtain ⟨b, t₁, hg₁, hl⟩ := bind_ok hg
  obtain ⟨a, s₁, hf₁, hQ, hR₁⟩ := hf s t hR b t₁ hg₁
  obtain ⟨a', s', hk', hQ', hR'⟩ := hk a b hQ s₁ t₁ hR₁ b' t' hl
  exact ⟨a', s', (bind_eq_of_ok hf₁).trans hk', hQ', hR'⟩

theorem get : Simulates R R (Exec.get : Exec σ ε σ) (Exec.get : Exec τ ε τ) := by
  intro s t hR b t' hg
  cases hg
  exact ⟨s, s, rfl, hR, hR⟩

theorem modify {m : σ → σ} {n : τ → τ} (h : ∀ s t, R s t → R (m s) (n t)) :
    Simulates R (fun _ _ ↦ True) (Exec.modify m : Exec σ ε Unit) (Exec.modify n : Exec τ ε Unit) := by
  intro s t hR b t' hg
  cases hg
  exact ⟨(), m s, rfl, trivial, h s t hR⟩

theorem require {p q : Bool} {e e' : ε} (h : q = true → p = true) :
    Simulates R (fun _ _ ↦ True) (Exec.require p e : Exec σ ε Unit)
      (Exec.require q e' : Exec τ ε Unit) := by
  intro s t hR b t' hg
  obtain ⟨hq, rfl⟩ := require_ok hg
  exact ⟨(), s, by rw [h hq]; rfl, trivial, hR⟩

theorem onFail {c : Exec σ ε Unit} {d : Exec τ ε Unit} (hf : Simulates R Q f g) :
    Simulates R Q (f.onFail c) (g.onFail d) := by
  intro s t hR b t' hg
  obtain ⟨a, s', hf', hQ, hR'⟩ := hf s t hR b t' (onFail_ok hg)
  exact ⟨a, s', by simp [Exec.onFail, hf'], hQ, hR'⟩

end Simulates

end HiStar.Lib
