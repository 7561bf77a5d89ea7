import HiStar.Lib.Exec

namespace HiStar.Lib

variable {σ ε α β : Type} {φ : σ → σ} {G : σ → Prop}

/-- Where it ends in a state with `G`, the computation does from the changed state `φ s`
what it does from `s`. `G` of a later state is `G` of an earlier one. -/
class Transports (φ : σ → σ) (G : σ → Prop) (c : Exec σ ε α) : Prop where
  back : ∀ s, G (c s).2 → G s
  comm : ∀ s, G (c s).2 → c (φ s) = ((c s).1, φ (c s).2)

namespace Transports

theorem of_unchanged {c : Exec σ ε α} (h : ∀ s, (c s).2 = s) (hφ : ∀ s, (c (φ s)).1 = (c s).1) :
    Transports φ G c where
  back s hG := h s ▸ hG
  comm s _ := by
    rw [h s, ← hφ s]
    exact Prod.ext rfl (h _)

instance pure (a : α) : Transports φ G (Pure.pure a : Exec σ ε α) :=
  of_unchanged (fun _ ↦ rfl) fun _ ↦ rfl

instance fail (e : ε) : Transports φ G (Exec.fail e : Exec σ ε α) :=
  of_unchanged (fun _ ↦ rfl) fun _ ↦ rfl

instance lift (r : Except ε α) : Transports φ G (Exec.lift r : Exec σ ε α) :=
  of_unchanged (fun _ ↦ rfl) fun _ ↦ rfl

theorem read {f : σ → Except ε α} (h : ∀ s, f (φ s) = f s) : Transports φ G (Exec.read f) :=
  of_unchanged (fun _ ↦ rfl) h

theorem modify {f : σ → σ} (hG : ∀ s, G (f s) → G s) (hφ : ∀ s, f (φ s) = φ (f s)) :
    Transports φ G (Exec.modify f : Exec σ ε Unit) where
  back := hG
  comm s _ := by rw [modify_apply, modify_apply, hφ]

instance bind (c : Exec σ ε α) (f : α → Exec σ ε β) [hc : Transports φ G c]
    [hf : ∀ a, Transports φ G (f a)] : Transports φ G (c >>= f) where
  back s hG := by
    rw [bind_apply] at hG
    refine hc.back s ?_
    rcases hcs : c s with ⟨e | a, t⟩ <;> rw [hcs] at hG
    · exact hG
    · exact (hf a).back t hG
  comm s hG := by
    rw [bind_apply] at hG ⊢
    rw [bind_apply]
    have hmid : G (c s).2 := by
      rcases hcs : c s with ⟨e | a, t⟩ <;> rw [hcs] at hG
      · exact hG
      · exact (hf a).back t hG
    rw [hc.comm s hmid]
    rcases hcs : c s with ⟨e | a, t⟩
    · rfl
    · rw [hcs] at hG
      exact (hf a).comm t hG

theorem bind_of {c : Exec σ ε α} {f : α → Exec σ ε β} (_ : Transports φ G c)
    (_ : ∀ a, Transports φ G (f a)) : Transports φ G (c >>= f) := inferInstance

instance ite (p : Prop) [Decidable p] (c d : Exec σ ε α) [Transports φ G c] [Transports φ G d] :
    Transports φ G (if p then c else d) := by
  split <;> infer_instance

instance require (b : Bool) (e : ε) : Transports φ G (Exec.require b e : Exec σ ε Unit) := by
  unfold Exec.require
  infer_instance

instance when (b : Bool) (c : Exec σ ε Unit) [Transports φ G c] :
    Transports φ G (Exec.when b c) := by
  unfold Exec.when
  infer_instance

instance attempt (c : Exec σ ε α) [hc : Transports φ G c] : Transports φ G (Exec.attempt c) where
  back := hc.back
  comm s hG := by rw [attempt_apply, attempt_apply, hc.comm s hG]

instance mapErr (f : ε → ε) (c : Exec σ ε α) [hc : Transports φ G c] :
    Transports φ G (c.mapErr f) where
  back s hG := by
    refine hc.back s ?_
    unfold Exec.mapErr at hG
    rcases hcs : c s with ⟨e | a, t⟩ <;> simpa only [hcs] using hG
  comm s hG := by
    unfold Exec.mapErr at hG ⊢
    have hmid : G (c s).2 := by
      rcases hcs : c s with ⟨e | a, t⟩ <;> simpa only [hcs] using hG
    rw [hc.comm s hmid]
    rcases hcs : c s with ⟨e | a, t⟩ <;> rfl

instance onFail (c : Exec σ ε α) (f : Exec σ ε Unit) [hc : Transports φ G c]
    [hf : Transports φ G f] : Transports φ G (c.onFail f) where
  back s hG := by
    unfold Exec.onFail at hG
    refine hc.back s ?_
    rcases hcs : c s with ⟨e | a, t⟩ <;> simp only [hcs] at hG
    · refine hf.back t ?_
      rcases hft : f t with ⟨e' | _, u⟩ <;> simpa only [hft] using hG
    · exact hG
  comm s hG := by
    unfold Exec.onFail at hG ⊢
    rcases hcs : c s with ⟨e | a, t⟩ <;> simp only [hcs] at hG ⊢
    · have hmid : G (f t).2 := by
        rcases hft : f t with ⟨e' | _, u⟩ <;> simpa only [hft] using hG
      have hc' := hc.comm s (by rw [hcs]; exact hf.back t hmid)
      rw [hcs] at hc'
      simp only [hc', hf.comm t hmid]
      rcases hft : f t with ⟨e' | _, u⟩ <;> rfl
    · have hc' := hc.comm s (by rw [hcs]; exact hG)
      rw [hcs] at hc'
      simp only [hc']

/-- A computation that goes on in a way that depends on how `c` ended. -/
theorem of_attempt {d : Exec σ ε β} (c : Exec σ ε α) (f : Except ε α → Exec σ ε β)
    (hd : ∀ s, d s = f (c s).1 (c s).2) [Transports φ G c] (hok : ∀ a, Transports φ G (f (.ok a)))
    (herr : ∀ e, Transports φ G (f (.error e))) : Transports φ G d := by
  have hf : ∀ r, Transports φ G (f r) := Except.rec herr hok
  rw [show d = (Exec.attempt c >>= f) from funext hd]
  infer_instance

/-- A computation that looks at part of the state first. -/
theorem of_part {γ : Type} (part : σ → γ) (f : γ → Exec σ ε α) (hpart : ∀ s, part (φ s) = part s)
    [hf : ∀ x, Transports φ G (f x)] : Transports φ G (fun s ↦ f (part s) s) where
  back s hG := (hf _).back s hG
  comm s hG := by
    rw [hpart]
    exact (hf _).comm s hG

end Transports

end HiStar.Lib
