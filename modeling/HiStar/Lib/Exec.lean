import Mathlib.Tactic

namespace HiStar.Lib

variable {σ ε α β γ : Type}

/-- A computation that may stop with an error. The state reached before the
error is kept: a failed call can leave part of its work behind. -/
def Exec (σ ε α : Type) := σ → Except ε α × σ

namespace Exec

instance : Monad (Exec σ ε) where
  pure a := fun s ↦ (.ok a, s)
  bind c f := fun s ↦
    match c s with
    | (.ok a, t) => f a t
    | (.error e, t) => (.error e, t)

def fail (e : ε) : Exec σ ε α := fun s ↦ (.error e, s)

def get : Exec σ ε σ := fun s ↦ (.ok s, s)

def modify (f : σ → σ) : Exec σ ε Unit := fun s ↦ (.ok (), f s)

def lift (r : Except ε α) : Exec σ ε α := fun s ↦ (r, s)

def read (f : σ → Except ε α) : Exec σ ε α := fun s ↦ (f s, s)

def require (b : Bool) (e : ε) : Exec σ ε Unit := if b then pure () else fail e

def when (b : Bool) (c : Exec σ ε Unit) : Exec σ ε Unit := if b then c else pure ()

def attempt (c : Exec σ ε α) : Exec σ ε (Except ε α) := fun s ↦ (.ok (c s).1, (c s).2)

/-- The error label of a function: `cleanup` runs when `c` fails. -/
def onFail (c : Exec σ ε α) (cleanup : Exec σ ε Unit) : Exec σ ε α := fun s ↦
  match c s with
  | (.ok a, t) => (.ok a, t)
  | (.error e, t) =>
    match cleanup t with
    | (.ok _, u) => (.error e, u)
    | (.error e', u) => (.error e', u)

def mapErr (f : ε → ε) (c : Exec σ ε α) : Exec σ ε α := fun s ↦
  match c s with
  | (.ok a, t) => (.ok a, t)
  | (.error e, t) => (.error (f e), t)

end Exec

@[simp] theorem pure_apply (a : α) (s : σ) : (pure a : Exec σ ε α) s = (.ok a, s) := rfl

@[simp] theorem fail_apply (e : ε) (s : σ) : (Exec.fail e : Exec σ ε α) s = (.error e, s) := rfl

@[simp] theorem get_apply (s : σ) : (Exec.get : Exec σ ε σ) s = (.ok s, s) := rfl

@[simp] theorem modify_apply (f : σ → σ) (s : σ) :
    (Exec.modify f : Exec σ ε Unit) s = (.ok (), f s) := rfl

@[simp] theorem lift_apply (r : Except ε α) (s : σ) : (Exec.lift r : Exec σ ε α) s = (r, s) := rfl

@[simp] theorem read_apply (f : σ → Except ε α) (s : σ) : Exec.read f s = (f s, s) := rfl

@[simp] theorem attempt_apply (c : Exec σ ε α) (s : σ) :
    (Exec.attempt c) s = (.ok (c s).1, (c s).2) := rfl

theorem bind_apply (c : Exec σ ε α) (f : α → Exec σ ε β) (s : σ) :
    (c >>= f) s = match c s with
      | (.ok a, t) => f a t
      | (.error e, t) => (.error e, t) := rfl

variable {c : Exec σ ε α} {s t : σ} {a : α} {b : Bool} {e : ε}

theorem bind_ok {f : α → Exec σ ε β} {u : σ} {b : β} (h : (c >>= f) s = (.ok b, u)) :
    ∃ a t, c s = (.ok a, t) ∧ f a t = (.ok b, u) := by
  rw [bind_apply] at h
  rcases hc : c s with ⟨_ | a, t⟩
  · simp [hc] at h
  · exact ⟨a, t, rfl, by simpa [hc] using h⟩

theorem except_bind_ok {c : Except ε α} {f : α → Except ε β} {b : β} (h : (c >>= f) = .ok b) :
    ∃ a, c = .ok a ∧ f a = .ok b := by
  cases c with
  | error e => cases h
  | ok a => exact ⟨a, rfl, h⟩

theorem bind_eq_of_ok {f : α → Exec σ ε β} (h : c s = (.ok a, t)) : (c >>= f) s = f a t := by
  rw [bind_apply, h]

theorem read_bind {f : σ → Except ε α} {g : α → Exec σ ε β} (h : f s = .ok a) :
    (Exec.read f >>= g) s = g a s := by
  rw [bind_apply, read_apply, h]

theorem require_bind {f : Unit → Exec σ ε α} (h : b = true) :
    (Exec.require b e >>= f) s = f () s := by
  subst h
  rfl

theorem onFail_ok {f : Exec σ ε Unit} (h : c.onFail f s = (.ok a, t)) : c s = (.ok a, t) := by
  unfold Exec.onFail at h
  rcases hc : c s with ⟨e | b, u⟩
  · rcases hf : f u with ⟨_ | _, _⟩ <;> simp [hc, hf] at h
  · simpa [hc] using h

theorem lift_ok {r : Except ε α}
    (h : (Exec.lift r : Exec σ ε α) s = (.ok a, t)) : r = .ok a ∧ t = s :=
  ⟨congrArg Prod.fst h, (congrArg Prod.snd h).symm⟩

theorem require_ok {u : Unit}
    (h : (Exec.require b e : Exec σ ε Unit) s = (.ok u, t)) : b = true ∧ t = s := by
  cases b
  · simp [Exec.require] at h
  · exact ⟨rfl, by simpa [Exec.require] using (congrArg Prod.snd h).symm⟩

theorem require_bind_ok {f : Unit → Exec σ ε α}
    (h : (Exec.require b e >>= f) s = (.ok a, t)) : b = true ∧ f () s = (.ok a, t) := by
  obtain ⟨_, s', hr, hf⟩ := bind_ok h
  obtain ⟨hb, rfl⟩ := require_ok hr
  exact ⟨hb, hf⟩

/-- Run from `s`, the computation ends in `Q` when it returns and in `E` when it
fails. -/
def Wp (c : Exec σ ε α) (s : σ) (Q : α → σ → Prop) (E : ε → σ → Prop) : Prop :=
  match c s with
  | (.ok a, t) => Q a t
  | (.error e, t) => E e t

namespace Wp

variable {s : σ} {Q : α → σ → Prop} {E : ε → σ → Prop} {R : β → σ → Prop}

variable {c : Exec σ ε α} {t : σ} {a : α} {e : ε} {Q' : α → σ → Prop}

theorem ok (h : Wp c s Q E) (hc : c s = (.ok a, t)) : Q a t := by
  unfold Wp at h
  rwa [hc] at h

theorem error (h : Wp c s Q E) (hc : c s = (.error e, t)) : E e t := by
  unfold Wp at h
  rwa [hc] at h

theorem of_ok (hc : c s = (.ok a, t)) (h : Q a t) : Wp c s Q E := by
  unfold Wp
  rwa [hc]

theorem of_error (hc : c s = (.error e, t)) (h : E e t) : Wp c s Q E := by
  unfold Wp
  rwa [hc]

theorem exists_ok (h : Wp c s Q E) (hE : ∀ e t, ¬ E e t) : ∃ a t, c s = (.ok a, t) ∧ Q a t := by
  rcases hc : c s with ⟨e | a, t⟩
  · exact absurd (h.error hc) (hE e t)
  · exact ⟨a, t, rfl, h.ok hc⟩

theorem of_step {d : Exec σ ε α} (hc : c s = d t) (h : Wp d t Q E) : Wp c s Q E := by
  unfold Wp at h ⊢
  rwa [hc]

theorem bind {f : α → Exec σ ε β}
    (h : Wp c s (fun a t ↦ Wp (f a) t R E) E) : Wp (c >>= f) s R E := by
  unfold Wp at h ⊢
  rw [bind_apply]
  rcases hc : c s with ⟨e | a, t⟩ <;> rw [hc] at h <;> exact h

theorem mono {E' : ε → σ → Prop} (h : Wp c s Q E)
    (hQ : ∀ a t, Q a t → Q' a t) (hE : ∀ e t, E e t → E' e t) : Wp c s Q' E' := by
  unfold Wp at h ⊢
  rcases hc : c s with ⟨e | a, t⟩ <;> rw [hc] at h
  · exact hE e t h
  · exact hQ a t h

theorem imp (h : Wp c s Q E) (hQ : ∀ a t, Q a t → Q' a t) : Wp c s Q' E :=
  h.mono hQ fun _ _ he ↦ he

theorem seq {f : α → Exec σ ε β} (h : Wp c s Q E)
    (hf : ∀ a t, Q a t → Wp (f a) t R E) : Wp (c >>= f) s R E :=
  bind (h.imp hf)

theorem and {E' : ε → σ → Prop} (h : Wp c s Q E)
    (h' : Wp c s Q' E') : Wp c s (fun a t ↦ Q a t ∧ Q' a t) fun e t ↦ E e t ∧ E' e t := by
  unfold Wp at h h' ⊢
  rcases hc : c s with ⟨e | a, t⟩ <;> rw [hc] at h h' <;> exact ⟨h, h'⟩

theorem congr {d : Exec σ ε α} (hcd : c s = d s) (h : Wp d s Q E) : Wp c s Q E := by
  unfold Wp at h ⊢
  rwa [hcd]

theorem pure (h : Q a s) : Wp (Pure.pure a : Exec σ ε α) s Q E := h

theorem fail (h : E e s) : Wp (Exec.fail e : Exec σ ε α) s Q E := h

theorem modify {f : σ → σ} {Q : Unit → σ → Prop} (h : Q () (f s)) :
    Wp (Exec.modify f : Exec σ ε Unit) s Q E := h

theorem read {f : σ → Except ε α} (hok : ∀ a, f s = .ok a → Q a s)
    (herr : ∀ e, f s = .error e → E e s) : Wp (Exec.read f) s Q E := by
  unfold Wp Exec.read
  rcases hf : f s with e | a
  · exact herr e hf
  · exact hok a hf

theorem require {b : Bool} {Q : Unit → σ → Prop} (hok : b = true → Q () s)
    (herr : b = false → E e s) : Wp (Exec.require b e : Exec σ ε Unit) s Q E := by
  cases b
  · exact herr rfl
  · exact hok rfl

theorem when {b : Bool} {c : Exec σ ε Unit} {Q : Unit → σ → Prop}
    (hc : b = true → Wp c s Q E) (hn : b = false → Q () s) : Wp (Exec.when b c) s Q E := by
  cases b
  · exact hn rfl
  · exact hc rfl

theorem onFail {f : Exec σ ε Unit}
    (h : Wp c s Q fun e t ↦ Wp f t (fun _ ↦ E e) E) : Wp (c.onFail f) s Q E := by
  unfold Wp at h ⊢
  unfold Exec.onFail
  rcases hc : c s with ⟨e | a, t⟩ <;> rw [hc] at h
  · rcases hf : f t with ⟨e' | _, u⟩ <;> simpa only [hf] using h
  · exact h

theorem onFail_of_ok {f : Exec σ ε Unit} (h : Wp c s Q fun _ _ ↦ False) : Wp (c.onFail f) s Q E :=
  Wp.onFail (Wp.mono h (fun _ _ h ↦ h) fun _ _ h ↦ h.elim)

theorem mapErr {f : ε → ε} (h : Wp c s Q fun e t ↦ E (f e) t) : Wp (c.mapErr f) s Q E := by
  unfold Wp at h ⊢
  unfold Exec.mapErr
  rcases hc : c s with ⟨e | a, t⟩ <;> rw [hc] at h <;> exact h

end Wp

section Bind

variable {s : σ} {Q : β → σ → Prop} {E : ε → σ → Prop} {e : ε} {b : Bool}

theorem wp_get {f : σ → Exec σ ε β} (h : Wp (f s) s Q E) : Wp (Exec.get >>= f) s Q E := h

variable {f : Unit → Exec σ ε β}

theorem wp_modify {g : σ → σ} (h : Wp (f ()) (g s) Q E) : Wp (Exec.modify g >>= f) s Q E := h

theorem wp_require (h : b = true → Wp (f ()) s Q E)
    (he : b = false → E e s) : Wp (Exec.require b e >>= f) s Q E :=
  Wp.bind (Wp.require h he)

theorem wp_require_of (hb : b = true) (h : Wp (f ()) s Q E) :
    Wp (Exec.require b e >>= f) s Q E := by
  subst hb
  exact h

theorem wp_read {g : σ → Except ε α} {f : α → Exec σ ε β} (h : ∀ a, g s = .ok a → Wp (f a) s Q E)
    (he : ∀ e, g s = .error e → E e s) : Wp (Exec.read g >>= f) s Q E :=
  Wp.bind (Wp.read h he)

theorem wp_lift {g : Except ε α} {f : α → Exec σ ε β} (h : ∀ a, g = .ok a → Wp (f a) s Q E)
    (he : ∀ e, E e s) : Wp (Exec.lift g >>= f) s Q E := wp_read h fun e _ ↦ he e

end Bind

/-- The relation `R` holds between the states before and after, whatever the
outcome. -/
class Rel (R : σ → σ → Prop) (c : Exec σ ε α) : Prop where
  rel : ∀ s, R s (c s).2

namespace Rel

variable {R : σ → σ → Prop}

theorem ok [h : Rel R c] (hc : c s = (.ok a, t)) : R s t := by
  have hr := h.rel s
  rwa [hc] at hr

theorem of_state (f : σ → Exec σ ε α) [h : ∀ s, Rel R (f s)] : Rel R fun s ↦ f s s :=
  ⟨fun s ↦ (h s).rel s⟩

section Refl

variable [Std.Refl R]

theorem of_unchanged {c : Exec σ ε α} (h : ∀ s, (c s).2 = s) : Rel R c := ⟨fun s ↦ by
  rw [h s]
  exact refl_of R s⟩

instance pure (a : α) : Rel R (Pure.pure a : Exec σ ε α) := of_unchanged fun _ ↦ rfl

instance fail (e : ε) : Rel R (Exec.fail e : Exec σ ε α) := of_unchanged fun _ ↦ rfl

instance get : Rel R (Exec.get : Exec σ ε σ) := of_unchanged fun _ ↦ rfl

instance lift (r : Except ε α) : Rel R (Exec.lift r : Exec σ ε α) := of_unchanged fun _ ↦ rfl

instance read (f : σ → Except ε α) : Rel R (Exec.read f) := of_unchanged fun _ ↦ rfl

instance require (b : Bool) (e : ε) : Rel R (Exec.require b e : Exec σ ε Unit) :=
  of_unchanged fun _ ↦ by cases b <;> rfl

instance when (b : Bool) (c : Exec σ ε Unit) [hc : Rel R c] : Rel R (Exec.when b c) := by
  cases b
  · exact pure ()
  · exact hc

end Refl

instance ite (p : Prop) [Decidable p] (c d : Exec σ ε α) [Rel R c] [Rel R d] :
    Rel R (if p then c else d) := by
  split <;> infer_instance

instance attempt (c : Exec σ ε α) [hc : Rel R c] : Rel R (Exec.attempt c) := ⟨hc.rel⟩

instance mapErr (f : ε → ε) (c : Exec σ ε α) [hc : Rel R c] : Rel R (c.mapErr f) := ⟨fun s ↦ by
  have h := hc.rel s
  unfold Exec.mapErr
  rcases hcs : c s with ⟨e | a, t⟩ <;> rw [hcs] at h <;> exact h⟩

instance bind [IsTrans σ R] (c : Exec σ ε α) (f : α → Exec σ ε β) [hc : Rel R c]
    [hf : ∀ a, Rel R (f a)] : Rel R (c >>= f) := ⟨fun s ↦ by
  have h := hc.rel s
  rw [bind_apply]
  rcases hcs : c s with ⟨e | a, t⟩
  · simpa [hcs] using h
  · rw [hcs] at h
    exact trans_of R h ((hf a).rel t)⟩

theorem bind_of [IsTrans σ R] {f : α → Exec σ ε β} (_ : Rel R c)
    (_ : ∀ a, Rel R (f a)) : Rel R (c >>= f) := inferInstance

instance onFail [IsTrans σ R] (c : Exec σ ε α) (f : Exec σ ε Unit) [hc : Rel R c] [hf : Rel R f] :
    Rel R (c.onFail f) := ⟨fun s ↦ by
  have h := hc.rel s
  unfold Exec.onFail
  rcases hcs : c s with ⟨e | a, t⟩
  · rw [hcs] at h
    have h' := hf.rel t
    rcases hft : f t with ⟨_ | _, u⟩ <;> rw [hft] at h' <;> simpa [hft] using trans_of R h h'
  · simpa [hcs] using h⟩

end Rel

end HiStar.Lib
