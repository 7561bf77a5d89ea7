import HiStar.Vm.Held

namespace HiStar.Vm

open Function

variable {D : Type} [Inhabited D]

def Machine.boot : Machine D where
  obj _ := none
  as _ := none
  curThread := ⟨1, 0⟩
  nextId := 1

/-- After a successful `sys_obj_set_readonly` on a segment of which no page is
mapped writable, no run changes its size or a page of it. -/
theorem readonly_frozen {leq : LabelOrder} {s s₁ s₂ : Machine D} {ct : Option Errno}
    {obj : Nat} (hr : Run leq Machine.boot s) (hset : s.step leq (.setReadonly ct obj) = (none, s₁))
    (hsealed : s.Sealed (s.kobjectTranslateId obj)) (hrun : Run leq s₁ s₂) :
    ∃ o, s₁.obj (s.kobjectTranslateId obj) = some o ∧ o.readonly = true ∧
      ∀ o₂, s₂.obj (s.kobjectTranslateId obj) = some o₂ →
        o₂.nbytes = o.nbytes ∧ o₂.pages = o.pages := by
  have hnone : Held none (Machine.boot : Machine D) := by constructor <;> simp [Machine.boot]
  simp only [Machine.step] at hset
  split at hset
  · simp at hset
  next id o hget =>
    obtain ⟨rfl, hobj, -⟩ := cobjGet_ok hget
    obtain rfl : s.setObj _ { o with readonly := true } = s₁ := (Prod.mk.inj hset).2
    have hbefore := hnone.run hr
    have hafter : Held none (s.setObj (s.kobjectTranslateId obj) { o with readonly := true }) :=
      hbefore.update (by simp [hobj]) (by simp)
    have hheld : Held (some (s.kobjectTranslateId obj, { o with readonly := true }))
        (s.setObj (s.kobjectTranslateId obj) { o with readonly := true }) := by
      refine ⟨hafter.fresh, ?_, ?_, ?_, ?_⟩ <;> rintro _ ⟨⟩
      · rfl
      · exact .inr (by simp [Machine.setObj])
      · exact hsealed
      · exact hbefore.fresh _ o hobj
    refine ⟨{ o with readonly := true }, by simp [Machine.setObj], rfl, fun o₂ ho₂ ↦ ?_⟩
    rcases (hheld.run hrun).obj _ rfl with hnone | hsome
    · simp [hnone] at ho₂
    · obtain rfl := Option.some.inj (hsome.symm.trans ho₂)
      exact ⟨rfl, rfl⟩

def flat : LabelOrder := fun _ _ _ ↦ true

/-- Segment 1 of one page, and address space 2 with one slot that maps it at
page 1, to read and to write. -/
def slotted : Machine Nat :=
  let s := (Machine.boot.step flat (.segmentCreate 1 1 4096)).2
  let s := (s.step flat (.asCreate 2)).2
  (s.step flat (.asSet 2 [⟨0, 1, 0, 1, 0, 6, 4096⟩] 85)).2

theorem slotted_run : Run flat (Machine.boot : Machine Nat) slotted :=
  .step _ (.step _ (.step _ .refl))

def plentiful : FaultEnv := ⟨none, none, none, fun _ ↦ none, fun _ ↦ []⟩

def faulted (s : Machine Nat) : Machine Nat := (s.step flat (.pagefault plentiful 2 1 2)).2

def stored (s : Machine Nat) : Machine Nat := (s.step flat (.store 2 1 7)).2

theorem readonly_frozen_before_fault :
    ∃ o s₁, slotted.step flat (.setReadonly none 1) = (none, s₁) ∧ s₁.obj 1 = some o ∧
      o.readonly = true ∧ ∀ o₂, (stored (faulted s₁)).obj 1 = some o₂ →
        o₂.nbytes = o.nbytes ∧ o₂.pages = o.pages := by
  have hset : slotted.step flat (.setReadonly none 1) =
      (none, (slotted.step flat (.setReadonly none 1)).2) := Prod.ext (by decide +kernel) rfl
  have hsealed : slotted.Sealed 1 := by
    intro a as vpn e ha he
    by_cases h : a = 2
    · subst h
      obtain rfl := Option.some.inj ha
      cases he
    · simp [slotted, Machine.step, Machine.modifyAs, Machine.setAs, h, Machine.newObj, Machine.boot,
        Machine.setObj] at ha
  obtain ⟨o, ho, hro, hkeep⟩ :=
    readonly_frozen slotted_run hset hsealed (.step (.store 2 1 7) (.step _ .refl))
  exact ⟨o, _, hset, ho, hro, hkeep⟩

/-- A page that is mapped writable when the segment is made read-only: the entry
stays, and a store goes through. -/
theorem mapped_page_written : ∃ s s₁ s₂ : Machine Nat, Run flat Machine.boot s ∧
    s.step flat (.setReadonly none 1) = (none, s₁) ∧ Run flat s₁ s₂ ∧
    (s₁.obj 1).map (·.pages) = some [0] ∧ (s₂.obj 1).map (·.pages) = some [7] :=
  ⟨faulted slotted, ((faulted slotted).step flat (.setReadonly none 1)).2,
    stored ((faulted slotted).step flat (.setReadonly none 1)).2, .step _ slotted_run,
    Prod.ext (by decide +kernel) rfl, .step _ .refl, by decide +kernel, by decide +kernel⟩

end HiStar.Vm
