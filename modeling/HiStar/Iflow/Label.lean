import HiStar.Iflow.Slots

namespace HiStar.Iflow

open Lib Function

/-- What the memory system answers during one call: whether a label can grow to
a number of pages, whether one of its pages can be made private, whether its
pages can be shared with a copy, and whether user memory can be read. -/
structure MemEnv where
  kobjectSetNbytes : Nat → Except Errno Unit
  kobjectGetPage : Nat → Except Errno Unit
  kobjectCopyPages : Except Errno Unit
  checkUserAccess : Except Errno Unit

/-- The invariant of label objects: the used slots exist, each level is one of
the five, no handle has two slots, and the slots after the used ones are
empty. -/
structure WellFormed (l : Label) : Prop where
  fits : l.lbNent ≤ labelNslots l
  defLevel_le : l.lbDefLevel ≤ lbLevelStar
  level_le : ∀ i, i < l.lbNent → l.slot i ≠ 0 → lbLevel (l.slot i) ≤ lbLevelStar
  distinct : ∀ i j, i < l.lbNent → j < l.lbNent → l.slot i ≠ 0 → l.slot j ≠ 0 →
    lbHandle (l.slot i) = lbHandle (l.slot j) → i = j
  tail : ∀ i, l.lbNent ≤ i → l.slot i = 0

def slotHas (l : Label) (h i : Nat) : Bool := l.slot i ≠ 0 && lbHandle (l.slot i) = h

variable {l : Label} {h : Nat}

theorem slotHas_iff {i : Nat} : slotHas l h i = true ↔ l.slot i ≠ 0 ∧ lbHandle (l.slot i) = h := by
  simp [slotHas]

def labelGetLevel (l : Label) (handle : Nat) : Nat :=
  match findFrom (slotHas l handle) 0 l.lbNent with
  | some i => lbLevel (l.slot i)
  | none => l.lbDefLevel

theorem level_cases (l : Label) (h : Nat) :
    (∃ i, i < l.lbNent ∧ slotHas l h i = true ∧ labelGetLevel l h = lbLevel (l.slot i)) ∨
    ((∀ i, i < l.lbNent → slotHas l h i = false) ∧ labelGetLevel l h = l.lbDefLevel) := by
  unfold labelGetLevel
  cases hf : findFrom (slotHas l h) 0 l.lbNent with
  | some i =>
    obtain ⟨-, h2, h3, -⟩ := findFrom_some hf
    exact Or.inl ⟨i, by omega, h3, rfl⟩
  | none =>
    have hn := findFrom_none hf
    exact Or.inr ⟨fun i hi ↦ hn i (Nat.zero_le _) (by omega), rfl⟩

theorem level_of_slot (hl : WellFormed l) {i : Nat} (hi : i < l.lbNent)
    (hs : slotHas l h i = true) : labelGetLevel l h = lbLevel (l.slot i) := by
  rcases level_cases l h with ⟨j, hj, hsj, he⟩ | ⟨hn, -⟩
  · rw [slotHas_iff] at hs hsj
    have hij := hl.distinct i j hi hj hs.1 hsj.1 (hs.2.trans hsj.2.symm)
    rw [he, hij]
  · rw [hn i hi] at hs
    cases hs

theorem level_of_no_slot
    (hn : ∀ i, i < l.lbNent → slotHas l h i = false) : labelGetLevel l h = l.lbDefLevel := by
  rcases level_cases l h with ⟨i, hi, hs, -⟩ | ⟨-, he⟩
  · rw [hn i hi] at hs
    cases hs
  · exact he

theorem level_le (hl : WellFormed l) (h : Nat) : labelGetLevel l h ≤ lbLevelStar := by
  rcases level_cases l h with ⟨i, hi, hs, he⟩ | ⟨-, he⟩
  · rw [he]
    exact hl.level_le i hi (slotHas_iff.mp hs).1
  · rw [he]
    exact hl.defLevel_le

/-- A level below every other at handle 0 can only come from the default: its
code would be that of an empty slot. -/
theorem defLevel_of_level_zero (h : labelGetLevel l 0 = 0) : l.lbDefLevel = 0 := by
  rcases level_cases l 0 with ⟨i, -, hs, he⟩ | ⟨-, he⟩
  · obtain ⟨hne, hz⟩ := slotHas_iff.mp hs
    rw [he, lbLevel_eq] at h
    rw [lbHandle_eq] at hz
    omega
  · rw [← he, h]

def labelAlloc (def_ : Nat) : Label where
  lbDefLevel := def_
  lbNent := 0
  lbEnt _ := 0
  npages := 0
  lpEnt _ _ := 0

theorem labelAlloc_slot (d i : Nat) : (labelAlloc d).slot i = 0 := by
  unfold Label.slot labelAlloc
  split <;> rfl

theorem labelAlloc_wf {d : Nat} (hd : d ≤ lbLevelStar) : WellFormed (labelAlloc d) where
  fits := Nat.zero_le _
  defLevel_le := hd
  level_le i hi := absurd hi (Nat.not_lt_zero i)
  distinct i _ hi := absurd hi (Nat.not_lt_zero i)
  tail i _ := labelAlloc_slot d i

theorem labelAlloc_level (d h : Nat) : labelGetLevel (labelAlloc d) h = d := rfl

end HiStar.Iflow
