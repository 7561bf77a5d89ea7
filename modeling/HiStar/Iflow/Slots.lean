import HiStar.Errno
import HiStar.Lib.Loop
import HiStar.Iflow.Level
import Mathlib.Tactic

namespace HiStar.Iflow

open Lib Function

def lbHandle (ent : Nat) : Nat := ent &&& (2 ^ 61 - 1)

def lbLevel (ent : Nat) : Nat := ent >>> 61

def lbCode (h level : Nat) : Nat := h ||| level <<< 61

theorem lbCode_eq {h : Nat} (hh : h < 2 ^ 61) (level : Nat) :
    lbCode h level = h + level * 2 ^ 61 := by
  rw [lbCode, Nat.or_comm, ← Nat.shiftLeft_add_eq_or_of_lt hh, Nat.shiftLeft_eq, Nat.add_comm]

theorem lbHandle_eq (ent : Nat) : lbHandle ent = ent % 2 ^ 61 :=
  Nat.and_two_pow_sub_one_eq_mod ent 61

theorem lbLevel_eq (ent : Nat) : lbLevel ent = ent / 2 ^ 61 := Nat.shiftRight_eq_div_pow ent 61

theorem lbHandle_lt (ent : Nat) : lbHandle ent < 2 ^ 61 := by
  rw [lbHandle_eq]
  exact Nat.mod_lt _ (by decide)

theorem lbHandle_code {h : Nat} (hh : h < 2 ^ 61) (level : Nat) :
    lbHandle (lbCode h level) = h := by
  rw [lbHandle_eq, lbCode_eq hh]
  omega

theorem lbLevel_code {h : Nat} (hh : h < 2 ^ 61) (level : Nat) :
    lbLevel (lbCode h level) = level := by
  rw [lbLevel_eq, lbCode_eq hh]
  omega

theorem lbCode_eq_zero {h : Nat} (hh : h < 2 ^ 61) {level : Nat} :
    lbCode h level = 0 ↔ h = 0 ∧ level = 0 := by
  rw [lbCode_eq hh]
  omega

def numLbEntInline : Nat := 32

def numLbEntPerPage : Nat := 512

/-- A kernel label: a default level and the slots that depart from it, the
first of them inline and the others on the pages of the object. -/
structure Label where
  lbDefLevel : Nat
  lbNent : Nat
  lbEnt : Nat → Nat
  npages : Nat
  lpEnt : Nat → Nat → Nat

def labelNslots (l : Label) : Nat := numLbEntInline + l.npages * numLbEntPerPage

def Label.slot (l : Label) (i : Nat) : Nat :=
  if i < numLbEntInline then l.lbEnt i
  else l.lpEnt ((i - numLbEntInline) / numLbEntPerPage) ((i - numLbEntInline) % numLbEntPerPage)

def labelGetSlotpRead (l : Label) (i : Nat) : Except Errno Nat :=
  if i < labelNslots l then .ok (l.slot i) else .error .inval

def Label.setSlot (l : Label) (i v : Nat) : Label :=
  if i < numLbEntInline then { l with lbEnt := update l.lbEnt i v }
  else
    let pg := (i - numLbEntInline) / numLbEntPerPage
    let off := (i - numLbEntInline) % numLbEntPerPage
    { l with lpEnt := update l.lpEnt pg (update (l.lpEnt pg) off v) }

@[simp] theorem setSlot_defLevel (l : Label) (i v : Nat) :
    (l.setSlot i v).lbDefLevel = l.lbDefLevel := by
  unfold Label.setSlot
  split <;> rfl

@[simp] theorem setSlot_nent (l : Label) (i v : Nat) : (l.setSlot i v).lbNent = l.lbNent := by
  unfold Label.setSlot
  split <;> rfl

@[simp] theorem setSlot_npages (l : Label) (i v : Nat) : (l.setSlot i v).npages = l.npages := by
  unfold Label.setSlot
  split <;> rfl

theorem slot_setSlot (l : Label) (i j v : Nat) :
    (l.setSlot i v).slot j = if j = i then v else l.slot j := by
  unfold Label.setSlot Label.slot
  by_cases hi : i < numLbEntInline <;> by_cases hj : j < numLbEntInline
  · by_cases h : j = i <;> simp [hi, hj, h]
  · have h : j ≠ i := by omega
    simp [hi, hj, h]
  · have h : j ≠ i := by omega
    simp [hi, hj, h]
  · simp only [hi, hj, ↓reduceIte, update_apply]
    by_cases h : j = i
    · simp [h]
    · rw [if_neg h]
      by_cases h1 : (j - numLbEntInline) / numLbEntPerPage = (i - numLbEntInline) / numLbEntPerPage
      · have h2 : (j - numLbEntInline) % numLbEntPerPage ≠ (i - numLbEntInline) % numLbEntPerPage := by
          simp only [numLbEntInline, numLbEntPerPage] at *
          omega
        simp [h1, h2]
      · simp [h1]

def Label.addPage (l : Label) : Label :=
  { l with npages := l.npages + 1, lpEnt := update l.lpEnt l.npages (fun _ ↦ 0) }

theorem slot_addPage (l : Label) (i : Nat) :
    l.addPage.slot i = if labelNslots l ≤ i ∧ i < labelNslots l.addPage then 0 else l.slot i := by
  unfold Label.slot
  by_cases hi : i < numLbEntInline
  · have h : ¬ (labelNslots l ≤ i ∧ i < labelNslots l.addPage) := by
      simp only [labelNslots, Label.addPage, numLbEntInline, numLbEntPerPage] at *
      omega
    rw [if_neg h]
    simp [hi, Label.addPage]
  · have h : ((i - numLbEntInline) / numLbEntPerPage = l.npages) ↔
        (labelNslots l ≤ i ∧ i < labelNslots l.addPage) := by
      simp only [labelNslots, Label.addPage, numLbEntInline, numLbEntPerPage] at *
      omega
    simp only [hi, ↓reduceIte, ← h]
    by_cases hp : (i - numLbEntInline) / numLbEntPerPage = l.npages
    · simp [Label.addPage, hp]
    · simp [Label.addPage, hp]

end HiStar.Iflow
