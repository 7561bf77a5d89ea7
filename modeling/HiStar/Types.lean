import HiStar.Errno

namespace HiStar

inductive KobjType
  | container
  | thread
  | gate
  | segment
  | addressSpace
  | device
  | label
  | dead
  deriving DecidableEq

inductive KoLabel
  | tracking
  | clearance
  | verifyTracking
  | verifyClearance
  deriving DecidableEq

instance : Fintype KoLabel where
  elems := {.tracking, .clearance, .verifyTracking, .verifyClearance}
  complete i := by cases i <;> decide

inductive InfoFlowType
  | none
  | read
  | rw
  | alloc
  deriving DecidableEq

/-- `struct cobj_ref`: an object and the container that it is named by. -/
structure CobjRef where
  container : Nat
  object : Nat
  deriving DecidableEq

def kobjectIdThreadSg : Nat := 0x4000000000000002

/-- `handle_alloc` from a given counter: the next nonzero value of the cipher,
with a bound on the number of attempts. -/
def handleAllocFrom (encipher : Nat → Nat) : Nat → Nat → Except Errno (Nat × Nat)
  | 0, _ => .error .panic
  | fuel + 1, counter =>
    if counter + 1 ≥ 2 ^ 61 then .error .panic
    else if encipher counter = 0 then handleAllocFrom encipher fuel (counter + 1)
    else .ok (encipher counter, counter + 1)

theorem handleAllocFrom_skips {enc : Nat → Nat} {fuel c h c' : Nat}
    (hok : handleAllocFrom enc fuel c = .ok (h, c')) :
    ∃ d, (c ≤ d ∧ c' = d + 1 ∧ d + 1 < 2 ^ 61 ∧ h = enc d ∧ h ≠ 0) ∧
      ∀ m, c ≤ m → m < d → enc m = 0 := by
  induction fuel generalizing c with
  | zero => cases hok
  | succ n ih =>
    simp only [handleAllocFrom] at hok
    split at hok
    · cases hok
    · split at hok
      next hz =>
        obtain ⟨d, ⟨h1, h2⟩, h3⟩ := ih hok
        refine ⟨d, ⟨by omega, h2⟩, fun m hm hmd ↦ ?_⟩
        rcases Nat.eq_or_lt_of_le hm with rfl | hlt
        · exact hz
        · exact h3 m hlt hmd
      next hz =>
        cases hok
        exact ⟨c, ⟨le_rfl, rfl, by omega, rfl, hz⟩, fun m h1 h2 ↦ by omega⟩

theorem handleAllocFrom_ok {enc : Nat → Nat} {fuel c h c' : Nat}
    (hok : handleAllocFrom enc fuel c = .ok (h, c')) :
    ∃ d, c ≤ d ∧ c' = d + 1 ∧ d + 1 < 2 ^ 61 ∧ h = enc d ∧ h ≠ 0 :=
  (handleAllocFrom_skips hok).imp fun _ ↦ And.left

end HiStar
