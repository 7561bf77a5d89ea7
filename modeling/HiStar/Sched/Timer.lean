import Mathlib.Tactic

namespace HiStar.Sched

def timerConvert (n a b : UInt64) : UInt64 :=
  let hi := n >>> 32
  let lo := n &&& 0xffffffff
  let hiHz := hi * a
  let hiB := hiHz / b
  let hiHzCarry := hiHz - hiB * b
  let loHz := lo * a + (hiHzCarry <<< 32)
  let loB := loHz / b
  (hiB <<< 32) + loB

def nsecPerSec : UInt64 := 1000000000

/-- `timer_user_nsec`, for a time source with the frequency `freqHz` that has
counted `ticks`. -/
def timerUserNsec (freqHz offset ticks : UInt64) : UInt64 :=
  timerConvert ticks nsecPerSec freqHz + offset

/-- What is left for the low half of the quotient: the low half of `n` times `a`, and
above it the remainder of the high half. -/
def lowPart (n a b : Nat) : Nat := n % 2 ^ 32 * a + n / 2 ^ 32 * a % b * 2 ^ 32

variable {n a b : Nat}

theorem mul_div_eq (hb : 0 < b) : n * a / b = n / 2 ^ 32 * a / b * 2 ^ 32 + lowPart n a b / b := by
  have hn := Nat.div_add_mod n (2 ^ 32)
  have hq := Nat.div_add_mod (n / 2 ^ 32 * a) b
  have hsplit : n * a = b * (n / 2 ^ 32 * a / b * 2 ^ 32) + lowPart n a b := by
    calc n * a = n / 2 ^ 32 * a * 2 ^ 32 + n % 2 ^ 32 * a := by
          conv_lhs => rw [← hn]
          ring
      _ = (b * (n / 2 ^ 32 * a / b) + n / 2 ^ 32 * a % b) * 2 ^ 32 + n % 2 ^ 32 * a := by rw [hq]
      _ = _ := by
          unfold lowPart
          ring
  rw [hsplit, Nat.mul_add_div hb]

theorem high_lt {n a : UInt64} (ha : a.toNat < 2 ^ 32) : n.toNat / 2 ^ 32 * a.toNat < 2 ^ 64 := by
  have hn := n.toNat_lt
  have : n.toNat / 2 ^ 32 < 2 ^ 32 := by omega
  calc n.toNat / 2 ^ 32 * a.toNat < 2 ^ 32 * 2 ^ 32 := Nat.mul_lt_mul'' this ha
    _ = 2 ^ 64 := by decide

theorem timerConvert_toNat {n a b : UInt64} (ha : a.toNat < 2 ^ 32) : (timerConvert n a b).toNat =
      (n.toNat / 2 ^ 32 * a.toNat / b.toNat * 2 ^ 32 +
        lowPart n.toNat a.toNat b.toNat % 2 ^ 64 / b.toNat) % 2 ^ 64 := by
  have hhi : (n >>> 32).toNat = n.toNat / 2 ^ 32 := by
    rw [UInt64.toNat_shiftRight, Nat.shiftRight_eq_div_pow]
    rfl
  have hlo : (n &&& 0xffffffff).toNat = n.toNat % 2 ^ 32 := by
    rw [UInt64.toNat_and]
    exact Nat.and_two_pow_sub_one_eq_mod _ 32
  have hhz : (n >>> 32 * a).toNat = n.toNat / 2 ^ 32 * a.toNat := by
    rw [UInt64.toNat_mul, hhi, Nat.mod_eq_of_lt (high_lt ha)]
  set h := n.toNat / 2 ^ 32 * a.toNat with hh
  have hle : h / b.toNat * b.toNat ≤ h := Nat.div_mul_le_self _ _
  have hcarry : (n >>> 32 * a - n >>> 32 * a / b * b).toNat = h % b.toNat := by
    have hmul : (n >>> 32 * a / b * b).toNat = h / b.toNat * b.toNat := by
      rw [UInt64.toNat_mul, UInt64.toNat_div, hhz]
      exact Nat.mod_eq_of_lt (lt_of_le_of_lt hle (high_lt ha))
    rw [UInt64.toNat_sub_of_le _ _ (by rw [UInt64.le_iff_toNat_le, hmul, hhz]; exact hle), hmul, hhz]
    rw [Nat.mod_def, Nat.mul_comm b.toNat]
  have hshift : ∀ x : UInt64, (x <<< 32).toNat = x.toNat * 2 ^ 32 % 2 ^ 64 := by
    intro x
    rw [UInt64.toNat_shiftLeft, Nat.shiftLeft_eq]
    rfl
  simp only [timerConvert]
  rw [UInt64.toNat_add, UInt64.toNat_div, UInt64.toNat_add, hshift, hshift, hcarry,
    UInt64.toNat_div, hhz, UInt64.toNat_mul, hlo, ← Nat.add_mod, Nat.mod_add_mod]
  rfl

theorem lowPart_lt {n a b : Nat} (ha : a < 2 ^ 32) (hb : b < 2 ^ 32) (hb0 : 0 < b) :
    lowPart n a b < 2 ^ 65 := by
  have h1 : n % 2 ^ 32 * a < 2 ^ 32 * 2 ^ 32 := Nat.mul_lt_mul'' (Nat.mod_lt _ (by decide)) ha
  have h2 : n / 2 ^ 32 * a % b < b := Nat.mod_lt _ hb0
  unfold lowPart
  omega

theorem timerConvert_exact_iff {n a b : UInt64} (ha : a.toNat < 2 ^ 32) (hb : b.toNat < 2 ^ 32)
    (hb0 : 0 < b.toNat) (hfit : n.toNat * a.toNat / b.toNat < 2 ^ 64) :
    (timerConvert n a b).toNat = n.toNat * a.toNat / b.toNat ↔
      lowPart n.toNat a.toNat b.toNat < 2 ^ 64 := by
  have hsplit : n.toNat * a.toNat / b.toNat = _ := mul_div_eq hb0
  rw [hsplit] at hfit ⊢
  rw [timerConvert_toNat ha]
  set y := lowPart n.toNat a.toNat b.toNat
  set q := n.toNat / 2 ^ 32 * a.toNat / b.toNat
  constructor
  · intro h
    by_contra hy
    -- the wrapped low part gives a quotient that is smaller by about `2 ^ 64 / b`
    have hlt : y < 2 ^ 65 := lowPart_lt ha hb hb0
    have hmod : y % 2 ^ 64 + 2 ^ 64 = y := by omega
    have hdiv : y % 2 ^ 64 / b.toNat + 1 ≤ y / b.toNat := by
      calc y % 2 ^ 64 / b.toNat + 1 = (y % 2 ^ 64 + b.toNat) / b.toNat := by
            rw [Nat.add_div_right _ hb0]
        _ ≤ y / b.toNat := Nat.div_le_div_right (by omega)
    rw [Nat.mod_eq_of_lt (by omega)] at h
    omega
  · intro hy
    rw [Nat.mod_eq_of_lt hy, Nat.mod_eq_of_lt hfit]

theorem lowPart_fits (hb0 : 0 < b) (hab : a + b ≤ 2 ^ 32) : lowPart n a b < 2 ^ 64 := by
  have h1 : n % 2 ^ 32 * a ≤ (2 ^ 32 - 1) * a :=
    Nat.mul_le_mul_right a (Nat.le_sub_one_of_lt (Nat.mod_lt _ (by decide)))
  have h2 : n / 2 ^ 32 * a % b < b := Nat.mod_lt _ hb0
  unfold lowPart
  omega

theorem nsec_mono {freq ticks ticks' : Nat} (h : ticks ≤ ticks') :
    ticks * nsecPerSec.toNat / freq ≤ ticks' * nsecPerSec.toNat / freq :=
  Nat.div_le_div_right (Nat.mul_le_mul_right _ h)

/-- `timer_convert` is exact exactly when the low part of the division fits into 64
bits, which it always does for frequencies that add up to at most `2 ^ 32`; between
ticks that are converted exactly the clock does not go backwards. -/
theorem tick_conversion_exact_iff (n a b freq offset ticks ticks' : UInt64) :
    (0 < a.toNat → a.toNat < 2 ^ 32 → 0 < b.toNat → b.toNat < 2 ^ 32 →
      n.toNat * a.toNat / b.toNat < 2 ^ 64 →
      ((timerConvert n a b).toNat = n.toNat * a.toNat / b.toNat ↔
        lowPart n.toNat a.toNat b.toNat < 2 ^ 64)) ∧
    (0 < b.toNat → a.toNat + b.toNat ≤ 2 ^ 32 → lowPart n.toNat a.toNat b.toNat < 2 ^ 64) ∧
    (0 < freq.toNat → freq.toNat < 2 ^ 32 → ticks ≤ ticks' →
      ticks'.toNat * nsecPerSec.toNat / freq.toNat + offset.toNat < 2 ^ 64 →
      lowPart ticks.toNat nsecPerSec.toNat freq.toNat < 2 ^ 64 →
      lowPart ticks'.toNat nsecPerSec.toNat freq.toNat < 2 ^ 64 →
      timerUserNsec freq offset ticks ≤ timerUserNsec freq offset ticks') := by
  refine ⟨fun _ ha hb0 hb hfit ↦ timerConvert_exact_iff ha hb hb0 hfit,
    fun hb0 hab ↦ lowPart_fits hb0 hab, fun hf0 hf hle hfit hlow hlow' ↦ ?_⟩
  have hmono : ticks.toNat * nsecPerSec.toNat / freq.toNat ≤ _ :=
    nsec_mono (UInt64.le_iff_toNat_le.mp hle)
  have hnsec : nsecPerSec.toNat < 2 ^ 32 := by decide
  have h := (timerConvert_exact_iff hnsec hf hf0 (by omega)).mpr hlow
  have h' := (timerConvert_exact_iff hnsec hf hf0 (by omega)).mpr hlow'
  rw [UInt64.le_iff_toNat_le]
  unfold timerUserNsec
  rw [UInt64.toNat_add, UInt64.toNat_add, h, h', Nat.mod_eq_of_lt (by omega),
    Nat.mod_eq_of_lt hfit]
  omega

/-- With a time source of 3.6 GHz the clock jumps back by five seconds before it has
run for ten. -/
theorem clock_goes_backwards :
    (timerConvert 0x7ffffffff 1000000000 3600000000).toNat ≠
      0x7ffffffff * 1000000000 / 3600000000 ∧
    timerUserNsec 3600000000 0 0x7ffffffff + 4000000000 <
      timerUserNsec 3600000000 0 0x780000000 := by
  decide

end HiStar.Sched
