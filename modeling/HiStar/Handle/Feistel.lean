import Mathlib.Tactic

namespace HiStar.Handle

def josBfN : Nat := 16

structure BfCtx where
  P : Nat → BitVec 32
  S : Nat → Nat → BitVec 32

def bfF (bfc : BfCtx) (x : BitVec 32) : BitVec 32 :=
  ((bfc.S 0 (x >>> 24).toNat + bfc.S 1 (x >>> 16 &&& 0xff#32).toNat) ^^^
    bfc.S 2 (x >>> 8 &&& 0xff#32).toNat) + bfc.S 3 (x &&& 0xff#32).toNat

abbrev Halves := BitVec 32 × BitVec 32

/-- The loop body of `bf61_encipher`: two rounds, on a left half of 30 bits and
a right half of 31. -/
def bf61Round (bfc : BfCtx) (x : Halves) (i : Nat) : Halves :=
  let Xl := x.1 ^^^ (bfc.P i &&& 0x3fffffff#32)
  let Xr := x.2 ^^^ (bfF bfc Xl &&& 0x7fffffff#32)
  let Xr := Xr ^^^ (bfc.P (i + 1) &&& 0x7fffffff#32)
  let Xl := Xl ^^^ (bfF bfc Xr &&& 0x3fffffff#32)
  (Xl, Xr)

def bf61Indices : List Nat := (List.range (josBfN / 2)).map (2 * ·)

def bf61Network (bfc : BfCtx) (x : Halves) : Nat :=
  let y := bf61Indices.foldl (bf61Round bfc) x
  let Xl := y.1 ^^^ (bfc.P josBfN &&& 0x3fffffff#32)
  let Xr := y.2 ^^^ (bfc.P (josBfN + 1) &&& 0x7fffffff#32)
  Xr.toNat <<< 30 ||| Xl.toNat

def bf61Encipher (bfc : BfCtx) (val : Nat) : Nat :=
  bf61Network bfc (BitVec.ofNat 32 (val >>> 29 &&& 0x3fffffff), BitVec.ofNat 32 (val &&& 0x7fffffff))

structure Halves.Fit (x : Halves) : Prop where
  left : x.1.toNat < 2 ^ 30
  right : x.2.toNat < 2 ^ 31

theorem toNat_xor_mask_lt {x y m : BitVec 32} {w : Nat} (hx : x.toNat < 2 ^ w)
    (hm : m.toNat < 2 ^ w) : (x ^^^ (y &&& m)).toNat < 2 ^ w := by
  simp only [BitVec.toNat_xor, BitVec.toNat_and]
  exact Nat.xor_lt_two_pow hx (Nat.and_lt_two_pow _ hm)

variable (bfc : BfCtx)

variable {x : Halves} {l : Nat}

theorem Halves.Fit.round (hx : x.Fit) (i : Nat) : Fit (bf61Round bfc x i) where
  left := toNat_xor_mask_lt (toNat_xor_mask_lt hx.left (by decide)) (by decide)
  right := toNat_xor_mask_lt (toNat_xor_mask_lt hx.right (by decide)) (by decide)

/-- A round is undone from its last assignment back to its first: each one
xors a half with a value that the other half determines. -/
theorem bf61Round_injective (i : Nat) : Function.Injective (bf61Round bfc · i) := by
  rintro ⟨l, r⟩ ⟨l', r'⟩ h
  simp only [bf61Round, Prod.mk.injEq] at h
  obtain ⟨hl, hr⟩ := h
  rw [hr, BitVec.xor_left_inj] at hl
  rw [hl, BitVec.xor_left_inj, BitVec.xor_left_inj] at hr
  rw [BitVec.xor_left_inj] at hl
  rw [hl, hr]

theorem Halves.Fit.rounds (hx : x.Fit) (is : List Nat) : Fit (is.foldl (bf61Round bfc) x) := by
  induction is generalizing x with
  | nil => exact hx
  | cons i is ih => exact ih (hx.round bfc i)

theorem rounds_injective (is : List Nat) :
    Function.Injective fun x ↦ is.foldl (bf61Round bfc) x := by
  induction is with
  | nil => exact fun x y h ↦ h
  | cons i is ih => exact fun x y h ↦ bf61Round_injective bfc i (ih h)

theorem pack_eq (hl : l < 2 ^ 30) (r : Nat) : r <<< 30 ||| l = r * 2 ^ 30 + l := by
  rw [← Nat.shiftLeft_add_eq_or_of_lt hl, Nat.shiftLeft_eq]

theorem bf61Network_eq (hx : x.Fit) :
    ∃ y : Halves, y.Fit ∧ bf61Network bfc x = y.2.toNat * 2 ^ 30 + y.1.toNat ∧
      y = ((bf61Indices.foldl (bf61Round bfc) x).1 ^^^ (bfc.P josBfN &&& 0x3fffffff#32),
        (bf61Indices.foldl (bf61Round bfc) x).2 ^^^ (bfc.P (josBfN + 1) &&& 0x7fffffff#32)) := by
  have hy := hx.rounds bfc bf61Indices
  have hfit : Halves.Fit ((bf61Indices.foldl (bf61Round bfc) x).1 ^^^
      (bfc.P josBfN &&& 0x3fffffff#32), (bf61Indices.foldl (bf61Round bfc) x).2 ^^^
      (bfc.P (josBfN + 1) &&& 0x7fffffff#32)) :=
    ⟨toNat_xor_mask_lt hy.left (by decide), toNat_xor_mask_lt hy.right (by decide)⟩
  exact ⟨_, hfit, pack_eq hfit.left _, rfl⟩

theorem bf61Network_lt (hx : x.Fit) : bf61Network bfc x < 2 ^ 61 := by
  obtain ⟨y, hy, he, -⟩ := bf61Network_eq bfc hx
  have h1 := hy.left
  have h2 := hy.right
  omega

theorem bf61Network_inj {x' : Halves} (hx : x.Fit) (hx' : x'.Fit)
    (h : bf61Network bfc x = bf61Network bfc x') : x = x' := by
  obtain ⟨y, hy, he, hxy⟩ := bf61Network_eq bfc hx
  obtain ⟨y', hy', he', hxy'⟩ := bf61Network_eq bfc hx'
  have hl := hy.left
  have hl' := hy'.left
  have h1 : y.1 = y'.1 := BitVec.eq_of_toNat_eq (by omega)
  have h2 : y.2 = y'.2 := BitVec.eq_of_toNat_eq (by omega)
  rw [hxy, hxy'] at h1 h2
  rw [BitVec.xor_left_inj] at h1 h2
  exact rounds_injective bfc bf61Indices (Prod.ext h1 h2)

def cut (val : Nat) : Halves :=
  (BitVec.ofNat 32 (val / 2 ^ 29 % 2 ^ 30), BitVec.ofNat 32 (val % 2 ^ 31))

theorem bf61Encipher_eq (val : Nat) : bf61Encipher bfc val = bf61Network bfc (cut val) := by
  have h1 : val >>> 29 &&& 0x3fffffff = val / 2 ^ 29 % 2 ^ 30 := by
    rw [Nat.shiftRight_eq_div_pow]
    exact Nat.and_two_pow_sub_one_eq_mod _ 30
  have h2 : val &&& 0x7fffffff = val % 2 ^ 31 := Nat.and_two_pow_sub_one_eq_mod _ 31
  simp only [bf61Encipher, cut, h1, h2]

theorem fit_ofNat {r : Nat} (hl : l < 2 ^ 30) (hr : r < 2 ^ 31) :
    Halves.Fit (BitVec.ofNat 32 l, BitVec.ofNat 32 r) := by
  constructor <;> simp only [BitVec.toNat_ofNat] <;> omega

theorem fit_cut (val : Nat) : (cut val).Fit :=
  fit_ofNat (Nat.mod_lt _ (by decide)) (Nat.mod_lt _ (by decide))

theorem halves_ext {r l' r' : Nat} (hl : l < 2 ^ 30) (hr : r < 2 ^ 31) (hl' : l' < 2 ^ 30)
    (hr' : r' < 2 ^ 31) (h : ((BitVec.ofNat 32 l, BitVec.ofNat 32 r) : Halves) =
      (BitVec.ofNat 32 l', BitVec.ofNat 32 r')) : l = l' ∧ r = r' := by
  obtain ⟨h1, h2⟩ := Prod.mk.inj h
  have h1 := congrArg BitVec.toNat h1
  have h2 := congrArg BitVec.toNat h2
  simp only [BitVec.toNat_ofNat] at h1 h2
  omega

theorem bf61Encipher_lt (val : Nat) : bf61Encipher bfc val < 2 ^ 61 := by
  rw [bf61Encipher_eq]
  exact bf61Network_lt bfc (fit_cut val)

/-- The halves overlap in bits 29 and 30 and leave out bits 59 and 60, so the
cipher tells two numbers apart exactly when they differ modulo `2 ^ 59`. -/
theorem bf61Encipher_eq_iff {m n : Nat} :
    bf61Encipher bfc m = bf61Encipher bfc n ↔ m % 2 ^ 59 = n % 2 ^ 59 := by
  rw [bf61Encipher_eq, bf61Encipher_eq]
  constructor
  · intro h
    obtain ⟨h1, h2⟩ := halves_ext (Nat.mod_lt _ (by decide)) (Nat.mod_lt _ (by decide))
      (Nat.mod_lt _ (by decide)) (Nat.mod_lt _ (by decide))
      (bf61Network_inj bfc (fit_cut m) (fit_cut n) h)
    omega
  · intro h
    have h1 : m / 2 ^ 29 % 2 ^ 30 = n / 2 ^ 29 % 2 ^ 30 := by omega
    have h2 : m % 2 ^ 31 = n % 2 ^ 31 := by omega
    simp only [cut, h1, h2]

end HiStar.Handle
