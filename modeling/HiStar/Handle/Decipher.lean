import HiStar.Handle.Feistel

namespace HiStar.Handle

/-- The loop body of `bf61_decipher`. The left half is now the one of 31 bits. -/
def bf61Unround (bfc : BfCtx) (x : Halves) (i : Nat) : Halves :=
  let Xl := x.1 ^^^ (bfc.P i &&& 0x7fffffff#32)
  let Xr := x.2 ^^^ (bfF bfc Xl &&& 0x3fffffff#32)
  let Xr := Xr ^^^ (bfc.P (i - 1) &&& 0x3fffffff#32)
  let Xl := Xl ^^^ (bfF bfc Xr &&& 0x7fffffff#32)
  (Xl, Xr)

/-- The values of `i` at the head of the loop, which counts down. -/
def bf61Countdown (n : Nat) : List Nat := (List.range n).map fun j ↦ 2 * n + 1 - 2 * j

def bf61Decipher (bfc : BfCtx) (val : Nat) : Nat :=
  let x : Halves := (BitVec.ofNat 32 (val >>> 30 &&& 0x7fffffff),
    BitVec.ofNat 32 (val &&& 0x3fffffff))
  let y := (bf61Countdown (josBfN / 2)).foldl (bf61Unround bfc) x
  let Xl := y.1 ^^^ (bfc.P 1 &&& 0x7fffffff#32)
  let Xr := y.2 ^^^ (bfc.P 0 &&& 0x3fffffff#32)
  Xr.toNat <<< 31 ||| Xl.toNat

/-- The timestamp that `pstate_ts_alloc` returns, and the next counter. -/
def pstateTsAlloc (bfc : BfCtx) (counter : Nat) : Nat × Nat :=
  (bf61Encipher bfc counter, counter + 1)

def pstateTsDecrypt (bfc : BfCtx) (v : Nat) : Nat := bf61Decipher bfc v

variable (bfc : BfCtx)

/-- The halves that decryption has at the head of its loop, when encryption had
`x` after `k` rounds: they are swapped, and xored with the next two round keys. -/
def whiten (k : Nat) (x : Halves) : Halves :=
  (x.2 ^^^ (bfc.P (2 * k + 1) &&& 0x7fffffff#32), x.1 ^^^ (bfc.P (2 * k) &&& 0x3fffffff#32))

theorem xor_xor_self (a b : BitVec 32) : a ^^^ b ^^^ b = a := by
  rw [BitVec.xor_assoc, BitVec.xor_self, BitVec.xor_zero]

theorem xor_xor_comm (a b c : BitVec 32) : a ^^^ b ^^^ c = a ^^^ c ^^^ b := by
  rw [BitVec.xor_assoc, BitVec.xor_comm b, ← BitVec.xor_assoc]

theorem bf61Unround_whiten (k : Nat) (x : Halves) :
    bf61Unround bfc (whiten bfc (k + 1) (bf61Round bfc x (2 * k))) (2 * k + 3) =
      whiten bfc k x := by
  obtain ⟨l, r⟩ := x
  set l₁ := l ^^^ (bfc.P (2 * k) &&& 0x3fffffff#32) with hl₁
  set r₁ := r ^^^ (bfF bfc l₁ &&& 0x7fffffff#32) ^^^ (bfc.P (2 * k + 1) &&& 0x7fffffff#32) with hr₁
  have hround : bf61Round bfc (l, r) (2 * k) = (l₁ ^^^ (bfF bfc r₁ &&& 0x3fffffff#32), r₁) := rfl
  have hodd : 2 * (k + 1) + 1 = 2 * k + 3 := by omega
  have heven : 2 * k + 3 - 1 = 2 * (k + 1) := by omega
  -- the key of the right half goes first, then what the right half has added
  have hright : l₁ ^^^ (bfF bfc r₁ &&& 0x3fffffff#32) ^^^ (bfc.P (2 * (k + 1)) &&& 0x3fffffff#32) ^^^
      (bfF bfc r₁ &&& 0x3fffffff#32) ^^^ (bfc.P (2 * (k + 1)) &&& 0x3fffffff#32) = l₁ := by
    rw [xor_xor_comm _ _ (bfF bfc r₁ &&& 0x3fffffff#32), xor_xor_self, xor_xor_self]
  have hleft : r₁ ^^^ (bfF bfc l₁ &&& 0x7fffffff#32) =
      r ^^^ (bfc.P (2 * k + 1) &&& 0x7fffffff#32) := by
    rw [hr₁, xor_xor_comm, xor_xor_self]
  simp only [hround, whiten, bf61Unround, hodd, heven, xor_xor_self, hright, hleft]
  rfl

theorem bf61Countdown_succ (n : Nat) :
    bf61Countdown (n + 1) = (2 * n + 3) :: bf61Countdown n := by
  unfold bf61Countdown
  rw [List.range_succ_eq_map, List.map_cons, List.map_map]
  congr 1
  refine List.map_congr_left fun j _ ↦ ?_
  simp only [Function.comp_apply]
  omega

theorem unrounds_whiten (n : Nat) (x : Halves) :
    (bf61Countdown n).foldl (bf61Unround bfc)
      (whiten bfc n (((List.range n).map (2 * ·)).foldl (bf61Round bfc) x)) = whiten bfc 0 x := by
  induction n with
  | zero => rfl
  | succ n ih =>
    rw [bf61Countdown_succ, List.foldl_cons, List.range_succ, List.map_append, List.foldl_append,
      List.map_singleton, List.foldl_cons, List.foldl_nil, bf61Unround_whiten, ih]

theorem bf61Decipher_encipher (val : Nat) :
    bf61Decipher bfc (bf61Encipher bfc val) = val / 2 ^ 29 % 2 ^ 30 * 2 ^ 31 + val % 2 ^ 31 := by
  obtain ⟨y, hy, he, hxy⟩ := bf61Network_eq bfc (fit_cut val)
  have hl := hy.left
  have hr := hy.right
  have hlow : (y.2.toNat * 2 ^ 30 + y.1.toNat) &&& 0x3fffffff = y.1.toNat := by
    rw [show 0x3fffffff = 2 ^ 30 - 1 from rfl, Nat.and_two_pow_sub_one_eq_mod]
    omega
  have hhigh : (y.2.toNat * 2 ^ 30 + y.1.toNat) >>> 30 &&& 0x7fffffff = y.2.toNat := by
    rw [show 0x7fffffff = 2 ^ 31 - 1 from rfl, Nat.and_two_pow_sub_one_eq_mod,
      Nat.shiftRight_eq_div_pow]
    omega
  have hswap : ((y.2, y.1) : Halves) = whiten bfc (josBfN / 2) (bf61Indices.foldl (bf61Round bfc)
      (cut val)) := by
    rw [hxy]
    rfl
  unfold bf61Decipher
  dsimp only
  rw [bf61Encipher_eq, he, hlow, hhigh, BitVec.ofNat_toNat, BitVec.ofNat_toNat, BitVec.setWidth_eq,
    BitVec.setWidth_eq, hswap, bf61Indices, unrounds_whiten]
  simp only [whiten, Nat.mul_zero, Nat.zero_add, xor_xor_self]
  have hcut := fit_cut val
  rw [← Nat.shiftLeft_add_eq_or_of_lt hcut.right, Nat.shiftLeft_eq]
  simp only [cut, BitVec.toNat_ofNat]
  omega

/-- The cipher is inverted exactly on the numbers whose bits 29 to 58 are their bits
31 to 60. Decrypted timestamps are in order for the first `2 ^ 59` counters, and not
beyond. -/
theorem cipher_inverted_iff :
    (∀ v, v < 2 ^ 61 → bf61Encipher bfc v < 2 ^ 61) ∧
    (∀ v, v < 2 ^ 61 →
      (bf61Decipher bfc (bf61Encipher bfc v) = v ↔ v / 2 ^ 29 % 2 ^ 30 = v / 2 ^ 31)) ∧
    ∀ N, N ≤ 2 ^ 61 → ((∀ a b, a < b → b < N →
      pstateTsDecrypt bfc (pstateTsAlloc bfc a).1 < pstateTsDecrypt bfc (pstateTsAlloc bfc b).1) ↔
        N ≤ 2 ^ 59) := by
  refine ⟨fun v _ ↦ bf61Encipher_lt bfc v, fun v _ ↦ ?_, fun N _ ↦ ?_⟩
  · rw [bf61Decipher_encipher]
    omega
  · simp only [pstateTsDecrypt, pstateTsAlloc, bf61Decipher_encipher]
    constructor
    · intro h
      by_contra hN
      have := h (2 ^ 59 - 1) (2 ^ 59) (by decide) (by omega)
      omega
    · intro hN a b hab hb
      omega

theorem cipher_not_inverted : bf61Decipher ⟨fun _ ↦ 0, fun _ _ ↦ 0⟩
    (bf61Encipher ⟨fun _ ↦ 0, fun _ _ ↦ 0⟩ (2 ^ 29)) ≠ 2 ^ 29 := by
  rw [bf61Decipher_encipher]
  decide

end HiStar.Handle
