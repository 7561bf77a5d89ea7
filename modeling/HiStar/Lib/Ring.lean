import Mathlib.Tactic

namespace HiStar.Lib

variable {α : Type} {buf : Nat → α} {size start idx m n : Nat} {bs : List α}

def slice (buf : Nat → α) (off n : Nat) : List α := (List.range n).map fun i ↦ buf (off + i)

def blit (buf : Nat → α) (off : Nat) (bs : List α) : Nat → α := fun j ↦
  if off ≤ j then (bs[j - off]?).getD (buf j) else buf j

def ring (buf : Nat → α) (size start n : Nat) : List α :=
  (List.range n).map fun i ↦ buf ((start + i) % size)

@[simp] theorem length_slice (buf : Nat → α) (off n : Nat) : (slice buf off n).length = n := by
  simp [slice]

@[simp] theorem length_ring (buf : Nat → α) (size start n : Nat) :
    (ring buf size start n).length = n := by
  simp [ring]

theorem wrap (hs : start < size) (hn : n ≤ size) :
    (start + n) % size = if start + n < size then start + n else start + n - size := by
  split_ifs with h
  · exact Nat.mod_eq_of_lt h
  · rw [Nat.mod_eq_sub_mod (by omega), Nat.mod_eq_of_lt (by omega)]

theorem slices_eq_ring (hs : start < size) (hn : n ≤ size) :
    slice buf start (min n (size - start)) ++ slice buf 0 (n - min n (size - start)) =
      ring buf size start n := by
  refine List.ext_getElem (by simp) fun i h1 h2 ↦ ?_
  simp only [length_ring] at h2
  simp only [slice, ring, List.getElem_append, List.length_map, List.length_range,
    List.getElem_map, List.getElem_range, wrap hs (show i ≤ size by omega)]
  split_ifs with h3 h4
  · rfl
  · omega
  · omega
  · congr 1
    omega

theorem ring_add :
    ring buf size start (m + n) = ring buf size start m ++ ring buf size ((start + m) % size) n := by
  simp only [ring, List.range_add, List.map_append, List.map_map]
  congr 1
  refine List.map_congr_left fun i _ ↦ ?_
  simp only [Function.comp, Nat.mod_add_mod, Nat.add_assoc]

theorem blit_in {off j : Nat} (h1 : off ≤ j) (h2 : j - off < bs.length) :
    blit buf off bs j = bs.get ⟨j - off, h2⟩ := by
  simp [blit, h1, h2]

theorem blit_out {off j : Nat} (h : j < off ∨ off + bs.length ≤ j) : blit buf off bs j = buf j := by
  simp only [blit]
  split_ifs with h1
  · rw [List.getElem?_eq_none (by omega), Option.getD_none]
  · rfl

def ringWrite (buf : Nat → α) (size idx : Nat) (bs : List α) : Nat → α :=
  blit (blit buf idx (bs.take (min bs.length (size - idx)))) 0
    (bs.drop (min bs.length (size - idx)))

theorem ringWrite_at (hi : idx < size) (hb : bs.length ≤ size) {k : Nat} (hk : k < bs.length) :
    ringWrite buf size idx bs ((idx + k) % size) = bs.get ⟨k, hk⟩ := by
  rw [wrap hi (by omega), ringWrite]
  split_ifs with h
  · rw [blit_out (by simp only [List.length_drop]; omega),
      blit_in (by omega) (by simp only [List.length_take]; omega)]
    simp
  · rw [blit_in (Nat.zero_le _) (by simp only [List.length_drop]; omega)]
    have hc : min bs.length (size - idx) = size - idx := by omega
    simp only [hc, List.get_eq_getElem, List.getElem_drop]
    congr 1
    omega

theorem ringWrite_other {j : Nat} (hi : idx < size) (hj : j < size)
    (hout : ∀ k, k < bs.length → (idx + k) % size ≠ j) : ringWrite buf size idx bs j = buf j := by
  have h1 : ¬ (idx ≤ j ∧ j < idx + bs.length) := fun h ↦
    hout (j - idx) (by omega) (by rw [Nat.add_sub_cancel' h.1, Nat.mod_eq_of_lt hj])
  have h2 : ¬ j + size < idx + bs.length := fun h ↦
    hout (j + size - idx) (by omega)
      (by rw [Nat.add_sub_cancel' (by omega), Nat.add_mod_right, Nat.mod_eq_of_lt hj])
  rw [ringWrite, blit_out (by simp only [List.length_drop]; omega),
    blit_out (by simp only [List.length_take]; omega)]

theorem ring_ringWrite (hs : start < size) (hfit : m + bs.length ≤ size) :
    ring (ringWrite buf size ((start + m) % size) bs) size start (m + bs.length) =
      ring buf size start m ++ bs := by
  have hpos : 0 < size := by omega
  have hi : (start + m) % size < size := Nat.mod_lt _ hpos
  rw [ring_add]
  congr 1
  · refine List.map_congr_left fun i hi' ↦ ?_
    have hlt := List.mem_range.mp hi'
    refine ringWrite_other hi (Nat.mod_lt _ hpos) fun k hk he ↦ ?_
    rw [Nat.mod_add_mod, Nat.add_assoc, wrap hs (by omega), wrap hs (by omega)] at he
    split_ifs at he <;> omega
  · refine List.ext_getElem (by simp) fun k h1 h2 ↦ ?_
    simp only [ring, List.getElem_map, List.getElem_range]
    exact ringWrite_at hi (by omega) h2

theorem ring_zero (buf : Nat → α) (size start : Nat) : ring buf size start 0 = [] := rfl

end HiStar.Lib
