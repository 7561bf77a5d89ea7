import HiStar.Errno

namespace HiStar.Pmap

def ulim : Nat := 0x0000800000000000

def pdshift (n : Nat) : Nat := 12 + 9 * n

def pdx (n la : Nat) : Nat := la >>> pdshift n &&& 0x1ff

/-- A page table by level: its entries, which above the last level come with the table that
they point to if they are present. -/
def Table : Nat → Type
  | 0 => Nat → UInt64
  | n + 1 => Nat → UInt64 × Table n

def pteP (ent : UInt64) : Bool := ent &&& 0x1 ≠ 0

def ptePS (ent : UInt64) : Bool := ent &&& 0x80 ≠ 0

/-- `page_map_traverse_internal` without `create`: the calls of the callback, each with the
address and the entry. -/
def traverseInternal : (pmlevel : Nat) → Table pmlevel → (first last vaBase : Nat) →
    List (Nat × UInt64)
  | 0, t, first, last, vaBase =>
    (List.range' (pdx 0 first) (pdx 0 last + 1 - pdx 0 first)).flatMap fun idx ↦
      if pteP (t idx) then [(vaBase + idx <<< pdshift 0, t idx)] else []
  | n + 1, t, first, last, vaBase =>
    let firstIdx := pdx (n + 1) first
    let lastIdx := pdx (n + 1) last
    (List.range' firstIdx (lastIdx + 1 - firstIdx)).flatMap fun idx ↦
      let entVa := vaBase + idx <<< pdshift (n + 1)
      if n = 0 ∧ ptePS (t idx).1 then [(entVa, (t idx).1)]
      else if pteP (t idx).1 then
        traverseInternal n (t idx).2 (if idx = firstIdx then first else 0)
          (if idx = lastIdx then last else 2 ^ 64 - 1) entVa
      else []

def pageMapTraverse (t : Table 3) (first last : Nat) : List (Nat × UInt64) :=
  traverseInternal 3 t first (if last ≥ ulim then ulim - 4096 else last) 0

def span (n : Nat) : Nat := 4096 * 512 ^ n

/-- The entries of a table for pages, present or not: those of the last level, and those above
it that are marked as large pages. They are reached through tables that are present. -/
inductive LeafEntry : (n : Nat) → Table n → (base va size : Nat) → UInt64 → Prop
  | page {t : Table 0} {base idx : Nat} (hidx : idx < 512) :
      LeafEntry 0 t base (base + idx * span 0) (span 0) (t idx)
  | large {t : Table 1} {base idx : Nat} (hidx : idx < 512) (hps : ptePS (t idx).1 = true) :
      LeafEntry 1 t base (base + idx * span 1) (span 1) (t idx).1
  | inner {n : Nat} {t : Table (n + 1)} {base idx va size : Nat} {ent : UInt64} (hidx : idx < 512)
      (hps : ¬(n = 0 ∧ ptePS (t idx).1 = true)) (hp : pteP (t idx).1 = true)
      (h : LeafEntry n (t idx).2 (base + idx * span (n + 1)) va size ent) :
      LeafEntry (n + 1) t base va size ent

section Arithmetic

variable {n first last idx : Nat}

theorem span_pos (n : Nat) : 0 < span n := Nat.mul_pos (by decide) (Nat.pow_pos (by decide))

theorem span_succ (n : Nat) : span (n + 1) = 512 * span n := by
  simp only [span, pow_succ]
  omega

theorem two_pow_pdshift (n : Nat) : 2 ^ pdshift n = span n := by
  rw [pdshift, span, pow_add, pow_mul]
  norm_num

theorem shiftLeft_pdshift (idx n : Nat) : idx <<< pdshift n = idx * span n := by
  rw [Nat.shiftLeft_eq, two_pow_pdshift]

theorem pdx_eq (n la : Nat) : pdx n la = la / span n % 512 := by
  rw [pdx, Nat.shiftRight_eq_div_pow, two_pow_pdshift]
  exact Nat.and_two_pow_sub_one_eq_mod _ 9

theorem pdx_lt (n la : Nat) : pdx n la < 512 := by
  rw [pdx_eq]
  exact Nat.mod_lt _ (by decide)

theorem mod_span_succ (n la : Nat) :
    la % span (n + 1) = pdx n la * span n + la % span n := by
  rw [span_succ, Nat.mul_comm, Nat.mod_mul, pdx_eq, Nat.mul_comm, Nat.add_comm]

theorem mul_span_le {i j : Nat} (n : Nat) (h : i < j) : i * span n + span n ≤ j * span n := by
  rw [← Nat.succ_mul]
  exact Nat.mul_le_mul_right _ h

end Arithmetic

section Entries

variable {n base va size idx first last : Nat} {ent : UInt64} {t : Table n}

theorem LeafEntry.bounds (h : LeafEntry n t base va size ent) :
    base ≤ va ∧ va + size ≤ base + 512 * span n ∧ 0 < size := by
  induction h with
  | page hidx =>
    have hle := mul_span_le 0 hidx
    exact ⟨by omega, by omega, span_pos 0⟩
  | large hidx =>
    have hle := mul_span_le 1 hidx
    exact ⟨by omega, by omega, span_pos 1⟩
  | inner hidx hps hp h ih =>
    rename_i n t base idx va size ent
    have hle := mul_span_le (n + 1) hidx
    rw [← span_succ] at ih
    omega

theorem ones_mod (hn : n ≤ 3) : (2 ^ 64 - 1) % span n = span n - 1 := by
  interval_cases n <;> decide

theorem clip_first (first idx o : Nat) (hpos : 0 < size) (ho : o + size ≤ span n) :
    (pdx n first ≤ idx ∧ (if idx = pdx n first then first else 0) % span n < o + size) ↔
      first % span (n + 1) < idx * span n + o + size := by
  have hlt := Nat.mod_lt first (span_pos n)
  rw [mod_span_succ]
  rcases lt_trichotomy (pdx n first) idx with h | rfl | h
  · have hmul := mul_span_le n h
    rw [if_neg h.ne', Nat.zero_mod]
    omega
  · rw [if_pos rfl]
    omega
  · have hmul := mul_span_le n h
    omega

theorem clip_last (hn : n ≤ 3) (last idx o : Nat) (hpos : 0 < size) (ho : o + size ≤ span n) :
    (idx ≤ pdx n last ∧ o ≤ (if idx = pdx n last then last else 2 ^ 64 - 1) % span n) ↔
      idx * span n + o ≤ last % span (n + 1) := by
  have hlt := Nat.mod_lt last (span_pos n)
  rw [mod_span_succ]
  rcases lt_trichotomy idx (pdx n last) with h | rfl | h
  · have hmul := mul_span_le n h
    rw [if_neg h.ne, ones_mod hn]
    omega
  · rw [if_pos rfl]
    omega
  · have hmul := mul_span_le n h
    omega

theorem clip_le (hn : n ≤ 3) (hle : first % span (n + 1) ≤ last % span (n + 1))
    (hfirst : pdx n first ≤ idx) (hlast : idx ≤ pdx n last) :
    (if idx = pdx n first then first else 0) % span n ≤
      (if idx = pdx n last then last else 2 ^ 64 - 1) % span n := by
  have hf := Nat.mod_lt first (span_pos n)
  rw [mod_span_succ, mod_span_succ] at hle
  by_cases h : idx = pdx n last
  · subst h
    rw [if_pos rfl]
    split_ifs with h'
    · rw [← h'] at hle
      omega
    · simp
  · rw [if_neg h, ones_mod hn]
    split_ifs
    · omega
    · simp

theorem pdx_le (hle : first % span (n + 1) ≤ last % span (n + 1)) :
    pdx n first ≤ pdx n last := by
  by_contra h
  have hmul := mul_span_le n (not_le.mp h)
  have hl := Nat.mod_lt last (span_pos n)
  rw [mod_span_succ, mod_span_succ] at hle
  omega

theorem pdx_between (hn : n ≤ 3) (first last idx : Nat) : (pdx n first ≤ idx ∧ idx ≤ pdx n last) ↔
    idx * span n ≤ last % span (n + 1) ∧ first % span (n + 1) < idx * span n + span n := by
  have hfirst := clip_first first idx 0 (span_pos n) (Nat.zero_add (span n)).le
  have hlast := clip_last hn last idx 0 (span_pos n) (Nat.zero_add (span n)).le
  rw [Nat.zero_add, and_iff_left (Nat.mod_lt _ (span_pos n))] at hfirst
  rw [and_iff_left (Nat.zero_le _)] at hlast
  rw [hfirst, hlast, and_comm, Nat.add_zero]

end Entries

section Calls

variable {n base va first last : Nat} {ent : UInt64}

/-- The calls are those for the leaf entries in the range that are present or large. -/
def Called (n : Nat) (t : Table n) (first last base va : Nat) (ent : UInt64) : Prop :=
  ∃ size, LeafEntry n t base va size ent ∧ (pteP ent = true ∨ size = span 1) ∧
    va ≤ base + last % span (n + 1) ∧ base + first % span (n + 1) < va + size

theorem mem_traverse_zero (t : Table 0) (base : Nat)
    (hle : first % span (0 + 1) ≤ last % span (0 + 1)) :
    (va, ent) ∈ traverseInternal 0 t first last base ↔ Called 0 t first last base va ent := by
  have hidx := pdx_le hle
  have hone : span 0 ≠ span 1 := by decide
  rw [traverseInternal]
  simp only [List.mem_flatMap, List.mem_range'_1, shiftLeft_pdshift]
  constructor
  · rintro ⟨idx, hin, hmem⟩
    split_ifs at hmem with hp
    · rw [List.mem_singleton, Prod.mk.injEq] at hmem
      obtain ⟨rfl, rfl⟩ := hmem
      have hlt := pdx_lt 0 last
      have hrange := (pdx_between (by decide) first last idx).mp ⟨hin.1, by omega⟩
      exact ⟨span 0, .page (by omega), .inl hp, by omega, by omega⟩
    · exact absurd hmem List.not_mem_nil
  · rintro ⟨size, hleaf, hp, hlast, hfirst⟩
    cases hleaf with
    | page hlt =>
      rename_i idx
      have hrange := (pdx_between (Nat.zero_le 3) first last idx).mpr ⟨by omega, by omega⟩
      refine ⟨idx, ⟨hrange.1, by omega⟩, ?_⟩
      rw [if_pos (hp.resolve_right hone)]
      exact List.mem_singleton_self _

theorem mem_traverse_succ (hn : n + 1 ≤ 3) (t : Table (n + 1)) (base : Nat)
    (hle : first % span (n + 1 + 1) ≤ last % span (n + 1 + 1))
    (ih : ∀ (t : Table n) (first last base : Nat), first % span (n + 1) ≤ last % span (n + 1) →
      ((va, ent) ∈ traverseInternal n t first last base ↔ Called n t first last base va ent)) :
    (va, ent) ∈ traverseInternal (n + 1) t first last base ↔
      Called (n + 1) t first last base va ent := by
  have hidx := pdx_le hle
  rw [traverseInternal]
  simp only [List.mem_flatMap, List.mem_range'_1, shiftLeft_pdshift]
  constructor
  · rintro ⟨idx, hin, hmem⟩
    have hlt := pdx_lt (n + 1) last
    have hin' : pdx (n + 1) first ≤ idx ∧ idx ≤ pdx (n + 1) last := by omega
    by_cases hps : n = 0 ∧ ptePS (t idx).1 = true
    · rw [if_pos hps, List.mem_singleton, Prod.mk.injEq] at hmem
      obtain ⟨rfl, rfl⟩ := hmem
      have hrange := (pdx_between hn first last idx).mp hin'
      obtain ⟨rfl, hps⟩ := hps
      exact ⟨span (0 + 1), .large (by omega) hps, .inr rfl, by omega, by omega⟩
    rw [if_neg hps] at hmem
    by_cases hp : pteP (t idx).1 = true
    · rw [if_pos hp] at hmem
      obtain ⟨size, hleaf, hcalled, hlast, hfirst⟩ :=
        (ih _ _ _ _ (clip_le hn hle hin'.1 hin'.2)).mp hmem
      have hb := hleaf.bounds
      rw [← span_succ] at hb
      obtain ⟨o, rfl⟩ := Nat.exists_eq_add_of_le hb.1
      have hlast' := (clip_last hn last idx o hb.2.2 (by omega)).mp ⟨hin'.2, by omega⟩
      have hfirst' := (clip_first first idx o hb.2.2 (by omega)).mp ⟨hin'.1, by omega⟩
      exact ⟨size, .inner (by omega) hps hp hleaf, hcalled, by omega, by omega⟩
    · rw [if_neg hp] at hmem
      exact absurd hmem List.not_mem_nil
  · rintro ⟨size, hleaf, hcalled, hlast, hfirst⟩
    cases hleaf with
    | large hlt hps =>
      rename_i idx
      have hlast' : base + idx * span (0 + 1) ≤ base + last % span (0 + 1 + 1) := hlast
      have hfirst' : base + first % span (0 + 1 + 1) <
        base + idx * span (0 + 1) + span (0 + 1) := hfirst
      have hrange := (pdx_between hn first last idx).mpr ⟨by omega, by omega⟩
      refine ⟨idx, ⟨hrange.1, by omega⟩, ?_⟩
      rw [if_pos ⟨rfl, hps⟩]
      exact List.mem_singleton_self _
    | inner hlt hps hp h =>
      rename_i idx
      have hb := h.bounds
      rw [← span_succ] at hb
      obtain ⟨o, rfl⟩ := Nat.exists_eq_add_of_le hb.1
      have hlast' := (clip_last hn last idx o hb.2.2 (by omega)).mpr
        (show _ ≤ last % span (n + 1 + 1) by omega)
      have hfirst' := (clip_first first idx o hb.2.2 (by omega)).mpr
        (show first % span (n + 1 + 1) < _ by omega)
      refine ⟨idx, ⟨hfirst'.1, by omega⟩, ?_⟩
      rw [if_neg hps, if_pos hp, ih _ _ _ _ (clip_le hn hle hfirst'.1 hlast'.1)]
      exact ⟨size, h, hcalled, by omega, by omega⟩

theorem mem_traverseInternal (hn : n ≤ 3) (t : Table n) (first last base : Nat)
    (hle : first % span (n + 1) ≤ last % span (n + 1)) :
    (va, ent) ∈ traverseInternal n t first last base ↔ Called n t first last base va ent := by
  induction n generalizing first last base with
  | zero => exact mem_traverse_zero t base hle
  | succ n ih =>
    exact mem_traverse_succ hn t base hle fun t first last base ↦ ih (by omega) t first last base

end Calls

section Order

variable {n : Nat}

structure Ascending (calls : List (Nat × UInt64)) (lo hi : Nat) : Prop where
  order : calls.Pairwise (·.1 < ·.1)
  bounds : ∀ x ∈ calls, lo ≤ x.1 ∧ x.1 < hi

theorem Ascending.nil (lo hi : Nat) : Ascending [] lo hi := ⟨.nil, by simp⟩

theorem Ascending.singleton {lo hi : Nat} (h : lo < hi) (ent : UInt64) :
    Ascending [(lo, ent)] lo hi :=
  ⟨List.pairwise_singleton _ _, by simpa using h⟩

theorem Ascending.flatMap {base i len : Nat} {f : Nat → List (Nat × UInt64)} (hlen : i + len ≤ 512)
    (hf : ∀ idx, Ascending (f idx) (base + idx * span n) (base + idx * span n + span n)) :
    Ascending ((List.range' i len).flatMap f) base (base + span (n + 1)) := by
  have hlt : (List.range' i len).Pairwise (· < ·) := List.pairwise_lt_range' 1
  constructor
  · rw [List.pairwise_flatMap]
    refine ⟨fun idx _ ↦ (hf idx).order, hlt.imp fun hab x hx y hy ↦ ?_⟩
    have hmul := mul_span_le n hab
    have hx := (hf _).bounds x hx
    have hy := (hf _).bounds y hy
    omega
  · intro x hx
    obtain ⟨idx, hidx, hx⟩ := List.mem_flatMap.mp hx
    rw [List.mem_range'_1] at hidx
    have hmul := mul_span_le n (show idx < 512 by omega)
    have hx := (hf _).bounds x hx
    rw [span_succ]
    omega

theorem traverseInternal_ascending (t : Table n) (first last base : Nat) :
    Ascending (traverseInternal n t first last base) base (base + span (n + 1)) := by
  have hfirst := pdx_lt n first
  have hlast := pdx_lt n last
  induction n generalizing first last base with
  | zero =>
    refine Ascending.flatMap (by omega) fun idx ↦ ?_
    rw [shiftLeft_pdshift]
    split_ifs
    · exact .singleton (Nat.lt_add_of_pos_right (span_pos 0)) _
    · exact .nil _ _
  | succ n ih =>
    refine Ascending.flatMap (by omega) fun idx ↦ ?_
    simp only [shiftLeft_pdshift]
    by_cases hps : n = 0 ∧ ptePS (t idx).1 = true
    · rw [if_pos hps]
      exact .singleton (Nat.lt_add_of_pos_right (span_pos _)) _
    rw [if_neg hps]
    by_cases hp : pteP (t idx).1 = true
    · rw [if_pos hp]
      exact ih _ _ _ _ (pdx_lt _ _) (pdx_lt _ _)
    · rw [if_neg hp]
      exact .nil _ _

end Order

section Range

variable {n last last' first : Nat}

theorem pdx_congr (n : Nat) (h : last / 4096 = last' / 4096) : pdx n last = pdx n last' := by
  rw [pdx_eq, pdx_eq, span, ← Nat.div_div_eq_div_mul, ← Nat.div_div_eq_div_mul, h]

theorem traverseInternal_congr (t : Table n) (first base : Nat) (h : last / 4096 = last' / 4096) :
    traverseInternal n t first last base = traverseInternal n t first last' base := by
  induction n generalizing first last last' base with
  | zero => rw [traverseInternal, traverseInternal, pdx_congr 0 h]
  | succ n ih =>
    have hnext : ∀ idx, (if idx = pdx (n + 1) last' then last else 2 ^ 64 - 1) / 4096 =
        (if idx = pdx (n + 1) last' then last' else 2 ^ 64 - 1) / 4096 := fun idx ↦ by
      split_ifs
      · exact h
      · rfl
    rw [traverseInternal, traverseInternal, pdx_congr (n + 1) h]
    simp only [ih _ _ _ (hnext _)]

theorem pageMapTraverse_eq (t : Table 3) (first last : Nat) :
    pageMapTraverse t first last = traverseInternal 3 t first (min last (ulim - 1)) 0 := by
  rw [pageMapTraverse]
  split_ifs with h
  · rw [min_eq_right (by omega)]
    exact traverseInternal_congr t first 0 (by decide)
  · rw [min_eq_left (by omega)]

/-- The page of `size` bytes at `va` meets the part of `[first, last]` below `ULIM`. -/
def InRange (first last va size : Nat) : Prop := va ≤ last ∧ va < ulim ∧ first < va + size

theorem mem_pageMapTraverse {va : Nat} {ent : UInt64} (t : Table 3) (hle : first ≤ last)
    (hfirst : first < ulim) :
    (va, ent) ∈ pageMapTraverse t first last ↔
      ∃ size, LeafEntry 3 t 0 va size ent ∧ (pteP ent = true ∨ size = span 1) ∧
        InRange first last va size := by
  have hu : ulim ≤ span 4 := by decide
  have hu0 : 0 < ulim := by decide
  have hl := Nat.mod_eq_of_lt (show min last (ulim - 1) < span 4 by omega)
  have hf := Nat.mod_eq_of_lt (show first < span 4 by omega)
  rw [pageMapTraverse_eq, mem_traverseInternal le_rfl t _ _ _ (by rw [hl, hf]; omega), Called,
    hl, hf]
  refine exists_congr fun size ↦ and_congr_right' (and_congr_right' ?_)
  rw [InRange]
  omega

/-- The callback is called once for each page that is present in the range and for no other
entry, in increasing order. -/
structure VisitsExactly (t : Table 3) (first last : Nat) : Prop where
  order : (pageMapTraverse t first last).Pairwise (·.1 < ·.1)
  pages : ∀ va ent, (va, ent) ∈ pageMapTraverse t first last ↔
    ∃ size, LeafEntry 3 t 0 va size ent ∧ pteP ent = true ∧ InRange first last va size

/-- The traversal takes an entry marked as a large page without looking whether it is present. -/
theorem traverse_exact (t : Table 3) {first last : Nat} (hle : first ≤ last)
    (hfirst : first < ulim) :
    VisitsExactly t first last ↔ ∀ va ent, LeafEntry 3 t 0 va (span 1) ent →
      InRange first last va (span 1) → pteP ent = true := by
  constructor
  · intro h va ent hleaf hin
    obtain ⟨_, _, hp, _⟩ := (h.pages va ent).mp
      ((mem_pageMapTraverse t hle hfirst).mpr ⟨span 1, hleaf, .inr rfl, hin⟩)
    exact hp
  · intro h
    refine ⟨?_, fun va ent ↦ (mem_pageMapTraverse t hle hfirst).trans ?_⟩
    · rw [pageMapTraverse_eq]
      exact (traverseInternal_ascending t _ _ 0).order
    · refine exists_congr fun size ↦ and_congr_right fun hleaf ↦ and_congr_left fun hin ↦ ?_
      refine ⟨fun hp ↦ hp.elim id ?_, .inl⟩
      rintro rfl
      exact h va ent hleaf hin

def largePages (ent : UInt64) : Table 3 := fun _ ↦ (1, fun _ ↦ (1, fun _ ↦ (ent, fun _ ↦ 0)))

theorem present_large_visited : VisitsExactly (largePages 0x81) 0 0x1000 := by
  refine (traverse_exact (largePages 0x81) (Nat.zero_le _) (by decide)).mpr ?_
  intro va ent hleaf _
  cases hleaf with
  | inner _ _ _ hleaf =>
    cases hleaf with
    | inner _ _ _ hleaf =>
      cases hleaf with
      | large => exact (by decide : pteP 0x81 = true)
      | inner _ hps => exact absurd ⟨rfl, (by decide : ptePS 0x81 = true)⟩ hps

theorem absent_large_visited : ¬VisitsExactly (largePages 0x80) 0 0 := by
  intro h
  obtain ⟨_, _, hp, _⟩ := (h.pages 0 0x80).mp (by decide)
  exact absurd hp (by decide)

end Range

end HiStar.Pmap
