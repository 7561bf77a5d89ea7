import HiStar.Types
import HiStar.Handle.Feistel

namespace HiStar.Handle

variable (bfc : BfCtx)

def handleAlloc (counter : Nat) : Except Errno (Nat × Nat) :=
  handleAllocFrom (bf61Encipher bfc) (2 ^ 61 - counter) counter

/-- A number of calls of `handle_alloc` in a row: the handles and the counter
at the end. -/
def handleAllocs : Nat → Nat → Except Errno (List Nat × Nat)
  | 0, c => .ok ([], c)
  | n + 1, c =>
    match handleAlloc bfc c with
    | .error e => .error e
    | .ok (h, c') =>
      match handleAllocs n c' with
      | .error e => .error e
      | .ok (hs, c'') => .ok (h :: hs, c'')

/-- The counters whose handles are returned while the counter goes from `c` to
`c'`. -/
def used (c c' : Nat) : List Nat :=
  ((List.range' c (c' - c)).filter fun d ↦ bf61Encipher bfc d ≠ 0)

/-- The cipher that gives 0 from the counter `top` on. -/
def cutAt (top : Nat) (enc : Nat → Nat) (n : Nat) : Nat := if n < top then enc n else 0

variable {top c c' n d : Nat}

theorem handleAllocFrom_cutAt {enc : Nat → Nat} {fuel h : Nat}
    (hok : handleAllocFrom enc fuel c = .ok (h, c')) (hc : c' ≤ top) :
    handleAllocFrom (cutAt top enc) fuel c = .ok (h, c') := by
  induction fuel generalizing c with
  | zero => cases hok
  | succ fuel ih =>
    obtain ⟨d, hd, hd', -⟩ := handleAllocFrom_ok hok
    simp only [handleAllocFrom, cutAt, show c < top by omega, ↓reduceIte] at hok ⊢
    split at hok
    · cases hok
    next hlt =>
      rw [if_neg hlt]
      split at hok
      next hz => rw [if_pos hz, ih hok]
      next hz => rw [if_neg hz, hok]

theorem handleAllocFrom_cutAt_error {enc : Nat → Nat} {fuel : Nat} {e : Errno}
    (hok : handleAllocFrom enc fuel c = .error e) :
    handleAllocFrom (cutAt top enc) fuel c = .error e := by
  induction fuel generalizing c with
  | zero => exact hok
  | succ fuel ih =>
    simp only [handleAllocFrom] at hok ⊢
    split at hok
    next hge => rw [if_pos hge, hok]
    next hlt =>
      rw [if_neg hlt]
      split at hok
      next hz =>
        rw [cutAt, hz, ite_self, if_pos rfl]
        exact ih hok
      next => cases hok

theorem cutAt_lt (top n : Nat) : cutAt top (bf61Encipher bfc) n < 2 ^ 61 := by
  unfold cutAt
  split
  · exact bf61Encipher_lt bfc n
  · exact Nat.two_pow_pos 61

/-- Within `2 ^ 59` counters the cipher gives no id twice. -/
theorem cutAt_inj {first m : Nat} (htop : top ≤ first + 2 ^ 59) (hm : first ≤ m)
    (hn : first ≤ n) (h0 : cutAt top (bf61Encipher bfc) m ≠ 0)
    (heq : cutAt top (bf61Encipher bfc) m = cutAt top (bf61Encipher bfc) n) : m = n := by
  unfold cutAt at h0 heq
  split at heq
  · rw [if_pos ‹_›] at h0
    split at heq
    · have := (bf61Encipher_eq_iff bfc).mp heq
      omega
    · exact absurd heq h0
  · exact absurd (if_neg ‹_›) h0

theorem range_split (h1 : c ≤ d) (h2 : d + 1 ≤ c') : List.range' c (c' - c) =
      List.range' c (d - c) ++ d :: List.range' (d + 1) (c' - (d + 1)) := by
  have he : c' - c = (d - c) + ((c' - (d + 1)) + 1) := by omega
  rw [he, ← List.range'_append_1, List.range'_succ, Nat.add_sub_cancel' h1]

theorem handleAllocs_ok {hs : List Nat} (hrun : handleAllocs bfc n c = .ok (hs, c')) :
    c ≤ c' ∧ hs = (used bfc c c').map (bf61Encipher bfc) ∧ hs.length = n ∧
      (c < c' → bf61Encipher bfc (c' - 1) ≠ 0) := by
  induction n generalizing c hs with
  | zero =>
    cases hrun
    simp [used]
  | succ n ih =>
    simp only [handleAllocs] at hrun
    split at hrun
    · cases hrun
    next h c₁ h1 =>
      split at hrun
      · cases hrun
      next hs' c₂ h2 =>
        cases hrun
        obtain ⟨d, ⟨hcd, rfl, -, rfl, hne⟩, hskip⟩ := handleAllocFrom_skips h1
        obtain ⟨hle, hhs, hlen, hlast⟩ := ih h2
        refine ⟨by omega, ?_, by simp [hlen], fun _ ↦ ?_⟩
        · have hnone : (List.range' c (d - c)).filter (fun m ↦ bf61Encipher bfc m ≠ 0) = [] := by
            simp only [List.filter_eq_nil_iff, List.mem_range'_1, ne_eq, decide_not,
              Bool.not_eq_true', decide_eq_false_iff_not, not_not]
            exact fun m hm ↦ hskip m hm.1 (by omega)
          simp only [used] at hhs
          simp only [used, range_split hcd hle, List.filter_append, hnone, List.nil_append,
            List.filter_cons, hne, ne_eq, not_false_eq_true, decide_true, ↓reduceIte,
            List.map_cons, hhs]
        · rcases Nat.eq_or_lt_of_le hle with heq | hlt
          · rw [← heq]
            exact hne
          · exact hlast hlt

theorem mem_used : d ∈ used bfc c c' ↔ c ≤ d ∧ d < c' ∧ bf61Encipher bfc d ≠ 0 := by
  simp only [used, List.mem_filter, List.mem_range'_1, decide_eq_true_eq]
  omega

/-- Handles repeat as soon as the counter has moved by more than `2 ^ 59`: the
last one was then returned before. -/
theorem nodup_iff_window (hlast : c < c' → bf61Encipher bfc (c' - 1) ≠ 0) :
    ((used bfc c c').map (bf61Encipher bfc)).Nodup ↔ c' - c ≤ 2 ^ 59 := by
  have hnd : (used bfc c c').Nodup := List.Nodup.filter _ List.nodup_range'
  rw [List.nodup_map_iff_inj_on hnd]
  constructor
  · intro hinj
    by_contra hgt
    have hne := hlast (by omega)
    have heq : bf61Encipher bfc (c' - 1 - 2 ^ 59) = bf61Encipher bfc (c' - 1) :=
      (bf61Encipher_eq_iff bfc).mpr (by omega)
    have hm : c' - 1 - 2 ^ 59 ∈ used bfc c c' := by
      rw [mem_used, heq]
      exact ⟨by omega, by omega, hne⟩
    have := hinj _ hm _ ((mem_used bfc).mpr ⟨by omega, by omega, hne⟩) heq
    omega
  · intro hle m hm n hn heq
    have h1 := (mem_used bfc).mp hm
    have h2 := (mem_used bfc).mp hn
    have := (bf61Encipher_eq_iff bfc).mp heq
    omega

theorem used_append (h1 : c ≤ d) (h2 : d ≤ c') : used bfc c c' = used bfc c d ++ used bfc d c' := by
  have he : c' - c = (d - c) + (c' - d) := by omega
  rw [used, he, ← List.range'_append_1, List.filter_append, Nat.add_sub_cancel' h1]
  rfl

theorem length_used_window (c : Nat) : 2 ^ 59 ≤ (used bfc c (c + 2 ^ 59)).length + 1 := by
  let zeros := (List.range' c (2 ^ 59)).filter fun d ↦ bf61Encipher bfc d = 0
  have hz : zeros.length ≤ 1 := by
    have hnd : zeros.Nodup := List.Nodup.filter _ List.nodup_range'
    have hall : ∀ m ∈ zeros, ∀ n ∈ zeros, m = n := by
      intro m hm n hn
      simp only [zeros, List.mem_filter, List.mem_range'_1, decide_eq_true_eq] at hm hn
      have := (bf61Encipher_eq_iff bfc).mp (hm.2.trans hn.2.symm)
      omega
    rw [← List.toFinset_card_of_nodup hnd, Finset.card_le_one]
    simpa only [List.mem_toFinset] using hall
  have hsum := List.length_eq_length_filter_add (l := List.range' c (2 ^ 59))
    fun d ↦ decide (bf61Encipher bfc d = 0)
  have hu : used bfc c (c + 2 ^ 59) =
      (List.range' c (2 ^ 59)).filter fun d ↦ !decide (bf61Encipher bfc d = 0) := by
    simp only [used, Nat.add_sub_cancel_left, ne_eq, decide_not]
  simp only [List.length_range'] at hsum
  change 2 ^ 59 = zeros.length + _ at hsum
  rw [hu]
  omega

theorem window_iff_length (hlast : c < c' → bf61Encipher bfc (c' - 1) ≠ 0) :
    c' - c ≤ 2 ^ 59 ↔ (used bfc c c').length < 2 ^ 59 ∨
      (used bfc c c').length = 2 ^ 59 ∧ ∀ m, m < 2 ^ 61 → bf61Encipher bfc m ≠ 0 := by
  have hle : (used bfc c c').length ≤ c' - c := by
    have := List.length_filter_le (fun d ↦ decide (bf61Encipher bfc d ≠ 0)) (List.range' c (c' - c))
    rwa [List.length_range'] at this
  constructor
  · intro hw
    rcases Nat.lt_or_ge (used bfc c c').length (2 ^ 59) with hlt | hge
    · exact .inl hlt
    · refine .inr ⟨by omega, fun m _ hz ↦ ?_⟩
      have hall := (List.length_filter_eq_length_iff (l := List.range' c (c' - c))).mp
        (show (used bfc c c').length = _ by rw [List.length_range']; omega)
      -- the counter of the range that agrees with `m` modulo `2 ^ 59`
      have hmem : c + (m + 2 ^ 59 - c % 2 ^ 59) % 2 ^ 59 ∈ List.range' c (c' - c) := by
        rw [List.mem_range'_1]
        omega
      have hne := of_decide_eq_true (hall _ hmem)
      exact hne (((bf61Encipher_eq_iff bfc).mpr (by omega)).trans hz)
  · intro h
    by_contra hgt
    have hmem : c' - 1 ∈ used bfc (c + 2 ^ 59) c' :=
      (mem_used bfc).mpr ⟨by omega, by omega, hlast (by omega)⟩
    have hpos := List.length_pos_of_mem hmem
    have hlen : (used bfc c c').length =
        (used bfc c (c + 2 ^ 59)).length + (used bfc (c + 2 ^ 59) c').length := by
      rw [used_append bfc (Nat.le_add_right c (2 ^ 59)) (by omega), List.length_append]
    rcases h with h | ⟨h, hnz⟩
    · have := length_used_window bfc c
      omega
    · have hall : (used bfc c c').length = (List.range' c (c' - c)).length := by
        refine List.length_filter_eq_length_iff.mpr fun m _ ↦ decide_eq_true fun hz ↦ ?_
        have hm : bf61Encipher bfc (m % 2 ^ 59) = 0 := by
          rw [← hz, bf61Encipher_eq_iff, Nat.mod_mod]
        exact hnz (m % 2 ^ 59) (by omega) hm
      rw [List.length_range'] at hall
      omega

/-- The handles of a run are distinct, nonzero and below `2 ^ 61` exactly when
there are fewer than `2 ^ 59` of them, or `2 ^ 59` and the cipher never gives
0. -/
theorem handles_unique_iff {n c c' : Nat} {hs : List Nat}
    (hrun : handleAllocs bfc n c = .ok (hs, c')) :
    (hs.Nodup ∧ ∀ h ∈ hs, h ≠ 0 ∧ h < 2 ^ 61) ↔
      n < 2 ^ 59 ∨ n = 2 ^ 59 ∧ ∀ m, m < 2 ^ 61 → bf61Encipher bfc m ≠ 0 := by
  obtain ⟨-, rfl, hlen, hlast⟩ := handleAllocs_ok bfc hrun
  rw [List.length_map] at hlen
  have hwf : ∀ h ∈ (used bfc c c').map (bf61Encipher bfc), h ≠ 0 ∧ h < 2 ^ 61 := by
    intro h hh
    obtain ⟨d, hd, rfl⟩ := List.mem_map.mp hh
    exact ⟨((mem_used bfc).mp hd).2.2, bf61Encipher_lt bfc d⟩
  rw [and_iff_left hwf, nodup_iff_window bfc hlast, window_iff_length bfc hlast, hlen]

def zeroCtx : BfCtx := ⟨fun _ ↦ 0, fun _ _ ↦ 0⟩

/-- The id that a kernel with a zero key gives out at a counter. -/
def ident (counter : Nat) : Nat := bf61Encipher zeroCtx counter

theorem two_handles_unique :
    (([2 ^ 30, 2 ^ 31] : List Nat).Nodup ∧ ∀ h ∈ ([2 ^ 30, 2 ^ 31] : List Nat), h ≠ 0 ∧ h < 2 ^ 61) ↔
      2 < 2 ^ 59 ∨ 2 = 2 ^ 59 ∧ ∀ m, m < 2 ^ 61 → bf61Encipher zeroCtx m ≠ 0 :=
  have hrun : handleAllocs zeroCtx 2 0 = .ok ([2 ^ 30, 2 ^ 31], 3) := by decide +kernel
  handles_unique_iff zeroCtx hrun

theorem handleAlloc_succeeds (hc : c + 2 < 2 ^ 61) :
    ∃ h c', handleAlloc bfc c = .ok (h, c') ∧ c' ≤ c + 2 := by
  obtain ⟨f, hf⟩ : ∃ f, 2 ^ 61 - c = f + 2 := ⟨2 ^ 61 - c - 2, by omega⟩
  have h1 : ¬ c + 1 ≥ 2 ^ 61 := by omega
  have h2 : ¬ c + 1 + 1 ≥ 2 ^ 61 := by omega
  unfold handleAlloc
  by_cases hz : bf61Encipher bfc c = 0
  · have hz' : bf61Encipher bfc (c + 1) ≠ 0 := by
      intro hz'
      have := (bf61Encipher_eq_iff bfc).mp (hz.trans hz'.symm)
      omega
    refine ⟨bf61Encipher bfc (c + 1), c + 2, ?_, le_rfl⟩
    simp only [hf, handleAllocFrom, h1, h2, hz, hz', ↓reduceIte]
  · refine ⟨bf61Encipher bfc c, c + 1, ?_, by omega⟩
    simp only [hf, handleAllocFrom, h1, hz, ↓reduceIte]

theorem handleAllocs_succeeds (hc : c + 2 * n < 2 ^ 61) :
    ∃ hs c', handleAllocs bfc n c = .ok (hs, c') := by
  induction n generalizing c with
  | zero => exact ⟨[], c, rfl⟩
  | succ n ih =>
    obtain ⟨h, c₁, h1, hle⟩ := handleAlloc_succeeds bfc (c := c) (by omega)
    obtain ⟨hs, c₂, h2⟩ := ih (c := c₁) (by omega)
    exact ⟨h :: hs, c₂, by simp only [handleAllocs, h1, h2]⟩

/-- After `2 ^ 59 + 1` calls from counter 0 two of the handles are equal. -/
theorem handles_repeat : ∃ hs c', handleAllocs zeroCtx (2 ^ 59 + 1) 0 = .ok (hs, c') ∧ ¬ hs.Nodup := by
  obtain ⟨hs, c', hrun⟩ := handleAllocs_succeeds zeroCtx (n := 2 ^ 59 + 1) (c := 0) (by decide)
  refine ⟨hs, c', hrun, fun hnd ↦ ?_⟩
  obtain ⟨-, rfl, hlen, hlast⟩ := handleAllocs_ok zeroCtx hrun
  rw [List.length_map] at hlen
  rw [nodup_iff_window zeroCtx hlast, window_iff_length zeroCtx hlast, hlen] at hnd
  omega

end HiStar.Handle
