import HiStar.Lib.Loop
import Mathlib.Logic.Function.Basic

namespace HiStar.Lib

open Function

variable {κ ν : Type} [DecidableEq κ]

/-- A slot of an open-addressing table; a tombstone is what a deletion leaves. -/
inductive Slot (κ ν : Type)
  | empty
  | tomb
  | entry (key : κ) (val : ν)
  deriving DecidableEq

namespace Slot

def holds (k : κ) : Slot κ ν → Bool
  | entry key _ => key = k
  | _ => false

def isEmpty : Slot κ ν → Bool
  | empty => true
  | _ => false

def isFree : Slot κ ν → Bool
  | entry _ _ => false
  | _ => true

def pair? : Slot κ ν → Option (κ × ν)
  | entry k v => some (k, v)
  | _ => none

theorem holds_iff {k : κ} {s : Slot κ ν} : s.holds k = true ↔ ∃ v, s = entry k v := by
  cases s <;> simp [holds]

omit [DecidableEq κ] in
theorem pair?_eq_some {k : κ} {v : ν} {s : Slot κ ν} : s.pair? = some (k, v) ↔ s = entry k v := by
  cases s <;> simp [pair?]

omit [DecidableEq κ] in
@[simp] theorem isEmpty_iff {s : Slot κ ν} : s.isEmpty = true ↔ s = empty := by
  cases s <;> simp [isEmpty]

end Slot

structure Probing (κ : Type) where
  capacity : Nat
  probe : κ → Nat → Nat
  probe_lt : ∀ k i, i < capacity → probe k i < capacity

namespace Probing

variable (P : Probing κ) {s s' : Nat → Slot κ ν} {k k' : κ} {v w : ν}

def seek (s : Nat → Slot κ ν) (k : κ) : Option Nat :=
  findFrom (fun i ↦ (s (P.probe k i)).isEmpty || (s (P.probe k i)).holds k) 0 P.capacity

def get? (s : Nat → Slot κ ν) (k : κ) : Option ν :=
  (P.seek s k).bind fun i ↦ ((s (P.probe k i)).pair?).map Prod.snd

/-- The round that finds a place for `k`: the first slot that is free or has it. -/
def place (s : Nat → Slot κ ν) (k : κ) : Option Nat :=
  findFrom (fun i ↦ (s (P.probe k i)).isFree || (s (P.probe k i)).holds k) 0 P.capacity

def put (s : Nat → Slot κ ν) (k : κ) (v : ν) : Option (Nat → Slot κ ν) :=
  (P.place s k).map fun i ↦ update s (P.probe k i) (.entry k v)

def erase (s : Nat → Slot κ ν) (k : κ) : Option (Nat → Slot κ ν) :=
  (P.seek s k).bind fun i ↦
    if (s (P.probe k i)).holds k then some (update s (P.probe k i) .tomb) else none

def entries (s : Nat → Slot κ ν) : List (κ × ν) :=
  (List.range P.capacity).filterMap fun p ↦ (s p).pair?

def live (s : Nat → Slot κ ν) : Nat := (P.entries s).length

structure Ok (s : Nat → Slot κ ν) : Prop where
  reach : ∀ p k v, p < P.capacity → s p = .entry k v →
    ∃ i < P.capacity, P.probe k i = p ∧ ∀ j < i, s (P.probe k j) ≠ .empty
  unique : ∀ p q k v w, p < P.capacity → q < P.capacity → s p = .entry k v → s q = .entry k w → p = q

def Clear (s : Nat → Slot κ ν) (k : κ) : Prop :=
  ∀ i, P.seek s k = some i → (s (P.probe k i)).holds k = true →
    ∀ j < i, s (P.probe k j) ≠ .tomb

variable {P}

theorem seek_some {i : Nat} (h : P.seek s k = some i) : i < P.capacity ∧
    (s (P.probe k i) = .empty ∨ ∃ v, s (P.probe k i) = .entry k v) ∧
    ∀ j < i, s (P.probe k j) ≠ .empty ∧ (s (P.probe k j)).holds k = false := by
  obtain ⟨-, hlt, hp, hbefore⟩ := findFrom_some h
  refine ⟨by omega, ?_, fun j hj ↦ ?_⟩
  · simpa [Slot.holds_iff] using hp
  · have := hbefore j (Nat.zero_le j) hj
    simpa [← Slot.isEmpty_iff] using this

theorem seek_of_entry (hs : P.Ok s) {p : Nat} (hp : p < P.capacity) (he : s p = .entry k v) :
    ∃ i, P.seek s k = some i ∧ P.probe k i = p := by
  obtain ⟨i, hi, hip, hbefore⟩ := hs.reach p k v hp he
  rcases h : P.seek s k with _ | j
  · have := findFrom_none h i (Nat.zero_le i) (by omega)
    simp [hip, he, Slot.holds] at this
  · refine ⟨j, rfl, ?_⟩
    obtain ⟨hj, hend, hfirst⟩ := seek_some h
    have hji : j ≤ i := by
      by_contra hlt
      have := (hfirst i (by omega)).2
      simp [hip, he, Slot.holds] at this
    rcases hend with hempty | ⟨w, hw⟩
    · rcases Nat.lt_or_eq_of_le hji with hlt | rfl
      · exact absurd hempty (hbefore j hlt)
      · rw [hip, he] at hempty
        cases hempty
    · exact hs.unique _ _ k w v (P.probe_lt k j hj) hp hw he

theorem get?_eq_some (hs : P.Ok s) :
    P.get? s k = some v ↔ ∃ p < P.capacity, s p = .entry k v := by
  constructor
  · intro h
    obtain ⟨i, hi, hv⟩ := Option.bind_eq_some_iff.mp h
    obtain ⟨hlt, hend, -⟩ := seek_some hi
    refine ⟨P.probe k i, P.probe_lt k i hlt, ?_⟩
    rcases hend with he | ⟨w, he⟩ <;> rw [he] at hv
    · simp [Slot.pair?] at hv
    · simpa [Slot.pair?, he] using hv
  · rintro ⟨p, hp, he⟩
    obtain ⟨i, hi, rfl⟩ := seek_of_entry hs hp he
    simp [get?, hi, he, Slot.pair?]

omit [DecidableEq κ] in
theorem mem_entries : (k, v) ∈ P.entries s ↔ ∃ p < P.capacity, s p = .entry k v := by
  simp [entries, Slot.pair?_eq_some]

theorem get?_eq_some_iff_mem (hs : P.Ok s) : P.get? s k = some v ↔ (k, v) ∈ P.entries s := by
  rw [get?_eq_some hs, mem_entries]

omit [DecidableEq κ] in
theorem nodup_entries (hs : P.Ok s) : ((P.entries s).map Prod.fst).Nodup := by
  rw [entries, List.map_filterMap, List.Nodup, List.pairwise_filterMap]
  refine List.nodup_range.imp_of_mem fun {p q} hp hq hne k hk k' hk' ↦ ?_
  simp only [Option.map_eq_some_iff, Prod.exists, exists_and_right, exists_eq_right,
    Slot.pair?_eq_some] at hk hk'
  obtain ⟨v, hv⟩ := hk
  obtain ⟨w, hw⟩ := hk'
  rintro rfl
  exact hne (hs.unique p q k v w (List.mem_range.mp hp) (List.mem_range.mp hq) hv hw)

omit [DecidableEq κ] in
theorem ok_empty : P.Ok (fun _ ↦ (.empty : Slot κ ν)) :=
  ⟨fun _ _ _ _ h ↦ absurd h (by simp), fun _ _ _ _ _ _ _ h ↦ absurd h (by simp)⟩

omit [DecidableEq κ] in
theorem entries_empty : P.entries (fun _ ↦ (.empty : Slot κ ν)) = [] := by
  simp [entries, Slot.pair?]

theorem place_some (hs : P.Ok s) (hc : P.Clear s k) {i : Nat} (h : P.place s k = some i) :
    i < P.capacity ∧ (∀ j < i, s (P.probe k j) ≠ .empty) ∧
      ((∃ v, s (P.probe k i) = .entry k v) ∨
        (s (P.probe k i)).isFree = true ∧ ∀ p < P.capacity, ∀ v, s p ≠ .entry k v) := by
  obtain ⟨-, hlt, hp, hbefore⟩ := findFrom_some h
  have hne : ∀ j < i, (s (P.probe k j)).isFree = false ∧ (s (P.probe k j)).holds k = false := by
    intro j hj
    simpa using hbefore j (Nat.zero_le j) hj
  refine ⟨by omega, fun j hj he ↦ ?_, ?_⟩
  · have := (hne j hj).1
    simp [he, Slot.isFree] at this
  · simp only [Bool.or_eq_true, Slot.holds_iff] at hp
    rcases hp with hfree | hv
    · refine .inr ⟨hfree, fun p hp v he ↦ ?_⟩
      obtain ⟨j, hj, rfl⟩ := seek_of_entry hs hp he
      obtain ⟨hjlt, -, hfirst⟩ := seek_some hj
      have hij : i < j := by
        rcases Nat.lt_trichotomy i j with hlt | rfl | hlt
        · exact hlt
        · simp [he, Slot.isFree] at hfree
        · have := (hne j hlt).2
          simp [he, Slot.holds] at this
      cases hsi : s (P.probe k i) with
      | empty => exact (hfirst i hij).1 hsi
      | tomb => exact hc j hj (by simp [he, Slot.holds]) i hij hsi
      | entry k' v' => simp [hsi, Slot.isFree] at hfree
    · exact .inl hv

omit [DecidableEq κ] in
theorem Ok.update_entry (hs : P.Ok s) {i : Nat} (hi : i < P.capacity)
    (hbefore : ∀ j < i, s (P.probe k j) ≠ .empty)
    (hat : (∃ v, s (P.probe k i) = .entry k v) ∨
      (s (P.probe k i)).isFree = true ∧ ∀ p < P.capacity, ∀ v, s p ≠ .entry k v) :
    P.Ok (update s (P.probe k i) (.entry k v)) := by
  have hnone : ∀ q, q < P.capacity → q ≠ P.probe k i → ∀ w, s q ≠ .entry k w := by
    intro q hq hqi w hw
    rcases hat with ⟨u, hu⟩ | ⟨-, hno⟩
    · exact hqi (hs.unique _ _ k w u hq (P.probe_lt k i hi) hw hu)
    · exact hno q hq w hw
  refine ⟨fun p k' v' hp he ↦ ?_, fun p q k' v' w hp hq hpe hqe ↦ ?_⟩
  · have hmono : ∀ a, s a ≠ .empty → update s (P.probe k i) (.entry k v) a ≠ .empty := by
      intro a ha
      by_cases hai : a = P.probe k i
      · simp [hai]
      · simpa [hai] using ha
    by_cases hpi : p = P.probe k i
    · subst hpi
      simp only [update_self, Slot.entry.injEq] at he
      obtain ⟨rfl, -⟩ := he
      exact ⟨i, hi, rfl, fun j hj ↦ hmono _ (hbefore j hj)⟩
    · rw [update_of_ne hpi] at he
      obtain ⟨j, hj, hjp, hb⟩ := hs.reach p k' v' hp he
      exact ⟨j, hj, hjp, fun a ha ↦ hmono _ (hb a ha)⟩
  · by_cases hpi : p = P.probe k i <;> by_cases hqi : q = P.probe k i
    · rw [hpi, hqi]
    · simp only [hpi, update_self, Slot.entry.injEq] at hpe
      rw [update_of_ne hqi, ← hpe.1] at hqe
      exact absurd hqe (hnone q hq hqi w)
    · simp only [hqi, update_self, Slot.entry.injEq] at hqe
      rw [update_of_ne hpi, ← hqe.1] at hpe
      exact absurd hpe (hnone p hp hpi v')
    · rw [update_of_ne hpi] at hpe
      rw [update_of_ne hqi] at hqe
      exact hs.unique p q k' v' w hp hq hpe hqe

theorem put_ok (hs : P.Ok s) (hc : P.Clear s k) (h : P.put s k v = some s') :
    P.Ok s' ∧ ∀ k', P.get? s' k' = if k' = k then some v else P.get? s k' := by
  obtain ⟨i, hplace, rfl⟩ := Option.map_eq_some_iff.mp h
  obtain ⟨hi, hbefore, hat⟩ := place_some hs hc hplace
  have hok := hs.update_entry (v := v) hi hbefore hat
  refine ⟨hok, fun k' ↦ Option.ext fun w ↦ ?_⟩
  rw [get?_eq_some hok]
  by_cases hk : k' = k
  · subst hk
    simp only [if_true, Option.some.injEq]
    constructor
    · rintro ⟨p, hp, he⟩
      have := hok.unique p (P.probe k' i) k' w v hp (P.probe_lt k' i hi) he (by simp)
      simpa [this] using he
    · rintro rfl
      exact ⟨_, P.probe_lt k' i hi, by simp⟩
  · rw [if_neg hk, get?_eq_some hs]
    refine exists_congr fun p ↦ and_congr_right fun hp ↦ ?_
    by_cases hpi : p = P.probe k i
    · subst hpi
      rw [update_self]
      refine ⟨fun he ↦ absurd (Slot.entry.inj he).1.symm hk, fun he ↦ ?_⟩
      rcases hat with ⟨u, hu⟩ | ⟨hfree, -⟩
      · rw [hu] at he
        exact absurd (Slot.entry.inj he).1.symm hk
      · simp [he, Slot.isFree] at hfree
    · rw [update_of_ne hpi]

theorem erase_ok (hs : P.Ok s) (h : P.erase s k = some s') :
    P.Ok s' ∧ ∀ k', P.get? s' k' = if k' = k then none else P.get? s k' := by
  obtain ⟨i, hseek, hif⟩ := Option.bind_eq_some_iff.mp h
  obtain ⟨hi, -, -⟩ := seek_some hseek
  simp only [Option.ite_none_right_eq_some, Slot.holds_iff, Option.some.injEq] at hif
  obtain ⟨⟨v, hv⟩, rfl⟩ := hif
  have hmem : ∀ p k' w, update s (P.probe k i) .tomb p = .entry k' w →
      p ≠ P.probe k i ∧ s p = .entry k' w := by
    intro p k' w he
    by_cases hpi : p = P.probe k i
    · simp [hpi] at he
    · exact ⟨hpi, by simpa [hpi] using he⟩
  have hok : P.Ok (update s (P.probe k i) (.tomb : Slot κ ν)) := by
    refine ⟨fun p k' w hp he ↦ ?_, fun p q k' w u hp hq hpe hqe ↦
      hs.unique p q k' w u hp hq (hmem p k' w hpe).2 (hmem q k' u hqe).2⟩
    obtain ⟨j, hj, hjp, hb⟩ := hs.reach p k' w hp (hmem p k' w he).2
    refine ⟨j, hj, hjp, fun a ha ↦ ?_⟩
    by_cases hai : P.probe k' a = P.probe k i
    · simp [hai]
    · simpa [hai] using hb a ha
  refine ⟨hok, fun k' ↦ Option.ext fun w ↦ ?_⟩
  rw [get?_eq_some hok]
  by_cases hk : k' = k
  · subst hk
    simp only [if_true, reduceCtorEq, iff_false]
    rintro ⟨p, hp, he⟩
    obtain ⟨hne, he⟩ := hmem p k' w he
    exact hne (hs.unique p _ k' w v hp (P.probe_lt k' i hi) he hv)
  · rw [if_neg hk, get?_eq_some hs]
    refine exists_congr fun p ↦ and_congr_right fun hp ↦ ⟨fun he ↦ (hmem p k' w he).2, fun he ↦ ?_⟩
    rw [update_of_ne, he]
    rintro rfl
    rw [hv] at he
    exact hk (Slot.entry.inj he).1.symm

theorem erase_eq_none (hs : P.Ok s) (h : P.erase s k = none) : P.get? s k = none := by
  refine Option.eq_none_iff_forall_ne_some.mpr fun v hv ↦ ?_
  obtain ⟨p, hp, he⟩ := (get?_eq_some hs).mp hv
  obtain ⟨i, hi, rfl⟩ := seek_of_entry hs hp he
  simp [erase, hi, he, Slot.holds] at h

omit [DecidableEq κ] in
theorem live_eq_sum : P.live s = ∑ p ∈ Finset.range P.capacity, (s p).pair?.isSome.toNat := by
  have h : ∀ n, ((List.range n).filterMap fun p ↦ (s p).pair?).length =
      ∑ p ∈ Finset.range n, (s p).pair?.isSome.toNat := by
    intro n
    induction n with
    | zero => rfl
    | succ n ih =>
      rw [List.range_succ, List.filterMap_append, List.length_append, ih, Finset.sum_range_succ]
      cases h : (s n).pair? <;> simp [h]
  exact h P.capacity

omit [DecidableEq κ] in
theorem live_update {p : Nat} (hp : p < P.capacity) (x : Slot κ ν) :
    P.live (update s p x) + (s p).pair?.isSome.toNat = P.live s + x.pair?.isSome.toNat := by
  have hmem : p ∈ Finset.range P.capacity := Finset.mem_range.mpr hp
  have hrest : ∑ q ∈ Finset.range P.capacity \ {p}, (update s p x q).pair?.isSome.toNat =
      ∑ q ∈ Finset.range P.capacity \ {p}, (s q).pair?.isSome.toNat := by
    refine Finset.sum_congr rfl fun q hq ↦ ?_
    have hqp : q ≠ p := by simpa using (Finset.mem_sdiff.mp hq).2
    rw [update_of_ne hqp]
  rw [live_eq_sum, live_eq_sum, Finset.sum_eq_add_sum_sdiff_singleton_of_mem hmem,
    Finset.sum_eq_add_sum_sdiff_singleton_of_mem hmem (fun q ↦ (s q).pair?.isSome.toNat), hrest,
    update_self]
  omega

theorem live_put {i : Nat} (h : P.place s k = some i) :
    P.live (update s (P.probe k i) (.entry k v)) =
      P.live s + (if (s (P.probe k i)).holds k then 0 else 1) := by
  obtain ⟨-, hlt, hp, -⟩ := findFrom_some h
  have hl := live_update (P := P) (s := s) (P.probe_lt k i (by omega)) (.entry k v)
  cases hs : s (P.probe k i) with
  | entry key w => simp_all [Slot.pair?, Slot.holds, Slot.isFree]
  | empty => simpa [hs, Slot.pair?, Slot.holds] using hl
  | tomb => simpa [hs, Slot.pair?, Slot.holds] using hl

theorem live_erase (h : P.erase s k = some s') : P.live s' + 1 = P.live s := by
  obtain ⟨i, hseek, hif⟩ := Option.bind_eq_some_iff.mp h
  obtain ⟨hi, -, -⟩ := seek_some hseek
  simp only [Option.ite_none_right_eq_some, Slot.holds_iff, Option.some.injEq] at hif
  obtain ⟨⟨v, hv⟩, rfl⟩ := hif
  have hl := live_update (P := P) (s := s) (P.probe_lt k i hi) .tomb
  simpa [hv, Slot.pair?] using hl

theorem Clear.put (hs : P.Ok s) (hk : k' ≠ k) (hc : P.Clear s k') (h : P.put s k v = some s') :
    P.Clear s' k' := by
  obtain ⟨a, -, rfl⟩ := Option.map_eq_some_iff.mp h
  intro i hi hholds j hj htomb
  obtain ⟨hlt, -, hfirst⟩ := seek_some hi
  have hold : ∀ q w, update s (P.probe k a) (.entry k v) q = .entry k' w → s q = .entry k' w := by
    intro q w hq
    by_cases hqa : q = P.probe k a
    · simp [hqa, Ne.symm hk] at hq
    · simpa [hqa] using hq
  obtain ⟨w, hw⟩ := Slot.holds_iff.mp hholds
  obtain ⟨b, hb, hbp⟩ := seek_of_entry hs (P.probe_lt k' i hlt) (hold _ _ hw)
  -- the search ended at the same round before
  obtain rfl : b = i := by
    rcases Nat.lt_trichotomy b i with hbi | hbi | hbi
    · have := (hfirst b hbi).2
      simp [hbp, hw, Slot.holds] at this
    · exact hbi
    · have := ((seek_some hb).2.2 i hbi).2
      simp [hold _ _ hw, Slot.holds] at this
  refine hc b hb (by simp [hold _ _ hw, Slot.holds]) j hj ?_
  by_cases hja : P.probe k' j = P.probe k a
  · simp [hja] at htomb
  · simpa [hja] using htomb

theorem exists_place (hcover : ∀ p < P.capacity, ∃ i < P.capacity, P.probe k i = p)
    (hlive : P.live s < P.capacity) : ∃ i, P.place s k = some i := by
  obtain ⟨p, hp, hfree⟩ : ∃ p < P.capacity, (s p).isFree = true := by
    by_contra hnone
    push Not at hnone
    have hall : ∀ p ∈ Finset.range P.capacity, (s p).pair?.isSome.toNat = 1 := by
      intro p hp
      have := hnone p (Finset.mem_range.mp hp)
      cases h : s p <;> simp_all [Slot.isFree, Slot.pair?]
    rw [live_eq_sum, Finset.sum_congr rfl hall] at hlive
    simp at hlive
  obtain ⟨i, hi, rfl⟩ := hcover p hp
  rcases h : P.place s k with _ | j
  · have := findFrom_none h i (Nat.zero_le i) (by omega)
    simp [hfree] at this
  · exact ⟨j, rfl⟩

end Probing

end HiStar.Lib
