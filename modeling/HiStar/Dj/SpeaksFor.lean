import HiStar.Lib.Chain
import HiStar.Dj.Key

namespace HiStar.Dj

open Lib

/-- The keys that speak for a category by delegations of `D`, in the sense in
which the code compares keys and categories. -/
inductive Chain (D : DjDelegation → Prop) (g : DjGcat) : DjPubkey → Prop
  | creator {k : DjPubkey} (h : g.key.eq k = true) : Chain D g k
  | category {k a : DjPubkey} {d : DjDelegation} {c : DjGcat} (hd : D d) (ha : d.a = .pubkey a)
      (hk : a.eq k = true) (hvia : ∀ v, d.via = some v → Chain D g v) (hb : d.b = .gcat c)
      (hc : c.eq g = true) : Chain D g k
  | key {k a b : DjPubkey} {d : DjDelegation} (hd : D d) (ha : d.a = .pubkey a)
      (hk : a.eq k = true) (hvia : ∀ v, d.via = some v → Chain D g v) (hb : d.b = .pubkey b)
      (hrec : Chain D g b) : Chain D g k

def DjDelegationMap.Holds (dm : DjDelegationMap) (d : DjDelegation) : Prop := ∃ e ∈ dm.t, e.d = d

variable {dm : DjDelegationMap} {g : DjGcat} {k : DjPubkey} {n : Nat}

theorem keySpeaksFor_succ : keySpeaksFor dm g (n + 1) k = true ↔
    g.key.eq k = true ∨ ∃ e ∈ dm.t, e.pk.eq k = true ∧
      (∀ v, e.d.via = some v → keySpeaksFor dm g n v = true) ∧
      ((∃ c, e.d.b = .gcat c ∧ c.eq g = true) ∨
        ∃ b, e.d.b = .pubkey b ∧ keySpeaksFor dm g n b = true) := by
  simp only [keySpeaksFor, DjDelegationMap.entries, Bool.or_eq_true, List.any_eq_true,
    List.mem_filter, Bool.and_eq_true, and_assoc]
  refine or_congr_right (exists_congr fun e ↦ and_congr_right fun _ ↦ and_congr_right fun _ ↦
    and_congr ?_ ?_)
  · cases e.d.via <;> simp
  · cases e.d.b <;> simp

theorem keySpeaksFor_mono (h : keySpeaksFor dm g n k = true) :
    keySpeaksFor dm g (n + 1) k = true := by
  induction n generalizing k with
  | zero => exact keySpeaksFor_succ.mpr (.inl h)
  | succ n ih =>
    rw [keySpeaksFor_succ] at h ⊢
    rcases h with h | ⟨e, he, hk, hvia, hb⟩
    · exact .inl h
    · refine .inr ⟨e, he, hk, fun v hv ↦ ih (hvia v hv), hb.imp id ?_⟩
      rintro ⟨b, hb, hs⟩
      exact ⟨b, hb, ih hs⟩

theorem keySpeaksFor_le {m : Nat} (hmn : n ≤ m) (h : keySpeaksFor dm g n k = true) :
    keySpeaksFor dm g m k = true := by
  induction m, hmn using Nat.le_induction with
  | base => exact h
  | succ m _ ih => exact keySpeaksFor_mono ih

theorem Chain.of_keySpeaksFor (h : keySpeaksFor dm g n k = true) : Chain dm.Holds g k := by
  induction n generalizing k with
  | zero => exact .creator h
  | succ n ih =>
    rcases keySpeaksFor_succ.mp h with h | ⟨e, he, hk, hvia, ⟨c, hb, hc⟩ | ⟨b, hb, hs⟩⟩
    · exact .creator h
    · exact .category ⟨e, he, rfl⟩ e.a_eq hk (fun v hv ↦ ih (hvia v hv)) hb hc
    · exact .key ⟨e, he, rfl⟩ e.a_eq hk (fun v hv ↦ ih (hvia v hv)) hb (ih hs)

theorem Chain.keySpeaksFor (h : Chain dm.Holds g k) : ∃ n, keySpeaksFor dm g n k = true := by
  -- a via key need not be there; when it is not, any depth will do for it
  have hvia' : ∀ {d : DjDelegation}, (∀ v, d.via = some v → ∃ n, Dj.keySpeaksFor dm g n v = true) →
      ∃ n, ∀ v, d.via = some v → Dj.keySpeaksFor dm g n v = true := by
    intro d hd
    cases hv : d.via with
    | none => exact ⟨0, fun v hv ↦ by cases hv⟩
    | some v =>
      obtain ⟨n, hn⟩ := hd v hv
      exact ⟨n, fun w hw ↦ by cases hw; exact hn⟩
  induction h with
  | creator h => exact ⟨0, h⟩
  | category hd ha hk _ hb hc ihvia =>
    obtain ⟨e, he, rfl⟩ := hd
    obtain ⟨n, hn⟩ := hvia' ihvia
    cases e.a_eq.symm.trans ha
    exact ⟨n + 1, keySpeaksFor_succ.mpr (.inr ⟨e, he, hk, hn, .inl ⟨_, hb, hc⟩⟩)⟩
  | key hd ha hk _ hb _ ihvia ih =>
    obtain ⟨e, he, rfl⟩ := hd
    obtain ⟨n, hn⟩ := hvia' ihvia
    obtain ⟨m, hm⟩ := ih
    cases e.a_eq.symm.trans ha
    refine ⟨max n m + 1, keySpeaksFor_succ.mpr (.inr ⟨e, he, hk, fun v hv ↦ ?_, .inr ⟨_, hb, ?_⟩⟩)⟩
    · exact keySpeaksFor_le (Nat.le_max_left n m) (hn v hv)
    · exact keySpeaksFor_le (Nat.le_max_right n m) hm

def DjDelegationMap.subjects (dm : DjDelegationMap) : Finset DjPubkey := (dm.t.map (·.pk)).toFinset

def found (dm : DjDelegationMap) (g : DjGcat) (n : Nat) : Finset DjPubkey :=
  (insert g.key dm.subjects).filter fun k ↦ keySpeaksFor dm g n k

theorem mem_found : k ∈ found dm g n ↔ keySpeaksFor dm g n k = true := by
  simp only [found, Finset.mem_filter, and_iff_right_iff_imp, Finset.mem_insert]
  intro h
  have hself : g.key.eq k = true → k = g.key := fun h ↦ (DjPubkey.eq_iff.mp h).2.symm
  cases n with
  | zero => exact .inl (hself h)
  | succ n =>
    rcases keySpeaksFor_succ.mp h with h | ⟨e, he, hk, -⟩
    · exact .inl (hself h)
    · right
      rw [← (DjPubkey.eq_iff.mp hk).2]
      exact List.mem_toFinset.mpr (List.mem_map_of_mem he)

theorem found_growing (dm : DjDelegationMap) (g : DjGcat) : GrowingChain (found dm g) where
  mono n k hk := mem_found.mpr (keySpeaksFor_mono (mem_found.mp hk))
  settled n heq := by
    have hiff : ∀ k, keySpeaksFor dm g n k = true ↔ keySpeaksFor dm g (n + 1) k = true :=
      fun k ↦ by rw [← mem_found, ← mem_found, heq]
    ext k
    rw [mem_found, mem_found, keySpeaksFor_succ, keySpeaksFor_succ]
    simp only [hiff]

theorem found_subset (n : Nat) : found dm g n ⊆ dm.subjects ∪ found dm g 0 := by
  intro k hk
  rw [Finset.mem_union]
  rcases Finset.mem_insert.mp (Finset.mem_filter.mp hk).1 with rfl | hs
  · cases n with
    | zero => exact .inr hk
    | succ n =>
      rcases keySpeaksFor_succ.mp (mem_found.mp hk) with h | ⟨e, he, hpk, -⟩
      · exact .inr (mem_found.mpr h)
      · left
        rw [← (DjPubkey.eq_iff.mp hpk).2]
        exact List.mem_toFinset.mpr (List.mem_map_of_mem he)
  · exact .inl hs

/-- The number of delegations is depth enough: each further level would have to
find another key that has an entry. -/
theorem keySpeaksFor_iff_chain :
    keySpeaksFor dm g dm.t.length k = true ↔ Chain dm.Holds g k := by
  refine ⟨Chain.of_keySpeaksFor, fun h ↦ ?_⟩
  obtain ⟨n, hn⟩ := h.keySpeaksFor
  have hcard : (dm.subjects ∪ found dm g 0).card ≤ (found dm g 0).card + dm.t.length := by
    have h1 := Finset.card_union_le dm.subjects (found dm g 0)
    have h2 := List.toFinset_card_le (dm.t.map (·.pk))
    rw [List.length_map] at h2
    change dm.subjects.card ≤ _ at h2
    omega
  have hst := (found_growing dm g).stable found_subset hcard (n := max n dm.t.length)
    (Nat.le_max_right _ _)
  rw [← mem_found, ← hst, mem_found]
  exact keySpeaksFor_le (Nat.le_max_left _ _) hn

end HiStar.Dj
