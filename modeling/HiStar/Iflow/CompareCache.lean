import HiStar.Iflow.Mediation
import HiStar.Iflow.SlotIndex

namespace HiStar.Iflow

open Lib Function

/-- The words from `compare_cache` on, by index, of which the array has those
from 0 to 15, and the counter. -/
structure CompareCache where
  ent : Int → Option CompareCacheEnt
  next : Int

def CompareCache.boot : CompareCache := ⟨fun _ ↦ none, 0⟩

structure CompareCall where
  lhs : Nat
  rhs : Nat
  l1 : Label
  l2 : Label
  cmp : LevelComparator
  cacheable : Bool

def CompareCall.uncached (call : CompareCall) : Except Errno Unit :=
  labelCompareAll call.l1 call.l2 call.cmp

def CompareCall.key (call : CompareCall) : CompareCacheEnt := ⟨call.lhs, call.rhs, call.cmp⟩

structure Compared where
  ret : Except Errno Unit
  write : Option Int
  cache : CompareCache

namespace CompareCache

def has (c : CompareCache) (e : CompareCacheEnt) : Bool :=
  (findFrom (fun i ↦ c.ent i = some e) 0 compareCacheSize).isSome

def compare (c : CompareCache) (call : CompareCall) : Compared :=
  if call.cacheable && c.has call.key then ⟨.ok (), none, c⟩
  else
    match call.uncached with
    | .error e => ⟨.error e, none, c⟩
    | .ok () =>
      if call.cacheable then
        let cacheSlot := c.next.tmod compareCacheSize
        ⟨.ok (), some cacheSlot, ⟨update c.ent cacheSlot (some call.key), int32Succ c.next⟩⟩
      else ⟨.ok (), none, c⟩

def compareId (c : CompareCache) (lhs rhs : Nat) (get1 get2 : Except Errno Label)
    (cmp : LevelComparator) : Compared :=
  if c.has ⟨lhs, rhs, cmp⟩ then ⟨.ok (), none, c⟩
  else
    match get1, get2 with
    | .ok l1, .ok l2 => c.compare ⟨lhs, rhs, l1, l2, cmp, true⟩
    | .error e, _ => ⟨.error e, none, c⟩
    | .ok _, .error e => ⟨.error e, none, c⟩

theorem compareId_eq (c : CompareCache) (lhs rhs : Nat) (l1 l2 : Label) (cmp : LevelComparator) :
    c.compareId lhs rhs (.ok l1) (.ok l2) cmp = c.compare ⟨lhs, rhs, l1, l2, cmp, true⟩ := by
  unfold compareId
  split
  next hc => simp [compare, CompareCall.key, hc]
  next => rfl

def after (c : CompareCache) (calls : List CompareCall) : CompareCache :=
  calls.foldl (fun c call ↦ (c.compare call).cache) c

theorem after_append (c : CompareCache) (calls : List CompareCall) (call : CompareCall) :
    c.after (calls ++ [call]) = ((c.after calls).compare call).cache := by
  simp [after]

theorem compare_cases (c : CompareCache) (call : CompareCall) :
    (call.cacheable = true ∧ c.has call.key = true ∧ c.compare call = ⟨.ok (), none, c⟩) ∨
    (call.cacheable = true ∧ call.uncached = .ok () ∧ c.compare call =
      ⟨.ok (), some (c.next.tmod compareCacheSize),
        ⟨update c.ent (c.next.tmod compareCacheSize) (some call.key), int32Succ c.next⟩⟩) ∨
    c.compare call = ⟨call.uncached, none, c⟩ := by
  unfold compare
  by_cases hit : (call.cacheable && c.has call.key) = true
  · rw [if_pos hit]
    exact .inl ⟨(Bool.and_eq_true_iff.mp hit).1, (Bool.and_eq_true_iff.mp hit).2, rfl⟩
  · rw [if_neg hit]
    cases hu : call.uncached with
    | error e => exact .inr (.inr rfl)
    | ok u =>
      by_cases hc : call.cacheable = true
      · exact .inr (.inl ⟨hc, rfl, by simp only [hc, ↓reduceIte]⟩)
      · exact .inr (.inr (by simp only [hc]; rfl))

end CompareCache

def CompareCall.Shows (call : CompareCall) (id : Nat) (l : Label) : Prop :=
  (id = call.lhs ∧ l = call.l1) ∨ (id = call.rhs ∧ l = call.l2)

/-- Labels are not modified after a cacheable comparison, and their ids are not
used again. -/
def Unmodified (calls : List CompareCall) : Prop :=
  calls.Pairwise fun a b ↦ a.cacheable = true →
    ∀ id l l', a.Shows id l → b.Shows id l' → l = l'

theorem toInt32_succ (n : Nat) : int32Succ (toInt32 n) = toInt32 (n + 1) := by
  unfold int32Succ toInt32
  split_ifs <;> omega

/-- The cache after a sequence of calls: each entry is a comparison that one of
them made, and the counter has been incremented at most once per cacheable
call. -/
structure CompareCache.Follows (calls : List CompareCall) (c : CompareCache) : Prop where
  ent : ∀ i e, c.ent i = some e → ∃ a ∈ calls, a.cacheable = true ∧ a.key = e ∧ a.uncached = .ok ()
  next : ∃ k, k ≤ calls.countP (·.cacheable) ∧ c.next = toInt32 k

theorem CompareCache.follows_boot : CompareCache.boot.Follows [] :=
  ⟨fun _ _ h ↦ (by cases h), 0, le_rfl, rfl⟩

variable {calls : List CompareCall} {c : CompareCache}

theorem CompareCache.Follows.compare
    (h : c.Follows calls) (call : CompareCall) : (c.compare call).cache.Follows (calls ++ [call]) := by
  have hent : ∀ i e, c.ent i = some e →
      ∃ a ∈ calls ++ [call], a.cacheable = true ∧ a.key = e ∧ a.uncached = .ok () := by
    intro i e he
    obtain ⟨a, ha, hrest⟩ := h.ent i e he
    exact ⟨a, List.mem_append_left _ ha, hrest⟩
  obtain ⟨k, hk, hnext⟩ := h.next
  have hsame : c.Follows (calls ++ [call]) :=
    ⟨hent, k, hk.trans (by simp [List.countP_append]), hnext⟩
  rcases c.compare_cases call with ⟨-, -, heq⟩ | ⟨hc, hu, heq⟩ | heq
  · rw [heq]
    exact hsame
  · rw [heq]
    refine ⟨fun i e he ↦ ?_, k + 1, ?_, ?_⟩
    · simp only [update_apply] at he
      split at he
      · cases he
        exact ⟨call, by simp, hc, rfl, hu⟩
      · exact hent i e he
    · simpa [List.countP_append, hc] using hk
    · simp only [hnext, toInt32_succ]
  · rw [heq]
    exact hsame

theorem CompareCache.follows_after (calls : List CompareCall) :
    (CompareCache.boot.after calls).Follows calls := by
  induction calls using List.reverseRecOn with
  | nil => exact follows_boot
  | append_singleton calls call ih =>
    rw [after_append]
    exact ih.compare call

theorem CompareCache.Follows.hit {call : CompareCall}
    (h : c.Follows calls) (hun : Unmodified (calls ++ [call])) (hit : c.has call.key = true) :
    call.uncached = .ok () := by
  obtain ⟨i, hi⟩ := Option.isSome_iff_exists.mp hit
  obtain ⟨-, -, hi, -⟩ := findFrom_some hi
  obtain ⟨a, ha, hc, hkey, hu⟩ := h.ent i _ (of_decide_eq_true hi)
  have hpair := (List.pairwise_append.mp hun).2.2 a ha call (List.mem_singleton_self _) hc
  obtain ⟨hl, hr, hcmp⟩ : a.lhs = call.lhs ∧ a.rhs = call.rhs ∧ a.cmp = call.cmp := by
    simpa [CompareCall.key] using hkey
  have h1 : a.l1 = call.l1 := hpair a.lhs _ _ (.inl ⟨rfl, rfl⟩) (.inl ⟨hl, rfl⟩)
  have h2 : a.l2 = call.l2 := hpair a.rhs _ _ (.inr ⟨rfl, rfl⟩) (.inr ⟨hr, rfl⟩)
  rwa [CompareCall.uncached, h1, h2, hcmp] at hu

theorem tmod_in_range (n : Int) : (0 ≤ n.tmod 16 ∧ n.tmod 16 < 16) ↔ 0 ≤ n ∨ 16 ∣ n := by
  rcases le_or_gt 0 n with hn | hn
  · rw [Int.tmod_eq_emod_of_nonneg hn]
    omega
  · obtain ⟨m, rfl⟩ : ∃ m, n = -m := ⟨-n, (neg_neg n).symm⟩
    rw [Int.neg_tmod, Int.tmod_eq_emod_of_nonneg (by omega)]
    omega

/-- Every call of a sequence of any length returns what the comparison without
a cache returns. An entry is written inside the array exactly when the counter
is not negative, or a multiple of the size, before the call; it is not
negative during the first `2 ^ 31` cacheable calls. -/
theorem compare_cache_transparent {calls : List CompareCall} {call : CompareCall}
    (hun : Unmodified (calls ++ [call])) :
    ((CompareCache.boot.after calls).compare call).ret = call.uncached ∧
    (∀ i, ((CompareCache.boot.after calls).compare call).write = some i →
      ((0 ≤ i ∧ i < compareCacheSize) ↔
        0 ≤ (CompareCache.boot.after calls).next ∨ 16 ∣ (CompareCache.boot.after calls).next)) ∧
    (calls.countP (·.cacheable) < 2 ^ 31 → 0 ≤ (CompareCache.boot.after calls).next) := by
  have hf := CompareCache.follows_after calls
  generalize CompareCache.boot.after calls = c at hf ⊢
  have hcount : calls.countP (·.cacheable) < 2 ^ 31 → 0 ≤ c.next := by
    intro hlt
    obtain ⟨k, hk, hnext⟩ := hf.next
    rw [hnext, toInt32_of_lt (hk.trans_lt hlt)]
    exact Int.natCast_nonneg k
  rcases c.compare_cases call with ⟨hc, hit, heq⟩ | ⟨hc, hu, heq⟩ | heq
  · rw [heq]
    exact ⟨(hf.hit hun hit).symm, fun i hi ↦ (by cases hi), hcount⟩
  · rw [heq]
    refine ⟨hu.symm, fun i hi ↦ ?_, hcount⟩
    obtain rfl := Option.some.inj hi
    exact tmod_in_range c.next
  · rw [heq]
    exact ⟨rfl, fun i hi ↦ (by cases hi), hcount⟩

def selfCompare (id : Nat) : CompareCall := ⟨id, id, labelAlloc 1, labelAlloc 1, .starlo, true⟩

theorem selfCompare_uncached (id : Nat) : (selfCompare id).uncached = .ok () := rfl

theorem unmodified_selfCompare (ids : List Nat) : Unmodified (ids.map selfCompare) := by
  refine List.pairwise_map.mpr (List.pairwise_of_forall fun a b _ id l l' hl hl' ↦ ?_)
  rcases hl with ⟨-, rfl⟩ | ⟨-, rfl⟩ <;> rcases hl' with ⟨-, rfl⟩ | ⟨-, rfl⟩ <;> rfl

theorem compare_cache_transparent_hit :
    ((CompareCache.boot.after ([1, 2].map selfCompare)).compare (selfCompare 1)).ret =
      (selfCompare 1).uncached ∧
    (∀ i, ((CompareCache.boot.after ([1, 2].map selfCompare)).compare (selfCompare 1)).write =
        some i → ((0 ≤ i ∧ i < compareCacheSize) ↔
          0 ≤ (CompareCache.boot.after ([1, 2].map selfCompare)).next ∨
          16 ∣ (CompareCache.boot.after ([1, 2].map selfCompare)).next)) ∧
    (([1, 2].map selfCompare).countP (·.cacheable) < 2 ^ 31 →
      0 ≤ (CompareCache.boot.after ([1, 2].map selfCompare)).next) :=
  compare_cache_transparent (unmodified_selfCompare [1, 2, 1])

theorem CompareCache.Follows.miss {id : Nat}
    (h : c.Follows calls) (hnew : ∀ a ∈ calls, a.lhs ≠ id) :
    c.compare (selfCompare id) = ⟨.ok (), some (c.next.tmod compareCacheSize),
      ⟨update c.ent (c.next.tmod compareCacheSize) (some (selfCompare id).key), int32Succ c.next⟩⟩ := by
  have hmiss : c.has (selfCompare id).key = false := by
    by_contra hit
    obtain ⟨i, hi⟩ := Option.isSome_iff_exists.mp (Bool.not_eq_false _ ▸ hit)
    obtain ⟨-, -, hi, -⟩ := findFrom_some hi
    obtain ⟨a, ha, -, hkey, -⟩ := h.ent i _ (of_decide_eq_true hi)
    exact hnew a ha (congrArg CompareCacheEnt.lhs hkey)
  simp only [CompareCache.compare, hmiss, Bool.and_false, Bool.false_eq_true, ↓reduceIte,
    selfCompare_uncached]
  rfl

theorem selfCompare_fresh (n : Nat) : ∀ a ∈ (List.range n).map selfCompare, a.lhs ≠ n := by
  intro a ha
  obtain ⟨m, hm, rfl⟩ := List.mem_map.mp ha
  exact (List.mem_range.mp hm).ne

theorem next_after_selfCompare (n : Nat) :
    (CompareCache.boot.after ((List.range n).map selfCompare)).next = toInt32 n := by
  induction n with
  | zero => rfl
  | succ n ih =>
    rw [List.range_succ, List.map_append, List.map_singleton, CompareCache.after_append,
      (CompareCache.follows_after _).miss (selfCompare_fresh n)]
    simp only [ih, toInt32_succ]

/-- The counter overflows: a later call writes before the array. -/
theorem compare_cache_written_outside : ∃ calls call, Unmodified (calls ++ [call]) ∧
    ((CompareCache.boot.after calls).compare call).write = some (-15) := by
  refine ⟨(List.range (2 ^ 31 + 1)).map selfCompare, selfCompare (2 ^ 31 + 1), ?_, ?_⟩
  · rw [← List.map_singleton, ← List.map_append]
    exact unmodified_selfCompare _
  · rw [(CompareCache.follows_after _).miss (selfCompare_fresh _), next_after_selfCompare]
    rfl

end HiStar.Iflow
