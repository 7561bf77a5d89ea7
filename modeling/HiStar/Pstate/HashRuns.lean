import HiStar.Pstate.HashTable

namespace HiStar.Pstate

open Lib Function

structure HashIter where
  hiIndex : Nat
  hiKey : Nat
  hiVal : Nat

def hashiterInit : HashIter := ⟨0, 0, 0⟩

namespace HashTable

variable {t t' : HashTable} {key val : Nat}

def hashiterNext (t : HashTable) (iter : HashIter) : Option HashIter := do
  let i ← findFrom (fun i ↦ (t.slot i).pair?.isSome) iter.hiIndex (t.capacity - iter.hiIndex)
  let (key, val) ← (t.slot i).pair?
  pure ⟨i + 1, key, val⟩

/-- The entries that calls of `hashiter_next` return until it returns 0, with a bound on their
number. -/
def hashiterRest (t : HashTable) : Nat → HashIter → List (Nat × Nat)
  | 0, _ => []
  | n + 1, iter =>
    match t.hashiterNext iter with
    | none => []
    | some iter => (iter.hiKey, iter.hiVal) :: t.hashiterRest n iter

theorem hashiterRest_eq (t : HashTable) {n i key val : Nat} (hn : t.capacity < i + n) :
    t.hashiterRest n ⟨i, key, val⟩ =
      (List.range' i (t.capacity - i)).filterMap fun p ↦ (t.slot p).pair? := by
  induction n generalizing i key val with
  | zero =>
    rw [Nat.sub_eq_zero_of_le (by omega)]
    rfl
  | succ n ih =>
    have hskip : ∀ d j, j + d = t.capacity → (∀ p, j ≤ p → p < j + d →
        ((t.slot p).pair?.isSome) = false) →
        ((List.range' j d).filterMap fun p ↦ (t.slot p).pair?) = [] := by
      intro d j hj hno
      refine List.filterMap_eq_nil_iff.mpr fun p hp ↦ ?_
      rw [List.mem_range'_1] at hp
      simpa using hno p hp.1 hp.2
    unfold hashiterRest hashiterNext
    cases hf : findFrom (fun i ↦ (t.slot i).pair?.isSome) i (t.capacity - i) with
    | none =>
      have hno := findFrom_none hf
      by_cases hi : i ≤ t.capacity
      · exact (hskip _ i (by omega) hno).symm
      · rw [Nat.sub_eq_zero_of_le (by omega)]
        rfl
    | some j =>
      obtain ⟨hij, hj, hsome, hno⟩ := findFrom_some hf
      obtain ⟨⟨k, v⟩, hkv⟩ := Option.isSome_iff_exists.mp hsome
      have hsplit : List.range' i (t.capacity - i) =
          List.range' i (j - i) ++ j :: List.range' (j + 1) (t.capacity - (j + 1)) := by
        have h1 : t.capacity - i = (j - i) + ((t.capacity - (j + 1)) + 1) := by omega
        rw [h1, ← List.range'_append_1, show i + (j - i) = j by omega, List.range'_succ]
      have hbefore : ((List.range' i (j - i)).filterMap fun p ↦ (t.slot p).pair?) = [] := by
        refine List.filterMap_eq_nil_iff.mpr fun p hp ↦ ?_
        rw [List.mem_range'_1] at hp
        simpa using hno p hp.1 (by omega)
      have hih : t.hashiterRest n ⟨j + 1, k, v⟩ = _ := ih (by omega)
      rw [hsplit, List.filterMap_append, hbefore, List.filterMap_cons, hkv, ← hih]
      simp [hkv]

theorem hashiter_eq (t : HashTable) :
    t.hashiterRest (t.capacity + 1) hashiterInit = t.hashiter := by
  rw [hashiterInit, hashiterRest_eq t (by omega)]
  simp [hashiter, Probing.entries, probing, hashProbing, List.range_eq_range']

end HashTable

inductive HashCall
  | put (key val : Nat)
  | get (key : Nat)
  | del (key : Nat)

namespace HashCall

def exec (t : HashTable) : HashCall → Except Errno HashTable
  | put key val => t.hashPut key val
  | get key => (t.hashGet key).map fun _ ↦ t
  | del key => t.hashDel key

/-- An insertion finds no tombstone before the entry that its key has, and its search comes by
every slot. -/
def Meets (t : HashTable) : HashCall → Prop
  | put key _ => t.Clear key ∧ t.NoWrap key
  | _ => True

/-- The value of the last insertion of a key that no deletion has followed. The history has the
last call first. -/
def lastPut (key : Nat) : List HashCall → Option Nat
  | [] => none
  | put key' val :: calls => if key = key' then some val else lastPut key calls
  | get _ :: calls => lastPut key calls
  | del key' :: calls => if key = key' then none else lastPut key calls

end HashCall

open HashCall

/-- A table after some calls, with the history of those that have not failed. -/
inductive HashRun (capacity : Nat) : HashTable → List HashCall → Prop
  | init : HashRun capacity (hashInit capacity) []
  | ok {t t' : HashTable} {calls : List HashCall} {c : HashCall} (hr : HashRun capacity t calls)
      (hm : c.Meets t) (he : c.exec t = .ok t') : HashRun capacity t' (c :: calls)
  | fails {t : HashTable} {calls : List HashCall} {c : HashCall} {e : Errno}
      (hr : HashRun capacity t calls) (he : c.exec t = .error e) : HashRun capacity t calls

variable {capacity : Nat} {t t' : HashTable} {calls : List HashCall} {c : HashCall}

theorem lastPut_step (ht : t.Ok) (hv : ∀ key, t.val? key = lastPut key calls) (hm : c.Meets t)
    (he : c.exec t = .ok t') :
    t'.Ok ∧ t'.capacity = t.capacity ∧ ∀ key, t'.val? key = lastPut key (c :: calls) := by
  cases c with
  | put key val =>
    obtain ⟨hok, hcap, hget⟩ := HashTable.hashPut_ok ht hm.1 he
    refine ⟨hok, hcap, fun key' ↦ ?_⟩
    rw [hget, hv]
    rfl
  | get key =>
    have htt : t = t' := by
      cases hg : t.hashGet key with
      | error e =>
        rw [exec, hg] at he
        cases he
      | ok v =>
        rw [exec, hg] at he
        exact Except.ok.inj he
    subst htt
    exact ⟨ht, rfl, hv⟩
  | del key =>
    obtain ⟨hok, hcap, -, hget⟩ := HashTable.hashDel_ok ht he
    refine ⟨hok, hcap, fun key' ↦ ?_⟩
    rw [hget, hv]
    rfl

theorem HashRun.sound (h : HashRun capacity t calls) :
    t.Ok ∧ t.capacity = capacity ∧ ∀ key, t.val? key = lastPut key calls := by
  induction h with
  | init => exact ⟨HashTable.ok_init capacity, rfl, fun key ↦ HashTable.val?_init capacity⟩
  | ok _ hm he ih =>
    obtain ⟨hok, hcap, hv⟩ := lastPut_step ih.1 ih.2.2 hm he
    exact ⟨hok, hcap.trans ih.2.1, hv⟩
  | fails _ _ ih => exact ih

/-- The table is a finite map, as long as no insertion of a key passes a tombstone before its
entry: `hash_get` returns the last value, the iterator has each present key once, and an
insertion fails only when there are as many keys as slots. -/
theorem hash_table_refines_map (h : HashRun capacity t calls) :
    (∀ key, HashTable.KeyOk key → t.hashGet key = match lastPut key calls with
      | some val => .ok val
      | none => .error .notFound) ∧
    ((t.hashiterRest (t.capacity + 1) hashiterInit).map Prod.fst).Nodup ∧
    (∀ key val, (key, val) ∈ t.hashiterRest (t.capacity + 1) hashiterInit ↔
      lastPut key calls = some val) ∧
    ∀ key val e, HashTable.KeyOk key → t.NoWrap key → t.hashPut key val = .error e →
      (t.hashiterRest (t.capacity + 1) hashiterInit).length = capacity := by
  obtain ⟨hok, hcap, hv⟩ := h.sound
  rw [HashTable.hashiter_eq]
  refine ⟨fun key hk ↦ ?_, HashTable.nodup_hashiter hok, fun key val ↦ ?_,
    fun key val e hk hw he ↦ ?_⟩
  · rw [← hv key, HashTable.hashGet, if_neg (not_not.mpr hk)]
    rfl
  · rw [HashTable.mem_hashiter hok, hv]
  · rw [HashTable.length_hashiter hok]
    by_contra hne
    have hle : t.size ≤ t.capacity := by
      rw [hok.size_eq, Probing.live_eq_sum]
      refine (Finset.sum_le_card_nsmul _ _ 1 fun p _ ↦ ?_).trans ?_
      · cases (t.slot p).pair?.isSome <;> decide
      · simp [HashTable.probing, hashProbing]
    obtain ⟨t', ht'⟩ := HashTable.hashPut_succeeds hok hk hw (by omega) val
    rw [ht'] at he
    cases he

instance (t : HashTable) (c : HashCall) : Decidable (c.Meets t) :=
  match c with
  | .put _ _ => inferInstanceAs (Decidable (_ ∧ _))
  | .get _ => inferInstanceAs (Decidable True)
  | .del _ => inferInstanceAs (Decidable True)

def execAll : List HashCall → HashTable → Option HashTable
  | [], t => some t
  | c :: cs, t => if c.Meets t then (c.exec t).toOption.bind (execAll cs) else none

theorem hashRun_of_execAll {cs : List HashCall} (h : HashRun capacity t calls)
    (hrun : execAll cs t = some t') : HashRun capacity t' (cs.reverse ++ calls) := by
  induction cs generalizing t calls with
  | nil =>
    cases hrun
    exact h
  | cons c cs ih =>
    rw [execAll] at hrun
    split at hrun
    next hm =>
      obtain ⟨t₁, ht₁, hrun⟩ := Option.bind_eq_some_iff.mp hrun
      rw [List.reverse_cons, List.append_assoc]
      refine ih (h.ok hm ?_) hrun
      cases he : c.exec t with
      | error e =>
        rw [he] at ht₁
        cases ht₁
      | ok t₂ =>
        rw [he] at ht₁
        exact congrArg _ (Option.some.inj ht₁)
    next => cases hrun

/-- The keys 1 and 3 collide in a table of two slots. The first one is deleted and takes its
slot again. -/
theorem collided_keys_found : ∃ t, HashRun 2 t [.put 1 11, .del 1, .put 3 30, .put 1 10] ∧
    t.hashGet 3 = .ok 30 ∧ t.hashGet 1 = .ok 11 := by
  have hsome : (execAll [.put 1 10, .put 3 30, .del 1, .put 1 11] (hashInit 2)).isSome := by
    decide +kernel
  obtain ⟨t, hrun⟩ := Option.isSome_iff_exists.mp hsome
  have hr := hashRun_of_execAll .init hrun
  obtain ⟨hget, -⟩ := hash_table_refines_map hr
  exact ⟨t, hr, hget 3 (by decide), hget 1 (by decide)⟩

/-- Two keys that collide in a table of two slots. The first one is deleted before the other is
inserted again: then it has two entries, and its deletion brings the old one back. -/
def collided : Except Errno HashTable := do
  let t ← (hashInit 2).hashPut 1 10
  let t ← t.hashPut 3 30
  let t ← t.hashDel 1
  t.hashPut 3 31

theorem deleted_key_found :
    (do
      let t ← collided
      pure (t.hashiterRest 3 hashiterInit)) = .ok [(3, 31), (3, 30)] ∧
    (do
      let t ← collided
      let t ← t.hashDel 3
      t.hashGet 3) = .ok 30 := by
  decide +kernel

end HiStar.Pstate
