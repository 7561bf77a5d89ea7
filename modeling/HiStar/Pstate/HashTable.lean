import HiStar.Errno
import HiStar.Lib.Probe

namespace HiStar.Pstate

open Lib Function

def tomb : Nat := 2 ^ 64 - 1

def mix64 (a b c : UInt64) : UInt64 × UInt64 × UInt64 :=
  let a := (a - b - c) ^^^ (c >>> 43)
  let b := (b - c - a) ^^^ (a <<< 9)
  let c := (c - a - b) ^^^ (b >>> 8)
  let a := (a - b - c) ^^^ (c >>> 38)
  let b := (b - c - a) ^^^ (a <<< 23)
  let c := (c - a - b) ^^^ (b >>> 5)
  let a := (a - b - c) ^^^ (c >>> 35)
  let b := (b - c - a) ^^^ (a <<< 49)
  let c := (c - a - b) ^^^ (b >>> 11)
  let a := (a - b - c) ^^^ (c >>> 12)
  let b := (b - c - a) ^^^ (a <<< 18)
  let c := (c - a - b) ^^^ (b >>> 22)
  (a, b, c)

/-- `hash2` of a key of one word, at the level that the table uses. -/
def hash2 (k : UInt64) : UInt64 :=
  (mix64 (0xDEADBEEF + k) 0xDEADBEEF (0x9e3779b97f4a7c13 + 1)).2.2

/-- The slots at which a table looks for a key, with the sum of `uint64_t`. -/
def hashProbing (capacity : Nat) : Probing Nat where
  capacity := capacity
  probe key i := ((hash2 (.ofNat key)).toNat + i) % 2 ^ 64 % capacity
  probe_lt _ _ h := Nat.mod_lt _ (Nat.zero_lt_of_lt h)

/-- `struct hashtable`; the keys 0 and `TOMB` of an entry are its two free states. -/
structure HashTable where
  capacity : Nat
  size : Nat
  slot : Nat → Slot Nat Nat

def hashInit (n : Nat) : HashTable := ⟨n, 0, fun _ ↦ .empty⟩

namespace HashTable

variable {t t' : HashTable} {key key' val : Nat}

def probing (t : HashTable) : Probing Nat := hashProbing t.capacity

def KeyOk (key : Nat) : Prop := key ≠ 0 ∧ key ≠ tomb

instance : Decidable (KeyOk key) := inferInstanceAs (Decidable (_ ∧ _))

/-- The search for a free slot ends at an occupied one if there is none, which
an assertion excludes. -/
def hashPut (t : HashTable) (key val : Nat) : Except Errno HashTable :=
  if ¬ KeyOk key then .error .inval
  else if t.size = t.capacity then .error .noSpace
  else
    match t.probing.place t.slot key with
    | none => .error .panic
    | some i =>
      .ok { t with
        size := if (t.slot (t.probing.probe key i)).holds key then t.size else t.size + 1
        slot := update t.slot (t.probing.probe key i) (.entry key val) }

def hashGet (t : HashTable) (key : Nat) : Except Errno Nat :=
  if ¬ KeyOk key then .error .inval
  else
    match t.probing.get? t.slot key with
    | some val => .ok val
    | none => .error .notFound

def hashDel (t : HashTable) (key : Nat) : Except Errno HashTable :=
  if ¬ KeyOk key then .error .inval
  else
    match t.probing.erase t.slot key with
    | some slot => .ok { t with size := t.size - 1, slot := slot }
    | none => .error .notFound

/-- The entries in the order in which `hashiter_next` returns them. -/
def hashiter (t : HashTable) : List (Nat × Nat) := t.probing.entries t.slot

structure Ok (t : HashTable) : Prop where
  slots : t.probing.Ok t.slot
  size_eq : t.size = t.probing.live t.slot
  keys : ∀ key val, (key, val) ∈ t.hashiter → KeyOk key

def val? (t : HashTable) (key : Nat) : Option Nat := t.probing.get? t.slot key

def Clear (t : HashTable) (key : Nat) : Prop := t.probing.Clear t.slot key

theorem ok_init (n : Nat) : (hashInit n).Ok :=
  ⟨Probing.ok_empty, by simp [hashInit, Probing.live, Probing.entries_empty],
    fun key val h ↦ by simp [hashiter, hashInit, Probing.entries_empty] at h⟩

theorem val?_init (n : Nat) : (hashInit n).val? key = none := by
  refine Option.eq_none_iff_forall_ne_some.mpr fun v hv ↦ ?_
  have h := (Probing.get?_eq_some (ok_init n).slots).mp hv
  simp [hashInit] at h

theorem mem_hashiter (h : t.Ok) : (key, val) ∈ t.hashiter ↔ t.val? key = some val :=
  (Probing.get?_eq_some_iff_mem h.slots).symm

theorem nodup_hashiter (h : t.Ok) : (t.hashiter.map Prod.fst).Nodup := Probing.nodup_entries h.slots

theorem length_hashiter (h : t.Ok) : t.hashiter.length = t.size := h.size_eq.symm

theorem hashGet_ok (h : t.hashGet key = .ok val) : t.val? key = some val := by
  unfold hashGet at h
  split at h
  · cases h
  · cases hv : t.probing.get? t.slot key with
    | none => simp [hv] at h
    | some v => simpa [val?, hv] using h

theorem hashGet_error {e : Errno} (ht : t.Ok) (h : t.hashGet key = .error e) :
    t.val? key = none := by
  unfold hashGet at h
  split at h
  next hk =>
    exact Option.eq_none_iff_forall_ne_some.mpr fun v hv ↦
      hk (ht.keys key v ((mem_hashiter ht).mpr hv))
  · cases hv : t.probing.get? t.slot key with
    | none => exact hv
    | some v => simp [hv] at h

def NoWrap (t : HashTable) (key : Nat) : Prop :=
  (hash2 (.ofNat key)).toNat + t.capacity ≤ 2 ^ 64

instance (t : HashTable) (key : Nat) : Decidable (t.NoWrap key) :=
  inferInstanceAs (Decidable (_ ≤ _))

instance (t : HashTable) (key : Nat) : Decidable (t.Clear key) :=
  inferInstanceAs (Decidable (∀ i ∈ t.probing.seek t.slot key,
    (t.slot (t.probing.probe key i)).holds key = true →
      ∀ j < i, t.slot (t.probing.probe key j) ≠ .tomb))

theorem NoWrap.cover (h : t.NoWrap key) :
    ∀ p < t.probing.capacity, ∃ i < t.probing.capacity, t.probing.probe key i = p := by
  intro p hp
  have hp : p < t.capacity := hp
  have hpos : 0 < t.capacity := Nat.zero_lt_of_lt hp
  generalize hh : (hash2 (.ofNat key)).toNat = h₀ at *
  have hr := Nat.mod_lt h₀ hpos
  refine ⟨(p + t.capacity - h₀ % t.capacity) % t.capacity, Nat.mod_lt _ hpos, ?_⟩
  have hi := Nat.mod_lt (p + t.capacity - h₀ % t.capacity) hpos
  have hlt : h₀ + (p + t.capacity - h₀ % t.capacity) % t.capacity < 2 ^ 64 := by
    unfold NoWrap at h
    omega
  simp only [probing, hashProbing, hh, Nat.mod_eq_of_lt hlt]
  rw [Nat.add_mod_mod, Nat.add_mod, ← Nat.add_mod_mod, Nat.mod_mod, Nat.add_mod_mod,
    show h₀ % t.capacity + (p + t.capacity - h₀ % t.capacity) = p + t.capacity by omega,
    Nat.add_mod_right, Nat.mod_eq_of_lt hp]

theorem hashPut_succeeds (ht : t.Ok) (hk : KeyOk key) (hw : t.NoWrap key)
    (hsize : t.size < t.capacity) (val : Nat) : ∃ t', t.hashPut key val = .ok t' := by
  obtain ⟨i, hi⟩ := Probing.exists_place hw.cover (ht.size_eq ▸ hsize)
  simp [hashPut, hk, hsize.ne, hi]

theorem hashPut_inv (h : t.hashPut key val = .ok t') :
    KeyOk key ∧ ∃ i, t.probing.place t.slot key = some i ∧ t' = { t with
      size := if (t.slot (t.probing.probe key i)).holds key then t.size else t.size + 1
      slot := update t.slot (t.probing.probe key i) (.entry key val) } := by
  unfold hashPut at h
  split at h
  · cases h
  next hk =>
    split at h
    · cases h
    · cases hp : t.probing.place t.slot key with
      | none => simp [hp] at h
      | some i => exact ⟨not_not.mp hk, i, rfl, by simpa [hp] using h.symm⟩

theorem hashPut_size (h : t.hashPut key val = .ok t') : t'.size ≤ t.size + 1 := by
  obtain ⟨-, i, -, rfl⟩ := hashPut_inv h
  simp only
  split <;> omega

theorem Clear.hashPut (ht : t.Ok) (hk : key' ≠ key) (hc : t.Clear key')
    (h : t.hashPut key val = .ok t') : t'.Clear key' := by
  obtain ⟨-, i, hi, rfl⟩ := hashPut_inv h
  have hput : t.probing.put t.slot key val =
      some (update t.slot (t.probing.probe key i) (.entry key val)) := by
    simp [Probing.put, hi]
  exact Probing.Clear.put ht.slots hk hc hput

theorem hashPut_ok (ht : t.Ok) (hc : t.Clear key) (h : t.hashPut key val = .ok t') :
    t'.Ok ∧ t'.capacity = t.capacity ∧
      ∀ key', t'.val? key' = if key' = key then some val else t.val? key' := by
  obtain ⟨hk, i, hp, rfl⟩ := hashPut_inv h
  have hput : t.probing.put t.slot key val =
      some (update t.slot (t.probing.probe key i) (.entry key val)) := by
    simp [Probing.put, hp]
  obtain ⟨hok, hget⟩ := Probing.put_ok ht.slots hc hput
  refine ⟨⟨hok, ?_, fun key' val' hmem ↦ ?_⟩, rfl, hget⟩
  · have hl := Probing.live_put (v := val) hp
    simp only [ht.size_eq]
    split <;> simp_all [probing]
  · have hv := (Probing.get?_eq_some_iff_mem hok).mpr hmem
    rw [hget key'] at hv
    split at hv
    next heq => exact heq ▸ hk
    next => exact ht.keys key' val' ((mem_hashiter ht).mpr hv)

theorem hashDel_ok (ht : t.Ok) (h : t.hashDel key = .ok t') :
    t'.Ok ∧ t'.capacity = t.capacity ∧ t'.size + 1 = t.size ∧
      ∀ key', t'.val? key' = if key' = key then none else t.val? key' := by
  unfold hashDel at h
  split at h
  · cases h
  · cases he : t.probing.erase t.slot key with
    | none => simp [he] at h
    | some slot =>
      simp only [he, Except.ok.injEq] at h
      obtain ⟨hok, hget⟩ := Probing.erase_ok ht.slots he
      have hl := Probing.live_erase he
      subst h
      refine ⟨⟨hok, ?_, fun key' val' hmem ↦ ?_⟩, rfl, ?_, hget⟩
      · simp only [ht.size_eq, ← hl]
        rfl
      · have hv := (Probing.get?_eq_some_iff_mem hok).mpr hmem
        rw [hget key'] at hv
        split at hv
        · cases hv
        · exact ht.keys key' val' ((mem_hashiter ht).mpr hv)
      · simp only [ht.size_eq, ← hl]
        omega

theorem hashDel_error {e : Errno} (ht : t.Ok) (h : t.hashDel key = .error e) :
    t.val? key = none := by
  unfold hashDel at h
  split at h
  next hk =>
    exact Option.eq_none_iff_forall_ne_some.mpr fun v hv ↦
      hk (ht.keys key v ((mem_hashiter ht).mpr hv))
  · cases he : t.probing.erase t.slot key with
    | none => exact Probing.erase_eq_none ht.slots he
    | some slot => simp [he] at h

end HashTable

end HiStar.Pstate
