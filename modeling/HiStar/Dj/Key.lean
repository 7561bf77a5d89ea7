import Mathlib.Tactic

namespace HiStar.Dj

/-- The key types of the encoding; only Rabin keys are ever compared. -/
inductive KeyType
  | rabin
  | other (n : Nat)
  deriving DecidableEq

structure DjPubkey where
  type : KeyType
  key : Nat
  deriving DecidableEq

/-- `operator==` on keys: no key of another type equals any key, itself
included. -/
def DjPubkey.eq (a b : DjPubkey) : Bool :=
  if a.type ≠ .rabin ∨ b.type ≠ .rabin then false else a.key = b.key

def DjPubkey.lt (a b : DjPubkey) : Bool :=
  if a.type ≠ .rabin ∨ b.type ≠ .rabin then true else a.key < b.key

structure DjGcat where
  key : DjPubkey
  id : Nat
  integrity : Bool
  deriving DecidableEq

def DjGcat.eq (a b : DjGcat) : Bool :=
  a.key.eq b.key && a.id == b.id && a.integrity == b.integrity

structure DjAddress where
  ip : Nat
  port : Nat
  deriving DecidableEq

inductive DjEntity
  | pubkey (key : DjPubkey)
  | gcat (gcat : DjGcat)
  | address (addr : DjAddress)
  deriving DecidableEq

structure DjDelegation where
  a : DjEntity
  b : DjEntity
  via : Option DjPubkey
  fromTs : Nat
  untilTs : Nat
  deriving DecidableEq

/-- A statement; of the two other kinds only the key that signs is looked at,
the remaining fields are one value. -/
inductive DjStmt
  | delegation (d : DjDelegation)
  | keySetup (sender : DjPubkey) (rest : Nat)
  | hostinfo (host : DjPubkey) (rest : Nat)
  deriving DecidableEq

abbrev DjSign := Nat

structure DjStmtSigned where
  stmt : DjStmt
  sign : DjSign
  deriving DecidableEq

theorem DjPubkey.eq_iff {a b : DjPubkey} : a.eq b = true ↔ a.type = .rabin ∧ a = b := by
  obtain ⟨ta, ka⟩ := a
  obtain ⟨tb, kb⟩ := b
  by_cases ha : ta = .rabin
  · by_cases hb : tb = .rabin
    · simp [DjPubkey.eq, ha, hb]
    · simp [DjPubkey.eq, ha, hb, Ne.symm hb]
  · simp [DjPubkey.eq, ha]

theorem DjGcat.eq_iff {a b : DjGcat} : a.eq b = true ↔ a.key.type = .rabin ∧ a = b := by
  obtain ⟨ka, ia, ja⟩ := a
  obtain ⟨kb, ib, jb⟩ := b
  simp only [DjGcat.eq, Bool.and_eq_true, DjPubkey.eq_iff, beq_iff_eq, DjGcat.mk.injEq, and_assoc]

/-- A lookup in a hash table gives one of the entries that match. Which one it is of
several depends on the chains of the table. -/
structure Ihash (α : Type) where
  pick : List α → (α → Bool) → Option α
  found : ∀ {es p e}, pick es p = some e → e ∈ es ∧ p e = true
  missing : ∀ {es p}, pick es p = none → ∀ e ∈ es, p e = false

def Ihash.newest {α : Type} : Ihash α where
  pick := fun es p ↦ es.find? p
  found h := ⟨List.mem_of_find?_eq_some h, List.find?_some h⟩
  missing h e he := by simpa using List.find?_eq_none.mp h e he

section Verify

variable (verifySign : DjStmt → DjPubkey → DjSign → Bool)

def verifyStmt (s : DjStmtSigned) : Bool :=
  match s.stmt with
  | .delegation d =>
    match d.via with
    | some via => verifySign s.stmt via s.sign
    | none =>
      match d.b with
      | .pubkey key => verifySign s.stmt key s.sign
      | .gcat gcat => verifySign s.stmt gcat.key s.sign
      | .address _ => false
  | .keySetup sender _ => verifySign s.stmt sender s.sign
  | .hostinfo host _ => verifySign s.stmt host s.sign

end Verify

structure DmEnt where
  ss : DjStmtSigned
  d : DjDelegation
  pk : DjPubkey
  stmt_eq : ss.stmt = .delegation d
  a_eq : d.a = .pubkey pk

structure DjDelegationMap where
  t : List DmEnt := []
  size : Nat := 0

namespace DjDelegationMap

/-- The entries that a walk from `t_[k]` with `next` comes by while the key is
`k`. -/
def entries (dm : DjDelegationMap) (k : DjPubkey) : List DmEnt := dm.t.filter (·.pk.eq k)

/-- The entries of a walk from `t_[k]` to the end of the index; none when `k`
has no entry. -/
def behind (dm : DjDelegationMap) (k : DjPubkey) : List DmEnt :=
  if (dm.entries k).isEmpty then [] else dm.t.filter fun e ↦ !e.pk.lt k

def insert (verifySign : DjStmt → DjPubkey → DjSign → Bool) (dm : DjDelegationMap)
    (ss : DjStmtSigned) : DjDelegationMap :=
  if verifyStmt verifySign ss then
    match hs : ss.stmt with
    | .delegation d =>
      match ha : d.a with
      | .pubkey k =>
        if (dm.behind k).any fun e ↦ e.ss.sign = ss.sign then dm
        else ⟨⟨ss, d, k, hs, ha⟩ :: dm.t, (dm.size + 1) % 2 ^ 32⟩
      | _ => dm
    | _ => dm
  else dm

def insertAll (verifySign : DjStmt → DjPubkey → DjSign → Bool) (dm : DjDelegationMap)
    (sss : List DjStmtSigned) : DjDelegationMap := sss.foldl (insert verifySign) dm

end DjDelegationMap

def keySpeaksFor (dm : DjDelegationMap) (gcat : DjGcat) : Nat → DjPubkey → Bool
  | 0, k => gcat.key.eq k
  | depth + 1, k =>
    gcat.key.eq k || (dm.entries k).any fun e ↦
      (match e.d.via with
        | some via => keySpeaksFor dm gcat depth via
        | none => true) &&
      (match e.d.b with
        | .gcat c => c.eq gcat
        | .pubkey b => keySpeaksFor dm gcat depth b
        | .address _ => false)

end HiStar.Dj
