import HiStar.FsDir.Calls
import HiStar.FsDir.Dirbase

namespace HiStar.FsDir

def maxSymlinks : Nat := 20

def devsymlink : UInt8 := 108

structure Store where
  size : Nat
  start : Nat
  count : Nat

def Store.Inside (w : Store) : Prop := w.start + w.count ≤ w.size

instance (w : Store) : Decidable w.Inside := inferInstanceAs (Decidable (_ ≤ _))

structure Flags where
  leafNofollow : Bool := false
  leafNoeval : Bool := false

structure MtabEnt where
  mntDir : CobjRef
  mntName : List Char
  mntRoot : CobjRef

/-- What `fs_dir_open` gives for a directory: its directory segment, or the slots of a
container without one, as `sys_container_get_slot_id` answers up to the last. -/
inductive Directory
  | dseg (slots : List Dseg.ReadSlot)
  | ct (slots : List (Except Errno Nat))

/-- What a path is resolved in: the objects of the process environment, the mount table, the
parents of containers, the directories, the name and the `dev_id` of an object and the bytes
of a file. -/
structure Env where
  fsRoot : CobjRef
  fsCwd : CobjRef
  rootContainer : Nat
  mtab : Option (List MtabEnt)
  parent : Nat → Option Nat
  fsDirOpen : CobjRef → Except Errno Directory
  objName : CobjRef → Except Errno Name
  devId : CobjRef → Except Errno UInt8
  contents : CobjRef → Except Errno (List Char)

/-- The loop of `strtou64` in base 10: the number, whether it was too large, and what is left. -/
def digits : List Char → Nat → Bool → Nat × Bool × List Char
  | [], val, big => (val, big, [])
  | c :: s, val, big =>
    if '0' ≤ c ∧ c ≤ '9' then
      let dig := c.toNat - '0'.toNat
      digits s ((val * 10 + dig) % 2 ^ 64)
        (big || decide (val > 1844674407370955161 ∨ val = 1844674407370955161 ∧ dig > 5))
    else (val, big, c :: s)

def strtou64 (begin : List Char) : Option (Nat × List Char) :=
  let s := begin.dropWhile fun c ↦ c = ' ' ∨ c = '\t'
  let s := if s.head? = some '+' then s.tail else s
  match digits s 0 false with
  | (val, big, left) => if left = s ∨ big then none else some (val, left)

def special (pn : List Char) : Option CobjRef :=
  if pn.head? = some '#' then
    match strtou64 pn.tail with
    | some (ctid, []) => some ⟨ctid, ctid⟩
    | some (ctid, '.' :: leftover) =>
      match strtou64 leftover with
      | some (objid, []) => some ⟨ctid, objid⟩
      | _ => none
    | _ => none
  else none

theorem next_length_lt (p : Char → Bool) {pn : List Char} (h : pn ≠ []) :
    (pn.dropWhile p).tail.length < pn.length := by
  have hle := List.length_dropWhile_le p pn
  have hpos := List.length_pos_iff.mpr h
  rw [List.length_tail]
  omega

/-- Where the loop stops: with a result, at a link found in `dir`, or never. -/
inductive Stop
  | ends (r : Except Errno CobjRef)
  | link (dir o : CobjRef) (next : List Char)
  | hangs

/-- The result, if there ever is one, the links that were followed, by their bytes, and the
stores into local buffers. -/
structure Resolved where
  result : Option (Except Errno CobjRef)
  followed : List (List Char)
  stores : List Store

namespace Env

variable (env : Env)

def ctLookup (dir : CobjRef) (name : Name) : List (Except Errno Nat) → Except Errno CobjRef
  | [] => .error .notFound
  | .error .notFound :: slots => ctLookup dir name slots
  | .error .inval :: _ => .error .notFound
  | .error e :: _ => .error e
  | .ok id :: slots =>
    match env.objName ⟨dir.object, id⟩ with
    | .error e => .error e
    | .ok deName => if name = deName then .ok ⟨dir.object, id⟩ else ctLookup dir name slots

def toName (fn : List Char) : Name := fn.map fun c ↦ UInt8.ofNat c.toNat

/-- The lookup in an opened directory; without a result when it waits for ever. -/
def entry (dir : CobjRef) (fn : List Char) : Option (Except Errno CobjRef) :=
  match env.fsDirOpen dir with
  | .error e => some (.error e)
  | .ok (.ct slots) => some (env.ctLookup dir (toName fn) slots)
  | .ok (.dseg slots) =>
    (Dseg.readLookup slots (toName fn)).map fun found ↦
      match found with
      | none => .error .notFound
      | some id => .ok ⟨dir.object, id⟩

def fsLookupOne (dir : CobjRef) (fn : List Char) : Option (Except Errno CobjRef) :=
  if fn = ['.'] then some (.ok dir)
  else if fn = ['.', '.'] then
    if dir.object = env.rootContainer then some (.ok env.fsRoot)
    else
      match env.parent dir.object with
      | none => some (.ok dir)
      | some id => some (.ok ⟨id, id⟩)
  else
    let mounted (m : MtabEnt) : Bool := m.mntDir.object = dir.object ∧ m.mntName = fn
    match (env.mtab.getD []).find? mounted with
    | some m => some (.ok m.mntRoot)
    | none => env.entry dir fn

/-- In a directory segment without a change under way, path resolution finds what the calls
that hold the lock find. -/
theorem entry_of_quiet {dir : CobjRef} {d : Dseg} {slots : List Dseg.ReadSlot}
    (hopen : env.fsDirOpen dir = .ok (.dseg slots)) (hd : d.slots = slots.map (·.toDirSlot))
    (hquiet : ∀ x ∈ slots, x.gen ≠ Dseg.genBusy) (fn : List Char) :
    env.entry dir fn = some (match d.lookup (toName fn) with
      | none => .error .notFound
      | some id => .ok ⟨dir.object, id⟩) := by
  rw [entry, hopen]
  simp only [Dseg.readLookup_eq hd hquiet, Option.map_some]

/-- The start of `fs_lookup_path`: an object, and the path to resolve from there. -/
def startOf (startDir : CobjRef) (pn : List Char) : CobjRef × List Char :=
  match special pn with
  | some o => (o, [])
  | none => (if pn.head? = some '/' then env.fsRoot else startDir, pn)

def nameStore (fn : List Char) : Store := ⟨fsNameLen, 0, fn.length + 1⟩

def toLink (flags : Flags) (o : CobjRef) (pn : List Char) : List Store × Stop :=
  if _h : pn = [] then ([], .ends (.ok o))
  else
    let fn := pn.takeWhile (· ≠ '/')
    let next := (pn.dropWhile (· ≠ '/')).tail
    if fsNameLen ≤ fn.length then ([], .ends (.error .range))
    else
      let w := nameStore fn
      if fn = [] then (w :: (toLink flags o next).1, (toLink flags o next).2)
      else
        match env.fsLookupOne o fn with
        | none => ([w], .hangs)
        | some (.error e) => ([w], .ends (.error e))
        | some (.ok o') =>
          if next = [] ∧ flags.leafNoeval then ([w], .ends (.ok o'))
          else
            match env.devId o' with
            | .error e => ([w], .ends (.error e))
            | .ok dev =>
              if dev = devsymlink then ([w], .link o o' next)
              else (w :: (toLink flags o' next).1, (toLink flags o' next).2)
termination_by pn.length
decreasing_by all_goals exact next_length_lt _ _h

def linkText (bytes : List Char) : List Char := stringAt (bytes.take 1024) 0

def linkStores (bytes : List Char) : List Store :=
  let cc := min 1024 bytes.length
  [⟨1024, 0, cc⟩, ⟨1024, cc, 1⟩]

/-- The loop of `fs_lookup_path` with the links, each of which is resolved by a call of
`fs_lookup_path`. -/
def lookupLoop (symlinks : Nat) (o : CobjRef) (pn : List Char) (flags : Flags) : Resolved :=
  match env.toLink flags o pn with
  | (ws, .ends r) => ⟨some r, [], ws⟩
  | (ws, .hangs) => ⟨none, [], ws⟩
  | (ws, .link dir o next) =>
    match symlinks with
    | 0 => ⟨some (.error .inval), [], ws⟩
    | symlinks + 1 =>
      if next = [] ∧ flags.leafNofollow then ⟨some (.error .inval), [], ws⟩
      else
        match env.contents o with
        | .error e => ⟨some (.error e), [], ws⟩
        | .ok bytes =>
          let start := env.startOf dir (linkText bytes)
          let r := lookupLoop symlinks start.1 start.2 {}
          match r.result with
          | some (.ok o) =>
            let r' := lookupLoop symlinks o next flags
            ⟨r'.result, bytes :: r.followed ++ r'.followed,
              ws ++ linkStores bytes ++ r.stores ++ r'.stores⟩
          | stopped => ⟨stopped, bytes :: r.followed, ws ++ linkStores bytes ++ r.stores⟩

def fsLookupPath (startDir : CobjRef) (pn : List Char) (symlinks : Nat) (flags : Flags) :
    Resolved :=
  let start := env.startOf startDir pn
  env.lookupLoop symlinks start.1 start.2 flags

def fsNameiFlags (pn : List Char) (flags : Flags) : Resolved :=
  env.fsLookupPath env.fsCwd pn maxSymlinks flags

def fsNamei (pn : List Char) : Resolved := env.fsLookupPath env.fsCwd pn maxSymlinks {}

end Env

section Stores

variable {env : Env}

theorem nameStore_inside {fn : List Char} (h : ¬fsNameLen ≤ fn.length) :
    (Env.nameStore fn).Inside := by
  simp only [Env.nameStore, Store.Inside]
  omega

theorem Env.toLink_inside (flags : Flags) (o : CobjRef) (pn : List Char) :
    ∀ w ∈ (env.toLink flags o pn).1, w.Inside := by
  fun_induction Env.toLink env flags o pn with
  | case1 => simp
  | case2 => simp
  | case3 _ _ _ _ _ hlen _ _ ih => exact List.forall_mem_cons.mpr ⟨nameStore_inside hlen, ih⟩
  | case9 _ _ _ _ _ hlen _ _ _ _ _ _ _ _ ih =>
    exact List.forall_mem_cons.mpr ⟨nameStore_inside hlen, ih⟩
  | _ => exact List.forall_mem_singleton.mpr (nameStore_inside ‹_›)

theorem linkStores_inside (bytes : List Char) :
    (∀ w ∈ Env.linkStores bytes, w.Inside) ↔ bytes.length < 1024 := by
  simp only [Env.linkStores, Store.Inside, List.forall_mem_cons, List.not_mem_nil, false_imp_iff,
    implies_true, and_true]
  omega

theorem Env.lookupLoop_inside (n : Nat) (o : CobjRef) (pn : List Char) (flags : Flags) :
    (∀ w ∈ (env.lookupLoop n o pn flags).stores, w.Inside) ↔
      ∀ bytes ∈ (env.lookupLoop n o pn flags).followed, bytes.length < 1024 := by
  have hname {o : CobjRef} {pn : List Char} {flags : Flags} {ws : List Store}
      {stop : Stop} (h : env.toLink flags o pn = (ws, stop)) : ∀ w ∈ ws, w.Inside := by
    simpa [h] using env.toLink_inside flags o pn
  fun_induction Env.lookupLoop env n o pn flags with
  | case1 _ _ _ _ _ _ h => exact iff_of_true (hname h) (by simp)
  | case2 _ _ _ _ _ h => exact iff_of_true (hname h) (by simp)
  | case3 _ _ _ _ _ _ _ h => exact iff_of_true (hname h) (by simp)
  | case4 _ _ _ _ _ _ _ h => exact iff_of_true (hname h) (by simp)
  | case5 _ _ _ _ _ _ _ h => exact iff_of_true (hname h) (by simp)
  | case6 _ _ _ _ _ _ _ h _ _ _ _ _ _ _ _ _ ih ih' =>
    simp only [List.forall_mem_append, List.forall_mem_cons, linkStores_inside]
    rw [and_iff_right (hname h)]
    exact and_congr (and_congr_right' ih) ih'
  | case7 _ _ _ _ _ _ _ h _ _ _ _ _ _ _ ih =>
    simp only [List.forall_mem_append, List.forall_mem_cons, linkStores_inside]
    rw [and_iff_right (hname h)]
    exact and_congr_right' ih

end Stores

end HiStar.FsDir
