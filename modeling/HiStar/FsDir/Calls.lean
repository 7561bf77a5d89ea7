import HiStar.FsDir.Dseg

namespace HiStar.FsDir

open Function

/-- The directories that have a directory segment, and how many references every
container holds on every object. Ids from `nextId` on are unused. -/
structure Fs where
  dir : Nat → Option Dseg
  refs : Nat → Nat → Nat
  nextId : Nat

/-- What the kernel answers to the calls of one operation: the call that makes,
adds or moves a reference, the set-up of a new object, the two ways to open the
directory, the insertion, the page faults of the removals, the call that drops a
reference, and the parent for a lookup of dot-dot. -/
structure Answers where
  create : Option Errno := none
  setup : Option Errno := none
  openRead : Option Errno := none
  openWrite : Option Errno := none
  insert : Option Errno := none
  removeFault : Option Nat := none
  replaceFault : Option Nat := none
  unref : Option Errno := none
  dotdot : CobjRef := ⟨0, 0⟩

namespace Fs

def setRefs (s : Fs) (ct obj n : Nat) : Fs :=
  { s with refs := update s.refs ct (update (s.refs ct) obj n) }

def setDir (s : Fs) (ct : Nat) (d : Dseg) : Fs := { s with dir := update s.dir ct (some d) }

def sysObjUnref (s : Fs) (o : CobjRef) (fail : Option Errno) : Option Errno × Fs :=
  match fail with
  | some e => (some e, s)
  | none =>
    if s.refs o.container o.object = 0 then (some .notFound, s)
    else (none, s.setRefs o.container o.object (s.refs o.container o.object - 1))

def alloc (s : Fs) (ct : Nat) : Fs := { s.setRefs ct s.nextId 1 with nextId := s.nextId + 1 }

def initDseg (s : Fs) (id : Nat) : Fs := (s.alloc id).setDir id { id := s.nextId }

def fsMkdir (s : Fs) (dir : Nat) (d : Dseg) (fn : Name) (ans : Answers) : Outcome × Fs :=
  match ans.create with
  | some e => (.ret (some e), s)
  | none =>
    let o : CobjRef := ⟨dir, s.nextId⟩
    let s := s.alloc dir
    match ans.setup with
    | some e => (.ret (some e), (s.sysObjUnref o ans.unref).2)
    | none =>
      let s := s.initDseg o.object
      match ans.openWrite with
      | some e => (.ret (some e), (s.sysObjUnref o ans.unref).2)
      | none =>
        match d.insert fn o.object ans.insert with
        | .ok d => (.ret none, s.setDir dir d)
        | .error e => (.ret (some e), (s.sysObjUnref o ans.unref).2)
        | .thrown => (.thrown, (s.sysObjUnref o ans.unref).2)

/-- `fs_mknod`; here no guard drops the object when an exception leaves. -/
def fsMknod (s : Fs) (dir : Nat) (d : Dseg) (fn : Name) (ans : Answers) : Outcome × Fs :=
  match ans.create with
  | some e => (.ret (some e), s)
  | none =>
    let o : CobjRef := ⟨dir, s.nextId⟩
    let s := s.alloc dir
    match ans.setup with
    | some e => (.ret (some e), (s.sysObjUnref o ans.unref).2)
    | none =>
      match ans.openWrite with
      | some e => (.ret (some e), (s.sysObjUnref o ans.unref).2)
      | none =>
        match d.insert fn o.object ans.insert with
        | .ok d => (.ret none, s.setDir dir d)
        | .error e => (.ret (some e), (s.sysObjUnref o ans.unref).2)
        | .thrown => (.thrown, s)

def fsLookupOne (dir : CobjRef) (d : Dseg) (fn : Name) (ans : Answers) : Option CobjRef :=
  if fn = [46] then some dir
  else if fn = [46, 46] then some ans.dotdot
  else
    match ans.openRead with
    | some _ => none
    | none => (d.lookup fn).map fun o ↦ ⟨dir.object, o⟩

def fsLink (s : Fs) (dir : CobjRef) (d : Dseg) (fn : Name) (f : CobjRef) (removeOld : Bool)
    (ans : Answers) : Outcome × Fs :=
  let nf : CobjRef := ⟨dir.object, f.object⟩
  match if s.refs f.container f.object = 0 then some .notFound else ans.create with
  | some e => (.ret (some e), s)
  | none =>
    let s := s.setRefs dir.object f.object (s.refs dir.object f.object + 1)
    let old := fsLookupOne dir d fn ans
    if old.isSome && !removeOld then (.ret (some .busy), s)
    else
      match ans.openWrite with
      | some e => (.ret (some e), (s.sysObjUnref nf ans.unref).2)
      | none =>
        match d.insert fn f.object ans.insert with
        | .error e => (.ret (some e), (s.sysObjUnref nf ans.unref).2)
        | .thrown => (.thrown, s)
        | .ok d =>
          match old with
          | none => (.ret none, s.setDir dir.object d)
          | some o =>
            match d.remove fn o.object ans.removeFault with
            | (some e, d) => (.ret (some e), ((s.setDir dir.object d).sysObjUnref nf ans.unref).2)
            | (none, d) => (.ret none, ((s.setDir dir.object d).sysObjUnref o ans.unref).2)

def fsRemove (s : Fs) (dir : Nat) (d : Dseg) (name : Name) (f : CobjRef) (ans : Answers) :
    Outcome × Fs :=
  match ans.openWrite with
  | some e => (.ret (some e), s)
  | none =>
    match d.remove name f.object ans.removeFault with
    | (some e, d) => (.ret (some e), s.setDir dir d)
    | (none, d) =>
      match (s.setDir dir d).sysObjUnref f ans.unref with
      | (r, s) => (.ret r, s)

/-- The end of `fs_move`: the old entry is removed from the source. -/
def fsMoveRemove (s : Fs) (src : Nat) (f : CobjRef) (oldFn : Name) (ans : Answers) :
    Outcome × Fs :=
  match s.dir src with
  | none => (.ret (some .inval), s)
  | some d =>
    match d.remove oldFn f.object ans.removeFault with
    | (r, d) => (.ret r, s.setDir src d)

/-- `fs_move`. An entry that is replaced keeps its reference in the container. -/
def fsMove (s : Fs) (src dst : Nat) (dd : Dseg) (f : CobjRef) (oldFn newFn : Name)
    (ans : Answers) : Outcome × Fs :=
  match ans.openWrite with
  | some e => (.ret (some e), s)
  | none =>
    match if s.refs f.container f.object = 0 then some .notFound else ans.create with
    | some e => (.ret (some e), s)
    | none =>
      let s := s.setRefs f.container f.object (s.refs f.container f.object - 1)
      let s := s.setRefs dst f.object (s.refs dst f.object + 1)
      match
        (match dd.lookup newFn with
        | none => (none, dd)
        | some existing => dd.remove newFn existing ans.replaceFault) with
      | (some e, dd) => (.ret (some e), s.setDir dst dd)
      | (none, dd) =>
        match dd.insert newFn f.object ans.insert with
        | .error e => (.ret (some e), s.setDir dst dd)
        | .thrown => (.thrown, s.setDir dst dd)
        | .ok dd => (s.setDir dst dd).fsMoveRemove src f oldFn ans

end Fs

inductive Call
  | mkdir (dir : Nat) (fn : Name) (ans : Answers)
  | mknod (dir : Nat) (fn : Name) (ans : Answers)
  | link (dir : CobjRef) (fn : Name) (f : CobjRef) (removeOld : Bool) (ans : Answers)
  | remove (dir : Nat) (name : Name) (f : CobjRef) (ans : Answers)
  | move (src dst : Nat) (f : CobjRef) (oldFn newFn : Name) (ans : Answers)

def Fs.step (s : Fs) : Call → Option (Outcome × Fs)
  | .mkdir dir fn ans => (s.dir dir).map fun d ↦ s.fsMkdir dir d fn ans
  | .mknod dir fn ans => (s.dir dir).map fun d ↦ s.fsMknod dir d fn ans
  | .link dir fn f removeOld ans =>
    (s.dir dir.object).map fun d ↦ s.fsLink dir d fn f removeOld ans
  | .remove dir name f ans => (s.dir dir).map fun d ↦ s.fsRemove dir d name f ans
  | .move src dst f oldFn newFn ans =>
    if s.dir src = none then none
    else (s.dir dst).map fun dd ↦ s.fsMove src dst dd f oldFn newFn ans

end HiStar.FsDir
