import HiStar.Vm.Machine

namespace HiStar.Vm

open Function

/-- What changes mappings and segments: system calls of the current thread,
its loads and stores, and the kernel's switches and snapshots. The answers of
other parts of the kernel come with the call. -/
inductive Call (D : Type)
  | asCreate (id : Nat)
  | asCopy (src id : Nat)
  | asSetSlot (a : Nat) (u : USegmentMapping)
  | asSet (a : Nat) (ents : List USegmentMapping) (n : Nat)
  | pagefault (env : FaultEnv) (a vpn : Nat) (req : UInt32)
  | store (a vpn : Nat) (d : D)
  | switch (th : Thread) (a : Nat) (ct : Nat → Option Errno) (noMem : Bool)
  | selfSetLabel (label id : Nat) (fail : Option Errno)
  | segmentCreate (id label nbytes : Nat)
  | segmentCopy (ct : Option Errno) (seg id label : Nat) (fail : Option Errno)
  | segmentResize (ct : Option Errno) (seg nbytes : Nat) (fail : Option Errno)
  | netBuf (ct : Option Errno) (seg page : Nat) (d : D)
  | objUnref (obj parentCt : Nat)
  | objFree (obj : Nat)
  | setReadonly (ct : Option Errno) (obj : Nat)
  | snapshot (obj : Nat)

def npagesOf (nbytes : Nat) : Nat := (nbytes + pgsize - 1) / pgsize

def utlsDefsize : Nat := pgsize

variable {D : Type} [Inhabited D]

/-- The pages of an object resized to `nbytes`; new pages are zeroed. -/
def resizePages (pages : List D) (nbytes : Nat) : List D :=
  pages.take (npagesOf nbytes) ++ List.replicate (npagesOf nbytes - pages.length) default

namespace Machine

def setObj (s : Machine D) (id : Nat) (o : Obj D) : Machine D :=
  { s with obj := update s.obj id (some o) }

def mapObj (s : Machine D) (id : Nat) (f : Obj D → Obj D) : Machine D :=
  { s with obj := update s.obj id ((s.obj id).map f) }

def newObj (s : Machine D) (id : Nat) (o : Obj D) : Option Errno × Machine D :=
  if s.nextId ≤ id then (none, { s.setObj id o with nextId := id + 1 }) else (some .noMem, s)

/-- A segment of the current thread's, for a call that needs `iflow`. -/
def segmentGet (leq : LabelOrder) (s : Machine D) (ct : Option Errno) (seg : Nat)
    (iflow : InfoFlowType) : Except Errno (Nat × Obj D) :=
  match s.cobjGet leq ct seg iflow with
  | .error e => .error e
  | .ok (id, o) => if o.koType = .segment then .ok (id, o) else .error .notFound

/-- `segment_copy`: the mappings of the source are dropped first. -/
def segmentCopy (s : Machine D) (src : Nat) (o : Obj D) (id label : Nat) (fail : Option Errno) :
    Option Errno × Machine D :=
  let s := s.segmentInvalidate src 0
  match fail with
  | some e => (some e, s)
  | none => s.newObj id { koType := .segment, label, nbytes := o.nbytes, pages := o.pages }

/-- `segment_set_nbytes`: a segment that shrinks loses its mappings even when
the call then fails. -/
def segmentSetNbytes (s : Machine D) (id : Nat) (o : Obj D) (nbytes : Nat) (fail : Option Errno) :
    Option Errno × Machine D :=
  let s := if nbytes < o.nbytes then s.segmentInvalidate id 0 else s
  match fail with
  | some e => (some e, s)
  | none => (none, s.setObj id { o with nbytes, pages := resizePages o.pages nbytes })

/-- `thread_change_label`: the thread goes on with a copy of its local segment
at the new label. -/
def threadChangeLabel (leq : LabelOrder) (s : Machine D) (label id : Nat) (fail : Option Errno) :
    Option Errno × Machine D :=
  match s.segmentGet leq none s.curThread.sg .rw with
  | .error e => (some e, s)
  | .ok (sg, o) =>
    match s.segmentCopy sg { o with
        nbytes := utlsDefsize, pages := resizePages o.pages utlsDefsize } id label fail with
    | (some e, s) => (some e, s)
    | (none, s) => (none, { s with curThread := ⟨label, id⟩ })

def step (leq : LabelOrder) (s : Machine D) : Call D → Option Errno × Machine D
  | .asCreate id => if s.as id = none then (none, s.setAs id {}) else (some .noMem, s)
  | .asCopy src id =>
    match s.as src with
    | some as => if s.as id = none then (none, s.setAs id { usm := as.usm }) else (some .noMem, s)
    | none => (some .notFound, s)
  | .asSetSlot a u =>
    match s.as a with
    | none => (some .notFound, s)
    | some as =>
      match as.asSetUslot u with
      | .error e => (some e, s)
      | .ok as' => (none, s.setAs a as')
  | .asSet a ents n => (none, s.modifyAs a (·.asFromUser ents n))
  | .pagefault env a vpn req => s.asPagefault leq env a vpn req
  | .store a vpn d =>
    match (s.as a).bind (·.pte vpn) with
    | some e =>
      if e.w then
        (none, s.mapObj e.obj fun o ↦ { o with pages := o.pages.set e.page d })
      else (some .inval, s)
    | none => (some .inval, s)
  | .switch th a ct noMem => (none, { s with curThread := th }.asSwitch leq ct noMem a)
  | .selfSetLabel label id fail => s.threadChangeLabel leq label id fail
  | .segmentCreate id label nbytes =>
    s.newObj id { koType := .segment, label, nbytes, pages := resizePages [] nbytes }
  | .segmentCopy ct seg id label fail =>
    match s.segmentGet leq ct seg .read with
    | .error e => (some e, s)
    | .ok (src, o) => s.segmentCopy src o id label fail
  | .segmentResize ct seg nbytes fail =>
    match s.segmentGet leq ct seg .rw with
    | .error e => (some e, s)
    | .ok (id, o) => s.segmentSetNbytes id o nbytes fail
  | .netBuf ct seg page d =>
    match s.segmentGet leq ct seg .rw with
    | .error e => (some e, s)
    | .ok (id, o) => (none, s.setObj id { o with pages := o.pages.set page d })
  | .objUnref obj parentCt => (none, s.segmentInvalidate obj parentCt)
  | .objFree obj => (none, { s with obj := update s.obj obj none })
  | .setReadonly ct obj =>
    match s.cobjGet leq ct obj .rw with
    | .error e => (some e, s)
    | .ok (id, o) => (none, s.setObj id { o with readonly := true })
  | .snapshot obj => (none, s.segmentMapRo obj)

end Machine

inductive Run (leq : LabelOrder) (s : Machine D) : Machine D → Prop
  | refl : Run leq s s
  | step {t : Machine D} (c : Call D) (hr : Run leq s t) : Run leq s (t.step leq c).2

section Checks

variable {leq : LabelOrder} {s : Machine D} {ct : Option Errno} {object id : Nat}
  {iflow : InfoFlowType} {o : Obj D}

omit [Inhabited D] in
theorem cobjGet_ok (h : s.cobjGet leq ct object iflow = .ok (id, o)) :
    s.kobjectTranslateId object = id ∧ s.obj id = some o ∧
      kobjectIflowCheck leq s.curThread o iflow = .ok () := by
  unfold Machine.cobjGet at h
  simp only at h
  split at h
  · cases h
  · split at h
    · cases h
    next ho =>
      split at h
      · cases h
      next hcheck =>
        obtain ⟨rfl, rfl⟩ := Prod.mk.inj (Except.ok.inj h)
        exact ⟨rfl, ho, hcheck⟩

omit [Inhabited D] in
/-- One slot is passed over, ends the search with an error, or is filled; it is
filled for writing only where the object may be written. -/
theorem asPmapFill_cons (env : FaultEnv) (a vpn : Nat) (req : UInt32) (i : Nat)
    (u : USegmentMapping) (us : List USegmentMapping) :
    s.asPmapFill leq env a vpn req i (u :: us) = s.asPmapFill leq env a vpn req (i + 1) us ∨
    (∃ e, s.asPmapFill leq env a vpn req i (u :: us) = (some e, s)) ∨
    ∃ id o w, (w = true → s.cobjGet leq env.ct u.object .rw = .ok (id, o)) ∧
      s.asPmapFill leq env a vpn req i (u :: us) = Machine.asPmapFillKobj env
        (s.modifyAs a (·.setSm i fun sm ↦ { sm with smCtId := u.container })) a i id o u vpn w := by
  simp only [Machine.asPmapFill]
  split
  · exact .inl rfl
  · split
    next id o hget =>
      have hw : u.has segmapWrite = true → s.cobjGet leq env.ct u.object .rw = .ok (id, o) := by
        intro hw
        rwa [if_pos hw] at hget
      split
      · exact .inr (.inl ⟨_, rfl⟩)
      · split
        · exact .inr (.inl ⟨_, rfl⟩)
        · exact .inr (.inr ⟨id, o, _, hw, rfl⟩)
    next =>
      split
      · split
        next id o _ =>
          split
          · exact .inr (.inl ⟨_, rfl⟩)
          · split
            · exact .inr (.inl ⟨_, rfl⟩)
            · exact .inr (.inr ⟨id, o, false, by simp, rfl⟩)
        · exact .inr (.inl ⟨_, rfl⟩)
      · exact .inr (.inl ⟨_, rfl⟩)

omit [Inhabited D] in
theorem segmentGet_ok (h : s.segmentGet leq ct object iflow = .ok (id, o)) :
    s.obj id = some o ∧ kobjectIflowCheck leq s.curThread o iflow = .ok () := by
  unfold Machine.segmentGet at h
  split at h
  · cases h
  next hget =>
    split at h
    · obtain ⟨rfl, rfl⟩ := Prod.mk.inj (Except.ok.inj h)
      exact (cobjGet_ok hget).2
    · cases h

end Checks

end HiStar.Vm
