import HiStar.Iflow.Kernel

namespace HiStar.Iflow

open Lib Function

def compareCacheSize : Nat := 16

def compareCacheHas (k : Kernel) (lhs rhs : Nat) (c : LevelComparator) : Bool :=
  (findFrom (fun i ↦ k.compareCache i = some ⟨lhs, rhs, c⟩) 0 compareCacheSize).isSome

variable {k k' : Kernel} {c : LevelComparator} {u : Unit} {id id' : Nat} {ko : Kobject}
  {iflow : InfoFlowType}

theorem below_of_compareCacheHas (hk : k.Ok) {a b : Nat}
    (h : compareCacheHas k a b c = true) : k.LabelBelow c a b := by
  obtain ⟨i, hi⟩ := Option.isSome_iff_exists.mp h
  obtain ⟨-, -, hi, -⟩ := findFrom_some hi
  exact hk.cache_sound i _ (of_decide_eq_true hi)

def int32Succ (n : Int) : Int := if n = 2 ^ 31 - 1 then -2 ^ 31 else n + 1

/-- Enter a comparison into the cache. A negative index is a store outside the array. -/
def compareCachePut (lhs rhs : Nat) (c : LevelComparator) : Sys Unit := Exec.modify fun k ↦
  let cacheSlot := k.compareCacheNext.tmod compareCacheSize
  let k := { k with compareCacheNext := int32Succ k.compareCacheNext }
  if cacheSlot < 0 then { k with stray := k.stray + 1, obj := k.wild k.stray k.obj }
  else { k with compareCache := update k.compareCache cacheSlot.toNat (some ⟨lhs, rhs, c⟩) }

def labelCompare (l1 l2 : Nat) (c : LevelComparator) (cacheable : Bool) : Sys Unit := do
  let a ← derefLabel l1
  let b ← derefLabel l2
  let hit ← Exec.read fun k ↦ .ok (cacheable && compareCacheHas k l1 l2 c)
  if hit then pure ()
  else do
    Exec.lift (labelCompareAll a b c)
    Exec.when cacheable (compareCachePut l1 l2 c)

theorem compareCachePut_evolve {a b : Nat}
    (h : k.LabelBelow c a b) : Evolve k (compareCachePut a b c k).2 := by
  simp only [compareCachePut, modify_apply]
  split
  · refine ⟨⟨fun hk ↦ ?_, fun hk i l hl ↦ ?_, fun hk i ↦ ?_, fun hk i hi ↦ ?_, .inl rfl⟩, rfl⟩ <;>
      simp only [hk.tame]
    · exact { hk with }
    · exact hl
    · rfl
    · exact { hi with }
  · refine ⟨⟨fun hk ↦ { hk with cache_sound := fun i e he ↦ ?_ }, fun _ _ _ h ↦ h, fun _ _ ↦ rfl,
      fun _ _ h ↦ { h with }, .inl rfl⟩, rfl⟩
    simp only [update_apply] at he
    split at he
    · cases he
      exact h
    · exact hk.cache_sound i e he

theorem labelCompare_spec (l1 l2 : Nat) (c : LevelComparator) (cacheable : Bool) (k : Kernel) :
    Evolve k (labelCompare l1 l2 c cacheable k).2 ∧
    (k.Ok → (labelCompare l1 l2 c cacheable k).1 = .ok () → k.LabelBelow c l1 l2) := by
  unfold labelCompare derefLabel
  cases ha : k.label l1 with
  | none =>
    simp only [bind_apply, read_apply, ha]
    exact ⟨Evolve.refl k, fun _ h ↦ by cases h⟩
  | some a =>
    cases hb : k.label l2 with
    | none =>
      simp only [bind_apply, read_apply, ha, hb]
      exact ⟨Evolve.refl k, fun _ h ↦ by cases h⟩
    | some b =>
      simp only [bind_apply, read_apply, ha, hb]
      split
      next hc =>
        refine ⟨Evolve.refl k, fun hk _ ↦ below_of_compareCacheHas hk ?_⟩
        exact (Bool.and_eq_true _ _ ▸ hc).2
      next =>
        cases hall : labelCompareAll a b c with
        | error e => exact ⟨Evolve.refl k, fun _ h ↦ by cases h⟩
        | ok u =>
          have hbelow : k.LabelBelow c l1 l2 := ⟨a, b, ha, hb, labelCompareAll_sound hall⟩
          refine ⟨?_, fun _ _ ↦ hbelow⟩
          cases cacheable
          · exact Evolve.refl k
          · exact compareCachePut_evolve hbelow

instance (l1 l2 : Nat) (c : LevelComparator) (cacheable : Bool) :
    Rel Evolve (labelCompare l1 l2 c cacheable) := ⟨fun k ↦ (labelCompare_spec l1 l2 c cacheable k).1⟩

theorem labelCompare_ok {l1 l2 : Nat} {cacheable : Bool}
    (hk : k.Ok) (h : labelCompare l1 l2 c cacheable k = (.ok u, k')) : k.LabelBelow c l1 l2 :=
  (labelCompare_spec l1 l2 c cacheable k).2 hk (by rw [h])

def kobjectTranslateId (k : Kernel) (id : Nat) : Nat :=
  if id = kobjectIdThreadSg then
    match k.obj k.curThread with
    | some th => th.thSg
    | none => 0
  else id

/-- What `kobject_get` does with the object it found, with its information flow
check as a parameter. Label objects are not checked, and a type of `none` stands
for any type. -/
def kobjectFound (check : Kobject → Sys Unit) (type : Option KobjType) (id : Nat) :
    Option Kobject → Sys Nat
  | some ko =>
    if ko.koRef = 0 then Exec.fail .notFound
    else do
      if ko.koType ≠ .label then check ko
      if type ≠ none ∧ type ≠ some ko.koType then Exec.fail .notFound
      else return id
  | none => do
    let a ← answer
    Exec.fail a.pstateSwapin

def kobjectLookup (check : Kobject → Sys Unit) (id : Nat) (type : Option KobjType) : Sys Nat :=
  fun k ↦ kobjectFound check type (kobjectTranslateId k id) (k.obj (kobjectTranslateId k id)) k

instance {check : Kobject → Sys Unit} [∀ ko, Rel Evolve (check ko)] (type : Option KobjType)
    (id : Nat) (o : Option Kobject) : Rel Evolve (kobjectFound check type id o) := by
  cases o <;> unfold kobjectFound <;> infer_instance

instance {check : Kobject → Sys Unit} [∀ ko, Rel Evolve (check ko)] (id : Nat)
    (type : Option KobjType) : Rel Evolve (kobjectLookup check id type) := 
  .of_state fun k ↦ kobjectFound check type (kobjectTranslateId k id)
    (k.obj (kobjectTranslateId k id))

theorem kobjectLookup_id {check : Kobject → Sys Unit} {type : Option KobjType}
    (hid : id ≠ kobjectIdThreadSg)
    (h : kobjectLookup check id type k = (.ok id', k')) : id' = id := by
  unfold kobjectLookup kobjectTranslateId at h
  rw [if_neg hid] at h
  cases hko : k.obj id with
  | none =>
    rw [hko] at h
    obtain ⟨a, k1, -, h⟩ := bind_ok h
    cases h
  | some ko =>
    rw [hko] at h
    simp only [kobjectFound] at h
    split at h
    · cases h
    · split at h
      · obtain ⟨u, k1, -, h⟩ := bind_ok h
        split at h
        · cases h
        · cases h; rfl
      · split at h
        · cases h
        · cases h; rfl

/-- A successful lookup names an object of the requested type, and unless it is
a label the check has passed on it. -/
theorem kobjectLookup_ok {check : Kobject → Sys Unit} {type : Option KobjType}
    (h : kobjectLookup check id type k = (.ok id', k')) :
    ∃ ko, k.obj id' = some ko ∧ (∀ ty, type = some ty → ko.koType = ty) ∧
      (ko.koType ≠ .label → ∃ u, check ko k = (.ok u, k')) ∧ (ko.koType = .label → k' = k) := by
  unfold kobjectLookup at h
  generalize hid : kobjectTranslateId k id = i at h
  cases hko : k.obj i with
  | none =>
    rw [hko] at h
    obtain ⟨a, k1, -, h⟩ := bind_ok h
    cases h
  | some ko =>
    have htype : ¬ (type ≠ none ∧ type ≠ some ko.koType) → ∀ ty, type = some ty → ko.koType = ty := by
      rintro hty ty rfl
      simpa [eq_comm] using hty
    rw [hko] at h
    simp only [kobjectFound] at h
    split at h
    · cases h
    · split at h
      next hl =>
        obtain ⟨u, k1, hc, h⟩ := bind_ok h
        split at h
        · cases h
        next hty =>
          cases h
          exact ⟨ko, hko, htype hty, fun _ ↦ ⟨u, hc⟩, fun hl' ↦ absurd hl' hl⟩
      next hl =>
        split at h
        · cases h
        next hty =>
          cases h
          exact ⟨ko, hko, htype hty, fun hl' ↦ absurd hl' hl, fun _ ↦ rfl⟩

def kobjectGetNone (id : Nat) (type : Option KobjType) : Sys Nat :=
  kobjectLookup (fun _ ↦ pure ()) id type

instance (id : Nat) (type : Option KobjType) :
    Rel Evolve (kobjectGetNone id type) := by
  unfold kobjectGetNone
  infer_instance

def labelCompareId (l1 l2 : Nat) (c : LevelComparator) : Sys Unit := do
  let hit ← Exec.read fun k ↦ .ok (compareCacheHas k l1 l2 c)
  if hit then pure ()
  else do
    let l1Ko ← kobjectGetNone l1 (some .label)
    let l2Ko ← kobjectGetNone l2 (some .label)
    labelCompare l1Ko l2Ko c true

instance (l1 l2 : Nat) (c : LevelComparator) :
    Rel Evolve (labelCompareId l1 l2 c) := by
  unfold labelCompareId
  infer_instance

theorem kobjectGetNone_label (hid : id ≠ kobjectIdThreadSg)
    (h : kobjectGetNone id (some .label) k = (.ok id', k')) : id' = id ∧ k' = k := by
  have hid' : id' = id := kobjectLookup_id hid h
  obtain ⟨ko, -, hty, -, hk'⟩ := kobjectLookup_ok h
  exact ⟨hid', hk' (hty _ rfl)⟩

theorem labelCompareId_ok {l1 l2 : Nat}
    (hk : k.Ok) (h1 : l1 ≠ kobjectIdThreadSg) (h2 : l2 ≠ kobjectIdThreadSg)
    (h : labelCompareId l1 l2 c k = (.ok u, k')) : k.LabelBelow c l1 l2 := by
  obtain ⟨_, _, hread, h⟩ := bind_ok h
  cases hread
  split at h
  next hc => exact below_of_compareCacheHas hk hc
  next =>
    obtain ⟨a, k1, ha, hrest⟩ := bind_ok h
    obtain ⟨b, k2, hb, hcmp⟩ := bind_ok hrest
    obtain ⟨rfl, rfl⟩ := kobjectGetNone_label h1 ha
    obtain ⟨rfl, rfl⟩ := kobjectGetNone_label h2 hb
    exact labelCompare_ok hk hcmp

/-- The comparisons of `kobject_iflow_check` between an object and the current
thread. -/
def iflowCompare (ko th : Kobject) : InfoFlowType → Sys Unit
  | .none => pure ()
  | .read => labelCompareId (ko.koLabel .tracking) (th.koLabel .tracking) .starhi
  | .rw => do
    Exec.require (!ko.koReadonly) .readOnly
    labelCompareId (th.koLabel .tracking) (ko.koLabel .tracking) .starlo
    labelCompareId (ko.koLabel .tracking) (th.koLabel .tracking) .starhi
  | .alloc => do
    labelCompareId (th.koLabel .tracking) (ko.koLabel .tracking) .starlo
    if ko.koLabel .clearance ≠ 0 then do
      labelCompareId (ko.koLabel .tracking) (ko.koLabel .clearance) .starlo
      labelCompareId (ko.koLabel .clearance) (th.koLabel .clearance) .starlo
    else labelCompareId (ko.koLabel .tracking) (th.koLabel .clearance) .starlo

def kobjectIflowCheck (ko : Kobject) (iflow : InfoFlowType) : Sys Unit :=
  if iflow = .none then pure ()
  else do
    let t ← curThread
    if t = 0 then pure ()
    else do
      let th ← deref t
      Exec.require (th.koLabel .tracking ≠ 0 ∧ th.koLabel .clearance ≠ 0) .panic
      if ko.koLabel .tracking = 0 then Exec.fail .label else iflowCompare ko th iflow

def kobjectGet (id : Nat) (type : Option KobjType) (iflow : InfoFlowType) : Sys Nat :=
  kobjectLookup (fun ko ↦ kobjectIflowCheck ko iflow) id type

instance (ko th : Kobject) (iflow : InfoFlowType) :
    Rel Evolve (iflowCompare ko th iflow) := by
  cases iflow <;> unfold iflowCompare <;> infer_instance

instance (ko : Kobject) (iflow : InfoFlowType) :
    Rel Evolve (kobjectIflowCheck ko iflow) := by
  unfold kobjectIflowCheck
  infer_instance

instance (id : Nat) (type : Option KobjType) (iflow : InfoFlowType) :
    Rel Evolve (kobjectGet id type iflow) := by
  unfold kobjectGet
  infer_instance

/-- What a passed check says about the object, for a thread with tracking label
`tl` and clearance `tc`. -/
def Permits (k : Kernel) (ko : Kobject) (tl tc : Nat) : InfoFlowType → Prop
  | .none => True
  | .read => k.LabelBelow .starhi (ko.koLabel .tracking) tl
  | .rw => k.LabelBelow .starlo tl (ko.koLabel .tracking) ∧
    k.LabelBelow .starhi (ko.koLabel .tracking) tl
  | .alloc => k.LabelBelow .starlo tl (ko.koLabel .tracking) ∧
    (ko.koLabel .clearance ≠ 0 →
      k.LabelBelow .starlo (ko.koLabel .tracking) (ko.koLabel .clearance) ∧
      k.LabelBelow .starlo (ko.koLabel .clearance) tc)

def Proper (ko : Kobject) : Prop :=
  ko.koLabel .tracking ≠ kobjectIdThreadSg ∧ ko.koLabel .clearance ≠ kobjectIdThreadSg

theorem iflowCompare_ok {th : Kobject} (hk : k.Ok) (hko : Proper ko) (hth : Proper th)
    (h : iflowCompare ko th iflow k = (.ok u, k')) :
    Permits k' ko (th.koLabel .tracking) (th.koLabel .clearance) iflow := by
  have hev := Evolve.of_ok h
  cases iflow with
  | none => trivial
  | read => exact hev.below hk (labelCompareId_ok hk hko.1 hth.1 h)
  | rw =>
    obtain ⟨-, h⟩ := require_bind_ok h
    obtain ⟨_, k2, h1, h2⟩ := bind_ok h
    have hk2 := Evolve.of_ok h1
    have hk3 := Evolve.of_ok h2
    exact ⟨hev.below hk (labelCompareId_ok hk hth.1 hko.1 h1),
      hk3.below (hk2.ok hk) (labelCompareId_ok (hk2.ok hk) hko.1 hth.1 h2)⟩
  | alloc =>
    obtain ⟨_, k1, h1, h⟩ := bind_ok h
    have hk1 := Evolve.of_ok h1
    refine ⟨hev.below hk (labelCompareId_ok hk hth.1 hko.1 h1), fun hc ↦ ?_⟩
    rw [if_pos hc] at h
    obtain ⟨_, k2, h2, h⟩ := bind_ok h
    have hk2 := Evolve.of_ok h2
    have hk3 := Evolve.of_ok h
    have hok2 := hk2.ok (hk1.ok hk)
    exact ⟨hk3.below hok2 (hk2.below (hk1.ok hk) (labelCompareId_ok (hk1.ok hk) hko.1 hko.2 h2)),
      hk3.below hok2 (labelCompareId_ok hok2 hko.2 hth.2 h)⟩

theorem principal_some {t c : Nat} (h : k.principal id = some (t, c)) :
    ∃ ko, k.obj id = some ko ∧ (ko.koType = .thread ∨ ko.koType = .gate) ∧
      ko.koLabel .tracking = t ∧ ko.koLabel .clearance = c := by
  unfold Kernel.principal at h
  split at h
  next ko hko =>
    split at h
    next hty =>
      cases h
      exact ⟨ko, hko, hty, rfl, rfl⟩
    next => cases h
  next => cases h

theorem proper_of_labels (hk : k.Ok) {l c : Label} (hl : k.label (ko.koLabel .tracking) = some l)
    (hc : k.label (ko.koLabel .clearance) = some c) : Proper ko :=
  ⟨ne_threadSg hk hl, ne_threadSg hk hc⟩

theorem principal_obj (hk : k.Ok) {t c : Nat}
    (h : k.principal id = some (t, c)) (hko : k.obj id = some ko) :
    Proper ko ∧ ko.koLabel .tracking = t ∧ ko.koLabel .clearance = c := by
  obtain ⟨ko', hobj, -, ht, hc⟩ := principal_some h
  obtain rfl := Option.some.inj (hko.symm.trans hobj)
  obtain ⟨lt, lc, hlt, hlc⟩ := hk.has_labels _ _ _ h
  subst ht hc
  exact ⟨proper_of_labels hk hlt hlc, rfl, rfl⟩

/-- A check that passes is a comparison of labels with those of the current thread. -/
theorem kobjectIflowCheck_compares {th : Kobject}
    (hn : iflow ≠ .none) (hcur : k.curThread ≠ 0) (hobj : k.obj k.curThread = some th)
    (h : kobjectIflowCheck ko iflow k = (.ok u, k')) : iflowCompare ko th iflow k = (.ok u, k') := by
  rw [kobjectIflowCheck, if_neg hn] at h
  obtain ⟨_, _, hread, h⟩ := bind_ok h
  cases hread
  rw [if_neg hcur] at h
  obtain ⟨th', hobj', h⟩ := deref_bind_ok h
  obtain rfl := Option.some.inj (hobj.symm.trans hobj')
  obtain ⟨-, h⟩ := require_bind_ok h
  split at h
  · cases h
  · exact h

theorem kobjectIflowCheck_ok {tl tc : Nat} (hk : k.Ok) (hcur : k.curThread ≠ 0)
    (hth : k.principal k.curThread = some (tl, tc)) (hko : Proper ko)
    (h : kobjectIflowCheck ko iflow k = (.ok u, k')) : Permits k' ko tl tc iflow := by
  obtain ⟨th, hobj, -⟩ := principal_some hth
  obtain ⟨hpth, rfl, rfl⟩ := principal_obj hk hth hobj
  by_cases hn : iflow = .none
  · subst hn
    trivial
  · exact iflowCompare_ok hk hko hpth (kobjectIflowCheck_compares hn hcur hobj h)

end HiStar.Iflow
