import HiStar.Lib.Exec
import HiStar.Types
import HiStar.Iflow.SmallMemory

namespace HiStar.Iflow

open Lib Function

inductive ThreadStatus
  | notStarted
  | runnable
  | suspended
  | halted
  deriving DecidableEq

/-- The parts of a kernel object that decide or record information flow. An id
of 0 in `koLabel` is a missing label. -/
structure Kobject where
  koType : KobjType
  koRef : Nat := 0
  koReadonly : Bool := false
  koLabel : KoLabel → Nat := fun _ ↦ 0
  thSg : Nat := 0
  thStatus : ThreadStatus := .notStarted
  thSchedParents : Nat × Nat := (0, 0)
  gtTeUnspec : Bool := false
  gtTeVisible : Bool := false
  lb : Label := labelAlloc lbLevelUndef

/-- What the rest of the kernel answers to one query: memory, quota, user
memory, container slots and the object store are outside this model, and every
answer is possible. -/
structure Answers where
  mem : MemEnv
  pageAlloc : Except Errno Unit
  kobjectQresReserve : Except Errno Unit
  segmentPages : Except Errno Unit
  checkUserAccess : Except Errno Unit
  containerSlotFind : Except Errno Unit
  containerPut : Except Errno Unit
  pstateSwapin : Errno

structure CompareCacheEnt where
  lhs : Nat
  rhs : Nat
  cmp : LevelComparator
  deriving DecidableEq

/-- The field `stray` counts the stores outside `compare_cache` so far, and `wild n` is what
the next of them does to the objects when there were `n` before: what lies before the array is
not known. -/
structure Kernel where
  obj : Nat → Option Kobject
  curThread : Nat
  handleCounter : Nat
  bf61Encipher : Nat → Nat
  compareCache : Nat → Option CompareCacheEnt
  compareCacheNext : Int
  answers : Nat → Answers
  clock : Nat
  stray : Nat
  wild : Nat → (Nat → Option Kobject) → Nat → Option Kobject

namespace Kernel

def label (k : Kernel) (id : Nat) : Option Label :=
  match k.obj id with
  | some ko => if ko.koType = .label then some ko.lb else none
  | none => none

def principal (k : Kernel) (id : Nat) : Option (Nat × Nat) :=
  match k.obj id with
  | some ko =>
    if ko.koType = .thread ∨ ko.koType = .gate then
      some (ko.koLabel .tracking, ko.koLabel .clearance)
    else none
  | none => none

def setObj (k : Kernel) (id : Nat) (ko : Kobject) : Kernel :=
  { k with obj := update k.obj id (some ko) }

def mapObj (k : Kernel) (id : Nat) (f : Kobject → Kobject) : Kernel :=
  { k with obj := update k.obj id ((k.obj id).map f) }

/-- Label `a` is below label `b`, both being labels of the kernel. -/
def LabelBelow (k : Kernel) (c : LevelComparator) (a b : Nat) : Prop :=
  ∃ la lb, k.label a = some la ∧ k.label b = some lb ∧ Below c la lb

end Kernel

/-- The state invariant: labels are well formed, threads and gates have both
their labels, a cached comparison is true, and the ids that the cipher has still
to give out are unused and differ from each other. The cipher of the kernel itself gives ids
again; this is an invariant of its runs once the cipher is cut off at some counter, with 0
for the later ids. -/
structure Kernel.Ok (k : Kernel) : Prop where
  label_fits : ∀ id l, k.label id = some l → Fits l
  has_labels : ∀ id t c, k.principal id = some (t, c) →
    ∃ lt lc, k.label t = some lt ∧ k.label c = some lc
  cache_sound : ∀ i e, k.compareCache i = some e → k.LabelBelow e.cmp e.lhs e.rhs
  encipher_lt : ∀ n, n < 2 ^ 61 → k.bf61Encipher n < 2 ^ 61
  encipher_inj : ∀ m n, k.handleCounter ≤ m → k.handleCounter ≤ n → m < 2 ^ 61 → n < 2 ^ 61 →
    k.bf61Encipher m ≠ 0 → k.bf61Encipher m = k.bf61Encipher n → m = n
  fresh : ∀ n, k.handleCounter ≤ n → n < 2 ^ 61 → k.bf61Encipher n ≠ 0 →
    k.obj (k.bf61Encipher n) = none
  no_thread_sg : k.obj kobjectIdThreadSg = none
  mem_small : ∀ n, (k.answers n).mem.Small
  tame : ∀ n o, k.wild n o = o

variable {k k' : Kernel} {id : Nat}

theorem Kernel.Ok.label_wf (hk : k.Ok) {l : Label}
    (h : k.label id = some l) : WellFormed l := (hk.label_fits id l h).wf

/-- An id that an allocation has taken from the cipher and not yet given to an
object. -/
structure Reserved (k : Kernel) (id : Nat) : Prop where
  unused : k.obj id = none
  ne_zero : id ≠ 0
  lt : id < 2 ^ 61
  not_next : ∀ n, k.handleCounter ≤ n → n < 2 ^ 61 → k.bf61Encipher n ≠ id

/-- A stretch of kernel code that touches no label of a thread or a gate: it
may allocate, count references and fill the cache. -/
structure Quiet (k k' : Kernel) : Prop where
  ok : k.Ok → k'.Ok
  labels : k.Ok → ∀ id l, k.label id = some l → k'.label id = some l
  principals : k.Ok → ∀ id, k'.principal id = k.principal id
  reserved : k.Ok → ∀ id, Reserved k id → Reserved k' id
  cur_or : k'.curThread = k.curThread ∨ k'.curThread = 0

structure Evolve (k k' : Kernel) : Prop extends Quiet k k' where
  cur : k'.curThread = k.curThread

theorem cur_or_trans {a b c : Nat} (h : b = a ∨ b = 0) (h' : c = b ∨ c = 0) : c = a ∨ c = 0 := by
  omega

theorem Quiet.trans {k'' : Kernel} (h : Quiet k k') (h' : Quiet k' k'') : Quiet k k'' where
  ok hk := h'.ok (h.ok hk)
  labels hk id l hl := h'.labels (h.ok hk) id l (h.labels hk id l hl)
  principals hk id := (h'.principals (h.ok hk) id).trans (h.principals hk id)
  reserved hk id hr := h'.reserved (h.ok hk) id (h.reserved hk id hr)
  cur_or := cur_or_trans h.cur_or h'.cur_or

theorem Quiet.below (h : Quiet k k') (hk : k.Ok) {c : LevelComparator} {a b : Nat}
    (hb : k.LabelBelow c a b) : k'.LabelBelow c a b := by
  obtain ⟨la, lb, ha, hb, hab⟩ := hb
  exact ⟨la, lb, h.labels hk _ _ ha, h.labels hk _ _ hb, hab⟩

namespace Evolve

variable {k k' k'' : Kernel}

theorem refl (k : Kernel) : Evolve k k :=
  ⟨⟨id, fun _ _ _ ↦ id, fun _ _ ↦ rfl, fun _ _ ↦ id, .inl rfl⟩, rfl⟩

theorem trans (h : Evolve k k') (h' : Evolve k' k'') : Evolve k k'' :=
  ⟨h.toQuiet.trans h'.toQuiet, h'.cur.trans h.cur⟩

end Evolve

abbrev Sys (α : Type) := Exec Kernel Errno α

instance : Std.Refl Evolve := ⟨Evolve.refl⟩

instance : IsTrans Kernel Evolve := ⟨fun _ _ _ ↦ Evolve.trans⟩

instance : IsTrans Kernel Quiet := ⟨fun _ _ _ ↦ Quiet.trans⟩

instance {α : Type} (c : Sys α) [h : Rel Evolve c] : Rel Quiet c := ⟨fun k ↦ (h.rel k).toQuiet⟩

theorem Evolve.of_ok {α : Type} {c : Sys α} [Rel Evolve c] {a : α}
    (hc : c k = (.ok a, k')) : Evolve k k' := Rel.ok hc

section MapObj

variable {k : Kernel} {i : Nat} {f : Kobject → Kobject}

theorem mapObj_none {id : Nat} (h : k.obj id = none) : (k.mapObj i f).obj id = none := by
  unfold Kernel.mapObj
  by_cases hi : id = i
  · subst hi
    simp [h]
  · simp [hi, h]

theorem label_mapObj (hf : ∀ o, (f o).koType = o.koType ∧ (f o).lb = o.lb) (id : Nat) :
    (k.mapObj i f).label id = k.label id := by
  unfold Kernel.label Kernel.mapObj
  by_cases h : id = i
  · subst h
    cases k.obj id with
    | none => simp
    | some o => simp [(hf o).1, (hf o).2]
  · simp [h]

theorem principal_mapObj (hf : ∀ o, (f o).koType = o.koType ∧ (f o).koLabel = o.koLabel)
    (id : Nat) : (k.mapObj i f).principal id = k.principal id := by
  unfold Kernel.principal Kernel.mapObj
  by_cases h : id = i
  · subst h
    cases k.obj id with
    | none => simp
    | some o => simp [(hf o).1, (hf o).2]
  · simp [h]

theorem below_congr {k k' : Kernel} (hl : ∀ id, k'.label id = k.label id) {c : LevelComparator}
    {a b : Nat} : k'.LabelBelow c a b ↔ k.LabelBelow c a b := by
  simp only [Kernel.LabelBelow, hl]

theorem ok_mapObj (hk : k.Ok) (hf : ∀ o, (f o).koType = o.koType ∧ (f o).lb = o.lb)
    (hp : ∀ id t c, (k.mapObj i f).principal id = some (t, c) →
      ∃ lt lc, k.label t = some lt ∧ k.label c = some lc) : (k.mapObj i f).Ok := by
  have hl := label_mapObj (k := k) (i := i) hf
  refine { hk with
    label_fits := fun id l h ↦ hk.label_fits id l ((hl id).symm.trans h)
    has_labels := fun id t c h ↦ ?_
    cache_sound := fun j e h ↦ (below_congr hl).mpr (hk.cache_sound j e h)
    fresh := fun n hn hlt hne ↦ mapObj_none (hk.fresh n hn hlt hne)
    no_thread_sg := mapObj_none hk.no_thread_sg }
  rw [hl, hl]
  exact hp id t c h

theorem evolve_mapObj_of (ht : ∀ o, (f o).koType = o.koType) (hlb : ∀ o, (f o).lb = o.lb)
    (hp : ∀ id, (k.mapObj i f).principal id = k.principal id) : Evolve k (k.mapObj i f) := by
  have hl := label_mapObj (k := k) (i := i) fun o ↦ ⟨ht o, hlb o⟩
  refine ⟨⟨fun hk ↦ ok_mapObj hk (fun o ↦ ⟨ht o, hlb o⟩) fun id t c h ↦ ?_,
    fun _ id l h ↦ (hl id).trans h, fun _ ↦ hp, fun _ id h ↦
    ⟨mapObj_none h.unused, h.ne_zero, h.lt, h.not_next⟩, .inl rfl⟩, rfl⟩
  exact hk.has_labels id t c ((hp id).symm.trans h)

theorem evolve_mapObj
    (hf : ∀ o, (f o).koType = o.koType ∧ (f o).lb = o.lb ∧ (f o).koLabel = o.koLabel) :
    Evolve k (k.mapObj i f) :=
  evolve_mapObj_of (fun o ↦ (hf o).1) (fun o ↦ (hf o).2.1)
    (principal_mapObj fun o ↦ ⟨(hf o).1, (hf o).2.2⟩)

end MapObj

theorem ne_threadSg (hk : k.Ok) {l : Label} (h : k.label id = some l) : id ≠ kobjectIdThreadSg := by
  rintro rfl
  simp [Kernel.label, hk.no_thread_sg] at h

def answer : Sys Answers := fun k ↦ (.ok (k.answers k.clock), { k with clock := k.clock + 1 })

instance : Rel Evolve answer := ⟨fun _ ↦
  ⟨⟨fun hk ↦ { hk with }, fun _ _ _ h ↦ h, fun _ _ ↦ rfl,
    fun _ _ h ↦ ⟨h.unused, h.ne_zero, h.lt, h.not_next⟩, .inl rfl⟩, rfl⟩⟩

def curThread : Sys Nat := Exec.read fun k ↦ .ok k.curThread

def ask (q : Answers → Except Errno Unit) : Sys Unit := do
  let a ← answer
  Exec.lift (q a)

instance (q : Answers → Except Errno Unit) : Rel Evolve (ask q) := by
  unfold ask
  infer_instance

def modifyObj (id : Nat) (f : Kobject → Kobject) : Sys Unit := Exec.modify fun k ↦ k.mapObj id f

/-- An update that keeps the type and the labels of the object. -/
instance (id : Nat) (ref : Kobject → Nat) (readonly unspec visible : Kobject → Bool)
    (sg : Kobject → Nat) (status : Kobject → ThreadStatus) (parents : Kobject → Nat × Nat) :
    Rel Evolve (modifyObj id fun o ↦ { o with
      koRef := ref o, koReadonly := readonly o, thSg := sg o, thStatus := status o
      thSchedParents := parents o, gtTeUnspec := unspec o, gtTeVisible := visible o }) :=
  ⟨fun _ ↦ evolve_mapObj fun _ ↦ ⟨rfl, rfl, rfl⟩⟩

def kobjectIncref (id : Nat) : Sys Unit := modifyObj id fun o ↦ { o with koRef := o.koRef + 1 }

instance (id : Nat) : Rel Evolve (kobjectIncref id) := by
  unfold kobjectIncref
  infer_instance

def deref (id : Nat) : Sys Kobject := Exec.read fun k ↦
  match k.obj id with
  | some ko => .ok ko
  | none => .error .panic

instance (id : Nat) : Rel Evolve (deref id) := .read _

def kobjectDecref (id : Nat) : Sys Unit := do
  let o ← deref id
  Exec.require (o.koRef ≠ 0) .panic
  modifyObj id fun o ↦ { o with koRef := o.koRef - 1 }

instance (id : Nat) : Rel Evolve (kobjectDecref id) := by
  unfold kobjectDecref
  infer_instance

theorem deref_ok {ko : Kobject} (h : deref id k = (.ok ko, k')) : k.obj id = some ko ∧ k' = k := by
  rw [deref, read_apply] at h
  cases ho : k.obj id with
  | none => simp [ho] at h
  | some o =>
    simp only [ho, Prod.mk.injEq, Except.ok.injEq] at h
    exact ⟨by rw [h.1], h.2.symm⟩

/-- The label that a pointer points to. -/
def derefLabel (id : Nat) : Sys Label := Exec.read fun k ↦
  match k.label id with
  | some l => .ok l
  | none => .error .panic

instance : Rel Evolve curThread := .read _

theorem deref_bind_ok {α : Type} {f : Kobject → Sys α} {a : α}
    (h : (deref id >>= f) k = (.ok a, k')) : ∃ ko, k.obj id = some ko ∧ f ko k = (.ok a, k') := by
  obtain ⟨ko, k1, hd, hf⟩ := bind_ok h
  obtain ⟨hko, rfl⟩ := deref_ok hd
  exact ⟨ko, hko, hf⟩

end HiStar.Iflow
