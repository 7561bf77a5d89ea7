import HiStar.Errno
import HiStar.Lib.Exec

namespace HiStar.Pagetree

open Lib Function

def pagetreeDirectPages : Nat := 4

def pagetreeIndirects : Nat := 4

def pagetreeEntriesPerPage : Nat := 4096 / 32

structure PageInfo where
  piRef : Nat := 0
  piWriteSharedRef : Nat := 0
  piHwWritePin : Nat := 0
  piHwReadPin : Nat := 0
  piIndir : Bool := false
  piDirty : Bool := false
  piFreepage : Bool := false
  piParent : Nat := 0
  deriving DecidableEq

/-- Where an entry is kept: in the object that has the page tree, or on an
indirect page. -/
inductive Ent
  | direct (pt i : Nat)
  | indirect (pt i : Nat)
  | entry (pip i : Nat)
  deriving DecidableEq

/-- The page frames of the machine and the page trees over them. Frame 0 is the
null pointer. A frame is read as entries or as data, depending on its use. -/
structure Mem (α : Type) where
  info : Nat → PageInfo
  page : Ent → Nat
  data : Nat → α
  freeList : List Nat
  allocs : Nat
  /-- The calls of `page_alloc` that found no memory. -/
  refused : Nat

/-- What the page trees do not decide: the calls of `page_alloc` that find no
memory, and the read pins of a frame that are left when its read-only mappings
have been taken away. -/
structure Env where
  deny : Nat → Bool
  roPins : Nat → Nat

abbrev Sys (α β : Type) := Exec (Mem α) Errno β

variable {α : Type}

namespace Mem

def setInfo (p : Nat) (f : PageInfo → PageInfo) (s : Mem α) : Mem α :=
  { s with info := update s.info p (f (s.info p)) }

@[simp] theorem setInfo_page (p : Nat) (f : PageInfo → PageInfo) (s : Mem α) :
    (s.setInfo p f).page = s.page := rfl

@[simp] theorem setInfo_data (p : Nat) (f : PageInfo → PageInfo) (s : Mem α) :
    (s.setInfo p f).data = s.data := rfl

@[simp] theorem setInfo_freeList (p : Nat) (f : PageInfo → PageInfo) (s : Mem α) :
    (s.setInfo p f).freeList = s.freeList := rfl

@[simp] theorem setInfo_self (p : Nat) (f : PageInfo → PageInfo) (s : Mem α) :
    (s.setInfo p f).info p = f (s.info p) := update_self _ _ _

theorem setInfo_ne {p q : Nat} (f : PageInfo → PageInfo) (s : Mem α) (h : q ≠ p) :
    (s.setInfo p f).info q = s.info q := update_of_ne h _ _

theorem setInfo_congr {p : Nat} {f g : PageInfo → PageInfo} {s : Mem α}
    (h : f (s.info p) = g (s.info p)) : s.setInfo p f = s.setInfo p g := by
  unfold setInfo
  rw [h]

def setPage (e : Ent) (p : Nat) (s : Mem α) : Mem α := { s with page := update s.page e p }

@[simp] theorem setPage_info (e : Ent) (p : Nat) (s : Mem α) : (s.setPage e p).info = s.info := rfl

@[simp] theorem setPage_data (e : Ent) (p : Nat) (s : Mem α) : (s.setPage e p).data = s.data := rfl

@[simp] theorem setPage_freeList (e : Ent) (p : Nat) (s : Mem α) :
    (s.setPage e p).freeList = s.freeList := rfl

def clear [Zero α] (p : Nat) (s : Mem α) : Mem α :=
  { s with
    page := fun e ↦ match e with
      | .entry q i => if q = p then 0 else s.page (.entry q i)
      | e => s.page e
    data := update s.data p 0 }

def copyPage (src dst : Nat) (s : Mem α) : Mem α :=
  { s with
    page := fun e ↦ match e with
      | .entry q i => if q = dst then s.page (.entry src i) else s.page (.entry q i)
      | e => s.page e
    data := update s.data dst (s.data src) }

end Mem

def infoOf (p : Nat) : Sys α PageInfo := Exec.read fun s ↦ .ok (s.info p)

def pageOf (e : Ent) : Sys α Nat := Exec.read fun s ↦ .ok (s.page e)

def setInfo (p : Nat) (f : PageInfo → PageInfo) : Sys α Unit := Exec.modify (Mem.setInfo p f)

def pagetreeSetEntry (e : Ent) (p : Nat) : Sys α Unit := Exec.modify (Mem.setPage e p)

def pageAlloc (env : Env) : Sys α Nat := fun s ↦
  match s.freeList with
  | [] => (.error .restart, { s with allocs := s.allocs + 1, refused := s.refused + 1 })
  | p :: rest =>
    if env.deny s.allocs then
      (.error .restart, { s with allocs := s.allocs + 1, refused := s.refused + 1 })
    else if (s.info p).piFreepage then
      (.ok p, Mem.setInfo p (fun i ↦ { i with piFreepage := false })
        { s with freeList := rest, allocs := s.allocs + 1 })
    else (.error .panic, s)

def pageFree (p : Nat) : Sys α Unit := do
  let i ← infoOf p
  Exec.require (!i.piFreepage) .panic
  setInfo p fun i ↦ { i with piFreepage := true }
  Exec.modify fun s ↦ { s with freeList := p :: s.freeList }

def forLoop (f : Nat → Sys α Unit) : Nat → Nat → Sys α Unit
  | _, 0 => pure ()
  | i, n + 1 => do
    f i
    forLoop f (i + 1) n

def pagetreeIncref (p : Nat) : Sys α Unit := setInfo p fun i ↦ { i with piRef := i.piRef + 1 }

def dec32 (n : Nat) : Nat := if n = 0 then 2 ^ 32 - 1 else n - 1

def PageInfo.unused (i : PageInfo) : Bool :=
  i.piRef = 0 && i.piWriteSharedRef = 0 && i.piHwWritePin = 0 && i.piHwReadPin = 0

def pagetreeFreePage (decref : Nat → Sys α Unit) (p : Nat) : Sys α Unit := do
  let i ← infoOf p
  Exec.require i.unused .panic
  Exec.when i.piIndir (forLoop (fun j ↦ do
    let c ← pageOf (.entry p j)
    Exec.when (c ≠ 0) (do
      decref c
      pagetreeSetEntry (.entry p j) p)) 0 pagetreeEntriesPerPage)
  setInfo p fun _ ↦ {}
  pageFree p

/-- `pagetree_decref`, followed to a bounded depth of recursion. -/
def pagetreeDecref : Nat → Nat → Sys α Unit
  | 0, _ => Exec.fail .loops
  | depth + 1, p => do
    setInfo p fun i ↦ { i with piRef := dec32 i.piRef }
    let i ← infoOf p
    Exec.when (i.piRef = 0) (pagetreeFreePage (pagetreeDecref depth) p)

def stackDepth : Nat := pagetreeIndirects + 2

/-- The first loop of `pagetree_indir_copy`: the pages on `dst` get references. -/
def increfEntries (dst : Nat) : Sys α Unit :=
  forLoop (fun j ↦ do
    let c ← pageOf (.entry dst j)
    Exec.when (c ≠ 0) (pagetreeIncref c)) 0 pagetreeEntriesPerPage

/-- The second loop of `pagetree_indir_copy`: pages that hardware may write to
are not shared. -/
def cowPinnedEntries (cow : Ent → Sys α Bool) (dst : Nat) : Sys α Unit :=
  forLoop (fun j ↦ do
    let c ← pageOf (.entry dst j)
    let i ← infoOf c
    Exec.when (c ≠ 0 && i.piHwWritePin ≠ 0) (do
      let _ ← cow (.entry dst j)
      pure ())) 0 pagetreeEntriesPerPage

def pagetreeIndirCopy (cow : Ent → Sys α Bool) (src dst : Nat) : Sys α Unit := do
  increfEntries dst
  cowPinnedEntries cow dst
  let i ← infoOf src
  Exec.require i.piIndir .panic
  setInfo dst fun i ↦ { i with piIndir := true }

/-- The copy of a shared page that `pagetree_cow` puts into `ent`. -/
def cowCopy (env : Env) (cow : Ent → Sys α Bool) (ent : Ent) (p : Nat) : Sys α Unit := do
  let copy ← pageAlloc env
  let ci ← infoOf copy
  Exec.require ci.unused .panic
  Exec.modify (Mem.copyPage p copy)
  pagetreeIncref copy
  let i ← infoOf p
  Exec.when i.piIndir
    (Exec.onFail (pagetreeIndirCopy cow p copy) (pagetreeDecref stackDepth copy))
  let i ← infoOf p
  setInfo copy fun ci ↦ { ci with piDirty := i.piDirty }
  pagetreeDecref stackDepth p
  pagetreeSetEntry ent copy

/-- `pagetree_cow`; the result tells whether the page was copied. -/
def pagetreeCow (env : Env) : Nat → Ent → Sys α Bool
  | 0, _ => Exec.fail .loops
  | depth + 1, ent => do
    let p ← pageOf ent
    let i ← infoOf p
    if p = 0 then pure false
    else do
      Exec.require (0 < i.piRef) .panic
      if i.piRef ≤ 1 + i.piWriteSharedRef then pure false
      else do
        Exec.when (i.piHwReadPin ≠ 0) (do
          Exec.require (!i.piIndir) .panic
          setInfo p fun i ↦ { i with piHwReadPin := env.roPins p })
        cowCopy env (pagetreeCow env depth) ent p
        pure true

inductive PageSharingMode
  | sharedRo
  | exclDirty
  | exclDirtyLater
  deriving DecidableEq

def newIndirect [Zero α] (env : Env) (indir : Ent) : Sys α Nat := do
  let p ← pageAlloc env
  Exec.modify (Mem.clear p)
  pagetreeIncref p
  pagetreeSetEntry indir p
  setInfo p fun i ↦ { i with piIndir := true }
  pure p

/-- The indirect page behind `indir`, made private and created as the mode asks
for; 0 if there is none. -/
def enterIndirect [Zero α] (env : Env) (rw : PageSharingMode) (indir : Ent) (parent : Nat) :
    Sys α Nat := do
  Exec.when (rw ≠ .sharedRo) (do
    let _ ← pagetreeCow env stackDepth indir
    pure ())
  let p ← pageOf indir
  let pip ← if p = 0 ∧ rw ≠ .sharedRo then newIndirect env indir else pure p
  Exec.when (pip ≠ 0) (setInfo pip fun i ↦ { i with piParent := parent })
  pure pip

def narrow32 (n : Nat) : Nat := n % 2 ^ 32

/-- `pagetree_get_entp_indirect`: the entry, if there is one, and the indirect
page it is on. -/
def pagetreeGetEntpIndirect [Zero α] (env : Env) (rw : PageSharingMode) :
    Nat → Ent → Nat → Nat → Sys α (Option Ent × Nat)
  | 0, indir, npage, parent => do
    let pip ← enterIndirect env rw indir parent
    if pip = 0 then pure (none, 0) else pure (some (.entry pip npage), pip)
  | level + 1, indir, npage, parent => do
    let pip ← enterIndirect env rw indir parent
    if pip = 0 then pure (none, 0)
    else do
      let nPagesPerPipEntry := pagetreeEntriesPerPage ^ (level + 1)
      let nextSlot := narrow32 (npage / nPagesPerPipEntry)
      let nextPage := narrow32 (npage % nPagesPerPipEntry)
      Exec.require (nextSlot < pagetreeEntriesPerPage) .panic
      pagetreeGetEntpIndirect env rw level (.entry pip nextSlot) nextPage pip

/-- The loop of `pagetree_get_entp` over the indirect entries from `i` on. -/
def getEntpFrom [Zero α] (env : Env) (rw : PageSharingMode) (pt : Nat) :
    Nat → Nat → Nat → Sys α (Option Ent × Nat)
  | 0, _, _ => Exec.fail .noSpace
  | n + 1, i, npage =>
    if npage < pagetreeEntriesPerPage ^ (i + 1) then
      pagetreeGetEntpIndirect env rw i (.indirect pt i) npage 0
    else getEntpFrom env rw pt n (i + 1) (npage - pagetreeEntriesPerPage ^ (i + 1))

def pagetreeGetEntp [Zero α] (env : Env) (rw : PageSharingMode) (pt npage : Nat) :
    Sys α (Option Ent × Nat) :=
  if npage < pagetreeDirectPages then pure (some (.direct pt npage), 0)
  else getEntpFrom env rw pt pagetreeIndirects 0 (npage - pagetreeDirectPages)

def pagetreeGetPage [Zero α] (env : Env) (pt npage : Nat) (rw : PageSharingMode) :
    Sys α (Nat × Bool) := do
  let (ent, parent) ← pagetreeGetEntp env rw pt npage
  match ent with
  | none => pure (0, false)
  | some ent => do
    let page ← pageOf ent
    if rw = .sharedRo ∨ page = 0 then pure (page, false)
    else do
      let r ← pagetreeCow env stackDepth ent
      let page ← pageOf ent
      setInfo page fun i ↦ { i with piParent := parent }
      pure (page, r)

def pagetreePutPage [Zero α] (env : Env) (pt npage page : Nat) : Sys α Unit := do
  let (ent, parent) ← pagetreeGetEntp env .exclDirty pt npage
  match ent with
  | none => Exec.fail .panic
  | some ent => do
    let old ← pageOf ent
    Exec.when (old ≠ 0) (pagetreeDecref stackDepth old)
    Exec.when (page ≠ 0) (do
      pagetreeIncref page
      setInfo page fun i ↦ { i with piParent := parent })
    pagetreeSetEntry ent page

def pagetreeMaxpages : Nat :=
  pagetreeDirectPages + pagetreeEntriesPerPage ^ 1 + pagetreeEntriesPerPage ^ 2 +
    pagetreeEntriesPerPage ^ 3 + pagetreeEntriesPerPage ^ 4

end HiStar.Pagetree
