import HiStar.Errno
import HiStar.Lib.Exec
import HiStar.Lib.Overlay

namespace HiStar.Pstate

open Lib Function

def pgsize : Nat := 4096

/-- The contents of a disk block. A B-tree node says where its home is; of other
data the field is what its bytes happen to say. -/
structure Block (α : Type) where
  offset : Nat
  data : α
  deriving DecidableEq

/-- The fields of the header that the log and the synchronisation look at. The
root blocks of the trees and the state of the free list are kept as one value. -/
structure Header (ρ : Type) where
  phMagic : Bool
  phSyncTs : Nat
  phLogBlocks : Nat
  phLogMax : Nat
  phRoots : ρ
  deriving DecidableEq

/-- The partition: the header sector, and what is stored from each byte offset on.
The extent of an object is one block here; the free list hands out chunks that do
not overlap the ones in use, so each is known by its first byte. -/
structure Disk (α ρ : Type) where
  header : Header ρ
  block : Nat → Block α

inductive Request (α ρ : Type)
  | read (off : Nat)
  | write (off : Nat) (b : Block α)
  | writeHeader (h : Header ρ)
  | flush

variable {α ρ : Type}

def Request.land : Request α ρ → Disk α ρ → Disk α ρ
  | .write off b, d => { d with block := update d.block off b }
  | .writeHeader h, d => { d with header := h }
  | _, d => d

def Request.isRead : Request α ρ → Bool
  | .read _ => true
  | _ => false

def Disk.landAll (d : Disk α ρ) (rs : List (Request α ρ)) : Disk α ρ :=
  rs.foldl (fun d r ↦ r.land d) d

structure Device (α ρ : Type) where
  disk : Disk α ρ
  issued : List (Request α ρ)

/-- Which requests succeed, by their number; a write that fails may still have
reached the disk. -/
structure IoEnv where
  reads : Nat → Bool
  writes : Nat → Bool
  lands : Nat → Bool

def IoEnv.succeeds (io : IoEnv) (isRead : Bool) (n : Nat) : Bool :=
  if isRead then io.reads n else io.writes n

def IoEnv.perfect : IoEnv := ⟨fun _ ↦ true, fun _ ↦ true, fun _ ↦ true⟩

@[simp] theorem IoEnv.perfect_succeeds (isRead : Bool) (n : Nat) :
    IoEnv.perfect.succeeds isRead n = true := by
  cases isRead <;> rfl

namespace Device

def issue (io : IoEnv) (r : Request α ρ) (v : Device α ρ) : Bool × Device α ρ :=
  (io.succeeds r.isRead v.issued.length,
    { disk := if io.succeeds r.isRead v.issued.length || io.lands v.issued.length then r.land v.disk
        else v.disk
      issued := v.issued ++ [r] })

end Device

@[simp] theorem landAll_nil (d : Disk α ρ) : d.landAll [] = d := rfl

@[simp] theorem landAll_cons (d : Disk α ρ) (r : Request α ρ) (rs : List (Request α ρ)) :
    d.landAll (r :: rs) = (r.land d).landAll rs := rfl

theorem landAll_append (d : Disk α ρ) (rs qs : List (Request α ρ)) :
    d.landAll (rs ++ qs) = (d.landAll rs).landAll qs := List.foldl_append

def blockWrites : List (Request α ρ) → List (Nat × Block α)
  | [] => []
  | .write off b :: rs => (off, b) :: blockWrites rs
  | _ :: rs => blockWrites rs

theorem block_landAll (d : Disk α ρ) (rs : List (Request α ρ)) :
    (d.landAll rs).block = overlay (blockWrites rs) d.block := by
  induction rs generalizing d with
  | nil => rfl
  | cons r rs ih => cases r <;> simp [blockWrites, Request.land, ih]

end HiStar.Pstate
