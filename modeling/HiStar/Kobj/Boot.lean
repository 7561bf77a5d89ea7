import HiStar.Kobj.Syscall

namespace HiStar.Kobj

open Lib Function

/-- A program that is linked into the kernel. Its ELF headers give the sizes of the segments
to load, or cannot be read. -/
structure EmbedBin where
  name : String
  size : Nat
  loads : Except Errno (List Nat)

abbrev Image := List EmbedBin

/-- The search of `thread_create_embed`, which finds the last program of that name. -/
def embedBin (name : String) (image : Image) : Except Errno EmbedBin :=
  match (image.filter (·.name = name)).getLast? with
  | some prog => .ok prog
  | none => .error .panic

def emptyStore (encipher : Nat → Nat) : Store where
  ids := ∅
  obj := fun _ ↦ { koType := .dead }
  curThread := 0
  handleCounter := 0
  bf61Encipher := encipher

def setTotal (avoid : KobjType → Bool) (t : Nat) (o : Kobject) : Kobject :=
  { o with ctAvoidTypes := avoid, koQuotaTotal := t }

def pinRoot (o : Kobject) : Kobject :=
  { o with koQuotaTotal := ctQuotaInf, koRef := o.koRef + 1 }

def bootContainer (env : Env) (parent l : Nat) (avoid : KobjType → Bool) (t : Nat) : Sys Nat := do
  let c ← kobjectAlloc env .container l 0
  modifyObj c (setTotal avoid t)
  containerPut env parent c 0
  pure c

def segmentCreateEmbed (env : Env) (c l segsize : Nat) : Sys Unit := do
  let sg ← kobjectAlloc env .segment l 0
  segmentSetNbytes env sg segsize
  containerPut env c sg 0

def fsInit (env : Env) (c l : Nat) : List Nat → Sys Unit
  | [] => pure ()
  | size :: sizes => do
    segmentCreateEmbed env c l size
    fsInit env c l sizes

def threadAlloc (env : Env) (tracking clearance : Nat) : Sys Nat := do
  let t ← kobjectAlloc env .thread tracking clearance
  let sg ← kobjectAlloc env .segment tracking 0
  segmentSetNbytes env sg utlsDefsize
  kobjectIncref env sg t
  modifyObj t (setThSg sg)
  pure t

def threadJump (env : Env) (t label clearance : Nat) : Sys Unit := do
  let curClearance ← Exec.read (kobjectGetLabel env t .clearance)
  let qrTh ← kobjectQresReserve env (qresInit t) clearance
  onError (threadChangeLabel env t label) (kobjectQresRelease qrTh)
  let _ ← kobjectSetLabelPrepared t .clearance curClearance clearance qrTh
  pure ()

def nSegmapPerPage : Nat := 73

/-- Create the segments of an address space and map them; `smi` mappings have
been made. -/
def elfSegments (env : Env) (c as l : Nat) : Nat → List Nat → Sys Unit
  | _, [] => pure ()
  | smi, size :: sizes => do
    segmentCreateEmbed env c l size
    Exec.require (smi < nSegmapPerPage) .noMem
    kobjectSetNbytes env as pgsize
    elfSegments env c as l (smi + 1) sizes

/-- `thread_load_elf`; the segment after those of the file is the stack. -/
def threadLoadElf (env : Env) (c t objLabel thLabel thClearance : Nat) (prog : EmbedBin) :
    Sys Unit := do
  let segments ← Exec.lift prog.loads
  let as ← kobjectAlloc env .addressSpace objLabel 0
  containerPut env c as 0
  elfSegments env c as objLabel 0 (segments ++ [4 * pgsize])
  threadJump env t thLabel thClearance

def threadCreateEmbed (env : Env) (c objLabel thLabel thClearance : Nat) (image : Image) :
    Sys Unit := do
  let prog ← Exec.lift (embedBin "init" image)
  let tc ← bootContainer env c objLabel (fun _ ↦ false) (2 ^ 32)
  let t ← threadAlloc env thLabel thClearance
  containerPut env tc t 0
  threadLoadElf env tc t objLabel thLabel thClearance prog

def fscAvoidTypes : KobjType → Bool
  | .addressSpace | .device | .gate | .thread => true
  | _ => false

def bootRoots (env : Env) (objLabel : Nat) : Sys Nat := do
  let rootParentLabel ← kobjectAlloc env .label 0 0
  let rootParent ← kobjectAlloc env .container rootParentLabel 0
  modifyObj rootParent pinRoot
  bootContainer env rootParent objLabel (fun _ ↦ false) ctQuotaInf

def bootInit (env : Env) (rc : Nat) (image : Image) : Sys Unit := do
  let thLabel ← kobjectAlloc env .label 0 0
  let objLabel ← kobjectAlloc env .label 0 0
  let thClear ← kobjectAlloc env .label 0 0
  threadCreateEmbed env rc objLabel thLabel thClear image

/-- `user_bootstrap`, which stops the machine if anything fails. -/
def userBootstrap (env : Env) (image : Image) : Sys Unit := Exec.mapErr (fun _ ↦ .panic) (do
  let _ ← handleAlloc
  let objLabel ← kobjectAlloc env .label 0 0
  let rc ← bootRoots env objLabel
  let fsc ← bootContainer env rc objLabel fscAvoidTypes (2 ^ 32)
  fsInit env fsc objLabel (image.map (·.size))
  bootInit env rc image)

end HiStar.Kobj
