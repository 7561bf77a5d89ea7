import HiStar.Pstate.Iov

namespace HiStar.Pstate

open Lib Function

def kobjDiskSize : Nat := 512

def readLe (b : Bytes) : Nat → Nat → Nat
  | _, 0 => 0
  | at', n + 1 => (b at').toNat + 256 * readLe b (at' + 1) n

def writeLe (b : Bytes) (at' n v : Nat) : Bytes := fun a ↦
  if at' ≤ a ∧ a < at' + n then UInt8.ofNat (v / 256 ^ (a - at')) else b a

theorem readLe_congr {b b' : Bytes} {at' n : Nat} (h : ∀ a, at' ≤ a → a < at' + n → b a = b' a) :
    readLe b at' n = readLe b' at' n := by
  induction n generalizing at' with
  | zero => rfl
  | succ n ih =>
    simp only [readLe]
    rw [h at' le_rfl (by omega), ih fun a ha hb ↦ h a (by omega) (by omega)]

theorem readLe_writeLe {b : Bytes} {at' n to' k v : Nat} (h : at' + n ≤ to' ∨ to' + k ≤ at') :
    readLe (writeLe b to' k v) at' n = readLe b at' n := by
  apply readLe_congr
  intro a ha hb
  simp only [writeLe, ite_eq_right_iff]
  omega

theorem writeLe_eq_iff {b : Bytes} {at' n v : Nat} :
    (∀ a, at' ≤ a → a < at' + n → b a = UInt8.ofNat (v / 256 ^ (a - at'))) ↔
      readLe b at' n = v % 256 ^ n := by
  induction n generalizing at' v with
  | zero =>
    simp only [readLe, pow_zero, Nat.mod_one, iff_true]
    omega
  | succ n ih =>
    have hfirst : b at' = UInt8.ofNat v ↔ (b at').toNat = v % 256 := by
      rw [← UInt8.toNat_inj, UInt8.toNat_ofNat']
    have hrest := @ih (at' + 1) (v / 256)
    have hpow : v % 256 ^ (n + 1) = v % 256 + 256 * (v / 256 % 256 ^ n) := by
      rw [pow_succ', Nat.mod_mul]
    have hlt := (b at').toNat_lt
    rw [readLe, hpow]
    constructor
    · intro h
      have hat := hfirst.mp (by simpa using h at' le_rfl (by omega))
      rw [hat, hrest.mp fun a ha hb ↦ ?_]
      have := h a (by omega) (by omega)
      rwa [show a - at' = a - (at' + 1) + 1 by omega, pow_succ', ← Nat.div_div_eq_div_mul] at this
    · intro h a ha hb
      rcases Nat.eq_or_lt_of_le ha with rfl | ha
      · simpa using hfirst.mpr (by omega)
      · have := hrest.mpr (by omega) a (by omega) (by omega)
        rwa [show a - at' = a - (at' + 1) + 1 by omega, pow_succ', ← Nat.div_div_eq_div_mul]

theorem readLe_writeLe_same (b : Bytes) (at' n v : Nat) :
    readLe (writeLe b at' n v) at' n = v % 256 ^ n := by
  apply writeLe_eq_iff.mp
  intro a ha hb
  simp [writeLe, ha, hb]

theorem readLe_lt (b : Bytes) (at' n : Nat) : readLe b at' n < 256 ^ n := by
  induction n generalizing at' with
  | zero => simp [readLe]
  | succ n ih =>
    have := ih (at' + 1)
    have := (b at').toNat_lt
    simp only [readLe, pow_succ]
    omega

def SameHeader (a b : Bytes) : Prop := ∀ i < kobjDiskSize, a i = b i

namespace SameHeader

variable {g h : Bytes}

theorem readLe (heq : SameHeader g h) {at' n : Nat} (hin : at' + n ≤ kobjDiskSize) :
    readLe g at' n = Pstate.readLe h at' n :=
  readLe_congr fun a _ ha ↦ heq a (by omega)

theorem writeLe (heq : SameHeader g h) (at' n v : Nat) :
    SameHeader (writeLe g at' n v) (Pstate.writeLe h at' n v) := by
  intro i hi
  simp only [Pstate.writeLe, heq i hi]

end SameHeader

/-- The two agree in the header, the fields of the list apart. -/
def Agrees (skip : List (Nat × Nat)) (g h : Bytes) : Prop :=
  ∀ i < kobjDiskSize, (∀ f ∈ skip, i < f.1 ∨ f.1 + f.2 ≤ i) → g i = h i

section Agrees

variable {skip : List (Nat × Nat)} {g h : Bytes} {at' n v : Nat}

theorem agrees_writeLe
    (hnew : at' + n ≤ kobjDiskSize ∧ ∀ f ∈ skip, at' + n ≤ f.1 ∨ f.1 + f.2 ≤ at') :
    Agrees skip (writeLe g at' n v) h ↔
      readLe h at' n = v % 256 ^ n ∧ Agrees ((at', n) :: skip) g h := by
  rw [← writeLe_eq_iff]
  constructor
  · intro hag
    refine ⟨fun a ha hb ↦ ?_, fun i hi hskip ↦ ?_⟩
    · have hother : ∀ f ∈ skip, a < f.1 ∨ f.1 + f.2 ≤ a := by
        intro f hf
        have := hnew.2 f hf
        omega
      have := hag a (by omega) hother
      rw [writeLe, if_pos ⟨ha, hb⟩] at this
      exact this.symm
    · obtain ⟨hout, hskip⟩ := List.forall_mem_cons.mp hskip
      have := hag i hi hskip
      rwa [writeLe, if_neg (by dsimp only at hout; omega)] at this
  · rintro ⟨hval, hrest⟩ i hi hskip
    by_cases hf : at' ≤ i ∧ i < at' + n
    · rw [writeLe, if_pos hf, hval i hf.1 hf.2]
    · rw [writeLe, if_neg hf]
      exact hrest i hi (List.forall_mem_cons.mpr ⟨by dsimp only; omega, hskip⟩)

theorem agrees_overwritten (hold : (at', n) ∈ skip) :
    Agrees skip (writeLe g at' n v) h ↔ Agrees skip g h := by
  refine forall₃_congr fun i _ hskip ↦ ?_
  have hout := hskip _ hold
  rw [writeLe, if_neg (by dsimp only at hout; omega)]

theorem agrees_nil : Agrees [] g h ↔ SameHeader g h := by
  simp [Agrees, SameHeader]

theorem agrees_refl (skip : List (Nat × Nat)) (h : Bytes) : Agrees skip h h := fun _ _ _ ↦ rfl

end Agrees

-- The fields of `struct kobject_hdr`, by their offsets.
def koId (h : Bytes) : Nat := readLe h 0 8

def koNbytes (h : Bytes) : Nat := readLe h 72 8

def koFlags (h : Bytes) : Nat := readLe h 176 4

def koType (h : Bytes) : Nat := readLe h 180 4

def koPinPg (h : Bytes) : Nat := readLe h 200 4

def koPin (h : Bytes) : Nat := readLe h 204 4

def setKoFlags (h : Bytes) (flags : Nat) : Bytes := writeLe h 176 4 flags

def setKoSyncTs (h : Bytes) (ts : Nat) : Bytes := writeLe h 184 8 ts

def setKoPinPg (h : Bytes) (n : Nat) : Bytes := writeLe h 200 4 n

def setKoPin (h : Bytes) (n : Nat) : Bytes := writeLe h 204 4 n

def kobjOnDisk : Nat := 2

-- `enum kobject_type_enum`
def kobjThread : Nat := 1

def kobjSegment : Nat := 3

def kobjAddressSpace : Nat := 4

def kobjDevice : Nat := 5

-- The fields of `struct Thread` that are set when it comes in, on amd64.
def thAs (h : Bytes) : Nat := readLe h 400 8

def thStatus (h : Bytes) : Nat := readLe h 408 1

def thBits (h : Bytes) : Nat := readLe h 409 1

def thSchedRemain (h : Bytes) : Nat := readLe h 440 8

def thLinkNext (h : Bytes) : Nat := readLe h 448 8

def thLinkPrev (h : Bytes) : Nat := readLe h 456 8

def setThBits (h : Bytes) (bits : Nat) : Bytes := writeLe h 409 1 bits

def threadRunnable : Nat := 2

def threadSuspended : Nat := 3

def thPinned : Nat := 0x01

def thSchedJoined : Nat := 0x08

def thSyncWaiting : Nat := 0x10

def thLinked : Nat := 0x40

/-- What an object that comes in finds in memory. -/
structure Core where
  loaded : Nat → Bool
  /-- `LIST_FIRST(&thread_list_runnable)` and its address -/
  runnableFirst : Nat
  runnableHead : Nat
  /-- `global_pass` after `global_pass_update` -/
  globalPass : Nat

def kobjectPinHdr (h : Bytes) : Bytes := setKoPin h (koPin h + 1)

def threadPin (h : Bytes) : Bytes :=
  if thBits h &&& thPinned = 0 then kobjectPinHdr (setThBits h (thBits h ||| thPinned)) else h

def threadLink (c : Core) (h : Bytes) : Bytes :=
  let h := writeLe h 448 8 c.runnableFirst
  let h := writeLe h 456 8 c.runnableHead
  setThBits h (thBits h ||| thLinked)

def schedJoin (c : Core) (h : Bytes) : Bytes := writeLe h 440 8 (c.globalPass + thSchedRemain h)

def threadSchedAdjust (c : Core) (h : Bytes) : Bytes :=
  if thBits h &&& thSchedJoined = 0 then
    let h := schedJoin c h
    setThBits h (thBits h ||| thSchedJoined)
  else h

def thIncore : Nat := thPinned ||| thSchedJoined ||| thSyncWaiting ||| thLinked

def clearThread (h : Bytes) : Bytes :=
  let h := writeLe h 400 8 0
  let h := setThBits h (thBits h &&& (0xff ^^^ thIncore))
  writeLe h 440 8 0

def threadSwapin (c : Core) (h : Bytes) : Bytes :=
  let h := clearThread h
  let h := if thStatus h = threadSuspended then writeLe h 408 1 threadRunnable else h
  if thStatus h = threadRunnable then threadPin (threadSchedAdjust c (threadLink c h)) else h

-- `as_segmap_pt` and `as_pgmap` are next to each other
def asSwapin (h : Bytes) : Bytes := writeLe h 232 264 0

def segmentSwapin (h : Bytes) : Bytes := writeLe h 208 8 0

def deviceSwapin (h : Bytes) : Bytes := writeLe h 224 8 0

/-- `KOBJ_SNAPSHOTING | KOBJ_DIRTY | KOBJ_SHARED_MAPPINGS | KOBJ_SNAPSHOT_DIRTY` -/
def kobjIncore : Nat := 0x04 ||| 0x08 ||| 0x80 ||| 0x10

/-- The header after what is reset in every object. -/
def resetHdr (h : Bytes) : Bytes :=
  let h := setKoPin h 0
  let h := setKoPinPg h 0
  setKoFlags h (koFlags h &&& (0xffffffff ^^^ kobjIncore))

/-- The header of an object that came in. -/
def swapinHdr (c : Core) (h : Bytes) : Bytes :=
  let h := resetHdr h
  if koType h = kobjThread then threadSwapin c h
  else if koType h = kobjAddressSpace then asSwapin h
  else if koType h = kobjSegment then segmentSwapin h
  else if koType h = kobjDevice then deviceSwapin h
  else h

structure ThreadSettled (c : Core) (h : Bytes) : Prop where
  unmapped : thAs h = 0
  status : thStatus h ≠ threadSuspended
  halted : thStatus h ≠ threadRunnable →
    koPin h = 0 ∧ thBits h &&& thIncore = 0 ∧ thSchedRemain h = 0
  runnable : thStatus h = threadRunnable →
    koPin h = 1 ∧ thBits h &&& thIncore = thPinned ||| thSchedJoined ||| thLinked ∧
      thSchedRemain h = c.globalPass % 2 ^ 64 ∧ thLinkNext h = c.runnableFirst % 2 ^ 64 ∧
      thLinkPrev h = c.runnableHead % 2 ^ 64

/-- The fields that hold in-core state are as they are set when an object comes in. -/
structure Settled (c : Core) (h : Bytes) : Prop where
  pages : koPinPg h = 0
  flags : koFlags h &&& kobjIncore = 0
  thread : koType h = kobjThread → ThreadSettled c h
  other : koType h ≠ kobjThread → koPin h = 0
  addressSpace : koType h = kobjAddressSpace → readLe h 232 264 = 0
  segment : koType h = kobjSegment → readLe h 208 8 = 0
  device : koType h = kobjDevice → readLe h 224 8 = 0

theorem masked_eq_iff {v w : Nat} (mask : Nat) (hv : v < 2 ^ w) :
    v = v &&& ((2 ^ w - 1) ^^^ mask) ↔ v &&& mask = 0 := by
  have hbit (i : Nat) : v.testBit i = (v &&& ((2 ^ w - 1) ^^^ mask)).testBit i ↔
      (v &&& mask).testBit i = false := by
    by_cases hi : i < w
    · cases hb : v.testBit i <;> simp [hb, hi, Nat.testBit_two_pow_sub_one]
    · have hz : v.testBit i = false :=
        Nat.testBit_lt_two_pow (hv.trans_le (Nat.pow_le_pow_right (by simp) (not_lt.mp hi)))
      simp [hz]
  constructor
  · intro h
    exact Nat.eq_of_testBit_eq fun i ↦ ((hbit i).mp (congrArg (·.testBit i) h)).trans (by simp)
  · intro h
    exact Nat.eq_of_testBit_eq fun i ↦ (hbit i).mpr (by simp [h])

theorem thBits_lt (h : Bytes) : thBits h < 256 := readLe_lt h 409 1

theorem koFlags_lt (h : Bytes) : koFlags h < 2 ^ 32 := readLe_lt h 176 4

section SameHeader

variable {g h : Bytes} (c : Core)

theorem koId_congr (heq : SameHeader g h) : koId g = koId h := heq.readLe (by decide)

theorem threadPin_congr (heq : SameHeader g h) : SameHeader (threadPin g) (threadPin h) := by
  have hbits : thBits g = thBits h := heq.readLe (by decide)
  have hset := heq.writeLe 409 1 (thBits h ||| thPinned)
  have hpin := hset.readLe (show 204 + 4 ≤ kobjDiskSize by decide)
  simp only [threadPin, kobjectPinHdr, setThBits, koPin, setKoPin, hbits, hpin]
  split
  · exact hset.writeLe _ _ _
  · exact heq

theorem threadSchedAdjust_congr (heq : SameHeader g h) :
    SameHeader (threadSchedAdjust c g) (threadSchedAdjust c h) := by
  have hbits : thBits g = thBits h := heq.readLe (by decide)
  have hremain : thSchedRemain g = thSchedRemain h := heq.readLe (by decide)
  have hset := heq.writeLe 440 8 (c.globalPass + thSchedRemain h)
  have hbits' := hset.readLe (show 409 + 1 ≤ kobjDiskSize by decide)
  simp only [threadSchedAdjust, schedJoin, hbits, hremain]
  split
  · simp only [setThBits, thBits, hbits']
    exact hset.writeLe _ _ _
  · exact heq

theorem threadLink_congr (heq : SameHeader g h) :
    SameHeader (threadLink c g) (threadLink c h) := by
  have hset := (heq.writeLe 448 8 c.runnableFirst).writeLe 456 8 c.runnableHead
  have hbits := hset.readLe (show 409 + 1 ≤ kobjDiskSize by decide)
  simp only [threadLink, setThBits, thBits, hbits]
  exact hset.writeLe _ _ _

theorem threadJoined_congr (heq : SameHeader g h) : SameHeader
    (if thStatus g = threadRunnable then threadPin (threadSchedAdjust c (threadLink c g)) else g)
    (if thStatus h = threadRunnable then threadPin (threadSchedAdjust c (threadLink c h)) else h) := by
  have hstatus : thStatus g = thStatus h := heq.readLe (by decide)
  rw [hstatus]
  split
  · exact threadPin_congr (threadSchedAdjust_congr c (threadLink_congr c heq))
  · exact heq

theorem threadSwapin_congr (heq : SameHeader g h) :
    SameHeader (threadSwapin c g) (threadSwapin c h) := by
  have hclear : SameHeader (clearThread g) (clearThread h) := by
    have hset := heq.writeLe 400 8 0
    have hbits := hset.readLe (show 409 + 1 ≤ kobjDiskSize by decide)
    simp only [clearThread, setThBits, thBits, hbits]
    exact (hset.writeLe _ _ _).writeLe _ _ _
  have hstatus : thStatus (clearThread g) = thStatus (clearThread h) := hclear.readLe (by decide)
  have hwoken : SameHeader
      (if thStatus (clearThread g) = threadSuspended then writeLe (clearThread g) 408 1 threadRunnable
        else clearThread g)
      (if thStatus (clearThread h) = threadSuspended then writeLe (clearThread h) 408 1 threadRunnable
        else clearThread h) := by
    rw [hstatus]
    split
    · exact hclear.writeLe _ _ _
    · exact hclear
  exact threadJoined_congr c hwoken

theorem swapinHdr_congr (heq : SameHeader g h) : SameHeader (swapinHdr c g) (swapinHdr c h) := by
  have hreset : SameHeader (resetHdr g) (resetHdr h) := by
    have hset := (heq.writeLe 204 4 0).writeLe 200 4 0
    have hflags := hset.readLe (show 176 + 4 ≤ kobjDiskSize by decide)
    simp only [resetHdr, setKoPin, setKoPinPg, setKoFlags, koFlags, hflags]
    exact hset.writeLe _ _ _
  have htype : koType (resetHdr g) = koType (resetHdr h) := hreset.readLe (by decide)
  simp only [swapinHdr, htype]
  split_ifs
  · exact threadSwapin_congr c hreset
  · exact hreset.writeLe _ _ _
  · exact hreset.writeLe _ _ _
  · exact hreset.writeLe _ _ _
  · exact hreset

end SameHeader

section Settled

variable (c : Core) (h : Bytes)

theorem readLe_resetHdr {at' n : Nat} (hat : 208 ≤ at' ∨ (at' = 180 ∧ n = 4)) :
    readLe (resetHdr h) at' n = readLe h at' n := by
  simp only [resetHdr, setKoFlags, setKoPinPg, setKoPin]
  rw [readLe_writeLe (by omega), readLe_writeLe (by omega), readLe_writeLe (by omega)]

variable {skip : List (Nat × Nat)}

theorem agrees_resetHdr (hnew : ∀ f ∈ skip, 204 ≤ f.1) :
    Agrees skip (resetHdr h) h ↔
      (koFlags h &&& kobjIncore = 0 ∧ koPinPg h = 0) ∧
        Agrees ((200, 4) :: (176, 4) :: skip) (setKoPin h 0) h := by
  have hflags : koFlags (setKoPinPg (setKoPin h 0) 0) = koFlags h := by
    simp [koFlags, setKoPinPg, setKoPin, readLe_writeLe]
  have hmask := masked_eq_iff kobjIncore (koFlags_lt h)
  have hlt : koFlags h &&& (0xffffffff ^^^ kobjIncore) < 256 ^ 4 :=
    Nat.and_le_left.trans_lt (koFlags_lt h)
  have hfree : ∀ f ∈ skip, 176 + 4 ≤ f.1 ∨ f.1 + f.2 ≤ 176 :=
    fun f hf ↦ .inl (by have := hnew f hf; omega)
  have hfree' : ∀ f ∈ (176, 4) :: skip, 200 + 4 ≤ f.1 ∨ f.1 + f.2 ≤ 200 :=
    List.forall_mem_cons.mpr ⟨by simp, fun f hf ↦ .inl (hnew f hf)⟩
  simp only [resetHdr, hflags]
  rw [setKoFlags, agrees_writeLe ⟨by simp [kobjDiskSize], hfree⟩, setKoPinPg,
    agrees_writeLe ⟨by simp [kobjDiskSize], hfree'⟩, Nat.mod_eq_of_lt hlt, and_assoc]
  exact and_congr hmask Iff.rfl

theorem agrees_reset_pin (hnew : ∀ f ∈ skip, 208 ≤ f.1) :
    Agrees skip (resetHdr h) h ↔
      (koFlags h &&& kobjIncore = 0 ∧ koPinPg h = 0) ∧ koPin h = 0 := by
  have hfree : ∀ f ∈ (200, 4) :: (176, 4) :: skip, 204 + 4 ≤ f.1 ∨ f.1 + f.2 ≤ 204 := by
    simp only [List.forall_mem_cons]
    exact ⟨by simp, by simp, fun f hf ↦ .inl (hnew f hf)⟩
  rw [agrees_resetHdr h fun f hf ↦ (by simp : 204 ≤ 208).trans (hnew f hf), setKoPin,
    agrees_writeLe ⟨by simp [kobjDiskSize], hfree⟩]
  simp [agrees_refl, koPin]

theorem agrees_reset_pinned (hnew : ∀ f ∈ skip, 204 ≤ f.1) (hpin : (204, 4) ∈ skip) :
    Agrees skip (resetHdr h) h ↔ koFlags h &&& kobjIncore = 0 ∧ koPinPg h = 0 := by
  rw [agrees_resetHdr h hnew, setKoPin, agrees_overwritten (by simp [hpin])]
  simp [agrees_refl]

theorem threadLinked_eq {g : Bytes} (hbits : thBits g &&& thIncore = 0) (hpin : koPin g = 0)
    (hremain : thSchedRemain g = 0) :
    threadPin (threadSchedAdjust c (threadLink c g)) =
      setKoPin (setThBits (setThBits (writeLe (setThBits (writeLe (writeLe g
        448 8 c.runnableFirst) 456 8 c.runnableHead) (thBits g ||| thLinked)) 440 8 c.globalPass)
        (thBits g ||| thLinked ||| thSchedJoined))
        (thBits g ||| thLinked ||| thSchedJoined ||| thPinned)) 1 := by
  have hall : ∀ b < 256, b &&& thIncore = 0 →
      (b ||| thLinked) % 256 = b ||| thLinked ∧ (b ||| thLinked) &&& thSchedJoined = 0 ∧
      (b ||| thLinked ||| thSchedJoined) % 256 = b ||| thLinked ||| thSchedJoined ∧
      (b ||| thLinked ||| thSchedJoined) &&& thPinned = 0 := by
    decide +kernel
  obtain ⟨hlink, hjoin, hmod, hpinned⟩ := hall _ (thBits_lt g) hbits
  simp only [threadLink, threadSchedAdjust, schedJoin, threadPin, kobjectPinHdr, thBits, setThBits,
    thSchedRemain, koPin, setKoPin] at hremain hpin hlink hjoin hmod hpinned ⊢
  simp [readLe_writeLe, readLe_writeLe_same, hremain, hpin, hlink, hjoin, hmod, hpinned]

theorem thBits_clearThread : thBits (clearThread h) = thBits h &&& (0xff ^^^ thIncore) := by
  have hlt : thBits h &&& (0xff ^^^ thIncore) < 256 := Nat.and_le_left.trans_lt (thBits_lt h)
  simp only [clearThread, setThBits, thBits] at hlt ⊢
  simp [readLe_writeLe, readLe_writeLe_same, Nat.mod_eq_of_lt hlt]

theorem thBits_cleared (b : Nat) : b &&& (0xff ^^^ thIncore) &&& thIncore = 0 := by
  rw [Nat.and_assoc]
  simp [thIncore, thPinned, thSchedJoined, thSyncWaiting, thLinked]

/-- The header of a thread that is put on the list of runnable threads. -/
theorem agrees_linked {g : Bytes} (hbits : thBits g = thBits h &&& (0xff ^^^ thIncore))
    (hpin : koPin g = 0) (hremain : thSchedRemain g = 0) :
    Agrees [] (threadPin (threadSchedAdjust c (threadLink c g))) h ↔
      koPin h = 1 ∧ (thBits h &&& thIncore = thPinned ||| thSchedJoined ||| thLinked) ∧
        thSchedRemain h = c.globalPass % 2 ^ 64 ∧ thLinkPrev h = c.runnableHead % 2 ^ 64 ∧
        thLinkNext h = c.runnableFirst % 2 ^ 64 ∧
        Agrees [(448, 8), (456, 8), (440, 8), (409, 1), (204, 4)] g h := by
  have hall : ∀ b < 256,
      b = ((b &&& (0xff ^^^ thIncore)) ||| thLinked ||| thSchedJoined ||| thPinned) % 256 ^ 1 ↔
        b &&& thIncore = thPinned ||| thSchedJoined ||| thLinked := by
    decide +kernel
  rw [threadLinked_eq c (by rw [hbits, thBits_cleared]) hpin hremain, hbits,
    ← hall _ (thBits_lt h)]
  simp (disch := decide) only [setKoPin, setThBits, agrees_writeLe, agrees_overwritten]
  rfl

theorem threadSwapin_settled :
    Agrees [] (threadSwapin c (resetHdr h)) h ↔
      (koFlags h &&& kobjIncore = 0 ∧ koPinPg h = 0) ∧ ThreadSettled c h := by
  set g := clearThread (resetHdr h) with hg
  have hstatus : thStatus g = thStatus h := by
    simp [hg, thStatus, clearThread, setThBits, readLe_writeLe, readLe_resetHdr]
  have hbits : thBits g = thBits h &&& (0xff ^^^ thIncore) := by
    rw [hg, thBits_clearThread, thBits, readLe_resetHdr h (by simp), thBits]
  have hpin : koPin g = 0 := by
    simp [hg, koPin, clearThread, setThBits, resetHdr, setKoFlags, setKoPinPg, setKoPin,
      readLe_writeLe, readLe_writeLe_same]
  have hremain : thSchedRemain g = 0 := by
    simp [hg, thSchedRemain, clearThread, readLe_writeLe_same]
  have hbit : thBits h = (thBits h &&& (0xff ^^^ thIncore)) % 256 ^ 1 ↔ thBits h &&& thIncore = 0 := by
    rw [pow_one, Nat.mod_eq_of_lt (Nat.and_le_left.trans_lt (thBits_lt h))]
    exact masked_eq_iff (w := 8) thIncore (thBits_lt h)
  simp only [threadSwapin, ← hg, hstatus]
  by_cases hsusp : thStatus h = threadSuspended
  · -- the status is changed
    have hset : ∀ v, thBits (writeLe g 408 1 v) = thBits g ∧ koPin (writeLe g 408 1 v) = koPin g ∧
        thSchedRemain (writeLe g 408 1 v) = thSchedRemain g := by
      simp [thBits, koPin, thSchedRemain, readLe_writeLe]
    obtain ⟨hbits', hpin', hremain'⟩ := hset threadRunnable
    have hrun : thStatus (writeLe g 408 1 threadRunnable) = threadRunnable :=
      readLe_writeLe_same g 408 1 threadRunnable
    rw [if_pos hsusp, if_pos hrun, agrees_linked c h (hbits'.trans hbits) (hpin'.trans hpin)
      (hremain'.trans hremain), agrees_writeLe (by decide)]
    constructor
    · rintro ⟨-, -, -, -, -, hst, -⟩
      exact absurd (hsusp.symm.trans hst) (by decide)
    · rintro ⟨-, hth⟩
      exact absurd hsusp hth.status
  by_cases hrun : thStatus h = threadRunnable
  · rw [if_neg hsusp, hstatus, if_pos hrun, agrees_linked c h hbits hpin hremain, hg, clearThread]
    simp (disch := decide) only [setThBits, agrees_writeLe, agrees_overwritten,
      agrees_reset_pinned]
    constructor
    · rintro ⟨hp, hb, hr, hprev, hnext, has, hcommon⟩
      exact ⟨hcommon, has, hsusp, fun hne ↦ absurd hrun hne, fun _ ↦ ⟨hp, hb, hr, hnext, hprev⟩⟩
    · rintro ⟨hcommon, hth⟩
      obtain ⟨hp, hb, hr, hnext, hprev⟩ := hth.runnable hrun
      exact ⟨hp, hb, hr, hprev, hnext, hth.unmapped, hcommon⟩
  · have hread : thBits (writeLe (resetHdr h) 400 8 0) = thBits h := by
      simp [thBits, readLe_writeLe, readLe_resetHdr]
    rw [if_neg hsusp, hstatus, if_neg hrun, hg, clearThread]
    simp (disch := decide) only [setThBits, agrees_writeLe, agrees_reset_pin, hread]
    constructor
    · rintro ⟨hr, hb, has, hcommon, hp⟩
      exact ⟨hcommon, has, hsusp, fun _ ↦ ⟨hp, hbit.mp hb, hr⟩, fun h ↦ absurd h hrun⟩
    · rintro ⟨hcommon, hth⟩
      obtain ⟨hp, hb, hr⟩ := hth.halted hrun
      exact ⟨hr, hbit.mpr hb, hth.unmapped, hcommon, hp⟩

/-- Coming in changes nothing in the header exactly when its in-core fields were as
they are set then. -/
theorem swapinHdr_settled : SameHeader (swapinHdr c h) h ↔ Settled c h := by
  rw [← agrees_nil]
  have htype : koType (resetHdr h) = koType h := readLe_resetHdr h (.inr ⟨rfl, rfl⟩)
  simp only [swapinHdr, htype]
  by_cases hth : koType h = kobjThread
  · rw [if_pos hth, threadSwapin_settled]
    constructor
    · rintro ⟨⟨hflags, hpg⟩, hset⟩
      refine ⟨hpg, hflags, fun _ ↦ hset, fun hne ↦ absurd hth hne, ?_, ?_, ?_⟩ <;>
        simp [hth, kobjThread, kobjAddressSpace, kobjSegment, kobjDevice]
    · intro hset
      exact ⟨⟨hset.flags, hset.pages⟩, hset.thread hth⟩
  have hmk : Settled c h ↔ ((koFlags h &&& kobjIncore = 0 ∧ koPinPg h = 0) ∧ koPin h = 0) ∧
      (koType h = kobjAddressSpace → readLe h 232 264 = 0) ∧
      (koType h = kobjSegment → readLe h 208 8 = 0) ∧
      (koType h = kobjDevice → readLe h 224 8 = 0) := by
    constructor
    · intro hset
      exact ⟨⟨⟨hset.flags, hset.pages⟩, hset.other hth⟩, hset.addressSpace, hset.segment, hset.device⟩
    · rintro ⟨⟨⟨hflags, hpg⟩, hpin⟩, has, hsg, hdv⟩
      exact ⟨hpg, hflags, fun ht ↦ absurd ht hth, fun _ ↦ hpin, has, hsg, hdv⟩
  rw [if_neg hth, hmk]
  split_ifs with has hsg hdv
  · rw [asSwapin, agrees_writeLe (by decide), agrees_reset_pin h (by decide), Nat.zero_mod, and_comm]
    simp [has, kobjAddressSpace, kobjSegment, kobjDevice]
  · rw [segmentSwapin, agrees_writeLe (by decide), agrees_reset_pin h (by decide), Nat.zero_mod,
      and_comm]
    simp [hsg, kobjAddressSpace, kobjSegment, kobjDevice]
  · rw [deviceSwapin, agrees_writeLe (by decide), agrees_reset_pin h (by decide), Nat.zero_mod,
      and_comm]
    simp [hdv, kobjAddressSpace, kobjSegment, kobjDevice]
  · rw [agrees_reset_pin h (by decide)]
    simp [has, hsg, hdv]

end Settled

end HiStar.Pstate
