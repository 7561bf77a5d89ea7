import HiStar.Dj.LabelMap

namespace HiStar.Dj

open Userlabel
open Iflow (lbLevelUndef)

/-- A call of the incoming gate: the verify labels of the caller, what the request says,
and the answers that the code gets on its way. -/
structure IncomingReq where
  vl : Label
  vc : Label
  readable : Bool
  acquired : Bool
  catmap : List DjCatMapping
  taint : List DjGcat
  glabel : List DjGcat
  gclear : List DjGcat
  tainted : Bool
  unchanged : Bool
  resCt : Nat
  resSeg : Nat
  canRw : Bool

namespace IncomingReq

def accepted (r : IncomingReq) : Bool := r.vl.compare r.vc .starlo && r.readable

section Authority

variable (ih : Ihash DjCatMapping) (mem : Heap)

def translate (r : IncomingReq) (t : LabelType) (dl : List DjGcat) : Option Label :=
  match djlabelToLabel ih (DjCatmapIndexed.insertAll ih [] r.catmap) t false mem dl
      (some (.new lbLevelUndef)) none with
  | .ok s => s.l
  | .error _ => none

def withinAuthority (r : IncomingReq) : Bool :=
  match r.translate ih mem .taint r.taint, r.translate ih mem .owner r.glabel,
      r.translate ih mem .clear r.gclear with
  | some mt, some mg, some mc =>
    r.vl.compare mg .starlo && r.vl.compare mt .starlo && mt.compare r.vc .starhi &&
      mc.compare r.vc .starhi
  | _, _, _ => false

def admitted (r : IncomingReq) : Bool := r.acquired && r.withinAuthority ih mem

end Authority

def hasStatus (r : IncomingReq) : Bool := r.resCt ≠ 0 && r.resSeg ≠ 0 && r.canRw

end IncomingReq

/-- Where the thread of a request is: in `process_call1`, before and after it changed to
the address space of the daemon; before the write to the pipe; in the loop of
`process_call2`, with the request in the pipe, with `djprot::send`, or done; or out. -/
inductive Phase
  | first
  | second
  | sending
  | queued
  | sent
  | done (res : Nat)
  | out
  deriving DecidableEq

/-- The threads of all requests, the pipe, and the calls of `gatecall_status_done`. -/
structure Incoming where
  phase : Nat → Phase
  pipe : List Nat
  answers : Nat → List Nat

def Incoming.start : Incoming := ⟨fun _ ↦ .first, [], fun _ ↦ []⟩

def Incoming.move (s : Incoming) (i : Nat) (p : Phase) : Incoming :=
  { s with phase := Function.update s.phase i p }

section Calls

variable (ih : Ihash DjCatMapping) (mem : Heap)

/-- `process_call1` up to the call of `process_call2`, or to the change of address
space. A rejected request returns with its code, which nobody reads. -/
def firstPass (r : IncomingReq) : Phase :=
  if !r.accepted then .out
  else if !r.admitted ih mem then .out
  else if r.tainted then .second
  else .sending

def secondPass (r : IncomingReq) : Phase :=
  if r.accepted && r.unchanged then .sending else .out

def statusDone (s : Incoming) (r : IncomingReq) (i res : Nat) : Incoming :=
  { s.move i .out with
    answers := if r.hasStatus then Function.update s.answers i (s.answers i ++ [res]) else s.answers }

inductive IncomingStep (rs : Nat → IncomingReq) (n : Nat) : Incoming → Incoming → Prop
  | firstPass {s : Incoming} {i : Nat} (hi : i < n) (hp : s.phase i = .first) :
      IncomingStep rs n s (s.move i (firstPass ih mem (rs i)))
  | secondPass {s : Incoming} {i : Nat} (hi : i < n) (hp : s.phase i = .second) :
      IncomingStep rs n s (s.move i (secondPass (rs i)))
  | write {s : Incoming} {i : Nat} (hi : i < n) (hp : s.phase i = .sending) :
      IncomingStep rs n s { s.move i .queued with pipe := s.pipe ++ [i] }
  | readcb {s : Incoming} {i : Nat} {rest : List Nat} (hpipe : s.pipe = i :: rest) :
      IncomingStep rs n s { s.move i .sent with pipe := rest }
  | callcb {s : Incoming} {i stat : Nat} (hp : s.phase i = .sent) (hstat : stat ≠ 0) :
      IncomingStep rs n s (s.move i (.done stat))
  | finish {s : Incoming} {i res : Nat} (hp : s.phase i = .done res) :
      IncomingStep rs n s (statusDone s (rs i) i res)

inductive IncomingRun (rs : Nat → IncomingReq) (n : Nat) : Nat → Incoming → Prop
  | start : IncomingRun rs n 0 .start
  | step {k : Nat} {s s' : Incoming} (h : IncomingRun rs n k s) (hs : IncomingStep ih mem rs n s s') :
      IncomingRun rs n (k + 1) s'

end Calls

def Phase.left : Phase → Nat
  | first => 6
  | second => 5
  | sending => 4
  | queued => 3
  | sent => 2
  | done _ => 1
  | out => 0

section Invariant

variable {ih : Ihash DjCatMapping} {mem : Heap} {rs : Nat → IncomingReq} {n : Nat} {s s' : Incoming}

def Passes (ih : Ihash DjCatMapping) (mem : Heap) (r : IncomingReq) : Prop :=
  r.accepted = true ∧ r.admitted ih mem = true ∧ (r.tainted = true → r.unchanged = true)

def PhaseOk (ih : Ihash DjCatMapping) (mem : Heap) (r : IncomingReq) (answers : List Nat) : Phase → Prop
  | .first => answers = []
  | .second => answers = [] ∧ r.accepted = true ∧ r.admitted ih mem = true ∧ r.tainted = true
  | .sending | .queued | .sent => answers = [] ∧ Passes ih mem r
  | .done res => answers = [] ∧ Passes ih mem r ∧ res ≠ 0
  | .out => (¬Passes ih mem r ∨ r.hasStatus = false) ∧ answers = [] ∨
      Passes ih mem r ∧ ∃ res, res ≠ 0 ∧ answers = [res]

structure IncomingInv (ih : Ihash DjCatMapping) (mem : Heap) (rs : Nat → IncomingReq) (n : Nat)
    (s : Incoming) : Prop where
  phase : ∀ i, PhaseOk ih mem (rs i) (s.answers i) (s.phase i)
  pipe : ∀ i, i ∈ s.pipe ↔ s.phase i = .queued
  nodup : s.pipe.Nodup
  idle : ∀ i, n ≤ i → s.phase i = .first

namespace IncomingInv

theorem start : IncomingInv ih mem rs n .start :=
  ⟨fun _ ↦ rfl, fun i ↦ by simp [Incoming.start], List.nodup_nil, fun _ _ ↦ rfl⟩

theorem lt_of_phase (h : IncomingInv ih mem rs n s) {i : Nat} (hp : s.phase i ≠ .first) : i < n := by
  by_contra hi
  exact hp (h.idle i (by omega))

theorem update (h : IncomingInv ih mem rs n s) {i : Nat} {p : Phase} {pipe answers : List Nat}
    (hi : i < n) (hok : PhaseOk ih mem (rs i) answers p)
    (hpipe : ∀ j, j ∈ pipe ↔ if j = i then p = .queued else s.phase j = .queued) (hnodup : pipe.Nodup) :
    IncomingInv ih mem rs n
      ⟨Function.update s.phase i p, pipe, Function.update s.answers i answers⟩ := by
  refine ⟨fun j ↦ ?_, fun j ↦ ?_, hnodup, fun j hj ↦ ?_⟩
  · by_cases hj : j = i
    · subst hj
      simpa using hok
    · simpa [hj] using h.phase j
  · rw [hpipe]
    by_cases hj : j = i
    · subst hj
      simp
    · simp [hj]
  · simpa [show j ≠ i by omega] using h.idle j hj

theorem move (h : IncomingInv ih mem rs n s) {i : Nat} {p : Phase} (hi : i < n)
    (hok : PhaseOk ih mem (rs i) (s.answers i) p) (hq : s.phase i ≠ .queued) (hp : p ≠ .queued) :
    IncomingInv ih mem rs n (s.move i p) := by
  have hpipe : ∀ j, j ∈ s.pipe ↔ if j = i then p = .queued else s.phase j = .queued := by
    intro j
    rw [h.pipe]
    by_cases hj : j = i
    · subst hj
      simp [hq, hp]
    · simp [hj]
  simpa [Incoming.move] using h.update hi hok hpipe h.nodup

end IncomingInv

theorem firstPass_ok (ih : Ihash DjCatMapping) (mem : Heap) (r : IncomingReq) :
    PhaseOk ih mem r [] (firstPass ih mem r) ∧ (firstPass ih mem r).left < 6 ∧
      firstPass ih mem r ≠ .queued := by
  unfold firstPass
  by_cases hacc : r.accepted = true
  · by_cases hadm : r.admitted ih mem = true
    · by_cases htaint : r.tainted = true
      · simp [hacc, hadm, htaint, PhaseOk, Phase.left]
      · simp [hacc, hadm, htaint, PhaseOk, Phase.left, Passes]
    · simp [hacc, hadm, PhaseOk, Phase.left, Passes]
  · simp [hacc, PhaseOk, Phase.left, Passes]

theorem secondPass_ok {r : IncomingReq} (hr : PhaseOk ih mem r [] .second) :
    PhaseOk ih mem r [] (secondPass r) ∧ (secondPass r).left < 5 ∧ secondPass r ≠ .queued := by
  obtain ⟨-, hacc, hadm, htaint⟩ := hr
  unfold secondPass
  by_cases hsame : r.unchanged = true
  · simp [hacc, hadm, hsame, PhaseOk, Phase.left, Passes]
  · simp [hacc, htaint, hsame, PhaseOk, Phase.left, Passes]

theorem IncomingStep.inv (hs : IncomingStep ih mem rs n s s') (h : IncomingInv ih mem rs n s) :
    IncomingInv ih mem rs n s' ∧ ∃ i p, i < n ∧ s'.phase = Function.update s.phase i p ∧
      p.left < (s.phase i).left := by
  cases hs with
  | @firstPass i hi hp =>
    have hans : s.answers i = [] := by simpa [hp, PhaseOk] using h.phase i
    obtain ⟨hok, hleft, hq⟩ := firstPass_ok ih mem (rs i)
    exact ⟨h.move hi (hans ▸ hok) (by simp [hp]) hq, i, _, hi, rfl, by rw [hp]; exact hleft⟩
  | @secondPass i hi hp =>
    have hphase := h.phase i
    rw [hp] at hphase
    have hans : s.answers i = [] := hphase.1
    rw [hans] at hphase
    obtain ⟨hok, hleft, hq⟩ := secondPass_ok hphase
    exact ⟨h.move hi (hans ▸ hok) (by simp [hp]) hq, i, _, hi, rfl, by rw [hp]; exact hleft⟩
  | @write i hi hp =>
    have hphase : PhaseOk ih mem (rs i) (s.answers i) .queued := by
      have := h.phase i
      rwa [hp] at this
    have hnot : i ∉ s.pipe := by simp [h.pipe, hp]
    have hpipe : ∀ j, j ∈ s.pipe ++ [i] ↔
        if j = i then Phase.queued = .queued else s.phase j = .queued := by
      intro j
      by_cases hj : j = i
      · simp [hj]
      · simp [hj, h.pipe]
    have hnodup : (s.pipe ++ [i]).Nodup := by
      rw [List.nodup_append_comm]
      exact List.nodup_cons.mpr ⟨hnot, h.nodup⟩
    have := h.update hi hphase hpipe hnodup
    exact ⟨by simpa [Incoming.move] using this, i, .queued, hi, rfl, by rw [hp]; decide⟩
  | @readcb i rest hpipe =>
    have hp : s.phase i = .queued := (h.pipe i).mp (by simp [hpipe])
    have hi := h.lt_of_phase (i := i) (by simp [hp])
    have hphase : PhaseOk ih mem (rs i) (s.answers i) .sent := by
      have := h.phase i
      rwa [hp] at this
    have hnodup := h.nodup
    rw [hpipe, List.nodup_cons] at hnodup
    have hrest : ∀ j, j ∈ rest ↔ if j = i then Phase.sent = .queued else s.phase j = .queued := by
      intro j
      by_cases hj : j = i
      · simp [hj, hnodup.1]
      · simp [hj, ← h.pipe, hpipe]
    have := h.update hi hphase hrest hnodup.2
    exact ⟨by simpa [Incoming.move] using this, i, .sent, hi, rfl, by rw [hp]; decide⟩
  | @callcb i stat hp hstat =>
    have hi := h.lt_of_phase (i := i) (by simp [hp])
    have hphase := h.phase i
    rw [hp] at hphase
    exact ⟨h.move hi ⟨hphase.1, hphase.2, hstat⟩ (by simp [hp]) (by simp), i, _, hi, rfl,
      by rw [hp]; exact (by decide : 1 < 2)⟩
  | @finish i res hp =>
    have hi := h.lt_of_phase (i := i) (by simp [hp])
    have hphase := h.phase i
    rw [hp] at hphase
    obtain ⟨hans, hpass, hres⟩ := hphase
    refine ⟨?_, i, .out, hi, rfl, by rw [hp]; exact Nat.zero_lt_one⟩
    by_cases hstatus : (rs i).hasStatus = true
    · have hpipe : ∀ j, j ∈ s.pipe ↔ if j = i then Phase.out = .queued else s.phase j = .queued := by
        intro j
        rw [h.pipe]
        by_cases hj : j = i
        · simp [hj, hp]
        · simp [hj]
      have hok : PhaseOk ih mem (rs i) [res] .out := .inr ⟨hpass, res, hres, rfl⟩
      have := h.update hi hok hpipe h.nodup
      simpa [statusDone, hstatus, Incoming.move, hans] using this
    · have hok : PhaseOk ih mem (rs i) (s.answers i) .out :=
        .inl ⟨.inr (Bool.eq_false_iff.mpr hstatus), hans⟩
      have hmove := h.move hi hok (by simp [hp]) (by simp)
      simpa [statusDone, hstatus, Incoming.move] using hmove

theorem IncomingRun.inv {k : Nat} (h : IncomingRun ih mem rs n k s) :
    IncomingInv ih mem rs n s ∧ k + ∑ i ∈ Finset.range n, (s.phase i).left ≤ 6 * n := by
  induction h with
  | start => exact ⟨.start, by simp [Incoming.start, Phase.left, Nat.mul_comm]⟩
  | @step k s s' _ hs ih' =>
    obtain ⟨hinv, hle⟩ := ih'
    obtain ⟨hinv', i, p, hi, hphase, hlt⟩ := hs.inv hinv
    have hsum : ∑ j ∈ Finset.range n, (s'.phase j).left < ∑ j ∈ Finset.range n, (s.phase j).left := by
      refine Finset.sum_lt_sum (fun j _ ↦ ?_) ⟨i, Finset.mem_range.mpr hi, by simpa [hphase] using hlt⟩
      by_cases hj : j = i
      · subst hj
        simpa [hphase] using hlt.le
      · simp [hphase, hj]
    exact ⟨hinv', by omega⟩

theorem IncomingInv.out (h : IncomingInv ih mem rs n s) (hend : ∀ s', ¬IncomingStep ih mem rs n s s')
    {i : Nat} (hi : i < n) : s.phase i = .out := by
  cases hp : s.phase i with
  | first => exact absurd (.firstPass hi hp) (hend _)
  | second => exact absurd (.secondPass hi hp) (hend _)
  | sending => exact absurd (.write hi hp) (hend _)
  | queued =>
    obtain ⟨j, rest, hpipe⟩ := List.exists_cons_of_ne_nil (List.ne_nil_of_mem ((h.pipe i).mpr hp))
    exact absurd (.readcb hpipe) (hend _)
  | sent => exact absurd (.callcb hp (by decide : 1 ≠ 0)) (hend _)
  | done res => exact absurd (.finish hp) (hend _)
  | out => rfl

end Invariant

/-- Every run of `n` requests ends. Each request is answered once at most, with a code
that is not 0; and when the run has ended, a request with a status segment has been
answered exactly when it was accepted, its mappings could be acquired, its labels were
within the authority of the caller, and it was the same on the second pass. -/
theorem incoming_answered (ih : Ihash DjCatMapping) (mem : Heap) (rs : Nat → IncomingReq) (n : Nat) :
    ∀ k s, IncomingRun ih mem rs n k s → k ≤ 6 * n ∧
      (∀ i, s.answers i = [] ∨ ∃ res, res ≠ 0 ∧ s.answers i = [res]) ∧
      ((∀ s', ¬IncomingStep ih mem rs n s s') → ∀ i < n, (rs i).hasStatus = true →
        ((∃ res, res ≠ 0 ∧ s.answers i = [res]) ↔
          (rs i).accepted = true ∧ (rs i).admitted ih mem = true ∧
            ((rs i).tainted = true → (rs i).unchanged = true))) := by
  intro k s hrun
  obtain ⟨hinv, hle⟩ := hrun.inv
  refine ⟨by omega, fun i ↦ ?_, fun hend i hi hstatus ↦ ?_⟩
  · have hphase := hinv.phase i
    cases hp : s.phase i with
    | out =>
      rw [hp] at hphase
      exact hphase.imp (·.2) fun h ↦ h.2
    | first =>
      rw [hp] at hphase
      exact .inl hphase
    | _ =>
      rw [hp] at hphase
      exact .inl hphase.1
  · have hphase := hinv.phase i
    rw [hinv.out hend hi] at hphase
    constructor
    · rintro ⟨res, -, hres⟩
      rcases hphase with ⟨-, hnone⟩ | ⟨hpass, -⟩
      · rw [hnone] at hres
        cases hres
      · exact hpass
    · intro hpass
      rcases hphase with ⟨hno, -⟩ | ⟨-, hans⟩
      · exact absurd (hno.resolve_right (by simp [hstatus])) (not_not.mpr hpass)
      · exact hans

/-- The caller owns the category 5, which stands for the one of its message. -/
def mapped : IncomingReq :=
  let g : DjGcat := ⟨⟨.rabin, 2⟩, 7, false⟩
  { vl := ⟨⟨1, 1, [4 * 2 ^ 61 + 5]⟩, true⟩, vc := ⟨⟨1, 2, [3 * 2 ^ 61 + 5]⟩, true⟩, readable := true,
    acquired := true, catmap := [⟨g, 5, 0, 0⟩], taint := [g], glabel := [g], gclear := [g],
    tainted := true, unchanged := true, resCt := 1, resSeg := 2, canRw := true }

def unmapped : IncomingReq := { mapped with acquired := false }

def twoRequests (i : Nat) : IncomingReq := if i = 0 then mapped else unmapped

theorem mapped_answered : ∃ s, IncomingRun .newest (fun _ ↦ true) twoRequests 2 7 s ∧
    s.answers 0 = [1] ∧ s.answers 1 = [] ∧ 7 ≤ 6 * 2 ∧
    ∀ i, s.answers i = [] ∨ ∃ res, res ≠ 0 ∧ s.answers i = [res] := by
  have hstart : IncomingRun .newest (fun _ ↦ true) twoRequests 2 0 .start := .start
  have hfirst := (hstart.step (.firstPass (i := 0) (by decide) rfl)).step
    (.firstPass (i := 1) (by decide) rfl)
  have hqueued := (hfirst.step (.secondPass (i := 0) (by decide) (by decide +kernel))).step
    (.write (i := 0) (by decide) (by decide +kernel))
  have hrun := ((hqueued.step (.readcb rfl)).step (.callcb (i := 0) rfl (by decide : 1 ≠ 0))).step
    (.finish (i := 0) rfl)
  obtain ⟨hle, hans, -⟩ := incoming_answered _ _ _ _ _ _ hrun
  exact ⟨_, hrun, by decide +kernel, by decide +kernel, hle, hans⟩

/-- Such a request, alone, is never answered. -/
theorem unmapped_unanswered : ∃ s, IncomingRun .newest (fun _ ↦ true) (fun _ ↦ unmapped) 1 1 s ∧
    (∀ s', ¬IncomingStep .newest (fun _ ↦ true) (fun _ ↦ unmapped) 1 s s') ∧ unmapped.accepted = true ∧
    unmapped.hasStatus = true ∧ s.answers 0 = [] := by
  refine ⟨_, .step .start (.firstPass Nat.zero_lt_one rfl), fun s' hs ↦ ?_, by decide, by decide, rfl⟩
  have hphase : ∀ i, (Incoming.start.move 0 (firstPass .newest (fun _ ↦ true) unmapped)).phase i =
      if i = 0 then .out else .first := by
    intro i
    have hout : firstPass .newest (fun _ ↦ true) unmapped = .out := by decide
    simp [Incoming.move, Incoming.start, Function.update_apply, hout]
  cases hs with
  | @firstPass i hi hp =>
    rw [hphase, if_pos (by omega)] at hp
    cases hp
  | @secondPass i hi hp =>
    rw [hphase, if_pos (by omega)] at hp
    cases hp
  | @write i hi hp =>
    rw [hphase, if_pos (by omega)] at hp
    cases hp
  | readcb hpipe => cases hpipe
  | callcb hp _ =>
    rw [hphase] at hp
    split at hp <;> cases hp
  | finish hp =>
    rw [hphase] at hp
    split at hp <;> cases hp

end HiStar.Dj
