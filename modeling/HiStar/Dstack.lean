import HiStar.Errno

namespace HiStar

def dstackBufSize : Nat := (4096 - 16) / 8

abbrev DstackPage := Fin dstackBufSize → UInt64

structure Dstack where
  sp : Nat
  pages : List DstackPage

namespace Dstack

def init : Dstack := ⟨0, []⟩

/-- How a call ends. Beside its return it can panic, or go on to a page that is not there or
to a place outside it. -/
inductive Ended (α : Type)
  | ret (r : α) (s : Dstack)
  | panic
  | wild

def put (s : Dstack) (n : UInt64) : Ended (Except Errno Unit) :=
  match s.pages with
  | [] => .wild
  | p :: ps =>
    if h : 0 < s.sp ∧ s.sp - 1 < dstackBufSize then
      .ret (.ok ()) ⟨s.sp - 1, Function.update p ⟨s.sp - 1, h.2⟩ n :: ps⟩
    else .wild

/-- `dstack_push`, with what `page_alloc` gives: no page, or one with any contents. -/
def push (s : Dstack) (n : UInt64) (page : Option DstackPage) : Ended (Except Errno Unit) :=
  if s.sp = 0 then
    match page with
    | none => .ret (.error .noMem) s
    | some p => put ⟨dstackBufSize, p :: s.pages⟩ n
  else s.put n

def pop (s : Dstack) : Ended UInt64 :=
  match s.pages with
  | [] => if s.sp = 0 then .panic else .wild
  | p :: ps =>
    if h : s.sp < dstackBufSize then
      .ret (p ⟨s.sp, h⟩) (if s.sp + 1 = dstackBufSize then ⟨0, ps⟩ else ⟨s.sp + 1, p :: ps⟩)
    else .wild

def empty (s : Dstack) : Bool := s.pages.isEmpty

/-- What the calls since `dstack_init` have left, with the values that were pushed and not
popped, the last one first. -/
inductive Run : Dstack → List UInt64 → Prop
  | init : Run init []
  | push {s s' : Dstack} {vs : List UInt64} {n : UInt64} {page : Option DstackPage} (h : Run s vs)
      (hpush : s.push n page = .ret (.ok ()) s') : Run s' (n :: vs)
  | pushFails {s s' : Dstack} {vs : List UInt64} {n : UInt64} {page : Option DstackPage}
      {e : Errno} (h : Run s vs) (hpush : s.push n page = .ret (.error e) s') : Run s' vs
  | pop {s s' : Dstack} {vs : List UInt64} {n : UInt64} (h : Run s vs)
      (hpop : s.pop = .ret n s') : Run s' vs.tail

def contents (s : Dstack) : List UInt64 :=
  match s.pages with
  | [] => []
  | p :: ps => (List.ofFn p).drop s.sp ++ ps.flatMap List.ofFn

/-- The index lies in the first page. It is 0 for a page without room as well as for a stack
without pages. -/
structure Wf (s : Dstack) : Prop where
  sp_lt : s.sp < dstackBufSize
  sp_nil : s.pages = [] → s.sp = 0

section Contents

variable {s : Dstack} {p : DstackPage} {ps : List DstackPage} {i : Nat}

theorem contents_cons (i : Nat) (p : DstackPage) (ps : List DstackPage) :
    contents ⟨i, p :: ps⟩ = (List.ofFn p).drop i ++ ps.flatMap List.ofFn := rfl

theorem contents_zero (ps : List DstackPage) : contents ⟨0, ps⟩ = ps.flatMap List.ofFn := by
  cases ps with
  | nil => rfl
  | cons p ps => rw [contents_cons, List.drop_zero, List.flatMap_cons]

theorem drop_head (p : DstackPage) (hi : i < dstackBufSize) :
    (List.ofFn p).drop i = p ⟨i, hi⟩ :: (List.ofFn p).drop (i + 1) := by
  rw [List.drop_eq_getElem_cons (by simpa using hi), List.getElem_ofFn]

theorem drop_update (p : DstackPage) (hi : i < dstackBufSize) (n : UInt64) :
    (List.ofFn (Function.update p ⟨i, hi⟩ n)).drop i = n :: (List.ofFn p).drop (i + 1) := by
  rw [drop_head _ hi, Function.update_self]
  refine congrArg (n :: ·) (List.ext_getElem ?_ fun j hj hj' ↦ ?_)
  · simp
  · have hne : (⟨i + 1 + j, by simp at hj; omega⟩ : Fin dstackBufSize) ≠ ⟨i, hi⟩ := by
      simp only [ne_eq, Fin.mk.injEq]
      omega
    simp only [List.getElem_drop, List.getElem_ofFn, Function.update_of_ne hne]

theorem length_flatMap_pages (ps : List DstackPage) :
    (ps.flatMap List.ofFn).length = ps.length * dstackBufSize := by
  induction ps with
  | nil => simp
  | cons p ps ih =>
    rw [List.flatMap_cons, List.length_append, List.length_ofFn, ih, List.length_cons, Nat.succ_mul]
    omega

end Contents

section Calls

variable {s : Dstack}

theorem contents_added (p : DstackPage) (ps : List DstackPage) :
    contents ⟨dstackBufSize, p :: ps⟩ = contents ⟨0, ps⟩ := by
  have hnone : (List.ofFn p).drop dstackBufSize = [] := by
    rw [List.drop_eq_nil_iff, List.length_ofFn]
  rw [contents_cons, hnone, contents_zero, List.nil_append]

theorem put_spec {sp : Nat} (hpos : 0 < sp) (hle : sp ≤ dstackBufSize) (p : DstackPage)
    (ps : List DstackPage) (n : UInt64) :
    ∃ s', put ⟨sp, p :: ps⟩ n = .ret (.ok ()) s' ∧ s'.Wf ∧
      s'.contents = n :: contents ⟨sp, p :: ps⟩ := by
  have hin : 0 < sp ∧ sp - 1 < dstackBufSize := by omega
  refine ⟨_, dif_pos hin, ⟨hin.2, fun hnil ↦ absurd hnil (List.cons_ne_nil _ _)⟩, ?_⟩
  rw [contents_cons, contents_cons, drop_update, Nat.sub_add_cancel hpos, List.cons_append]

theorem Wf.push_spec (h : s.Wf) (n : UInt64) (page : Option DstackPage) :
    (∃ s', s.push n page = .ret (.ok ()) s' ∧ s'.Wf ∧ s'.contents = n :: s.contents) ∨
      page = none ∧ s.push n page = .ret (.error .noMem) s := by
  obtain ⟨sp, ps⟩ := s
  have hsp : sp < dstackBufSize := h.sp_lt
  by_cases hzero : sp = 0
  · subst hzero
    cases page with
    | none => exact .inr ⟨rfl, rfl⟩
    | some p =>
      rw [← contents_added p]
      exact .inl (put_spec hsp le_rfl p ps n)
  · have hput : push ⟨sp, ps⟩ n page = put ⟨sp, ps⟩ n := if_neg hzero
    rw [hput]
    cases ps with
    | nil => exact absurd (h.sp_nil rfl) hzero
    | cons p ps => exact .inl (put_spec (Nat.pos_of_ne_zero hzero) hsp.le p ps n)

theorem Wf.pop_spec (h : s.Wf) :
    (s.contents = [] ∧ s.pages = [] ∧ s.pop = .panic) ∨
      ∃ n s', s.pop = .ret n s' ∧ s'.Wf ∧ s.contents = n :: s'.contents ∧ s.pages ≠ [] := by
  obtain ⟨sp, ps⟩ := s
  cases ps with
  | nil => exact .inl ⟨rfl, rfl, if_pos (h.sp_nil rfl)⟩
  | cons p ps =>
    have hsp : sp < dstackBufSize := h.sp_lt
    refine .inr ⟨_, _, dif_pos hsp, ?_, ?_, List.cons_ne_nil _ _⟩
    · dsimp only
      split_ifs with hfull
      · exact ⟨by dsimp only; omega, fun _ ↦ rfl⟩
      · exact ⟨by dsimp only; omega, fun hnil ↦ absurd hnil (List.cons_ne_nil _ _)⟩
    · rw [contents_cons, drop_head p hsp, List.cons_append, ← contents_cons]
      dsimp only
      split_ifs with hfull
      · rw [hfull, contents_added]
      · rfl

theorem Wf.pages_length (h : s.Wf) :
    s.pages.length = (s.contents.length + dstackBufSize - 1) / dstackBufSize := by
  obtain ⟨sp, ps⟩ := s
  have hsp : sp < dstackBufSize := h.sp_lt
  cases ps with
  | nil => exact (Nat.div_eq_of_lt (by simp [contents]; omega)).symm
  | cons p ps =>
    rw [contents_cons, List.length_append, List.length_drop, List.length_ofFn,
      length_flatMap_pages]
    have hsum : dstackBufSize - sp + ps.length * dstackBufSize + dstackBufSize - 1 =
        (dstackBufSize - sp - 1) + (ps.length + 1) * dstackBufSize := by
      rw [Nat.succ_mul]
      omega
    rw [hsum, Nat.add_mul_div_right _ _ (by omega), Nat.div_eq_of_lt (by omega), Nat.zero_add]
    rfl

theorem Run.contents_eq {vs : List UInt64} (h : Run s vs) : s.Wf ∧ s.contents = vs := by
  induction h with
  | init => exact ⟨⟨by decide, fun _ ↦ rfl⟩, rfl⟩
  | push h hpush ih =>
    rename_i n page
    rcases ih.1.push_spec n page with ⟨s', hs', hwf, hcontents⟩ | ⟨-, hfail⟩
    · rw [hs'] at hpush
      cases hpush
      exact ⟨hwf, by rw [hcontents, ih.2]⟩
    · rw [hfail] at hpush
      cases hpush
  | pushFails h hpush ih =>
    rename_i n page e
    rcases ih.1.push_spec n page with ⟨s', hs', -⟩ | ⟨-, hfail⟩
    · rw [hs'] at hpush
      cases hpush
    · rw [hfail] at hpush
      cases hpush
      exact ih
  | pop h hpop ih =>
    rcases ih.1.pop_spec with ⟨-, -, hpanic⟩ | ⟨n, s', hs', hwf, hcontents, -⟩
    · rw [hpanic] at hpop
      cases hpop
    · rw [hs'] at hpop
      cases hpop
      exact ⟨hwf, by rw [← ih.2, hcontents, List.tail_cons]⟩

end Calls

/-- The stack is a list of values. -/
theorem dstack_lifo {s : Dstack} {vs : List UInt64} (h : Run s vs) :
    (∀ n rest, vs = n :: rest → ∃ s', s.pop = .ret n s') ∧
      (s.empty = true ↔ vs = []) ∧ (s.pop = .panic ↔ vs = []) ∧
      (∀ n page, (∃ s', s.push n page = .ret (.ok ()) s') ∨
        page = none ∧ ∃ e, s.push n page = .ret (.error e) s) ∧
      s.pages.length = (vs.length + dstackBufSize - 1) / dstackBufSize := by
  obtain ⟨hwf, rfl⟩ := h.contents_eq
  have hpush (n : UInt64) (page : Option DstackPage) :
      (∃ s', s.push n page = .ret (.ok ()) s') ∨
        page = none ∧ ∃ e, s.push n page = .ret (.error e) s :=
    (hwf.push_spec n page).imp (fun ⟨s', hs', _⟩ ↦ ⟨s', hs'⟩) fun ⟨hnone, hs⟩ ↦ ⟨hnone, _, hs⟩
  rcases hwf.pop_spec with ⟨hnil, hpages, hpanic⟩ | ⟨n, s', hs', -, hcontents, hpages⟩
  · refine ⟨fun n rest hcons ↦ ?_, ?_, ?_, hpush, hwf.pages_length⟩
    · exact absurd (hnil.symm.trans hcons) (List.cons_ne_nil _ _).symm
    · exact iff_of_true (by rw [empty, hpages]; rfl) hnil
    · exact iff_of_true hpanic hnil
  · have hne : s.contents ≠ [] := by simp [hcontents]
    refine ⟨fun m rest hcons ↦ ?_, ?_, ?_, hpush, hwf.pages_length⟩
    · rw [hcontents] at hcons
      obtain ⟨rfl, -⟩ := List.cons.inj hcons
      exact ⟨s', hs'⟩
    · exact iff_of_false (by simpa [empty] using hpages) hne
    · exact iff_of_false (by simp [hs']) hne

theorem second_value_first :
    ∃ s, Run s [8, 7] ∧ ∃ s', s.pop = .ret 8 s' := by
  have hseven : Run _ [7] := .push .init (rfl : init.push 7 (some fun _ ↦ 0) = _)
  have height : Run _ [8, 7] := .push hseven (rfl : push _ 8 none = _)
  exact ⟨_, height, (dstack_lifo height).1 8 [7] rfl⟩

end Dstack

end HiStar
