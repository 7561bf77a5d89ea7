import HiStar.Userlabel.Levels

namespace HiStar.Userlabel

open Iflow Lib LevelComparator

namespace Ulabel

def labelGrow (mem : Heap) (l : Ulabel) : Except Errno Ulabel :=
  let newsize := l.ulSize * 2 % 2 ^ 32
  if newsize = 0 ∨ !mem newsize then .error .noMem else .ok { l with ulSize := newsize }

def addEntry (l : Ulabel) (handle level : Nat) : Ulabel :=
  { l with ulEnt := l.ulEnt ++ [lbCode handle level] }

def labelSetLevel (mem : Heap) (l : Ulabel) (handle level : Nat) (grow : Bool) :
    Except Errno Ulabel :=
  match l.ulEnt.findIdx? fun e ↦ lbHandle e = handle with
  | some slot => .ok { l with ulEnt := l.ulEnt.set slot (lbCode handle level) }
  | none =>
    if l.ulEnt.length = l.ulSize then
      if grow then (l.labelGrow mem).map fun l ↦ l.addEntry handle level else .error .noMem
    else .ok (l.addEntry handle level)

def labelCompare (a b : Ulabel) (cmp : LevelComparator) : Bool :=
  a.handles.all (fun h ↦ cmp.cmp (a.get h) (b.get h)) &&
    b.handles.all (fun h ↦ cmp.cmp (a.get h) (b.get h)) && cmp.cmp a.ulDefault b.ulDefault

end Ulabel

/-- The body of both loops of `taint_cow_compute_label`; an error is a failed
assertion. -/
def taintAt (cur obj : Ulabel) (h : Nat) : Except Errno Ulabel :=
  if cur.get h = lbLevelStar then .ok obj
  else if obj.get h < cur.get h then obj.labelSetLevel (fun _ ↦ false) h (cur.get h) false
  else .ok obj

def taintCur (cur : Ulabel) : List Nat → Ulabel → Except Errno Ulabel
  | [], obj => .ok obj
  | h :: hs, obj => do
    let obj ← taintAt cur obj h
    taintCur cur hs obj

/-- The second loop, over the entries of `obj` from `i` on. It sets levels of entries
that are there, so that their number stays. -/
def taintObj (cur : Ulabel) (i : Nat) : Nat → Ulabel → Except Errno Ulabel
  | 0, obj => .ok obj
  | n + 1, obj => do
    let obj ← taintAt cur obj (lbHandle (obj.ulEnt.getD i 0))
    taintObj cur (i + 1) n obj

def taintCowComputeLabel (cur obj : Ulabel) : Except Errno Ulabel := do
  let obj ← taintCur cur cur.handles obj
  taintObj cur 0 obj.ulEnt.length obj

namespace Ulabel

variable {mem : Heap} {l l' : Ulabel} {h lv : Nat} {grow : Bool}

theorem labelGrow_ok (hok : l.labelGrow mem = .ok l') :
    l'.ulEnt = l.ulEnt ∧ l'.ulDefault = l.ulDefault := by
  unfold labelGrow at hok
  dsimp only at hok
  split at hok
  · cases hok
  · cases hok
    exact ⟨rfl, rfl⟩

theorem labelSetLevel_cases (hok : l.labelSetLevel mem h lv grow = .ok l') :
    l'.ulDefault = l.ulDefault ∧
      ((∃ xs e ys, l.ulEnt = xs ++ e :: ys ∧ l'.ulEnt = xs ++ lbCode h lv :: ys ∧ lbHandle e = h ∧
        h ∉ xs.map lbHandle) ∨
      (h ∉ l.handles ∧ l'.ulEnt = l.ulEnt ++ [lbCode h lv])) := by
  unfold labelSetLevel at hok
  split at hok
  · rename_i i hi
    cases hok
    obtain ⟨hlt, hp, hbefore⟩ := List.findIdx?_eq_some_iff_getElem.mp hi
    refine ⟨rfl, .inl ⟨l.ulEnt.take i, l.ulEnt[i], l.ulEnt.drop (i + 1), ?_, ?_, by simpa using hp, ?_⟩⟩
    · simp
    · exact List.set_eq_take_append_cons_drop.trans (if_pos hlt)
    · intro hmem
      obtain ⟨e, he, heq⟩ := List.mem_map.mp hmem
      obtain ⟨j, hj, rfl⟩ := List.mem_take_iff_getElem.mp he
      have := hbefore j (by omega)
      simp [heq] at this
  · rename_i hnone
    have hnew : h ∉ l.handles := by simpa [handles] using hnone
    split at hok
    · split at hok
      · cases hgrow : l.labelGrow mem with
        | error e => simp [hgrow, Except.map] at hok
        | ok l₁ =>
          obtain ⟨hent, hdef⟩ := labelGrow_ok hgrow
          simp only [hgrow, Except.map, Except.ok.injEq] at hok
          subst hok
          exact ⟨hdef, .inr ⟨hnew, by simp [addEntry, hent]⟩⟩
      · cases hok
    · cases hok
      exact ⟨rfl, .inr ⟨hnew, rfl⟩⟩

theorem labelSetLevel_get (hh : h < 2 ^ 61) (hok : l.labelSetLevel mem h lv grow = .ok l') (g : Nat) :
    l'.get g = if g = h then lv else l.get g := by
  have hhandle : lbHandle (lbCode h lv) = h := lbHandle_code hh lv
  have hlevel : lbLevel (lbCode h lv) = lv := lbLevel_code hh lv
  obtain ⟨hdef, hcases⟩ := labelSetLevel_cases hok
  have hfind : (l'.ulEnt.find? fun e ↦ lbHandle e = g) =
      if g = h then some (lbCode h lv) else l.ulEnt.find? fun e ↦ lbHandle e = g := by
    obtain ⟨xs, e, ys, hes, hes', he, hxs⟩ | ⟨hnew, hes'⟩ := hcases
    · rw [hes, hes', List.find?_append, List.find?_append]
      by_cases hg : g = h
      · subst hg
        simp [find?_eq_none_of_notMem hxs, hhandle]
      · simp [hg, hhandle, he, Ne.symm hg]
    · rw [hes', List.find?_append]
      by_cases hg : g = h
      · subst hg
        simp [find?_eq_none_of_notMem hnew, hhandle]
      · simp [hg, hhandle, Ne.symm hg]
  unfold get
  rw [hfind, hdef]
  split_ifs
  · exact hlevel
  · rfl

theorem labelSetLevel_handles (hh : h < 2 ^ 61) (hok : l.labelSetLevel mem h lv grow = .ok l') :
    h ∈ l.handles ∧ l'.handles = l.handles ∨ h ∉ l.handles ∧ l'.handles = l.handles ++ [h] := by
  have hhandle : lbHandle (lbCode h lv) = h := lbHandle_code hh lv
  obtain ⟨-, ⟨xs, e, ys, hes, hes', he, -⟩ | ⟨hnew, hes'⟩⟩ := labelSetLevel_cases hok
  · exact .inl ⟨by simp [handles, hes, he], by simp [handles, hes, hes', hhandle, he]⟩
  · exact .inr ⟨hnew, by simp [handles, hes', hhandle]⟩

end Ulabel

/-- The level of `obj` after the loops, at a handle that they meet. -/
def raised (cur obj : Nat) : Nat := if cur ≠ lbLevelStar ∧ obj < cur then cur else obj

theorem raised_raised (cur obj : Nat) : raised cur (raised cur obj) = raised cur obj := by
  unfold raised
  split_ifs <;> rfl

structure Tainted (cur : Ulabel) (hs : List Nat) (obj obj' : Ulabel) : Prop where
  default : obj'.ulDefault = obj.ulDefault
  get : ∀ g, obj'.get g = if g ∈ hs then raised (cur.get g) (obj.get g) else obj.get g
  keeps : ∀ g ∈ obj.handles, g ∈ obj'.handles
  only : ∀ g ∈ obj'.handles, g ∈ hs ∨ g ∈ obj.handles

namespace Tainted

variable {cur obj obj₁ obj' : Ulabel} {hs gs : List Nat} {h : Nat}

theorem refl (cur obj : Ulabel) : Tainted cur [] obj obj :=
  ⟨rfl, fun g ↦ by simp, fun _ ↦ id, fun _ ↦ .inr⟩

theorem trans (h₁ : Tainted cur hs obj obj₁) (h₂ : Tainted cur gs obj₁ obj') :
    Tainted cur (hs ++ gs) obj obj' := by
  refine ⟨h₂.default.trans h₁.default, fun g ↦ ?_, fun g hg ↦ h₂.keeps g (h₁.keeps g hg), fun g hg ↦ ?_⟩
  · rw [h₂.get, h₁.get]
    by_cases hh : g ∈ hs <;> by_cases hg : g ∈ gs <;> simp [hh, hg, raised_raised]
  · rcases h₂.only g hg with hg | hg
    · exact .inl (List.mem_append_right _ hg)
    · exact (h₁.only g hg).imp_left fun hg ↦ List.mem_append_left _ hg

end Tainted

section Loops

variable {cur obj obj' : Ulabel} {h : Nat}

theorem taintAt_tainted (hh : h < 2 ^ 61) (hok : taintAt cur obj h = .ok obj') :
    Tainted cur [h] obj obj' ∧ (h ∈ obj.handles → obj'.handles = obj.handles) := by
  have hsame : raised (cur.get h) (obj.get h) = obj.get h →
      Tainted cur [h] obj obj ∧ (h ∈ obj.handles → obj.handles = obj.handles) := by
    intro hraised
    refine ⟨⟨rfl, fun g ↦ ?_, fun _ ↦ id, fun _ ↦ .inr⟩, fun _ ↦ rfl⟩
    by_cases hg : g = h
    · subst hg
      simp [hraised]
    · simp [hg]
  unfold taintAt at hok
  split at hok
  · rename_i hstar
    cases hok
    exact hsame (by simp [raised, hstar])
  · rename_i hstar
    split at hok
    · rename_i hlt
      have hget := Ulabel.labelSetLevel_get hh hok
      have hraised : raised (cur.get h) (obj.get h) = cur.get h := if_pos ⟨hstar, hlt⟩
      refine ⟨⟨(Ulabel.labelSetLevel_cases hok).1, fun g ↦ ?_, fun g hg ↦ ?_, fun g hg ↦ ?_⟩,
        fun hmem ↦ ?_⟩
      · rw [hget]
        by_cases hg : g = h
        · subst hg
          simp [hraised]
        · simp [hg]
      · rcases Ulabel.labelSetLevel_handles hh hok with ⟨-, heq⟩ | ⟨-, heq⟩ <;> simp [heq, hg]
      · rcases Ulabel.labelSetLevel_handles hh hok with ⟨-, heq⟩ | ⟨-, heq⟩
        · exact .inr (heq ▸ hg)
        · rw [heq, List.mem_append] at hg
          exact hg.symm
      · rcases Ulabel.labelSetLevel_handles hh hok with ⟨-, heq⟩ | ⟨hnot, -⟩
        · exact heq
        · exact absurd hmem hnot
    · rename_i hlt
      cases hok
      exact hsame (if_neg fun h ↦ hlt h.2)

theorem taintCur_tainted {hs : List Nat} (hhs : ∀ h ∈ hs, h < 2 ^ 61)
    (hok : taintCur cur hs obj = .ok obj') : Tainted cur hs obj obj' := by
  induction hs generalizing obj with
  | nil =>
    cases hok
    exact .refl _ _
  | cons h hs ih =>
    obtain ⟨obj₁, hat, hrest⟩ := except_bind_ok hok
    exact (taintAt_tainted (hhs h List.mem_cons_self) hat).1.trans
      (ih (fun g hg ↦ hhs g (List.mem_cons_of_mem _ hg)) hrest)

theorem taintObj_tainted {i n : Nat} (hn : i + n = obj.ulEnt.length)
    (hok : taintObj cur i n obj = .ok obj') : Tainted cur (obj.handles.drop i) obj obj' := by
  induction n generalizing i obj with
  | zero =>
    cases hok
    rw [List.drop_eq_nil_of_le (by simp [Ulabel.handles, ← hn])]
    exact .refl _ _
  | succ n ih =>
    obtain ⟨obj₁, hat, hrest⟩ := except_bind_ok hok
    have hi : i < obj.ulEnt.length := by omega
    have hi' : i < obj.handles.length := by simpa [Ulabel.handles] using hi
    have hh : lbHandle (obj.ulEnt.getD i 0) = obj.handles[i] := by
      simp [Ulabel.handles, List.getElem?_eq_getElem hi]
    rw [hh] at hat
    have hmem : obj.handles[i] ∈ obj.handles := List.getElem_mem hi'
    obtain ⟨htaint, hhandles⟩ := taintAt_tainted (Ulabel.handles_lt hmem) hat
    have hlen : obj₁.ulEnt.length = obj.ulEnt.length := by
      simpa [Ulabel.handles] using congrArg List.length (hhandles hmem)
    rw [List.drop_eq_getElem_cons hi']
    exact htaint.trans (hhandles hmem ▸ ih (by omega) hrest)

theorem taintCowComputeLabel_tainted (hok : taintCowComputeLabel cur obj = .ok obj') :
    ∃ hs, (∀ h, h ∈ hs ↔ h ∈ cur.handles ∨ h ∈ obj.handles) ∧ Tainted cur hs obj obj' := by
  obtain ⟨obj₁, hcur, hobj⟩ := except_bind_ok hok
  have h₁ := taintCur_tainted (fun h hh ↦ Ulabel.handles_lt hh) hcur
  have h₂ := taintObj_tainted (Nat.zero_add _) hobj
  refine ⟨_, fun h ↦ ?_, h₁.trans h₂⟩
  rw [List.drop_zero, List.mem_append]
  constructor
  · rintro (hh | hh)
    · exact .inl hh
    · exact h₁.only h hh
  · exact Or.imp_right (h₁.keeps h)

theorem taintAt_succeeds (cur : Ulabel) (h : Nat) (hroom : obj.ulEnt.length < obj.ulSize) :
    ∃ obj', taintAt cur obj h = .ok obj' ∧ obj'.ulEnt.length ≤ obj.ulEnt.length + 1 ∧
      obj'.ulSize = obj.ulSize := by
  unfold taintAt
  split
  · exact ⟨obj, rfl, Nat.le_succ _, rfl⟩
  split
  · unfold Ulabel.labelSetLevel
    split
    · exact ⟨_, rfl, by simp, rfl⟩
    · rw [if_neg hroom.ne]
      exact ⟨_, rfl, by simp [Ulabel.addEntry], rfl⟩
  · exact ⟨obj, rfl, Nat.le_succ _, rfl⟩

theorem taintCur_succeeds (cur : Ulabel) {hs : List Nat}
    (hroom : obj.ulEnt.length + hs.length ≤ obj.ulSize) :
    ∃ obj', taintCur cur hs obj = .ok obj' := by
  induction hs generalizing obj with
  | nil => exact ⟨obj, rfl⟩
  | cons h hs ih =>
    rw [List.length_cons] at hroom
    have hfree : obj.ulEnt.length < obj.ulSize := by omega
    obtain ⟨obj₁, hat, hlen, hsize⟩ := taintAt_succeeds cur h hfree
    obtain ⟨obj', hrest⟩ := ih (show obj₁.ulEnt.length + hs.length ≤ obj₁.ulSize by omega)
    exact ⟨obj', by rw [taintCur, hat]; exact hrest⟩

theorem taintAt_found (cur : Ulabel) (hmem : h ∈ obj.handles) : ∃ obj', taintAt cur obj h = .ok obj' := by
  unfold taintAt
  split
  · exact ⟨obj, rfl⟩
  split
  · unfold Ulabel.labelSetLevel
    split
    · exact ⟨_, rfl⟩
    · rename_i hnone
      exact absurd hmem (by simpa [Ulabel.handles] using hnone)
  · exact ⟨obj, rfl⟩

theorem taintObj_succeeds (cur : Ulabel) {i n : Nat} (hn : i + n = obj.ulEnt.length) :
    ∃ obj', taintObj cur i n obj = .ok obj' := by
  induction n generalizing i obj with
  | zero => exact ⟨obj, rfl⟩
  | succ n ih =>
    have hmem : lbHandle (obj.ulEnt.getD i 0) ∈ obj.handles := by
      have hi : i < obj.ulEnt.length := by omega
      simp only [List.getD_eq_getElem?_getD, List.getElem?_eq_getElem hi, Option.getD_some]
      exact List.mem_map_of_mem (List.getElem_mem hi)
    obtain ⟨obj₁, hat⟩ := taintAt_found cur hmem
    have hlen : obj₁.ulEnt.length = obj.ulEnt.length := by
      have := (taintAt_tainted (Ulabel.handles_lt hmem) hat).2 hmem
      simpa [Ulabel.handles] using congrArg List.length this
    obtain ⟨obj', hrest⟩ := ih (show i + 1 + n = obj₁.ulEnt.length by omega)
    exact ⟨obj', by rw [taintObj, hat]; exact hrest⟩

theorem taintCowComputeLabel_succeeds (hroom : obj.ulEnt.length + cur.ulEnt.length ≤ obj.ulSize) :
    ∃ obj', taintCowComputeLabel cur obj = .ok obj' := by
  have hroom' : obj.ulEnt.length + cur.handles.length ≤ obj.ulSize := by
    simpa [Ulabel.handles] using hroom
  obtain ⟨obj₁, hcur⟩ := taintCur_succeeds cur hroom'
  obtain ⟨obj', hobj⟩ := taintObj_succeeds cur (Nat.zero_add obj₁.ulEnt.length)
  exact ⟨obj', by rw [taintCowComputeLabel, hcur]; exact hobj⟩

end Loops

theorem cmp_raised (cur obj : Nat) :
    starlo.cmp cur (raised cur obj) = true ↔ ¬(obj = lbLevelStar ∧ cur < lbLevelStar) := by
  rw [cmp_starlo_eq]
  unfold raised
  split_ifs with hraise <;> simp only [lbLevelStar] at * <;> omega

theorem raised_spec (cur obj : Nat) :
    obj ≤ raised cur obj ∧ starlo.cmp obj (raised cur obj) = true ∧
      (raised cur obj ≠ obj → starlo.cmp cur obj = false) := by
  rw [cmp_starlo_eq, ← Bool.not_eq_true, cmp_starlo_eq]
  unfold raised
  split_ifs with hraise <;> simp only [lbLevelStar] at * <;> omega

/-- With room the copy is made. Its levels never go down, and they go up only where
the thread was not below the object. The thread is below the copy exactly when it is in
the default level and the object has no star that the thread lacks. -/
theorem taint_cow_copy (cur obj : Ulabel) :
    (obj.ulEnt.length + cur.ulEnt.length ≤ obj.ulSize →
      ∃ obj', taintCowComputeLabel cur obj = .ok obj') ∧
    ∀ obj', taintCowComputeLabel cur obj = .ok obj' →
      (cur.labelCompare obj' .starlo = true ↔
        starlo.cmp cur.ulDefault obj.ulDefault = true ∧
          ∀ h, ¬(obj.get h = lbLevelStar ∧ cur.get h < lbLevelStar)) ∧
      ∀ h, obj.get h ≤ obj'.get h ∧ starlo.cmp (obj.get h) (obj'.get h) = true ∧
        (obj'.get h ≠ obj.get h → starlo.cmp (cur.get h) (obj.get h) = false) := by
  refine ⟨taintCowComputeLabel_succeeds, fun obj' hok ↦ ?_⟩
  obtain ⟨hs, hmem, htaint⟩ := taintCowComputeLabel_tainted hok
  have hnamed : ∀ {h}, h ∈ hs → obj'.get h = raised (cur.get h) (obj.get h) := fun hh ↦ by
    rw [htaint.get, if_pos hh]
  constructor
  · simp only [Ulabel.labelCompare, Bool.and_eq_true, List.all_eq_true, htaint.default]
    constructor
    · rintro ⟨⟨hcur, hobj⟩, hdef⟩
      refine ⟨hdef, fun h ↦ ?_⟩
      by_cases hh : h ∈ hs
      · rw [← cmp_raised, ← hnamed hh]
        exact ((hmem h).mp hh).elim (hcur h) fun hh ↦ hobj h (htaint.keeps h hh)
      · -- a handle without an entry has the default levels
        rw [hmem, not_or] at hh
        rw [Ulabel.get_of_notMem hh.1, Ulabel.get_of_notMem hh.2]
        rw [cmp_starlo_eq] at hdef
        simp only [lbLevelStar]
        omega
    · rintro ⟨hdef, hall⟩
      have hbelow : ∀ h ∈ hs, starlo.cmp (cur.get h) (obj'.get h) = true := fun h hh ↦ by
        rw [hnamed hh, cmp_raised]
        exact hall h
      refine ⟨⟨fun h hh ↦ hbelow h ((hmem h).mpr (.inl hh)), fun h hh ↦ hbelow h ?_⟩, hdef⟩
      exact (htaint.only h hh).elim id fun hh ↦ (hmem h).mpr (.inr hh)
  · intro h
    by_cases hh : h ∈ hs
    · rw [hnamed hh]
      exact raised_spec _ _
    · rw [htaint.get, if_neg hh]
      exact ⟨le_rfl, cmp_refl _ _, fun hne ↦ absurd rfl hne⟩

/-- A thread above an object in the default level is not below the copy. -/
theorem taint_cow_default_missed : ∃ obj',
    taintCowComputeLabel ⟨256, 2, []⟩ ⟨256, 1, []⟩ = .ok obj' ∧
      Ulabel.labelCompare ⟨256, 2, []⟩ obj' .starlo = false :=
  ⟨⟨256, 1, []⟩, by decide, by decide⟩

end HiStar.Userlabel
