import Mathlib.Data.List.TakeWhile
import Mathlib.Tactic

namespace HiStar.FsDir

structure CString where
  chars : List Char
  noNul : '\x00' ∉ chars

def charAt (pn : List Char) (i : Nat) : Char := pn.getD i '\x00'

def stringAt (pn : List Char) (i : Nat) : List Char := (pn.drop i).takeWhile (· ≠ '\x00')

structure Slashes where
  baseSlashFirst : Option Nat
  baseSlashLast : Option Nat
  curSlashFirst : Option Nat

def slashStep (pn : List Char) (s : Slashes) (p : Nat) : Slashes :=
  let cur :=
    if charAt pn p ≠ '/' ∧ charAt pn (p + 1) = '/' then some (p + 1) else s.curSlashFirst
  if charAt pn p = '/' ∧ charAt pn (p + 1) ≠ '\x00' ∧ charAt pn (p + 1) ≠ '/' then
    ⟨cur, some p, cur⟩
  else ⟨s.baseSlashFirst, s.baseSlashLast, cur⟩

def slashScan (pn : List Char) (n : Nat) : Slashes :=
  (List.range n).foldl (slashStep pn) ⟨none, none, if charAt pn 0 = '/' then some 0 else none⟩

structure DirBase where
  dirname : List Char
  basename : List Char
  writes : List Nat
  deriving DecidableEq

/-- The part of `fs_dirbase` after the loop, without a result when it would write through a
null pointer. -/
def cutAt (pn : List Char) : Slashes → Option DirBase
  | ⟨none, _, cur⟩ =>
    if charAt pn 0 = '/' then some ⟨['/'], [], []⟩
    else
      match cur with
      | some c => some ⟨[], stringAt (pn.set c '\x00') 0, [c]⟩
      | none => some ⟨[], stringAt pn 0, []⟩
  | ⟨some first, some last, some cur⟩ =>
    let pn' := (pn.set first '\x00').set cur '\x00'
    let dirname := stringAt pn' 0
    some ⟨if dirname = [] then ['/'] else dirname, stringAt pn' (last + 1), [first, cur]⟩
  | _ => none

def fsDirbase (pn : List Char) : Option DirBase := cutAt pn (slashScan pn pn.length)

section Components

/-- The components of a path, where the first goes on from `acc`. -/
def componentsFrom : List Char → List Char → List (List Char)
  | acc, [] => if acc = [] then [] else [acc]
  | acc, c :: s =>
    if c = '/' then (if acc = [] then [] else [acc]) ++ componentsFrom [] s
    else componentsFrom (acc ++ [c]) s

def components (s : List Char) : List (List Char) := componentsFrom [] s

variable {b : List Char}

theorem componentsFrom_slash (acc s t : List Char) :
    componentsFrom acc (s ++ '/' :: t) = componentsFrom acc s ++ components t := by
  induction s generalizing acc with
  | nil => simp [componentsFrom, components]
  | cons c s ih =>
    simp only [List.cons_append, componentsFrom]
    split
    · rw [ih, List.append_assoc]
    · exact ih _

theorem components_slash (s t : List Char) :
    components (s ++ '/' :: t) = components s ++ components t := componentsFrom_slash [] s t

theorem componentsFrom_name (hb : '/' ∉ b) (acc : List Char) :
    componentsFrom acc b = if acc ++ b = [] then [] else [acc ++ b] := by
  induction b generalizing acc with
  | nil => simp [componentsFrom]
  | cons c b ih =>
    rw [List.mem_cons, not_or] at hb
    rw [componentsFrom, if_neg (Ne.symm hb.1), ih hb.2]
    simp

theorem components_name (hb : '/' ∉ b) : components b = if b = [] then [] else [b] := by
  exact componentsFrom_name hb []

theorem components_slashes (s : List Char) (m : Nat) :
    components (s ++ List.replicate m '/') = components s := by
  induction m with
  | zero => simp
  | succ m ih =>
    have hsplit : s ++ List.replicate (m + 1) '/' = (s ++ List.replicate m '/') ++ '/' :: [] := by
      simp [List.replicate_succ']
    rw [hsplit, components_slash, ih]
    simp [components, componentsFrom]

theorem components_middle (s t : List Char) (m : Nat) :
    components (s ++ List.replicate (m + 1) '/' ++ t) = components s ++ components t := by
  have hsplit : s ++ List.replicate (m + 1) '/' ++ t = (s ++ List.replicate m '/') ++ '/' :: t := by
    simp [List.replicate_succ']
  rw [hsplit, components_slash, components_slashes]

end Components

/-- How the pointers cut up the part of the string that was looked at: slashes only; a
first component and slashes; or a directory, slashes, a component and slashes. -/
inductive Cut : List Char → Slashes → Prop
  | slashes (m : Nat) : Cut (List.replicate (m + 1) '/') ⟨none, none, some 0⟩
  | first {b : List Char} (hb : '/' ∉ b) (hne : b ≠ []) (m : Nat) :
      Cut (b ++ List.replicate m '/') ⟨none, none, if m = 0 then none else some b.length⟩
  | base (d : List Char) {b : List Char} (hb : '/' ∉ b) (hne : b ≠ []) (k m : Nat) :
      Cut (d ++ List.replicate (k + 1) '/' ++ b ++ List.replicate m '/')
        ⟨some d.length, some (d.length + k),
          some (if m = 0 then d.length else d.length + (k + 1) + b.length)⟩

/-- What the loop does at the character `l` before `c`, which is at `q`. -/
def slashChar (s : Slashes) (l c : Char) (q : Nat) : Slashes :=
  let cur := if l ≠ '/' ∧ c = '/' then some q else s.curSlashFirst
  if l = '/' ∧ c ≠ '/' then ⟨cur, some (q - 1), cur⟩ else ⟨s.baseSlashFirst, s.baseSlashLast, cur⟩

section Scan

variable {s : Slashes} {u b : List Char} {c l : Char}

theorem getLast?_name {m : Nat} (hb : '/' ∉ b) (hne : b ≠ []) (u : List Char)
    (hl : (u ++ b ++ List.replicate m '/').getLast? = some l) : l = '/' ↔ m ≠ 0 := by
  cases m with
  | zero =>
    have hmem : l ∈ b := by
      obtain ⟨b', x, rfl⟩ := List.eq_nil_or_concat' b |>.resolve_left hne
      simp at hl
      simp [hl]
    simp only [ne_eq, not_true_eq_false, iff_false]
    rintro rfl
    exact hb hmem
  | succ m =>
    rw [List.replicate_succ', ← List.append_assoc, List.getLast?_concat] at hl
    simpa using hl.symm

theorem slashChar_same (hlc : l = '/' ↔ c = '/') (q : Nat) : slashChar s l c q = s := by
  by_cases hc : c = '/' <;> simp_all [slashChar]

theorem slashChar_slash (hl : l ≠ '/') (q : Nat) :
    slashChar s l '/' q = ⟨s.baseSlashFirst, s.baseSlashLast, some q⟩ := by
  simp [slashChar, hl]

theorem slashChar_name (hl : l = '/') (hc : c ≠ '/') (q : Nat) :
    slashChar s l c q = ⟨s.curSlashFirst, some (q - 1), s.curSlashFirst⟩ := by
  simp [slashChar, hl, hc]

theorem Cut.step (h : Cut u s) (hl : u.getLast? = some l) :
    Cut (u ++ [c]) (slashChar s l c u.length) := by
  have hname (hc : c ≠ '/') {b : List Char} (hb : '/' ∉ b) : '/' ∉ b ++ [c] := by
    simp [hb, Ne.symm hc]
  cases h with
  | slashes m =>
    have hslash : l = '/' := by
      rw [List.replicate_succ', List.getLast?_concat] at hl
      exact (Option.some.inj hl).symm
    by_cases hc : c = '/'
    · rw [slashChar_same (by simp [hslash, hc]), hc, ← List.replicate_succ']
      exact .slashes (m + 1)
    · rw [slashChar_name hslash hc]
      simpa using Cut.base [] (hname hc List.not_mem_nil) (by simp) m 0
  | first hb hne m =>
    rename_i b
    have hlast := getLast?_name hb hne [] hl
    by_cases hc : c = '/'
    · subst hc
      have hgrown := Cut.first hb hne (m + 1)
      rw [List.replicate_succ', ← List.append_assoc] at hgrown
      by_cases hm : m = 0
      · rw [slashChar_slash (by simp [hlast, hm])]
        simpa [hm] using hgrown
      · rw [slashChar_same (by simp [hlast, hm])]
        simpa [hm] using hgrown
    · cases m with
      | zero =>
        rw [slashChar_same (by simp [hlast, hc])]
        simpa using Cut.first (hname hc hb) (by simp) 0
      | succ m =>
        rw [slashChar_name (by simp [hlast]) hc]
        simpa using Cut.base b (hname hc List.not_mem_nil) (by simp) m 0
  | base d hb hne k m =>
    rename_i b
    have hlast := getLast?_name hb hne (d ++ List.replicate (k + 1) '/') hl
    by_cases hc : c = '/'
    · subst hc
      have hgrown := Cut.base d hb hne k (m + 1)
      rw [List.replicate_succ' (n := m), ← List.append_assoc _ (List.replicate m '/')] at hgrown
      by_cases hm : m = 0
      · rw [slashChar_slash (by simp [hlast, hm])]
        simpa [hm, Nat.add_assoc] using hgrown
      · rw [slashChar_same (by simp [hlast, hm])]
        simpa [hm] using hgrown
    · cases m with
      | zero =>
        rw [slashChar_same (by simp [hlast, hc])]
        simpa using Cut.base d (hname hc hb) (by simp) k 0
      | succ m =>
        rw [slashChar_name (by simp [hlast]) hc]
        simpa [← Nat.add_assoc] using Cut.base (d ++ List.replicate (k + 1) '/' ++ b)
          (hname hc List.not_mem_nil) (by simp) m 0

theorem charAt_eq {pn : List Char} {p : Nat} (hp : p < pn.length) : charAt pn p = pn[p] := by
  simp [charAt, hp]

theorem CString.charAt_ne {pn : CString} {p : Nat} (hp : p < pn.chars.length) :
    charAt pn.chars p ≠ '\x00' := by
  rw [charAt_eq hp]
  intro h
  exact pn.noNul (h ▸ List.getElem_mem hp)

theorem slashScan_cut (pn : CString) {n : Nat} (hn : n < pn.chars.length) :
    Cut (pn.chars.take (n + 1)) (slashScan pn.chars n) := by
  induction n with
  | zero =>
    rw [List.take_succ_eq_append_getElem hn, ← charAt_eq hn]
    simp only [slashScan, List.range_zero, List.foldl_nil, List.take_zero, List.nil_append]
    by_cases hc : charAt pn.chars 0 = '/'
    · rw [if_pos hc, hc]
      exact .slashes 0
    · rw [if_neg hc]
      exact .first (b := [charAt pn.chars 0]) (by simpa using Ne.symm hc) (by simp) 0
  | succ n ih =>
    have hp : n < pn.chars.length := by omega
    have hlast : (pn.chars.take (n + 1)).getLast? = some (charAt pn.chars n) := by
      rw [List.take_succ_eq_append_getElem hp, List.getLast?_concat, charAt_eq hp]
    have hstep := (ih hp).step hlast (c := charAt pn.chars (n + 1))
    rw [List.take_succ_eq_append_getElem hn, ← charAt_eq hn, slashScan, List.range_succ,
      List.foldl_append]
    have hlen : (pn.chars.take (n + 1)).length = n + 1 := by simp; omega
    have hsame : slashStep pn.chars (slashScan pn.chars n) n =
        slashChar (slashScan pn.chars n) (charAt pn.chars n) (charAt pn.chars (n + 1)) (n + 1) := by
      simp [slashStep, slashChar, pn.charAt_ne hn]
    rw [hlen, ← hsame] at hstep
    exact hstep

theorem slashScan_last (pn : CString) {n : Nat} (hn : pn.chars.length = n + 1) :
    slashScan pn.chars (n + 1) = slashScan pn.chars n := by
  have hend : charAt pn.chars (n + 1) = '\x00' := by simp [charAt, hn]
  rw [slashScan, List.range_succ, List.foldl_append]
  simp [slashStep, hend, slashScan]

theorem slashScan_whole (pn : CString) (hne : pn.chars ≠ []) :
    Cut pn.chars (slashScan pn.chars pn.chars.length) := by
  obtain ⟨n, hn⟩ := Nat.exists_eq_succ_of_ne_zero (mt List.length_eq_zero_iff.mp hne)
  have h := slashScan_cut pn (n := n) (by omega)
  rw [List.take_of_length_le (by omega)] at h
  rw [hn, slashScan_last pn hn]
  exact h

end Scan

section Result

variable {b d : List Char} {s : Slashes}

theorem takeWhile_name (hb : '\x00' ∉ b) : b.takeWhile (· ≠ '\x00') = b := by
  rw [List.takeWhile_eq_self_iff]
  intro c hc
  rw [decide_eq_true_iff]
  rintro rfl
  exact hb hc

theorem stringAt_nul (u t : List Char) (hb : '\x00' ∉ b) :
    stringAt (u ++ b ++ '\x00' :: t) u.length = b := by
  rw [stringAt, List.append_assoc, List.drop_left, List.takeWhile_append, takeWhile_name hb]
  simp

theorem stringAt_end (u : List Char) (hb : '\x00' ∉ b) : stringAt (u ++ b) u.length = b := by
  rw [stringAt, List.drop_left, takeWhile_name hb]

theorem set_slashes (u t : List Char) (m : Nat) :
    (u ++ List.replicate (m + 1) '/' ++ t).set u.length '\x00' =
      u ++ '\x00' :: (List.replicate m '/' ++ t) := by
  rw [List.append_assoc, List.set_append_right _ _ le_rfl, Nat.sub_self]
  rfl

structure Splits (pn : List Char) (r : DirBase) : Prop where
  within : ∀ i ∈ r.writes, i < pn.length
  parts : components r.dirname ++ (if r.basename = [] then [] else [r.basename]) = components pn
  name : '/' ∉ r.basename
  absolute : r.dirname.head? = some '/' ↔ pn.head? = some '/'
  empty : r.basename = [] → components pn = []

theorem components_replicate (m : Nat) : components (List.replicate m '/') = [] :=
  components_slashes [] m

theorem splits_slashes (m : Nat) : Splits (List.replicate (m + 1) '/') ⟨['/'], [], []⟩ where
  within := by simp
  parts := by rw [components_replicate]; decide
  name := by simp
  absolute := by simp [List.replicate_succ]
  empty := fun _ ↦ components_replicate _

theorem splits_first (hb : '/' ∉ b) (hne : b ≠ []) {m : Nat} {ws : List Nat}
    (hws : ∀ i ∈ ws, i < b.length + m) : Splits (b ++ List.replicate m '/') ⟨[], b, ws⟩ where
  within := by simpa using hws
  parts := by
    rw [components_slashes, components_name hb, if_neg hne]
    rfl
  name := hb
  absolute := by
    obtain ⟨c, b, rfl⟩ := List.exists_cons_of_ne_nil hne
    have hc : c ≠ '/' := by
      rintro rfl
      exact hb List.mem_cons_self
    simpa using hc
  empty := fun h ↦ absurd h hne

theorem splits_base (hb : '/' ∉ b) (hne : b ≠ []) {k m : Nat} {ws : List Nat}
    (hws : ∀ i ∈ ws, i < d.length + (k + 1) + b.length + m) :
    Splits (d ++ List.replicate (k + 1) '/' ++ b ++ List.replicate m '/')
      ⟨if d = [] then ['/'] else d, b, ws⟩ where
  within := by simpa [Nat.add_assoc] using hws
  parts := by
    have hd : components (if d = [] then ['/'] else d) = components d := by
      split
      · rename_i h
        rw [h]
        decide
      · rfl
    rw [components_slashes, components_middle, components_name hb, hd]
  name := hb
  absolute := by
    cases d with
    | nil => simp [List.replicate_succ]
    | cons c d => simp
  empty := fun h ↦ absurd h hne

theorem set_twice (d : List Char) (hb : '\x00' ∉ b) (k m : Nat) :
    ∃ t, (b ++ t).takeWhile (· ≠ '\x00') = b ∧
      ((d ++ List.replicate (k + 1) '/' ++ b ++ List.replicate m '/').set d.length '\x00').set
          (if m = 0 then d.length else d.length + (k + 1) + b.length) '\x00' =
        d ++ '\x00' :: (List.replicate k '/' ++ (b ++ t)) := by
  have hset := set_slashes d (b ++ List.replicate m '/') k
  rw [← List.append_assoc] at hset
  rw [hset]
  cases m with
  | zero =>
    refine ⟨[], ?_, ?_⟩
    · rw [List.append_nil, takeWhile_name hb]
    · simp
  | succ m =>
    refine ⟨'\x00' :: List.replicate m '/', ?_, ?_⟩
    · exact stringAt_nul [] (List.replicate m '/') hb
    · have hlast := set_slashes (d ++ '\x00' :: List.replicate k '/' ++ b) [] m
      simpa [Nat.add_assoc, Nat.add_comm 1] using hlast

theorem Cut.splits {pn : List Char} (h : Cut pn s) (hnul : '\x00' ∉ pn) :
    ∃ r, cutAt pn s = some r ∧ Splits pn r := by
  cases h with
  | slashes m => exact ⟨_, rfl, splits_slashes m⟩
  | first hb hne m =>
    rename_i b
    have hbn : '\x00' ∉ b := fun h ↦ hnul (List.mem_append_left _ h)
    have hrel : charAt (b ++ List.replicate m '/') 0 ≠ '/' := by
      obtain ⟨c, b, rfl⟩ := List.exists_cons_of_ne_nil hne
      rintro rfl
      exact hb List.mem_cons_self
    cases m with
    | zero =>
      have hstr : stringAt (b ++ List.replicate 0 '/') 0 = b := by
        simpa using stringAt_end [] hbn
      refine ⟨_, if_neg hrel, ?_⟩
      rw [hstr]
      exact splits_first hb hne (by simp)
    | succ m =>
      have hset := set_slashes b [] m
      rw [List.append_nil] at hset
      have hstr : stringAt ((b ++ List.replicate (m + 1) '/').set b.length '\x00') 0 = b := by
        rw [hset]
        exact stringAt_nul [] _ hbn
      refine ⟨_, if_neg hrel, ?_⟩
      rw [hstr]
      exact splits_first hb hne (by simp)
  | base d hb hne k m =>
    rename_i b
    have hdn : '\x00' ∉ d := fun h ↦ hnul (by simp [h])
    have hbn : '\x00' ∉ b := fun h ↦ hnul (by simp [h])
    obtain ⟨t, hname, hmem⟩ := set_twice d hbn k m
    have hdir : stringAt (d ++ '\x00' :: (List.replicate k '/' ++ (b ++ t))) 0 = d :=
      stringAt_nul [] _ hdn
    have hbase : stringAt (d ++ '\x00' :: (List.replicate k '/' ++ (b ++ t))) (d.length + k + 1) =
        b := by
      have hskip : d ++ '\x00' :: (List.replicate k '/' ++ (b ++ t)) =
          (d ++ '\x00' :: List.replicate k '/') ++ (b ++ t) := by simp
      have hlen : d.length + k + 1 = (d ++ '\x00' :: List.replicate k '/').length := by simp; omega
      rw [hskip, stringAt, hlen, List.drop_left, hname]
    refine ⟨_, rfl, ?_⟩
    rw [hmem, hdir, hbase]
    refine splits_base hb hne ?_
    have hpos := List.length_pos_iff.mpr hne
    rintro i hi
    rw [List.mem_pair] at hi
    split at hi <;> omega

end Result

/-- Every path is split as it should be. -/
theorem fs_dirbase_splits (pn : CString) :
    ∃ r, fsDirbase pn.chars = some r ∧
      (∀ i ∈ r.writes, i < pn.chars.length) ∧
      components r.dirname ++ (if r.basename = [] then [] else [r.basename]) =
        components pn.chars ∧
      '/' ∉ r.basename ∧
      (r.dirname.head? = some '/' ↔ pn.chars.head? = some '/') ∧
      (r.basename = [] → components pn.chars = []) := by
  by_cases hne : pn.chars = []
  · rw [hne]
    exact ⟨⟨[], [], []⟩, rfl, by decide⟩
  · obtain ⟨r, hr, h⟩ := (slashScan_whole pn hne).splits pn.noNul
    exact ⟨r, hr, h.within, h.parts, h.name, h.absolute, h.empty⟩

example : fsDirbase "//a//b/".toList = some ⟨"//a".toList, ['b'], [3, 6]⟩ := by decide

end HiStar.FsDir
