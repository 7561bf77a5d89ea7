import HiStar.Lib.Exec
import HiStar.Userlabel.Label

namespace HiStar.Userlabel

open Iflow Lib

section Printing

def levelToChar (lv : Nat) : Char :=
  if lv = lbLevelStar then '*' else (Nat.toDigits 10 lv).headD '0'

def entryText (e : Nat) : List Char :=
  Nat.toDigits 10 (lbHandle e) ++ [':', levelToChar (lbLevel e)]

def Ulabel.printed (l : Ulabel) : List Nat := l.ulEnt.filter fun e ↦ lbLevel e ≠ l.ulDefault

/-- `label_to_string`, when the text and the byte after it fit the buffer. -/
def labelToString (l : Ulabel) : List Char :=
  '{' :: ' ' :: (l.printed.flatMap fun e ↦ entryText e ++ [' ']) ++
    [levelToChar l.ulDefault, ' ', '}']

end Printing

section Numbers

def isSpace (c : Char) : Bool := c ∈ [' ', '\t', '\n', '\x0b', '\x0c', '\r']

def ulongMax : Nat := 2 ^ 64 - 1

/-- The digits at the start of the text; a number that is too large is the largest
one. -/
def readDigits : Nat → List Char → Nat
  | number, [] => number
  | number, c :: s =>
    if c.isDigit then readDigits (min (number * 10 + (c.toNat - '0'.toNat)) ulongMax) s else number

def strtol (s : List Char) : Nat :=
  match s.dropWhile isSpace with
  | '-' :: s => (2 ^ 64 - min (readDigits 0 s) (2 ^ 63)) % 2 ^ 64
  | '+' :: s => min (readDigits 0 s) (2 ^ 63 - 1)
  | s => min (readDigits 0 s) (2 ^ 63 - 1)

def stringToLevel (s : List Char) : Nat :=
  if s.head? = some '*' then lbLevelStar else strtol s % 2 ^ 8

end Numbers

section Parsing

/-- What stops `label::from_string`: its own exception, that of `label::set`, or a write
outside the token buffer. -/
inductive TextError
  | inval
  | thrown (t : Thrown)
  | outside
  deriving DecidableEq

def bufsize : Nat := 32

/-- The text after the last blank before the last digit or star; the length is an `int`. -/
def textDefault (s : List Char) : Option (List Char) :=
  let len := s.length % 2 ^ 32
  if 2 ^ 31 ≤ len then none
  else
    match ((s.take len).reverse.dropWhile fun c ↦ !c.isDigit && c ≠ '*').dropWhile (· ≠ ' ') with
    | [] => none
    | c :: front => some (s.drop (c :: front).length)

def setText (mem : Heap) (l : Label) (handle level : List Char) : Except TextError Label :=
  -- an entry has three bits for the level
  match l.set mem (strtol handle) (stringToLevel level % 8) with
  | .ok l => .ok l
  | .error t => .error (.thrown t)

/-- The body of the loop: the token is copied to the buffer, with a 0 after it, and
taken apart there. Its length `n` is an `int`. -/
def setToken (mem : Heap) (l : Label) (token : List Char) : Except TextError Label :=
  let n := token.length % 2 ^ 32
  if bufsize ≤ n then .error .outside
  else
    match (token.take n).dropWhile (· ≠ ':') with
    | [] => .error .inval
    | _ :: lev => setText mem l ((token.take n).takeWhile (· ≠ ':')) lev

/-- The loop; `token` is what was met since the last blank. -/
def fromTokens (mem : Heap) : List Char → List Char → Label → Except TextError Label
  | _, [], l => .ok l
  | token, c :: s, l =>
    if c = ' ' then do
      let l ← setToken mem l token
      fromTokens mem [] s l
    else fromTokens mem (token ++ [c]) s l

def skipBrace (s : List Char) : List Char := if s.head? = some '{' then s.tail else s

def fromString (mem : Heap) (l : Label) (s : List Char) : Except TextError Label :=
  match textDefault s with
  | none => .error .inval
  | some d =>
    fromTokens mem [] ((skipBrace s).dropWhile (· = ' ')) (l.reset (stringToLevel d))

end Parsing

/-- The pieces of a text that a blank ends, where the first goes on from `token`. -/
def tokensOf : List Char → List Char → List (List Char)
  | _, [] => []
  | token, c :: s => if c = ' ' then token :: tokensOf [] s else tokensOf (token ++ [c]) s

def setTokens (mem : Heap) : List (List Char) → Label → Except TextError Label
  | [], l => .ok l
  | t :: ts, l => do
    let l ← setToken mem l t
    setTokens mem ts l

section Tokens

variable {mem : Heap} {l l' : Label} {t token s : List Char} {ts : List (List Char)}

theorem fromTokens_eq (token s : List Char) (l : Label) :
    fromTokens mem token s l = setTokens mem (tokensOf token s) l := by
  induction s generalizing token l with
  | nil => rfl
  | cons c s ih =>
    unfold fromTokens tokensOf
    split
    · simp only [setTokens, ih]
    · exact ih _ _

theorem tokensOf_append (ht : ' ' ∉ t) (token s : List Char) :
    tokensOf token (t ++ ' ' :: s) = (token ++ t) :: tokensOf [] s := by
  induction t generalizing token with
  | nil => simp [tokensOf]
  | cons c t ih =>
    rw [List.mem_cons, not_or] at ht
    rw [List.cons_append, tokensOf, if_neg (Ne.symm ht.1), ih ht.2]
    simp

theorem setToken_outside : setToken mem l t = .error .outside ↔ bufsize ≤ t.length % 2 ^ 32 := by
  unfold setToken
  dsimp only
  split
  · rename_i hlong
    exact iff_of_true rfl hlong
  · rename_i hshort
    refine iff_of_false (fun h ↦ ?_) hshort
    split at h
    · cases h
    · unfold setText at h
      split at h <;> cases h

theorem setToken_colon (hok : setToken mem l t = .ok l') : ':' ∈ t := by
  unfold setToken at hok
  dsimp only at hok
  split at hok
  · cases hok
  · split at hok
    · cases hok
    · rename_i c lev hdrop
      have hhead : c = ':' := by
        have := List.head?_dropWhile_not (fun c ↦ decide (c ≠ ':')) (t.take (t.length % 2 ^ 32))
        rw [hdrop] at this
        simpa using this
      have hmem : c ∈ (t.take (t.length % 2 ^ 32)).dropWhile (· ≠ ':') := by
        rw [hdrop]
        exact List.mem_cons_self
      exact hhead ▸ List.mem_of_mem_take (List.dropWhile_subset _ hmem)

theorem setTokens_colon (hok : setTokens mem ts l = .ok l') : ∀ t ∈ ts, ':' ∈ t := by
  induction ts generalizing l with
  | nil => simp
  | cons t ts ih =>
    obtain ⟨l₁, htok, hrest⟩ := except_bind_ok hok
    exact List.forall_mem_cons.mpr ⟨setToken_colon htok, ih hrest⟩

theorem setTokens_outside : setTokens mem ts l = .error .outside ↔
    ∃ pre t post l', ts = pre ++ t :: post ∧ setTokens mem pre l = .ok l' ∧
      bufsize ≤ t.length % 2 ^ 32 := by
  induction ts generalizing l with
  | nil => simp [setTokens]
  | cons t ts ih =>
    cases htok : setToken mem l t with
    | error e =>
      have herr : setTokens mem (t :: ts) l = .error e := by rw [setTokens, htok]; rfl
      rw [herr]
      constructor
      · rintro ⟨⟩
        exact ⟨[], t, ts, l, rfl, rfl, setToken_outside.mp htok⟩
      · rintro ⟨pre, t', post, l', hts, hpre, hlong⟩
        cases pre with
        | nil =>
          cases hts
          rw [← htok, setToken_outside.mpr hlong]
        | cons t₁ pre =>
          cases hts
          obtain ⟨l₁, h₁, -⟩ := except_bind_ok hpre
          rw [htok] at h₁
          cases h₁
    | ok l₁ =>
      have hstep : setTokens mem (t :: ts) l = setTokens mem ts l₁ := by rw [setTokens, htok]; rfl
      rw [hstep, ih]
      constructor
      · rintro ⟨pre, t', post, l', rfl, hpre, hlong⟩
        exact ⟨t :: pre, t', post, l', rfl, by rw [setTokens, htok]; exact hpre, hlong⟩
      · rintro ⟨pre, t', post, l', hts, hpre, hlong⟩
        cases pre with
        | nil =>
          cases hts
          rw [setToken_outside.mpr hlong] at htok
          cases htok
        | cons t₁ pre =>
          cases hts
          obtain ⟨l₂, h₂, hpre⟩ := except_bind_ok hpre
          rw [htok] at h₂
          cases h₂
          exact ⟨pre, t', post, l', rfl, hpre, hlong⟩

end Tokens

section Printed

variable {l : Ulabel} {e : Nat}

theorem levelToChar_isDigit (lv : Nat) : levelToChar lv = '*' ∨ (levelToChar lv).isDigit = true := by
  unfold levelToChar
  split
  · exact .inl rfl
  · right
    cases hdig : Nat.toDigits 10 lv with
    | nil => exact absurd hdig Nat.toDigits_ne_nil
    | cons c cs => exact Nat.isDigit_of_mem_toDigits (by decide) le_rfl (hdig ▸ List.mem_cons_self)

theorem levelToChar_ne {lv : Nat} {c : Char} (hc : c ≠ '*') (hd : c.isDigit = false) :
    levelToChar lv ≠ c := by
  rintro rfl
  rcases levelToChar_isDigit lv with h | h
  · exact hc h
  · rw [hd] at h
    cases h

theorem blank_notMem_entryText (e : Nat) : ' ' ∉ entryText e := by
  intro hmem
  rcases List.mem_append.mp hmem with hmem | hmem
  · have := Nat.isDigit_of_mem_toDigits (by decide) le_rfl hmem
    exact absurd this (by decide)
  · have hne : levelToChar (lbLevel e) ≠ ' ' := levelToChar_ne (by decide) (by decide)
    simp only [List.mem_cons, List.not_mem_nil, or_false] at hmem
    exact hmem.elim (by decide) fun h ↦ hne h.symm

theorem entryText_length (e : Nat) : (entryText e).length ≤ 21 := by
  have hlt : lbHandle e < 10 ^ 19 := (lbHandle_lt e).trans (by decide)
  have := Nat.toDigits_length 10 (lbHandle e) 19 (by decide) hlt
  simpa [entryText] using this

theorem tokensOf_printed (es : List Nat) (s : List Char) :
    tokensOf [] ((es.flatMap fun e ↦ entryText e ++ [' ']) ++ s) = es.map entryText ++ tokensOf [] s := by
  induction es with
  | nil => rfl
  | cons e es ih =>
    have hsplit : ((e :: es).flatMap fun e ↦ entryText e ++ [' ']) ++ s =
        entryText e ++ ' ' :: ((es.flatMap fun e ↦ entryText e ++ [' ']) ++ s) := by simp
    rw [hsplit, tokensOf_append (blank_notMem_entryText e), ih]
    rfl

theorem tokensOf_labelToString (l : Ulabel) :
    tokensOf [] ((skipBrace (labelToString l)).dropWhile (· = ' ')) =
      l.printed.map entryText ++ [[levelToChar l.ulDefault]] := by
  have hlast : levelToChar l.ulDefault ≠ ' ' := levelToChar_ne (by decide) (by decide)
  have hskip : (skipBrace (labelToString l)).dropWhile (· = ' ') =
      (l.printed.flatMap fun e ↦ entryText e ++ [' ']) ++ [levelToChar l.ulDefault, ' ', '}'] := by
    have hbrace : skipBrace (labelToString l) =
        ' ' :: ((l.printed.flatMap fun e ↦ entryText e ++ [' ']) ++
          [levelToChar l.ulDefault, ' ', '}']) := rfl
    rw [hbrace, List.dropWhile_cons_of_pos (by decide)]
    cases l.printed with
    | nil => exact List.dropWhile_cons_of_neg (by simpa using hlast)
    | cons e es =>
      cases hdig : Nat.toDigits 10 (lbHandle e) with
      | nil => exact absurd hdig Nat.toDigits_ne_nil
      | cons c cs =>
        have hc : c ≠ ' ' := by
          rintro rfl
          have := Nat.isDigit_of_mem_toDigits (b := 10) (n := lbHandle e) (by decide) le_rfl
            (hdig ▸ List.mem_cons_self)
          exact absurd this (by decide)
        simp [entryText, hdig, hc]
  rw [hskip, tokensOf_printed]
  simp [tokensOf, hlast]

end Printed

/-- The loop gets to a token that does not fit the buffer: the tokens before it have a
colon, and their levels could be set. -/
def GetsToLongToken (mem : Heap) (dst : Label) (s : List Char) : Prop :=
  ∃ d pre t post l, textDefault s = some d ∧
    tokensOf [] ((skipBrace s).dropWhile (· = ' ')) = pre ++ t :: post ∧
    setTokens mem pre (dst.reset (stringToLevel d)) = .ok l ∧ bufsize ≤ t.length % 2 ^ 32

theorem fromString_outside {mem : Heap} {dst : Label} {s : List Char} :
    fromString mem dst s = .error .outside ↔ GetsToLongToken mem dst s := by
  unfold fromString GetsToLongToken
  cases htext : textDefault s with
  | none => simp
  | some d => simp [fromTokens_eq, setTokens_outside]

/-- What `label_to_string` prints, `label::from_string` refuses. It writes outside its
token buffer exactly when it gets to a token that is longer than the buffer. -/
theorem label_text (mem : Heap) (dst : Label) :
    (∀ l : Ulabel, (labelToString l).length < 1024 →
      ∃ e, fromString mem dst (labelToString l) = .error e ∧ e ≠ .outside) ∧
    ∀ s, fromString mem dst s = .error .outside ↔ GetsToLongToken mem dst s := by
  refine ⟨fun l _ ↦ ?_, fun _ ↦ fromString_outside⟩
  have hshort : fromString mem dst (labelToString l) ≠ .error .outside := by
    rw [Ne, fromString_outside]
    rintro ⟨d, pre, t, post, -, -, htok, -, hlong⟩
    rw [tokensOf_labelToString] at htok
    have hmem : t ∈ l.printed.map entryText ++ [[levelToChar l.ulDefault]] := by simp [htok]
    have hlen : t.length ≤ 21 := by
      rcases List.mem_append.mp hmem with hmem | hmem
      · obtain ⟨e, -, rfl⟩ := List.mem_map.mp hmem
        exact entryText_length e
      · rw [List.mem_singleton.mp hmem, List.length_singleton]
        decide
    rw [Nat.mod_eq_of_lt (by omega)] at hlong
    exact absurd hlong (by simp only [bufsize]; omega)
  cases hres : fromString mem dst (labelToString l) with
  | error e => exact ⟨e, rfl, fun he ↦ hshort (he ▸ hres)⟩
  | ok l' =>
    -- the token of the default level has no colon
    exfalso
    unfold fromString at hres
    split at hres
    · cases hres
    · rw [fromTokens_eq, tokensOf_labelToString] at hres
      have hcolon := setTokens_colon hres [levelToChar l.ulDefault] (by simp)
      rw [List.mem_singleton] at hcolon
      exact levelToChar_ne (by decide) (by decide) hcolon.symm

/-- The empty label does not come back, and a token of 32 digits is too long. -/
theorem label_text_refused :
    fromString (fun _ ↦ true) (.new 0) (labelToString ⟨0, 1, []⟩) = .error .inval ∧
      fromString (fun _ ↦ true) (.new 0) (List.replicate 32 '7' ++ [' ', '1']) = .error .outside := by
  decide

end HiStar.Userlabel
