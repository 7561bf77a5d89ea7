import HiStar.Iflow.LargeLabel
import HiStar.Lib.Exec

namespace HiStar.Iflow

open Lib Function

def ULabel.handles (ul : ULabel) : Finset Nat := (ul.ulEnt.map lbHandle).toFinset

def lastEntry (ents : List Nat) (h : Nat) : Option Nat := ents.reverse.find? fun e ↦ lbHandle e = h

/-- The function that a user label denotes: a later entry for a handle
overrides an earlier one. -/
def ULabel.level (ul : ULabel) (h : Nat) : Nat :=
  match lastEntry ul.ulEnt h with
  | some e => lbLevel e
  | none => ul.ulDefault

theorem lastEntry_cons (v : Nat) (rest : List Nat) (h : Nat) :
    lastEntry (v :: rest) h = (lastEntry rest h).or (if lbHandle v = h then some v else none) := by
  by_cases hv : lbHandle v = h <;>
    simp [lastEntry, List.find?_append, hv]

theorem lastEntry_handle {ents : List Nat} {h e : Nat} (he : lastEntry ents h = some e) :
    e ∈ ents ∧ lbHandle e = h :=
  ⟨List.mem_reverse.mp (List.mem_of_find?_eq_some he), by simpa using List.find?_some he⟩

theorem lastEntry_eq_none {ents : List Nat} {h : Nat} :
    lastEntry ents h = none ↔ ∀ e ∈ ents, lbHandle e ≠ h := by
  simp [lastEntry]

theorem entry_eq_zero {e : Nat} : e = 0 ↔ lbHandle e = 0 ∧ lbLevel e = 0 := by
  rw [lbHandle_eq, lbLevel_eq]
  omega

/-- The answers of `check_user_access` for the structure and for the array of
entries, and of `kobject_alloc`. -/
structure UserEnv where
  ulAccess : Except Errno Unit
  entAccess : Nat → Except Errno Unit
  kobjectAlloc : Except Errno Unit

/-- `ulabel_to_label`. The product of a 32-bit count and the size of an entry
does not overflow, so that the test of `mul_of` never fires. -/
def ulabelToLabel32 (user : UserEnv) (env : MemEnv) (ul : ULabel) : Except Errno Label := do
  user.ulAccess
  if ul.ulDefault > lbLevelStar then .error .inval
  else
    user.kobjectAlloc
    user.entAccess ul.ulEnt.length
    ulabelSetAll32 env ul.ulEnt (labelAlloc ul.ulDefault)

section ToKernel

variable {user : UserEnv} {env : MemEnv} {ul : ULabel} {ents : List Nat} {l l' : Label}
  {S : Finset Nat}

theorem ulabelSetAll32_eq (hl : Spans S l) (hS : S.card ≤ 2 ^ 31)
    (hents : ∀ e ∈ ents, lbHandle e ∈ S) : ulabelSetAll32 env ents l = ulabelSetAll env ents l := by
  induction ents generalizing l with
  | nil => rfl
  | cons v rest ih =>
    obtain ⟨hv, hrest⟩ := List.forall_mem_cons.mp hents
    simp only [ulabelSetAll32, ulabelSetAll, hl.labelSet32_eq hS hv]
    by_cases hlv : lbLevel v > lbLevelStar
    · simp only [hlv, ↓reduceIte]
    · simp only [hlv, ↓reduceIte]
      cases hs : labelSet env l (lbHandle v) (lbLevel v) with
      | error e => rfl
      | ok l₁ => exact ih (hl.labelSet hv (lbHandle_lt v) (by omega) hs) hrest

theorem ulabelSetAll_spans (hl : Spans S l) (hents : ∀ e ∈ ents, lbHandle e ∈ S)
    (hok : ulabelSetAll env ents l = .ok l') : Spans S l' := by
  induction ents generalizing l with
  | nil =>
    cases hok
    exact hl
  | cons v rest ih =>
    obtain ⟨hv, hrest⟩ := List.forall_mem_cons.mp hents
    simp only [ulabelSetAll] at hok
    split at hok
    next => cases hok
    next hlv =>
      split at hok
      next l₁ hs => exact ih (hl.labelSet hv (lbHandle_lt v) (by omega) hs) hrest hok
      next => cases hok

theorem ulabelSetAll_level (hl : WellFormed l) (hok : ulabelSetAll env ents l = .ok l') (h : Nat) :
    l'.lbDefLevel = l.lbDefLevel ∧ labelGetLevel l' h =
      match lastEntry ents h with
      | some e => if e = 0 then l.lbDefLevel else lbLevel e
      | none => labelGetLevel l h := by
  induction ents generalizing l with
  | nil =>
    cases hok
    exact ⟨rfl, rfl⟩
  | cons v rest ih =>
    simp only [ulabelSetAll] at hok
    split at hok
    next => cases hok
    next hlv =>
      split at hok
      next l₁ hs =>
        obtain ⟨hwf, hdef, hlev⟩ := labelSet_spec hl (lbHandle_lt v) (by omega) hs
        obtain ⟨hd, hrest⟩ := ih hwf hok
        refine ⟨hd.trans hdef, ?_⟩
        rw [hrest, lastEntry_cons, hdef, hlev]
        cases lastEntry rest h with
        | some e => rfl
        | none =>
          simp only [Option.none_or, ← entry_eq_zero]
          by_cases hh : h = lbHandle v
          · simp only [hh, ↓reduceIte]
          · simp only [hh, Ne.symm hh, ↓reduceIte]
      next => cases hok

theorem ulabelToLabel32_ok (hok : ulabelToLabel32 user env ul = .ok l) :
    ul.ulDefault ≤ lbLevelStar ∧
      ulabelSetAll32 env ul.ulEnt (labelAlloc ul.ulDefault) = .ok l := by
  obtain ⟨_, -, hok⟩ := except_bind_ok hok
  split at hok
  next => cases hok
  next hd =>
    obtain ⟨_, -, hok⟩ := except_bind_ok hok
    obtain ⟨_, -, hok⟩ := except_bind_ok hok
    exact ⟨by omega, hok⟩

theorem ulabelToLabel32_level (hfit : ul.handles.card ≤ 2 ^ 31)
    (hok : ulabelToLabel32 user env ul = .ok l) :
    Spans ul.handles l ∧ l.lbDefLevel = ul.ulDefault ∧ ∀ h, labelGetLevel l h =
      if lastEntry ul.ulEnt h = some 0 then ul.ulDefault else ul.level h := by
  obtain ⟨hd, hset⟩ := ulabelToLabel32_ok hok
  have hents : ∀ e ∈ ul.ulEnt, lbHandle e ∈ ul.handles := fun e he ↦
    List.mem_toFinset.mpr (List.mem_map_of_mem he)
  rw [ulabelSetAll32_eq (spans_alloc hd) hfit hents] at hset
  have hlev := ulabelSetAll_level (labelAlloc_wf hd) hset
  refine ⟨ulabelSetAll_spans (spans_alloc hd) hents hset, (hlev 0).1, fun h ↦ ?_⟩
  rw [(hlev h).2, ULabel.level]
  cases lastEntry ul.ulEnt h with
  | none => rfl
  | some e => by_cases he : e = 0 <;> simp [he, labelAlloc]

end ToKernel

structure UserLabel where
  ulSize : Nat
  ulNent : Nat
  ulDefault : Nat
  ulNeeded : Nat
  ulEnt : Nat → Nat

def UserLabel.toULabel (ul : UserLabel) : ULabel := ⟨ul.ulDefault, (List.range ul.ulNent).map ul.ulEnt⟩

structure CopyOut where
  slot : Nat
  overflow : Nat
  ulEnt : Nat → Nat

def CopyOut.put (ulSize : Nat) (c : CopyOut) (ent : Nat) : CopyOut :=
  if ent = 0 then c
  else if c.slot < ulSize then
    { c with slot := c.slot + 1, ulEnt := update c.ulEnt c.slot ent }
  else { c with overflow := (c.overflow + 1) % 2 ^ 32 }

def copyOut (l : Label) (ulSize : Nat) : Nat → Nat → CopyOut → Except Errno Unit × CopyOut
  | _, 0, c => (.ok (), c)
  | i, n + 1, c =>
    match labelGetSlotpRead l i with
    | .error e => (.error e, c)
    | .ok ent => copyOut l ulSize (i + 1) n (c.put ulSize ent)

def labelToUlabel (user : UserEnv) (l : Label) (ul : UserLabel) : Except Errno Unit × UserLabel :=
  match user.ulAccess with
  | .error e => (.error e, ul)
  | .ok () =>
    let ul := { ul with ulDefault := l.lbDefLevel, ulNent := 0 }
    match user.entAccess ul.ulSize with
    | .error e => (.error e, ul)
    | .ok () =>
      match copyOut l ul.ulSize 0 l.lbNent ⟨0, 0, ul.ulEnt⟩ with
      | (.error e, c) => (.error e, { ul with ulEnt := c.ulEnt })
      | (.ok (), c) =>
        (if c.overflow ≠ 0 then .error .noSpace else .ok (),
          { ul with ulNent := c.slot, ulNeeded := c.overflow, ulEnt := c.ulEnt })

def Label.entries (l : Label) : List Nat := ((List.range l.lbNent).map l.slot).filter (· ≠ 0)

section ToUser

variable {user : UserEnv} {l : Label} {c : CopyOut} {used : List Nat} {ulSize : Nat}

/-- The buffer holds the entries met so far, up to its size; the others are
counted. -/
structure CopyOut.Holds (ulSize : Nat) (used : List Nat) (c : CopyOut) : Prop where
  slot : c.slot = min used.length ulSize
  overflow : c.overflow = (used.length - ulSize) % 2 ^ 32
  ulEnt : (List.range c.slot).map c.ulEnt = used.take ulSize

theorem map_range_update (f : Nat → Nat) (n v : Nat) :
    (List.range (n + 1)).map (update f n v) = (List.range n).map f ++ [v] := by
  rw [List.range_succ, List.map_append, List.map_singleton, update_self]
  congr 1
  refine List.map_congr_left fun i hi ↦ update_of_ne ?_ _ _
  have := List.mem_range.mp hi
  omega

theorem CopyOut.Holds.put (h : c.Holds ulSize used) (ent : Nat) :
    (c.put ulSize ent).Holds ulSize (used ++ [ent].filter (· ≠ 0)) := by
  by_cases h0 : ent = 0
  · simpa [CopyOut.put, h0] using h
  have hslot := h.slot
  have hover := h.overflow
  have happ : [ent].filter (· ≠ 0) = [ent] := by simp [h0]
  have hlen : (used ++ [ent]).length = used.length + 1 := by simp
  rw [happ]
  by_cases hlt : c.slot < ulSize
  · simp only [CopyOut.put, h0, hlt, ↓reduceIte]
    refine ⟨by dsimp only; omega, by dsimp only; omega, ?_⟩
    rw [map_range_update, h.ulEnt, List.take_of_length_le (by omega),
      List.take_of_length_le (by omega)]
  · simp only [CopyOut.put, h0, hlt, ↓reduceIte]
    refine ⟨by dsimp only; omega, by dsimp only; omega, ?_⟩
    rw [h.ulEnt, List.take_append_of_le_length (by omega)]

theorem copyOut_holds {i n : Nat} (hn : i + n ≤ labelNslots l) (hc : c.Holds ulSize used) :
    ∃ c', copyOut l ulSize i n c = (.ok (), c') ∧
      c'.Holds ulSize (used ++ ((List.range' i n).map l.slot).filter (· ≠ 0)) := by
  induction n generalizing i c used with
  | zero => exact ⟨c, rfl, by simpa using hc⟩
  | succ n ih =>
    have hread : labelGetSlotpRead l i = .ok (l.slot i) := by
      simp only [labelGetSlotpRead, show i < labelNslots l by omega, ↓reduceIte]
    obtain ⟨c', hc', hh⟩ := ih (i := i + 1) (by omega) (hc.put (l.slot i))
    refine ⟨c', by simp only [copyOut, hread, hc'], ?_⟩
    rwa [List.append_assoc, ← List.filter_append, List.singleton_append, ← List.map_cons] at hh

theorem labelToUlabel_spec (hl : WellFormed l) (hul : user.ulAccess = .ok ())
    (hent : ∀ n, user.entAccess n = .ok ()) (ul : UserLabel) :
    ∃ out, labelToUlabel user l ul = (if out.ulNeeded ≠ 0 then .error .noSpace else .ok (), out) ∧
      out.ulNeeded = (l.entries.length - ul.ulSize) % 2 ^ 32 ∧
      out.toULabel = ⟨l.lbDefLevel, l.entries.take ul.ulSize⟩ := by
  have hstart : CopyOut.Holds ul.ulSize [] ⟨0, 0, ul.ulEnt⟩ :=
    ⟨(Nat.zero_min _).symm, by rw [List.length_nil, Nat.zero_sub, Nat.zero_mod], by simp⟩
  have hfits : 0 + l.lbNent ≤ labelNslots l := (Nat.zero_add _).le.trans hl.fits
  obtain ⟨c, hc, hh⟩ := copyOut_holds hfits hstart
  rw [List.nil_append, ← List.range_eq_range'] at hh
  refine ⟨⟨ul.ulSize, c.slot, l.lbDefLevel, c.overflow, c.ulEnt⟩, ?_, hh.overflow, ?_⟩
  · simp only [labelToUlabel, hul, hent, hc]
  · simp only [UserLabel.toULabel, hh.ulEnt, Label.entries]

theorem entries_level (hl : WellFormed l) (h : Nat) :
    (ULabel.mk l.lbDefLevel l.entries).level h = labelGetLevel l h := by
  have hmem : ∀ {e}, e ∈ l.entries ↔ (∃ i, i < l.lbNent ∧ l.slot i = e) ∧ e ≠ 0 := by
    intro e
    simp [Label.entries]
  unfold ULabel.level
  cases he : lastEntry l.entries h with
  | some e =>
    obtain ⟨hin, hh⟩ := lastEntry_handle he
    obtain ⟨⟨i, hi, rfl⟩, hne⟩ := hmem.mp hin
    exact (level_of_slot hl hi (slotHas_iff.mpr ⟨hne, hh⟩)).symm
  | none =>
    refine (level_of_no_slot fun i hi ↦ ?_).symm
    by_contra hs
    obtain ⟨hne, hh⟩ := slotHas_iff.mp (Bool.not_eq_false _ ▸ hs)
    exact lastEntry_eq_none.mp he _ (hmem.mpr ⟨⟨i, hi, rfl⟩, hne⟩) hh

end ToUser

/-- A label crosses the boundary in both directions with its levels, for every
accepted user label, exactly when the last entry for handle 0 is not the word
0 or the default is 0 as well. -/
theorem ulabel_round_trip {user : UserEnv} {env : MemEnv} {ul : ULabel} {l : Label}
    (hfit : ul.handles.card ≤ 2 ^ 31) (hok : ulabelToLabel32 user env ul = .ok l) :
    ((∀ h, h < 2 ^ 61 → labelGetLevel l h = ul.level h) ∧
      ∀ (reader : UserEnv) (buf : UserLabel), reader.ulAccess = .ok () →
        (∀ n, reader.entAccess n = .ok ()) → l.entries.length ≤ buf.ulSize →
        ∃ out, labelToUlabel reader l buf = (.ok (), out) ∧
          ∀ h, h < 2 ^ 61 → out.toULabel.level h = ul.level h) ↔
      (lastEntry ul.ulEnt 0 = some 0 → ul.ulDefault = 0) := by
  obtain ⟨hspan, -, hlev⟩ := ulabelToLabel32_level hfit hok
  have hwf := hspan.wf
  constructor
  · rintro ⟨hall, -⟩ hz
    have h0 := hall 0 (by decide)
    rw [hlev, if_pos hz] at h0
    simpa [ULabel.level, hz, lbLevel] using h0
  · intro hcond
    have hall : ∀ h, labelGetLevel l h = ul.level h := by
      intro h
      rw [hlev]
      split_ifs with hz
      · obtain ⟨-, rfl⟩ := lastEntry_handle hz
        have hd : ul.ulDefault = 0 := hcond hz
        simp only [ULabel.level, hz, hd]
        rfl
      · rfl
    refine ⟨fun h _ ↦ hall h, fun reader buf hul hent hsize ↦ ?_⟩
    obtain ⟨out, hout, hneed, hlab⟩ := labelToUlabel_spec hwf hul hent buf
    rw [Nat.sub_eq_zero_of_le hsize, Nat.zero_mod] at hneed
    rw [List.take_of_length_le hsize] at hlab
    refine ⟨out, by simpa [hneed] using hout, fun h _ ↦ ?_⟩
    rw [hlab, entries_level hwf, hall]

def openUser : UserEnv := ⟨.ok (), fun _ ↦ .ok (), .ok ()⟩

theorem ulabel_round_trip_repeated :
    ∃ l, ulabelToLabel32 openUser plentyEnv ⟨1, [lbCode 5 3, lbCode 5 2]⟩ = .ok l ∧
      (((∀ h, h < 2 ^ 61 → labelGetLevel l h = (ULabel.mk 1 [lbCode 5 3, lbCode 5 2]).level h) ∧
        ∀ (reader : UserEnv) (buf : UserLabel), reader.ulAccess = .ok () →
          (∀ n, reader.entAccess n = .ok ()) → l.entries.length ≤ buf.ulSize →
          ∃ out, labelToUlabel reader l buf = (.ok (), out) ∧ ∀ h, h < 2 ^ 61 →
            out.toULabel.level h = (ULabel.mk 1 [lbCode 5 3, lbCode 5 2]).level h) ↔
        (lastEntry [lbCode 5 3, lbCode 5 2] 0 = some 0 → 1 = 0)) := by
  obtain ⟨l, hl⟩ : ∃ l, ulabelToLabel32 openUser plentyEnv ⟨1, [lbCode 5 3, lbCode 5 2]⟩ = .ok l :=
    ⟨_, rfl⟩
  exact ⟨l, hl, ulabel_round_trip (by decide) hl⟩

/-- Level 0 at handle 0 is lost: the kernel label has the default there. -/
theorem zero_entry_lost :
    ∃ l, ulabelToLabel32 openUser plentyEnv ⟨1, [lbCode 0 0]⟩ = .ok l ∧
      labelGetLevel l 0 = 1 ∧ (ULabel.mk 1 [lbCode 0 0]).level 0 = 0 :=
  ⟨_, rfl, rfl, rfl⟩

end HiStar.Iflow
