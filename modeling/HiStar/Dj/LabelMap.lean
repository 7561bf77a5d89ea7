import HiStar.Dj.Catmap
import HiStar.Userlabel.Agree

namespace HiStar.Dj

open Lib Userlabel
open Iflow (lbHandle lbLevel lbCode lbLevelStar)

inductive LabelType
  | taint
  | clear
  | owner
  deriving DecidableEq

inductive TranslateError
  | missingMapping
  | duplicateEntry
  | badLevel (t : LabelType)
  | thrown (t : Thrown)
  deriving DecidableEq

namespace LabelType

def reset : LabelType → Nat
  | taint => 1
  | clear => 0
  | owner => 3

def level : LabelType → DjGcat → Nat
  | taint, gcat => if gcat.integrity then 0 else 3
  | clear, _ => 3
  | owner, _ => lbLevelStar

theorem level_ne_reset (t : LabelType) (gcat : DjGcat) : t.level gcat ≠ t.reset := by
  cases t with
  | taint => cases hi : gcat.integrity <;> simp [level, reset, hi]
  | clear => exact (by decide : 3 ≠ 0)
  | owner => exact (by decide : lbLevelStar ≠ 3)

theorem level_lt (t : LabelType) (gcat : DjGcat) : t.level gcat < 8 := by
  cases t with
  | taint => cases hi : gcat.integrity <;> simp [level, hi]
  | clear => exact (by decide : 3 < 8)
  | owner => exact (by decide : lbLevelStar < 8)

theorem reset_lt (t : LabelType) : t.reset < 8 := by cases t <;> decide

end LabelType

section Translate

variable (ih : Ihash DjCatMapping) (m : DjCatmapIndexed) (t : LabelType) (skipMissing : Bool)

/-- What `djlabel_to_label` writes: the label and the mappings that were used, where the
caller wants them. -/
structure Received where
  l : Option Label
  out : Option DjCatmapIndexed

def takeGcat (mem : Heap) (s : Received) (gcat : DjGcat) : Except TranslateError Received :=
  match m.g2l ih gcat with
  | none => if skipMissing then .ok s else .error .missingMapping
  | some e =>
    let out := s.out.map fun out ↦ out.insert ih e
    match s.l with
    | none => .ok ⟨none, out⟩
    | some l =>
      if l.get e.lcat ≠ l.ulDefault then .error .duplicateEntry
      else
        match l.set mem e.lcat (t.level gcat) with
        | .ok l => .ok ⟨some l, out⟩
        | .error x => .error (.thrown x)

def takeGcats (mem : Heap) : List DjGcat → Received → Except TranslateError Received
  | [], s => .ok s
  | gcat :: dl, s => do
    let s ← takeGcat ih m t skipMissing mem s gcat
    takeGcats mem dl s

def djlabelToLabel (mem : Heap) (dl : List DjGcat) (l : Option Label)
    (out : Option DjCatmapIndexed) : Except TranslateError Received :=
  takeGcats ih m t skipMissing mem dl ⟨l.map fun l ↦ l.reset t.reset, out⟩

structure Sent where
  dl : List DjGcat
  out : Option DjCatmapIndexed

def giveEnt (l : Label) (s : Sent) (ent : Nat) : Except TranslateError Sent :=
  if lbLevel ent = l.ulDefault then .ok s
  else
    match m.l2g ih (lbHandle ent) with
    | none => if skipMissing then .ok s else .error .missingMapping
    | some e =>
      if lbLevel ent ≠ t.level e.gcat then .error (.badLevel t)
      else .ok ⟨s.dl ++ [e.gcat], s.out.map fun out ↦ out.insert ih e⟩

def giveEnts (l : Label) : List Nat → Sent → Except TranslateError Sent
  | [], s => .ok s
  | ent :: ents, s => do
    let s ← giveEnt ih m t skipMissing l s ent
    giveEnts l ents s

def labelToDjlabel (l : Label) (out : Option DjCatmapIndexed) : Except TranslateError Sent :=
  giveEnts ih m t skipMissing l l.ulEnt ⟨[], out⟩

end Translate

section Loops

variable {ih : Ihash DjCatMapping} {m : DjCatmapIndexed} {t : LabelType} {mem : Heap}

def SentAs (ih : Ihash DjCatMapping) (m : DjCatmapIndexed) (t : LabelType) (ent : Nat)
    (gcat : DjGcat) : Prop :=
  ∃ e, m.l2g ih (lbHandle ent) = some e ∧ e.gcat = gcat ∧ lbLevel ent = t.level gcat

def ReceivedAs (ih : Ihash DjCatMapping) (m : DjCatmapIndexed) (gcat : DjGcat) (lcat : Nat) : Prop :=
  ∃ e, m.g2l ih gcat = some e ∧ e.lcat = lcat

def special (l : Label) : List Nat := l.ulEnt.filter fun e ↦ lbLevel e ≠ l.ulDefault

variable {l : Label} {out : Option DjCatmapIndexed}

theorem giveEnts_sent {ents : List Nat} {s s' : Sent}
    (hok : giveEnts ih m t false l ents s = .ok s') : ∃ dl, s'.dl = s.dl ++ dl ∧
      List.Forall₂ (SentAs ih m t) (ents.filter fun e ↦ lbLevel e ≠ l.ulDefault) dl := by
  induction ents generalizing s with
  | nil =>
    cases hok
    exact ⟨[], by simp, .nil⟩
  | cons ent ents ih' =>
    obtain ⟨s₁, hgive, hrest⟩ := except_bind_ok hok
    obtain ⟨dl, hdl, hsent⟩ := ih' hrest
    unfold giveEnt at hgive
    split at hgive
    · rename_i hdef
      cases hgive
      exact ⟨dl, hdl, by simpa [hdef] using hsent⟩
    · rename_i hdef
      split at hgive
      · cases hgive
      · rename_i e he
        split at hgive
        · cases hgive
        · rename_i hlevel
          cases hgive
          refine ⟨e.gcat :: dl, by simpa using hdl, ?_⟩
          rw [List.filter_cons_of_pos (by simpa using hdef)]
          exact .cons ⟨e, he, rfl, not_not.mp hlevel⟩ hsent

structure Took (t : LabelType) (l : Label) (dl : List DjGcat) (cs : List Nat) (l' : Label) : Prop where
  sound : Sound l'
  default : l'.ulDefault = l.ulDefault
  unset : ∀ c ∈ cs, l.get c = l.ulDefault
  nodup : cs.Nodup
  get : List.Forall₂ (fun gcat c ↦ l'.get c = t.level gcat) dl cs
  rest : ∀ h ∉ cs, l'.get h = l.get h

theorem takeGcat_ok {s : Received} {gcat : DjGcat} (hl : Sound l) (hm : ∀ e ∈ m, e.lcat < 2 ^ 61)
    (hok : takeGcat ih m t false mem ⟨some l, out⟩ gcat = .ok s) :
    ∃ l' c, s.l = some l' ∧ ReceivedAs ih m gcat c ∧ l.get c = l.ulDefault ∧ Sound l' ∧
      l'.ulDefault = l.ulDefault ∧ ∀ h, l'.get h = if h = c then t.level gcat else l.get h := by
  unfold takeGcat at hok
  split at hok
  · cases hok
  · rename_i e he
    dsimp only at hok
    split at hok
    · cases hok
    · rename_i hdef
      split at hok
      · rename_i l' hset
        cases hok
        have hlt := hm e (DjCatmapIndexed.g2l_mem he).1
        obtain ⟨hwf, hd, hget⟩ := Label.set_spec hl.wf hlt (t.level_lt gcat) hset
        exact ⟨l', e.lcat, rfl, ⟨e, he, rfl⟩, not_not.mp hdef, ⟨hwf, hd ▸ hl.default, hl.fits.set hset⟩,
          hd, hget⟩
      · cases hok

theorem takeGcats_ok {s : Received} {dl : List DjGcat} (hl : Sound l) (hdef : l.ulDefault = t.reset)
    (hm : ∀ e ∈ m, e.lcat < 2 ^ 61) (hok : takeGcats ih m t false mem dl ⟨some l, out⟩ = .ok s) :
    ∃ l' cs, s.l = some l' ∧ List.Forall₂ (ReceivedAs ih m) dl cs ∧ Took t l dl cs l' := by
  induction dl generalizing l out with
  | nil =>
    cases hok
    exact ⟨l, [], rfl, .nil, hl, rfl, by simp, List.nodup_nil, .nil, fun _ _ ↦ rfl⟩
  | cons gcat dl ih' =>
    obtain ⟨⟨_, out₁⟩, htake, hrest⟩ := except_bind_ok hok
    obtain ⟨l₁, c, rfl, hrec, hunset, hl₁, hd₁, hget⟩ := takeGcat_ok hl hm htake
    obtain ⟨l', cs, hs, hrecs, htook⟩ := ih' hl₁ (hd₁.trans hdef) hrest
    -- a category that was received before is no longer at the default level
    have hc : c ∉ cs := fun hmem ↦ by
      have := htook.unset c hmem
      rw [hget, if_pos rfl, hd₁, hdef] at this
      exact t.level_ne_reset gcat this
    refine ⟨l', c :: cs, hs, .cons hrec hrecs, htook.sound, htook.default.trans hd₁, ?_,
      List.nodup_cons.mpr ⟨hc, htook.nodup⟩, .cons ?_ htook.get, fun h hh ↦ ?_⟩
    · refine List.forall_mem_cons.mpr ⟨hunset, fun d hd ↦ ?_⟩
      have hne : d ≠ c := fun heq ↦ hc (heq ▸ hd)
      have := htook.unset d hd
      rwa [hget, if_neg hne, hd₁] at this
    · rw [htook.rest c hc, hget, if_pos rfl]
    · rw [List.mem_cons, not_or] at hh
      rw [htook.rest h hh.2, hget, if_neg hh.1]

theorem takeGcats_succeeds {n : Nat} {dl : List DjGcat} {cs : List Nat} (hl : Sound l)
    (hroom : RoomFor mem l n) (hn : l.ulEnt.length + dl.length ≤ n) (hm : ∀ e ∈ m, e.lcat < 2 ^ 61)
    (hrec : List.Forall₂ (ReceivedAs ih m) dl cs) (hnodup : cs.Nodup)
    (hunset : ∀ c ∈ cs, l.get c = l.ulDefault) :
    ∃ s, takeGcats ih m t false mem dl ⟨some l, out⟩ = .ok s := by
  induction hrec generalizing l out with
  | nil => exact ⟨_, rfl⟩
  | @cons gcat c dl cs hrec hrecs ih' =>
    obtain ⟨e, he, rfl⟩ := hrec
    rw [List.length_cons] at hn
    obtain ⟨l₁, hset, hroom₁, hlen⟩ := hroom.set (by omega) e.lcat (t.level gcat)
    have hlt := hm e (DjCatmapIndexed.g2l_mem he).1
    obtain ⟨hwf, hd, hget⟩ := Label.set_spec hl.wf hlt (t.level_lt gcat) hset
    obtain ⟨hc, hnodup⟩ := List.nodup_cons.mp hnodup
    have hdef := hunset e.lcat List.mem_cons_self
    have hsound : Sound l₁ := ⟨hwf, hd ▸ hl.default, hl.fits.set hset⟩
    have hunset₁ : ∀ c ∈ cs, l₁.get c = l₁.ulDefault := fun c hcs ↦ by
      have hne : c ≠ e.lcat := fun heq ↦ hc (heq ▸ hcs)
      rw [hget, if_neg hne, hd]
      exact hunset c (List.mem_cons_of_mem _ hcs)
    obtain ⟨s, hs⟩ : ∃ s, takeGcats ih m t false mem dl
        ⟨some l₁, out.map fun out ↦ out.insert ih e⟩ = .ok s :=
      ih' hsound hroom₁ (by omega) hnodup hunset₁
    refine ⟨s, ?_⟩
    have htake : takeGcat ih m t false mem ⟨some l, out⟩ gcat =
        .ok ⟨some l₁, out.map fun out ↦ out.insert ih e⟩ := by
      simp only [takeGcat, he, hdef, hset, ne_eq, not_true_eq_false, ↓reduceIte]
    rw [takeGcats, htake]
    exact hs

end Loops

end HiStar.Dj
