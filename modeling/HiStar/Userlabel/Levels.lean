import HiStar.Lib.Exec
import HiStar.Userlabel.Label

namespace HiStar.Userlabel

open Iflow Lib

/-- What the operations of the class keep: one slot for a handle, and entries of
64 bits. -/
structure Wf (l : Ulabel) : Prop where
  distinct : l.handles.Nodup
  word : ∀ e ∈ l.ulEnt, lbLevel e < 8

namespace Ulabel

variable {l : Ulabel} {h : Nat}

theorem get_of_notMem (hh : h ∉ l.handles) : l.get h = l.ulDefault := by
  have hnone : (l.ulEnt.find? fun e ↦ lbHandle e = h) = none := by
    simpa [handles] using hh
  simp [get, hnone]

theorem get_of_find {e : Nat} (he : (l.ulEnt.find? fun e ↦ lbHandle e = h) = some e) :
    l.get h = lbLevel e := by
  simp [get, he]

theorem get_lt (hl : Wf l) (hd : l.ulDefault < 8) : l.get h < 8 := by
  unfold get
  split
  · rename_i e he
    exact hl.word e (List.mem_of_find?_eq_some he)
  · exact hd

theorem handles_lt (hh : h ∈ l.handles) : h < 2 ^ 61 := by
  obtain ⟨e, -, rfl⟩ := List.mem_map.mp hh
  exact lbHandle_lt e

end Ulabel

section Entries

variable {xs ys : List Nat} {e c h : Nat}

theorem find?_eq_none_of_notMem {es : List Nat} (hh : h ∉ es.map lbHandle) :
    (es.find? fun e ↦ lbHandle e = h) = none := by
  simpa using hh

theorem find?_of_mem {es : List Nat} (hdist : (es.map lbHandle).Nodup) (he : e ∈ es) :
    (es.find? fun c ↦ lbHandle c = lbHandle e) = some e := by
  cases hfind : es.find? fun c ↦ lbHandle c = lbHandle e with
  | none => simpa using List.find?_eq_none.mp hfind e he
  | some c =>
    have hc := List.find?_some hfind
    have hmem := List.mem_of_find?_eq_some hfind
    rw [List.inj_on_of_nodup_map hdist hmem he (by simpa using hc)]

theorem find?_replace (hdist : ((xs ++ e :: ys).map lbHandle).Nodup)
    (hc : lbHandle c ∉ (xs ++ ys).map lbHandle) (h : Nat) :
    ((xs ++ c :: ys).find? fun e ↦ lbHandle e = h) =
      if h = lbHandle c then some c
      else if h = lbHandle e then none
      else (xs ++ e :: ys).find? fun e ↦ lbHandle e = h := by
  simp only [List.map_append, List.mem_append, not_or] at hc
  split
  · subst h
    simp [List.find?_append, find?_eq_none_of_notMem hc.1]
  · rename_i hne
    have hskip : ((c :: ys).find? fun e ↦ lbHandle e = h) = ys.find? fun e ↦ lbHandle e = h := by
      simp [Ne.symm hne]
    rw [List.find?_append, hskip]
    split
    · subst h
      rw [List.map_append, List.map_cons, List.nodup_append, List.nodup_cons] at hdist
      have hx : lbHandle e ∉ xs.map lbHandle := fun hx ↦ hdist.2.2 _ hx _ List.mem_cons_self rfl
      rw [find?_eq_none_of_notMem hx, find?_eq_none_of_notMem hdist.2.1.1]
      rfl
    · rename_i hne'
      simp [List.find?_append, Ne.symm hne']

theorem nodup_replace (hdist : ((xs ++ e :: ys).map lbHandle).Nodup)
    (hc : lbHandle c ∉ (xs ++ ys).map lbHandle) : ((xs ++ c :: ys).map lbHandle).Nodup := by
  simp only [List.map_append, List.map_cons, List.mem_append, not_or] at hdist hc ⊢
  have h := (List.perm_middle.nodup_iff.mp hdist)
  rw [List.nodup_cons] at h
  exact List.perm_middle.nodup_iff.mpr (List.nodup_cons.mpr ⟨by simpa using hc, h.2⟩)

end Entries

namespace Label

variable {mem : Heap} {l l' : Label} {h lv : Nat}

theorem grow_ok {n : Nat} (h : l.grow mem n = .ok l') :
    l'.ulEnt = l.ulEnt ∧ l'.ulDefault = l.ulDefault ∧ l'.dynamic = l.dynamic := by
  unfold grow at h
  split at h
  · cases h
  · dsimp only at h
    split at h
    · cases h
    · cases h
      exact ⟨rfl, rfl, rfl⟩

theorem makeRoom_ok (h : l.makeRoom mem = .ok l') :
    l'.ulEnt = l.ulEnt ∧ l'.ulDefault = l.ulDefault ∧ l'.dynamic = l.dynamic := by
  unfold makeRoom at h
  split at h
  · exact grow_ok h
  · cases h
    exact ⟨rfl, rfl, rfl⟩

/-- What `label::set` does with a slot: it replaces the entry of the handle, or one
that says no more than the default, or it adds an entry. -/
theorem set_cases (hset : l.set mem h lv = .ok l') :
    l'.ulDefault = l.ulDefault ∧ l'.dynamic = l.dynamic ∧
      ((∃ xs e ys, l.ulEnt = xs ++ e :: ys ∧ l'.ulEnt = xs ++ lbCode h lv :: ys ∧
        (lbHandle e = h ∨ h ∉ l.handles ∧ lbLevel e = l.ulDefault)) ∨
      (h ∉ l.handles ∧ l'.ulEnt = l.ulEnt ++ [lbCode h lv])) := by
  have hsplit : ∀ {i : Nat} {p : Nat → Bool}, l.ulEnt.findIdx? p = some i →
      ∃ xs e ys, l.ulEnt = xs ++ e :: ys ∧ l.ulEnt.set i (lbCode h lv) = xs ++ lbCode h lv :: ys ∧
        p e = true := by
    intro i p hi
    obtain ⟨hlt, hp, -⟩ := List.findIdx?_eq_some_iff_getElem.mp hi
    refine ⟨l.ulEnt.take i, l.ulEnt[i], l.ulEnt.drop (i + 1), by simp, ?_, hp⟩
    rw [List.set_eq_take_append_cons_drop, if_pos hlt]
  unfold set slotAlloc at hset
  split at hset
  · rename_i i hi
    cases hset
    obtain ⟨xs, e, ys, hes, hset, hp⟩ := hsplit hi
    exact ⟨rfl, rfl, .inl ⟨xs, e, ys, hes, hset, .inl (by simpa using hp)⟩⟩
  · rename_i hnone
    have hnew : h ∉ l.handles := by
      simpa [Ulabel.handles, List.findIdx?_eq_none_iff] using hnone
    unfold slotGrow at hset
    split at hset
    · rename_i i hi
      cases hset
      obtain ⟨xs, e, ys, hes, hset, hp⟩ := hsplit hi
      exact ⟨rfl, rfl, .inl ⟨xs, e, ys, hes, hset, .inr ⟨hnew, by simpa using hp⟩⟩⟩
    · -- the array may have to grow before the entry is added
      obtain ⟨⟨l₂, i⟩, hgrow, hset⟩ := except_bind_ok hset
      obtain ⟨l₁, hroom, hadd⟩ := except_bind_ok hgrow
      have hsame := makeRoom_ok hroom
      cases hadd
      cases hset
      exact ⟨hsame.2.1, hsame.2.2, .inr ⟨hnew, by simp [hsame.1]⟩⟩

/-- The level set is found at its handle, and every other handle keeps its level: a
slot that is used again held the default. -/
theorem set_spec (hl : Wf l.toUlabel) (hh : h < 2 ^ 61) (hlv : lv < 8)
    (hset : l.set mem h lv = .ok l') :
    Wf l'.toUlabel ∧ l'.ulDefault = l.ulDefault ∧
      ∀ h', l'.get h' = if h' = h then lv else l.get h' := by
  have hhandle : lbHandle (lbCode h lv) = h := lbHandle_code hh lv
  have hlevel : lbLevel (lbCode h lv) = lv := lbLevel_code hh lv
  obtain ⟨hdef, -, ⟨xs, e, ys, hes, hes', he⟩ | ⟨hnew, hes'⟩⟩ := set_cases hset
  · have hdist : ((xs ++ e :: ys).map lbHandle).Nodup := hes ▸ hl.distinct
    have hc : lbHandle (lbCode h lv) ∉ (xs ++ ys).map lbHandle := by
      rw [hhandle]
      rcases he with rfl | ⟨hnew, -⟩
      · have hmid := List.perm_middle.nodup_iff.mp (by simpa using hdist)
        simpa using (List.nodup_cons.mp hmid).1
      · have hnew' : h ∉ (xs ++ e :: ys).map lbHandle := hes ▸ hnew
        simp only [List.map_append, List.map_cons, List.mem_append, List.mem_cons, not_or] at hnew' ⊢
        exact ⟨hnew'.1, hnew'.2.2⟩
    refine ⟨⟨?_, fun c hmem ↦ ?_⟩, hdef, fun h' ↦ ?_⟩
    · show (l'.ulEnt.map lbHandle).Nodup
      rw [hes']
      exact nodup_replace hdist hc
    · rw [hes'] at hmem
      simp only [List.mem_append, List.mem_cons] at hmem
      rcases hmem with hmem | rfl | hmem
      · exact hl.word c (by simp [hes, hmem])
      · rwa [hlevel]
      · exact hl.word c (by simp [hes, hmem])
    · have hfind := find?_replace hdist hc h'
      rw [hhandle, ← hes, ← hes'] at hfind
      by_cases hh' : h' = h
      · rw [if_pos hh'] at hfind ⊢
        exact (Ulabel.get_of_find hfind).trans hlevel
      · rw [if_neg hh'] at hfind ⊢
        by_cases hhe : h' = lbHandle e
        · -- the entry given up was at the default level
          rw [if_pos hhe] at hfind
          have hlost : lbLevel e = l.ulDefault := by
            rcases he with he | ⟨-, he⟩
            · exact absurd (hhe.trans he) hh'
            · exact he
          have hold := find?_of_mem hl.distinct (show e ∈ l.ulEnt by simp [hes])
          rw [← hhe] at hold
          rw [Label.get, Label.get, Ulabel.get_of_find hold, hlost, ← hdef]
          simp [Ulabel.get, hfind]
        · rw [if_neg hhe] at hfind
          simp [Label.get, Ulabel.get, hfind, hdef]
  · refine ⟨⟨?_, fun c hmem ↦ ?_⟩, hdef, fun h' ↦ ?_⟩
    · show (l'.ulEnt.map lbHandle).Nodup
      rw [hes', List.map_append, List.map_singleton, hhandle]
      exact List.concat_eq_append ▸ List.Nodup.concat hnew hl.distinct
    · rw [hes'] at hmem
      rcases List.mem_append.mp hmem with hmem | hmem
      · exact hl.word c hmem
      · rw [List.mem_singleton.mp hmem]
        rwa [hlevel]
    · by_cases hh' : h' = h
      · subst hh'
        have hfind : (l'.ulEnt.find? fun c ↦ lbHandle c = h') = some (lbCode h' lv) := by
          rw [hes', List.find?_append, find?_eq_none_of_notMem hnew]
          simp [hhandle]
        rw [if_pos rfl]
        exact (Ulabel.get_of_find hfind).trans hlevel
      · have hfind : (l'.ulEnt.find? fun c ↦ lbHandle c = h') =
            l.ulEnt.find? fun c ↦ lbHandle c = h' := by
          simp [hes', List.find?_append, hhandle, Ne.symm hh']
        simp [Label.get, Ulabel.get, hfind, hdef, hh']

variable {f t : Nat → Nat} {hs : List Nat}

theorem setAll_spec (hl : Wf l.toUlabel)
    (hhs : ∀ h ∈ hs, h < 2 ^ 61 ∧ f h < 8) (hok : l.setAll mem f hs = .ok l') :
    Wf l'.toUlabel ∧ l'.ulDefault = l.ulDefault ∧
      ∀ h, l'.get h = if h ∈ hs then f h else l.get h := by
  induction hs generalizing l with
  | nil =>
    cases hok
    exact ⟨hl, rfl, fun h ↦ by simp⟩
  | cons h hs ih =>
    obtain ⟨l₁, hset, hrest⟩ := except_bind_ok hok
    have hh := hhs h List.mem_cons_self
    obtain ⟨hl₁, hdef₁, hget₁⟩ := set_spec hl hh.1 hh.2 hset
    obtain ⟨hl', hdef', hget'⟩ := ih hl₁ (fun g hg ↦ hhs g (List.mem_cons_of_mem _ hg)) hrest
    refine ⟨hl', hdef'.trans hdef₁, fun g ↦ ?_⟩
    rw [hget', hget₁]
    by_cases hg : g = h <;> simp [hg]

theorem set_handles_subset (hh : h < 2 ^ 61) (hset : l.set mem h lv = .ok l') :
    l'.handles ⊆ h :: l.handles := by
  intro g hg
  obtain ⟨e', he', rfl⟩ := List.mem_map.mp hg
  have hold : ∀ {e}, e ∈ l.ulEnt → lbHandle e ∈ h :: l.handles :=
    fun he ↦ List.mem_cons_of_mem _ (List.mem_map_of_mem he)
  have hnew : lbHandle (lbCode h lv) ∈ h :: l.handles := by
    rw [lbHandle_code hh]
    exact List.mem_cons_self
  obtain ⟨-, -, ⟨xs, e, ys, hes, hes', -⟩ | ⟨-, hes'⟩⟩ := set_cases hset
  · rw [hes', List.mem_append, List.mem_cons] at he'
    rcases he' with hx | rfl | hy
    · exact hold (by simp [hes, hx])
    · exact hnew
    · exact hold (by simp [hes, hy])
  · rw [hes', List.mem_append, List.mem_singleton] at he'
    rcases he' with hx | rfl
    · exact hold hx
    · exact hnew

theorem setAll_handles_subset (hhs : ∀ h ∈ hs, h < 2 ^ 61)
    (hok : l.setAll mem f hs = .ok l') : l'.handles ⊆ hs ++ l.handles := by
  induction hs generalizing l with
  | nil =>
    cases hok
    exact List.Subset.refl _
  | cons h hs ih =>
    obtain ⟨l₁, hset, hrest⟩ := except_bind_ok hok
    obtain ⟨hh, hhs⟩ := List.forall_mem_cons.mp hhs
    intro g hg
    rcases List.mem_append.mp (ih hhs hrest hg) with hin | hin
    · simp [hin]
    · rcases List.mem_cons.mp (set_handles_subset hh hset hin) with rfl | hin
      · simp
      · simp [hin]

theorem setAll_dynamic (hok : l.setAll mem f hs = .ok l') : l'.dynamic = l.dynamic := by
  induction hs generalizing l with
  | nil =>
    cases hok
    rfl
  | cons h hs ih =>
    obtain ⟨l₁, hset, hrest⟩ := except_bind_ok hok
    exact (ih hrest).trans (set_cases hset).2.1

theorem reset_wf (l : Label) (d : Nat) : Wf (l.reset d).toUlabel :=
  ⟨List.nodup_nil, fun _ he ↦ by cases he⟩

theorem reset_setAll {d : Nat} (hhs : ∀ h ∈ hs, h < 2 ^ 61 ∧ f h < 8)
    (hrest : ∀ h, h ∉ hs → f h = d) (hok : (l.reset d).setAll mem f hs = .ok l') :
    Wf l'.toUlabel ∧ l'.ulDefault = d ∧ l'.get = f := by
  obtain ⟨hwf, hdef, hget⟩ := setAll_spec (reset_wf l d) hhs hok
  refine ⟨hwf, hdef, funext fun h ↦ ?_⟩
  rw [hget]
  split
  · rfl
  · rename_i hh
    rw [hrest h hh]
    rfl

theorem assign_spec {src : Label} (hsrc : Wf src.toUlabel) (hd : src.ulDefault < 8)
    (hok : l.assign mem src = .ok l') :
    Wf l'.toUlabel ∧ l'.ulDefault = src.ulDefault ∧ l'.get = src.get :=
  reset_setAll (fun _ hh ↦ ⟨Ulabel.handles_lt hh, Ulabel.get_lt hsrc hd⟩)
    (fun _ hh ↦ Ulabel.get_of_notMem hh) hok

theorem setAll_append (hs gs : List Nat) (l : Label) :
    l.setAll mem f (hs ++ gs) = l.setAll mem f hs >>= fun l ↦ l.setAll mem f gs := by
  induction hs generalizing l with
  | nil => rfl
  | cons h hs ih =>
    simp only [List.cons_append, setAll]
    cases l.set mem h (f h) with
    | error e => rfl
    | ok l₁ => exact ih l₁

theorem merge_spec {a b out : Label} {m : Nat → Nat → LevelComparator → Nat} {cmp : LevelComparator}
    (hm : ∀ h, m (a.get h) (b.get h) cmp < 8) (hok : a.merge mem b out m cmp = .ok l') :
    Wf l'.toUlabel ∧ l'.ulDefault = m a.ulDefault b.ulDefault cmp ∧
      l'.get = fun h ↦ m (a.get h) (b.get h) cmp := by
  unfold merge at hok
  rw [← setAll_append] at hok
  refine reset_setAll (fun h hh ↦ ⟨?_, hm h⟩) (fun h hh ↦ ?_) hok
  · rcases List.mem_append.mp hh with hh | hh <;> exact Ulabel.handles_lt hh
  · rw [List.mem_append, not_or] at hh
    rw [Label.get, Label.get, Ulabel.get_of_notMem hh.1, Ulabel.get_of_notMem hh.2]

theorem fromEntries_spec {es : List Nat} (hl : Wf l.toUlabel) (hes : ∀ e ∈ es, lbLevel e < 8)
    (hok : fromEntries mem es l = .ok l') :
    Wf l'.toUlabel ∧ l'.ulDefault = l.ulDefault ∧ ∀ h, l'.get h =
      match es.reverse.find? fun e ↦ lbHandle e = h with
      | some e => lbLevel e
      | none => l.get h := by
  induction es generalizing l with
  | nil =>
    cases hok
    exact ⟨hl, rfl, fun _ ↦ rfl⟩
  | cons e es ih =>
    obtain ⟨l₁, hset, hrest⟩ := except_bind_ok hok
    obtain ⟨hl₁, hdef₁, hget₁⟩ := set_spec hl (lbHandle_lt e) (hes e List.mem_cons_self) hset
    obtain ⟨hl', hdef', hget'⟩ := ih hl₁ (fun c hc ↦ hes c (List.mem_cons_of_mem _ hc)) hrest
    refine ⟨hl', hdef'.trans hdef₁, fun h ↦ ?_⟩
    rw [hget', List.reverse_cons, List.find?_append]
    cases hfind : es.reverse.find? fun c ↦ lbHandle c = h with
    | some c => rfl
    | none =>
      by_cases hh : h = lbHandle e
      · simp [hget₁, hh]
      · simp [hget₁, hh, Ne.symm hh]

structure Transforming (t : Nat → Nat) (l₀ : Label) (i : Nat) (l : Label) : Prop where
  wf : Wf l.toUlabel
  default : l.ulDefault = t l₀.ulDefault
  handles : l.handles = l₀.handles
  get : ∀ h, l.get h = if h ∈ l₀.handles.drop i then l₀.get h else t (l₀.get h)

theorem set_handles (hh : h ∈ l.handles) (hset : l.set mem h lv = .ok l') :
    l'.handles = l.handles := by
  obtain ⟨e₀, -, rfl⟩ := List.mem_map.mp hh
  obtain ⟨-, -, ⟨xs, e, ys, hes, hes', he⟩ | ⟨hnew, -⟩⟩ := set_cases hset
  · have he : lbHandle e = lbHandle e₀ := he.resolve_right fun he ↦ he.1 hh
    show l'.ulEnt.map lbHandle = l.ulEnt.map lbHandle
    rw [hes, hes']
    simp [he, lbHandle_code (lbHandle_lt e₀)]
  · exact absurd hh hnew

theorem Transforming.step {l₀ : Label} {i : Nat} (ht : ∀ h, t (l₀.get h) < 8)
    (hl : Transforming t l₀ i l) (hi : i < l₀.ulEnt.length)
    (hset : l.set mem (lbHandle (l.ulEnt.getD i 0)) (t (l.get (lbHandle (l.ulEnt.getD i 0)))) = .ok l') :
    Transforming t l₀ (i + 1) l' := by
  have hi' : i < l₀.handles.length := by simpa [Ulabel.handles] using hi
  have hg : lbHandle (l.ulEnt.getD i 0) = l₀.handles[i] := by
    have hlen : l.handles.length = l₀.handles.length := by rw [hl.handles]
    have hlt : i < l.ulEnt.length := by
      simp only [Ulabel.handles, List.length_map] at hlen
      omega
    have hmap : l.handles[i]? = some (lbHandle (l.ulEnt.getD i 0)) := by
      simp [Ulabel.handles, hlt]
    rw [hl.handles, List.getElem?_eq_getElem hi'] at hmap
    exact (Option.some.inj hmap).symm
  rw [hg] at hset
  set g := l₀.handles[i] with hgdef
  have hdrop : l₀.handles.drop i = g :: l₀.handles.drop (i + 1) := List.drop_eq_getElem_cons hi'
  have hnotin : g ∉ l₀.handles.drop (i + 1) := by
    have hnodup : (l₀.handles.drop i).Nodup :=
      (hl.handles ▸ hl.wf.distinct).sublist (List.drop_sublist i _)
    rw [hdrop] at hnodup
    exact (List.nodup_cons.mp hnodup).1
  have hmem : g ∈ l₀.handles := List.getElem_mem hi'
  have hold : l.get g = l₀.get g := by
    rw [hl.get, hdrop, if_pos List.mem_cons_self]
  rw [hold] at hset
  obtain ⟨hwf, hdef, hget⟩ := set_spec hl.wf (Ulabel.handles_lt hmem) (ht g) hset
  refine ⟨hwf, hdef.trans hl.default, (set_handles (hl.handles ▸ hmem) hset).trans hl.handles,
    fun h ↦ ?_⟩
  rw [hget, hl.get, hdrop]
  by_cases hh : h = g
  · simp [hh, hnotin]
  · simp [hh]

theorem Transforming.run {l₀ : Label} {i n : Nat} (ht : ∀ h, t (l₀.get h) < 8)
    (hl : Transforming t l₀ i l) (hn : i + n = l₀.ulEnt.length)
    (hok : transformFrom mem t i n l = .ok l') : Transforming t l₀ (i + n) l' := by
  induction n generalizing i l with
  | zero =>
    cases hok
    exact hl
  | succ n ih =>
    obtain ⟨l₁, hset, hrest⟩ := except_bind_ok hok
    have hstep := hl.step ht (by omega) hset
    rw [show i + (n + 1) = i + 1 + n by omega] at hn ⊢
    exact ih hstep hn hrest

/-- `label::transform` changes the level at every handle. The default is changed
first, but no entry moves to another slot, since each handle visited has one. -/
theorem transform_spec (hl : Wf l.toUlabel) (ht : ∀ h, t (l.get h) < 8)
    (hok : l.transform mem t = .ok l') :
    Wf l'.toUlabel ∧ l'.ulDefault = t l.ulDefault ∧ l'.get = fun h ↦ t (l.get h) := by
  have hstart : Transforming t l 0 { l with ulDefault := t l.ulDefault } := by
    refine ⟨⟨hl.distinct, hl.word⟩, rfl, rfl, fun h ↦ ?_⟩
    rw [List.drop_zero]
    split
    · rename_i hh
      obtain ⟨e, he, rfl⟩ := List.mem_map.mp hh
      have hfind := find?_of_mem hl.distinct he
      simp [Label.get, Ulabel.get, hfind]
    · rename_i hh
      have hh' : h ∉ (show Label from { l with ulDefault := t l.ulDefault }).handles := hh
      rw [Label.get, Label.get, Ulabel.get_of_notMem hh', Ulabel.get_of_notMem hh]
  have hend := hstart.run ht (by simp) hok
  refine ⟨hend.wf, hend.default, funext fun h ↦ ?_⟩
  have hnil : l.handles.drop l.ulEnt.length = [] :=
    List.drop_eq_nil_of_le (by simp [Ulabel.handles])
  rw [hend.get, Nat.zero_add, hnil, if_neg List.not_mem_nil]

theorem exists_unnamed (a b : Label) (hfit : a.ulEnt.length + b.ulEnt.length < 2 ^ 61) :
    ∃ h < 2 ^ 61, h ∉ a.handles ∧ h ∉ b.handles := by
  by_contra hall
  push Not at hall
  have hsub : List.range (2 ^ 61) ⊆ a.handles ++ b.handles := by
    intro h hh
    rw [List.mem_append]
    by_cases ha : h ∈ a.handles
    · exact .inl ha
    · exact .inr (hall h (List.mem_range.mp hh) ha)
  have hle := (List.nodup_range.subperm hsub).length_le
  simp only [List.length_range, List.length_append, Ulabel.handles, List.length_map] at hle
  omega

theorem compare_iff {a b : Label} {cmp : LevelComparator}
    (hfit : a.ulEnt.length + b.ulEnt.length < 2 ^ 61) :
    a.compare b cmp = true ↔ ∀ h < 2 ^ 61, cmp.cmp (a.get h) (b.get h) = true := by
  simp only [compare, Bool.and_eq_true, List.all_eq_true]
  constructor
  · rintro ⟨⟨hdef, ha⟩, hb⟩ h -
    by_cases hha : h ∈ a.handles
    · exact ha h hha
    · by_cases hhb : h ∈ b.handles
      · exact hb h hhb
      · rwa [Label.get, Label.get, Ulabel.get_of_notMem hha, Ulabel.get_of_notMem hhb]
  · intro hall
    refine ⟨⟨?_, fun h hh ↦ hall h (Ulabel.handles_lt hh)⟩, fun h hh ↦ hall h (Ulabel.handles_lt hh)⟩
    obtain ⟨h, hlt, hha, hhb⟩ := exists_unnamed a b hfit
    have := hall h hlt
    rwa [Label.get, Label.get, Ulabel.get_of_notMem hha, Ulabel.get_of_notMem hhb] at this

end Label

end HiStar.Userlabel
