import HiStar.Mmap.Steps

namespace HiStar.Mmap

def InRange (start length page : Nat) : Prop :=
  start ≤ 4096 * page ∧ 4096 * page < start + roundup length

/-- A call has a defined outcome, and one that returns 0 has removed the pages of anonymous
mappings in its range, kept what every other mapped page is mapped to, and dropped a segment
only without mappings. -/
def RemovesExactly (ents : List Mapping) (start length : Nat) : Outcome → Prop
  | .undefined => False
  | .failed _ => True
  | .done ents' unref =>
    (∀ p, InRange start length p → (∃ x ∈ ents, x.anon = true ∧ x.Covers p) →
      ∀ t, ¬Maps ents' p t) ∧
    (∀ p, ¬InRange start length p → (∃ t, Maps ents p t) → ∀ t, Maps ents' p t ↔ Maps ents p t) ∧
    ∀ seg, unref = some seg → ∀ x ∈ ents', x.segment.object ≠ seg.object

section Anonymous

variable {A : AddressSpace} {m : Mapping} {start length : Nat} {ans : Answers}
  {ents ents' : List Mapping}

theorem segmentLookup_some (h : segmentLookup ents start = some m) :
    m ∈ ents ∧ m.va ≤ start ∧ start < m.vaEnd := by
  have hm := List.find?_some h
  exact ⟨List.mem_of_find?_eq_some h, by simpa using hm⟩

theorem AddressSpace.hit (h : segmentLookup A.ents start = some m) (hstart : start % 4096 = 0)
    (hm : m.anon = true) : Hit m start := by
  obtain ⟨hmem, hle, hlt⟩ := segmentLookup_some h
  exact ⟨A.valid m hmem, hm, hstart, hle, hlt⟩

theorem steps_maps (h : Hit m start) (hmem : m ∈ A.ents) {rightVa : Nat}
    (hend : start + roundup length ≤ 2 ^ 64)
    (hfirst : roundup length = 0 ∨ m.va ≠ start ∨ A.ents.find? (·.va = start) = some m)
    (hright : mapRight A.ents m start (roundup length) ans = some (ents, rightVa))
    (hdrop : dropOld ents m start ans = some ents') :
    ∃ new l r, A.ents = l ++ m :: r ∧ Placed A.ents m start (roundup length) new ∧
      ∀ p t, Maps ents' p t ↔ Maps (leftChunk m start :: new :: (l ++ r)) p t := by
  have hlen := roundup_aligned length
  have hlen' := roundup_lt length
  obtain ⟨l, r, hA, hl⟩ : ∃ l r, A.ents = l ++ m :: r ∧
      (0 < roundup length → m.va = start → ∀ x ∈ l, x.va ≠ start) := by
    by_cases hcase : 0 < roundup length ∧ m.va = start
    · have hfind := (hfirst.resolve_left (by omega)).resolve_left (by simp [hcase.2])
      obtain ⟨-, l, r, hA, hl⟩ := List.find?_eq_some_iff_append.mp hfind
      exact ⟨l, r, hA, fun _ _ x hx ↦ by simpa using hl x hx⟩
    · obtain ⟨l, r, hA⟩ := List.append_of_mem hmem
      exact ⟨l, r, hA, fun h1 h2 ↦ absurd ⟨h1, h2⟩ hcase⟩
  have hapart := A.others_apart hA h.anon
  rw [hA] at hright
  obtain ⟨new, l', r', rfl, hnew, hl', hmem', hcopy, hmaps⟩ := mapRight_split h hlen hlen' hright
  rw [← hA] at hnew
  refine ⟨new, l, r, hA, hnew, fun p t ↦ ?_⟩
  have hzero (hva : m.va = start) : ¬(leftChunk m start).Covers p := by
    apply not_covers
    rw [h.leftChunk_vaEnd, leftChunk_va, hva]
  by_cases hva : m.va = start
  · rw [maps_cons, or_iff_right fun hc ↦ hzero hva hc.1, ← hmaps]
    rcases Nat.eq_zero_or_pos (roundup length) with hnil | hpos
    · have hsame : new = m := by
        rw [hnil, Placed, rightChunk_zero h hva] at hnew
        exact (hnew.resolve_right fun hz ↦ h.valid.nonzero hz.1).1
      subst hsame
      have hlt := h.lt
      refine dropOld_copy h hva (hcopy (by omega)) (fun x hx ↦ ?_) hdrop p t
      exact (hmem' x hx).imp_right (hapart x)
    · have hfirst' : ∀ x ∈ l', x.va ≠ start := by
        intro x hx
        rcases hl' x hx with rfl | hx
        · exact hnew.va_ne h hlen hlen' hend hmem hpos
        · exact hl hpos hva x hx
      rw [dropOld_whole h hva hfirst' hdrop]
  · have hharm : ∀ x ∈ l' ++ r', Harmless (leftChunk m start) x := by
      intro x hx
      rcases hmem' x hx with rfl | hx
      · exact hnew.harmless h hlen hlen' hend hmem
      · exact (hapart x hx).harmless h
    rw [dropOld_left h hva hharm hdrop, maps_cons, hmaps, ← maps_cons]

theorem removes_of_maps (h : Hit m start) (hmem : m ∈ A.ents) {new : Mapping} {l r : List Mapping}
    (hend : start + roundup length ≤ 2 ^ 64)
    (hothers : ∀ x ∈ A.ents, x.anon = true → x = m ∨ ∀ p, InRange start length p → ¬x.Covers p)
    (hA : A.ents = l ++ m :: r) (hnew : Placed A.ents m start (roundup length) new)
    (hmaps : ∀ p t, Maps ents' p t ↔ Maps (leftChunk m start :: new :: (l ++ r)) p t) :
    (∀ p, InRange start length p → (∃ x ∈ A.ents, x.anon = true ∧ x.Covers p) →
      ∀ t, ¬Maps ents' p t) ∧
    ∀ p, ¬InRange start length p → (∃ t, Maps A.ents p t) →
      ∀ t, Maps ents' p t ↔ Maps A.ents p t := by
  have hapart := A.others_apart hA h.anon
  have hplaced {p : Nat} {x : Mapping} (hp : new.Covers p) (hx : x ∈ A.ents) (hxp : x.Covers p) :=
    hnew.covers h (roundup_aligned length) (roundup_lt length) hend hmem hp hx hxp
  have hrest {p : Nat} {t : CobjRef × Nat × UInt32} (hp : m.Covers p) : ¬Maps (l ++ r) p t :=
    fun ⟨x, hx, hxp, _⟩ ↦ (hapart x hx).not_covers hxp hp
  constructor
  · rintro p hp ⟨x, hx, hanon, hxp⟩ t hmap
    obtain rfl : x = m := (hothers x hx hanon).resolve_right fun hnot ↦ hnot p hp hxp
    rw [hmaps, maps_cons, maps_cons] at hmap
    rcases hmap with ⟨hleft, -⟩ | ⟨hright, -⟩ | hmap
    · exact absurd (h.leftChunk_covers.mp hleft).2 (not_lt.mpr hp.1)
    · exact absurd hp.2 (not_lt.mpr (hplaced hright hx hxp).2.1)
    · exact hrest hxp hmap
  · rintro p hp ⟨t', x, hx, hxp, -⟩ t
    rw [hmaps, hA, maps_append, maps_cons, maps_cons, maps_cons, maps_append]
    by_cases hm : m.Covers p
    · have hno : ¬Maps l p t ∧ ¬Maps r p t := by
        rw [← not_or, ← maps_append]
        exact hrest hm
      have hleft : (leftChunk m start).Covers p ∧ (leftChunk m start).translate p = t ↔
          4096 * p < start ∧ m.translate p = t := by
        rw [h.leftChunk_covers, h.leftChunk_translate, and_iff_right hm]
      have hright : new.Covers p ∧ new.translate p = t ↔
          start + roundup length ≤ 4096 * p ∧ m.translate p = t := by
        rw [hnew.covers_iff h (roundup_aligned length) (roundup_lt length) hend hm hmem]
        refine and_congr_right fun hge ↦ ?_
        rw [(hplaced ((hnew.covers_iff h (roundup_aligned length) (roundup_lt length) hend hm
          hmem).mpr hge) hmem hm).2.2]
      have hside : 4096 * p < start ∨ start + roundup length ≤ 4096 * p := by
        simp only [InRange] at hp
        omega
      simp only [hleft, hright, hno.1, hno.2, hm, or_false, false_or, true_and, ← or_and_right,
        hside]
    · have hleft : ¬(leftChunk m start).Covers p := fun hc ↦ hm (h.leftChunk_covers.mp hc).1
      have hright : ¬new.Covers p := fun hc ↦ hm (hplaced hc hx hxp).1
      simp only [hleft, hright, hm, false_and, false_or]

theorem munmap_found (hlookup : segmentLookup ents start = some m) (hstart : start % 4096 = 0)
    (hans : ans.lookup = true) : munmap ents start length ans =
      if m.anon then munmapAnon ents m start (roundup length) ans
      else munmapFile ents m start (roundup length) ans := by
  rw [munmap, if_neg (not_not.mpr hstart), if_neg (by simp [hans]), hlookup]

theorem segmentLookupObj_none {oid : Nat} (h : segmentLookupObj ents oid = none) :
    ∀ x ∈ ents, x.segment.object ≠ oid := by
  intro x hx
  simpa using List.find?_eq_none.mp h x hx

theorem munmapAnon_removes (h : Hit m start) (hmem : m ∈ A.ents)
    (hend : start + roundup length ≤ 2 ^ 64)
    (hothers : ∀ x ∈ A.ents, x.anon = true → x = m ∨ ∀ p, InRange start length p → ¬x.Covers p)
    (hfirst : roundup length = 0 ∨ m.va ≠ start ∨ A.ents.find? (·.va = start) = some m) :
    RemovesExactly A.ents start length (munmapAnon A.ents m start (roundup length) ans) := by
  rw [munmapAnon]
  cases hright : mapRight A.ents m start (roundup length) ans with
  | none => exact trivial
  | some made =>
    obtain ⟨ents₁, rightVa⟩ := made
    dsimp only
    cases hdrop : dropOld ents₁ m start ans with
    | none =>
      dsimp only
      split <;> exact trivial
    | some ents₂ =>
      obtain ⟨new, l, r, hA, hnew, hmaps⟩ := steps_maps h hmem hend hfirst hright hdrop
      have hpages := removes_of_maps h hmem hend hothers hA hnew hmaps
      dsimp only
      split_ifs with hobj
      · refine ⟨hpages.1, hpages.2, fun seg hseg ↦ ?_⟩
        rw [← Option.some_inj.mp hseg]
        exact segmentLookupObj_none hobj.2
      · exact ⟨hpages.1, hpages.2, fun seg hseg ↦ nomatch hseg⟩

end Anonymous

section File

variable {A : AddressSpace} {m : Mapping} {start length p : Nat} {ans : Answers}

theorem find_va_covers {ents : List Mapping} {y : Mapping}
    (hlookup : segmentLookup ents start = some m) (hva : m.va = start)
    (hy : ents.find? (·.va = start) = some y) (hp : y.Covers p) : y = m := by
  obtain ⟨-, l, r, rfl, hl⟩ := List.find?_eq_some_iff_append.mp hlookup
  rw [List.find?_append, List.find?_cons_of_pos (by simp [hva])] at hy
  cases hfind : l.find? (·.va = start) with
  | none =>
    rw [hfind, Option.none_or, Option.some_inj] at hy
    exact hy.symm
  | some z =>
    rw [hfind, Option.some_or, Option.some_inj] at hy
    subst hy
    have hout := hl z (List.mem_of_find?_eq_some hfind)
    have hzva := List.find?_some hfind
    have h1 := hp.1
    have h2 := hp.2
    simp only [decide_eq_true_eq, Bool.not_eq_eq_eq_not, Bool.not_true, decide_eq_false_iff_not]
      at hout hzva
    omega

theorem munmapFile_removes (hlookup : segmentLookup A.ents start = some m)
    (hfile : m.anon = false) :
    RemovesExactly A.ents start length (munmapFile A.ents m start (roundup length) ans) := by
  obtain ⟨hmem, hle, hlt⟩ := segmentLookup_some hlookup
  rw [munmapFile, roundup_roundup]
  split_ifs with hwhole
  · cases hunmap : segmentUnmap A.ents start ans.unmap with
    | none => exact trivial
    | some ents =>
      have hvaEnd := ((A.valid m hmem).vaEnd_eq (by omega)).1
      have hrange (p : Nat) : InRange start length p ↔ m.Covers p := by
        have hlen := roundup_aligned length
        simp only [InRange, Mapping.Covers, hvaEnd, hwhole.1, hwhole.2]
        omega
      rw [segmentUnmap] at hunmap
      split_ifs at hunmap
      obtain ⟨y, l, r, hfirst, hy, hsplit, herase⟩ := List.exists_of_eraseP
        (p := fun x : Mapping ↦ decide (x.va = start)) hmem (by simp [hwhole.1])
      rw [herase, Option.some_inj] at hunmap
      subst hunmap
      have hfind : A.ents.find? (·.va = start) = some y :=
        List.find?_eq_some_iff_append.mpr ⟨hy, l, r, hsplit, fun x hx ↦ by simpa using hfirst x hx⟩
      refine ⟨?_, ?_, fun seg hseg ↦ by cases hseg⟩
      · rintro p hp ⟨x, hx, hanon, hxp⟩
        have hne : m ≠ x := by
          rintro rfl
          exact absurd hanon (by simp [hfile])
        exact absurd hxp ((A.apart_of_ne hx hanon hmem hne).not_covers ((hrange p).mp hp))
      · intro p hp _ t
        have hout : ¬(y.Covers p ∧ y.translate p = t) := by
          rintro ⟨hc, -⟩
          rw [find_va_covers hlookup hwhole.1 hfind hc] at hc
          exact hp ((hrange p).mpr hc)
        rw [hsplit, maps_append, maps_append, maps_cons, or_iff_right hout]
  · exact trivial

end File

end HiStar.Mmap
