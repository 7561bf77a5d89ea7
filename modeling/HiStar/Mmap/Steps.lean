import HiStar.Mmap.Removes

namespace HiStar.Mmap

/-- The right part as it is made: at the end of the range, or where the address space is free. -/
def Placed (ents : List Mapping) (m : Mapping) (start len : Nat) (new : Mapping) : Prop :=
  (new = rightChunk m start len ∧ new.va ≠ 0) ∨
    ((rightChunk m start len).va = 0 ∧ isFree ents new = true)

section Steps

variable {A : AddressSpace} {l r l' r' ents ents' : List Mapping} {m new x : Mapping}
  {start len p rightVa : Nat} {ans : Answers}

theorem AddressSpace.others_apart (hA : A.ents = l ++ m :: r) (hm : m.anon = true) :
    ∀ x ∈ l ++ r, x.Apart m := by
  have h := A.apart
  rw [hA, List.pairwise_append, List.pairwise_cons] at h
  intro x hx
  rcases List.mem_append.mp hx with hx | hx
  · exact h.2.2 x hx m List.mem_cons_self (.inr hm)
  · have h' := h.2.1.1 x hx (.inl hm)
    simp only [Mapping.Apart] at h' ⊢
    tauto

theorem AddressSpace.apart_of_ne (hm : m ∈ A.ents) (hanon : m.anon = true) (hx : x ∈ A.ents)
    (hne : x ≠ m) : x.Apart m := by
  obtain ⟨l, r, hA⟩ := List.append_of_mem hm
  rw [hA, List.mem_append, List.mem_cons] at hx
  refine A.others_apart hA hanon x (List.mem_append.mpr ?_)
  exact hx.imp_right fun h ↦ h.resolve_left hne

theorem Mapping.Apart.not_covers {x y : Mapping} (h : x.Apart y) (hx : x.Covers p) :
    ¬y.Covers p := by
  simp only [Mapping.Apart, Mapping.Covers] at h hx ⊢
  omega

theorem segmentMapOverlap_some {e : Mapping} {slot : Option Nat} {chosen : Nat}
    (h : segmentMapOverlap ents e slot chosen = some (ents', rightVa)) :
    ∃ new i, ents' = ents.take i ++ new :: ents.drop i ∧
      ((new = e ∧ new.va ≠ 0) ∨ (e.va = 0 ∧ isFree ents new = true)) := by
  cases slot with
  | none => exact absurd h (by simp [segmentMapOverlap])
  | some i =>
    by_cases hva : e.va = 0
    · simp only [segmentMapOverlap, hva, if_true, true_imp_iff] at h
      split_ifs at h with hok
      rw [Option.some_inj, Prod.mk.injEq] at h
      exact ⟨_, i, h.1.symm, .inr ⟨hva, hok.2⟩⟩
    · simp only [segmentMapOverlap, if_neg hva] at h
      split_ifs at h
      rw [Option.some_inj, Prod.mk.injEq] at h
      exact ⟨e, i, h.1.symm, .inl ⟨rfl, hva⟩⟩

theorem isFree_iff : isFree ents new = true ↔ new.va < 2 ^ 64 ∧ new.va % 4096 = 0 ∧
    ∀ x ∈ ents, x.Apart new ∧ ¬(x.va ≤ new.va ∧ new.va < x.vaEnd) := by
  simp only [isFree, decide_eq_true_eq]

theorem mapRight_split (h : Hit m start) (hlen : len % 4096 = 0) (hlen' : len < 2 ^ 64)
    (hmap : mapRight (l ++ m :: r) m start len ans = some (ents', rightVa)) :
    ∃ new l' r', ents' = l' ++ m :: r' ∧ Placed (l ++ m :: r) m start len new ∧
      (∀ x ∈ l', x = new ∨ x ∈ l) ∧ (∀ x ∈ l' ++ r', x = new ∨ x ∈ l ++ r) ∧
      (start + len ≠ m.vaEnd → new ∈ l' ++ r') ∧
      ∀ p t, Maps (l' ++ r') p t ↔ Maps (new :: (l ++ r)) p t := by
  rw [mapRight] at hmap
  by_cases hzero : rightPages m start len = 0
  · have hend := (h.rightPages_zero hlen hlen').mp hzero
    have hbound := h.vaEnd_eq
    have hva : (rightChunk m start len).va = m.vaEnd := by
      rw [rightChunk_va]
      omega
    have hnone (p : Nat) : ¬(rightChunk m start len).Covers p := by
      apply not_covers
      rw [h.rightChunk_vaEnd hlen hlen', hva]
    rw [if_pos hzero, Option.some_inj, Prod.mk.injEq] at hmap
    refine ⟨rightChunk m start len, l, r, hmap.1.symm, .inl ⟨rfl, ?_⟩, fun x hx ↦ .inr hx,
      fun x hx ↦ .inr hx, fun hne ↦ absurd hend hne, fun p t ↦ ?_⟩
    · have hlt := h.lt
      omega
    · rw [maps_cons, or_iff_right fun hc ↦ hnone p hc.1]
  · rw [if_neg hzero] at hmap
    obtain ⟨new, i, rfl, hnew⟩ := segmentMapOverlap_some hmap
    obtain ⟨l', r', hsplit, hl', hmem⟩ := insert_split l r m new i
    refine ⟨new, l', r', hsplit, hnew, hl', fun x hx ↦ ?_, fun _ ↦ ?_, fun p t ↦ maps_congr hmem⟩
    · exact List.mem_cons.mp ((hmem x).mp hx)
    · exact (hmem new).mpr List.mem_cons_self

section Placed

variable (h : Hit m start) (hlen : len % 4096 = 0) (hlen' : len < 2 ^ 64)
  (hend : start + len ≤ 2 ^ 64) (hnew : Placed ents m start len new)

include h hlen hlen' hend hnew

theorem Placed.cases (hm : m ∈ ents) :
    (new = rightChunk m start len ∧ new.va = start + len ∧ new.vaEnd = m.vaEnd) ∨
      ((∀ x ∈ ents, x.Apart new) ∧ ¬(m.va ≤ new.va ∧ new.va < m.vaEnd)) := by
  rcases hnew with ⟨rfl, hva⟩ | ⟨-, hfree⟩
  · refine .inl ⟨rfl, ?_, h.rightChunk_vaEnd hlen hlen'⟩
    rw [rightChunk_va] at hva ⊢
    omega
  · rw [isFree_iff] at hfree
    exact .inr ⟨fun x hx ↦ (hfree.2.2 x hx).1, (hfree.2.2 m hm).2⟩

theorem Placed.covers (hm : m ∈ ents) (hp : new.Covers p) (hx : x ∈ ents) (hxp : x.Covers p) :
    m.Covers p ∧ start + len ≤ 4096 * p ∧ new.translate p = m.translate p := by
  rcases hnew.cases h hlen hlen' hend hm with ⟨rfl, hva, hvaEnd⟩ | ⟨hapart, -⟩
  · have hle := h.le
    simp only [Mapping.Covers, hva, hvaEnd] at hp ⊢
    exact ⟨by omega, hp.1, h.rightChunk_translate hlen hp.1 hp.2⟩
  · exact absurd hp ((hapart x hx).not_covers hxp)

theorem Placed.covers_iff (hp : m.Covers p) (hm : m ∈ ents) :
    new.Covers p ↔ start + len ≤ 4096 * p := by
  refine ⟨fun hc ↦ (hnew.covers h hlen hlen' hend hm hc hm hp).2.1, fun hle ↦ ?_⟩
  rcases hnew with ⟨rfl, hva⟩ | ⟨hva, -⟩
  · rw [rightChunk_va] at hva
    simp only [Mapping.Covers, h.rightChunk_vaEnd hlen hlen', rightChunk_va] at hp ⊢
    omega
  · have hpos := h.valid.nonzero
    have hstart := h.le
    have hbound := h.vaEnd_eq
    rw [rightChunk_va] at hva
    simp only [Mapping.Covers] at hp
    omega

theorem Placed.harmless (hm : m ∈ ents) : Harmless (leftChunk m start) new := by
  intro hc
  have hlt := h.le.trans_lt h.lt
  rw [conflicts_iff, h.leftChunk_vaEnd, leftChunk_va] at hc
  rcases hnew.cases h hlen hlen' hend hm with ⟨-, hva, -⟩ | ⟨hapart, -⟩
  · omega
  · have ha := hapart m hm
    have hmEnd := h.lt
    simp only [Mapping.Apart] at ha
    omega

theorem Placed.va_ne (hm : m ∈ ents) (hpos : 0 < len) : new.va ≠ start := by
  have hle := h.le
  have hlt := h.lt
  rcases hnew.cases h hlen hlen' hend hm with ⟨-, hva, -⟩ | ⟨-, hout⟩
  · omega
  · omega

end Placed

theorem Mapping.Apart.harmless (hx : x.Apart m) (h : Hit m start) :
    Harmless (leftChunk m start) x := by
  intro hc
  have hlt := h.lt
  have hle := h.le
  rw [conflicts_iff, h.leftChunk_vaEnd, leftChunk_va] at hc
  simp only [Mapping.Apart] at hx
  omega

theorem leftPages_zero (h : Hit m start) : leftPages m start = 0 ↔ m.va = start := by
  have h1 := h.aligned
  have h2 := h.valid.aligned
  have h3 := h.le
  rw [h.leftPages_eq]
  omega

theorem dropOld_left (h : Hit m start) (hva : m.va ≠ start)
    (hharm : ∀ x ∈ l' ++ r', Harmless (leftChunk m start) x)
    (hdrop : dropOld (l' ++ m :: r') m start ans = some ents') (p : Nat)
    (t : CobjRef × Nat × UInt32) :
    Maps ents' p t ↔ Maps (leftChunk m start :: (l' ++ r')) p t := by
  have hlt := h.lt
  have hle := h.le
  have hc : conflicts (leftChunk m start) m = true := by
    rw [conflicts_iff, h.leftChunk_vaEnd, leftChunk_va]
    omega
  rw [dropOld, if_neg (mt (leftPages_zero h).mp hva), segmentMapReplace] at hdrop
  split_ifs at hdrop
  rw [← Option.some_inj.mp hdrop]
  exact maps_replaceIn hharm hc (leftChunk_va m start).symm h.leftChunk_startPage.symm

theorem dropOld_whole (h : Hit m start) (hva : m.va = start) (hfirst : ∀ x ∈ l', x.va ≠ start)
    (hdrop : dropOld (l' ++ m :: r') m start ans = some ents') : ents' = l' ++ r' := by
  rw [dropOld, if_pos ((leftPages_zero h).mpr hva), segmentUnmap] at hdrop
  split_ifs at hdrop
  rw [← Option.some_inj.mp hdrop, List.eraseP_append_right, List.eraseP_cons_of_pos]
  · simp
  · intro x hx
    simpa [hva] using hfirst x hx

theorem rightChunk_zero (h : Hit m start) (hva : m.va = start) : rightChunk m start 0 = m := by
  have hstart := h.rightChunk_startPage (rfl : 0 % 4096 = 0)
  have hpages := h.rightPages_eq (rfl : 0 % 4096 = 0) (by omega)
  have hnum : (rightChunk m start 0).numPages = m.numPages := by
    have hend := h.vaEnd_eq
    rw [rightChunk, hpages]
    dsimp only
    omega
  have hplace := h.startPage_lt
  have hlt := h.lt
  have hend := h.vaEnd_eq
  have hva' : (rightChunk m start 0).va = m.va := by
    rw [rightChunk_va]
    omega
  have hstart' : (rightChunk m start 0).startPage = m.startPage := by
    rw [hstart]
    omega
  exact Mapping.ext (rightChunk_segment m start 0) hstart' hnum (rightChunk_flags m start 0) hva'

theorem dropOld_copy (h : Hit m start) (hva : m.va = start) (hcopy : m ∈ l' ++ r')
    (hothers : ∀ x ∈ l' ++ r', x = m ∨ x.Apart m)
    (hdrop : dropOld (l' ++ m :: r') m start ans = some ents') (p : Nat)
    (t : CobjRef × Nat × UInt32) : Maps ents' p t ↔ Maps (l' ++ r') p t := by
  rw [dropOld, if_pos ((leftPages_zero h).mpr hva), segmentUnmap] at hdrop
  split_ifs at hdrop
  obtain ⟨y, l₁, l₂, -, hy, hsplit, herase⟩ := List.exists_of_eraseP
    (p := fun x : Mapping ↦ decide (x.va = m.va)) (l := l' ++ m :: r') (a := m) (by simp) (by simp)
  rw [herase, Option.some_inj] at hdrop
  subst hdrop
  have hperm : (m :: (l' ++ r')).Perm (y :: (l₁ ++ l₂)) := by
    refine List.perm_middle.symm.trans ?_
    rw [hsplit]
    exact List.perm_middle
  by_cases hym : y = m
  · subst hym
    exact maps_congr fun x ↦ (List.Perm.cons_inv hperm).mem_iff.symm
  · have hyin : y ∈ l' ++ r' := by
      have := hperm.mem_iff.mpr (List.mem_cons_self (a := y) (l := l₁ ++ l₂))
      exact (List.mem_cons.mp this).resolve_left hym
    have hempty : ¬y.Covers p := by
      have hapart := (hothers y hyin).resolve_left hym
      have hlt := h.le.trans_lt h.lt
      apply not_covers
      simp only [Mapping.Apart] at hapart
      simp only [decide_eq_true_eq] at hy
      omega
    have hmaps : Maps (m :: (l' ++ r')) p t ↔ Maps (y :: (l₁ ++ l₂)) p t :=
      maps_congr fun x ↦ hperm.mem_iff
    have hm : Maps (m :: (l' ++ r')) p t ↔ Maps (l' ++ r') p t :=
      maps_congr fun x ↦ ⟨fun hx ↦ (List.mem_cons.mp hx).elim (· ▸ hcopy) id, List.mem_cons_of_mem _⟩
    rw [← hm, hmaps, maps_cons, or_iff_right fun hc ↦ hempty hc.1]

end Steps

end HiStar.Mmap
