import HiStar.Mmap.Exact

namespace HiStar.Mmap

/-- When a call removes exactly its range: it starts in a mapping, and if that is an anonymous
one, then the range ends within the address space, no other anonymous mapping has pages in it,
and the mapping is the first that is found at its address. -/
def Suitable (ents : List Mapping) (start length : Nat) : Prop :=
  ∃ m, segmentLookup ents start = some m ∧
    (m.anon = true → start + roundup length ≤ 2 ^ 64 ∧
      (∀ x ∈ ents, x.anon = true → x = m ∨ ∀ p, InRange start length p → ¬x.Covers p) ∧
      (roundup length = 0 ∨ m.va ≠ start ∨ ents.find? (·.va = start) = some m))

def smooth (ents : List Mapping) : Answers where
  lookup := true
  slot := some ents.length
  chosen := 2 ^ 64 - 4096
  left := true
  unmap := true
  undo := true
  lookupObj := true

def dropped (ents : List Mapping) (m : Mapping) (start : Nat) : List Mapping :=
  if m.va = start then ents.eraseP (·.va = m.va) else replaceIn (leftChunk m start) ents false

section Smooth

variable {A : AddressSpace} {m x : Mapping} {start len length p : Nat} {ents ents' : List Mapping}

theorem Mapping.Valid.vaEnd_aligned (h : x.Valid) : x.vaEnd % 4096 = 0 := by
  have h1 := h.aligned
  rw [Mapping.vaEnd]
  omega

theorem Mapping.vaEnd_lt (x : Mapping) : x.vaEnd < 2 ^ 64 := Nat.mod_lt _ (by omega)

theorem isFree_last (x : Mapping) : isFree A.ents { x with va := 2 ^ 64 - 4096 } = true := by
  have hempty : ({ x with va := 2 ^ 64 - 4096 } : Mapping).vaEnd ≤ 2 ^ 64 - 4096 := by
    rw [Mapping.vaEnd]
    dsimp only
    omega
  rw [isFree_iff]
  refine ⟨by dsimp only; omega, by dsimp only; omega, fun y hy ↦ ⟨.inr (.inl hempty), ?_⟩⟩
  have hy1 := (A.valid y hy).vaEnd_aligned
  have hy2 := y.vaEnd_lt
  dsimp only
  omega

theorem mapRight_smooth (h : Hit m start) (hlen : len % 4096 = 0) (hlen' : len < 2 ^ 64) :
    ∃ new rightVa, mapRight A.ents m start len (smooth A.ents) = some (A.ents ++ new, rightVa) ∧
      (2 ^ 64 < start + len → new = [rightChunk m start len]) := by
  have hbound := h.vaEnd_eq
  have hread : (rightChunk m start len).readable = true := by
    rw [Mapping.readable, rightChunk_flags]
    exact h.valid.readable
  rw [mapRight]
  by_cases hzero : rightPages m start len = 0
  · rw [if_pos hzero]
    refine ⟨[], 0, by rw [List.append_nil], fun hgt ↦ ?_⟩
    have hend := (h.rightPages_zero hlen hlen').mp hzero
    omega
  · rw [if_neg hzero]
    simp only [smooth, segmentMapOverlap, hread, true_and, List.take_length, List.drop_length]
    by_cases hva : (rightChunk m start len).va = 0
    · simp only [hva, if_true, true_imp_iff, isFree_last]
      refine ⟨_, _, rfl, fun hgt ↦ ?_⟩
      rw [rightChunk_va] at hva
      have hstart := h.lt
      omega
    · simp only [hva, if_false, false_imp_iff, if_true]
      exact ⟨_, _, rfl, fun _ ↦ rfl⟩

theorem dropOld_smooth (h : Hit m start) (hmem : m ∈ A.ents) (new : List Mapping) :
    dropOld (A.ents ++ new) m start (smooth A.ents) = some (dropped (A.ents ++ new) m start) := by
  rw [dropOld, dropped]
  by_cases hva : m.va = start
  · have hany : (A.ents ++ new).any (·.va = m.va) = true :=
      List.any_eq_true.mpr ⟨m, List.mem_append_left _ hmem, by simp⟩
    rw [if_pos ((leftPages_zero h).mpr hva), if_pos hva, segmentUnmap, if_pos ⟨rfl, hany⟩]
  · have hread : (leftChunk m start).readable = true := by
      rw [Mapping.readable, leftChunk_flags]
      exact h.valid.readable
    rw [if_neg (mt (leftPages_zero h).mp hva), if_neg hva, segmentMapReplace, if_pos ⟨rfl, hread⟩]

theorem mem_dropped (h : Hit m start) (hapart : x.Apart m) (hx : x ∈ ents) (hp : x.Covers p) :
    x ∈ dropped ents m start := by
  have hxp := hp.1.trans_lt hp.2
  have hm := h.le.trans_lt h.lt
  rw [dropped]
  split_ifs with hva
  · refine (List.mem_eraseP_of_neg ?_).mpr hx
    simp only [Mapping.Apart] at hapart
    simp only [decide_eq_true_eq]
    omega
  · refine mem_replaceIn hx ?_ false
    rw [← Bool.not_eq_true]
    exact fun hc ↦ absurd (hapart.harmless h hc) (not_le.mpr hxp)

theorem maps_past_end (h : Hit m start) (hmem : m ∈ A.ents) (hlen : len % 4096 = 0)
    (hlen' : len < 2 ^ 64) (hgt : 2 ^ 64 < start + len) :
    ∃ t, Maps (dropped (A.ents ++ [rightChunk m start len]) m start) (start / 4096) t := by
  have hstart := h.aligned
  have hbound := h.vaEnd_eq
  have hlt := h.lt
  have hva : (rightChunk m start len).va = start + len - 2 ^ 64 := by
    rw [rightChunk_va]
    omega
  have hvaEnd := h.rightChunk_vaEnd hlen hlen'
  have hcovers : (rightChunk m start len).Covers (start / 4096) := by
    simp only [Mapping.Covers, hva, hvaEnd]
    omega
  rw [dropped]
  split_ifs with hmva
  · refine ⟨_, rightChunk m start len, (List.mem_eraseP_of_neg ?_).mpr (by simp), hcovers, rfl⟩
    rw [decide_eq_true_eq, hva]
    omega
  · obtain ⟨l, r, hA⟩ := List.append_of_mem hmem
    have hapart := A.others_apart hA h.anon
    have hle := h.le
    have hc : conflicts (leftChunk m start) m = true := by
      rw [conflicts_iff, h.leftChunk_vaEnd, leftChunk_va]
      omega
    obtain ⟨t, ht⟩ := covers_replaceIn_rest (e := leftChunk m start)
      (List.mem_append_right r (List.mem_singleton_self (rightChunk m start len))) hcovers
      (by rw [h.leftChunk_vaEnd]; omega) (Mapping.vaEnd_lt _) (by rw [hvaEnd]; exact h.valid.vaEnd_aligned)
      (by rw [h.leftChunk_vaEnd]; exact hstart)
    refine ⟨t, ?_⟩
    rw [hA, List.append_assoc, List.cons_append, maps_replaceIn_found _ hc
      (leftChunk_va m start).symm h.leftChunk_startPage.symm, maps_append, maps_cons]
    · exact .inr (.inr ht)
    · exact fun x hx ↦ (hapart x (List.mem_append_left _ hx)).harmless h

theorem mem_second (hmem : m ∈ A.ents) (hva : m.va = start)
    (hfirst : A.ents.find? (·.va = start) ≠ some m) (new : List Mapping) :
    m ∈ dropped (A.ents ++ new) m start := by
  rw [dropped, if_pos hva]
  obtain ⟨y, l, r, hl, hy, hsplit, herase⟩ := List.exists_of_eraseP
    (p := fun x : Mapping ↦ decide (x.va = m.va)) hmem (by simp)
  have hne : m ≠ y := by
    rintro rfl
    apply hfirst
    rw [List.find?_eq_some_iff_append, ← hva]
    exact ⟨hy, l, r, hsplit, fun x hx ↦ by simpa using hl x hx⟩
  rw [List.eraseP_append_left (by simp) _ hmem, herase]
  rw [hsplit] at hmem
  simp only [List.mem_append, List.mem_cons] at hmem ⊢
  tauto

end Smooth

section Unsuitable

variable {A : AddressSpace} {m : Mapping} {start length : Nat}

theorem not_removes {p : Nat} {x : Mapping} {t : CobjRef × Nat × UInt32} (h : Hit m start)
    (hmem : m ∈ A.ents) (hp : InRange start length p) (hx : x ∈ A.ents) (hanon : x.anon = true)
    (hxp : x.Covers p) {new : List Mapping} {rightVa : Nat}
    (hright : mapRight A.ents m start (roundup length) (smooth A.ents) =
      some (A.ents ++ new, rightVa))
    (hmaps : Maps (dropped (A.ents ++ new) m start) p t) :
    ¬RemovesExactly A.ents start length
      (munmapAnon A.ents m start (roundup length) (smooth A.ents)) := by
  rw [munmapAnon, hright]
  dsimp only
  rw [dropOld_smooth h hmem]
  dsimp only
  intro hrem
  have hgone : ∀ t, ¬Maps (dropped (A.ents ++ new) m start) p t := by
    split_ifs at hrem
    · exact hrem.1 p hp ⟨x, hx, hanon, hxp⟩
    · exact hrem.1 p hp ⟨x, hx, hanon, hxp⟩
  exact hgone t hmaps

theorem suitable_of_removes (h : Hit m start) (hmem : m ∈ A.ents)
    (hrem : RemovesExactly A.ents start length
      (munmapAnon A.ents m start (roundup length) (smooth A.ents))) :
    start + roundup length ≤ 2 ^ 64 ∧
      (∀ x ∈ A.ents, x.anon = true → x = m ∨ ∀ p, InRange start length p → ¬x.Covers p) ∧
      (roundup length = 0 ∨ m.va ≠ start ∨ A.ents.find? (·.va = start) = some m) := by
  have hlen := roundup_aligned length
  have hlen' := roundup_lt length
  obtain ⟨new, rightVa, hright, hpast⟩ := mapRight_smooth (A := A) h hlen hlen'
  have hin (hpos : 0 < roundup length) : InRange start length (start / 4096) := by
    have hstart := h.aligned
    simp only [InRange]
    omega
  refine ⟨?_, fun x hx hanon ↦ ?_, ?_⟩
  · by_contra hgt
    rw [not_le] at hgt
    have hbound := h.vaEnd_eq
    have hlt := h.lt
    obtain ⟨t, ht⟩ := maps_past_end h hmem hlen hlen' hgt
    rw [hpast hgt] at hright
    exact not_removes h hmem (hin (by omega)) hmem h.anon h.covers hright ht hrem
  · by_contra hnot
    rw [not_or] at hnot
    obtain ⟨hne, hnot⟩ := hnot
    push Not at hnot
    obtain ⟨p, hp, hxp⟩ := hnot
    have hstays := mem_dropped h (A.apart_of_ne hmem h.anon hx hne) (List.mem_append_left new hx) hxp
    exact not_removes h hmem hp hx hanon hxp hright ⟨x, hstays, hxp, rfl⟩ hrem
  · by_contra hnot
    rw [not_or, not_or, not_not] at hnot
    obtain ⟨hpos, hva, hfirst⟩ := hnot
    exact not_removes h hmem (hin (by omega)) hmem h.anon h.covers hright
      ⟨m, mem_second hmem hva hfirst new, h.covers, rfl⟩ hrem

end Unsuitable

/-- A call of `munmap` at a page removes exactly its range, whatever the calls under it meet,
when the range is suitable, and only then. -/
theorem munmap_exact (A : AddressSpace) (page length : Nat) :
    (∀ ans, RemovesExactly A.ents (4096 * page) length
      (munmap A.ents (4096 * page) length ans)) ↔ Suitable A.ents (4096 * page) length := by
  have hstart : 4096 * page % 4096 = 0 := Nat.mul_mod_right _ _
  generalize 4096 * page = start at hstart ⊢
  constructor
  · intro hall
    have hsmooth := hall (smooth A.ents)
    cases hlookup : segmentLookup A.ents start with
    | none =>
      rw [munmap, if_neg (not_not.mpr hstart), if_neg (by simp [smooth]), hlookup] at hsmooth
      exact hsmooth.elim
    | some m =>
      refine ⟨m, hlookup, fun hanon ↦ ?_⟩
      have hmem := (segmentLookup_some hlookup).1
      have h := A.hit hlookup hstart hanon
      rw [munmap_found hlookup hstart rfl, if_pos hanon] at hsmooth
      exact suitable_of_removes h hmem hsmooth
  · rintro ⟨m, hlookup, hm⟩ ans
    have hmem := (segmentLookup_some hlookup).1
    cases hans : ans.lookup with
    | false =>
      rw [munmap, if_neg (not_not.mpr hstart), if_pos hans]
      exact trivial
    | true =>
      rw [munmap_found hlookup hstart hans]
      split_ifs with hanon
      · obtain ⟨hend, hothers, hfirst⟩ := hm hanon
        exact munmapAnon_removes (A.hit hlookup hstart hanon) hmem hend hothers hfirst
      · exact munmapFile_removes hlookup (by simpa using hanon)

def twoPages : AddressSpace where
  ents := [⟨⟨1, 10⟩, 0, 1, 0x406, 0x100000⟩, ⟨⟨1, 11⟩, 0, 1, 0x406, 0x101000⟩]
  valid := by
    intro x hx
    simp only [List.mem_cons, List.not_mem_nil, or_false] at hx
    rcases hx with rfl | rfl <;> constructor <;> decide
  apart := by decide

/-- Both pages are asked for, and one is removed; a range that starts where nothing is mapped
is undefined. -/
theorem munmap_misses :
    ¬RemovesExactly twoPages.ents 0x100000 0x2000
      (munmap twoPages.ents 0x100000 0x2000 (smooth twoPages.ents)) ∧
      munmap twoPages.ents 0x200000 0x1000 (smooth twoPages.ents) = .undefined := by
  have hcall : munmap twoPages.ents 0x100000 0x2000 (smooth twoPages.ents) =
      .done [⟨⟨1, 11⟩, 0, 1, 0x406, 0x101000⟩, ⟨⟨1, 10⟩, 2, 2 ^ 52 - 1, 0x406, 0x102000⟩] none := by
    decide +kernel
  refine ⟨?_, by decide +kernel⟩
  rw [hcall]
  intro hrem
  refine hrem.1 0x101 ⟨by decide, by decide⟩ ⟨⟨⟨1, 11⟩, 0, 1, 0x406, 0x101000⟩, ?_, ?_⟩ _
    ⟨⟨⟨1, 11⟩, 0, 1, 0x406, 0x101000⟩, List.mem_cons_self, ?_, rfl⟩
  · decide
  · exact ⟨by decide, by decide, by decide⟩
  · exact ⟨by decide, by decide⟩

end HiStar.Mmap
