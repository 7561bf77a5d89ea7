import HiStar.Dj.Key

namespace HiStar.Dj

structure DjCatMapping where
  gcat : DjGcat
  lcat : Nat
  resCt : Nat
  resGt : Nat
  deriving DecidableEq

/-- `dj_catmap_indexed`: the entries, which are in both tables, from the newest on. -/
abbrev DjCatmapIndexed := List DjCatMapping

namespace DjCatmapIndexed

variable (ih : Ihash DjCatMapping)

def g2l (m : DjCatmapIndexed) (gcat : DjGcat) : Option DjCatMapping :=
  ih.pick m fun e ↦ e.gcat.eq gcat

def l2g (m : DjCatmapIndexed) (lcat : Nat) : Option DjCatMapping :=
  ih.pick m fun e ↦ e.lcat = lcat

def insert (m : DjCatmapIndexed) (e : DjCatMapping) : DjCatmapIndexed :=
  if (m.g2l ih e.gcat).isSome && (m.l2g ih e.lcat).isSome then m else e :: m

def insertAll (m : DjCatmapIndexed) (cm : List DjCatMapping) : DjCatmapIndexed :=
  cm.foldl (insert ih) m

variable {ih} {m : DjCatmapIndexed} {e : DjCatMapping} {gcat : DjGcat} {lcat : Nat}

theorem g2l_mem (h : m.g2l ih gcat = some e) : e ∈ m ∧ e.gcat.key.type = .rabin ∧ e.gcat = gcat :=
  ⟨(ih.found h).1, DjGcat.eq_iff.mp (ih.found h).2⟩

theorem l2g_mem (h : m.l2g ih lcat = some e) : e ∈ m ∧ e.lcat = lcat :=
  ⟨(ih.found h).1, by simpa using (ih.found h).2⟩

theorem g2l_isSome (ih : Ihash DjCatMapping) (he : e ∈ m) (hkey : e.gcat.key.type = .rabin) :
    (m.g2l ih e.gcat).isSome = true := by
  cases hfind : m.g2l ih e.gcat with
  | some _ => rfl
  | none =>
    have := ih.missing hfind e he
    rw [DjGcat.eq_iff.mpr ⟨hkey, rfl⟩] at this
    cases this

theorem l2g_isSome (ih : Ihash DjCatMapping) (he : e ∈ m) : (m.l2g ih e.lcat).isSome = true := by
  cases hfind : m.l2g ih e.lcat with
  | some _ => rfl
  | none => simpa using ih.missing hfind e he

theorem insert_cases (ih : Ihash DjCatMapping) (m : DjCatmapIndexed) (e : DjCatMapping) :
    m.insert ih e = m ∨ m.insert ih e = e :: m ∧
      (m.g2l ih e.gcat = none ∨ m.l2g ih e.lcat = none) := by
  unfold insert
  split
  · exact .inl rfl
  · rename_i h
    refine .inr ⟨rfl, ?_⟩
    rw [Bool.and_eq_true, not_and_or] at h
    simpa using h

end DjCatmapIndexed

def PartialBijection (ih : Ihash DjCatMapping) (m : DjCatmapIndexed) : Prop :=
  ∀ gcat lcat, (m.g2l ih gcat).map (·.lcat) = some lcat ↔ (m.l2g ih lcat).map (·.gcat) = some gcat

/-- A mapping whose two categories are both in the map, or both new, and whose key can
be compared. -/
structure Paired (ih : Ihash DjCatMapping) (m : DjCatmapIndexed) (e : DjCatMapping) : Prop where
  rabin : e.gcat.key.type = .rabin
  both : (m.g2l ih e.gcat).isSome = true ↔ (m.l2g ih e.lcat).isSome = true

inductive PairedRun (ih : Ihash DjCatMapping) : DjCatmapIndexed → Prop
  | empty : PairedRun ih []
  | insert {m : DjCatmapIndexed} {e : DjCatMapping} (hm : PairedRun ih m) (he : Paired ih m e) :
      PairedRun ih (m.insert ih e)

structure Matching (m : DjCatmapIndexed) : Prop where
  rabin : ∀ e ∈ m, e.gcat.key.type = .rabin
  gcat : ∀ e ∈ m, ∀ f ∈ m, e.gcat = f.gcat → e = f
  lcat : ∀ e ∈ m, ∀ f ∈ m, e.lcat = f.lcat → e = f

namespace Matching

variable {ih : Ihash DjCatMapping} {m : DjCatmapIndexed} {e : DjCatMapping}

theorem unique_cons {β : Type} {key : DjCatMapping → β} (hnew : ∀ f ∈ m, key f ≠ key e)
    (hm : ∀ x ∈ m, ∀ y ∈ m, key x = key y → x = y) :
    ∀ x ∈ e :: m, ∀ y ∈ e :: m, key x = key y → x = y := by
  intro x hx y hy heq
  cases List.mem_cons.mp hx with
  | inl hxe =>
    cases List.mem_cons.mp hy with
    | inl hye => rw [hxe, hye]
    | inr hy => exact absurd (hxe ▸ heq.symm) (hnew y hy)
  | inr hx =>
    cases List.mem_cons.mp hy with
    | inl hye => exact absurd (hye ▸ heq) (hnew x hx)
    | inr hy => exact hm x hx y hy heq

theorem insert (hm : Matching m) (he : Paired ih m e) : Matching (m.insert ih e) := by
  rcases DjCatmapIndexed.insert_cases ih m e with hsame | ⟨hadd, hnew⟩
  · rwa [hsame]
  · rw [hadd]
    have hnone : m.g2l ih e.gcat = none ∧ m.l2g ih e.lcat = none := by
      have hboth := he.both
      rcases hnew with h | h <;> simpa [h] using hboth
    have hg : ∀ f ∈ m, f.gcat ≠ e.gcat := fun f hf heq ↦ by
      have := ih.missing hnone.1 f hf
      rw [DjGcat.eq_iff.mpr ⟨hm.rabin f hf, heq⟩] at this
      cases this
    have hl : ∀ f ∈ m, f.lcat ≠ e.lcat := fun f hf ↦ by simpa using ih.missing hnone.2 f hf
    exact ⟨List.forall_mem_cons.mpr ⟨he.rabin, hm.rabin⟩, unique_cons hg hm.gcat,
      unique_cons hl hm.lcat⟩

theorem g2l_iff (hm : Matching m) (gcat : DjGcat) (lcat : Nat) :
    (m.g2l ih gcat).map (·.lcat) = some lcat ↔ ∃ e ∈ m, e.gcat = gcat ∧ e.lcat = lcat := by
  simp only [Option.map_eq_some_iff]
  constructor
  · rintro ⟨e, he, rfl⟩
    obtain ⟨hmem, -, hg⟩ := DjCatmapIndexed.g2l_mem he
    exact ⟨e, hmem, hg, rfl⟩
  · rintro ⟨e, he, rfl, rfl⟩
    obtain ⟨f, hf⟩ := Option.isSome_iff_exists.mp
      (DjCatmapIndexed.g2l_isSome ih he (hm.rabin e he))
    obtain ⟨hmem, -, hg⟩ := DjCatmapIndexed.g2l_mem hf
    exact ⟨f, hf, by rw [hm.gcat f hmem e he hg]⟩

theorem l2g_iff (hm : Matching m) (gcat : DjGcat) (lcat : Nat) :
    (m.l2g ih lcat).map (·.gcat) = some gcat ↔ ∃ e ∈ m, e.gcat = gcat ∧ e.lcat = lcat := by
  simp only [Option.map_eq_some_iff]
  constructor
  · rintro ⟨e, he, rfl⟩
    obtain ⟨hmem, hl⟩ := DjCatmapIndexed.l2g_mem he
    exact ⟨e, hmem, rfl, hl⟩
  · rintro ⟨e, he, rfl, rfl⟩
    obtain ⟨f, hf⟩ := Option.isSome_iff_exists.mp (DjCatmapIndexed.l2g_isSome ih he)
    obtain ⟨hmem, hl⟩ := DjCatmapIndexed.l2g_mem hf
    exact ⟨f, hf, by rw [hm.lcat f hmem e he hl]⟩

end Matching

theorem PairedRun.matching {ih : Ihash DjCatMapping} {m : DjCatmapIndexed} (h : PairedRun ih m) :
    Matching m := by
  induction h with
  | empty => exact ⟨by simp, by simp, by simp⟩
  | insert _ he hmatch => exact hmatch.insert he

/-- While every mapping is paired, the two tables stay inverse to each other. -/
theorem catmap_partial_bijection {ih : Ihash DjCatMapping} {m : DjCatmapIndexed} (h : PairedRun ih m) :
    PartialBijection ih m := fun gcat lcat ↦
  (h.matching.g2l_iff gcat lcat).trans (h.matching.l2g_iff gcat lcat).symm

def secrecyCat (id : Nat) : DjGcat := ⟨⟨.rabin, 1⟩, id, false⟩

theorem catmap_two_mappings :
    PartialBijection .newest [⟨secrecyCat 2, 20, 0, 0⟩, ⟨secrecyCat 1, 10, 0, 0⟩] := by
  have h₁ : PairedRun .newest [⟨secrecyCat 1, 10, 0, 0⟩] :=
    .insert (e := ⟨secrecyCat 1, 10, 0, 0⟩) .empty ⟨rfl, by decide⟩
  have h₂ : PairedRun .newest [⟨secrecyCat 2, 20, 0, 0⟩, ⟨secrecyCat 1, 10, 0, 0⟩] :=
    .insert (e := ⟨secrecyCat 2, 20, 0, 0⟩) h₁ ⟨rfl, by decide⟩
  have h₃ : PairedRun .newest [⟨secrecyCat 2, 20, 0, 0⟩, ⟨secrecyCat 1, 10, 0, 0⟩] :=
    .insert (e := ⟨secrecyCat 1, 10, 0, 0⟩) h₂ ⟨rfl, by decide⟩
  exact catmap_partial_bijection h₃

/-- Two local categories for one global category. -/
theorem catmap_not_bijective : ¬PartialBijection .newest
    (DjCatmapIndexed.insertAll .newest [] [⟨secrecyCat 1, 10, 0, 0⟩, ⟨secrecyCat 1, 20, 0, 0⟩]) := by
  intro h
  have := (h (secrecyCat 1) 10).mpr (by decide)
  exact absurd this (by decide)

end HiStar.Dj
