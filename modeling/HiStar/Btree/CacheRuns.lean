import HiStar.Btree.Cache

namespace HiStar.Btree

open Lib Function

variable {α : Type} {c c' : Cache α} {v : View α} {t u : UInt64} {i j : Nat} {x : α}

structure Cache.Has (c : Cache α) (i : Nat) (t : UInt64) : Prop where
  lt : i < c.nEnt
  inuse : (c.cmeta i).inuse = true
  tag : (c.cmeta i).tag = t

structure Cache.Listed (c : Cache α) : Prop where
  nodup : c.lruStack.Nodup
  mem : ∀ i, i ∈ c.lruStack ↔ i < c.nEnt
  order : c.lruStack.Pairwise fun i j ↦ (c.cmeta i).inuse = true → (c.cmeta j).inuse = true

structure Inv (c : Cache α) (v : View α) : Prop where
  listed : c.Listed
  held : ∀ t i x, v.held t = some (i, x) ↔ c.Has i t ∧ c.buf i = x
  nonzero : ∀ i, ¬c.Has i 0
  refs : ∀ i t, c.Has i t → (c.cmeta i).ref.toNat = v.refs t
  idle : ∀ i < c.nEnt, (c.cmeta i).inuse = false → (c.cmeta i).ref = 0
  free : ∀ t, v.held t = none → v.refs t = 0

section Find

theorem find_some (h : c.find t = some i) : c.Has i t := by
  have hp := List.find?_some h
  have hmem := List.mem_range.mp (List.mem_of_find?_eq_some h)
  simp only [Bool.and_eq_true, decide_eq_true_eq] at hp
  exact ⟨hmem, hp.1, hp.2.symm⟩

theorem find_none (h : c.find t = none) (i : Nat) : ¬c.Has i t := by
  intro hi
  have hp := List.find?_eq_none.mp h i (List.mem_range.mpr hi.lt)
  simp [hi.inuse, hi.tag] at hp

theorem Inv.unique (h : Inv c v) (hi : c.Has i t) (hj : c.Has j t) : i = j := by
  have hi' := (h.held t i _).mpr ⟨hi, rfl⟩
  have hj' := (h.held t j _).mpr ⟨hj, rfl⟩
  rw [hi'] at hj'
  cases hj'
  rfl

theorem Inv.find_eq (h : Inv c v) (hi : c.Has i t) : c.find t = some i := by
  cases hf : c.find t with
  | none => exact absurd hi (find_none hf i)
  | some j => rw [h.unique (find_some hf) hi]

theorem Inv.find_eq_none (h : Inv c v) (hnone : v.held t = none) : c.find t = none := by
  cases hf : c.find t with
  | none => rfl
  | some j =>
    have hj := (h.held t j _).mpr ⟨find_some hf, rfl⟩
    rw [hnone] at hj
    cases hj

theorem Inv.held_none (h : Inv c v) (hnone : ∀ i, ¬c.Has i t) : v.held t = none := by
  cases hh : v.held t with
  | none => rfl
  | some e => exact absurd ((h.held t e.1 e.2).mp hh).1 (hnone e.1)

end Find

section Listed

variable {e : Cmeta}

theorem Cache.Listed.erase (h : c.Listed) (i : Nat) (e : Cmeta) :
    (c.lruStack.erase i).Pairwise fun a b ↦
      (update c.cmeta i e a).inuse = true → (update c.cmeta i e b).inuse = true := by
  refine (h.order.sublist List.erase_sublist).imp_of_mem fun ha hb hab ↦ ?_
  rw [update_of_ne (h.nodup.mem_erase_iff.mp ha).1, update_of_ne (h.nodup.mem_erase_iff.mp hb).1]
  exact hab

theorem Cache.Listed.mem_erase (h : c.Listed) (hi : i < c.nEnt) (j : Nat) :
    (j = i ∨ j ∈ c.lruStack.erase i) ↔ j < c.nEnt := by
  rw [h.nodup.mem_erase_iff, h.mem]
  constructor
  · rintro (rfl | ⟨-, hj⟩)
    · exact hi
    · exact hj
  · intro hj
    exact (eq_or_ne j i).imp_right fun hne ↦ ⟨hne, hj⟩

theorem Cache.Listed.toTail (h : c.Listed) (hi : i < c.nEnt) (he : e.inuse = true) :
    ((c.toTail i).setMeta i e).Listed where
  nodup := by
    rw [Cache.setMeta, Cache.toTail, List.nodup_append']
    exact ⟨h.nodup.erase i, List.nodup_singleton i,
      List.disjoint_singleton.mpr fun hmem ↦ (h.nodup.mem_erase_iff.mp hmem).1 rfl⟩
  mem j := by
    simp only [Cache.setMeta, Cache.toTail, List.mem_append, List.mem_singleton]
    rw [or_comm, h.mem_erase hi]
  order := by
    refine List.pairwise_append.mpr ⟨h.erase i e, List.pairwise_singleton _ _, fun a _ b hb _ ↦ ?_⟩
    simp only [Cache.setMeta, List.mem_singleton.mp hb, update_self, he]

theorem Cache.Listed.toHead (h : c.Listed) (hi : i < c.nEnt) (he : e.inuse = false) :
    ((c.setMeta i e).toHead i).Listed where
  nodup := List.nodup_cons.mpr
    ⟨fun hmem ↦ (h.nodup.mem_erase_iff.mp hmem).1 rfl, h.nodup.erase i⟩
  mem j := by
    simp only [Cache.setMeta, Cache.toHead, List.mem_cons]
    exact h.mem_erase hi j
  order := by
    refine List.pairwise_cons.mpr ⟨fun b _ hb ↦ ?_, h.erase i e⟩
    simp only [Cache.setMeta, Cache.toHead, update_self, he] at hb
    cases hb

theorem Cache.Listed.setMeta (h : c.Listed) (he : e.inuse = (c.cmeta i).inuse) :
    (c.setMeta i e).Listed where
  nodup := h.nodup
  mem := h.mem
  order := by
    have hsame : ∀ j, (update c.cmeta i e j).inuse = (c.cmeta j).inuse := fun j ↦ by
      by_cases hj : j = i
      · rw [hj, update_self, he]
      · rw [update_of_ne hj]
    simp only [Cache.setMeta, hsame]
    exact h.order

theorem Cache.Listed.inuse {rest : List Nat} (h : c.Listed) (hl : c.lruStack = i :: rest)
    (hi : (c.cmeta i).inuse = true) (hj : j < c.nEnt) : (c.cmeta j).inuse = true := by
  have hmem := (h.mem j).mpr hj
  have horder := h.order
  rw [hl] at hmem horder
  rcases List.mem_cons.mp hmem with rfl | hmem
  · exact hi
  · exact (List.pairwise_cons.mp horder).1 j hmem hi

end Listed

section Entries

variable {e : Cmeta}

theorem has_setMeta (hi : i < c.nEnt) (j : Nat) (u : UInt64) :
    (c.setMeta i e).Has j u ↔ (j = i ∧ e.inuse = true ∧ e.tag = u) ∨ (j ≠ i ∧ c.Has j u) := by
  by_cases hj : j = i
  · subst hj
    constructor
    · rintro ⟨-, hin, htag⟩
      simp only [Cache.setMeta, update_self] at hin htag
      exact .inl ⟨rfl, hin, htag⟩
    · rintro (⟨-, hin, htag⟩ | ⟨hne, -⟩)
      · exact ⟨hi, by simp only [Cache.setMeta, update_self, hin],
          by simp only [Cache.setMeta, update_self, htag]⟩
      · exact absurd rfl hne
  · constructor
    · rintro ⟨hlt, hin, htag⟩
      simp only [Cache.setMeta, update_of_ne hj] at hin htag
      exact .inr ⟨hj, hlt, hin, htag⟩
    · rintro (⟨rfl, -⟩ | ⟨-, hlt, hin, htag⟩)
      · exact absurd rfl hj
      · exact ⟨hlt, by simp only [Cache.setMeta, update_of_ne hj, hin],
          by simp only [Cache.setMeta, update_of_ne hj, htag]⟩

end Entries

section Steps

theorem held_assign (y : α) :
    (v.assign t i x).held u = some (j, y) ↔
      (u = t ∧ j = i ∧ x = y) ∨ (u ≠ t ∧ j ≠ i ∧ v.held u = some (j, y)) := by
  simp only [View.assign]
  split_ifs with hu
  · simp [hu, eq_comm]
  · simp only [Option.filter_eq_some_iff, decide_eq_true_eq, hu, false_and, ne_eq,
      not_false_eq_true, true_and, false_or]
    exact and_comm

theorem Inv.give (h : Inv c v) (hi : i < c.nEnt) (hfree : (c.cmeta i).ref = 0) (ht : t ≠ 0)
    (hnone : v.held t = none) (x : α) :
    Inv (((c.fill i x).toTail i).setMeta i ⟨true, 1, t⟩) ((v.assign t i x).acquire t) := by
  have hhas := has_setMeta (c := (c.fill i x).toTail i) (e := ⟨true, 1, t⟩) hi
  have hold : ∀ j u, ((c.fill i x).toTail i).Has j u ↔ c.Has j u := fun j u ↦
    ⟨fun h ↦ ⟨h.1, h.2, h.3⟩, fun h ↦ ⟨h.1, h.2, h.3⟩⟩
  have hnot : ∀ j, ¬c.Has j t := fun j hj ↦ by
    have := (h.held t j _).mpr ⟨hj, rfl⟩
    rw [hnone] at this
    cases this
  refine ⟨Cache.Listed.toTail (c := c.fill i x) ⟨h.listed.1, h.listed.2, h.listed.3⟩ hi rfl,
    fun u j y ↦ ?_, fun j hj ↦ ?_, fun j u hj ↦ ?_, fun j hj hin ↦ ?_, fun u hu ↦ ?_⟩
  · refine (held_assign y).trans ?_
    rw [hhas, hold, h.held]
    by_cases hj : j = i
    · subst hj
      simp [Cache.setMeta, Cache.toTail, Cache.fill, eq_comm]
    · have hu : c.Has j u → u ≠ t := fun hj hu ↦ hnot j (hu ▸ hj)
      simp only [Cache.setMeta, Cache.toTail, Cache.fill, update_of_ne hj, hj]
      tauto
  · rcases (hhas j 0).mp hj with ⟨-, -, hzero⟩ | ⟨-, hj⟩
    · exact ht hzero
    · exact h.nonzero j ((hold j 0).mp hj)
  · rcases (hhas j u).mp hj with ⟨rfl, -, rfl⟩ | ⟨hne, hj⟩
    · simp [Cache.setMeta, View.acquire, View.assign, h.free t hnone]
    · have hj := (hold j u).mp hj
      have hu : u ≠ t := fun hu ↦ hnot j (hu ▸ hj)
      simp only [Cache.setMeta, Cache.toTail, Cache.fill, update_of_ne hne, View.acquire,
        View.assign, update_of_ne hu]
      exact h.refs j u hj
  · by_cases hne : j = i
    · simp [hne, Cache.setMeta] at hin
    · simp only [Cache.setMeta, update_of_ne hne] at hin ⊢
      exact h.idle j hj hin
  · have hnever : ∀ j y, ¬(v.assign t i x).held u = some (j, y) := fun j y hj ↦ by
      rw [show (v.assign t i x).held u = none from hu] at hj
      cases hj
    simp only [held_assign, not_or, not_and] at hnever
    have hne : u ≠ t := fun hut ↦ (hnever i x).1 hut rfl rfl
    simp only [View.acquire, View.assign, update_of_ne hne]
    cases hheld : v.held u with
    | none => exact h.free u hheld
    | some e =>
      have hei : e.1 = i := not_not.mp fun hei ↦ (hnever e.1 e.2).2 hne hei hheld
      have hhas := ((h.held u e.1 e.2).mp hheld).1
      rw [← h.refs _ u hhas, hei, hfree]
      rfl

theorem Inv.recount (h : Inv c v) (hi : c.Has i t) {l : List Nat} {r : UInt16} {n : Nat}
    (hn : r.toNat = n) (hl : (Cache.setMeta i ⟨true, r, t⟩ { c with lruStack := l }).Listed) :
    Inv (Cache.setMeta i ⟨true, r, t⟩ { c with lruStack := l })
      { v with refs := update v.refs t n } := by
  have hhas : ∀ j u, (Cache.setMeta i ⟨true, r, t⟩ { c with lruStack := l }).Has j u ↔
      c.Has j u := fun j u ↦ by
    refine (has_setMeta (c := { c with lruStack := l }) hi.lt j u).trans ?_
    by_cases hj : j = i
    · subst hj
      exact ⟨fun h ↦ h.elim (fun h ↦ h.2.2 ▸ hi) fun h ↦ absurd rfl h.1,
        fun h ↦ .inl ⟨rfl, rfl, hi.tag.symm.trans h.tag⟩⟩
    · exact ⟨fun h ↦ h.elim (fun h ↦ absurd h.1 hj) fun h ↦ ⟨h.2.1, h.2.2, h.2.3⟩,
        fun h ↦ .inr ⟨hj, h.1, h.2, h.3⟩⟩
  refine ⟨hl, fun u j y ↦ ?_, fun j hj ↦ h.nonzero j ((hhas j 0).mp hj), fun j u hj ↦ ?_,
    fun j hj hin ↦ ?_, fun u hu ↦ ?_⟩
  · rw [hhas]
    exact h.held u j y
  · replace hj := (hhas j u).mp hj
    by_cases hne : j = i
    · subst hne
      obtain rfl : u = t := hj.tag.symm.trans hi.tag
      simp only [Cache.setMeta, update_self, hn]
    · have hu : u ≠ t := fun hu ↦ hne (h.unique hj (hu ▸ hi))
      simp only [Cache.setMeta, update_of_ne hne, update_of_ne hu]
      exact h.refs j u hj
  · by_cases hne : j = i
    · subst hne
      simp [Cache.setMeta] at hin
    · simp only [Cache.setMeta, update_of_ne hne] at hin ⊢
      exact h.idle j hj hin
  · have hut : u ≠ t := fun hut ↦ by
      have := (h.held t i _).mpr ⟨hi, rfl⟩
      rw [← hut, show v.held u = none from hu] at this
      cases this
    simp only [update_of_ne hut]
    exact h.free u hu

theorem Inv.remove (h : Inv c v) (hi : c.Has i t) (href : v.refs t = 1) (x : α) :
    Inv (((c.fill i x).setMeta i ⟨false, 0, 0⟩).toHead i) ((v.forget t).release t) := by
  have hhas : ∀ j u, (((c.fill i x).setMeta i ⟨false, 0, 0⟩).toHead i).Has j u ↔
      j ≠ i ∧ c.Has j u := fun j u ↦ by
    have := has_setMeta (c := c.fill i x) (e := ⟨false, 0, 0⟩) hi.lt j u
    simp only [Bool.false_eq_true, false_and, and_false, false_or] at this
    exact ⟨fun h ↦ let h := this.mp ⟨h.1, h.2, h.3⟩; ⟨h.1, h.2.1, h.2.2, h.2.3⟩,
      fun h ↦ let h := this.mpr ⟨h.1, h.2.1, h.2.2, h.2.3⟩; ⟨h.1, h.2, h.3⟩⟩
  refine ⟨Cache.Listed.toHead (c := c.fill i x) ⟨h.listed.1, h.listed.2, h.listed.3⟩ hi.lt rfl,
    fun u j y ↦ ?_, fun j hj ↦ h.nonzero j ((hhas j 0).mp hj).2, fun j u hj ↦ ?_,
    fun j hj hin ↦ ?_, fun u hu ↦ ?_⟩
  · rw [hhas]
    by_cases hu : u = t
    · subst hu
      simp only [View.release, View.forget, update_self]
      exact iff_of_false (by simp) fun hj ↦ hj.1.1 (h.unique hj.1.2 hi)
    · simp only [View.release, View.forget, update_of_ne hu, h.held]
      have hne : c.Has j u → j ≠ i := fun hj hji ↦ by
        subst hji
        exact hu (hj.tag.symm.trans hi.tag)
      by_cases hji : j = i
      · subst hji
        exact ⟨fun hj ↦ absurd rfl (hne hj.1), fun hj ↦ absurd rfl hj.1.1⟩
      · simp [Cache.toHead, Cache.setMeta, Cache.fill, hji]
  · obtain ⟨hne, hj⟩ := (hhas j u).mp hj
    have hu : u ≠ t := fun hu ↦ hne (h.unique hj (hu ▸ hi))
    simp only [Cache.toHead, Cache.setMeta, Cache.fill, update_of_ne hne, View.release,
      View.forget, update_of_ne hu]
    exact h.refs j u hj
  · by_cases hne : j = i
    · subst hne
      simp [Cache.toHead, Cache.setMeta]
    · simp only [Cache.toHead, Cache.setMeta, Cache.fill, update_of_ne hne] at hin ⊢
      exact h.idle j hj hin
  · by_cases hut : u = t
    · subst hut
      simp [View.release, View.forget, href]
    · simp only [View.release, View.forget, update_of_ne hut] at hu ⊢
      exact h.free u hu

theorem Inv.store (h : Inv c v) (hi : c.Has i t) (y : α) : Inv (c.fill i y) (v.store t i y) := by
  have hhas : ∀ j u, (c.fill i y).Has j u ↔ c.Has j u := fun j u ↦
    ⟨fun h ↦ ⟨h.1, h.2, h.3⟩, fun h ↦ ⟨h.1, h.2, h.3⟩⟩
  refine ⟨⟨h.listed.1, h.listed.2, h.listed.3⟩, fun u j z ↦ ?_,
    fun j hj ↦ h.nonzero j ((hhas j 0).mp hj), fun j u hj ↦ h.refs j u ((hhas j u).mp hj),
    h.idle, fun u hu ↦ ?_⟩
  · rw [hhas]
    by_cases hu : u = t
    · subst hu
      simp only [View.store, update_self, Option.some.injEq, Prod.mk.injEq]
      constructor
      · rintro ⟨rfl, rfl⟩
        exact ⟨hi, by simp [Cache.fill]⟩
      · rintro ⟨hj, rfl⟩
        obtain rfl := h.unique hi hj
        exact ⟨rfl, by simp [Cache.fill]⟩
    · simp only [View.store, update_of_ne hu, h.held]
      refine and_congr_right fun hj ↦ ?_
      have hji : j ≠ i := fun hji ↦ by
        subst hji
        exact hu (hj.tag.symm.trans hi.tag)
      simp [Cache.fill, hji]
  · by_cases hut : u = t
    · subst hut
      simp [View.store] at hu
    · simp only [View.store, update_of_ne hut] at hu ⊢
      exact h.free u hu

end Steps

end HiStar.Btree
