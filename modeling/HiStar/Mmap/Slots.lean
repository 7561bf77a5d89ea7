import HiStar.Mmap.Munmap

namespace HiStar.Mmap

def Maps (ents : List Mapping) (page : Nat) (t : CobjRef × Nat × UInt32) : Prop :=
  ∃ x ∈ ents, x.Covers page ∧ x.translate page = t

section Maps

variable {l r ents : List Mapping} {x m e : Mapping} {p : Nat} {t : CobjRef × Nat × UInt32}

theorem maps_cons : Maps (x :: l) p t ↔ (x.Covers p ∧ x.translate p = t) ∨ Maps l p t := by
  simp only [Maps, List.exists_mem_cons_iff]

theorem maps_append : Maps (l ++ r) p t ↔ Maps l p t ∨ Maps r p t := by
  simp only [Maps, List.mem_append, or_and_right, exists_or]

theorem maps_congr (h : ∀ x, x ∈ l ↔ x ∈ r) : Maps l p t ↔ Maps r p t := by
  simp only [Maps, h]

theorem not_covers (h : x.vaEnd ≤ x.va) : ¬x.Covers p := by
  intro hp
  have := hp.1.trans_lt hp.2
  omega

theorem Mapping.Valid.vaEnd_eq (h : x.Valid) (hx : x.va < x.vaEnd) :
    x.vaEnd = x.va + x.numPages * 4096 ∧ x.va + x.numPages * 4096 < 2 ^ 64 := by
  have hva := h.va_lt
  have hpages := h.pages_lt
  simp only [Mapping.vaEnd] at hx ⊢
  omega

end Maps

section Replace

variable {l r ents : List Mapping} {x m e : Mapping} {p : Nat} {t : CobjRef × Nat × UInt32}

/-- A mapping that `segment_map` breaks up only if it has no pages. -/
def Harmless (e x : Mapping) : Prop := conflicts e x = true → x.vaEnd ≤ x.va

theorem conflicts_iff : conflicts e x = true ↔ x.va < e.vaEnd ∧ e.va < x.vaEnd := by
  simp [conflicts]

theorem Harmless.breakUp (h : Harmless e x) (hc : conflicts e x = true) : breakUp e x = [] := by
  have hx := h hc
  rw [conflicts_iff] at hc
  rw [Mmap.breakUp, if_neg (by omega), if_neg (by omega)]
  rfl

theorem Harmless.va_ne (h : Harmless e x) (hc : conflicts e x = true) : x.va ≠ e.va := by
  have hx := h hc
  rw [conflicts_iff] at hc
  omega

theorem replaceIn_cons (h : Harmless e x) (found : Bool) :
    Maps (replaceIn e (x :: ents) found) p t ↔
      (x.Covers p ∧ x.translate p = t) ∨ Maps (replaceIn e ents found) p t := by
  rw [replaceIn]
  by_cases hc : conflicts e x = true
  · rw [if_pos hc, if_neg fun hm ↦ h.va_ne hc hm.1, h.breakUp hc, List.nil_append]
    have hnone : ¬(x.Covers p ∧ x.translate p = t) := fun hx ↦ not_covers (h hc) hx.1
    rw [or_iff_right hnone]
  · rw [if_neg hc, maps_cons]

theorem maps_replaceIn_rest (h : ∀ x ∈ ents, Harmless e x) :
    Maps (replaceIn e ents true) p t ↔ Maps ents p t := by
  induction ents with
  | nil => rfl
  | cons x ents ih =>
    rw [List.forall_mem_cons] at h
    rw [replaceIn_cons h.1, maps_cons, ih h.2]

theorem maps_replaceIn_found (h : ∀ x ∈ l, Harmless e x) (hm : conflicts e m = true)
    (hva : m.va = e.va) (hstart : m.startPage = e.startPage) :
    Maps (replaceIn e (l ++ m :: r) false) p t ↔ Maps (l ++ e :: replaceIn e r true) p t := by
  induction l with
  | nil =>
    rw [List.nil_append, replaceIn, if_pos hm, if_pos ⟨hva, hstart, rfl⟩, List.nil_append]
  | cons x l ih =>
    rw [List.forall_mem_cons] at h
    rw [List.cons_append, replaceIn_cons h.1, ih h.2, List.cons_append, maps_cons]

theorem maps_replaceIn (h : ∀ x ∈ l ++ r, Harmless e x) (hm : conflicts e m = true)
    (hva : m.va = e.va) (hstart : m.startPage = e.startPage) :
    Maps (replaceIn e (l ++ m :: r) false) p t ↔ Maps (e :: (l ++ r)) p t := by
  rw [List.forall_mem_append] at h
  rw [maps_replaceIn_found h.1 hm hva hstart]
  simp only [maps_append, maps_cons, maps_replaceIn_rest h.2]
  exact or_left_comm

theorem mem_replaceIn (hx : x ∈ ents) (hc : conflicts e x = false) (found : Bool) :
    x ∈ replaceIn e ents found := by
  induction ents generalizing found with
  | nil => exact absurd hx List.not_mem_nil
  | cons y ents ih =>
    rw [replaceIn]
    rcases List.mem_cons.mp hx with rfl | hx
    · rw [if_neg (by simp [hc])]
      exact List.mem_cons_self
    · split_ifs
      · exact List.mem_cons_of_mem _ (ih hx _)
      · exact List.mem_append_right _ (ih hx _)
      · exact List.mem_cons_of_mem _ (ih hx _)

theorem covers_replaceIn_rest (hx : x ∈ ents) (hp : x.Covers p) (he : e.vaEnd ≤ 4096 * p)
    (hx64 : x.vaEnd < 2 ^ 64) (halign : x.vaEnd % 4096 = 0) (halign' : e.vaEnd % 4096 = 0) :
    ∃ t, Maps (replaceIn e ents true) p t := by
  induction ents with
  | nil => exact absurd hx List.not_mem_nil
  | cons y ents ih =>
    rw [replaceIn]
    rcases List.mem_cons.mp hx with rfl | hx
    · by_cases hc : conflicts e x = true
      · have hlt : e.vaEnd < x.vaEnd := he.trans_lt hp.2
        have hpiece : ({ x with
            va := e.vaEnd
            startPage := x.startPage + (e.vaEnd - x.va) / 4096
            numPages := (x.vaEnd - e.vaEnd) / 4096 } : Mapping).Covers p := by
          refine ⟨he, ?_⟩
          have hend := hp.2
          have hsum : e.vaEnd + (x.vaEnd - e.vaEnd) / 4096 * 4096 = x.vaEnd := by omega
          rw [Mapping.vaEnd, hsum, Nat.mod_eq_of_lt hx64]
          exact hend
        rw [if_pos hc, if_neg (by simp), Mmap.breakUp, if_pos hlt]
        exact ⟨_, _, List.mem_cons_self, hpiece, rfl⟩
      · rw [if_neg hc]
        exact ⟨_, x, List.mem_cons_self, hp, rfl⟩
    · obtain ⟨t, z, hz, hzt⟩ := ih hx
      refine ⟨t, z, ?_, hzt⟩
      split_ifs
      · simp_all
      · exact List.mem_append_right _ hz
      · exact List.mem_cons_of_mem _ hz

end Replace

section Insert

variable {l r : List Mapping} {m new : Mapping}

theorem insert_split (l r : List Mapping) (m new : Mapping) (i : Nat) :
    ∃ l' r', (l ++ m :: r).take i ++ new :: (l ++ m :: r).drop i = l' ++ m :: r' ∧
      (∀ x ∈ l', x = new ∨ x ∈ l) ∧ ∀ x, x ∈ l' ++ r' ↔ x ∈ new :: (l ++ r) := by
  rcases le_or_gt i l.length with hi | hi
  · refine ⟨l.take i ++ new :: l.drop i, r, ?_, ?_, ?_⟩
    · rw [List.take_append_of_le_length hi, List.drop_append_of_le_length hi]
      simp
    · intro x hx
      rcases List.mem_append.mp hx with hx | hx
      · exact .inr (List.mem_of_mem_take hx)
      · exact (List.mem_cons.mp hx).imp_right List.mem_of_mem_drop
    · intro x
      have hl : x ∈ l ↔ x ∈ l.take i ∨ x ∈ l.drop i := by
        rw [← List.mem_append, List.take_append_drop]
      simp only [List.mem_append, List.mem_cons, hl]
      tauto
  · obtain ⟨j, rfl⟩ : ∃ j, i = l.length + (j + 1) := ⟨i - l.length - 1, by omega⟩
    refine ⟨l, r.take j ++ new :: r.drop j, ?_, fun x hx ↦ .inr hx, ?_⟩
    · rw [List.take_length_add_append, List.drop_length_add_append]
      simp
    · intro x
      have hr : x ∈ r ↔ x ∈ r.take j ∨ x ∈ r.drop j := by
        rw [← List.mem_append, List.take_append_drop]
      simp only [List.mem_append, List.mem_cons, hr]
      tauto

end Insert

end HiStar.Mmap
