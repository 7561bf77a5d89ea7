import Mathlib.Tactic

namespace HiStar.Lib

open Function

variable {η ν : Type}

/-- The links of a family of doubly linked lists with heads in `η` and nodes in `ν`.
A node refers back to the place that points to it: a head, or the node before. Nodes
that have been taken out keep their links. -/
structure Links (η ν : Type) where
  first : η → Option ν
  next : ν → Option ν
  prev : ν → η ⊕ ν

namespace Links

def deref (L : Links η ν) : η ⊕ ν → Option ν
  | .inl h => L.first h
  | .inr x => L.next x

/-- `L` has the nodes `l` in this order behind the place `src`. -/
def Seg (L : Links η ν) : η ⊕ ν → List ν → Prop
  | src, [] => L.deref src = none
  | src, x :: l => L.deref src = some x ∧ L.prev x = src ∧ L.Seg (.inr x) l

instance decidableSeg [DecidableEq η] [DecidableEq ν] (L : Links η ν) :
    ∀ src l, Decidable (L.Seg src l)
  | src, [] => inferInstanceAs (Decidable (L.deref src = none))
  | src, x :: l =>
    have := decidableSeg L (.inr x) l
    inferInstanceAs (Decidable (L.deref src = some x ∧ L.prev x = src ∧ L.Seg (.inr x) l))

section Seg

variable {L L' : Links η ν} {x : ν} {src : η ⊕ ν} {l l' : List ν}

theorem Seg.congr (hs : L.Seg src l) (hsrc : L'.deref src = L.deref src)
    (hnext : ∀ y ∈ l, L'.next y = L.next y) (hprev : ∀ y ∈ l, L'.prev y = L.prev y) :
    L'.Seg src l := by
  induction l generalizing src with
  | nil => exact hsrc.trans hs
  | cons x l ih =>
    refine ⟨hsrc.trans hs.1, (hprev x List.mem_cons_self).trans hs.2.1, ?_⟩
    exact ih hs.2.2 (hnext x List.mem_cons_self) (fun y hy ↦ hnext y (List.mem_cons_of_mem x hy))
      fun y hy ↦ hprev y (List.mem_cons_of_mem x hy)

theorem Seg.head (hs : L.Seg src l) : L.deref src = l.head? := by
  cases l with
  | nil => exact hs
  | cons x l => exact hs.1

theorem Seg.drop (hs : L.Seg src (l ++ x :: l')) : L.Seg (.inr x) l' := by
  induction l generalizing src with
  | nil => exact hs.2.2
  | cons y l ih => exact ih hs.2.2

theorem Seg.next_eq (hs : L.Seg src (l ++ x :: l')) : L.next x = l'.head? := hs.drop.head

theorem Seg.prev_cases (hs : L.Seg src (l ++ x :: l')) :
    l = [] ∧ L.prev x = src ∨ ∃ y ∈ l, L.prev x = .inr y := by
  induction l generalizing src with
  | nil => exact .inl ⟨rfl, hs.2.1⟩
  | cons y l ih =>
    right
    rcases ih hs.2.2 with ⟨-, hp⟩ | ⟨z, hz, hp⟩
    · exact ⟨y, List.mem_cons_self, hp⟩
    · exact ⟨z, List.mem_cons_of_mem y hz, hp⟩

theorem Seg.next_ne (hs : L.Seg src (l ++ x :: l')) (hnd : (l ++ x :: l').Nodup) :
    L.next x ≠ some x := by
  rw [hs.next_eq]
  intro hx
  have hmem : x ∈ l' := List.mem_of_mem_head? hx
  exact (List.nodup_cons.mp (List.nodup_append.mp hnd).2.1).1 hmem

theorem Seg.unique (hs : L.Seg src l) (hs' : L.Seg src l') : l = l' := by
  induction l generalizing src l' with
  | nil =>
    cases l' with
    | nil => rfl
    | cons y l' => cases hs.symm.trans hs'.1
  | cons x l ih =>
    cases l' with
    | nil => cases hs'.symm.trans hs.1
    | cons y l' =>
      cases Option.some.inj (hs.1.symm.trans hs'.1)
      rw [ih hs.2.2 hs'.2.2]

end Seg

/-- The node `x` is found on the way from the head `h`. -/
def On (L : Links η ν) (h : η) (x : ν) : Prop := ∃ l, L.Seg (.inl h) l ∧ x ∈ l

variable [DecidableEq ν]

def setPrev (x : Option ν) (src : η ⊕ ν) (L : Links η ν) : Links η ν :=
  match x with
  | none => L
  | some y => { L with prev := update L.prev y src }

variable [DecidableEq η]

def store (src : η ⊕ ν) (v : Option ν) (L : Links η ν) : Links η ν :=
  match src with
  | .inl h => { L with first := update L.first h v }
  | .inr x => { L with next := update L.next x v }

def insertHead (h : η) (x : ν) (L : Links η ν) : Links η ν :=
  (((L.store (.inr x) (L.first h)).setPrev (L.first h) (.inr x)).store (.inl h) (some x)).setPrev
    (some x) (.inl h)

def remove (x : ν) (L : Links η ν) : Links η ν :=
  (L.setPrev (L.next x) (L.prev x)).store ((L.setPrev (L.next x) (L.prev x)).prev x) (L.next x)

variable {L : Links η ν} {f : η → List ν} {h : η} {x y : ν} {src : η ⊕ ν} {l l' : List ν}

theorem deref_store (src src' : η ⊕ ν) (v : Option ν) :
    (L.store src v).deref src' = if src' = src then v else L.deref src' := by
  cases src <;> cases src' <;> simp [store, deref, update_apply]

@[simp] theorem store_prev (src : η ⊕ ν) (v : Option ν) : (L.store src v).prev = L.prev := by
  cases src <;> rfl

omit [DecidableEq η] in
@[simp] theorem setPrev_deref (x : Option ν) (src src' : η ⊕ ν) :
    (L.setPrev x src).deref src' = L.deref src' := by
  cases x <;> cases src' <;> rfl

omit [DecidableEq η] in
theorem setPrev_prev (x : Option ν) (src : η ⊕ ν) (y : ν) :
    (L.setPrev x src).prev y = if x = some y then src else L.prev y := by
  cases x with
  | none => rfl
  | some z => simp [setPrev, update_apply, eq_comm]

theorem remove_prev (y : ν) :
    (L.remove x).prev y = if L.next x = some y then L.prev x else L.prev y := by
  rw [remove, store_prev, setPrev_prev]

theorem remove_deref (hx : L.next x ≠ some x) (src : η ⊕ ν) :
    (L.remove x).deref src = if src = L.prev x then L.next x else L.deref src := by
  rw [remove, deref_store, setPrev_deref, setPrev_prev, if_neg hx]

theorem Seg.remove (hs : L.Seg src (l ++ x :: l')) (hnd : (l ++ x :: l').Nodup)
    (hsrc : ∀ y ∈ l ++ x :: l', src ≠ .inr y) : (L.remove x).Seg src (l ++ l') := by
  have hne := hs.next_ne hnd
  have hnext := hs.next_eq
  induction l generalizing src with
  | nil =>
    obtain ⟨-, hprev, hrest⟩ := hs
    have hhead : (L.remove x).deref src = l'.head? := by
      rw [remove_deref hne, if_pos hprev.symm, hnext]
    cases l' with
    | nil => exact hhead
    | cons y l' =>
      rw [List.head?_cons] at hnext
      rw [List.nil_append, List.nodup_cons, List.nodup_cons] at hnd
      refine ⟨hhead, by rw [remove_prev, if_pos hnext, hprev], ?_⟩
      refine hrest.2.2.congr ?_ (fun z hz ↦ ?_) fun z hz ↦ ?_
      · rw [remove_deref hne, if_neg]
        rw [hprev]
        exact (hsrc y (by simp)).symm
      · have := remove_deref hne (.inr z)
        rw [if_neg (by rw [hprev]; exact (hsrc z (by simp [hz])).symm)] at this
        exact this
      · rw [remove_prev, hnext, if_neg]
        rintro ⟨⟩
        exact hnd.2.1 hz
  | cons z l ih =>
    obtain ⟨hd, hp, hrest⟩ := hs
    rw [List.cons_append, List.nodup_cons] at hnd
    have hz : L.next x ≠ some z := by
      rw [hnext]
      intro hz
      exact hnd.1 (List.mem_append_right l (List.mem_cons_of_mem x (List.mem_of_mem_head? hz)))
    refine ⟨?_, ?_, ih hrest hnd.2 fun y hy hzy ↦ ?_⟩
    · rw [remove_deref hne, if_neg, hd]
      rintro rfl
      rcases hrest.prev_cases with ⟨-, hpx⟩ | ⟨w, hw, hpx⟩
      · exact hsrc z (by simp) hpx
      · exact hsrc w (by simp [hw]) hpx
    · rw [remove_prev, if_neg hz, hp]
    · cases hzy
      exact hnd.1 hy

structure Lists (L : Links η ν) (f : η → List ν) : Prop where
  seg : ∀ h, L.Seg (.inl h) (f h)
  nodup : ∀ h, (f h).Nodup
  disjoint : ∀ h h' x, x ∈ f h → x ∈ f h' → h = h'

namespace Lists

omit [DecidableEq ν] [DecidableEq η] in
theorem on_iff (hL : Lists L f) : L.On h x ↔ x ∈ f h :=
  ⟨fun ⟨_, hs, hx⟩ ↦ hs.unique (hL.seg h) ▸ hx, fun hx ↦ ⟨f h, hL.seg h, hx⟩⟩

theorem remove_next (hL : Lists L f) (hx : x ∈ f h) (hy : y ∉ f h ∨ y = x) :
    (L.remove x).next y = L.next y := by
  obtain ⟨l, l', hl⟩ := List.append_of_mem hx
  have hs := hL.seg h
  have hnd := hL.nodup h
  rw [hl] at hs hnd
  have hd := remove_deref (hs.next_ne hnd) (.inr y)
  rw [if_neg] at hd
  · exact hd
  · intro hp
    rcases hs.prev_cases with ⟨-, hpx⟩ | ⟨z, hz, hpx⟩
    · rw [hpx] at hp
      cases hp
    · rw [hpx] at hp
      cases hp
      rcases hy with hy | rfl
      · exact hy (hl ▸ List.mem_append_left _ hz)
      · exact (List.nodup_append.mp hnd).2.2 y hz y List.mem_cons_self rfl

theorem remove (hL : Lists L f) (hx : f h = l ++ x :: l') :
    Lists (L.remove x) (update f h (l ++ l')) := by
  have hs := hL.seg h
  have hnd := hL.nodup h
  rw [hx] at hs hnd
  have hmem : x ∈ f h := by simp [hx]
  have hsub : ∀ y, y ∈ l ++ l' → y ∈ f h := by
    intro y hy
    rw [hx]
    rcases List.mem_append.mp hy with hy | hy
    · exact List.mem_append_left _ hy
    · exact List.mem_append_right l (List.mem_cons_of_mem x hy)
  refine ⟨fun h' ↦ ?_, fun h' ↦ ?_, fun h₁ h₂ y h₁y h₂y ↦ ?_⟩
  · by_cases hh : h' = h
    · rw [hh, update_self]
      exact hs.remove hnd fun y _ ↦ by simp
    · rw [update_of_ne hh]
      have hout : ∀ y ∈ f h', y ∉ f h := fun y hy hy' ↦ hh (hL.disjoint h' h y hy hy')
      refine (hL.seg h').congr ?_ (fun y hy ↦ hL.remove_next hmem (.inl (hout y hy)))
        fun y hy ↦ ?_
      · rw [remove_deref (hs.next_ne hnd), if_neg]
        rcases hs.prev_cases with ⟨-, hpx⟩ | ⟨z, -, hpx⟩ <;> rw [hpx]
        · exact fun he ↦ hh (Sum.inl.inj he)
        · exact Sum.inl_ne_inr
      · rw [remove_prev, if_neg]
        rw [hs.next_eq]
        intro hy'
        refine hout y hy (hsub y (List.mem_append_right l (List.mem_of_mem_head? hy')))
  · by_cases hh : h' = h
    · rw [hh, update_self]
      exact hnd.sublist (List.Sublist.append_left (List.sublist_cons_self x l') l)
    · rw [update_of_ne hh]
      exact hL.nodup h'
  · have hin : ∀ h' y, y ∈ update f h (l ++ l') h' → y ∈ f h' := by
      intro h' y hy
      by_cases hh : h' = h
      · rw [hh, update_self] at hy
        rw [hh]
        exact hsub y hy
      · rwa [update_of_ne hh] at hy
    exact hL.disjoint h₁ h₂ y (hin h₁ y h₁y) (hin h₂ y h₂y)

theorem insertHead_deref (src : η ⊕ ν) : (L.insertHead h x).deref src =
    if src = .inl h then some x else if src = .inr x then L.first h else L.deref src := by
  rw [insertHead, setPrev_deref, deref_store, setPrev_deref, deref_store]

theorem insertHead_prev (y : ν) : (L.insertHead h x).prev y =
    if x = y then .inl h else if L.first h = some y then .inr x else L.prev y := by
  rw [insertHead, setPrev_prev, store_prev, setPrev_prev, store_prev]
  simp

theorem insertHead (hL : Lists L f) (hx : ∀ h', x ∉ f h') :
    Lists (L.insertHead h x) (update f h (x :: f h)) := by
  have hfirst : L.first h = (f h).head? := (hL.seg h).head
  have hnext : ∀ y, y ≠ x → (L.insertHead h x).next y = L.next y := by
    intro y hy
    have := insertHead_deref (L := L) (h := h) (x := x) (.inr y)
    rwa [if_neg (by simp), if_neg (by simpa using hy)] at this
  have hne : ∀ h' y, y ∈ f h' → y ≠ x := by
    rintro h' y hy rfl
    exact hx h' hy
  refine ⟨fun h' ↦ ?_, fun h' ↦ ?_, fun h₁ h₂ y h₁y h₂y ↦ ?_⟩
  · by_cases hh : h' = h
    · subst hh
      rw [update_self]
      have hs := hL.seg h'
      have hnd := hL.nodup h'
      have hne' := hne h'
      refine ⟨by rw [insertHead_deref, if_pos rfl], by rw [insertHead_prev, if_pos rfl], ?_⟩
      have hd : (L.insertHead h' x).deref (.inr x) = (f h').head? := by
        rw [insertHead_deref, if_neg Sum.inr_ne_inl, if_pos rfl, hfirst]
      generalize f h' = l at hs hnd hfirst hd hne'
      cases l with
      | nil => exact hd
      | cons y l =>
        refine ⟨hd, ?_, hs.2.2.congr (hnext y (hne' y (by simp))) (fun z hz ↦ ?_) fun z hz ↦ ?_⟩
        · rw [insertHead_prev, if_neg (hne' y (by simp)).symm, if_pos (by simpa using hfirst)]
        · exact hnext z (hne' z (by simp [hz]))
        · rw [insertHead_prev, if_neg (hne' z (by simp [hz])).symm, hfirst, if_neg]
          rintro ⟨⟩
          exact (List.nodup_cons.mp hnd).1 hz
    · rw [update_of_ne hh]
      refine (hL.seg h').congr ?_ (fun y hy ↦ hnext y (hne h' y hy)) fun y hy ↦ ?_
      · rw [insertHead_deref, if_neg fun he ↦ hh (Sum.inl.inj he), if_neg Sum.inl_ne_inr]
      · rw [insertHead_prev, if_neg (hne h' y hy).symm, if_neg]
        rw [hfirst]
        exact fun he ↦ hh (hL.disjoint h' h y hy (List.mem_of_mem_head? he))
  · by_cases hh : h' = h
    · rw [hh, update_self]
      exact List.nodup_cons.mpr ⟨hx h, hL.nodup h⟩
    · rw [update_of_ne hh]
      exact hL.nodup h'
  · have hin : ∀ h' y, y ∈ update f h (x :: f h) h' → y = x ∧ h' = h ∨ y ∈ f h' := by
      intro h' y hy
      by_cases hh : h' = h
      · rw [hh, update_self] at hy
        rw [hh]
        exact (List.mem_cons.mp hy).imp_left fun he ↦ ⟨he, rfl⟩
      · rw [update_of_ne hh] at hy
        exact .inr hy
    rcases hin h₁ y h₁y with ⟨rfl, rfl⟩ | h₁y
    · rcases hin h₂ y h₂y with ⟨-, rfl⟩ | h₂y
      · rfl
      · exact absurd h₂y (hx h₂)
    · rcases hin h₂ y h₂y with ⟨rfl, rfl⟩ | h₂y
      · exact absurd ‹y ∈ f h₁› (hx h₁)
      · exact hL.disjoint h₁ h₂ y h₁y h₂y

theorem insertAll {bk : ν → η} {xs : List ν} (hL : Lists L f) (hnd : xs.Nodup)
    (hx : ∀ x ∈ xs, ∀ h, x ∉ f h) :
    Lists (xs.foldl (fun L x ↦ L.insertHead (bk x) x) L)
      fun h ↦ xs.reverse.filter (bk · = h) ++ f h := by
  induction xs generalizing L f with
  | nil => exact hL
  | cons x xs ih =>
    rw [List.nodup_cons] at hnd
    have hL' := hL.insertHead (h := bk x) (hx x List.mem_cons_self)
    have hrest : (fun h ↦ xs.reverse.filter (bk · = h) ++ update f (bk x) (x :: f (bk x)) h) =
        fun h ↦ (x :: xs).reverse.filter (bk · = h) ++ f h := by
      funext h
      by_cases hh : h = bk x
      · simp [hh, List.filter_append]
      · simp [update_of_ne hh, List.filter_append, Ne.symm hh]
    rw [← hrest]
    refine ih hL' hnd.2 fun y hy h hm ↦ ?_
    by_cases hh : h = bk x
    · rw [hh, update_self] at hm
      rcases List.mem_cons.mp hm with rfl | hm
      · exact hnd.1 hy
      · exact hx y (List.mem_cons_of_mem x hy) _ hm
    · rw [update_of_ne hh] at hm
      exact hx y (List.mem_cons_of_mem x hy) h hm

/-- Several nodes that follow each other in each of their lists are taken out from the
last one to the first. Each of them then still points to what follows them all. -/
theorem removeAll {A C : η → List ν} {bk : ν → η} {xs : List ν}
    (hL : Lists L fun h ↦ A h ++ xs.reverse.filter (bk · = h) ++ C h) :
    Lists (xs.foldl (fun L x ↦ L.remove x) L) (fun h ↦ A h ++ C h) ∧
    (∀ x ∈ xs, (xs.foldl (fun L x ↦ L.remove x) L).next x = (C (bk x)).head?) ∧
    ∀ y, (∀ h, y ∉ A h ++ xs.reverse.filter (bk · = h) ++ C h) →
      (xs.foldl (fun L x ↦ L.remove x) L).next y = L.next y := by
  induction xs generalizing L with
  | nil =>
    simp only [List.reverse_nil, List.filter_nil, List.append_nil] at hL
    exact ⟨hL, fun x hx ↦ absurd hx (List.not_mem_nil), fun _ _ ↦ rfl⟩
  | cons x xs ih =>
    have hat : A (bk x) ++ (x :: xs).reverse.filter (bk · = bk x) ++ C (bk x) =
        (A (bk x) ++ xs.reverse.filter (bk · = bk x)) ++ x :: C (bk x) := by
      simp [List.filter_append]
    have hrest : update (fun h ↦ A h ++ (x :: xs).reverse.filter (bk · = h) ++ C h) (bk x)
        ((A (bk x) ++ xs.reverse.filter (bk · = bk x)) ++ C (bk x)) =
        fun h ↦ A h ++ xs.reverse.filter (bk · = h) ++ C h := by
      funext h
      by_cases hh : h = bk x
      · rw [hh, update_self]
      · rw [update_of_ne hh]
        simp [List.filter_append, Ne.symm hh]
    have hL' := hL.remove hat
    rw [hrest] at hL'
    obtain ⟨h1, h2, h3⟩ := ih hL'
    have hmem : x ∈ A (bk x) ++ (x :: xs).reverse.filter (bk · = bk x) ++ C (bk x) := by
      simp
    have hout : ∀ h, x ∉ A h ++ xs.reverse.filter (bk · = h) ++ C h := by
      intro h hx
      by_cases hh : h = bk x
      · subst hh
        have hnd := hL.nodup (bk x)
        rw [hat, List.nodup_middle, List.nodup_cons] at hnd
        exact hnd.1 hx
      · refine hh (hL.disjoint h (bk x) x ?_ hmem)
        simpa [List.filter_append, Ne.symm hh] using hx
    refine ⟨h1, fun y hy ↦ ?_, fun y hy ↦ ?_⟩
    · rcases List.mem_cons.mp hy with rfl | hy
      · rw [List.foldl_cons, h3 y hout, hL.remove_next hmem (.inr rfl)]
        have hs := hL.seg (bk y)
        rw [hat] at hs
        exact hs.next_eq
      · exact h2 y hy
    · have hy' : ∀ h, y ∉ A h ++ xs.reverse.filter (bk · = h) ++ C h := by
        intro h hm
        refine hy h ?_
        rw [List.reverse_cons, List.filter_append]
        simp only [List.mem_append] at hm ⊢
        tauto
      rw [List.foldl_cons, h3 y hy', hL.remove_next hmem (.inl (hy (bk x)))]

end Lists

end Links

end HiStar.Lib
