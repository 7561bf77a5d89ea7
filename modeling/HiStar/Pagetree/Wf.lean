import HiStar.Pagetree.Position

namespace HiStar.Pagetree

open Lib Function

variable {α : Type} {s s' s'' : Mem α} {pt i j p q : Nat} {path : List Nat} {e x : Ent}

namespace Mem

/-- The entries that count: those of the trees, and those on the indirect pages
in use. -/
def Live (s : Mem α) : Ent → Prop
  | .direct _ i => i < pagetreeDirectPages
  | .indirect _ i => i < pagetreeIndirects
  | .entry p i => 0 < (s.info p).piRef ∧ (s.info p).piIndir = true ∧ i < pagetreeEntriesPerPage

end Mem

/-- The place of the page behind an entry, where indirect pages have the places
that `pos` gives. -/
def posOf (pos : Nat → Pos) : Ent → Pos
  | .direct _ i => .direct i
  | .indirect _ i => .node i []
  | .entry p i => (pos p).child i

theorem posOf_update {pos : Nat → Pos} (hx : ∀ j, x ≠ .entry p j) (π : Pos) :
    posOf (update pos p π) x = posOf pos x := by
  cases x with
  | direct => rfl
  | indirect => rfl
  | entry q j =>
    have hq : q ≠ p := by
      rintro rfl
      exact hx j rfl
    simp only [posOf, update_of_ne hq]

theorem mem_tail_iff {l l' : List Nat} (h : l = p :: l') (hnd : l.Nodup) :
    q ∈ l' ↔ q ∈ l ∧ q ≠ p := by
  subst h
  rw [List.mem_cons]
  constructor
  · intro hq
    refine ⟨.inr hq, ?_⟩
    rintro rfl
    exact (List.nodup_cons.mp hnd).1 hq
  · rintro ⟨rfl | hq, hne⟩
    · exact absurd rfl hne
    · exact hq

/-- Between the calls: each page in use has one place in all the trees it is in,
`pi_ref` counts the entries that point to it, and write pins lie on private pages
and on all the indirect pages above. The frames in `other` are used for something
else. -/
structure Wf (other : Set Nat) (pos : Nat → Pos) (holders : Nat → Finset Ent) (s : Mem α) :
    Prop where
  null : (s.info 0).piRef = 0
  mem_holders : ∀ p, p ≠ 0 → ∀ e, e ∈ holders p ↔ s.Live e ∧ s.page e = p
  ref_eq : ∀ p, p ≠ 0 → (s.info p).piRef = (holders p).card
  pos_eq : ∀ e, s.Live e → s.page e ≠ 0 → pos (s.page e) = posOf pos e
  indir_iff : ∀ p, 0 < (s.info p).piRef → ((s.info p).piIndir = true ↔ (pos p).Inner)
  mem_free : ∀ p, p ∈ s.freeList ↔ p ≠ 0 ∧ (s.info p).piRef = 0 ∧ p ∉ other
  nodup : s.freeList.Nodup
  other_ref : ∀ p ∈ other, (s.info p).piRef = 0
  clean : ∀ p, (s.info p).piRef = 0 → s.info p = { piFreepage := decide (p ∈ s.freeList) }
  read_pin : ∀ p, (s.info p).piIndir = true → (s.info p).piHwReadPin = 0
  pin_ref : ∀ p, (s.info p).piHwWritePin ≠ 0 →
    (s.info p).piRef ≤ 1 + (s.info p).piWriteSharedRef
  pin_up : ∀ p i, s.Live (.entry p i) → s.page (.entry p i) ≠ 0 →
    (s.info (s.page (.entry p i))).piHwWritePin ≠ 0 → (s.info p).piHwWritePin ≠ 0

variable {other : Set Nat} {pos : Nat → Pos} {holders : Nat → Finset Ent}

namespace Wf

theorem ref_pos (h : Wf other pos holders s) (he : s.Live e) (hp : s.page e ≠ 0) :
    0 < (s.info (s.page e)).piRef := by
  rw [h.ref_eq _ hp]
  exact Finset.card_pos.mpr ⟨e, (h.mem_holders _ hp e).mpr ⟨he, rfl⟩⟩

theorem ne_zero (h : Wf other pos holders s) (hp : 0 < (s.info p).piRef) : p ≠ 0 := by
  rintro rfl
  rw [h.null] at hp
  exact absurd hp (lt_irrefl 0)

theorem live_of_node (h : Wf other pos holders s) (hq : 0 < (s.info q).piRef)
    (hpos : pos q = .node i path) (hl : path.length ≤ i) (hj : j < pagetreeEntriesPerPage) :
    s.Live (.entry q j) :=
  ⟨hq, (h.indir_iff q hq).mpr (by rw [hpos]; exact hl), hj⟩

theorem node_pos (h : Wf other pos holders s) (hb : (Pos.node i path).Bounded)
    (hl : path.length ≤ i + 1) (hne : s.node pt i path ≠ 0) :
    pos (s.node pt i path) = .node i path ∧ 0 < (s.info (s.node pt i path)).piRef := by
  induction path with
  | nil => exact ⟨h.pos_eq (.indirect pt i) hb.1 hne, h.ref_pos (e := .indirect pt i) hb.1 hne⟩
  | cons j path ih =>
    rw [Mem.node] at hne ⊢
    split at hne
    · exact absurd rfl hne
    next hq =>
      rw [if_neg hq]
      obtain ⟨hpos, href⟩ := ih ⟨hb.1, fun a ha ↦ hb.2 a (List.mem_cons_of_mem j ha)⟩
        (by rw [List.length_cons] at hl; omega) hq
      have hlive : s.Live (.entry (s.node pt i path) j) :=
        h.live_of_node href hpos (by rw [List.length_cons] at hl; omega)
          (hb.2 j List.mem_cons_self)
      refine ⟨?_, h.ref_pos hlive hne⟩
      rw [h.pos_eq _ hlive hne, posOf, hpos]
      rfl

theorem pageAt_pos (h : Wf other pos holders s) {π : Pos} (hb : π.Bounded)
    (hl : π.Leaf ∨ π.Inner) (hne : s.pageAt pt π ≠ 0) : pos (s.pageAt pt π) = π := by
  cases π with
  | direct i => exact h.pos_eq (.direct pt i) hb hne
  | node i path => exact (h.node_pos hb (hl.elim le_of_eq Nat.le_succ_of_le) hne).1

theorem not_free (h : Wf other pos holders s) (hp : 0 < (s.info p).piRef) : p ∉ s.freeList :=
  fun hm ↦ absurd ((h.mem_free p).mp hm).2.1 (by omega)

theorem page_ne_of_free (h : Wf other pos holders s) (hf : p ∈ s.freeList) (hx : s.Live x) :
    s.page x ≠ p := by
  rintro rfl
  exact h.not_free (h.ref_pos hx ((h.mem_free _).mp hf).1) hf

theorem not_live_of_free (h : Wf other pos holders s) (hf : p ∈ s.freeList) :
    ¬ s.Live (.entry p i) := fun hl ↦ h.not_free hl.1 hf

end Wf

def PageInfo.Pinned (i : PageInfo) : Prop :=
  i.piWriteSharedRef ≠ 0 ∨ i.piHwWritePin ≠ 0 ∨ i.piHwReadPin ≠ 0

def Mem.Private (s : Mem α) (pt : Nat) : Prop := ∀ π, π.Bounded → π.Leaf ∨ π.Inner →
  s.pageAt pt π ≠ 0 → (s.info (s.pageAt pt π)).piRef = 1 ∧ ¬ (s.info (s.pageAt pt π)).Pinned

/-- Between two states of which the second one has the same pages at the same
places: only indirect pages have been copied or added, on the way to a page of the
tree `pt`. -/
structure Keeps (pt : Nat) (s s' : Mem α) : Prop where
  pageAt : ∀ pt π, π.Bounded → π.Leaf → s'.pageAt pt π = s.pageAt pt π
  data : ∀ p, p ∉ s.freeList → s'.data p = s.data p
  free : ∀ p, p ∈ s'.freeList → p ∈ s.freeList
  pinned : ∀ p, p ∉ s.freeList → (s'.info p).Pinned → (s.info p).Pinned
  priv : s.Private pt → s'.Private pt

theorem Keeps.refl (s : Mem α) : Keeps pt s s :=
  ⟨fun _ _ _ _ ↦ rfl, fun _ _ ↦ rfl, fun _ h ↦ h, fun _ _ h ↦ h, fun h ↦ h⟩

theorem Keeps.trans (h : Keeps pt s s') (h' : Keeps pt s' s'') : Keeps pt s s'' where
  pageAt pt π hb hl := (h'.pageAt pt π hb hl).trans (h.pageAt pt π hb hl)
  data p hp := (h'.data p fun hm ↦ hp (h.free p hm)).trans (h.data p hp)
  free p hp := h.free p (h'.free p hp)
  pinned p hp hpin := h.pinned p hp (h'.pinned p (fun hm ↦ hp (h.free p hm)) hpin)
  priv hs := h'.priv (h.priv hs)

theorem leaf_eq {π : Pos} (h : Wf other pos holders s)
    (hsim : ∀ i path, (Pos.node i path).Bounded → path.length ≤ i + 1 →
      s'.node pt i path = s.node pt i path ∨ s.node pt i path = q)
    (hq : q ≠ 0) (hinner : (pos q).Inner) (hd : ∀ i, s'.page (.direct pt i) = s.page (.direct pt i))
    (hb : π.Bounded) (hl : π.Leaf) : s'.pageAt pt π = s.pageAt pt π := by
  cases π with
  | direct i => exact hd i
  | node i path =>
    rcases hsim i path hb (le_of_eq hl) with hs | hs
    · exact hs
    · have hpos := (h.node_pos hb (le_of_eq hl) (hs ▸ hq)).1
      rw [hs] at hpos
      exact absurd (hpos ▸ hinner) hl.not_inner

end HiStar.Pagetree
