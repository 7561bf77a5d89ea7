import HiStar.Pagetree.Fork

namespace HiStar.Pagetree

open Lib Function

variable {α : Type} {s s' : Mem α} {pt i j p q : Nat} {path : List Nat} {e x : Ent} {π : Pos}
  {ind : Bool} {other : Set Nat} {pos : Nat → Pos} {holders : Nat → Finset Ent}

theorem Pos.length_le (h : (Pos.node i (j :: path)).Leaf ∨ (Pos.node i (j :: path)).Inner) :
    path.length ≤ i := by
  rcases h with h | h
  · exact Nat.le_of_eq (Nat.succ.inj h)
  · exact Nat.le_of_succ_le h

theorem Pos.Bounded.tail (h : (Pos.node i (j :: path)).Bounded) : (Pos.node i path).Bounded :=
  ⟨h.1, fun a ha ↦ h.2 a (List.mem_cons_of_mem j ha)⟩

theorem Wf.live_below (h : Wf other pos holders s) (hb : (Pos.node i (j :: path)).Bounded)
    (hl : path.length ≤ i) (hne : s.node pt i path ≠ 0) : s.Live (.entry (s.node pt i path) j) := by
  obtain ⟨hpos, href⟩ := h.node_pos hb.tail (by omega) hne
  exact h.live_of_node href hpos hl (hb.2 j List.mem_cons_self)

theorem Mem.node_cons (hne : s.node pt i path ≠ 0) :
    s.node pt i (j :: path) = s.page (.entry (s.node pt i path) j) := if_neg hne

theorem Mem.node_cons_zero (h : s.node pt i path = 0) : s.node pt i (j :: path) = 0 := if_pos h

namespace ForkOf

variable (hf : ForkOf other pos holders s s' e q ind)

include hf

theorem node_sim (pt : Nat) (hb : (Pos.node i path).Bounded) (hl : path.length ≤ i + 1) :
    s'.node pt i path = s.node pt i path ∨
      s.node pt i path = s.page e ∧ s'.node pt i path = q := by
  induction path with
  | nil =>
    by_cases he : Ent.indirect pt i = e
    · subst he
      exact .inr ⟨rfl, hf.page_e⟩
    · exact .inl (hf.page_live (x := .indirect pt i) hb.1 he)
  | cons j path ih =>
    have hl' : path.length ≤ i := by
      rw [List.length_cons] at hl
      omega
    rcases ih hb.tail (by omega) with hr | ⟨he, hq⟩
    · by_cases h0 : s.node pt i path = 0
      · left
        rw [Mem.node_cons_zero h0, Mem.node_cons_zero (hr.trans h0)]
      · have hlive := hf.toWf.live_below hb hl' h0
        rw [Mem.node_cons h0, Mem.node_cons (hr ▸ h0), hr]
        by_cases he : Ent.entry (s.node pt i path) j = e
        · rw [he]
          exact .inr ⟨rfl, hf.page_e⟩
        · exact .inl (hf.page_live hlive he)
    · left
      rw [Mem.node_cons (hq ▸ hf.new_ne_zero), hq, hf.page_new, Mem.node, he, Mem.below]

theorem direct_ne (hinner : (posOf pos e).Inner) : Ent.direct pt i ≠ e := by
  rintro rfl
  exact hinner

theorem pageAt_sim (hinner : (posOf pos e).Inner) (hb : π.Bounded) (hl : π.Leaf ∨ π.Inner) :
    s'.pageAt pt π = s.pageAt pt π ∨ s'.pageAt pt π = q := by
  cases π with
  | direct i => exact .inl (hf.page_live (x := .direct pt i) hb (hf.direct_ne hinner))
  | node i path =>
    have hlen : path.length ≤ i + 1 := hl.elim le_of_eq Nat.le_succ_of_le
    exact (hf.node_sim pt hb hlen).imp_right And.right

theorem pinned_iff (hinner : (posOf pos e).Inner) (hp : p ≠ q) :
    (s'.info p).Pinned ↔ (s.info p).Pinned := by
  obtain ⟨-, hw, hs, hr⟩ := hf.info_same hp
  have hread := hr fun he h0 ↦ by
    subst he
    exact (hf.indir_old h0).trans (hf.inner.mpr hinner)
  unfold PageInfo.Pinned
  rw [hread, hw, hs]

theorem keeps (hinner : (posOf pos e).Inner)
    (he : s.pageAt pt π = s.page e) (hb : π.Bounded) (hl : π.Leaf ∨ π.Inner) : Keeps pt s s' where
  pageAt pt π hb hl := by
    have hq : (update pos q (posOf pos e) q).Inner := by
      rw [update_self]
      exact hinner
    refine (leaf_eq (q := q) hf.wf (fun i path hb hl ↦ ?_) hf.new_ne_zero hq (fun i ↦ ?_)
      hb hl).symm
    · exact (hf.node_sim pt hb hl).imp Eq.symm And.right
    · rw [hf.page, update_of_ne (hf.direct_ne hinner)]
      rfl
  data p hp := hf.data p fun hq ↦ hp (hq ▸ hf.new_free)
  free p hp := (hf.mem_free'.mp hp).1
  pinned p hp := by
    refine (hf.pinned_iff hinner ?_).mp
    rintro rfl
    exact hp hf.new_free
  priv hs ρ hρ hlρ h0 := by
    by_cases hq : s'.pageAt pt ρ = q
    · obtain ⟨d, hd⟩ := hf.info_new
      rw [hq, hd]
      exact ⟨rfl, by simp [PageInfo.Pinned]⟩
    rw [hf.pinned_iff hinner hq]
    have hsame := (hf.pageAt_sim hinner hρ hlρ).resolve_right hq
    rw [hsame] at h0 hq ⊢
    obtain ⟨h1, hpin⟩ := hs ρ hρ hlρ h0
    refine ⟨?_, hpin⟩
    -- a page of a private tree is not copied
    have hnone : s.page e = 0 := by
      by_contra he0
      have := (hs π hb hl (he ▸ he0)).1
      have := hf.shared he0
      rw [← he] at this
      omega
    rw [hf.ref_eq' hq h0, if_neg (hnone ▸ h0), h1, hf.slots_empty h0 fun _ _ h ↦ absurd hnone h]
    rfl

theorem entAt_eq (hb : π.Bounded) (hl : π.Leaf ∨ π.Inner) (he : s.entAt pt π = e) :
    s'.entAt pt π = e := by
  rcases π with i | ⟨i, _ | ⟨j, path⟩⟩
  · exact he
  · exact he
  · have hlen : path.length ≤ i := Pos.length_le hl
    rcases hf.node_sim pt hb.tail (by omega) with hr | ⟨hq, -⟩
    · exact (congrArg (Ent.entry · j) hr).trans he
    · -- the page would be on itself
      have he' : e = .entry (s.page e) j := by
        rw [← hq]
        exact he.symm
      have hlive := hf.live
      rw [he'] at hlive
      have hpos := hf.pos_eq e hf.live (hf.toWf.ne_zero hlive.1)
      rw [congrArg (posOf pos) he'] at hpos
      exact absurd hpos.symm (Pos.child_ne _ ((hf.indir_iff _ hlive.1).mp hlive.2.1))

end ForkOf

end HiStar.Pagetree
